import CviRuntime.Lib.Interval
import CviRuntime.Lib.Count
import CviRuntime.Lib.CondVar
import CviRuntime.Lib.Heap
import CviRuntime.Lib.Ring
import CviRuntime.Lib.Run
import CviRuntime.Lib.SlotTable
import CviRuntime.Lib.Simulation
import CviRuntime.Lib.Packed
import CviRuntime.Lib.BitStream
import CviRuntime.MemPool.Model
import CviRuntime.MemPool.Tiling
import CviRuntime.MemPool.Session
import CviRuntime.MemPool.Sizes
import CviRuntime.MemPool.Finders
import CviRuntime.Device.SubmitQueue
import CviRuntime.Device.SubmitAsync
import CviRuntime.Device.MemRegistry
import CviRuntime.Device.TeeFirewall
import CviRuntime.Device.RunCmdbuf
import CviRuntime.Lib.WriteBackCache
import CviRuntime.Runtime.Basic
import CviRuntime.Runtime.Neuron
import CviRuntime.Runtime.Program
import CviRuntime.Runtime.TaskPool
import CviRuntime.Runtime.Coherence
import CviRuntime.Runtime.Registry
import CviRuntime.Runtime.ChipTarget
import CviRuntime.Runtime.AlignedFrames
import CviRuntime.Dmabuf.Model
import CviRuntime.Dmabuf.Records
import CviRuntime.Dmabuf.Sizing
import CviRuntime.Dmabuf.Arms
import CviRuntime.Dmabuf.Slots
import CviRuntime.Dmabuf.Placement
import CviRuntime.Dmabuf.Convert
import CviRuntime.Dmabuf.Preservation
import CviRuntime.Dmabuf.Safety
import CviRuntime.Dmabuf.Image
import CviRuntime.Dmabuf.Layout
import CviRuntime.Dmabuf.Relocate
import CviRuntime.Dmabuf.Pmu
import CviRuntime.Dmabuf.Chips
import CviRuntime.CModel.Cmdbuf
import CviRuntime.CModel.Walk
import CviRuntime.CModel.Adjust
import CviRuntime.CModel.Reject
import CviRuntime.CModel.Streams
import CviRuntime.CModel.Device
import CviRuntime.CModel.Store
import CviRuntime.CModel.DeviceRefines
import CviRuntime.CModel.DeviceRun
import CviRuntime.CModel.Deferred
import CviRuntime.CModel.Encoded
import CviRuntime.Concurrency.RingQueue
import CviRuntime.Concurrency.Wakeup
import CviRuntime.Concurrency.ModelRef
import CviRuntime.Concurrency.WorkerPool
import CviRuntime.Concurrency.PoolQueue
import CviRuntime.Concurrency.Completion
import CviRuntime.Concurrency.Lifecycle
import CviRuntime.Concurrency.Progress
import CviRuntime.Concurrency.Start
import CviRuntime.Concurrency.Markers
import CviRuntime.Concurrency.Shutdown
import CviRuntime.Memory.Device
import CviRuntime.Memory.SharedMem
import CviRuntime.Memory.SharedSize
import CviRuntime.Memory.NeuronMem
import CviRuntime.Memory.ProgramMem
import CviRuntime.Memory.ModelParse
import CviRuntime.Memory.Stream
import CviRuntime.Memory.SectionLoad
import CviRuntime.Memory.ParsePromise
import CviRuntime.Memory.Ownership
import CviRuntime.Memory.Library
import CviRuntime.Memory.Custody
import CviRuntime.Memory.Pairing
import CviRuntime.Tool.Tensors
import CviRuntime.Tool.Model
import CviRuntime.Tool.Merge
import CviRuntime.Tool.SharedWeight
import CviRuntime.Tool.Names
import CviRuntime.Tool.Resolve
import CviRuntime.Tool.CpuWeights
import CviRuntime.Tool.Rebuild
import CviRuntime.Tool.Rewrite
import CviRuntime.Vlc.Stream
import CviRuntime.Vlc.Remap
import CviRuntime.Vlc.Block
import CviRuntime.Vlc.BlockCode
import CviRuntime.Vlc.Codec
import CviRuntime.Vlc.Int8
import CviRuntime.Vlc.Bf16
import CviRuntime.Vlc.Bounds
import CviRuntime.Vlc.Bias
import CviRuntime.Lib.Loop
import CviRuntime.Lib.Strips
import CviRuntime.Kernel.Cvk
import CviRuntime.Kernel.StrideCopy
import CviRuntime.Kernel.MaxFilter
import CviRuntime.Kernel.MaxFilterSearch
import CviRuntime.Kernel.GrayLight
import CviRuntime.Kernel.MatrixMul
import CviRuntime.Lib.Greedy
import CviRuntime.Lib.ForwardSearch
import CviRuntime.Lib.Binary32
import CviRuntime.Lib.KeyedMap
import CviRuntime.Lib.StablePlacement
import CviRuntime.Pmu.Events
import CviRuntime.Pmu.Ticks
import CviRuntime.Pmu.Fill
import CviRuntime.Pmu.Slots
import CviRuntime.Pmu.Matching
import CviRuntime.Pmu.Report
import CviRuntime.CpuFunction.Overlap
import CviRuntime.CpuFunction.Suppress
import CviRuntime.CpuFunction.ScanOrder
import CviRuntime.CpuFunction.Retina
import CviRuntime.CpuFunction.Proposal
import CviRuntime.CpuFunction.TopK
import CviRuntime.CpuFunction.SsdNms
import CviRuntime.CpuFunction.SsdRun
import CviRuntime.CpuFunction.SsdNeon
import CviRuntime.CpuFunction.SsdSelect
import CviRuntime.CpuFunction.SsdKeep
import CviRuntime.CpuFunction.SsdEquiv
import CviRuntime.Lib.RowMajor
import CviRuntime.Lib.FirstMax
import CviRuntime.CpuFunction.FrcnDetection
import CviRuntime.CpuFunction.InstanceNorm
import CviRuntime.CpuFunction.Softmax
import CviRuntime.CpuFunction.ArgMax
import CviRuntime.CpuFunction.ArgMaxBf16
import CviRuntime.CpuFunction.Reduce
import CviRuntime.CpuFunction.ReduceMean
import CviRuntime.CpuFunction.ReduceMax
import CviRuntime.CpuFunction.ReduceBytes
import CviRuntime.CpuFunction.CumSum
import CviRuntime.Lib.Scatter
import CviRuntime.Lib.Sampling
import CviRuntime.Lib.Assignment
import CviRuntime.Pmu.LineOrder
import CviRuntime.Device.CacheRange
import CviRuntime.CpuFunction.Shuffle
import CviRuntime.CpuFunction.GatherElements
import CviRuntime.CpuFunction.GatherNd
import CviRuntime.CpuFunction.RoiPooling
import CviRuntime.CpuFunction.GridSampler
import CviRuntime.CpuFunction.Interpolation
import CviRuntime.CpuFunction.DeformableConv
import CviRuntime.CpuFunction.DeformableConvRun
import CviRuntime.Lib.Lz77
import CviRuntime.Lib.ChunkCopy
import CviRuntime.Lib.CommonPrefix
import CviRuntime.Lz4Block.Buffer
import CviRuntime.Lz4Block.Plain
import CviRuntime.Lz4Block.Decompress
import CviRuntime.Lz4Block.MatchCopy
import CviRuntime.Lz4Block.SafeLoop
import CviRuntime.Lz4Block.FastLoop
import CviRuntime.Lz4Block.Encode
import CviRuntime.Lz4Block.Compress
import CviRuntime.Lz4Block.Count
import CviRuntime.Lz4Block.Emit
import CviRuntime.Lz4Block.Search
import CviRuntime.Lz4Block.CompressRun
import CviRuntime.Lz4Block.RoundTrip
import CviRuntime.Memory.LoadAlike
import CviRuntime.Tool.CompressedLoad
import CviRuntime.Lib.BlockStream
import CviRuntime.Lib.Placement
import CviRuntime.Tool.Md5
import CviRuntime.Tool.Md5Stream
import CviRuntime.Tool.SectionMd5
import CviRuntime.Kernel.FrameCalls
