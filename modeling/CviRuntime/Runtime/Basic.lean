import Mathlib.Algebra.Order.Ring.Int

/-!
# Return codes (`include/cvitpu_debug.h`)

`CVI_RC` is `int`. The codes other than success and general failure are built by
`CVI_TPU_ERR` as 32-bit words with the top bit set, so they are negative.
-/

namespace CviRuntime.Runtime

/-- `TPU_EN_ERR_LEVEL_ERROR`. -/
def tpuEnErrLevelError : Nat := 4

/-- `CVI_TPU_RUNTIME`. -/
def cviTpuRuntime : Nat := 0x77

/-- `CVI_TPU_ERR` (`cvitpu_debug.h:97-98`): the word is converted to `int`. -/
def cviTpuErr (module level errId : Nat) : Int :=
  ((0xC0000000 ||| (module <<< 16) ||| (level <<< 13) ||| errId : Nat) : Int) - 2 ^ 32

/-- `CVI_RC_SUCCESS`. -/
def cviRcSuccess : Int := 0

/-- `CVI_RC_FAILURE`. -/
def cviRcFailure : Int := -1

/-- `CVI_RC_UNINIT`. -/
def cviRcUninit : Int := cviTpuErr cviTpuRuntime tpuEnErrLevelError 7

/-- `CVI_RC_INVALID_ARG`. -/
def cviRcInvalidArg : Int := cviTpuErr cviTpuRuntime tpuEnErrLevelError 3

/-- `CVI_RC_NOMEM`. -/
def cviRcNomem : Int := cviTpuErr cviTpuRuntime tpuEnErrLevelError 12

/-- `CVI_RC_DATA_ERR`. -/
def cviRcDataErr : Int := cviTpuErr cviTpuRuntime tpuEnErrLevelError 22

/-- `CVI_RC_UNSUPPORT`. -/
def cviRcUnsupport : Int := cviTpuErr cviTpuRuntime tpuEnErrLevelError 8

example : cviRcUninit = 0xC0778007 - 0x100000000 := by decide

end CviRuntime.Runtime
