import CviRuntime.Lib.Run
import CviRuntime.Runtime.Basic

/-!
# Registering, cloning and cleaning up models (`src/common/runtime.cpp`)

The models of a process share one device context `g_ctx`, counted by `g_ctx_ref_count`,
and one static string `CviModel::targetChipType`. A registration reads a stream: its
header is checked here (`model.cpp:141-168`); what the rest of `CviModel::parse` returns
depends on the flatbuffer and on the device and is part of the attempt. A failed assert
ends the program (`none`).
-/

namespace CviRuntime.Runtime

/-- `sizeof(MODEL_HEADER)` (`model.hpp:19-27`): magic 8, body_size 4, major, minor, md5 16,
    chip 16, padding 2 bytes. -/
def sizeofModelHeader : Nat := 48

/-- A C string is a list of bytes. -/
abbrev CString := List UInt8

/-- `"cv183x"`. -/
def cv183x : CString := [0x63, 0x76, 0x31, 0x38, 0x33, 0x78]

/-- A tensor of a program, as the flatbuffer gives it. -/
inductive DType where
  | bf16 | int8 | uint8 | fp32 | int16 | uint16 | int32 | uint32
  | other (code : Nat)
  deriving DecidableEq, Repr

structure FbTensor where
  dtype : DType
  shape : Fin 4 → Int
  aligned : Bool
  size : Nat
  pixelFormat : String

/-- What a client offers to one of the registration calls. `overrun` are the bytes that
    follow the header on the stack up to a NUL: they are read only if `chip` and `padding`
    hold no NUL. `parseRc` is what `parse` returns once the header is accepted, `programs`
    the programs of the model. -/
structure Attempt where
  stream : List UInt8
  overrun : List UInt8
  parseRc : Int
  programs : List (List FbTensor)

namespace Attempt

def headerByte (a : Attempt) (i : Nat) : UInt8 := a.stream.getD i 0

/-- The string `header.chip`. -/
def headerChip (a : Attempt) : CString :=
  ((a.stream.take sizeofModelHeader).drop 30 ++ a.overrun).takeWhile (· ≠ 0)

/-- The chip the header names: version 1.0 has no chip field (`model.cpp:157-162`). -/
def targetChip (a : Attempt) : CString :=
  if a.headerByte 12 = 1 ∧ a.headerByte 13 = 0 then cv183x else a.headerChip

/-- The header is read at all (`model.cpp:142-145`). -/
def headerRead (a : Attempt) : Bool := sizeofModelHeader < a.stream.length

end Attempt

/-- Where the library runs: on a device its chip is fixed by `CHIPID`; on x86 the chip is
    the environment variable `SET_CHIP_NAME`. -/
inductive Platform where
  | soc (chip : CString)
  | cmodel

/-- The part of a neuron that depends on the chip. -/
structure Geometry where
  vpssYAlign : Int
  vpssWAlign : Int
  vpssChannelAlign : Int
  size : Nat
  deriving DecidableEq, Repr

/-- `ModelInstance` (`runtime.cpp:23-52`) with its model; `program` is `none` until it is
    loaded. -/
structure ModelInstance where
  programs : List (List FbTensor)
  programId : Nat
  program : Option (List Geometry)

/-- The statics of `runtime.cpp` and `model.cpp`, the environment variable, and the live
    handles. `g_ctx` is null or not. -/
structure Globals where
  platform : Platform
  gCtx : Bool
  gCtxRefCount : Int
  gModelCount : Int
  targetChipType : CString
  setChipName : CString
  instances : List (Nat × ModelInstance)
  nextHandle : Nat

/-- Before the first call. -/
def Globals.initial (platform : Platform) (setChipName : CString) : Globals where
  platform := platform
  gCtx := false
  gCtxRefCount := 0
  gModelCount := 0
  targetChipType := []
  setChipName := setChipName
  instances := []
  nextHandle := 0

/-- The number of live handles. -/
def Globals.live (g : Globals) : Nat := g.instances.length

/-- `CviModel::checkIfMatchTargetChipType` (`model.cpp:117-139`). -/
def checkIfMatchTargetChipType (g : Globals) (target : CString) : Bool :=
  match g.platform with
  | .soc chip => target = chip
  | .cmodel => target = g.setChipName

/-- `CviModel::parseModelHeader` (`model.cpp:141-168`): the static string is assigned before
    it is checked. -/
def parseModelHeader (g : Globals) (a : Attempt) : Int × Globals :=
  if a.stream.length ≤ sizeofModelHeader then (cviRcInvalidArg, g) else
  let g := { g with targetChipType := a.targetChip }
  if checkIfMatchTargetChipType g g.targetChipType then (cviRcSuccess, g)
  else (cviRcInvalidArg, g)

/-- `CviModel::acquire` and `CviModel::parse` (`model.cpp:407-442,492-524`). -/
def acquire (g : Globals) (a : Attempt) : Int × Globals :=
  match parseModelHeader g a with
  | (rc, g) => if rc ≠ cviRcSuccess then (rc, g) else (a.parseRc, g)

/-- `setChipTypeForCmodel` and `setChipTypeForCmodelFd` (`runtime.cpp:55-78`), compiled in on
    x86 only; a short stream fails an assert. -/
def setChipTypeForCmodel (g : Globals) (a : Attempt) : Option Globals :=
  match g.platform with
  | .soc _ => some g
  | .cmodel =>
    if a.stream.length ≤ sizeofModelHeader then none
    else some { g with setChipName := a.headerChip }

/-- The context is made on demand; `CVI_RT_Init` asserts that it succeeds. -/
def ensureContext (g : Globals) (a : Attempt) : Option Globals :=
  if g.gCtx then some g
  else (setChipTypeForCmodel g a).map fun g => { g with gCtx := true }

/-- The common body of the three registration calls (`runtime.cpp:81-170`), which read a
    file, a file descriptor or a buffer. It returns the code and the handle, or null. -/
def registerModelWith (g : Globals) (a : Attempt) : Option (Int × Option Nat × Globals) :=
  (ensureContext g a).map fun g =>
    match acquire { g with gModelCount := g.gModelCount + 1 } a with
    | (rc, g) =>
      if rc ≠ cviRcSuccess then (rc, none, g)
      else (cviRcSuccess, some g.nextHandle, { g with
        gCtxRefCount := g.gCtxRefCount + 1
        instances := (g.nextHandle, ⟨a.programs, 0, none⟩) :: g.instances
        nextHandle := g.nextHandle + 1 })

/-- `CVI_NN_RegisterModel` (`runtime.cpp:111-139`). On x86, with no context yet, an empty file
    name fails the assert of `CviModel::getChipType`. -/
def cviNNRegisterModel (g : Globals) (modelFile : String) (a : Attempt) :
    Option (Int × Option Nat × Globals) :=
  match g.platform, g.gCtx, modelFile.isEmpty with
  | .cmodel, false, true => none
  | _, _, _ => registerModelWith g a

/-- `CVI_NN_RegisterModelFromBuffer` (`runtime.cpp:141-170`). -/
def cviNNRegisterModelFromBuffer (g : Globals) (a : Attempt) :
    Option (Int × Option Nat × Globals) :=
  registerModelWith g a

/-- `CVI_NN_RegisterModelFromFd` (`runtime.cpp:81-109`). -/
def cviNNRegisterModelFromFd (g : Globals) (a : Attempt) : Option (Int × Option Nat × Globals) :=
  registerModelWith g a

/-- `CVI_NN_CloneModel` (`runtime.cpp:174-185`) of a live handle. -/
def cviNNCloneModel (g : Globals) (handle : Nat) : Option (Int × Globals) :=
  (g.instances.lookup handle).map fun inst =>
    (cviRcSuccess, { g with
      gCtxRefCount := g.gCtxRefCount + 1
      instances := (g.nextHandle, ⟨inst.programs, 0, none⟩) :: g.instances
      nextHandle := g.nextHandle + 1 })

/-- The instances without the one of a handle. -/
def Globals.deleteInstance (g : Globals) (handle : Nat) : Option Globals :=
  if (g.instances.lookup handle).isSome then
    some { g with instances := g.instances.eraseP (·.1 = handle) }
  else none

/-- `CVI_NN_CleanupModel` (`runtime.cpp:291-303`). The flag says whether `CVI_RT_DeInit` was
    called; it dereferences `g_ctx`. -/
def cviNNCleanupModel (g : Globals) (handle : Option Nat) : Option (Int × Bool × Globals) :=
  (match handle with
    | some handle => g.deleteInstance handle
    | none => some g).bind fun g =>
    let g := { g with gCtxRefCount := g.gCtxRefCount - 1 }
    if g.gCtxRefCount = 0 then
      if g.gCtx then some (cviRcSuccess, true, { g with gCtx := false }) else none
    else some (cviRcSuccess, false, g)

/-! ## Runs -/

/-- The calls of a client. -/
inductive ApiCall where
  | registerModel (modelFile : String) (a : Attempt)
  | registerModelFromBuffer (a : Attempt)
  | registerModelFromFd (a : Attempt)
  | cloneModel (handle : Nat)
  | cleanupModel (handle : Option Nat)

/-- One call: the statics after it, and whether it called `CVI_RT_DeInit`. -/
def perform (g : Globals) : ApiCall → Option (Bool × Globals)
  | .registerModel modelFile a => (cviNNRegisterModel g modelFile a).map fun (_, _, g) => (false, g)
  | .registerModelFromBuffer a => (cviNNRegisterModelFromBuffer g a).map fun (_, _, g) => (false, g)
  | .registerModelFromFd a => (cviNNRegisterModelFromFd g a).map fun (_, _, g) => (false, g)
  | .cloneModel handle => (cviNNCloneModel g handle).map fun (_, g) => (false, g)
  | .cleanupModel handle => (cviNNCleanupModel g handle).map fun (_, deInit, g) => (deInit, g)

def apiStep (g : Globals) (call : ApiCall) : Option Globals := (perform g call).map Prod.snd

/-- The count is the number of live handles and the context exists while one is live. -/
structure Counted (g : Globals) : Prop where
  count : g.gCtxRefCount = g.live
  context : 0 < g.live → g.gCtx = true

/-- `CVI_RT_DeInit` is called by a step exactly when the last live handle goes. -/
def DeInitsOnLast (g : Globals) (call : ApiCall) : Prop :=
  ∀ deInit g', perform g call = some (deInit, g') →
    (deInit = true ↔ g.live = 1 ∧ g'.live = 0)

/-- The lifetime of the context along a run: every state reached is counted and every step
    calls `CVI_RT_DeInit` exactly when the last live handle goes. -/
def ContextLifetime (g : Globals) (calls : List ApiCall) : Prop :=
  (∀ before after u, calls = before ++ after → Run.run apiStep g before = some u → Counted u) ∧
    ∀ before call after u, calls = before ++ call :: after →
      Run.run apiStep g before = some u → DeInitsOnLast u call

/-! ## The lifetime of the context -/

/-- Parsing assigns the static string, if it gets to read the header, and nothing else. -/
theorem acquire_globals (g : Globals) (a : Attempt) :
    (acquire g a).2 = { g with
      targetChipType := if a.headerRead then a.targetChip else g.targetChipType } := by
  have parsed : (acquire g a).2 = (parseModelHeader g a).2 := by
    unfold acquire
    split
    · rename_i code g' header
      rw [header]
      split
      · rfl
      · rfl
  rw [parsed]
  unfold parseModelHeader
  by_cases short : a.stream.length ≤ sizeofModelHeader
  · have unread : a.headerRead = false := by simpa [Attempt.headerRead] using short
    rw [if_pos short, unread]
    rfl
  · have read : a.headerRead = true := by simpa [Attempt.headerRead] using short
    rw [if_neg short, read]
    dsimp only
    split
    · rfl
    · rfl

theorem ensureContext_spec {g g' : Globals} {a : Attempt} (done : ensureContext g a = some g') :
    ∃ chip, g' = { g with gCtx := true, setChipName := chip } := by
  unfold ensureContext at done
  by_cases ready : g.gCtx = true
  · rw [if_pos ready] at done
    cases done
    refine ⟨g.setChipName, ?_⟩
    rw [← ready]
  · rw [if_neg ready] at done
    obtain ⟨g₁, chip, rfl⟩ := Option.map_eq_some_iff.mp done
    unfold setChipTypeForCmodel at chip
    split at chip
    · cases chip
      exact ⟨g.setChipName, rfl⟩
    · split at chip
      · cases chip
      · cases chip
        exact ⟨a.headerChip, rfl⟩

/-- What a registration leaves behind: a context, the static string, and when it succeeds a
    new handle that is counted. -/
theorem registerModelWith_spec {g g' : Globals} {a : Attempt} {rc : Int} {handle : Option Nat}
    (done : registerModelWith g a = some (rc, handle, g')) :
    g'.gCtx = true ∧
      g'.targetChipType = (if a.headerRead then a.targetChip else g.targetChipType) ∧
      (rc ≠ cviRcSuccess ∧ g'.gCtxRefCount = g.gCtxRefCount ∧ g'.instances = g.instances ∨
        rc = cviRcSuccess ∧ g'.gCtxRefCount = g.gCtxRefCount + 1 ∧ g'.live = g.live + 1) := by
  obtain ⟨g₁, ready, rest⟩ := Option.map_eq_some_iff.mp done
  obtain ⟨chip, rfl⟩ := ensureContext_spec ready
  have acquired := acquire_globals
    { g with gCtx := true, setChipName := chip, gModelCount := g.gModelCount + 1 } a
  cases outcome : acquire
      { g with gCtx := true, setChipName := chip, gModelCount := g.gModelCount + 1 } a with
  | mk code g₂ =>
    rw [outcome] at rest acquired
    simp only at rest acquired
    subst acquired
    split at rest
    · rename_i failed
      cases rest
      exact ⟨rfl, rfl, Or.inl ⟨failed, rfl, rfl⟩⟩
    · cases rest
      exact ⟨rfl, rfl, Or.inr ⟨rfl, rfl, rfl⟩⟩

theorem deleteInstance_spec {g g' : Globals} {handle : Nat}
    (done : g.deleteInstance handle = some g') :
    g'.live + 1 = g.live ∧ g'.gCtxRefCount = g.gCtxRefCount ∧ g'.gCtx = g.gCtx := by
  unfold Globals.deleteInstance at done
  split at done
  · rename_i live
    cases done
    refine ⟨?_, rfl, rfl⟩
    obtain ⟨entry, member, same⟩ := List.lookup_isSome_iff.mp live
    have shorter := List.length_eraseP_of_mem member (p := fun entry => entry.1 = handle)
      (by simpa using (LawfulBEq.eq_of_beq same).symm)
    have positive := List.length_pos_of_mem member
    simp only [Globals.live, shorter]
    omega
  · cases done

/-- A cleanup takes one off the count, whatever the handle, and calls `CVI_RT_DeInit` when
    the count becomes 0. -/
theorem cviNNCleanupModel_spec {g g' : Globals} {handle : Option Nat} {rc : Int} {deInit : Bool}
    (done : cviNNCleanupModel g handle = some (rc, deInit, g')) :
    g'.live + (if handle.isSome then 1 else 0) = g.live ∧
      g'.gCtxRefCount = g.gCtxRefCount - 1 ∧ (deInit = true ↔ g'.gCtxRefCount = 0) ∧
      (g'.gCtxRefCount ≠ 0 → g'.gCtx = g.gCtx) := by
  obtain ⟨g₁, deleted, rest⟩ := Option.bind_eq_some_iff.mp done
  have before : g₁.live + (if handle.isSome then 1 else 0) = g.live ∧
      g₁.gCtxRefCount = g.gCtxRefCount ∧ g₁.gCtx = g.gCtx := by
    cases handle with
    | none =>
      cases deleted
      exact ⟨rfl, rfl, rfl⟩
    | some handle => exact deleteInstance_spec deleted
  dsimp only at rest
  split at rest
  · rename_i zero
    split at rest
    · cases rest
      refine ⟨before.1, ?_, ?_, ?_⟩
      · simp [before.2.1]
      · simpa using zero
      · intro nonzero
        exact absurd zero nonzero
    · cases rest
  · rename_i nonzero
    cases rest
    refine ⟨before.1, ?_, ?_, fun _ => before.2.2⟩
    · simp [before.2.1]
    · simpa using nonzero

/-- What a call does to the count, the context and the live handles. -/
theorem perform_spec {g g' : Globals} {call : ApiCall} {deInit : Bool}
    (done : perform g call = some (deInit, g')) :
    (deInit = false ∧ (g.gCtx = true → g'.gCtx = true) ∧
        (g'.gCtxRefCount = g.gCtxRefCount ∧ g'.live = g.live ∨
          g'.gCtxRefCount = g.gCtxRefCount + 1 ∧ g'.live = g.live + 1) ∧
        (g'.gCtx = true ∨ 0 < g.live) ∧ call ≠ .cleanupModel none) ∨
      ∃ handle, call = .cleanupModel handle ∧
        g'.live + (if handle.isSome then 1 else 0) = g.live ∧
        g'.gCtxRefCount = g.gCtxRefCount - 1 ∧ (deInit = true ↔ g'.gCtxRefCount = 0) ∧
        (g'.gCtxRefCount ≠ 0 → g'.gCtx = g.gCtx) := by
  -- the three registrations
  have registered : ∀ {rc : Int} {handle : Option Nat} {a : Attempt},
      registerModelWith g a = some (rc, handle, g') → call ≠ .cleanupModel none →
      (g.gCtx = true → g'.gCtx = true) ∧
        (g'.gCtxRefCount = g.gCtxRefCount ∧ g'.live = g.live ∨
          g'.gCtxRefCount = g.gCtxRefCount + 1 ∧ g'.live = g.live + 1) ∧
        (g'.gCtx = true ∨ 0 < g.live) ∧ call ≠ .cleanupModel none := by
    intro rc handle a done other
    obtain ⟨context, -, change⟩ := registerModelWith_spec done
    refine ⟨fun _ => context, ?_, Or.inl context, other⟩
    rcases change with ⟨-, count, same⟩ | ⟨-, count, more⟩
    · exact Or.inl ⟨count, congrArg List.length same⟩
    · exact Or.inr ⟨count, more⟩
  cases call with
  | registerModel modelFile a =>
    obtain ⟨⟨rc, handle, g₁⟩, done, same⟩ := Option.map_eq_some_iff.mp done
    cases same
    unfold cviNNRegisterModel at done
    split at done
    · cases done
    · exact Or.inl ⟨rfl, registered done (by simp)⟩
  | registerModelFromBuffer a =>
    obtain ⟨⟨rc, handle, g₁⟩, done, same⟩ := Option.map_eq_some_iff.mp done
    cases same
    exact Or.inl ⟨rfl, registered done (by simp)⟩
  | registerModelFromFd a =>
    obtain ⟨⟨rc, handle, g₁⟩, done, same⟩ := Option.map_eq_some_iff.mp done
    cases same
    exact Or.inl ⟨rfl, registered done (by simp)⟩
  | cloneModel handle =>
    obtain ⟨⟨rc, g₁⟩, done, same⟩ := Option.map_eq_some_iff.mp done
    cases same
    obtain ⟨inst, found, same⟩ := Option.map_eq_some_iff.mp done
    cases same
    obtain ⟨entry, member, -⟩ := List.lookup_isSome_iff.mp (by rw [found]; rfl)
    exact Or.inl ⟨rfl, fun h => h, Or.inr ⟨rfl, rfl⟩, Or.inr (List.length_pos_of_mem member),
      by simp⟩
  | cleanupModel handle =>
    obtain ⟨⟨rc, flag, g₁⟩, done, same⟩ := Option.map_eq_some_iff.mp done
    cases same
    exact Or.inr ⟨handle, rfl, cviNNCleanupModel_spec done⟩

/-- From a counted state, any call but a cleanup of null leads to a counted one, and calls
    `CVI_RT_DeInit` exactly when the last live handle goes. -/
theorem counted_perform {g g' : Globals} {call : ApiCall} {deInit : Bool} (counted : Counted g)
    (other : call ≠ .cleanupModel none) (done : perform g call = some (deInit, g')) :
    Counted g' ∧ (deInit = true ↔ g.live = 1 ∧ g'.live = 0) := by
  have count := counted.count
  rcases perform_spec done with
    ⟨quiet, kept, change, context, -⟩ | ⟨handle, rfl, live, taken, last, kept⟩
  · have open_ : 0 < g'.live → g'.gCtx = true := by
      intro _
      rcases context with now | before
      · exact now
      · exact kept (counted.context before)
    refine ⟨⟨?_, open_⟩, ?_⟩
    · rcases change with ⟨same, same'⟩ | ⟨more, more'⟩ <;> omega
    · rw [quiet]
      rcases change with ⟨-, same⟩ | ⟨-, more⟩ <;> simp <;> omega
  · cases handle with
    | none => exact absurd rfl other
    | some handle =>
      simp only [Option.isSome_some, if_true] at live
      refine ⟨⟨by omega, ?_⟩, ?_⟩
      · intro still
        rw [kept (by omega)]
        exact counted.context (by omega)
      · rw [last]
        omega

/-- A cleanup of null leaves fewer counted than live. -/
theorem not_counted_cleanup_null {g g' : Globals} (counted : Counted g)
    (done : apiStep g (.cleanupModel none) = some g') : ¬ Counted g' := by
  obtain ⟨⟨deInit, g₁⟩, performed, rfl⟩ := Option.map_eq_some_iff.mp done
  rcases perform_spec performed with ⟨-, -, -, -, other⟩ | ⟨handle, same, live, taken, -, -⟩
  · exact absurd rfl other
  · cases same
    intro after
    have before := counted.count
    have now : g₁.gCtxRefCount = g₁.live := after.count
    simp only [Option.isSome_none, Bool.false_eq_true, if_false, Nat.add_zero] at live
    omega

theorem counted_initial (platform : Platform) (setChipName : CString) :
    Counted (Globals.initial platform setChipName) where
  count := rfl
  context := fun live => absurd live (Nat.lt_irrefl 0)

/-- In a run of calls that all return, the context lives as it should exactly when no cleanup
    of a null handle is among them. -/
theorem contextLifetime_iff (platform : Platform) (setChipName : CString) (calls : List ApiCall)
    (t : Globals) (done : Run.run apiStep (Globals.initial platform setChipName) calls = some t) :
    ContextLifetime (Globals.initial platform setChipName) calls ↔
      ApiCall.cleanupModel none ∉ calls := by
  constructor
  · intro lifetime member
    obtain ⟨before, after, split⟩ := List.append_of_mem member
    rw [split] at done
    obtain ⟨u, reached, rest⟩ := Run.run_append.mp done
    obtain ⟨u', stepped, -⟩ := Run.run_cons.mp rest
    have counted := lifetime.1 before _ u split reached
    refine not_counted_cleanup_null counted stepped ?_
    refine lifetime.1 (before ++ [.cleanupModel none]) after u' (by simp [split]) ?_
    exact Run.run_append.mpr ⟨u, reached, Run.run_cons.mpr ⟨u', stepped, rfl⟩⟩
  · intro absent
    have counted : ∀ before after u, calls = before ++ after →
        Run.run apiStep (Globals.initial platform setChipName) before = some u → Counted u := by
      intro before after u split reached
      have others : ∀ call ∈ before, call ≠ .cleanupModel none := by
        intro call member same
        exact absent (by rw [split, ← same]; exact List.mem_append_left _ member)
      have preserve : ∀ (g : Globals) (call : ApiCall) (g' : Globals), Counted g →
          call ≠ .cleanupModel none → apiStep g call = some g' → Counted g' := by
        intro g call g' before other stepped
        obtain ⟨⟨deInit, g₁⟩, performed, rfl⟩ := Option.map_eq_some_iff.mp stepped
        exact (counted_perform before other performed).1
      exact Run.run_invariant preserve (counted_initial platform setChipName)
        (Run.Admits.of_forall (fun _ _ other => other) others) reached
    refine ⟨counted, ?_⟩
    intro before call after u split reached deInit g' performed
    have other : call ≠ .cleanupModel none := by
      intro same
      exact absent (by rw [split, ← same]; simp)
    exact (counted_perform (counted before _ u split reached) other performed).2

/-- A model for the cv183x whose stream is one byte longer than the header. -/
def cv183xAttempt : Attempt where
  stream := List.replicate 12 0 ++ [1, 0] ++ List.replicate 35 0
  overrun := []
  parseRc := 0
  programs := []

/-- Register, clone, clean up both: the last cleanup ends the context. -/
theorem contextLifetime_two_handles :
    ContextLifetime (Globals.initial (.soc cv183x) [])
      [.registerModelFromBuffer cv183xAttempt, .cloneModel 0, .cleanupModel (some 0),
        .cleanupModel (some 1)] := by
  obtain ⟨t, done⟩ : ∃ t, Run.run apiStep (Globals.initial (.soc cv183x) [])
      [.registerModelFromBuffer cv183xAttempt, .cloneModel 0, .cleanupModel (some 0),
        .cleanupModel (some 1)] = some t := ⟨_, rfl⟩
  exact (contextLifetime_iff (.soc cv183x) [] _ t done).mpr (by simp)

/-- With one model registered, a cleanup of null calls `CVI_RT_DeInit` while its handle is
    live. -/
theorem cleanup_null_ends_live_context :
    (∃ u t, Run.run apiStep (Globals.initial (.soc cv183x) [])
        [.registerModelFromBuffer cv183xAttempt] = some u ∧
      perform u (.cleanupModel none) = some (true, t) ∧ t.live = 1 ∧ t.gCtx = false) ∧
    ¬ ContextLifetime (Globals.initial (.soc cv183x) [])
      [.registerModelFromBuffer cv183xAttempt, .cleanupModel none] := by
  refine ⟨⟨_, _, rfl, rfl, rfl, rfl⟩, ?_⟩
  intro lifetime
  have counted := lifetime.1 [.registerModelFromBuffer cv183xAttempt, .cleanupModel none] [] _
    rfl rfl
  exact absurd counted.count (by decide)

end CviRuntime.Runtime
