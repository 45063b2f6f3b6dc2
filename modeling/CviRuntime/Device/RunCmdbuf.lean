import CviRuntime.Lib.ByteMem
import CviRuntime.Lib.Run

/-!
# Running a command buffer (`src/soc/common/cvi_device_mem.cpp`)

`run_cmdbuf_ex` and `run_cmdbuf_ex2` take the lock of the device, make the pages of the command
buffer writable, store the bases in its header, protect the pages again, submit, and release the
lock. Both look at the magic number in between: the first returns without protecting the pages,
the second asserts and, where `assert` is compiled out, returns with the lock held.
-/

namespace CviRuntime.RunCmdbuf

open ByteMem Run

/-- `dmabuf_magic_m` (`bm_types.h:85`), the first field of the header. -/
def dmabufMagicM (bytes : Nat → UInt8) : Nat := leNat (readBytes bytes 0 2)

/-- Where `arraybase_i_L` and `arraybase_i_H` lie (`bm_types.h:93-110`). -/
def arraybaseL (i : Nat) : Nat := 32 + 8 * i

def arraybaseH (i : Nat) : Nat := 36 + 8 * i

/-- `tpu_dmabuf_header_m`, the same for the four chips (`cvi180x_device_mem.cpp:9`). -/
def tpuDmabufHeaderM : Nat := 0xB5B5

/-- `CVI_RT_ARRAYBASE` (`cviruntime_context.h:19-28`). -/
structure ArrayBase where
  gaddrBase0 : UInt64
  gaddrBase1 : UInt64
  gaddrBase2 : UInt64
  gaddrBase3 : UInt64
  gaddrBase4 : UInt64
  gaddrBase5 : UInt64
  gaddrBase6 : UInt64
  gaddrBase7 : UInt64
  deriving DecidableEq, Repr

/-- The member `protect`, and whether `assert` is compiled in. -/
structure Config where
  protect : Bool
  asserts : Bool
  deriving DecidableEq, Repr

/-- A block of device memory: its bytes and the protection of its pages. -/
structure Cmdbuf where
  bytes : Nat → UInt8
  writable : Bool

/-- The device. `submitted` is not in the code: the numbers `submit_dmabuf` was called with,
    latest first. -/
structure State where
  locked : Bool
  seqNo : UInt16
  cmdbuf : Nat → Cmdbuf
  submitted : List UInt16

/-- What can become of a call: `returned` with the `bmerr_t` (success or `BM_ERR_FAILURE`) and
    what it stored in `*seq_no`; or it waits for a lock that its own thread holds, an assertion
    ends the process, or a store to a protected page does. -/
inductive Exit where
  | returned (success : Bool) (seqNo : Option UInt16) (s : State)
  | blocked
  | asserted
  | fault

namespace State

variable (s : State)

/-- `BMDEV_LOCK` (`bm_types.h:50`) and the code after it. -/
def bmdevLock (after : State → Exit) : Exit :=
  if s.locked then .blocked else after { s with locked := true }

def bmdevUnlock : State := { s with locked := false }

def setCmdbuf (mem : Nat) (block : Cmdbuf) : State :=
  { s with cmdbuf := Function.update s.cmdbuf mem block }

/-- `mem_protect` and `mem_unprotect` (`debug.cpp:28-40`). -/
def memProtect (mem : Nat) : State :=
  s.setCmdbuf mem { s.cmdbuf mem with writable := false }

def memUnprotect (mem : Nat) : State :=
  s.setCmdbuf mem { s.cmdbuf mem with writable := true }

/-- Stores of 32-bit words to the header, with the offset of each, and the code after them. -/
def store (mem : Nat) (words : List (Nat × UInt64)) (after : State → Exit) : Exit :=
  if (s.cmdbuf mem).writable then
    after (s.setCmdbuf mem { s.cmdbuf mem with
      bytes := words.foldl (fun bytes word => writeBytes bytes word.1 (le32 word.2.toNat))
        (s.cmdbuf mem).bytes })
  else .fault

/-- `submit_dmabuf`, which answers `submitOk`, and the end of both functions. -/
def submit (submitOk : Bool) : Exit :=
  .returned submitOk (some s.seqNo)
    { s with
      seqNo := s.seqNo + 1
      locked := false
      submitted := s.seqNo :: s.submitted }

/-- `run_cmdbuf_ex` (`cvi_device_mem.cpp:836-873`). -/
def runCmdbufEx (c : Config) (mem : Nat) (inputBaseAddr outputBaseAddr : UInt64)
    (submitOk : Bool) : Exit :=
  s.bmdevLock fun s =>
    let s := if c.protect then s.memUnprotect mem else s
    if dmabufMagicM (s.cmdbuf mem).bytes ≠ tpuDmabufHeaderM then
      .returned false none s.bmdevUnlock
    else
      s.store mem [(arraybaseL 2, inputBaseAddr), (arraybaseH 2, 0),
          (arraybaseL 3, outputBaseAddr), (arraybaseH 3, 0)] fun s =>
        let s := if c.protect then s.memProtect mem else s
        s.submit submitOk

/-- `run_cmdbuf_ex2` (`cvi_device_mem.cpp:875-912`). -/
def runCmdbufEx2 (c : Config) (mem : Nat) (arrayBase : ArrayBase) (submitOk : Bool) : Exit :=
  s.bmdevLock fun s =>
    let s := if c.protect then s.memUnprotect mem else s
    if dmabufMagicM (s.cmdbuf mem).bytes ≠ tpuDmabufHeaderM then
      if c.asserts then .asserted else .returned false none s
    else
      s.store mem [(arraybaseL 0, arrayBase.gaddrBase0), (arraybaseL 1, arrayBase.gaddrBase1),
          (arraybaseL 2, arrayBase.gaddrBase2), (arraybaseL 3, arrayBase.gaddrBase3),
          (arraybaseL 4, arrayBase.gaddrBase4), (arraybaseL 5, arrayBase.gaddrBase5),
          (arraybaseL 6, arrayBase.gaddrBase6), (arraybaseL 7, arrayBase.gaddrBase7)] fun s =>
        let s := if c.protect then s.memProtect mem else s
        s.submit submitOk

end State

/-- A call, with the answer of `submit_dmabuf`. -/
inductive Call where
  | runCmdbufEx (mem : Nat) (inputBaseAddr outputBaseAddr : UInt64) (submitOk : Bool)
  | runCmdbufEx2 (mem : Nat) (arrayBase : ArrayBase) (submitOk : Bool)
  deriving DecidableEq, Repr

namespace Call

def exec (c : Config) (s : State) : Call → Exit
  | .runCmdbufEx mem input output submitOk => s.runCmdbufEx c mem input output submitOk
  | .runCmdbufEx2 mem arrayBase submitOk => s.runCmdbufEx2 c mem arrayBase submitOk

def mem : Call → Nat
  | .runCmdbufEx mem _ _ _ => mem
  | .runCmdbufEx2 mem _ _ => mem

/-- The bytes of the words that the call assigns: the low and high words of the bases 2 and 3, or
    the low words of all eight bases. -/
def Assigns : Call → Nat → Prop
  | .runCmdbufEx .., off => ∃ i, (i = 2 ∨ i = 3) ∧ arraybaseL i ≤ off ∧ off < arraybaseH i + 4
  | .runCmdbufEx2 .., off => ∃ i < 8, arraybaseL i ≤ off ∧ off < arraybaseL i + 4

end Call

/-- One call after the other, as long as they return. -/
def step (c : Config) (s : State) (call : Call) : Option State :=
  match call.exec c s with
  | .returned _ _ s' => some s'
  | _ => none

/-- Between calls: the lock is free, and all pages are protected if `protect` is set. -/
structure Idle (c : Config) (s : State) : Prop where
  unlocked : s.locked = false
  pages : ∀ mem, (s.cmdbuf mem).writable = !c.protect

/-- What a call that returned has to leave behind. -/
structure Restored (c : Config) (s : State) (call : Call) (s' : State) : Prop where
  unlocked : s'.locked = false
  pages : (s'.cmdbuf call.mem).writable = !c.protect
  counted : s'.seqNo = s.seqNo ∧ s'.submitted = s.submitted ∨
    s'.seqNo = s.seqNo + 1 ∧ s'.submitted = s.seqNo :: s.submitted
  bytes : ∀ off, ¬ call.Assigns off → (s'.cmdbuf call.mem).bytes off = (s.cmdbuf call.mem).bytes off
  others : ∀ other, other ≠ call.mem → s'.cmdbuf other = s.cmdbuf other

/-- The call neither waits for ever nor writes to a protected page, and if it returns, the device
    is as it was. -/
def Restores (c : Config) (s : State) (call : Call) : Prop :=
  match call.exec c s with
  | .returned _ _ s' => Restored c s call s'
  | .asserted => True
  | .blocked => False
  | .fault => False

/-- The magic number is right; or else the call is one that has nothing to undo where it looks at
    the number: `run_cmdbuf_ex` without `protect`, or `run_cmdbuf_ex2` with `assert`. -/
def Good (c : Config) (s : State) : Call → Prop
  | .runCmdbufEx mem _ _ _ =>
    dmabufMagicM (s.cmdbuf mem).bytes = tpuDmabufHeaderM ∨ c.protect = false
  | .runCmdbufEx2 mem _ _ =>
    dmabufMagicM (s.cmdbuf mem).bytes = tpuDmabufHeaderM ∨ c.asserts = true

section

variable {c : Config} {s s' : State} {call : Call} {mem : Nat} {block : Cmdbuf}

@[simp] theorem setCmdbuf_self : (s.setCmdbuf mem block).cmdbuf mem = block :=
  Function.update_self ..

theorem setCmdbuf_of_ne {other : Nat} (apart : other ≠ mem) :
    (s.setCmdbuf mem block).cmdbuf other = s.cmdbuf other :=
  Function.update_of_ne apart ..

@[simp] theorem setCmdbuf_setCmdbuf {block' : Cmdbuf} :
    (s.setCmdbuf mem block).setCmdbuf mem block' = s.setCmdbuf mem block' := by
  simp [State.setCmdbuf]

/-- Words stored elsewhere do not change a byte. -/
theorem foldl_writeBytes_outside {off : Nat} :
    ∀ {words : List (Nat × UInt64)} {bytes : Nat → UInt8},
      (∀ word ∈ words, off < word.1 ∨ word.1 + 4 ≤ off) →
      words.foldl (fun bytes word => writeBytes bytes word.1 (le32 word.2.toNat)) bytes off =
        bytes off := by
  intro words
  induction words with
  | nil =>
    intro bytes _
    rfl
  | cons word words ih =>
    intro bytes outside
    rw [List.foldl_cons, ih fun other member => outside other (List.mem_cons_of_mem _ member)]
    exact writeBytes_outside (outside word List.mem_cons_self)

/-- Inside the lock the pages can be written, with `protect` or without. -/
theorem unprotected_eq (idle : Idle c s) (mem : Nat) :
    (if c.protect = true then State.memUnprotect { s with locked := true } mem
      else { s with locked := true }) =
      State.setCmdbuf { s with locked := true } mem ⟨(s.cmdbuf mem).bytes, true⟩ := by
  have pages := idle.pages mem
  cases on : c.protect with
  | true => rfl
  | false =>
    have same : (⟨(s.cmdbuf mem).bytes, true⟩ : Cmdbuf) = s.cmdbuf mem := by
      rw [on] at pages
      exact congrArg _ pages.symm
    rw [if_neg Bool.false_ne_true, same]
    simp only [State.setCmdbuf, Function.update_eq_self]

/-- After the stores the pages are protected again, if they were. -/
theorem protected_eq (u : State) (bytes : Nat → UInt8) :
    (if c.protect = true then (u.setCmdbuf mem ⟨bytes, true⟩).memProtect mem
      else u.setCmdbuf mem ⟨bytes, true⟩) = u.setCmdbuf mem ⟨bytes, !c.protect⟩ := by
  cases c.protect with
  | true => simp [State.memProtect]
  | false => rfl

/-- What the stores leave of the block. -/
def storedBytes (bytes : Nat → UInt8) (words : List (Nat × UInt64)) : Nat → UInt8 :=
  words.foldl (fun bytes word => writeBytes bytes word.1 (le32 word.2.toNat)) bytes

/-- The stores, the protection and the submission. -/
theorem store_submit (u : State) (bytes : Nat → UInt8) (words : List (Nat × UInt64))
    (submitOk : Bool) :
    (u.setCmdbuf mem ⟨bytes, true⟩).store mem words (fun s =>
      (if c.protect = true then s.memProtect mem else s).submit submitOk) =
      (u.setCmdbuf mem ⟨storedBytes bytes words, !c.protect⟩).submit submitOk := by
  rw [State.store, setCmdbuf_self, if_pos rfl, setCmdbuf_setCmdbuf, protected_eq]
  rfl

/-- A call that submits leaves the device as it should. -/
theorem restored_submit {bytes : Nat → UInt8}
    (outside : ∀ off, ¬ call.Assigns off → bytes off = (s.cmdbuf call.mem).bytes off) :
    Restored c s call
      { s with
        cmdbuf := Function.update s.cmdbuf call.mem ⟨bytes, !c.protect⟩
        seqNo := s.seqNo + 1
        locked := false
        submitted := s.seqNo :: s.submitted } where
  unlocked := rfl
  pages := by simp only [Function.update_self]
  counted := .inr ⟨rfl, rfl⟩
  bytes off free := by
    simp only [Function.update_self]
    exact outside off free
  others other apart := Function.update_of_ne apart ..

/-- Stores to fields that the call assigns are among what it may change. -/
theorem restored_store {words : List (Nat × UInt64)}
    (assigned : ∀ word ∈ words, ∀ off, word.1 ≤ off → off < word.1 + 4 → call.Assigns off) :
    Restored c s call
      { s with
        cmdbuf := Function.update s.cmdbuf call.mem
          ⟨storedBytes (s.cmdbuf call.mem).bytes words, !c.protect⟩
        seqNo := s.seqNo + 1
        locked := false
        submitted := s.seqNo :: s.submitted } := by
  refine restored_submit fun off free => foldl_writeBytes_outside fun word member => ?_
  by_contra inside
  exact free (assigned word member off (by omega) (by omega))

/-- `run_cmdbuf_ex` restores the device exactly when the magic number is right or nothing was
    unprotected. -/
theorem runCmdbufEx_restores (idle : Idle c s) (mem : Nat) (input output : UInt64)
    (submitOk : Bool) :
    Restores c s (.runCmdbufEx mem input output submitOk) ↔
      Good c s (.runCmdbufEx mem input output submitOk) := by
  rw [Restores, Good, Call.exec, State.runCmdbufEx, State.bmdevLock, idle.unlocked,
    if_neg Bool.false_ne_true]
  simp only [unprotected_eq idle, setCmdbuf_self]
  by_cases magic : dmabufMagicM (s.cmdbuf mem).bytes = tpuDmabufHeaderM
  · rw [if_neg (not_not.mpr magic), store_submit]
    refine iff_of_true ?_ (.inl magic)
    refine restored_store fun word member off first last => ?_
    simp only [List.mem_cons, List.not_mem_nil, or_false] at member
    rcases member with rfl | rfl | rfl | rfl
    · exact ⟨2, .inl rfl, by simp only [arraybaseL, arraybaseH] at *; omega⟩
    · exact ⟨2, .inl rfl, by simp only [arraybaseL, arraybaseH] at *; omega⟩
    · exact ⟨3, .inr rfl, by simp only [arraybaseL, arraybaseH] at *; omega⟩
    · exact ⟨3, .inr rfl, by simp only [arraybaseL, arraybaseH] at *; omega⟩
  · rw [if_pos magic]
    constructor
    · intro restored
      have pages : ((State.setCmdbuf { s with locked := true } mem
          ⟨(s.cmdbuf mem).bytes, true⟩).cmdbuf mem).writable = !c.protect := restored.pages
      rw [setCmdbuf_self] at pages
      exact .inr (Bool.not_eq_true' _ ▸ pages.symm)
    · rintro (right | off)
      · exact absurd right magic
      · refine ⟨rfl, ?_, .inl ⟨rfl, rfl⟩, fun off _ => ?_, fun other apart => ?_⟩
        · change ((State.setCmdbuf _ mem _).cmdbuf mem).writable = _
          rw [setCmdbuf_self, off]
          rfl
        · change ((State.setCmdbuf _ mem _).cmdbuf mem).bytes off = _
          rw [setCmdbuf_self]
          rfl
        · exact setCmdbuf_of_ne apart

/-- `run_cmdbuf_ex2` restores the device exactly when the magic number is right or the assertion
    ends the process. -/
theorem runCmdbufEx2_restores (idle : Idle c s) (mem : Nat) (arrayBase : ArrayBase)
    (submitOk : Bool) :
    Restores c s (.runCmdbufEx2 mem arrayBase submitOk) ↔
      Good c s (.runCmdbufEx2 mem arrayBase submitOk) := by
  rw [Restores, Good, Call.exec, State.runCmdbufEx2, State.bmdevLock, idle.unlocked,
    if_neg Bool.false_ne_true]
  simp only [unprotected_eq idle, setCmdbuf_self]
  by_cases magic : dmabufMagicM (s.cmdbuf mem).bytes = tpuDmabufHeaderM
  · rw [if_neg (not_not.mpr magic), store_submit]
    refine iff_of_true ?_ (.inl magic)
    refine restored_store fun word member off first last => ?_
    have low : ∃ i < 8, word.1 = arraybaseL i := by
      simp only [List.mem_cons, List.not_mem_nil, or_false] at member
      rcases member with rfl | rfl | rfl | rfl | rfl | rfl | rfl | rfl
      all_goals exact ⟨_, by decide, rfl⟩
    obtain ⟨i, small, start⟩ := low
    exact ⟨i, small, by omega⟩
  · rw [if_pos magic]
    cases ends : c.asserts with
    | true => exact iff_of_true trivial (.inr rfl)
    | false =>
      refine iff_of_false ?_ (by simp [magic])
      intro restored
      exact Bool.noConfusion restored.unlocked

theorem restores_iff (idle : Idle c s) (call : Call) : Restores c s call ↔ Good c s call := by
  cases call with
  | runCmdbufEx mem input output submitOk =>
    exact runCmdbufEx_restores idle mem input output submitOk
  | runCmdbufEx2 mem arrayBase submitOk => exact runCmdbufEx2_restores idle mem arrayBase submitOk

/-- A good call that returns leaves the device ready for the next one. -/
theorem Idle.step (idle : Idle c s) (good : Good c s call) (stepped : step c s call = some s') :
    Idle c s' := by
  have restores := (restores_iff idle call).mpr good
  rw [Restores] at restores
  rw [RunCmdbuf.step] at stepped
  cases outcome : call.exec c s with
  | returned success seqNo t =>
    rw [outcome] at restores stepped
    cases stepped
    refine ⟨restores.unlocked, fun mem => ?_⟩
    by_cases same : mem = call.mem
    · rw [same]
      exact restores.pages
    · rw [restores.others mem same]
      exact idle.pages mem
  | blocked => rw [outcome] at stepped; cases stepped
  | asserted => rw [outcome] at stepped; cases stepped
  | fault => rw [outcome] at stepped; cases stepped

end

/-- In a sequence of calls, whatever the headers hold and `submit_dmabuf` answers, every call that
    is reached restores the device and none waits for its own lock, exactly when each meets its
    condition. -/
theorem run_cmdbuf_restores_iff {c : Config} {s : State} (idle : Idle c s) (calls : List Call) :
    (∀ before call after s', before ++ call :: after = calls →
      run (step c) s before = some s' → Restores c s' call) ↔
      Admits (step c) (Good c) s calls :=
  forall_steps_iff (fun _ call idle => restores_iff idle call)
    (fun _ _ _ idle good stepped => idle.step good stepped) idle

/-- A device with two blocks: block 0 has the magic number, block 1 has not. -/
def twoBlocks (c : Config) : State where
  locked := false
  seqNo := 7
  cmdbuf mem := ⟨fun off => if mem = 0 ∧ off < 2 then 0xB5 else 0, !c.protect⟩
  submitted := []

theorem idle_twoBlocks (c : Config) : Idle c (twoBlocks c) := ⟨rfl, fun _ => rfl⟩

/-- Under `protect`, both functions on a good block, the first with a submission that fails. -/
theorem run_cmdbuf_restores_two_calls :
    Restores ⟨true, false⟩ (twoBlocks ⟨true, false⟩) (.runCmdbufEx 0 0x12345678 0 false) ∧
    ∃ s, run (step ⟨true, false⟩) (twoBlocks ⟨true, false⟩)
        [.runCmdbufEx 0 0x12345678 0 false] = some s ∧
      Restores ⟨true, false⟩ s (.runCmdbufEx2 0 ⟨0, 1, 2, 3, 4, 5, 6, 7⟩ true) := by
  have all := (run_cmdbuf_restores_iff (idle_twoBlocks ⟨true, false⟩)
    [.runCmdbufEx 0 0x12345678 0 false, .runCmdbufEx2 0 ⟨0, 1, 2, 3, 4, 5, 6, 7⟩ true]).mpr ?_
  · exact ⟨all [] _ _ _ rfl rfl, _, rfl, all [_] _ [] _ rfl rfl⟩
  · refine ⟨.inl rfl, ?_⟩
    rintro _ ⟨⟩
    refine ⟨.inl rfl, ?_⟩
    rintro _ ⟨⟩
    trivial

/-- A wrong magic number: `run_cmdbuf_ex` leaves the pages writable, and after `run_cmdbuf_ex2`
    without `assert` the next call waits for ever. -/
theorem run_cmdbuf_wrong_magic :
    (∃ s, (Call.runCmdbufEx 1 0 0 true).exec ⟨true, true⟩ (twoBlocks ⟨true, true⟩) =
        .returned false none s ∧
      (s.cmdbuf 1).writable = true) ∧
    ∃ s, run (step ⟨false, false⟩) (twoBlocks ⟨false, false⟩)
        [.runCmdbufEx2 1 ⟨0, 1, 2, 3, 4, 5, 6, 7⟩ true] = some s ∧
      s.locked = true ∧ (Call.runCmdbufEx 0 0 0 true).exec ⟨false, false⟩ s = .blocked :=
  ⟨⟨_, rfl, rfl⟩, _, rfl, rfl, rfl⟩

end CviRuntime.RunCmdbuf
