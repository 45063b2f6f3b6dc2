import CviRuntime.Lib.Run
import Mathlib.Data.List.Basic

/-!
# Asynchronous submissions (`src/soc/common/cvi_device_mem.cpp`)

`run_async` submits a command buffer and leaves its sequence number in
`root_submit_array`, where 0 stands for a free entry; `wait_cmdbuf_all` waits for
the numbers it finds there. The numbers come from the 16-bit counter `ctx->seq_no`,
which starts at 0, wraps, and is shared with `run_cmdbuf`, `run_cmdbuf_ex` and
`run_cmdbuf_ex2`.
-/

namespace CviRuntime.SubmitQueue

/-- `SUBMIT_QUEUE_MAX` (`cvi_device_mem.h:20`). -/
def submitQueueMax : Nat := 100

/-- The part of `bm_context_t` and of the static members that the calls below use.
    `outstanding` is not in the code: it lists the sequence numbers of the `run_async`
    submissions made since the previous `wait_cmdbuf_all`, latest first. -/
structure State where
  seqNo : UInt16
  rootSubmitArray : List UInt16
  outstanding : List UInt16
  deriving DecidableEq, Repr

/-- A context fresh from `context_create` (`cvi_device_mem.cpp:647-672`). -/
def init : State where
  seqNo := 0
  rootSubmitArray := List.replicate submitQueueMax 0
  outstanding := []

/-- The loop of `run_async` that stores the number in the first free entry
    (`cvi_device_mem.cpp:929-934`). -/
def record (seqNoCurrent : UInt16) : List UInt16 → List UInt16
  | [] => []
  | entry :: rest =>
    if entry = 0 then seqNoCurrent :: rest else entry :: record seqNoCurrent rest

/-- `run_async` (`cvi_device_mem.cpp:914-938`). The counter advances and the number is
    recorded whether or not `submit_dmabuf` succeeds. -/
def runAsync (s : State) : State where
  seqNo := s.seqNo + 1
  rootSubmitArray := record s.seqNo s.rootSubmitArray
  outstanding := s.seqNo :: s.outstanding

/-- `run_cmdbuf` (`cvi_device_mem.cpp:818-834`). -/
def runCmdbuf (s : State) : State := { s with seqNo := s.seqNo + 1 }

/-- `run_cmdbuf_ex` (`cvi_device_mem.cpp:836-873`): a bad header magic returns early. -/
def runCmdbufEx (s : State) (magicOk : Bool) : State :=
  if magicOk then { s with seqNo := s.seqNo + 1 } else s

/-- `run_cmdbuf_ex2` (`cvi_device_mem.cpp:875-912`): a bad header magic is an assert. -/
def runCmdbufEx2 (s : State) (magicOk : Bool) : Option State :=
  if magicOk then some { s with seqNo := s.seqNo + 1 } else none

/-- The loop of `wait_cmdbuf_all` (`cvi_device_mem.cpp:757-763`): the calls of
    `wait_dmabuf` it makes and the array it leaves. `waitOk` is the outcome of
    `wait_dmabuf`, asserted to be success. -/
def waitLoop (waitOk : UInt16 → Bool) : List UInt16 → Option (List UInt16 × List UInt16)
  | [] => some ([], [])
  | entry :: rest =>
    if entry = 0 then
      (waitLoop waitOk rest).map fun (calls, array) => (calls, entry :: array)
    else if waitOk entry then
      (waitLoop waitOk rest).map fun (calls, array) => (entry :: calls, 0 :: array)
    else none

/-- `wait_cmdbuf_all` (`cvi_device_mem.cpp:754-765`). -/
def waitCmdbufAll (s : State) (waitOk : UInt16 → Bool) : Option (List UInt16 × State) :=
  (waitLoop waitOk s.rootSubmitArray).map fun (calls, array) =>
    (calls, { s with rootSubmitArray := array, outstanding := [] })

/-- The calls made on the context, with what the device answers. -/
inductive Op where
  | runAsync (submitOk : Bool)
  | runCmdbuf (submitOk : Bool)
  | runCmdbufEx (magicOk submitOk : Bool)
  | runCmdbufEx2 (magicOk submitOk : Bool)
  | waitCmdbufAll (waitOk : UInt16 → Bool)

def step (s : State) : Op → Option State
  | .runAsync _ => some (runAsync s)
  | .runCmdbuf _ => some (runCmdbuf s)
  | .runCmdbufEx magicOk _ => some (runCmdbufEx s magicOk)
  | .runCmdbufEx2 magicOk _ => runCmdbufEx2 s magicOk
  | .waitCmdbufAll waitOk => (waitCmdbufAll s waitOk).map Prod.snd

/-- At most `SUBMIT_QUEUE_MAX` submissions are outstanding after the call. -/
def Bounded (s : State) : Op → Prop
  | .runAsync _ => s.outstanding.length < submitQueueMax
  | _ => True

/-! ## What the array holds -/

/-- The entries in use are the outstanding numbers other than 0. -/
structure Inv (s : State) : Prop where
  length : s.rootSubmitArray.length = submitQueueMax
  entries : (s.rootSubmitArray.filter (· ≠ 0)).Perm (s.outstanding.filter (· ≠ 0))

theorem inv_init : Inv init where
  length := List.length_replicate
  entries := by
    have none : (List.replicate submitQueueMax (0 : UInt16)).filter (· ≠ 0) = [] := by
      rw [List.filter_eq_nil_iff]
      intro entry member
      simp [List.eq_of_mem_replicate member]
    simp only [init, none, List.filter_nil]
    exact List.Perm.nil

theorem record_length (seq : UInt16) (array : List UInt16) :
    (record seq array).length = array.length := by
  induction array with
  | nil => rfl
  | cons entry rest ih =>
    unfold record
    split
    · rfl
    · simp [ih]

/-- With a free entry left, recording adds the number to the entries in use, unless it is 0. -/
theorem record_entries {seq : UInt16} {array : List UInt16}
    (free : (array.filter (· ≠ 0)).length < array.length) :
    ((record seq array).filter (· ≠ 0)).Perm ((seq :: array).filter (· ≠ 0)) := by
  induction array with
  | nil => cases free
  | cons entry rest ih =>
    unfold record
    by_cases empty : entry = 0
    · rw [if_pos empty, List.filter_cons, List.filter_cons, List.filter_cons]
      simp [empty]
    · rw [if_neg empty, List.filter_cons_of_pos (by simpa using empty)]
      have later : (rest.filter (· ≠ 0)).length < rest.length := by
        rw [List.filter_cons_of_pos (by simpa using empty)] at free
        simpa using free
      refine ((ih later).cons entry).trans ?_
      by_cases zero : seq = 0
      · simp [zero, empty]
      · rw [List.filter_cons_of_pos (by simpa using zero),
          List.filter_cons_of_pos (by simpa using zero),
          List.filter_cons_of_pos (by simpa using empty)]
        exact List.Perm.swap _ _ _

/-- A successful `wait_cmdbuf_all` waits for the entries in use and frees them all. -/
theorem waitLoop_spec {waitOk : UInt16 → Bool} :
    ∀ {array calls array' : List UInt16}, waitLoop waitOk array = some (calls, array') →
      calls = array.filter (· ≠ 0) ∧ array' = List.replicate array.length 0 := by
  intro array
  induction array with
  | nil =>
    intro calls array' done
    cases done
    exact ⟨rfl, rfl⟩
  | cons entry rest ih =>
    intro calls array' done
    unfold waitLoop at done
    split at done
    · rename_i empty
      obtain ⟨⟨calls', rest'⟩, loop, same⟩ := Option.map_eq_some_iff.mp done
      cases same
      obtain ⟨rfl, rfl⟩ := ih loop
      exact ⟨by simp [empty], by simp [empty, List.replicate_succ]⟩
    · rename_i used
      split at done
      · obtain ⟨⟨calls', rest'⟩, loop, same⟩ := Option.map_eq_some_iff.mp done
        cases same
        obtain ⟨rfl, rfl⟩ := ih loop
        exact ⟨by simp [used], by simp [List.replicate_succ]⟩
      · cases done

theorem waitCmdbufAll_spec {s t : State} {waitOk : UInt16 → Bool} {calls : List UInt16}
    (done : waitCmdbufAll s waitOk = some (calls, t)) :
    calls = s.rootSubmitArray.filter (· ≠ 0) ∧
      t = { s with
        rootSubmitArray := List.replicate s.rootSubmitArray.length 0, outstanding := [] } := by
  obtain ⟨⟨calls', array'⟩, loop, same⟩ := Option.map_eq_some_iff.mp done
  cases same
  obtain ⟨rfl, rfl⟩ := waitLoop_spec loop
  exact ⟨rfl, rfl⟩

theorem inv_runAsync {s : State} (inv : Inv s) (room : s.outstanding.length < submitQueueMax) :
    Inv (runAsync s) where
  length := by
    simp only [runAsync]
    rw [record_length]
    exact inv.length
  entries := by
    have used : (s.rootSubmitArray.filter (· ≠ 0)).length < s.rootSubmitArray.length := by
      have kept := List.length_filter_le (· ≠ (0 : UInt16)) s.outstanding
      rw [inv.entries.length_eq, inv.length]
      omega
    refine (record_entries used).trans ?_
    by_cases zero : s.seqNo = 0
    · simpa [runAsync, zero] using inv.entries
    · simp only [runAsync]
      rw [List.filter_cons_of_pos (by simpa using zero),
        List.filter_cons_of_pos (by simpa using zero)]
      exact inv.entries.cons s.seqNo

theorem inv_step (s : State) (op : Op) (s' : State) (inv : Inv s) (bounded : Bounded s op)
    (stepped : step s op = some s') : Inv s' := by
  cases op with
  | runAsync submitOk =>
    cases stepped
    exact inv_runAsync inv bounded
  | runCmdbuf submitOk =>
    cases stepped
    exact ⟨inv.length, inv.entries⟩
  | runCmdbufEx magicOk submitOk =>
    cases stepped
    unfold runCmdbufEx
    split
    · exact ⟨inv.length, inv.entries⟩
    · exact inv
  | runCmdbufEx2 magicOk submitOk =>
    simp only [step, runCmdbufEx2] at stepped
    split at stepped
    · cases stepped
      exact ⟨inv.length, inv.entries⟩
    · cases stepped
  | waitCmdbufAll waitOk =>
    obtain ⟨⟨calls, t⟩, done, rfl⟩ := Option.map_eq_some_iff.mp stepped
    obtain ⟨-, rfl⟩ := waitCmdbufAll_spec done
    refine ⟨by simp [inv.length], ?_⟩
    have none : (List.replicate s.rootSubmitArray.length (0 : UInt16)).filter (· ≠ 0) = [] := by
      rw [List.filter_eq_nil_iff]
      intro entry member
      simp [List.eq_of_mem_replicate member]
    simp only [none, List.filter_nil]
    exact List.Perm.nil

/-! ## Waiting for everything -/

/-- `wait_cmdbuf_all`, called in `s`, does its job: it waits for every outstanding
    submission and leaves the array empty. -/
def WaitsForAll (s : State) (calls : List UInt16) (t : State) : Prop :=
  (∀ seq ∈ s.outstanding, seq ∈ calls) ∧ ∀ entry ∈ t.rootSubmitArray, entry = 0

/-- Every `wait_cmdbuf_all` of the run does its job. -/
def AllWaited (s : State) (ops : List Op) : Prop :=
  ∀ before after waitOk u calls t, ops = before ++ .waitCmdbufAll waitOk :: after →
    Run.run step s before = some u → waitCmdbufAll u waitOk = some (calls, t) →
    WaitsForAll u calls t

/-- No submission is made while the counter stands at 0. -/
def SubmitsNonzero (s : State) : Op → Prop
  | .runAsync _ => s.seqNo ≠ 0
  | _ => True

theorem mem_calls_iff {s t : State} {waitOk : UInt16 → Bool} {calls : List UInt16} (inv : Inv s)
    (done : waitCmdbufAll s waitOk = some (calls, t)) (seq : UInt16) :
    seq ∈ calls ↔ seq ∈ s.outstanding ∧ seq ≠ 0 := by
  obtain ⟨rfl, -⟩ := waitCmdbufAll_spec done
  rw [inv.entries.mem_iff, List.mem_filter]
  simp

/-- The array is always left empty; everything was waited for exactly when no outstanding
    submission carries the number 0. -/
theorem waitsForAll_iff {s t : State} {waitOk : UInt16 → Bool} {calls : List UInt16} (inv : Inv s)
    (done : waitCmdbufAll s waitOk = some (calls, t)) :
    WaitsForAll s calls t ↔ 0 ∉ s.outstanding := by
  constructor
  · intro waits zero
    exact ((mem_calls_iff inv done 0).mp (waits.1 0 zero)).2 rfl
  · intro nonzero
    refine ⟨?_, ?_⟩
    · intro seq member
      refine (mem_calls_iff inv done seq).mpr ⟨member, ?_⟩
      rintro rfl
      exact nonzero member
    · obtain ⟨-, rfl⟩ := waitCmdbufAll_spec done
      intro entry member
      exact List.eq_of_mem_replicate member

/-- Submitting only while the counter is not 0 keeps 0 out of the outstanding numbers. -/
theorem nonzero_step (s : State) (op : Op) (s' : State) (nonzero : 0 ∉ s.outstanding)
    (submits : SubmitsNonzero s op) (stepped : step s op = some s') : 0 ∉ s'.outstanding := by
  cases op with
  | runAsync submitOk =>
    cases stepped
    simp only [runAsync, List.mem_cons, not_or]
    exact ⟨Ne.symm submits, nonzero⟩
  | runCmdbuf submitOk =>
    cases stepped
    exact nonzero
  | runCmdbufEx magicOk submitOk =>
    cases stepped
    unfold runCmdbufEx
    split <;> exact nonzero
  | runCmdbufEx2 magicOk submitOk =>
    simp only [step, runCmdbufEx2] at stepped
    split at stepped
    · cases stepped
      exact nonzero
    · cases stepped
  | waitCmdbufAll waitOk =>
    obtain ⟨⟨calls, t⟩, done, rfl⟩ := Option.map_eq_some_iff.mp stepped
    obtain ⟨-, rfl⟩ := waitCmdbufAll_spec done
    exact List.not_mem_nil

/-- In every run that never submits while the counter is 0, each `wait_cmdbuf_all`
    waits for all submissions since the previous one and empties the array; and in any
    run, a `wait_cmdbuf_all` does so exactly when none of those submissions took the
    number 0. -/
theorem waitCmdbufAll_complete (ops : List Op) (bounded : Run.Admits step Bounded init ops) :
    (Run.Admits step SubmitsNonzero init ops → AllWaited init ops) ∧
      ∀ s waitOk calls t, Run.run step init ops = some s →
        waitCmdbufAll s waitOk = some (calls, t) →
        (WaitsForAll s calls t ↔ 0 ∉ s.outstanding) := by
  constructor
  · intro submits before after waitOk u calls t split reached done
    subst split
    have admissible := bounded.of_append.and submits.of_append
    have preserve : ∀ (s : State) (op : Op) (s' : State), (Inv s ∧ 0 ∉ s.outstanding) →
        (Bounded s op ∧ SubmitsNonzero s op) → step s op = some s' →
        Inv s' ∧ 0 ∉ s'.outstanding := by
      intro s op s' inv ok stepped
      exact ⟨inv_step s op s' inv.1 ok.1 stepped, nonzero_step s op s' inv.2 ok.2 stepped⟩
    have start : Inv init ∧ 0 ∉ init.outstanding := ⟨inv_init, List.not_mem_nil⟩
    have kept := Run.run_invariant preserve start admissible reached
    exact (waitsForAll_iff kept.1 done).mpr kept.2
  · intro s waitOk calls t reached done
    exact waitsForAll_iff (Run.run_invariant inv_step inv_init bounded reached) done

/-- After one ordinary submission the counter is 1, and the next one is waited for. -/
theorem waitCmdbufAll_complete_second :
    AllWaited init [.runCmdbuf true, .runAsync true, .waitCmdbufAll fun _ => true] := by
  have room : (runCmdbuf init).outstanding.length < submitQueueMax := by decide
  have nonzero : (runCmdbuf init).seqNo ≠ 0 := by decide
  apply (waitCmdbufAll_complete [.runCmdbuf true, .runAsync true, .waitCmdbufAll fun _ => true]
    ⟨trivial, ?_⟩).1 ⟨trivial, ?_⟩
  · intro s first
    cases first
    exact ⟨room, fun s' _ => ⟨trivial, fun _ _ => trivial⟩⟩
  · intro s first
    cases first
    exact ⟨nonzero, fun s' _ => ⟨trivial, fun _ _ => trivial⟩⟩

/-- The first submission of a context takes the number 0 and is never waited for. -/
theorem waitCmdbufAll_misses_first :
    Run.Admits step Bounded init [.runAsync true, .waitCmdbufAll fun _ => true] ∧
      ¬ AllWaited init [.runAsync true, .waitCmdbufAll fun _ => true] := by
  have room : init.outstanding.length < submitQueueMax := by decide
  refine ⟨⟨room, fun s _ => ⟨trivial, fun _ _ => trivial⟩⟩, ?_⟩
  intro all
  have waits := all [.runAsync true] [] (fun _ => true) (runAsync init) []
    { seqNo := 1, rootSubmitArray := List.replicate submitQueueMax 0, outstanding := [] }
    rfl rfl (by decide +kernel)
  exact absurd (waits.1 0 List.mem_cons_self) List.not_mem_nil

end CviRuntime.SubmitQueue
