import CviRuntime.Lib.Heap
import CviRuntime.Device.SubmitQueue

/-!
# Asynchronous kernel submission (`src/soc/common/cvi_rt_base.cpp`)

`SubmitAsync` frees the block of the previous call, loads the command buffer into a
new one and submits it; `submit_previous` submits the recorded block again. The result
of `load_cmdbuf` is not looked at, and nothing waits for the device before a block is
freed. Block addresses are numbers of a `Heap`, so that a freed block is never
mistaken for a later one.
-/

namespace CviRuntime.SubmitAsync

/-- `CVI_SUCCESS` and `CVI_FAILURE`. -/
inductive Rc where
  | success
  | failure
  deriving DecidableEq, Repr

/-- The outcome of `load_cmdbuf`: it writes `*cmdbuf_mem` only when it succeeds
    (`cvi180x_device_mem.cpp:91-152`), and frees on failure what it allocated. After a
    failure the caller's variable holds what the stack held. -/
inductive Load where
  | ok
  | fail (dmabufMem : Option Nat)
  deriving DecidableEq, Repr

/-- What the calls do to blocks and what they return. -/
inductive Event where
  /-- `run_async` of a block that is live or not -/
  | runAsync (mem : Option Nat) (live : Bool)
  /-- `mem_free_raw` of a block that is live or not, with its submissions waited for or not -/
  | memFree (mem : Nat) (live waited : Bool)
  /-- the result of a `SubmitAsync` that called `load_cmdbuf` -/
  | submitted (loaded : Bool) (rc : Rc)
  deriving DecidableEq, Repr

/-- A registered handle (its magic is right), the blocks, and the context it submits to.
    `pending` and `log` are not in the code: the submissions that no `wait_dmabuf` has
    waited for, and the events, both latest first. -/
structure State where
  registered : Bool
  dmabuf : Option Nat
  heap : Heap Unit
  queue : SubmitQueue.State
  pending : List (UInt16 × Option Nat)
  log : List Event

/-- A handle fresh from `RegisterKernel` (`cvi_rt_base.cpp:39-74`), which clears it. -/
def register (heap : Heap Unit) (queue : SubmitQueue.State) : State where
  registered := true
  dmabuf := none
  heap := heap
  queue := queue
  pending := []
  log := []

def Live (s : State) (mem : Option Nat) : Prop := ∃ block, mem = some block ∧ s.heap.Live block

instance (s : State) : (mem : Option Nat) → Decidable (Live s mem)
  | none => isFalse (by rintro ⟨block, null, -⟩; cases null)
  | some block => decidable_of_iff (s.heap.Live block) (by simp [Live])

/-- Some submission of the block has not been waited for. -/
def Unwaited (s : State) (block : Nat) : Prop := some block ∈ s.pending.map Prod.snd

instance (s : State) (block : Nat) : Decidable (Unwaited s block) :=
  inferInstanceAs (Decidable (_ ∈ _))

/-- `run_async` (`cvi_device_mem.cpp:914-938`). A null or dangling pointer is read all the same. -/
def runAsync (s : State) (mem : Option Nat) : State :=
  { s with
    queue := SubmitQueue.runAsync s.queue
    pending := (s.queue.seqNo, mem) :: s.pending
    log := .runAsync mem (decide (Live s mem)) :: s.log }

/-- `mem_free_raw` (`cvi180x_device_mem.cpp:66-89`). -/
def memFreeRaw (s : State) (block : Nat) : State :=
  { s with
    heap := s.heap.free block
    log := .memFree block (decide (s.heap.Live block)) (decide (¬ Unwaited s block)) :: s.log }

/-- The test before both calls of `mem_free_raw`. -/
def freeLast (s : State) : State :=
  match s.dmabuf with
  | none => s
  | some block => memFreeRaw s block

/-- `load_cmdbuf`, and the value of `dmabuf_mem` after it. -/
def loadCmdbuf (s : State) : Load → Option Nat × State
  | .ok => (some s.heap.next, { s with heap := s.heap.alloc () })
  | .fail dmabufMem => (dmabufMem, s)

def Load.isOk : Load → Bool
  | .ok => true
  | .fail _ => false

/-- `SubmitAsync` without `submit_previous` (`cvi_rt_base.cpp:123-139`). -/
def submitNew (s : State) (load : Load) : State :=
  let (dmabufMem, s) := loadCmdbuf (freeLast s) load
  let s := runAsync s dmabufMem
  { s with dmabuf := dmabufMem, log := .submitted load.isOk .success :: s.log }

/-- `SubmitAsync` with `submit_previous` (`cvi_rt_base.cpp:115-121`). -/
def submitPrevious (s : State) : Rc × State :=
  match s.dmabuf with
  | none => (.failure, s)
  | some block => (.success, runAsync s (some block))

/-- `WaitForAsync` (`cvi_rt_base.cpp:144-148`). -/
def waitForAsync (s : State) (waitOk : UInt16 → Bool) : Option State :=
  (SubmitQueue.waitCmdbufAll s.queue waitOk).map fun (calls, queue) =>
    { s with queue := queue, pending := s.pending.filter (fun entry => entry.1 ∉ calls) }

/-- `UnRegisterKernel` (`cvi_rt_base.cpp:77-102`). -/
def unRegisterKernel (s : State) : State := { freeLast s with registered := false }

/-- The calls on the handle, with what the device answers. -/
inductive Op where
  | submitAsync (load : Load)
  | submitAsyncPrevious
  | waitForAsync (waitOk : UInt16 → Bool)
  | unRegisterKernel

/-- One call; `none` after `UnRegisterKernel`, and where an assert ends the program. -/
def step (s : State) (op : Op) : Option State :=
  if s.registered then
    match op with
    | .submitAsync load => some (submitNew s load)
    | .submitAsyncPrevious => some (submitPrevious s).2
    | .waitForAsync waitOk => waitForAsync s waitOk
    | .unRegisterKernel => some (unRegisterKernel s)
  else none

/-! ## Safety -/

/-- The event is as it should be. -/
def Event.Good : Event → Prop
  | .runAsync _ live => live = true
  | .memFree _ live waited => live = true ∧ waited = true
  | .submitted loaded rc => loaded = false → rc = .failure

/-- `submit_handle->dmabuf` is null or live while the handle exists, only live blocks were
    submitted, only live blocks without unwaited submissions were freed, and every failed
    load was reported. -/
structure Safe (s : State) : Prop where
  handle : s.registered = true → ∀ block, s.dmabuf = some block → s.heap.Live block
  events : ∀ event ∈ s.log, event.Good

/-- The submissions of the recorded block have been waited for. -/
def LastWaited (s : State) : Prop := ∀ block, s.dmabuf = some block → ¬ Unwaited s block

/-- Loads succeed, and a call that frees the recorded block comes after its submissions
    have been waited for. -/
def Proper (s : State) : Op → Prop
  | .submitAsync load => load.isOk = true ∧ LastWaited s
  | .submitAsyncPrevious => True
  | .waitForAsync _ => True
  | .unRegisterKernel => LastWaited s

section

variable {s s' : State} {load : Load} {block : Nat}

theorem mem_memFreeRaw_log :
    Event.memFree block (decide (s.heap.Live block)) (decide (¬ Unwaited s block)) ∈
      (memFreeRaw s block).log :=
  List.mem_cons_self

theorem submitNew_log :
    (submitNew s load).log = .submitted load.isOk .success ::
      .runAsync (loadCmdbuf (freeLast s) load).1
        (decide (Live (loadCmdbuf (freeLast s) load).2 (loadCmdbuf (freeLast s) load).1)) ::
      (freeLast s).log := by
  cases load with
  | ok => rfl
  | fail dmabufMem => rfl

/-- Freeing a live block whose submissions have been waited for is a good event. -/
theorem freeLast_events (safe : Safe s) (registered : s.registered = true)
    (waited : LastWaited s) : ∀ event ∈ (freeLast s).log, event.Good := by
  unfold freeLast
  split
  · exact safe.events
  · rename_i block recorded
    intro event member
    rcases List.mem_cons.mp member with rfl | earlier
    · exact ⟨decide_eq_true (safe.handle registered block recorded),
        decide_eq_true (waited block recorded)⟩
    · exact safe.events event earlier

theorem safe_submitNew (safe : Safe s) (registered : s.registered = true)
    (loaded : load.isOk = true) (waited : LastWaited s) : Safe (submitNew s load) := by
  cases load with
  | fail dmabufMem => cases loaded
  | ok =>
    have fresh : ((freeLast s).heap.alloc ()).Live (freeLast s).heap.next :=
      Heap.live_alloc.mpr (Or.inr rfl)
    constructor
    · intro _ block recorded
      cases recorded
      exact fresh
    · intro event member
      rw [submitNew_log] at member
      simp only [List.mem_cons] at member
      rcases member with rfl | rfl | earlier
      · intro failed
        cases failed
      · exact decide_eq_true ⟨_, rfl, fresh⟩
      · exact freeLast_events safe registered waited event earlier

theorem safe_submitPrevious (safe : Safe s) (registered : s.registered = true) :
    Safe (submitPrevious s).2 := by
  unfold submitPrevious
  split
  · exact safe
  · rename_i block recorded
    have live := safe.handle registered block recorded
    refine ⟨safe.handle, ?_⟩
    intro event member
    rcases List.mem_cons.mp member with rfl | earlier
    · exact decide_eq_true ⟨block, rfl, live⟩
    · exact safe.events event earlier

theorem safe_unRegisterKernel (safe : Safe s) (registered : s.registered = true)
    (waited : LastWaited s) : Safe (unRegisterKernel s) := by
  constructor
  · intro still
    cases still
  · exact freeLast_events safe registered waited

end

theorem waitForAsync_cases {s s' : State} {waitOk : UInt16 → Bool}
    (done : waitForAsync s waitOk = some s') :
    ∃ calls queue, SubmitQueue.waitCmdbufAll s.queue waitOk = some (calls, queue) ∧
      s' = { s with
        queue := queue, pending := s.pending.filter (fun entry => entry.1 ∉ calls) } := by
  obtain ⟨⟨calls, queue⟩, waits, rfl⟩ := Option.map_eq_some_iff.mp done
  exact ⟨calls, queue, waits, rfl⟩

/-- What a call does, by kind of call. -/
theorem step_cases {s s' : State} {op : Op} (stepped : step s op = some s') :
    s.registered = true ∧
      ((∃ load, op = .submitAsync load ∧ s' = submitNew s load) ∨
        (op = .submitAsyncPrevious ∧ s' = (submitPrevious s).2) ∨
        (∃ waitOk, op = .waitForAsync waitOk ∧ waitForAsync s waitOk = some s') ∨
        (op = .unRegisterKernel ∧ s' = unRegisterKernel s)) := by
  unfold step at stepped
  split at stepped
  · rename_i registered
    refine ⟨registered, ?_⟩
    cases op with
    | submitAsync load =>
      cases stepped
      exact Or.inl ⟨load, rfl, rfl⟩
    | submitAsyncPrevious =>
      cases stepped
      exact Or.inr (Or.inl ⟨rfl, rfl⟩)
    | waitForAsync waitOk => exact Or.inr (Or.inr (Or.inl ⟨waitOk, rfl, stepped⟩))
    | unRegisterKernel =>
      cases stepped
      exact Or.inr (Or.inr (Or.inr ⟨rfl, rfl⟩))
  · cases stepped

/-- A proper call keeps the handle safe. -/
theorem safe_step (s : State) (op : Op) (s' : State) (safe : Safe s) (proper : Proper s op)
    (stepped : step s op = some s') : Safe s' := by
  obtain ⟨registered, kind⟩ := step_cases stepped
  rcases kind with ⟨load, rfl, rfl⟩ | ⟨rfl, rfl⟩ | ⟨waitOk, rfl, done⟩ | ⟨rfl, rfl⟩
  · exact safe_submitNew safe registered proper.1 proper.2
  · exact safe_submitPrevious safe registered
  · obtain ⟨calls, queue, -, rfl⟩ := waitForAsync_cases done
    exact ⟨safe.handle, safe.events⟩
  · exact safe_unRegisterKernel safe registered proper

/-- Freeing a block with an unwaited submission is a bad event. -/
theorem bad_of_unwaited {s : State} (unwaited : ¬ LastWaited s) :
    ∃ event ∈ (freeLast s).log, ¬ event.Good := by
  simp only [LastWaited, not_forall, not_not] at unwaited
  obtain ⟨block, recorded, unwaited⟩ := unwaited
  refine ⟨.memFree block (decide (s.heap.Live block)) (decide (¬ Unwaited s block)), ?_, ?_⟩
  · unfold freeLast
    rw [recorded]
    exact mem_memFreeRaw_log
  · intro good
    exact of_decide_eq_true good.2 unwaited

/-- Any other call leaves a bad event behind. -/
theorem step_breaks (s : State) (op : Op) (s' : State) (improper : ¬ Proper s op)
    (stepped : step s op = some s') : ¬ Safe s' := by
  intro safe
  obtain ⟨-, kind⟩ := step_cases stepped
  rcases kind with ⟨load, rfl, rfl⟩ | ⟨rfl, rfl⟩ | ⟨waitOk, rfl, done⟩ | ⟨rfl, rfl⟩
  · have events := safe.events
    rw [submitNew_log] at events
    by_cases loaded : load.isOk = true
    · obtain ⟨event, member, bad⟩ := bad_of_unwaited fun waited => improper ⟨loaded, waited⟩
      exact bad (events event (List.mem_cons_of_mem _ (List.mem_cons_of_mem _ member)))
    · have reported := events _ List.mem_cons_self (Bool.eq_false_iff.mpr loaded)
      cases reported
  · exact improper trivial
  · exact improper trivial
  · obtain ⟨event, member, bad⟩ := bad_of_unwaited improper
    exact bad (safe.events event member)

theorem safe_register (heap : Heap Unit) (queue : SubmitQueue.State) :
    Safe (register heap queue) where
  handle := by
    intro _ block recorded
    cases recorded
  events := by
    intro event member
    cases member

/-! ## Waiting for each submission -/

/-- The number that the next submission takes will be found by `wait_cmdbuf_all`: it is not
    0, and `root_submit_array` has a free entry. -/
def Recordable (s : State) : Prop := s.queue.seqNo ≠ 0 ∧ 0 ∈ s.queue.rootSubmitArray

/-- Loads succeed, submissions are recorded, and a call that frees a block finds no
    submission made since the last `WaitForAsync`. -/
def Paired (s : State) : Op → Prop
  | .submitAsync load => load.isOk = true ∧ s.queue.outstanding = [] ∧ Recordable s
  | .submitAsyncPrevious => Recordable s
  | .waitForAsync _ => True
  | .unRegisterKernel => s.queue.outstanding = []

/-- Every unwaited submission is in `root_submit_array`, and was made since the last wait. -/
structure Recorded (s : State) : Prop where
  entries : ∀ entry ∈ s.pending, entry.1 ≠ 0 ∧ entry.1 ∈ s.queue.rootSubmitArray
  since : s.queue.outstanding = [] → s.pending = []

theorem mem_record_self {seq : UInt16} {array : List UInt16} (free : 0 ∈ array) :
    seq ∈ SubmitQueue.record seq array := by
  induction array with
  | nil => cases free
  | cons entry rest ih =>
    unfold SubmitQueue.record
    split
    · exact List.mem_cons_self
    · rename_i used
      rcases List.mem_cons.mp free with same | later
      · exact absurd same.symm used
      · exact List.mem_cons_of_mem _ (ih later)

theorem mem_record_of_mem {seq other : UInt16} {array : List UInt16} (nonzero : other ≠ 0)
    (member : other ∈ array) : other ∈ SubmitQueue.record seq array := by
  induction array with
  | nil => cases member
  | cons entry rest ih =>
    unfold SubmitQueue.record
    split
    · rename_i empty
      rcases List.mem_cons.mp member with same | later
      · exact absurd (same.trans empty) nonzero
      · exact List.mem_cons_of_mem _ later
    · rcases List.mem_cons.mp member with same | later
      · rw [same]
        exact List.mem_cons_self
      · exact List.mem_cons_of_mem _ (ih later)

theorem recorded_runAsync {s : State} (recorded : Recorded s) (room : Recordable s)
    (mem : Option Nat) : Recorded (runAsync s mem) := by
  constructor
  · intro entry member
    rcases List.mem_cons.mp member with rfl | earlier
    · exact ⟨room.1, mem_record_self room.2⟩
    · have before := recorded.entries entry earlier
      exact ⟨before.1, mem_record_of_mem before.1 before.2⟩
  · intro noneSince
    cases noneSince

@[simp] theorem freeLast_queue (s : State) : (freeLast s).queue = s.queue := by
  unfold freeLast
  split <;> rfl

@[simp] theorem freeLast_pending (s : State) : (freeLast s).pending = s.pending := by
  unfold freeLast
  split <;> rfl

theorem recorded_freeLast {s : State} (recorded : Recorded s) : Recorded (freeLast s) := by
  constructor
  · simpa using recorded.entries
  · simpa using recorded.since

theorem recorded_submitNew {s : State} (recorded : Recorded s) (room : Recordable s)
    (load : Load) : Recorded (submitNew s load) := by
  have freed := recorded_freeLast recorded
  have roomFreed : Recordable (freeLast s) := by
    simpa [Recordable] using room
  have loaded : Recorded (loadCmdbuf (freeLast s) load).2 ∧
      Recordable (loadCmdbuf (freeLast s) load).2 := by
    cases load with
    | ok => exact ⟨⟨freed.entries, freed.since⟩, roomFreed⟩
    | fail dmabufMem => exact ⟨freed, roomFreed⟩
  have submitted := recorded_runAsync loaded.1 loaded.2 (loadCmdbuf (freeLast s) load).1
  exact ⟨submitted.entries, submitted.since⟩

/-- `WaitForAsync` waits for every recorded submission. -/
theorem recorded_waitForAsync {s s' : State} {waitOk : UInt16 → Bool} (recorded : Recorded s)
    (done : waitForAsync s waitOk = some s') : Recorded s' := by
  obtain ⟨calls, queue, waits, rfl⟩ := waitForAsync_cases done
  obtain ⟨rfl, rfl⟩ := SubmitQueue.waitCmdbufAll_spec waits
  have nonePending : s.pending.filter
      (fun entry => entry.1 ∉ s.queue.rootSubmitArray.filter (· ≠ 0)) = [] := by
    rw [List.filter_eq_nil_iff]
    intro entry member
    simpa using (recorded.entries entry member).symm
  constructor
  · intro entry member
    simp only [nonePending] at member
    cases member
  · intro _
    exact nonePending

theorem recorded_step (s : State) (op : Op) (s' : State) (recorded : Recorded s)
    (paired : Paired s op) (stepped : step s op = some s') : Recorded s' := by
  obtain ⟨-, kind⟩ := step_cases stepped
  rcases kind with ⟨load, rfl, rfl⟩ | ⟨rfl, rfl⟩ | ⟨waitOk, rfl, done⟩ | ⟨rfl, rfl⟩
  · exact recorded_submitNew recorded paired.2.2 load
  · unfold submitPrevious
    split
    · exact recorded
    · exact recorded_runAsync recorded paired _
  · exact recorded_waitForAsync recorded done
  · have freed := recorded_freeLast recorded
    exact ⟨freed.entries, freed.since⟩

/-- With nothing submitted since the last wait, nothing is unwaited. -/
theorem Recorded.lastWaited {s : State} (recorded : Recorded s)
    (noneSince : s.queue.outstanding = []) : LastWaited s := by
  intro block _ unwaited
  rw [Unwaited, recorded.since noneSince] at unwaited
  cases unwaited

theorem Recorded.proper {s : State} {op : Op} (recorded : Recorded s) (paired : Paired s op) :
    Proper s op := by
  cases op with
  | submitAsync load => exact ⟨paired.1, recorded.lastWaited paired.2.1⟩
  | submitAsyncPrevious => trivial
  | waitForAsync waitOk => trivial
  | unRegisterKernel => exact recorded.lastWaited paired

theorem Recorded.admits {ops : List Op} :
    ∀ {s : State}, Recorded s → Run.Admits step Paired s ops → Run.Admits step Proper s ops := by
  induction ops with
  | nil =>
    intro s _ _
    trivial
  | cons op rest ih =>
    intro s recorded paired
    exact ⟨recorded.proper paired.1, fun s' stepped =>
      ih (recorded_step s op s' recorded paired.1 stepped) (paired.2 s' stepped)⟩

/-! ## Every run of one handle -/

/-- All states of a run are safe exactly when every `load_cmdbuf` succeeds and every call
    that frees the recorded block finds its submissions waited for. That is so when each
    submission is recorded and `WaitForAsync` comes between it and the next call that frees. -/
theorem submitAsync_safe_iff (heap : Heap Unit) (queue : SubmitQueue.State) (ops : List Op)
    (t : State) (done : Run.run step (register heap queue) ops = some t) :
    ((∀ before after u, before ++ after = ops →
        Run.run step (register heap queue) before = some u → Safe u) ↔
      Run.Admits step Proper (register heap queue) ops) ∧
      (Run.Admits step Paired (register heap queue) ops →
        Run.Admits step Proper (register heap queue) ops) := by
  constructor
  · exact Run.forall_reached_iff (fun _ safe => safe) safe_step
      (fun s op s' _ improper stepped => step_breaks s op s' improper stepped)
      (safe_register heap queue) done
  · have start : Recorded (register heap queue) := by
      refine ⟨?_, fun _ => rfl⟩
      intro entry member
      cases member
    exact start.admits

/-- A context on which one submission has been made before. -/
def secondQueue : SubmitQueue.State := { SubmitQueue.init with seqNo := 1 }

set_option maxRecDepth 4000 in
/-- Submit, wait, submit the block again, wait, unregister. -/
theorem submitAsync_safe_waited :
    ∃ t, Run.run step (register Heap.empty secondQueue)
        [.submitAsync .ok, .waitForAsync fun _ => true, .submitAsyncPrevious,
          .waitForAsync fun _ => true, .unRegisterKernel] = some t ∧ Safe t := by
  have spec := submitAsync_safe_iff Heap.empty secondQueue
    [.submitAsync .ok, .waitForAsync fun _ => true, .submitAsyncPrevious,
      .waitForAsync fun _ => true, .unRegisterKernel] _ rfl
  refine ⟨_, rfl, spec.1.mpr (spec.2 ?_) _ [] _ (List.append_nil _) rfl⟩
  refine ⟨⟨rfl, rfl, by decide, by decide⟩, ?_⟩
  intro s first
  cases first
  refine ⟨trivial, ?_⟩
  intro s first
  cases first
  refine ⟨⟨by decide, by decide⟩, ?_⟩
  intro s first
  cases first
  refine ⟨trivial, ?_⟩
  intro s first
  cases first
  exact ⟨rfl, fun _ _ => trivial⟩

/-- A second submission without a wait frees the block of the first. -/
theorem submitAsync_frees_unwaited :
    ∃ t, Run.run step (register Heap.empty secondQueue) [.submitAsync .ok, .submitAsync .ok] =
        some t ∧ .memFree 0 true false ∈ t.log ∧ ¬ Safe t := by
  have freed : ∀ t, Run.run step (register Heap.empty secondQueue)
      [.submitAsync .ok, .submitAsync .ok] = some t → .memFree 0 true false ∈ t.log := by
    intro t done
    cases done
    decide
  refine ⟨_, rfl, freed _ rfl, fun safe => ?_⟩
  have good := safe.events _ (freed _ rfl)
  cases good.2

end CviRuntime.SubmitAsync
