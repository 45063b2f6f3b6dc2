import CviRuntime.Lib.Count

/-!
# Threads waiting on a condition variable

Each thread that uses the variable is `idle` (not inside a wait), `asleep` in `wait`, or
`woken`: notified, with the mutex still to be taken and the awaited condition to be tested
again. What the thread remembers across the wait is carried along.
-/

namespace CviRuntime.CondVar

variable {β : Type*}

inductive Waiter (β : Type*) where
  | idle
  | asleep (arg : β)
  | woken (arg : β)
  deriving Repr, DecidableEq

namespace Waiter

def isAsleep : Waiter β → Bool
  | asleep _ => true
  | _ => false

def isWoken : Waiter β → Bool
  | woken _ => true
  | _ => false

@[simp] theorem isAsleep_idle : (idle : Waiter β).isAsleep = false := rfl
@[simp] theorem isAsleep_asleep (arg : β) : (asleep arg).isAsleep = true := rfl
@[simp] theorem isAsleep_woken (arg : β) : (woken arg).isAsleep = false := rfl
@[simp] theorem isWoken_idle : (idle : Waiter β).isWoken = false := rfl
@[simp] theorem isWoken_asleep (arg : β) : (asleep arg).isWoken = false := rfl
@[simp] theorem isWoken_woken (arg : β) : (woken arg).isWoken = true := rfl

theorem isAsleep_iff {w : Waiter β} : w.isAsleep = true ↔ ∃ arg, w = asleep arg := by
  cases w <;> simp [isAsleep]

theorem isAsleep_eq_false_iff {w : Waiter β} :
    w.isAsleep = false ↔ w = idle ∨ ∃ arg, w = woken arg := by
  cases w <;> simp [isAsleep]

end Waiter

/-- The number of threads asleep. -/
def sleepers (threads : List (Waiter β)) : Nat := threads.countP Waiter.isAsleep

/-- The number of threads notified that have not run since. -/
def pending (threads : List (Waiter β)) : Nat := threads.countP Waiter.isWoken

/-- The number of threads not asleep. -/
def awake (threads : List (Waiter β)) : Nat := threads.countP fun thread => !thread.isAsleep

/-- `notify_one`: thread `choice` is woken; any sleeping thread may be the one, and with no
    thread asleep nothing happens. -/
def notifyOne (threads : List (Waiter β)) (choice : Nat) : Option (List (Waiter β)) :=
  match threads[choice]? with
  | some (.asleep arg) => some (threads.set choice (.woken arg))
  | _ => if sleepers threads = 0 then some threads else none

section counts

variable {threads threads' : List (Waiter β)} {i : Nat} {arg : β}

theorem sleepers_replicate (n : Nat) : sleepers (List.replicate n (Waiter.idle : Waiter β)) = 0 := by
  simp [sleepers, List.countP_replicate]

theorem pending_replicate (n : Nat) : pending (List.replicate n (Waiter.idle : Waiter β)) = 0 := by
  simp [pending, List.countP_replicate]

theorem sleepers_pos_iff : 0 < sleepers threads ↔ ∃ arg, Waiter.asleep arg ∈ threads := by
  rw [sleepers, List.countP_pos_iff]
  constructor
  · rintro ⟨w, member, asleep⟩
    obtain ⟨arg, rfl⟩ := Waiter.isAsleep_iff.mp asleep
    exact ⟨arg, member⟩
  · rintro ⟨arg, member⟩
    exact ⟨_, member, rfl⟩

theorem sleepers_pos_of_getElem? (found : threads[i]? = some (.asleep arg)) :
    0 < sleepers threads :=
  sleepers_pos_iff.mpr ⟨arg, List.mem_of_getElem? found⟩

/-- What becomes of the counts when a thread changes its state. -/
theorem sleepers_set {before : Waiter β} (after : Waiter β) (found : threads[i]? = some before) :
    sleepers (threads.set i after) + (if before.isAsleep then 1 else 0) =
      sleepers threads + (if after.isAsleep then 1 else 0) :=
  Count.countP_set found

theorem pending_set {before : Waiter β} (after : Waiter β) (found : threads[i]? = some before) :
    pending (threads.set i after) + (if before.isWoken then 1 else 0) =
      pending threads + (if after.isWoken then 1 else 0) :=
  Count.countP_set found

theorem sleepers_le_length (threads : List (Waiter β)) : sleepers threads ≤ threads.length :=
  List.countP_le_length

theorem awake_set {before : Waiter β} (after : Waiter β) (found : threads[i]? = some before) :
    awake (threads.set i after) + (if before.isAsleep then 0 else 1) =
      awake threads + (if after.isAsleep then 0 else 1) := by
  have moved := Count.countP_set (p := fun thread => !Waiter.isAsleep thread) (y := after) found
  cases h : before.isAsleep <;> cases h' : after.isAsleep <;> simp_all [awake]

/-- `notify_one` wakes one sleeping thread, or finds none. -/
theorem notifyOne_cases {choice : Nat} (notified : notifyOne threads choice = some threads') :
    (∃ arg, threads[choice]? = some (.asleep arg) ∧
      threads' = threads.set choice (.woken arg)) ∨
    (sleepers threads = 0 ∧ threads' = threads) := by
  unfold notifyOne at notified
  split at notified
  case h_1 arg found =>
    cases notified
    exact .inl ⟨arg, found, rfl⟩
  case h_2 =>
    split at notified
    case isTrue none =>
      cases notified
      exact .inr ⟨none, rfl⟩
    case isFalse => cases notified

theorem notifyOne_counts {choice : Nat} (notified : notifyOne threads choice = some threads') :
    (sleepers threads' + 1 = sleepers threads ∧ pending threads' = pending threads + 1) ∨
      (sleepers threads = 0 ∧ threads' = threads) := by
  rcases notifyOne_cases notified with ⟨arg, found, rfl⟩ | none
  · have asleep := sleepers_set (.woken arg) found
    have woken := pending_set (.woken arg) found
    simp only [Waiter.isAsleep_asleep, Waiter.isAsleep_woken, Waiter.isWoken_asleep,
      Waiter.isWoken_woken, if_true, if_false, Bool.false_eq_true, Nat.add_zero] at asleep woken
    exact .inl ⟨asleep, woken⟩
  · exact .inr none

theorem notifyOne_awake {choice : Nat} (notified : notifyOne threads choice = some threads') :
    awake threads' ≤ awake threads + 1 := by
  rcases notifyOne_cases notified with ⟨arg, found, rfl⟩ | ⟨-, rfl⟩
  · have moved := awake_set (.woken arg) found
    simp only [Waiter.isAsleep_asleep, Waiter.isAsleep_woken, if_true, Bool.false_eq_true,
      if_false, Nat.add_zero] at moved
    omega
  · exact Nat.le_succ _

theorem notifyOne_length {choice : Nat} (notified : notifyOne threads choice = some threads') :
    threads'.length = threads.length := by
  rcases notifyOne_cases notified with ⟨arg, -, rfl⟩ | ⟨-, rfl⟩
  · exact List.length_set
  · rfl

/-- Some choice is always possible. -/
theorem exists_notifyOne (threads : List (Waiter β)) :
    ∃ choice threads', notifyOne threads choice = some threads' := by
  by_cases none : sleepers threads = 0
  · refine ⟨threads.length, threads, ?_⟩
    simp [notifyOne, none]
  · obtain ⟨arg, member⟩ := sleepers_pos_iff.mp (Nat.pos_of_ne_zero none)
    obtain ⟨choice, found⟩ := List.getElem?_of_mem member
    exact ⟨choice, threads.set choice (.woken arg), by simp [notifyOne, found]⟩

/-- A notification leaves the other threads as they are. -/
theorem notifyOne_getElem? {choice : Nat} (notified : notifyOne threads choice = some threads')
    (i : Nat) : threads'[i]? = threads[i]? ∨
      ∃ arg, threads[i]? = some (.asleep arg) ∧ threads'[i]? = some (.woken arg) := by
  rcases notifyOne_cases notified with ⟨arg, found, rfl⟩ | ⟨-, rfl⟩
  · by_cases same : choice = i
    · subst same
      refine .inr ⟨arg, found, ?_⟩
      exact List.getElem?_set_self (List.getElem?_eq_some_iff.mp found).1
    · exact .inl (List.getElem?_set_ne same)
  · exact .inl rfl

end counts

end CviRuntime.CondVar
