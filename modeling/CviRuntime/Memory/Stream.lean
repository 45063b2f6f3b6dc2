import CviRuntime.Lib.Run
import CviRuntime.Memory.ModelParse

/-!
# Model streams (`src/common/stream.cpp`)

A model is read from a file, a buffer or a file descriptor through `BaseStream`. All three
check `offset + size <= _length` in `size_t`, which is computed modulo `2^64`, and the length of
a descriptor stream is a difference modulo `2^64`. A file is read through one `std::ifstream`,
which reads nothing more once it has failed. `streamRead` is what a read stands for; here is when
each implementation is that, and that a parser whose reads are such finds the same model behind
all three.
-/

namespace CviRuntime.Memory

open Run

/-- Reduction to the range of `size_t`. -/
def sizeT (value : Nat) : Nat := value % 2 ^ 64

theorem sizeT_of_lt {value : Nat} (lt : value < 2 ^ 64) : sizeT value = value :=
  Nat.mod_eq_of_lt lt

/-- How a call of `read` ends: the assertion stops the program, or `bytes` are in the
    destination and `returned` is the answer, or the call has no defined effect. -/
inductive ReadOutcome where
  | rejected
  | delivered (bytes : List UInt8) (returned : Nat)
  | undefined
  deriving Repr, DecidableEq

/-- `FileStream::read` (`stream.cpp:29-34`) and `fail()` of `_fstream` after it; `failed` is
    `fail()` before. A position from `2^63` on is negative, so that `seekg` fails and nothing is
    read, then or later: nothing clears the bit. A count from `2^63` on is negative too. -/
def fileRead (content : List UInt8) (failed : Bool) (offset size : Nat) : ReadOutcome × Bool :=
  if content.length < sizeT (offset + size) then (.rejected, failed)
  else if failed = true ∨ 2 ^ 63 ≤ offset then (.delivered [] size, true)
  else if 2 ^ 63 ≤ size then (.undefined, failed)
  else (.delivered ((content.drop offset).take size) size, failed)

/-- `fail()` after a read from which the program goes on. -/
def fileStep (content : List UInt8) (failed : Bool) (read : Nat × Nat) : Option Bool :=
  match fileRead content failed read.1 read.2 with
  | (.delivered _ _, failed') => some failed'
  | _ => none

/-- `BufferStream::read` (`stream.cpp:41-45`): `memcpy` from outside the buffer is undefined. -/
def bufferRead (content : List UInt8) (offset size : Nat) : ReadOutcome :=
  if content.length < sizeT (offset + size) then .rejected
  else if offset + size ≤ content.length then .delivered ((content.drop offset).take size) size
  else .undefined

/-- `_length` of an `FdStream` (`stream.cpp:47-51`). -/
def fdLength (content : List UInt8) (udOffset : Nat) : Nat :=
  sizeT (content.length + 2 ^ 64 - udOffset)

/-- `FdStream::read` (`stream.cpp:53-59`). `pos` is where the descriptor stands and stays when
    `lseek` refuses the position; `got` is how much `::read` is ready to hand out. -/
def fdRead (content : List UInt8) (udOffset pos got offset size : Nat) : ReadOutcome :=
  if fdLength content udOffset < sizeT (offset + size) then .rejected
  else
    let target := sizeT (offset + udOffset)
    let start := if target < 2 ^ 63 then target else pos
    let bytes := ((content.drop start).take size).take got
    .delivered bytes bytes.length

/-- The read is accepted exactly when bytes are expected, and delivers exactly these. -/
def ReadOutcome.Is (outcome : ReadOutcome) : Option (List UInt8) → Prop
  | none => outcome = .rejected
  | some bytes => outcome = .delivered bytes bytes.length

/-- What a read through a descriptor at `udOffset` stands for. -/
def fdExpected (content : List UInt8) (udOffset offset size : Nat) : Option (List UInt8) :=
  if udOffset ≤ content.length then streamRead (content.drop udOffset) offset size else none

/-- The sum in `size_t` does not hide a read beyond `length`. -/
def SumSafe (length offset size : Nat) : Prop :=
  offset + size < 2 ^ 64 ∨ length < sizeT (offset + size)

/-- The same for a file, where a stream that has failed delivers no byte. -/
def FileSafe (length : Nat) (failed : Prop) (offset size : Nat) : Prop :=
  SumSafe length offset size ∧ (failed → offset + size ≤ length → size = 0)

/-- The same for a descriptor at `udOffset`, whose `::read` has `got` bytes ready. -/
def FdSafe (length udOffset got offset size : Nat) : Prop :=
  if udOffset ≤ length then
    SumSafe (length - udOffset) offset size ∧ (offset + size ≤ length - udOffset → size ≤ got)
  else length + 2 ^ 64 - udOffset < sizeT (offset + size)

section

variable {content : List UInt8} {udOffset pos got offset size : Nat} {failed : Bool}

theorem streamRead_inside (inside : offset + size ≤ content.length) :
    streamRead content offset size = some ((content.drop offset).take size) :=
  if_pos inside

theorem streamRead_outside (outside : content.length < offset + size) :
    streamRead content offset size = none :=
  if_neg (Nat.not_le.mpr outside)

theorem length_take_drop (inside : offset + size ≤ content.length) :
    ((content.drop offset).take size).length = size := by
  rw [List.length_take, List.length_drop]
  omega

/-- A read beyond the end whose sum is not hidden is rejected. -/
theorem SumSafe.rejects {length : Nat} (safe : SumSafe length offset size)
    (outside : length < offset + size) : length < sizeT (offset + size) := by
  rcases safe with small | caught
  · rwa [sizeT_of_lt small]
  · exact caught

/-- A hidden sum is beyond the end but looks as if it were not. -/
theorem not_sumSafe {length : Nat} (bound : length < 2 ^ 63)
    (unsafeSum : ¬ SumSafe length offset size) :
    length < offset + size ∧ sizeT (offset + size) ≤ length := by
  unfold SumSafe at unsafeSum
  omega

theorem fileRead_inside (bound : content.length < 2 ^ 63)
    (inside : offset + size ≤ content.length) :
    fileRead content failed offset size =
      (.delivered (if failed then [] else (content.drop offset).take size) size, failed) := by
  unfold fileRead
  rw [sizeT_of_lt (by omega), if_neg (by omega)]
  cases failed with
  | true => rfl
  | false => rw [if_neg (by simp; omega), if_neg (by omega), if_neg Bool.false_ne_true]

theorem fileRead_is_iff (bound : content.length < 2 ^ 63) :
    (fileRead content failed offset size).1.Is (streamRead content offset size) ↔
      FileSafe content.length (failed = true) offset size := by
  by_cases inside : offset + size ≤ content.length
  · have sum : SumSafe content.length offset size := Or.inl (by omega)
    rw [fileRead_inside bound inside, streamRead_inside inside]
    simp only [ReadOutcome.Is, length_take_drop inside]
    cases failed with
    | false => exact iff_of_true rfl ⟨sum, fun fails => absurd fails Bool.false_ne_true⟩
    | true =>
      constructor
      · intro exact
        have nothing := congrArg List.length (ReadOutcome.delivered.inj exact).1
        rw [length_take_drop inside] at nothing
        exact ⟨sum, fun _ _ => nothing.symm⟩
      · rintro ⟨-, empty⟩
        rw [empty rfl inside, List.take_zero]
        rfl
  · have outside : content.length < offset + size := Nat.lt_of_not_le inside
    rw [streamRead_outside outside]
    constructor
    · intro exact
      refine ⟨?_, fun _ within => absurd within inside⟩
      by_contra unsafeSum
      have accepted := (not_sumSafe bound unsafeSum).2
      unfold fileRead at exact
      rw [if_neg (Nat.not_lt.mpr accepted)] at exact
      split at exact
      · cases exact
      · split at exact <;> cases exact
    · rintro ⟨safe, -⟩
      unfold fileRead
      rw [if_pos (safe.rejects outside)]
      rfl

/-- A safe read does not make the stream fail. -/
theorem fileRead_works (bound : content.length < 2 ^ 63)
    (safe : SumSafe content.length offset size) :
    (fileRead content false offset size).2 = false := by
  by_cases inside : offset + size ≤ content.length
  · rw [fileRead_inside bound inside]
  · rw [fileRead, if_pos (safe.rejects (Nat.lt_of_not_le inside))]

/-- A read leaves the stream failed when it was so before, or when its sum hid that it is beyond
    the end. -/
theorem fileStep_failed {failed' : Bool} {read : Nat × Nat} (bound : content.length < 2 ^ 63)
    (stepped : fileStep content failed read = some failed') :
    failed' = true ↔ failed = true ∨ ¬ SumSafe content.length read.1 read.2 := by
  obtain ⟨offset, size⟩ := read
  unfold fileStep fileRead at stepped
  by_cases caught : content.length < sizeT (offset + size)
  · rw [if_pos caught] at stepped
    cases stepped
  rw [if_neg caught] at stepped
  by_cases fails : failed = true ∨ 2 ^ 63 ≤ offset
  · rw [if_pos fails] at stepped
    obtain rfl : true = failed' := Option.some.inj stepped
    refine iff_of_true rfl (fails.imp_right fun far => ?_)
    rintro (small | hidden)
    · rw [sizeT_of_lt small] at caught
      omega
    · exact caught hidden
  · rw [if_neg fails] at stepped
    by_cases negative : 2 ^ 63 ≤ size
    · rw [if_pos negative] at stepped
      cases stepped
    · rw [if_neg negative] at stepped
      obtain rfl : failed = failed' := Option.some.inj stepped
      have sum : SumSafe content.length offset size := Or.inl (by omega)
      rw [or_iff_left (not_not.mpr sum)]

/-- After any reads the stream has failed exactly when one of them was accepted although it was
    beyond the end. -/
theorem run_fileStep (bound : content.length < 2 ^ 63) {earlier : List (Nat × Nat)}
    {failed failed' : Bool} (done : run (fileStep content) failed earlier = some failed') :
    failed' = true ↔
      failed = true ∨ ∃ read ∈ earlier, ¬ SumSafe content.length read.1 read.2 := by
  induction earlier generalizing failed with
  | nil =>
    cases done
    simp
  | cons read earlier ih =>
    obtain ⟨next, first, rest⟩ := run_cons.mp done
    rw [ih rest, fileStep_failed bound first, or_assoc]
    simp only [List.mem_cons, exists_eq_or_imp]

theorem bufferRead_is_iff (bound : content.length < 2 ^ 63) :
    (bufferRead content offset size).Is (streamRead content offset size) ↔
      SumSafe content.length offset size := by
  constructor
  · intro exact
    by_contra unsafeSum
    obtain ⟨outside, accepted⟩ := not_sumSafe bound unsafeSum
    rw [streamRead_outside outside] at exact
    unfold bufferRead at exact
    rw [if_neg (Nat.not_lt.mpr accepted), if_neg (by omega)] at exact
    cases exact
  · intro safe
    unfold bufferRead
    by_cases inside : offset + size ≤ content.length
    · rw [sizeT_of_lt (by omega), if_neg (by omega), if_pos inside, streamRead_inside inside]
      simp only [ReadOutcome.Is, length_take_drop inside]
    · rw [if_pos (safe.rejects (by omega)), streamRead_outside (by omega)]
      rfl

/-- With the offset inside the file the length of the stream is what follows the offset. -/
theorem fdLength_inside (bound : content.length < 2 ^ 63) (inside : udOffset ≤ content.length) :
    fdLength content udOffset = content.length - udOffset := by
  unfold fdLength sizeT
  omega

/-- With the offset beyond the end the length of the stream is almost `2^64`. -/
theorem fdLength_outside (range : udOffset < 2 ^ 64) (outside : content.length < udOffset) :
    fdLength content udOffset = content.length + 2 ^ 64 - udOffset := by
  unfold fdLength sizeT
  omega

/-- An accepted read behind the offset delivers as much as `::read` has ready. -/
theorem fdRead_inside (bound : content.length < 2 ^ 63)
    (inside : udOffset + (offset + size) ≤ content.length) :
    fdRead content udOffset pos got offset size =
      .delivered ((((content.drop udOffset).drop offset).take size).take got)
        (min got size) := by
  unfold fdRead
  rw [fdLength_inside bound (by omega), sizeT_of_lt (by omega), if_neg (by omega),
    sizeT_of_lt (by omega)]
  simp only
  rw [if_pos (by omega), List.drop_drop, Nat.add_comm offset udOffset, List.length_take,
    length_take_drop (by omega)]

theorem fdRead_is_iff (bound : content.length < 2 ^ 63) (range : udOffset < 2 ^ 64) :
    (fdRead content udOffset pos got offset size).Is (fdExpected content udOffset offset size) ↔
      FdSafe content.length udOffset got offset size := by
  have rejects : fdLength content udOffset < sizeT (offset + size) →
      fdRead content udOffset pos got offset size = .rejected := fun caught => if_pos caught
  have accepts : ¬ fdLength content udOffset < sizeT (offset + size) →
      fdRead content udOffset pos got offset size ≠ .rejected := by
    intro missed rejected
    unfold fdRead at rejected
    rw [if_neg missed] at rejected
    cases rejected
  by_cases inFile : udOffset ≤ content.length
  · have length := fdLength_inside bound inFile
    have expected : fdExpected content udOffset offset size =
        streamRead (content.drop udOffset) offset size := if_pos inFile
    unfold FdSafe
    rw [if_pos inFile, expected]
    by_cases inside : offset + size ≤ content.length - udOffset
    · have slice : ((((content.drop udOffset).drop offset).take size)).length = size :=
        length_take_drop (by rw [List.length_drop]; exact inside)
      rw [streamRead_inside (by rw [List.length_drop]; exact inside),
        fdRead_inside bound (by omega)]
      simp only [ReadOutcome.Is, slice]
      constructor
      · intro exact
        refine ⟨Or.inl (by omega), fun _ => ?_⟩
        have counts := (ReadOutcome.delivered.inj exact).2
        omega
      · rintro ⟨-, enough⟩
        have ready := enough inside
        rw [List.take_of_length_le (by omega), Nat.min_eq_right ready]
    · rw [streamRead_outside (by rw [List.length_drop]; omega)]
      simp only [ReadOutcome.Is]
      constructor
      · intro rejected
        refine ⟨?_, fun within => absurd within inside⟩
        by_contra unsafeSum
        have hidden := (not_sumSafe (by omega) unsafeSum).2
        exact accepts (by omega) rejected
      · rintro ⟨safe, -⟩
        have caught := safe.rejects (by omega)
        exact rejects (by omega)
  · have length : fdLength content udOffset = content.length + 2 ^ 64 - udOffset :=
      fdLength_outside range (by omega)
    have expected : fdExpected content udOffset offset size = none := if_neg inFile
    unfold FdSafe
    rw [if_neg inFile, expected]
    simp only [ReadOutcome.Is]
    constructor
    · intro rejected
      by_contra missed
      exact accepts (by omega) rejected
    · intro caught
      exact rejects (by omega)

end

/-! ## Parsers -/

/-- A parser of a model, as far as its stream goes: it may ask for `length()` and for bytes. -/
inductive Reader (α : Type) where
  | done (result : α)
  | length (next : Nat → Reader α)
  | read (offset size : Nat) (next : List UInt8 → Reader α)

namespace Reader

variable {α : Type}

/-- What the parser finds in `content`, where a failed assertion stops it (`none`). -/
def parse (content : List UInt8) : Reader α → Option α
  | .done result => some result
  | .length next => (next content.length).parse content
  | .read offset size next =>
    match streamRead content offset size with
    | none => none
    | some bytes => (next bytes).parse content

/-- `Runs length answers s reader result`: with a stream of that `length()` in the state `s`, which
    answers a read in one of the ways `answers` allows, the parser ends with `result`. -/
inductive Runs {σ : Type} (length : Nat) (answers : σ → Nat → Nat → ReadOutcome × σ → Prop) :
    σ → Reader α → Option α → Prop
  | done {s : σ} (result : α) : Runs length answers s (.done result) (some result)
  | length {s : σ} {next : Nat → Reader α} {result : Option α} :
      Runs length answers s (next length) result → Runs length answers s (.length next) result
  | rejected {s s' : σ} {offset size : Nat} {next : List UInt8 → Reader α} :
      answers s offset size (.rejected, s') → Runs length answers s (.read offset size next) none
  | delivered {s s' : σ} {offset size returned : Nat} {bytes : List UInt8}
      {next : List UInt8 → Reader α} {result : Option α} :
      answers s offset size (.delivered bytes returned, s') →
      Runs length answers s' (next bytes) result →
      Runs length answers s (.read offset size next) result

/-- The reads the parser makes on `content` have sums that hide nothing. -/
def Safe (content : List UInt8) : Reader α → Prop
  | .done _ => True
  | .length next => (next content.length).Safe content
  | .read offset size next => SumSafe content.length offset size ∧
      ∀ bytes, streamRead content offset size = some bytes → (next bytes).Safe content

/-- A stream that answers every safe read as `content` does, and is then in a good state again,
    makes the parser find what is in `content`. -/
theorem runs_iff_parse {σ : Type} {content : List UInt8}
    {answers : σ → Nat → Nat → ReadOutcome × σ → Prop} {P : σ → Prop}
    (some_answer : ∀ s offset size, ∃ answer, answers s offset size answer)
    (exact : ∀ s offset size outcome s', P s → SumSafe content.length offset size →
      answers s offset size (outcome, s') →
        outcome.Is (streamRead content offset size) ∧ P s') :
    ∀ {reader : Reader α} {result : Option α} {s : σ}, P s → reader.Safe content →
      (Runs content.length answers s reader result ↔ reader.parse content = result) := by
  intro reader
  induction reader with
  | done value =>
    intro result s _ _
    constructor
    · intro runs
      cases runs
      rfl
    · rintro rfl
      exact Runs.done value
  | length next ih =>
    intro result s ready safe
    constructor
    · intro runs
      cases runs with
      | length later => exact (ih content.length ready safe).mp later
    · intro parsed
      exact Runs.length ((ih content.length ready safe).mpr parsed)
  | read offset size next ih =>
    intro result s ready safe
    obtain ⟨sumSafe, later⟩ := safe
    obtain ⟨⟨outcome, s'⟩, answer⟩ := some_answer s offset size
    cases expected : streamRead content offset size with
    | none =>
      have nothing : (Reader.read offset size next).parse content = none := by
        simp only [parse, expected]
      rw [nothing]
      constructor
      · intro runs
        cases runs with
        | rejected _ => rfl
        | delivered given _ =>
          have is := (exact _ _ _ _ _ ready sumSafe given).1
          rw [expected] at is
          cases is
      · rintro rfl
        have is := (exact _ _ _ _ _ ready sumSafe answer).1
        rw [expected] at is
        obtain rfl : outcome = .rejected := is
        exact Runs.rejected answer
    | some bytes =>
      have goesOn : (Reader.read offset size next).parse content = (next bytes).parse content := by
        simp only [parse, expected]
      rw [goesOn]
      constructor
      · intro runs
        cases runs with
        | rejected given =>
          have is := (exact _ _ _ _ _ ready sumSafe given).1
          rw [expected] at is
          cases is
        | delivered given rest =>
          obtain ⟨is, ready'⟩ := exact _ _ _ _ _ ready sumSafe given
          rw [expected] at is
          obtain ⟨rfl, -⟩ := ReadOutcome.delivered.inj is
          exact (ih _ ready' (later _ expected)).mp rest
      · intro parsed
        obtain ⟨is, ready'⟩ := exact _ _ _ _ _ ready sumSafe answer
        rw [expected] at is
        obtain rfl : outcome = .delivered bytes bytes.length := is
        exact Runs.delivered answer ((ih bytes ready' (later bytes expected)).mpr parsed)

/-- The parser on a `FileStream` of `content`, just opened. -/
def RunsFile (content : List UInt8) : Reader α → Option α → Prop :=
  Runs content.length (fun failed offset size answer =>
    answer = fileRead content failed offset size) false

/-- The parser on a `BufferStream` of `content`. -/
def RunsBuffer (content : List UInt8) : Reader α → Option α → Prop :=
  Runs content.length (fun _ offset size answer =>
    answer = (bufferRead content offset size, ())) ()

/-- The parser on an `FdStream` of `content` at `udOffset`, from whatever position the descriptor
    has, when `::read` hands out all it is asked for. -/
def RunsFd (content : List UInt8) (udOffset : Nat) : Reader α → Option α → Prop :=
  Runs (fdLength content udOffset) (fun _ offset size answer =>
    ∃ pos got, size ≤ got ∧ answer = (fdRead content udOffset pos got offset size, ())) ()

end Reader

/-- A read is accepted exactly for the bytes inside the file and delivers exactly these: for a
    file and for a buffer when the sum hides nothing, where no earlier read of the file may have
    hidden anything either, unless no byte is due; for a descriptor when besides `::read` hands
    out all it is asked for, or when with the offset beyond the end the sum is large enough. A
    parser that makes only such reads finds the same model behind all three. -/
theorem streams_exact_iff (content : List UInt8) (bound : content.length < 2 ^ 63)
    (udOffset : Nat) (range : udOffset < 2 ^ 64) :
    (∀ offset < 2 ^ 64, ∀ size < 2 ^ 64,
      (∀ earlier failed, run (fileStep content) false earlier = some failed →
        ((fileRead content failed offset size).1.Is (streamRead content offset size) ↔
          FileSafe content.length (∃ read ∈ earlier, ¬ SumSafe content.length read.1 read.2)
            offset size)) ∧
      ((bufferRead content offset size).Is (streamRead content offset size) ↔
        SumSafe content.length offset size) ∧
      ∀ pos got, (fdRead content udOffset pos got offset size).Is
          (fdExpected content udOffset offset size) ↔
        FdSafe content.length udOffset got offset size) ∧
    (udOffset ≤ content.length → ∀ (α : Type) (reader : Reader α) (result : Option α),
      reader.Safe (content.drop udOffset) →
      (reader.RunsFile (content.drop udOffset) result ↔
        reader.RunsBuffer (content.drop udOffset) result) ∧
      (reader.RunsFd content udOffset result ↔
        reader.RunsBuffer (content.drop udOffset) result)) := by
  refine ⟨fun offset _ size _ => ⟨?_, bufferRead_is_iff bound,
    fun pos got => fdRead_is_iff bound range⟩, ?_⟩
  · intro earlier failed done
    have history := run_fileStep bound done
    rw [or_iff_right Bool.false_ne_true] at history
    rw [fileRead_is_iff bound, FileSafe, FileSafe, history]
  intro inside α reader result safe
  have dropped : (content.drop udOffset).length = content.length - udOffset := List.length_drop
  have file : reader.RunsFile (content.drop udOffset) result ↔
      reader.parse (content.drop udOffset) = result := by
    unfold Reader.RunsFile
    refine Reader.runs_iff_parse (P := fun failed => failed = false) ?_ ?_ rfl safe
    · intro failed offset size
      exact ⟨_, rfl⟩
    rintro failed offset size outcome failed' rfl sumSafe answer
    have safe' : FileSafe (content.drop udOffset).length (false = true) offset size :=
      ⟨sumSafe, fun fails => absurd fails Bool.false_ne_true⟩
    have is := (fileRead_is_iff (by omega)).mpr safe'
    have still := fileRead_works (by omega) sumSafe
    rw [← answer] at is still
    exact ⟨is, still⟩
  have buffer : reader.RunsBuffer (content.drop udOffset) result ↔
      reader.parse (content.drop udOffset) = result := by
    unfold Reader.RunsBuffer
    refine Reader.runs_iff_parse (P := fun _ => True) ?_ ?_ trivial safe
    · intro _ offset size
      exact ⟨_, rfl⟩
    rintro _ offset size outcome _ - sumSafe answer
    obtain ⟨rfl, -⟩ := Prod.mk.inj answer
    exact ⟨(bufferRead_is_iff (by omega)).mpr sumSafe, trivial⟩
  have fd : reader.RunsFd content udOffset result ↔
      reader.parse (content.drop udOffset) = result := by
    unfold Reader.RunsFd
    rw [fdLength_inside bound inside, ← dropped]
    refine Reader.runs_iff_parse (P := fun _ => True)
      (fun _ offset size => ⟨_, 0, size, Nat.le_refl _, rfl⟩) ?_ trivial safe
    rintro _ offset size outcome _ - sumSafe ⟨pos, got, enough, answer⟩
    obtain ⟨rfl, -⟩ := Prod.mk.inj answer
    rw [dropped] at sumSafe
    have fdSafe : FdSafe content.length udOffset got offset size := by
      unfold FdSafe
      rw [if_pos inside]
      exact ⟨sumSafe, fun _ => enough⟩
    have is : (fdRead content udOffset pos got offset size).Is
        (fdExpected content udOffset offset size) := (fdRead_is_iff bound range).mpr fdSafe
    rw [fdExpected, if_pos inside] at is
    exact ⟨is, trivial⟩
  exact ⟨file.trans buffer.symm, fd.trans buffer.symm⟩

/-- A parser of two bytes finds the same in a file, in a buffer and behind a descriptor at 2. -/
theorem streams_exact_iff_two_bytes :
    (Reader.RunsFile [1, 0, 7] (.read 1 2 .done) (some [0, 7]) ↔
        Reader.RunsBuffer [1, 0, 7] (.read 1 2 .done) (some [0, 7])) ∧
      (Reader.RunsFd [9, 9, 1, 0, 7] 2 (.read 1 2 .done) (some [0, 7]) ↔
        Reader.RunsBuffer [1, 0, 7] (.read 1 2 .done) (some [0, 7])) :=
  (streams_exact_iff [9, 9, 1, 0, 7] (by decide) 2 (by decide)).2 (by decide) _
    (.read 1 2 .done) (some [0, 7])
    (And.intro (Or.inl (by decide)) (fun _ _ => trivial))

/-- A sum beyond `2^64`, a later read of the same file, an offset beyond the end of the descriptor
    and a short `::read`. -/
theorem streams_not_exact :
    ¬ (fileRead [7] false (2 ^ 64 - 1) 1).1.Is (streamRead [7] (2 ^ 64 - 1) 1) ∧
      run (fileStep [7]) false [(2 ^ 64 - 1, 1)] = some true ∧
      ¬ (fileRead [7] true 0 1).1.Is (streamRead [7] 0 1) ∧
      ¬ (bufferRead [7] (2 ^ 64 - 1) 1).Is (streamRead [7] (2 ^ 64 - 1) 1) ∧
      ¬ (fdRead [7] 2 1 1 0 1).Is (fdExpected [7] 2 0 1) ∧
      ¬ (fdRead [7, 8] 0 2 1 0 2).Is (fdExpected [7, 8] 0 0 2) := by
  refine ⟨?_, rfl, ?_, ?_, ?_, ?_⟩
  · rw [fileRead_is_iff (by decide)]
    simp [FileSafe, SumSafe, sizeT]
  · rw [fileRead_is_iff (by decide)]
    simp [FileSafe]
  · rw [bufferRead_is_iff (by decide)]
    simp [SumSafe, sizeT]
  · rw [fdRead_is_iff (by decide) (by decide)]
    simp [FdSafe, sizeT]
  · rw [fdRead_is_iff (by decide) (by decide)]
    simp [FdSafe, SumSafe]

end CviRuntime.Memory
