import CviRuntime.Lz4Block.Emit
import CviRuntime.Lz4Block.Search

/-!
# The main loop of the compressor

At every place of the loop the output holds encoded sequences that stand for the source up to
`anchor`, all positions in the hash table are behind the current one and there is room for what is
written next, past its end included. A step keeps this and comes closer to the end of the source.
-/

namespace CviRuntime.Lz4Block

open CviRuntime.ByteMem CviRuntime.CommonPrefix CviRuntime.Lz77

namespace Job

/-- Where the compressor may write: up to the capacity it was given, or a buffer of at least
    `LZ4_compressBound` bytes. -/
def Capacity (job : Job) (size : Nat) : Prop :=
  if job.limited then job.olimit = size
  else job.source.length + job.source.length / 255 + 16 ≤ size

/-- Sequences that stand for the source up to `anchor`. -/
structure Prefix (job : Job) (anchor : Nat) (sequences : List (Sequence UInt8)) : Prop where
  expands : expand 0 [] sequences = job.source.take anchor
  inside : anchor ≤ job.source.length
  kept : AllRestricted job.source.length 0 sequences

/-- The output holds these sequences and nothing else. -/
structure Emitted (job : Job) (size anchor op : Nat) (out : Output)
    (sequences : List (Sequence UInt8)) : Prop extends Prefix job anchor sequences where
  sameSize : out.size = size
  length : op = (encodeSequences sequences).length
  holds : Holds (encodeSequences sequences) (encodeSequences sequences).length out

/-- The literals from `anchor` to `ip`. -/
def literals (job : Job) (anchor ip : Nat) : List UInt8 :=
  (job.source.drop anchor).take (ip - anchor)

/-- The sequences, and the literals of another one whose match is known to start at `ip`. -/
def partBytes (job : Job) (anchor ip : Nat) (sequences : List (Sequence UInt8)) : List UInt8 :=
  encodeSequences sequences ++ tokenByte (ip - anchor) 0 ::
    (lengthBytes (ip - anchor) ++ job.literals anchor ip)

/-- Before a search. -/
structure SearchInv (job : Job) (size : Nat) (s : State) (ip forwardH : Nat)
    (sequences : List (Sequence UInt8)) : Prop extends
    Emitted job size s.anchor s.op s.out sequences where
  ahead : s.anchor ≤ ip
  room : ip + 11 ≤ job.source.length
  below : Below s.table ip
  hashed : forwardH < 2 ^ job.hashLog

/-- At `_next_match`: `filled` is the last position in the table, up to which the match is known
    to reach. -/
structure MatchInv (job : Job) (size : Nat) (s : State) (ip m token filled : Nat)
    (sequences : List (Sequence UInt8)) : Prop extends
    Prefix job s.anchor sequences where
  sameSize : s.out.size = size
  token_eq : token = (encodeSequences sequences).length
  op_eq : s.op = (job.partBytes s.anchor ip sequences).length
  holds : Holds (job.partBytes s.anchor ip sequences) s.op s.out
  ahead : s.anchor ≤ ip
  behind : m < ip
  near : ip - m < 65536
  filled_ge : ip ≤ filled
  room : filled + 12 ≤ job.source.length
  below : Below s.table (filled + 1)
  agree : Agree job ip m (filled + 4 - ip)
  space : job.limited → s.op + 2 ≤ size

/-- The invariant of the main loop. -/
def Inv (job : Job) (size : Nat) (s : State) : Prop :=
  match s.phase with
  | .search ip forwardH => ∃ sequences, SearchInv job size s ip forwardH sequences
  | .nextMatch ip m token => ∃ filled sequences, MatchInv job size s ip m token filled sequences

/-- What is left to do. -/
def measure (job : Job) (s : State) : Nat :=
  2 * (job.source.length - s.anchor) +
    match s.phase with
    | .search _ _ => 1
    | .nextMatch _ _ _ => 0

/-- What a step leads to. -/
def StepResult (job : Job) (size : Nat) (s : State) (r : Option Next) : Prop :=
  ∃ next, r = some next ∧
    match next with
    | .go s' => Inv job size s' ∧ job.measure s' < job.measure s
    | .lastLiterals anchor op out => ∃ sequences, Emitted job size anchor op out sequences
    | .full out => job.limited ∧ out.size = size

section

variable {job : Job} {size anchor op ip m : Nat} {out : Output} {s : State}
  {sequences : List (Sequence UInt8)}

theorem Prefix.length (kept : Prefix job anchor sequences) :
    (expand 0 [] sequences).length = anchor := by
  rw [kept.expands, List.length_take_of_le kept.inside]

/-- Without a limit there is always room. -/
theorem Prefix.bound (kept : Prefix job anchor sequences) :
    (encodeSequences sequences).length ≤ anchor + anchor / 255 := by
  have bound := length_encodeSequences_le [] kept.kept
  rw [kept.length] at bound
  exact bound

theorem length_literals_of_le (job : Job) (ahead : anchor ≤ ip) (inside : ip ≤ job.source.length) :
    (job.literals anchor ip).length = ip - anchor := by
  rw [literals, List.length_take, List.length_drop]
  omega

theorem length_partBytes (job : Job) (sequences : List (Sequence UInt8)) (ahead : anchor ≤ ip)
    (inside : ip ≤ job.source.length) :
    (job.partBytes anchor ip sequences).length = (encodeSequences sequences).length + 1 +
      (lengthBytes (ip - anchor)).length + (ip - anchor) := by
  rw [partBytes, List.length_append, List.length_cons, List.length_append,
    length_literals_of_le job ahead inside]
  omega

/-! ## Searching -/

/-- Writing the token, the length and the literals, which go up to eight bytes further. -/
theorem literals_wrote (emitted : Emitted job size anchor op out sequences)
    (ahead : anchor ≤ ip) (room : ip + 12 ≤ job.source.length)
    (first : op + 1 + (lengthBytes (ip - anchor)).length + 8 ≤ size)
    (space : op + 1 + (lengthBytes (ip - anchor)).length + (ip - anchor) + 7 ≤ size) :
    ∃ o op' o', putRun out op (ip - anchor) = some (o, op') ∧
      wildCopy8 (fun out => out.load job.source) o op' anchor (op' + (ip - anchor)) = some o' ∧
      op' + (ip - anchor) = (job.partBytes anchor ip sequences).length ∧ o'.size = size ∧
      Holds (job.partBytes anchor ip sequences) (op' + (ip - anchor)) o' := by
  have length := emitted.length
  obtain ⟨o, run, size1, kept1⟩ :=
    putRun_wrote (n := ip - anchor) emitted.sameSize emitted.holds (by omega)
  rw [← length] at run
  have behind : (encodeSequences sequences ++
      tokenByte (ip - anchor) 0 :: lengthBytes (ip - anchor)).length =
      op + 1 + (lengthBytes (ip - anchor)).length := by
    rw [List.length_append, List.length_cons, length]
    omega
  have whole : encodeSequences sequences ++ tokenByte (ip - anchor) 0 ::
      lengthBytes (ip - anchor) ++ (job.source.drop anchor).take (ip - anchor) =
      job.partBytes anchor ip sequences := by
    simp only [partBytes, literals, List.append_assoc, List.cons_append]
  have right := load_copiesRight (l := encodeSequences sequences ++
    tokenByte (ip - anchor) 0 :: lengthBytes (ip - anchor)) job.source anchor 8
    (show max (op + 1 + (lengthBytes (ip - anchor)).length + 8)
      (op + 1 + (lengthBytes (ip - anchor)).length + (ip - anchor) + 7) + anchor ≤ _ by omega)
    (Nat.max_le.mpr ⟨first, space⟩)
  have copied := wildCopy8_yields (e := op + 1 + (lengthBytes (ip - anchor)).length + (ip - anchor))
    size1 right (holds_append _ kept1) (by omega) (by omega)
  obtain ⟨o', eq, size', kept'⟩ :=
    copied.literals (n := ip - anchor) (by omega)
  rw [whole] at kept'
  refine ⟨o, _, o', run, ?_, ?_, size', kept'⟩
  · rw [behind]
    rw [behind] at eq
    exact eq
  · rw [behind, length_partBytes job sequences ahead (by omega), length]

/-- A search, up to the place behind its literals. -/
theorem searchStep_spec {forwardH : Nat} (valid : job.Valid) (capacity : job.Capacity size)
    (inv : SearchInv job size s ip forwardH sequences) (here : s.phase = .search ip forwardH) :
    StepResult job size s (job.searchStep s ip forwardH) := by
  have accelerated := valid.accelerated
  obtain ⟨result, run, kept⟩ :=
    findMatch_spec valid inv.below inv.hashed (Nat.le_refl 1)
      (show 64 ≤ job.acceleration * 64 by omega)
      (show _ < ip + (job.source.length + 1) + 11 by omega) inv.room
  rw [searchStep, run, Option.bind_eq_bind, Option.bind_some]
  cases result with
  | lastLiterals => exact ⟨_, rfl, sequences, inv.toEmitted⟩
  | found ip' m table =>
    obtain ⟨start, ⟨behind, near, room, agree⟩, below⟩ := kept
    have ahead := inv.ahead
    obtain ⟨c, caught, less, above, agreeBefore⟩ :=
      catchUp_spec job (show s.anchor ≤ ip' by omega) behind
    simp only [caught]
    by_cases full : job.limited ∧ job.olimit <
        s.op + 1 + (ip' - c - s.anchor) + (2 + 1 + 5) + (ip' - c - s.anchor) / 255
    · rw [if_pos full]
      exact ⟨_, rfl, full.1, inv.sameSize⟩
    · have bound := inv.toPrefix.bound
      have length := inv.length
      have written := length_lengthBytes (ip' - c - s.anchor)
      have space : s.op + 1 + (lengthBytes (ip' - c - s.anchor)).length + 8 ≤ size ∧
          s.op + 1 + (lengthBytes (ip' - c - s.anchor)).length + (ip' - c - s.anchor) + 7 ≤
            size := by
        unfold Capacity at capacity
        split_ifs at capacity with limited
        · have room : ¬job.olimit < s.op + 1 + (ip' - c - s.anchor) + (2 + 1 + 5) +
              (ip' - c - s.anchor) / 255 := fun small => full ⟨limited, small⟩
          split_ifs at written <;> omega
        · split_ifs at written <;> omega
      obtain ⟨o, op', o', ran, copied, place, size', holds'⟩ :=
        literals_wrote inv.toEmitted (show s.anchor ≤ ip' - c by omega) (by omega) space.1 space.2
      have long := length_partBytes job sequences
        (show s.anchor ≤ ip' - c by omega) (by omega)
      rw [if_neg full]
      simp only [ran, copied, Option.bind_eq_bind, Option.bind_some]
      refine ⟨_, rfl, ⟨ip', sequences, ⟨inv.toPrefix, size', length, place, holds',
        show s.anchor ≤ ip' - c by omega, by omega, by omega, by omega, room, below, ?_, ?_⟩⟩, ?_⟩
      · intro k small
        by_cases before : k < c
        · exact agreeBefore k before
        · have same := agree (k - c) (by omega)
          rwa [show ip' - c + k = ip' + (k - c) by omega, show m - c + k = m + (k - c) by omega]
      · intro _
        show op' + (ip' - c - s.anchor) + 2 ≤ size
        omega
      · show 2 * (job.source.length - s.anchor) + 0 < job.measure s
        rw [measure, here]
        exact Nat.lt_succ_self _

/-! ## Matches -/

/-- The sequence of a match at `ip` of `D + 4` bytes. -/
theorem match_extends {D : Nat} {token filled : Nat}
    (inv : MatchInv job size s ip m token filled sequences)
    (common : Common job.source (job.source.length - 5) (ip + 4) (m + 4) D) :
    filled < ip + D + 4 ∧
      Prefix job (ip + D + 4)
        (sequences ++ [⟨job.literals s.anchor ip, ip - m, D + 4⟩]) := by
  have ahead := inv.ahead
  have room := inv.room
  have filled_ge := inv.filled_ge
  have behind := inv.behind
  have inside := common.inside
  have long : filled - ip ≤ D := by
    apply (common.block (show ip + 4 + (filled - ip) ≤ job.source.length - 5 by omega)).mp
    intro k small
    have same := inv.agree (k + 4) (by omega)
    rwa [← Nat.add_assoc, ← Nat.add_assoc, Nat.add_right_comm, Nat.add_right_comm m] at same
  have before := inv.toPrefix.length
  have count := length_literals_of_le job ahead (by omega)
  have front : expand 0 [] sequences ++ job.literals s.anchor ip = job.source.take ip := by
    rw [inv.expands, literals, ← List.take_add, Nat.add_sub_cancel' ahead]
  refine ⟨by omega, ⟨?_, by omega, ?_⟩⟩
  · rw [expand_append]
    show copyBack 0 (ip - m) (D + 4) (expand 0 [] sequences ++ job.literals s.anchor ip) = _
    rw [front, copyBack_take (by omega) (by omega) (by omega)]
    · rw [Nat.add_assoc]
    · intro k small
      rw [show ip + k - (ip - m) = m + k by omega]
      by_cases first : k < 4
      · exact (inv.agree k (by omega)).symm
      · have same := common.agree (k - 4) (by omega)
        rw [show ip + 4 + (k - 4) = ip + k by omega, show m + 4 + (k - 4) = m + k by omega] at same
        exact same.symm
  · apply allRestricted_append [] inv.kept
    constructor
    · show 0 < ip - m
      omega
    · exact inv.near
    · show ip - m ≤ _ + (job.literals s.anchor ip).length
      omega
    · show 4 ≤ D + 4
      omega
    · show _ + (job.literals s.anchor ip).length + 12 ≤ _
      omega
    · show _ + (job.literals s.anchor ip).length + (D + 4) + 5 ≤ _
      omega

/-- Writing the offset and the length of a match completes its sequence. -/
theorem match_wrote {D token filled : Nat}
    (inv : MatchInv job size s ip m token filled sequences)
    (fits : s.op + 2 + (lengthBytes D).length + 3 ≤ size) :
    ∃ o o' op', s.out.put s.op [UInt8.ofNat (ip - m), UInt8.ofNat ((ip - m) / 256)] = some o ∧
      o.size = size ∧ putMatchCode o (s.op + 2) token D = some (o', op') ∧
      op' = s.op + 2 + (lengthBytes D).length ∧
      op' = (encodeSequences (sequences ++ [⟨job.literals s.anchor ip, ip - m, D + 4⟩])).length ∧
      o'.size = size ∧ Holds (encodeSequences (sequences ++
        [⟨job.literals s.anchor ip, ip - m, D + 4⟩])) op' o' := by
  have ahead := inv.ahead
  have count := length_literals_of_le job ahead (by have := inv.room; have := inv.filled_ge; omega)
  have kept0 := inv.holds
  rw [inv.op_eq] at kept0
  obtain ⟨o, put, size1, kept1⟩ := put_append (offsetBytes (ip - m)) inv.sameSize kept0 (by
    rw [← inv.op_eq]
    show s.op + 2 ≤ size
    omega)
  have shape : job.partBytes s.anchor ip sequences ++ offsetBytes (ip - m) =
      encodeSequences sequences ++ tokenByte (ip - s.anchor) 0 :: (lengthBytes (ip - s.anchor) ++
        job.literals s.anchor ip ++ offsetBytes (ip - m)) := by
    simp only [partBytes, List.append_assoc, List.cons_append]
  have place : (job.partBytes s.anchor ip sequences ++ offsetBytes (ip - m)).length =
      s.op + 2 := by
    rw [List.length_append, ← inv.op_eq]
    rfl
  rw [shape] at kept1 place
  obtain ⟨o', coded, size2, kept2⟩ :=
    putMatchCode_wrote (ip - s.anchor) D size1 kept1 (by rw [place]; exact fits)
  have sequence : encodeSequences sequences ++ tokenByte (ip - s.anchor) D ::
      (lengthBytes (ip - s.anchor) ++ job.literals s.anchor ip ++ offsetBytes (ip - m) ++
        lengthBytes D) =
      encodeSequences (sequences ++ [⟨job.literals s.anchor ip, ip - m, D + 4⟩]) := by
    rw [encodeSequences_append, encodeSequence]
    simp only [count, Nat.add_sub_cancel]
  rw [sequence] at coded kept2
  rw [place, ← inv.token_eq] at coded
  refine ⟨o, o', _, ?_, size1, coded, ?_, rfl, size2, kept2⟩
  · rw [inv.op_eq]
    exact put
  · rw [← sequence]
    have same : (encodeSequences sequences ++ tokenByte (ip - s.anchor) D ::
        (lengthBytes (ip - s.anchor) ++ job.literals s.anchor ip ++
          offsetBytes (ip - m))).length = s.op + 2 := by
      rw [← place, List.length_append, List.length_append, List.length_cons, List.length_cons]
    rw [← same]
    simp only [List.length_append, List.length_cons]
    omega

/-- Testing the next position. -/
theorem testNext_spec {table : HashTable} (valid : job.Valid) (capacity : job.Capacity size)
    (emitted : Emitted job size anchor op out sequences) (below : Below table anchor)
    (start : 2 ≤ anchor) (room : anchor + 12 ≤ job.source.length)
    (space : job.limited → op + 6 ≤ size) :
    ∃ s', job.testNext anchor op out table = some (.go s') ∧ Inv job size s' ∧
      s'.anchor = anchor := by
  obtain ⟨h1, hash1, lt1⟩ := hashPosition_spec (show anchor - 2 + 8 ≤ job.source.length by omega)
  obtain ⟨table1, put1, below1⟩ := putIndexOnHash_spec lt1 below (show anchor - 2 < anchor by omega)
  obtain ⟨h, hash, lt⟩ := hashPosition_spec (show anchor + 8 ≤ job.source.length by omega)
  obtain ⟨table2, put2, below2⟩ := putIndexOnHash_spec lt
    (below1.mono (Nat.le_succ anchor)) (Nat.lt_succ_self anchor)
  obtain ⟨h3, hash3, lt3⟩ :=
    hashPosition_spec (show anchor + 1 + 8 ≤ job.source.length by omega)
  have index : job.getIndexOnHash table1 h = some (table1 h) := if_pos lt
  have behind := below1 h
  have first : job.putPosition table (anchor - 2) = some table1 := by
    rw [putPosition, hash1]
    exact put1
  have search : ∃ s', some (Next.go ⟨anchor, op, out, table2, .search (anchor + 1) h3⟩) =
      some (.go s') ∧ Inv job size s' ∧ s'.anchor = anchor := by
    refine ⟨_, rfl, ⟨sequences, emitted, Nat.le_succ anchor, ?_, below2, lt3⟩, rfl⟩
    omega
  obtain ⟨same, tested, matches_⟩ := isMatch_spec valid behind room
  unfold testNext
  simp only [first, hash, index, put2, hash3, tested, Option.bind_eq_bind, Option.bind_some]
  cases same with
  | false => exact search
  | true =>
    obtain ⟨_, near, _, agree⟩ := matches_ rfl
    have bound := emitted.toPrefix.bound
    have length := emitted.length
    have fits : op + 3 ≤ size := by
      unfold Capacity at capacity
      split_ifs at capacity with limited
      · have := space limited
        omega
      · omega
    obtain ⟨o, put, size', kept⟩ := put_append [0] emitted.sameSize emitted.holds (by
      rw [← length, List.length_singleton]
      omega)
    have bytes : job.partBytes anchor anchor sequences = encodeSequences sequences ++ [0] := by
      simp only [partBytes, literals, Nat.sub_self, List.take_zero, List.append_nil]
      rfl
    have behind' : (encodeSequences sequences ++ [(0 : UInt8)]).length = op + 1 := by
      rw [List.length_append, ← length]
      rfl
    rw [← length] at put
    rw [if_pos rfl, put]
    refine ⟨_, rfl, ⟨anchor, sequences, ⟨emitted.toPrefix, size', length, ?_, ?_, Nat.le_refl _,
      behind, near, Nat.le_refl _, room, below2, ?_, ?_⟩⟩, rfl⟩
    · show op + 1 = (job.partBytes anchor anchor sequences).length
      rw [bytes, behind']
    · show Holds (job.partBytes anchor anchor sequences) (op + 1) o
      rw [bytes, ← behind']
      exact kept
    · intro k small
      exact agree k (by omega)
    · intro _
      show op + 1 + 2 ≤ size
      omega

/-- A match, and the test of the next position. -/
theorem matchStep_spec {token filled : Nat} (valid : job.Valid) (capacity : job.Capacity size)
    (inv : MatchInv job size s ip m token filled sequences) :
    StepResult job size s (job.matchStep s ip m token) := by
  have ahead := inv.ahead
  have room := inv.room
  have filled_ge := inv.filled_ge
  have behind := inv.behind
  have before := inv.toPrefix.bound
  have place := inv.op_eq
  rw [length_partBytes job sequences ahead (by omega), length_lengthBytes] at place
  obtain ⟨D, common⟩ := exists_common (l := job.source) (q := m + 4)
    (show ip + 4 ≤ job.source.length - 5 by omega)
  obtain ⟨reaches, extended⟩ := match_extends inv common
  have inside := common.inside
  have after := extended.bound
  rw [encodeSequences_append, List.length_append, length_encodeSequence, length_lengthBytes,
    Nat.add_sub_cancel, length_literals_of_le job ahead (by omega)] at after
  have counted := count_eq common (by omega) (Nat.sub_le _ _)
  have written := length_lengthBytes D
  have offsetFits : s.op + 2 ≤ size := by
    unfold Capacity at capacity
    split_ifs at capacity with limited
    · exact inv.space limited
    · split_ifs at place <;> omega
  unfold matchStep
  by_cases full : job.limited ∧ job.olimit < s.op + 2 + (1 + 5) + (D + 240) / 255
  · have kept0 := inv.holds
    rw [inv.op_eq] at kept0
    obtain ⟨o, put, size1, _⟩ := put_append (offsetBytes (ip - m)) inv.sameSize kept0 (by
      rw [← inv.op_eq]
      exact offsetFits)
    rw [← inv.op_eq] at put
    simp only [offsetBytes] at put
    simp only [put, counted, Option.bind_eq_bind, Option.bind_some, if_pos full]
    exact ⟨_, rfl, full.1, size1⟩
  · have fits : s.op + 2 + (lengthBytes D).length + 3 ≤ size ∧
        (job.limited → s.op + 2 + (lengthBytes D).length + 6 ≤ size) := by
      unfold Capacity at capacity
      split_ifs at capacity with limited
      · have space : ¬job.olimit < s.op + 2 + (1 + 5) + (D + 240) / 255 :=
          fun small => full ⟨limited, small⟩
        split_ifs at written <;> constructor <;> omega
      · refine ⟨?_, fun impossible => absurd impossible limited⟩
        rw [written]
        split_ifs at after place ⊢ <;> omega
    obtain ⟨o, o', op', put, size1, coded, next, length, size2, holds⟩ := match_wrote inv fits.1
    have emitted : Emitted job size (ip + D + 4) op' o'
        (sequences ++ [⟨job.literals s.anchor ip, ip - m, D + 4⟩]) :=
      ⟨extended, size2, length, by rwa [← length]⟩
    simp only [put, counted, coded, Option.bind_eq_bind, Option.bind_some, if_neg full]
    by_cases last : job.source.length ≤ ip + D + 4 + 11
    · rw [if_pos last]
      exact ⟨_, rfl, _, emitted⟩
    · rw [if_neg last]
      obtain ⟨s', tested, kept, anchor'⟩ := testNext_spec valid capacity emitted
        (inv.below.mono (show filled + 1 ≤ ip + D + 4 by omega)) (by omega) (by omega)
        (fun limited => by rw [next]; exact fits.2 limited)
      refine ⟨_, tested, kept, ?_⟩
      unfold measure
      rw [anchor']
      split <;> split <;> omega

/-- A step of the main loop. -/
theorem step_spec (valid : job.Valid) (capacity : job.Capacity size) (inv : Inv job size s) :
    StepResult job size s (job.step s) := by
  unfold step
  unfold Inv at inv
  cases here : s.phase with
  | search ip forwardH =>
    rw [here] at inv
    obtain ⟨sequences, inv⟩ := inv
    exact searchStep_spec valid capacity inv here
  | nextMatch ip m token =>
    rw [here] at inv
    obtain ⟨filled, sequences, inv⟩ := inv
    exact matchStep_spec valid capacity inv

/-! ## Runs -/

/-- What a compression returns: zero, with a limit only, or the size of a block that stands for
    the source. -/
def Compressed (job : Job) (size : Nat) (r : Option (Int × Output)) : Prop :=
  ∃ rc out, r = some (rc, out) ∧ out.size = size ∧
    (rc = 0 ∧ job.limited ∨ ∃ sequences last,
      rc = ((encodeBlock sequences last).length : Nat) ∧
      (encodeBlock sequences last).length ≤ size ∧
      Holds (encodeBlock sequences last) (encodeBlock sequences last).length out ∧
      expand 0 [] sequences ++ last = job.source ∧
      AllRestricted job.source.length 0 sequences)

theorem lastLiterals_spec (capacity : job.Capacity size)
    (emitted : Emitted job size anchor op out sequences) :
    Compressed job size (job.lastLiterals anchor op out) := by
  have bound := emitted.toPrefix.bound
  have length := emitted.length
  have inside := emitted.inside
  have written := length_lengthBytes (job.source.length - anchor)
  unfold lastLiterals
  simp only
  by_cases full : job.limited ∧ job.olimit < op + (job.source.length - anchor) + 1 +
      (job.source.length - anchor + 240) / 255
  · rw [if_pos full]
    exact ⟨0, out, rfl, emitted.sameSize, Or.inl ⟨rfl, full.1⟩⟩
  · have fits : op + 1 + (lengthBytes (job.source.length - anchor)).length +
        (job.source.length - anchor) ≤ size := by
      unfold Capacity at capacity
      split_ifs at capacity with limited
      · have space : ¬job.olimit < op + (job.source.length - anchor) + 1 +
            (job.source.length - anchor + 240) / 255 := fun small => full ⟨limited, small⟩
        split_ifs at written <;> omega
      · split_ifs at written <;> omega
    obtain ⟨o, run, size1, kept1⟩ := putRun_wrote (n := job.source.length - anchor)
      emitted.sameSize emitted.holds (by omega)
    rw [← length] at run
    have place : (encodeSequences sequences ++ tokenByte (job.source.length - anchor) 0 ::
        lengthBytes (job.source.length - anchor)).length =
        op + 1 + (lengthBytes (job.source.length - anchor)).length := by
      rw [List.length_append, List.length_cons, length]
      omega
    obtain ⟨o', loaded, size2, kept2⟩ := load_literals job.source anchor
      (job.source.length - anchor) size1 kept1 (by omega) (by rw [place]; exact fits)
      (Nat.le_refl _)
    have all : (job.source.drop anchor).take (job.source.length - anchor) =
        job.source.drop anchor := by
      rw [← List.length_drop, List.take_length]
    have count : (job.source.drop anchor).length = job.source.length - anchor := List.length_drop
    have whole : encodeSequences sequences ++ tokenByte (job.source.length - anchor) 0 ::
        lengthBytes (job.source.length - anchor) ++
          (job.source.drop anchor).take (job.source.length - anchor) =
        encodeBlock sequences (job.source.drop anchor) := by
      rw [all, encodeBlock, encodeLast, count]
      simp only [List.append_assoc, List.cons_append]
    have total : (encodeBlock sequences (job.source.drop anchor)).length =
        op + 1 + (lengthBytes (job.source.length - anchor)).length +
          (job.source.length - anchor) := by
      rw [← whole, List.length_append, place, all, count]
    rw [whole, place, ← total] at kept2
    rw [place] at run loaded
    rw [if_neg full]
    simp only [run, loaded, Option.bind_eq_bind, Option.bind_some]
    refine ⟨_, o', rfl, size2, Or.inr ⟨sequences, job.source.drop anchor, ?_, ?_, kept2, ?_,
      emitted.kept⟩⟩
    · rw [total]
    · rw [total]
      exact fits
    · rw [emitted.expands, List.take_append_drop]

theorem mainLoop_spec {fuel : Nat} (valid : job.Valid) (capacity : job.Capacity size)
    (inv : Inv job size s) (enough : job.measure s < fuel) :
    Compressed job size (job.mainLoop fuel s) := by
  induction fuel generalizing s with
  | zero => exact absurd enough (Nat.not_lt_zero _)
  | succ fuel ih =>
    obtain ⟨next, stepped, kept⟩ := step_spec valid capacity inv
    rw [mainLoop, stepped]
    cases next with
    | go s' => exact ih kept.1 (by have := kept.2; omega)
    | lastLiterals anchor op out =>
      obtain ⟨sequences, emitted⟩ := kept
      exact lastLiterals_spec capacity emitted
    | full out => exact ⟨0, out, rfl, kept.2, Or.inl ⟨rfl, kept.1⟩⟩

end

end Job

end CviRuntime.Lz4Block
