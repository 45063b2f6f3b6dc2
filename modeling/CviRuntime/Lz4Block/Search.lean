import CviRuntime.Lz4Block.Count

/-!
# Searching for matches

Whatever the hash table holds below the current position, the search reads inside the source and
table, and the match it finds is behind the current position, near enough for sixteen bits and
agrees in four bytes.
-/

namespace CviRuntime.Lz4Block

open CviRuntime.ByteMem CviRuntime.CommonPrefix

namespace Job

variable {job : Job}

/-- What `LZ4_compress_fast_extState` chooses for an input that can be compressed. -/
structure Valid (job : Job) : Prop where
  long : 13 ≤ job.source.length
  short : job.source.length ≤ 0x7E000000
  near : job.tableType = .byU16 → job.source.length < 65536 + 11
  accelerated : 1 ≤ job.acceleration

/-- All positions in the table are below `bound`. -/
def Below (table : HashTable) (bound : Nat) : Prop := ∀ h, table h < bound

/-- From two places on so many bytes agree. -/
def Agree (job : Job) (p q n : Nat) : Prop :=
  ∀ k, k < n → job.source[p + k]? = job.source[q + k]?

theorem Below.mono {table : HashTable} {bound bound' : Nat} (below : Below table bound)
    (less : bound ≤ bound') : Below table bound' :=
  fun h => Nat.lt_of_lt_of_le (below h) less

/-! ## Hashes -/

theorem hashPosition_spec {p : Nat} (fits : p + 8 ≤ job.source.length) :
    ∃ h, job.hashPosition p = some h ∧ h < 2 ^ job.hashLog := by
  cases kind : job.tableType with
  | byU32 =>
    refine ⟨job.hash5 (leNat ((job.source.drop p).take 8)), ?_, ?_⟩
    · simp only [hashPosition, kind, read_eq fits, Option.map_some]
    · have log : job.hashLog = 12 := by rw [hashLog, kind]
      rw [hash5, log]
      omega
  | byU16 =>
    refine ⟨job.hash4 (leNat ((job.source.drop p).take 4)), ?_, ?_⟩
    · simp only [hashPosition, kind, read_eq (show p + 4 ≤ job.source.length by omega),
        Option.map_some]
    · have log : job.hashLog = 13 := by rw [hashLog, kind]
      rw [hash4, log]
      omega

/-- What is stored is no larger than the position, cut off to the width of the table or not. -/
theorem putIndexOnHash_spec {table : HashTable} {idx h bound : Nat}
    (inTable : h < 2 ^ job.hashLog) (below : Below table bound) (less : idx < bound) :
    ∃ table', job.putIndexOnHash table idx h = some table' ∧ Below table' bound := by
  refine ⟨_, if_pos inTable, ?_⟩
  intro k
  show (if k = h then _ else table k) < bound
  by_cases here : k = h
  · rw [if_pos here]
    cases job.tableType with
    | byU32 => exact Nat.lt_of_le_of_lt (Nat.mod_le _ _) less
    | byU16 => exact Nat.lt_of_le_of_lt (Nat.mod_le _ _) less
  · rw [if_neg here]
    exact below k

/-! ## The search -/

/-- A match at `ip` that the search may return. -/
structure Match (job : Job) (ip m : Nat) : Prop where
  behind : m < ip
  near : ip - m < 65536
  room : ip + 12 ≤ job.source.length
  agree : Agree job ip m 4

/-- What the search leads to, from a position `start` on. -/
def SearchResult (job : Job) (start : Nat) (r : Option Found) : Prop :=
  ∃ result, r = some result ∧
    match result with
    | .lastLiterals => True
    | .found ip m table => start ≤ ip ∧ Match job ip m ∧ Below table (ip + 1)

theorem findMatch_spec {fuel : Nat} {table : HashTable} {ip forwardH step searchMatchNb : Nat}
    (valid : job.Valid) (below : Below table ip) (hashed : forwardH < 2 ^ job.hashLog)
    (step_pos : 1 ≤ step) (many : 64 ≤ searchMatchNb)
    (enough : job.source.length < ip + fuel + 11) (room : ip + 11 ≤ job.source.length) :
    SearchResult job ip (job.findMatch fuel table ip forwardH step searchMatchNb) := by
  induction fuel generalizing table ip forwardH step searchMatchNb with
  | zero => omega
  | succ fuel ih =>
    have index : job.getIndexOnHash table forwardH = some (table forwardH) := if_pos hashed
    rw [findMatch, index, Option.bind_eq_bind, Option.bind_some]
    simp only
    by_cases last : job.source.length < ip + step + 11
    · rw [if_pos last]
      exact ⟨_, rfl, trivial⟩
    · obtain ⟨h, hash, hash_lt⟩ :=
        hashPosition_spec (show ip + step + 8 ≤ job.source.length by omega)
      obtain ⟨table', put, below'⟩ :=
        putIndexOnHash_spec hashed (below.mono (Nat.le_succ ip)) (Nat.lt_succ_self ip)
      have further : SearchResult job ip
          (job.findMatch fuel table' (ip + step) h (searchMatchNb / 64) (searchMatchNb + 1)) := by
        obtain ⟨result, run, kept⟩ :=
          ih (below'.mono (show ip + 1 ≤ ip + step by omega)) hash_lt
            (Nat.div_pos many (by decide)) (Nat.le_succ_of_le many) (by omega) (by omega)
        refine ⟨result, run, ?_⟩
        cases result with
        | lastLiterals => trivial
        | found ip' m table => exact ⟨by have := kept.1; omega, kept.2⟩
      have matchIndex := below forwardH
      simp only [if_neg last, hash, put, Option.bind_eq_bind, Option.bind_some]
      by_cases far : job.tableType ≠ .byU16 ∧ table forwardH + 65535 < ip
      · rw [if_pos far]
        exact further
      · rw [if_neg far, read_eq (show table forwardH + 4 ≤ job.source.length by omega),
          read_eq (show ip + 4 ≤ job.source.length by omega), Option.bind_some, Option.bind_some]
        by_cases same : leNat ((job.source.drop (table forwardH)).take 4) =
            leNat ((job.source.drop ip).take 4)
        · have agree := (block_eq_iff job (by omega) (by omega)).mp same
          rw [if_pos same]
          refine ⟨_, rfl, Nat.le_refl _, ⟨matchIndex, ?_, by omega, ?_⟩, below'⟩
          · by_cases kind : job.tableType = .byU16
            · have := valid.near kind
              omega
            · have near : ¬table forwardH + 65535 < ip := fun distance => far ⟨kind, distance⟩
              omega
          · exact fun k small => (agree k small).symm
        · rw [if_neg same]
          exact further

/-- The condition for a match without a search. -/
theorem isMatch_spec {ip m : Nat} (valid : job.Valid) (behind : m < ip)
    (room : ip + 12 ≤ job.source.length) :
    ∃ same, job.isMatch m ip = some same ∧ (same = true → Match job ip m) := by
  unfold isMatch
  by_cases near : job.tableType = .byU16 ∨ ip ≤ m + 65535
  · rw [if_pos near, read_eq (show m + 4 ≤ job.source.length by omega),
      read_eq (show ip + 4 ≤ job.source.length by omega)]
    refine ⟨_, rfl, ?_⟩
    intro same
    have agree := (block_eq_iff job (by omega) (by omega)).mp (of_decide_eq_true same)
    refine ⟨behind, ?_, room, fun k small => (agree k small).symm⟩
    rcases near with kind | distance
    · have := valid.near kind
      omega
    · omega
  · rw [if_neg near]
    exact ⟨false, rfl, fun impossible => nomatch impossible⟩

/-- Catching up keeps the distance and makes the match longer at its front. -/
theorem catchUp_spec (job : Job) {anchor ip m : Nat} (start : anchor ≤ ip) (behind : m < ip) :
    ∃ c, job.catchUp anchor ip m = (ip - c, m - c) ∧ c ≤ m ∧ anchor + c ≤ ip ∧
      Agree job (ip - c) (m - c) c := by
  induction m generalizing ip with
  | zero =>
    refine ⟨0, ?_, Nat.le_refl _, start, fun k below => absurd below (Nat.not_lt_zero k)⟩
    cases ip <;> rfl
  | succ m ih =>
    obtain ⟨ip, rfl⟩ := Nat.exists_eq_succ_of_ne_zero (Nat.ne_of_gt (Nat.lt_of_le_of_lt
      (Nat.zero_le _) behind))
    rw [catchUp]
    by_cases more : anchor < ip + 1 ∧ job.source[ip]? = job.source[m]?
    · obtain ⟨c, run, less, above, agree⟩ := ih (show anchor ≤ ip by omega) (by omega)
      refine ⟨c + 1, ?_, by omega, by omega, ?_⟩
      · rw [if_pos more, run]
        congr 1 <;> omega
      · intro k below
        rw [show ip + 1 - (c + 1) = ip - c by omega, show m + 1 - (c + 1) = m - c by omega]
        by_cases last : k = c
        · rw [last, Nat.sub_add_cancel (show c ≤ ip by omega), Nat.sub_add_cancel less]
          exact more.2
        · exact agree k (by omega)
    · rw [if_neg more]
      exact ⟨0, rfl, Nat.zero_le _, start, fun k below => absurd below (Nat.not_lt_zero k)⟩

end Job

end CviRuntime.Lz4Block
