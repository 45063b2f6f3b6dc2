import CviRuntime.Vlc.Stream
import CviRuntime.Vlc.Remap
import Mathlib.Logic.Function.Iterate
import Mathlib.Data.List.Count
import Mathlib.Data.Nat.Find

/-!
# Estimating the biases (`test/1822/bm_vlc_compress.h:595-643`)

For signed bytes `bm_vlc_est_weight_bias` counts the bytes of the buffer and looks for the
smallest positive and the largest negative one. Both scans pass an `int8_t` through all its values
and have no other end than a byte that occurs.
-/

namespace CviRuntime.Vlc

/-- `hist[ibuf[i]]++` for all bytes; the counters are `int`, and an overflow is `none`. -/
def countBytes : (UInt8 → Nat) → List UInt8 → Option (UInt8 → Nat)
  | hist, [] => some hist
  | hist, byte :: rest =>
    if hist byte + 1 < 2 ^ 31 then countBytes (Function.update hist byte (hist byte + 1)) rest
    else none

/-- `while (true) { if (hist[(uint8_t)v] == 0) v++; else break; }` with `next` for the increment
    or decrement; the `int8_t` is given by its byte. -/
def scan (hist : UInt8 → Nat) (next : UInt8 → UInt8) : Nat → UInt8 → Option UInt8
  | 0, _ => none
  | fuel + 1, v => if hist v = 0 then scan hist next fuel (next v) else some v

/-- `bm_vlc_est_weight_bias` with `signedness` and without `isBfloat16`. The other cases use
    floating point or change nothing but a flag, and are left out. -/
def bmVlcEstWeightBias (fuel : Nat) (ibuf : List UInt8) (cmdInfo : CommandInfo) :
    Option CommandInfo := do
  let hist ← countBytes (fun _ => 0) ibuf
  let posV ← scan hist (· + 1) fuel 1
  let bias0 := uint8 (if int8 posV > 1 then int8 posV - 1 else 0)
  let negV ← scan hist (· - 1) fuel 255
  let bias1 := uint8 (if int8 negV < -1 then (int8 negV + 1).natAbs else 0)
  some { cmdInfo with isBfloat16 := false, bias0 := bias0, bias1 := bias1, signedness := true }

/-- The biases are those of the buffer: one less than the smallest positive value, and one less
    than the magnitude of the largest negative one. -/
structure UsableBiases (ibuf : List UInt8) (cmdInfo : CommandInfo) : Prop where
  bias0_le : cmdInfo.bias0.toNat ≤ 126
  bias1_le : cmdInfo.bias1.toNat ≤ 127
  positive : (∃ byte ∈ ibuf, 0 < int8 byte) →
    (∃ byte ∈ ibuf, int8 byte = cmdInfo.bias0.toNat + 1) ∧
      ∀ byte ∈ ibuf, 0 < int8 byte → (cmdInfo.bias0.toNat : Int) + 1 ≤ int8 byte
  noPositive : (¬ ∃ byte ∈ ibuf, 0 < int8 byte) → cmdInfo.bias0 = 0
  negative : (∃ byte ∈ ibuf, int8 byte < 0) →
    (∃ byte ∈ ibuf, int8 byte = -(cmdInfo.bias1.toNat + 1)) ∧
      ∀ byte ∈ ibuf, int8 byte < 0 → int8 byte ≤ -((cmdInfo.bias1.toNat : Int) + 1)
  noNegative : (¬ ∃ byte ∈ ibuf, int8 byte < 0) → cmdInfo.bias1 = 0

/-- The call ends, with usable biases. -/
def Estimates (ibuf : List UInt8) (cmdInfo : CommandInfo) : Prop :=
  ∃ fuel cmdInfo', bmVlcEstWeightBias fuel ibuf cmdInfo = some cmdInfo' ∧
    UsableBiases ibuf cmdInfo'

/-! ## The histogram -/

theorem countBytes_of_small :
    ∀ {ibuf : List UInt8} {hist : UInt8 → Nat},
      (∀ byte, hist byte + ibuf.count byte < 2 ^ 31) →
      countBytes hist ibuf = some fun byte => hist byte + ibuf.count byte := by
  intro ibuf
  induction ibuf with
  | nil =>
    intro hist _
    rfl
  | cons first rest ih =>
    intro hist small
    have counts : ∀ byte, Function.update hist first (hist first + 1) byte + rest.count byte =
        hist byte + (first :: rest).count byte := by
      intro byte
      by_cases same : byte = first
      · subst same
        rw [Function.update_self, List.count_cons_self]
        omega
      · rw [Function.update_of_ne same, List.count_cons_of_ne (Ne.symm same)]
    have room : hist first + 1 < 2 ^ 31 := by
      have bound := small first
      rw [List.count_cons_self] at bound
      omega
    rw [countBytes, if_pos room, ih fun byte => (counts byte).symm ▸ small byte]
    exact congrArg some (funext counts)

theorem small_of_countBytes :
    ∀ {ibuf : List UInt8} {hist hist' : UInt8 → Nat}, (∀ byte, hist byte < 2 ^ 31) →
      countBytes hist ibuf = some hist' → ∀ byte, hist byte + ibuf.count byte < 2 ^ 31 := by
  intro ibuf
  induction ibuf with
  | nil =>
    intro hist hist' small _ byte
    exact small byte
  | cons first rest ih =>
    intro hist hist' small counted byte
    rw [countBytes] at counted
    by_cases room : hist first + 1 < 2 ^ 31
    · rw [if_pos room] at counted
      have updated : ∀ byte, Function.update hist first (hist first + 1) byte < 2 ^ 31 := by
        intro byte
        by_cases same : byte = first
        · rw [same, Function.update_self]
          exact room
        · rw [Function.update_of_ne same]
          exact small byte
      have later := ih updated counted byte
      by_cases same : byte = first
      · subst same
        rw [Function.update_self] at later
        rw [List.count_cons_self]
        omega
      · rw [Function.update_of_ne same] at later
        rwa [List.count_cons_of_ne (Ne.symm same)]
    · rw [if_neg room] at counted
      cases counted

/-! ## The scans -/

section

variable {hist : UInt8 → Nat} {next : UInt8 → UInt8}

/-- A scan stops at the first value that occurs. -/
theorem scan_first :
    ∀ {k : Nat} {v : UInt8} {fuel : Nat}, k < fuel → hist (next^[k] v) ≠ 0 →
      (∀ j < k, hist (next^[j] v) = 0) → scan hist next fuel v = some (next^[k] v) := by
  intro k
  induction k with
  | zero =>
    intro v fuel enough occurs _
    obtain ⟨fuel, rfl⟩ := Nat.exists_eq_succ_of_ne_zero enough.ne'
    exact if_neg occurs
  | succ k ih =>
    intro v fuel enough occurs before
    obtain ⟨fuel, rfl⟩ := Nat.exists_eq_succ_of_ne_zero (Nat.ne_zero_of_lt enough)
    have first : hist v = 0 := before 0 (Nat.succ_pos k)
    rw [Nat.succ_eq_add_one, scan, if_pos first]
    exact ih (Nat.lt_of_succ_lt_succ enough) occurs
      fun j below => before (j + 1) (Nat.succ_lt_succ below)

/-- Where nothing occurs, a scan does not stop. -/
theorem scan_never (none : ∀ byte, hist byte = 0) :
    ∀ {fuel : Nat} {v : UInt8}, scan hist next fuel v = Option.none := by
  intro fuel
  induction fuel with
  | zero =>
    intro v
    rfl
  | succ fuel ih =>
    intro v
    rw [scan, if_pos (none v)]
    exact ih

theorem iterate_succ (k : Nat) : (· + 1 : UInt8 → UInt8)^[k] 1 = UInt8.ofNat (1 + k) := by
  induction k with
  | zero => rfl
  | succ k ih =>
    rw [Function.iterate_succ_apply', ih, ← Nat.add_assoc]
    exact (UInt8.ofNat_add _ 1).symm

theorem iterate_pred {k : Nat} (small : k ≤ 255) :
    (· - 1 : UInt8 → UInt8)^[k] 255 = UInt8.ofNat (255 - k) := by
  induction k with
  | zero => rfl
  | succ k ih =>
    rw [Function.iterate_succ_apply', ih (by omega), ← Nat.sub_sub]
    have room : 1 ≤ 255 - k := by omega
    exact (UInt8.ofNat_sub room).symm

/-- Of the counts from 0 to 255 at which a value occurs there is a least one. -/
theorem exists_first {values : Nat → UInt8} (occurs : ∃ k < 256, hist (values k) ≠ 0) :
    ∃ k < 256, hist (values k) ≠ 0 ∧ ∀ j < k, hist (values j) = 0 := by
  classical
  refine ⟨Nat.find occurs, (Nat.find_spec occurs).1, (Nat.find_spec occurs).2, fun j below => ?_⟩
  have notEarlier := Nat.find_min occurs below
  by_contra found
  exact notEarlier ⟨below.trans (Nat.find_spec occurs).1, found⟩

/-- The scan for the smallest positive value. -/
theorem scan_up {byte : UInt8} (occurs : hist byte ≠ 0) :
    ∃ v, scan hist (· + 1) 256 1 = some v ∧ hist v ≠ 0 ∧
      ∀ byte, hist byte ≠ 0 → 0 < int8 byte → 0 < int8 v ∧ int8 v ≤ int8 byte := by
  have some : ∃ k < 256, hist ((· + 1 : UInt8 → UInt8)^[k] 1) ≠ 0 := by
    refine ⟨(byte.toNat + 255) % 256, Nat.mod_lt _ (by omega), ?_⟩
    have back : UInt8.ofNat (1 + (byte.toNat + 255) % 256) = byte := by
      apply UInt8.toNat_inj.mp
      have bound := byte.toNat_lt
      rw [UInt8.toNat_ofNat']
      omega
    rwa [iterate_succ, back]
  obtain ⟨k, small, found, before⟩ := exists_first some
  refine ⟨_, scan_first small found before, found, ?_⟩
  intro other occurs positive
  have bound := other.toNat_lt
  have low : 1 ≤ other.toNat ∧ other.toNat < 128 := by
    unfold int8 at positive
    split at positive <;> omega
  have late : k ≤ other.toNat - 1 := by
    by_contra early
    have absent := before (other.toNat - 1) (by omega)
    have same : 1 + (other.toNat - 1) = other.toNat := by omega
    rw [iterate_succ, same, UInt8.ofNat_toNat] at absent
    exact occurs absent
  have value : (UInt8.ofNat (1 + k)).toNat = 1 + k := by
    rw [UInt8.toNat_ofNat']
    omega
  rw [iterate_succ, int8, int8, value, if_pos (by omega), if_pos low.2]
  omega

/-- The scan for the largest negative value. -/
theorem scan_down {byte : UInt8} (occurs : hist byte ≠ 0) :
    ∃ v, scan hist (· - 1) 256 255 = some v ∧ hist v ≠ 0 ∧
      ∀ byte, hist byte ≠ 0 → int8 byte < 0 → int8 v < 0 ∧ int8 byte ≤ int8 v := by
  have some : ∃ k < 256, hist ((· - 1 : UInt8 → UInt8)^[k] 255) ≠ 0 := by
    have bound := byte.toNat_lt
    refine ⟨255 - byte.toNat, by omega, ?_⟩
    have back : 255 - (255 - byte.toNat) = byte.toNat := by omega
    rwa [iterate_pred (by omega), back, UInt8.ofNat_toNat]
  obtain ⟨k, small, found, before⟩ := exists_first some
  refine ⟨_, scan_first small found before, found, ?_⟩
  intro other occurs negative
  have bound := other.toNat_lt
  have high : 128 ≤ other.toNat := by
    unfold int8 at negative
    split at negative <;> omega
  have late : k ≤ 255 - other.toNat := by
    by_contra early
    have absent := before (255 - other.toNat) (by omega)
    have same : 255 - (255 - other.toNat) = other.toNat := by omega
    rw [iterate_pred (by omega), same, UInt8.ofNat_toNat] at absent
    exact occurs absent
  have value : (UInt8.ofNat (255 - k)).toNat = 255 - k := by
    rw [UInt8.toNat_ofNat']
    omega
  rw [iterate_pred (by omega), int8, int8, value, if_neg (by omega), if_neg (by omega)]
  omega

end

/-! ## The biases -/

section

variable {ibuf : List UInt8} {hist : UInt8 → Nat}

/-- The bias taken from where the first scan stops. -/
theorem bias0_eq (posV : UInt8) :
    ((uint8 (if int8 posV > 1 then int8 posV - 1 else 0)).toNat : Int) =
      if int8 posV > 1 then int8 posV - 1 else 0 := by
  have bounds := int8_range posV
  rw [toNat_uint8]
  split <;> omega

/-- The bias taken from where the second scan stops. -/
theorem bias1_eq (negV : UInt8) :
    ((uint8 (if int8 negV < -1 then ((int8 negV + 1).natAbs : Int) else 0)).toNat : Int) =
      if int8 negV < -1 then ((int8 negV + 1).natAbs : Int) else 0 := by
  have bounds := int8_range negV
  rw [toNat_uint8]
  split <;> omega

/-- The values the scans stop at give usable biases. -/
theorem usableBiases_of_scans (cmdInfo : CommandInfo) (occur : ∀ byte, hist byte ≠ 0 ↔ byte ∈ ibuf)
    {posV negV bias0 bias1 : UInt8} (posOccurs : hist posV ≠ 0)
    (posFirst : ∀ byte, hist byte ≠ 0 → 0 < int8 byte → 0 < int8 posV ∧ int8 posV ≤ int8 byte)
    (negOccurs : hist negV ≠ 0)
    (negFirst : ∀ byte, hist byte ≠ 0 → int8 byte < 0 → int8 negV < 0 ∧ int8 byte ≤ int8 negV)
    (eq0 : (bias0.toNat : Int) = if int8 posV > 1 then int8 posV - 1 else 0)
    (eq1 : (bias1.toNat : Int) = if int8 negV < -1 then ((int8 negV + 1).natAbs : Int) else 0) :
    UsableBiases ibuf
      { cmdInfo with isBfloat16 := false, bias0 := bias0, bias1 := bias1, signedness := true } := by
  have posBounds := int8_range posV
  have negBounds := int8_range negV
  refine ⟨?_, ?_, ?_, ?_, ?_, ?_⟩
  · dsimp only
    split at eq0 <;> omega
  · dsimp only
    split at eq1 <;> omega
  · rintro ⟨byte, member, positive⟩
    have found := posFirst byte ((occur byte).mpr member) positive
    have exact : (bias0.toNat : Int) + 1 = int8 posV := by
      rw [eq0]
      split <;> omega
    dsimp only
    rw [exact]
    exact ⟨⟨posV, (occur posV).mp posOccurs, rfl⟩, fun other member positive =>
      (posFirst other ((occur other).mpr member) positive).2⟩
  · intro none
    have nonpos : ¬ int8 posV > 1 := fun positive =>
      none ⟨posV, (occur posV).mp posOccurs, by omega⟩
    rw [if_neg nonpos] at eq0
    exact UInt8.toNat_inj.mp (by exact_mod_cast eq0)
  · rintro ⟨byte, member, negative⟩
    have found := negFirst byte ((occur byte).mpr member) negative
    have exact : -((bias1.toNat : Int) + 1) = int8 negV := by
      rw [eq1]
      split <;> omega
    dsimp only
    rw [exact]
    exact ⟨⟨negV, (occur negV).mp negOccurs, rfl⟩, fun other member negative =>
      (negFirst other ((occur other).mpr member) negative).2⟩
  · intro none
    have nonneg : ¬ int8 negV < -1 := fun negative =>
      none ⟨negV, (occur negV).mp negOccurs, by omega⟩
    rw [if_neg nonneg] at eq1
    exact UInt8.toNat_inj.mp (by exact_mod_cast eq1)

/-- The estimation ends with usable biases exactly for the buffers that are not empty and have no
    byte `2 ^ 31` times. -/
theorem bmVlcEstWeightBias_iff (ibuf : List UInt8) (cmdInfo : CommandInfo) :
    Estimates ibuf cmdInfo ↔ ibuf ≠ [] ∧ ∀ byte, ibuf.count byte < 2 ^ 31 := by
  constructor
  · rintro ⟨fuel, cmdInfo', ended, -⟩
    simp only [bmVlcEstWeightBias, Option.bind_eq_bind, Option.bind_eq_some_iff] at ended
    obtain ⟨hist, counted, posV, stopped, -⟩ := ended
    refine ⟨?_, fun byte => ?_⟩
    · rintro rfl
      cases counted
      rw [scan_never fun _ => rfl] at stopped
      cases stopped
    · have small := small_of_countBytes (fun _ => by omega) counted byte
      omega
  · rintro ⟨nonempty, small⟩
    have counted := @countBytes_of_small ibuf (fun _ => 0)
      fun byte => by simpa using small byte
    simp only [Nat.zero_add] at counted
    have occur : ∀ byte, ibuf.count byte ≠ 0 ↔ byte ∈ ibuf := fun byte => by
      rw [← Nat.pos_iff_ne_zero, List.count_pos_iff]
    obtain ⟨byte, member⟩ := List.exists_mem_of_ne_nil ibuf nonempty
    obtain ⟨posV, posStops, posOccurs, posFirst⟩ :=
      @scan_up (fun byte => ibuf.count byte) _ ((occur byte).mpr member)
    obtain ⟨negV, negStops, negOccurs, negFirst⟩ :=
      @scan_down (fun byte => ibuf.count byte) _ ((occur byte).mpr member)
    refine ⟨256, _, ?_, usableBiases_of_scans cmdInfo occur posOccurs posFirst negOccurs negFirst
      (bias0_eq posV) (bias1_eq negV)⟩
    simp only [bmVlcEstWeightBias, counted, posStops, negStops, Option.bind_eq_bind,
      Option.bind_some]

end

/-- The empty buffer: the first scan never ends. -/
theorem bmVlcEstWeightBias_empty : ¬ Estimates [] ⟨true, false, 0, 0, false⟩ := by
  rintro ⟨fuel, cmdInfo', ended, -⟩
  simp only [bmVlcEstWeightBias, countBytes, scan_never fun _ => rfl, Option.bind_eq_bind,
    Option.bind_some, Option.bind_none] at ended
  cases ended

-- 3, -5 and 0: the biases are 2 and 4.
example : bmVlcEstWeightBias 256 [3, 251, 0] ⟨false, true, 9, 9, true⟩ =
    some ⟨true, false, 2, 4, true⟩ := by decide +kernel

end CviRuntime.Vlc
