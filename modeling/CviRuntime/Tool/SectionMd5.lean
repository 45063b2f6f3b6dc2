import CviRuntime.Tool.CompressedLoad
import CviRuntime.Tool.Md5Stream
import CviRuntime.Tool.SharedWeight

/-!
# The MD5 of a section

`calcSectionMD5` reads a section in blocks of 1024 bytes and feeds them one by one; a compressed
section is decompressed and fed at once. Both are the MD5 of the bytes that the section stands
for, so compressing a model changes none of them.
-/

namespace CviRuntime.Tool

open CviRuntime.Memory CviRuntime.Packed CviRuntime.Md5

/-- The loop of `Model::calcSectionMD5` (`cvimodel_tool.cpp:276-284`); `offset` is a
    `uint32_t`. -/
def feedBlocks (binary : List UInt8) (md5 : MD5) (offset size : Nat) : Option MD5 := do
  let len := min size 1024
  let buf ← streamRead binary offset len
  let md5 ← update md5 buf len
  if size - len = 0 then some md5
  else feedBlocks binary md5 (u32 (offset + len)) (size - len)
termination_by size
decreasing_by omega

/-- `md5.finalize().hexdigest()`. -/
def finish (md5 : MD5) : Option String := (finalize md5).map hexdigest

/-- `Model::calcSectionMD5` (`cvimodel_tool.cpp:265-287`) with its loop; `initial` is what was in
    the buffer of the MD5. -/
def sectionMD5 (lz4 : Lz4) (initial : Nat → UInt8) (d : ModelData) (s : Section) (size : Nat) :
    Option String :=
  if s.compress then
    match lz4.decompress (d.sectionBytes s) s.decompressedSize with
    | none => some ""
    | some out => (update (new initial) out out.length).bind finish
  else if 2 ^ 31 ≤ size then none
  else (feedBlocks d.binary (new initial) s.offset size).bind finish

variable {binary fed bytes : List UInt8} {m : MD5} {offset size : Nat}

theorem finish_eq (fits : Fed m fed) : finish m = some (hex (md5 fed)) := by
  obtain ⟨m', done, finalized, digest⟩ := finalize_spec fits
  rw [finish, done, Option.map_some, hexdigest, if_pos finalized, digest]

/-- The blocks are read one behind the other. -/
theorem feedBlocks_spec (noWrap : offset + size ≤ 2 ^ 32)
    (inside : offset + size ≤ binary.length) (fits : Fed m fed) :
    ∃ m', feedBlocks binary m offset size = some m' ∧ Fed m' (fed ++ slice binary offset size) := by
  induction size using Nat.strong_induction_on generalizing offset m fed with
  | _ size ih =>
    obtain ⟨len, lenIs⟩ : ∃ len, len = min size 1024 := ⟨_, rfl⟩
    have read : streamRead binary offset len = some (slice binary offset len) :=
      streamRead_eq_some.mpr ⟨by omega, rfl⟩
    have length : (slice binary offset len).length = len := length_slice (by omega)
    obtain ⟨m₁, updated, fits₁⟩ := update_spec fits (by omega) (Nat.le_of_eq length.symm)
    rw [List.take_of_length_le (Nat.le_of_eq length)] at fits₁
    unfold feedBlocks
    simp only [← lenIs, read, Option.bind_eq_bind, Option.bind_some, updated]
    by_cases last : size - len = 0
    · rw [if_pos last]
      have all : len = size := by omega
      rw [all] at fits₁
      exact ⟨m₁, rfl, fits₁⟩
    · have next : u32 (offset + len) = offset + len := u32_of_lt (by omega)
      rw [if_neg last, next]
      have noWrap' : offset + len + (size - len) ≤ 2 ^ 32 := by omega
      have inside' : offset + len + (size - len) ≤ binary.length := by omega
      obtain ⟨m₂, rest, fits₂⟩ := ih (size - len) (by omega) noWrap' inside' fits₁
      refine ⟨m₂, rest, ?_⟩
      have cut : slice binary offset size =
          slice binary offset len ++ slice binary (offset + len) (size - len) := by
        unfold slice
        rw [← List.drop_drop, ← List.take_add]
        congr 1
        omega
      rwa [cut, ← List.append_assoc]

/-- A block behind the end cannot be read. -/
theorem feedBlocks_outside (noWrap : offset + size ≤ 2 ^ 32)
    (outside : binary.length < offset + size) (m : MD5) :
    feedBlocks binary m offset size = none := by
  induction size using Nat.strong_induction_on generalizing offset m with
  | _ size ih =>
    obtain ⟨len, lenIs⟩ : ∃ len, len = min size 1024 := ⟨_, rfl⟩
    unfold feedBlocks
    simp only [← lenIs]
    cases read : streamRead binary offset len with
    | none => rfl
    | some bytes =>
      obtain ⟨inside, -⟩ := streamRead_eq_some.mp read
      have more : ¬size - len = 0 := by omega
      have next : u32 (offset + len) = offset + len := u32_of_lt (by omega)
      simp only [Option.bind_eq_bind, Option.bind_some]
      cases update m bytes len with
      | none => rfl
      | some m₁ =>
        simp only [Option.bind_some]
        rw [if_neg more, next]
        exact ih (size - len) (by omega) (by omega) (by omega) m₁

/-- The MD5 that the merge compares is that of the tool. -/
def md5Env (lz4 : Lz4) (sort : SortBySize) : MergeEnv where
  md5 := fun bytes => hex (md5 bytes)
  decompress := lz4.decompress
  sort := sort

section Section

variable {m : Model} {out : ModelData} {s : Section} {fastDecLoop : Bool}

/-- What is decompressed fits an `int`. -/
theorem length_of_decompress {initial : Nat → UInt8} {whole : List UInt8}
    (done : lz4Decompress fastDecLoop initial bytes size = some whole) :
    whole.length < 2 ^ 31 := by
  rw [lz4Decompress_eq] at done
  by_cases large : 2 ^ 31 ≤ bytes.length ∨ 2 ^ 31 ≤ size
  · rw [if_pos large] at done
    cases done
  · rw [if_neg large] at done
    have full := (Option.filter_eq_some_iff.mp done).2
    have length : whole.length = size := by simpa using full
    omega

theorem finish_update {initial : Nat → UInt8} (small : bytes.length < 2 ^ 32 - 64) :
    (update (new initial) bytes bytes.length).bind finish = some (hex (md5 bytes)) := by
  obtain ⟨m', updated, fits⟩ := update_spec (fed_new initial) small (Nat.le_refl _)
  rw [updated, Option.bind_some, finish_eq fits, List.take_length, List.nil_append]

/-- The loop computes what the merge is modelled with, as long as the offsets of the blocks fit
    32 bits. -/
theorem sectionMD5_eq_calcSectionMD5 (initial : Nat → UInt8) (sort : SortBySize)
    (noWrap : s.offset + size ≤ 2 ^ 32) :
    sectionMD5 (codec fastDecLoop) initial m.toModelData s size =
      calcSectionMD5 (md5Env (codec fastDecLoop) sort) m s size := by
  unfold sectionMD5 calcSectionMD5
  cases compressed : s.compress with
  | true =>
    rw [if_pos rfl, if_pos rfl]
    cases unpacked : (codec fastDecLoop).decompress (m.sectionBytes s) s.decompressedSize with
    | none => simp only [md5Env, unpacked]
    | some whole =>
      have small := length_of_decompress unpacked
      simp only [md5Env, unpacked]
      exact finish_update (by omega)
  | false =>
    rw [if_neg Bool.false_ne_true, if_neg Bool.false_ne_true]
    by_cases negative : 2 ^ 31 ≤ size
    · rw [if_pos negative, if_pos negative]
    · rw [if_neg negative, if_neg negative]
      by_cases inside : s.offset + size ≤ m.binary.length
      · obtain ⟨m', fedAll, fits⟩ := feedBlocks_spec noWrap inside (fed_new initial)
        have read : streamRead m.binary s.offset size = some (slice m.binary s.offset size) :=
          streamRead_eq_some.mpr ⟨inside, rfl⟩
        rw [fedAll, Option.bind_some, finish_eq fits, read, List.nil_append]
        rfl
      · have unread : streamRead m.binary s.offset size = none := if_neg inside
        rw [feedBlocks_outside noWrap (Nat.lt_of_not_le inside), unread]
        rfl

/-- Two blocks of 1024 bytes and one of 484. -/
theorem sectionMD5_eq_calcSectionMD5_three_blocks :
    sectionMD5 (codec true) (fun _ => 0xA5) (gapModel (List.replicate 2500 7)).toModelData
        ⟨.weight, "weight", 0, 2532, false, false, 0⟩ 2532 =
      calcSectionMD5 (md5Env (codec true) stableSort) (gapModel (List.replicate 2500 7))
        ⟨.weight, "weight", 0, 2532, false, false, 0⟩ 2532 :=
  sectionMD5_eq_calcSectionMD5 _ _ (by decide)

theorem sectionMD5_plain {d : ModelData} (initial : Nat → UInt8) (plain : s.compress = false)
    (small : s.size < 2 ^ 31) (noWrap : s.offset + s.size ≤ 2 ^ 32)
    (inside : s.offset + s.size ≤ d.binary.length) :
    sectionMD5 (codec fastDecLoop) initial d s s.size = some (hex (md5 (d.sectionBytes s))) := by
  obtain ⟨m', fedAll, fits⟩ := feedBlocks_spec noWrap inside (fed_new initial)
  rw [sectionMD5, plain, if_neg Bool.false_ne_true, if_neg (Nat.not_le.mpr small), fedAll,
    Option.bind_some, finish_eq fits, List.nil_append]
  rfl

/-- The MD5 of every section is that of the same section of the compressed model. -/
theorem sectionMD5_compressed {env : RewriteEnv} {fastDecLoop' : Bool} {k : Nat} {t : Section}
    (real : env.lz4 = codec fastDecLoop) (done : compressInst env m = some out)
    (ok : CompressOk env.lz4 m) (plain : ∀ s ∈ m.sections, s.compress = false)
    (small : m.binary.length ≤ 2 ^ 32) (small' : out.binary.length ≤ 2 ^ 32)
    (atK : m.sections[k]? = some s) (atK' : out.sections[k]? = some t)
    (initial initial' : Nat → UInt8) :
    sectionMD5 (codec fastDecLoop') initial' out t t.size =
      sectionMD5 (codec fastDecLoop) initial m.toModelData s s.size := by
  have member := List.mem_of_getElem? atK
  have inside := m.inside s member
  have inside' := compressInst_inside done atK atK'
  have keeps := (compressKeeps_iff done).mpr ok
  obtain ⟨written, -⟩ := compressInst_written done
  have flag := compress_eq_isBuffer written atK atK'
  cases buffer : isBuffer s with
  | false =>
    rw [buffer] at flag
    have size : t.size = s.size := by
      rw [written.header atK atK', compressEntry_plain buffer]
    by_cases negative : 2 ^ 31 ≤ s.size
    · rw [sectionMD5, sectionMD5, flag, plain s member, size, if_neg Bool.false_ne_true,
        if_pos negative, if_neg Bool.false_ne_true, if_pos negative]
    · rw [sectionMD5_plain initial' flag (by omega) (by omega) inside',
        sectionMD5_plain initial (plain s member) (by omega) (by omega) inside,
        keeps.plain k s t atK atK' flag]
  | true =>
    rw [buffer] at flag
    have unpacked := (keeps.compressed k s t atK atK' flag).1
    rw [real] at unpacked
    have short := length_of_decompress unpacked
    have size := m.length_sectionBytes member
    have same : (codec fastDecLoop').decompress (out.sectionBytes t) t.decompressedSize =
        some (m.sectionBytes s) := by
      rw [← unpacked]
      exact (lz4Decompress_eq ..).trans (lz4Decompress_eq ..).symm
    rw [sectionMD5, flag, if_pos rfl, same,
      sectionMD5_plain initial (plain s member) (by omega) (by omega) inside]
    exact finish_update (by omega)

theorem sectionMD5_compressed_no_gap :
    ∃ out t, compressInst codecEnv (gapModel []) = some out ∧ out.sections[0]? = some t ∧
      sectionMD5 (codec false) (fun _ => 0xA5) out t t.size =
        sectionMD5 (codec true) (fun _ => 0) (gapModel []).toModelData
          ⟨.cmdbuf, "main", 0, 32, false, false, 0⟩ 32 := by
  obtain ⟨out, done, short, ok⟩ := gapModel_compressed
  have real : codecEnv.lz4 = codec true := rfl
  obtain ⟨t, atK'⟩ := (compressInst_written done).1.exists_section
    (show (gapModel []).sections[0]? = some ⟨.cmdbuf, "main", 0, 32, false, false, 0⟩ from rfl)
  exact ⟨out, t, done, atK', sectionMD5_compressed real done ok (by simp [gapModel])
    (by simp [gapModel]) (by omega) rfl atK' _ _⟩

end Section

end CviRuntime.Tool
