import CviRuntime.Tool.Rebuild

/-!
# What a rewritten model selects

A section that is passed through is read where the sizes before it add up to and written where
the new sizes add up to. It selects its bytes again when what lies at that sum is what it
selected before.
-/

namespace CviRuntime.Tool

open CviRuntime.Runtime CviRuntime.Memory CviRuntime.Packed

/-! ## What is written -/

/-- Where the tool reads section `k`. -/
def runningSum (sections : List Section) (k : Nat) : Nat :=
  ((sections.take k).map fun s => s.size).sum

/-- What it reads there. -/
def bytesAtSum (m : Model) (k : Nat) (s : Section) : List UInt8 :=
  slice m.binary (u32 (runningSum m.sections k)) s.size

/-- What it has for a buffer: the first section of the name, compressed. -/
def compressedAs (lz4 : Lz4) (m : Model) (s : Section) : List UInt8 :=
  ((firstNamed m.sections s.name).bind fun first => lz4.compress (m.sectionBytes first)).getD []

/-- The pieces of the new binary part after `compress_inst`. -/
def compressPieces (lz4 : Lz4) (m : Model) : List (List UInt8) :=
  m.sections.mapIdx fun k s => if isBuffer s then compressedAs lz4 m s else bytesAtSum m k s

/-- The pieces of the new binary part after `encrypt`. -/
def encryptPieces (encFiles : List (String × List UInt8)) (m : Model) : List (List UInt8) :=
  m.sections.mapIdx fun k s =>
    if isEncrypted s then (encFiles.lookup s.name).getD [] else bytesAtSum m k s

/-- What 32 bits of the place of piece `k` select. -/
def selected (pieces : List (List UInt8)) (k n : Nat) : List UInt8 :=
  slice pieces.flatten (u32 (position pieces k)) n

/-! ## What is asked of the output -/

/-- Section `k` of the output is what section `k` of the model was. -/
structure CompressKeeps (lz4 : Lz4) (m : Model) (out : ModelData) : Prop where
  plain : ∀ (k : Nat) (s t : Section), m.sections[k]? = some s → out.sections[k]? = some t →
    t.compress = false → out.sectionBytes t = m.sectionBytes s
  compressed : ∀ (k : Nat) (s t : Section), m.sections[k]? = some s → out.sections[k]? = some t →
    t.compress = true →
    lz4.decompress (out.sectionBytes t) t.decompressedSize = some (m.sectionBytes s) ∧
      t.decompressedSize = (m.sectionBytes s).length

def EncryptKeeps (m : Model) (out : ModelData) : Prop :=
  ∀ (k : Nat) (s t : Section), m.sections[k]? = some s → out.sections[k]? = some t →
    t.encrypt = false → out.sectionBytes t = m.sectionBytes s

/-- A section that is passed through is kept: its bytes lie where the sizes before it add up to.
    From 4 GiB of new pieces on they have to lie where the offset wraps to. -/
structure PlainOk (m : Model) (pieces : List (List UInt8)) (k : Nat) (s : Section) : Prop where
  below : position pieces k < 2 ^ 32 → bytesAtSum m k s = m.sectionBytes s
  above : 2 ^ 32 ≤ position pieces k → selected pieces k s.size = m.sectionBytes s

/-- A buffer is kept: the first section of its name has its bytes. From 4 GiB of new pieces on
    what lies where the offset wraps to has to decompress to them. -/
structure BufferOk (lz4 : Lz4) (m : Model) (pieces : List (List UInt8)) (k : Nat)
    (s first : Section) :
    Prop where
  below : position pieces k < 2 ^ 32 → m.sectionBytes first = m.sectionBytes s
  above : 2 ^ 32 ≤ position pieces k → first.size = s.size ∧
    lz4.decompress (selected pieces k (compressedAs lz4 m s).length) s.size =
      some (m.sectionBytes s)

structure CompressOk (lz4 : Lz4) (m : Model) : Prop where
  plain : ∀ (k : Nat) (s : Section), m.sections[k]? = some s → isBuffer s = false →
    PlainOk m (compressPieces lz4 m) k s
  buffer : ∀ (k : Nat) (s first : Section), m.sections[k]? = some s → isBuffer s = true →
    firstNamed m.sections s.name = some first → BufferOk lz4 m (compressPieces lz4 m) k s first

def EncryptOk (env : RewriteEnv) (m : Model) : Prop :=
  ∀ job, encryptJob env m = some job → ∀ (k : Nat) (s : Section), m.sections[k]? = some s →
    isEncrypted s = false → PlainOk m (encryptPieces (env.encrypter job) m) k s

/-! ## The loops -/

theorem streamRead_eq_some {binary bytes : List UInt8} {offset size : Nat} :
    streamRead binary offset size = some bytes ↔
      offset + size ≤ binary.length ∧ slice binary offset size = bytes := by
  unfold streamRead
  by_cases inside : offset + size ≤ binary.length
  · simp [inside, slice]
  · simp [inside]

/-- The entries of a loop that keeps the sum of the sizes. -/
def running (entry : Nat → Section → Section × List UInt8) :
    Nat → List Section → List (Section × List UInt8)
  | _, [] => []
  | offset, s :: rest => entry offset s :: running entry (u32 (offset + s.size)) rest

theorem getElem?_running (entry : Nat → Section → Section × List UInt8) :
    ∀ (sections : List Section) (start k : Nat),
      (running entry (u32 start) sections)[k]? =
        sections[k]?.map (entry (u32 (start + runningSum sections k))) := by
  intro sections
  induction sections with
  | nil =>
    intro start k
    rfl
  | cons s rest ih =>
    intro start k
    have next : u32 (u32 start + s.size) = u32 (start + s.size) := Nat.mod_add_mod _ _ _
    unfold running
    rw [next]
    cases k with
    | zero => simp [runningSum]
    | succ k =>
      rw [List.getElem?_cons_succ, List.getElem?_cons_succ, ih]
      simp [runningSum, Nat.add_assoc]

section Compress

variable {env : RewriteEnv} {lz4 : Lz4} {m : Model}

theorem firstNamed_mem {sections : List Section} {name : String} {first : Section}
    (found : firstNamed sections name = some first) : first ∈ sections :=
  List.mem_of_find?_eq_some found

theorem compressSectionToFile_eq_some {s : Section} {out : List UInt8}
    (done : compressSectionToFile lz4 m s = some out) :
    lz4.compress (m.sectionBytes s) = some out ∧ out.length ≤ s.size := by
  simp only [compressSectionToFile, Option.bind_eq_bind, Option.bind_eq_some_iff] at done
  obtain ⟨inBuf, read, done⟩ := done
  split at done
  · cases done
  · obtain ⟨out', packed, done⟩ := Option.bind_eq_some_iff.mp done
    split at done
    · cases done
    · rename_i fits
      cases done
      obtain ⟨-, rfl⟩ := streamRead_eq_some.mp read
      exact ⟨packed, by omega⟩

/-- A file has the first section of its name, compressed, and the size of that section is noted. -/
def FilesRight (lz4 : Lz4) (m : Model) (c : Compressed) : Prop :=
  ∀ name out, c.files.lookup name = some out → ∃ first, firstNamed m.sections name = some first ∧
    compressSectionToFile lz4 m first = some out ∧ c.comprInfo.lookup name = some first.size

/-- One section that is compressed. -/
theorem FilesRight.store {c : Compressed} (right : FilesRight env.lz4 m c) {name : String}
    {first : Section} {out : List UInt8} (found : firstNamed m.sections name = some first)
    (packed : compressSectionToFile env.lz4 m first = some out) :
    FilesRight env.lz4 m ⟨env.store c.files name out, assign c.comprInfo name first.size⟩ := by
  intro name' out' file
  by_cases same : name' = name
  · subst same
    refine ⟨first, found, ?_, by rw [lookup_assign, if_pos rfl]⟩
    unfold RewriteEnv.store at file
    split at file
    · rw [lookup_assign, if_pos rfl] at file
      cases file
      exact packed
    · obtain ⟨first', found', packed', -⟩ := right name' out' file
      rw [found] at found'
      cases found'
      exact packed'
  · have before : c.files.lookup name' = some out' := by
      unfold RewriteEnv.store at file
      split at file
      · rwa [lookup_assign, if_neg same] at file
      · exact file
    obtain ⟨first', found', packed', info⟩ := right name' out' before
    exact ⟨first', found', packed', by rw [lookup_assign, if_neg same, info]⟩

/-- The files after all routines. -/
theorem compressLoop_right : ∀ {routines : List Routine} {c c' : Compressed},
    FilesRight env.lz4 m c → compressLoop env m routines c = some c' →
    FilesRight env.lz4 m c' := by
  intro routines
  induction routines with
  | nil =>
    intro c c' right done
    cases done
    exact right
  | cons r rest ih =>
    intro c c' right done
    unfold compressLoop at done
    split at done
    · exact ih right done
    · split at done
      · cases done
      · split at done
        · exact ih right done
        · rename_i found
          obtain ⟨out, packed, done⟩ := Option.bind_eq_some_iff.mp done
          exact ih (right.store found packed) done

/-- What `compress_inst` writes for a section read at `offset`. -/
def compressEntry (lz4 : Lz4) (m : Model) (offset : Nat) (s : Section) : Section × List UInt8 :=
  if isBuffer s then
    ({ s with
        size := (compressedAs lz4 m s).length
        encrypt := false
        compress := true
        decompressedSize := ((firstNamed m.sections s.name).map fun first => first.size).getD 0 },
      compressedAs lz4 m s)
  else
    ({ s with encrypt := false, compress := false, decompressedSize := 0 },
      slice m.binary offset s.size)

/-- The buffer's name was found and the section of that name was compressed. -/
def Packed (lz4 : Lz4) (m : Model) (s : Section) : Prop :=
  ∃ first, firstNamed m.sections s.name = some first ∧
    lz4.compress (m.sectionBytes first) = some (compressedAs lz4 m s)

/-- The header of every piece has its length. -/
def Sized (entries : List (Section × List UInt8)) : Prop := ∀ e ∈ entries, e.1.size = e.2.length

/-- The loop writes the entries and does not get past a buffer that was not compressed. -/
theorem rebuildCompressed_spec {c : Compressed} (right : FilesRight lz4 m c) :
    ∀ {rest : List Section} {offset : Nat} {files : List (String × List UInt8)}
      {w w' : SectionWriter},
      (∀ name out, files.lookup name = some out → c.files.lookup name = some out) →
      rebuildCompressed m c.comprInfo rest offset files w = some w' →
      w' = (running (compressEntry lz4 m) offset rest).foldl (fun w e => w.add e.1 e.2) w ∧
        Sized (running (compressEntry lz4 m) offset rest) ∧
        ∀ s ∈ rest, isBuffer s = true → Packed lz4 m s := by
  intro rest
  induction rest with
  | nil =>
    intro offset files w w' _ done
    cases done
    exact ⟨rfl, by simp [Sized, running], by simp⟩
  | cons s rest ih =>
    intro offset files w w' sub done
    unfold rebuildCompressed at done
    unfold running
    rw [List.foldl_cons]
    by_cases buffer : isBuffer s = true
    · rw [if_pos buffer] at done
      obtain ⟨buf, file, done⟩ := Option.bind_eq_some_iff.mp done
      obtain ⟨first, found, packed, info⟩ := right s.name buf (sub s.name buf file)
      obtain ⟨compressed, fits⟩ := compressSectionToFile_eq_some packed
      have small := m.sizeLt first (firstNamed_mem found)
      have isBuf : compressedAs lz4 m s = buf := by
        rw [compressedAs, found, Option.bind_some, compressed, Option.getD_some]
      have entry : compressEntry lz4 m offset s =
          ({ s with
              size := u32 buf.length
              encrypt := false
              compress := true
              decompressedSize := u32 ((c.comprInfo.lookup s.name).getD 0) }, buf) := by
        rw [compressEntry, if_pos buffer, isBuf, found, info, Option.map_some, Option.getD_some,
          u32_of_lt small, u32_of_lt (by omega)]
      obtain ⟨wrote, sized, packedRest⟩ := ih (fun name out found => sub name out (by
        rw [lookup_filter_ne] at found
        split at found
        · cases found
        · exact found)) done
      rw [entry]
      refine ⟨wrote, ?_, ?_⟩
      · refine List.forall_mem_cons.mpr ⟨?_, sized⟩
        exact u32_of_lt (by omega)
      · refine List.forall_mem_cons.mpr ⟨fun _ => ⟨first, found, ?_⟩, packedRest⟩
        rw [isBuf]
        exact compressed
    · rw [if_neg buffer] at done
      obtain ⟨buf, read, done⟩ := Option.bind_eq_some_iff.mp done
      obtain ⟨inside, rfl⟩ := streamRead_eq_some.mp read
      have entry : compressEntry lz4 m offset s =
          ({ s with encrypt := false, compress := false, decompressedSize := 0 },
            slice m.binary offset s.size) := by
        rw [compressEntry, if_neg buffer]
      obtain ⟨wrote, sized, packedRest⟩ := ih sub done
      rw [entry]
      refine ⟨wrote, ?_, ?_⟩
      · exact List.forall_mem_cons.mpr ⟨(length_slice inside).symm, sized⟩
      · exact List.forall_mem_cons.mpr ⟨fun isBuf => absurd isBuf buffer, packedRest⟩

end Compress

/-- What `encrypt` writes for a section read at `offset`. -/
def encryptEntry (encFiles : List (String × List UInt8)) (m : Model) (offset : Nat) (s : Section) :
    Section × List UInt8 :=
  if isEncrypted s then
    ({ s with
        size := u32 ((encFiles.lookup s.name).getD []).length
        encrypt := true
        compress := false
        decompressedSize := 0 },
      (encFiles.lookup s.name).getD [])
  else
    ({ s with encrypt := false, compress := false, decompressedSize := 0 },
      slice m.binary offset s.size)

theorem rebuildEncrypted_spec {m : Model} {encFiles : List (String × List UInt8)} :
    ∀ {rest : List Section} {offset : Nat} {w w' : SectionWriter},
      rebuildEncrypted m encFiles rest offset w = some w' →
      w' = (running (encryptEntry encFiles m) offset rest).foldl (fun w e => w.add e.1 e.2) w ∧
        ∀ e ∈ running (encryptEntry encFiles m) offset rest, e.1.encrypt = false →
          e.1.size = e.2.length := by
  intro rest
  induction rest with
  | nil =>
    intro offset w w' done
    cases done
    exact ⟨rfl, by simp [running]⟩
  | cons s rest ih =>
    intro offset w w' done
    unfold rebuildEncrypted at done
    unfold running
    rw [List.foldl_cons]
    by_cases encrypted : isEncrypted s = true
    · rw [if_pos encrypted] at done
      obtain ⟨buf, file, done⟩ := Option.bind_eq_some_iff.mp done
      obtain ⟨wrote, sized⟩ := ih done
      rw [encryptEntry, if_pos encrypted, file, Option.getD_some]
      exact ⟨wrote, List.forall_mem_cons.mpr ⟨by simp, sized⟩⟩
    · rw [if_neg encrypted] at done
      obtain ⟨buf, read, done⟩ := Option.bind_eq_some_iff.mp done
      obtain ⟨inside, rfl⟩ := streamRead_eq_some.mp read
      obtain ⟨wrote, sized⟩ := ih done
      rw [encryptEntry, if_neg encrypted]
      exact ⟨wrote, List.forall_mem_cons.mpr ⟨fun _ => (length_slice inside).symm, sized⟩⟩

/-! ## The output -/

/-- A file with the entries of a loop over the sections. -/
structure WrittenAs (m : Model) (entry : Nat → Section → Section × List UInt8)
    (pieces : List (List UInt8)) (out : ModelData) : Prop where
  sections : out.sections = SectionWriter.laidOut (running entry 0 m.sections)
  cut : (running entry 0 m.sections).map Prod.snd = pieces
  binary : out.binary = pieces.flatten

section Written

variable {m : Model} {entry : Nat → Section → Section × List UInt8} {pieces : List (List UInt8)}
  {out : ModelData}

theorem getElem?_running_zero (entry : Nat → Section → Section × List UInt8) (m : Model) (k : Nat) :
    (running entry 0 m.sections)[k]? =
    m.sections[k]?.map (entry (u32 (runningSum m.sections k))) := by
  have step := getElem?_running entry m.sections 0 k
  rwa [Nat.zero_add] at step

theorem map_running :
    (running entry 0 m.sections).map Prod.snd =
      m.sections.mapIdx fun k s => (entry (u32 (runningSum m.sections k)) s).2 := by
  apply List.ext_getElem?
  intro k
  rw [List.getElem?_map, List.getElem?_mapIdx, getElem?_running_zero, Option.map_map]
  rfl

/-- The header of section `k`. -/
theorem WrittenAs.header (written : WrittenAs m entry pieces out) {k : Nat} {s t : Section}
    (atK : m.sections[k]? = some s) (atK' : out.sections[k]? = some t) :
    t = { (entry (u32 (runningSum m.sections k)) s).1 with offset := u32 (position pieces k) } := by
  rw [written.sections, SectionWriter.laidOut, List.getElem?_mapIdx, getElem?_running_zero, atK,
    written.cut] at atK'
  exact (Option.some.inj atK').symm

theorem WrittenAs.piece (written : WrittenAs m entry pieces out) {k : Nat} {s : Section}
    (atK : m.sections[k]? = some s) :
    pieces[k]? = some (entry (u32 (runningSum m.sections k)) s).2 := by
  rw [← written.cut, List.getElem?_map, getElem?_running_zero, atK]
  rfl

theorem entry_mem_running {k : Nat} {s : Section} (atK : m.sections[k]? = some s) :
    entry (u32 (runningSum m.sections k)) s ∈ running entry 0 m.sections := by
  have step := getElem?_running_zero entry m k
  rw [atK] at step
  exact List.mem_of_getElem? step

/-- The bytes of section `k`. -/
theorem WrittenAs.bytes (written : WrittenAs m entry pieces out) {k : Nat} {s t : Section}
    (atK : m.sections[k]? = some s) (atK' : out.sections[k]? = some t) :
    out.sectionBytes t =
      selected pieces k (entry (u32 (runningSum m.sections k)) s).1.size := by
  rw [written.header atK atK', ModelData.sectionBytes, written.binary, selected]

/-- There is a section for each of the model. -/
theorem WrittenAs.exists_section (written : WrittenAs m entry pieces out) {k : Nat} {s : Section}
    (atK : m.sections[k]? = some s) : ∃ t, out.sections[k]? = some t := by
  rw [written.sections, SectionWriter.laidOut, List.getElem?_mapIdx, getElem?_running_zero, atK]
  exact ⟨_, rfl⟩

end Written

/-- Below 4 GiB a piece is selected. -/
theorem selected_below {pieces : List (List UInt8)} {k : Nat} {piece : List UInt8}
    (atK : pieces[k]? = some piece) (below : position pieces k < 2 ^ 32) :
    selected pieces k piece.length = piece := by
  rw [selected, u32_of_lt below]
  exact slice_flatten atK

/-- What a section that is passed through selects. -/
theorem plainOk_iff {m : Model} {pieces : List (List UInt8)} {k : Nat} {s : Section}
    (piece : pieces[k]? = some (bytesAtSum m k s)) (length : (bytesAtSum m k s).length = s.size) :
    selected pieces k s.size = m.sectionBytes s ↔ PlainOk m pieces k s := by
  constructor
  · intro same
    refine ⟨fun below => ?_, fun _ => same⟩
    rw [← same, ← length, selected_below piece below]
  · intro ok
    rcases Nat.lt_or_ge (position pieces k) (2 ^ 32) with below | above
    · rw [← ok.below below, ← length, selected_below piece below]
    · exact ok.above above

theorem compressInst_written {env : RewriteEnv} {m : Model} {out : ModelData}
    (done : compressInst env m = some out) :
    WrittenAs m (compressEntry env.lz4 m) (compressPieces env.lz4 m) out ∧
      Sized (running (compressEntry env.lz4 m) 0 m.sections) ∧
      ∀ s ∈ m.sections, isBuffer s = true → Packed env.lz4 m s := by
  simp only [compressInst, Option.bind_eq_bind, Option.bind_eq_some_iff, Option.pure_def,
    Option.some.injEq] at done
  obtain ⟨c, stored, weightMap, -, w, rebuilt, rfl⟩ := done
  have right : FilesRight env.lz4 m c :=
    compressLoop_right (fun name out found => by cases found) stored
  obtain ⟨rfl, sized, packed⟩ := rebuildCompressed_spec right (fun _ _ found => found) rebuilt
  have pieces : (running (compressEntry env.lz4 m) 0 m.sections).map Prod.snd =
      compressPieces env.lz4 m := by
    rw [map_running, compressPieces]
    congr 1
    funext k s
    unfold compressEntry
    split <;> rfl
  have wrote := SectionWriter.addAll_eq (running (compressEntry env.lz4 m) 0 m.sections)
  unfold SectionWriter.addAll at wrote
  refine ⟨⟨?_, pieces, ?_⟩, sized, packed⟩
  · rw [wrote]
  · rw [wrote, pieces]

theorem encrypt_written {env : RewriteEnv} {m : Model} {out : ModelData}
    (done : encrypt env m = some out) : ∃ job, encryptJob env m = some job ∧
      WrittenAs m (encryptEntry (env.encrypter job) m) (encryptPieces (env.encrypter job) m) out ∧
      ∀ e ∈ running (encryptEntry (env.encrypter job) m) 0 m.sections, e.1.encrypt = false →
        e.1.size = e.2.length := by
  simp only [encrypt, Option.bind_eq_bind, Option.bind_eq_some_iff, Option.pure_def,
    Option.some.injEq] at done
  obtain ⟨job, stored, weightMap, -, w, rebuilt, rfl⟩ := done
  obtain ⟨rfl, sized⟩ := rebuildEncrypted_spec rebuilt
  have pieces : (running (encryptEntry (env.encrypter job) m) 0 m.sections).map Prod.snd =
      encryptPieces (env.encrypter job) m := by
    rw [map_running, encryptPieces]
    congr 1
    funext k s
    unfold encryptEntry
    split <;> rfl
  have wrote := SectionWriter.addAll_eq (running (encryptEntry (env.encrypter job) m) 0 m.sections)
  unfold SectionWriter.addAll at wrote
  refine ⟨job, stored, ⟨?_, pieces, ?_⟩, sized⟩
  · rw [wrote]
  · rw [wrote, pieces]

/-! ## Exactly when -/

/-- A section that the loop passes through. -/
theorem WrittenAs.plain_iff {m : Model} {entry : Nat → Section → Section × List UInt8}
    {pieces : List (List UInt8)} {out : ModelData} (written : WrittenAs m entry pieces out)
    {k : Nat} {s t : Section} (atK : m.sections[k]? = some s) (atK' : out.sections[k]? = some t)
    (passed : entry (u32 (runningSum m.sections k)) s =
      ({ s with encrypt := false, compress := false, decompressedSize := 0 }, bytesAtSum m k s))
    (size : s.size = (bytesAtSum m k s).length) :
    out.sectionBytes t = m.sectionBytes s ↔ PlainOk m pieces k s := by
  have piece := written.piece atK
  rw [passed] at piece
  rw [written.bytes atK atK', passed]
  exact plainOk_iff piece size.symm

section CompressKeeps

variable {env : RewriteEnv} {m : Model} {out : ModelData} {k : Nat} {s t : Section}

theorem compressEntry_plain (plain : isBuffer s = false) :
    compressEntry env.lz4 m (u32 (runningSum m.sections k)) s =
      ({ s with encrypt := false, compress := false, decompressedSize := 0 },
        bytesAtSum m k s) := by
  rw [compressEntry, if_neg (by rw [plain]; simp)]
  rfl

/-- The flag says whether a section is a buffer. -/
theorem compress_eq_isBuffer
    (written : WrittenAs m (compressEntry env.lz4 m) (compressPieces env.lz4 m) out)
    (atK : m.sections[k]? = some s) (atK' : out.sections[k]? = some t) :
    t.compress = isBuffer s := by
  rw [written.header atK atK', compressEntry]
  cases isBuffer s <;> rfl

/-- A buffer. -/
theorem bufferOk_iff
    (written : WrittenAs m (compressEntry env.lz4 m) (compressPieces env.lz4 m) out)
    (atK : m.sections[k]? = some s) (atK' : out.sections[k]? = some t)
    (buffer : isBuffer s = true) {first : Section}
    (found : firstNamed m.sections s.name = some first) (packed : Packed env.lz4 m s) :
    env.lz4.decompress (out.sectionBytes t) t.decompressedSize = some (m.sectionBytes s) ∧
        t.decompressedSize = (m.sectionBytes s).length ↔
      BufferOk env.lz4 m (compressPieces env.lz4 m) k s first := by
  obtain ⟨first', found', compressed⟩ := packed
  rw [found] at found'
  cases found'
  have size : t.decompressedSize = first.size := by
    rw [written.header atK atK', compressEntry, if_pos buffer, found]
    rfl
  have bytes : out.sectionBytes t =
      selected (compressPieces env.lz4 m) k (compressedAs env.lz4 m s).length := by
    rw [written.bytes atK atK', compressEntry, if_pos buffer]
  have piece : (compressPieces env.lz4 m)[k]? = some (compressedAs env.lz4 m s) := by
    rw [written.piece atK, compressEntry, if_pos buffer]
  have lengthFirst := m.length_sectionBytes (firstNamed_mem found)
  have length := m.length_sectionBytes (List.mem_of_getElem? atK)
  have undone := env.lz4.undoes _ _ compressed
  rw [lengthFirst] at undone
  rw [size, bytes, length]
  constructor
  · rintro ⟨unpacks, sizes⟩
    refine ⟨fun below => ?_, fun _ => ⟨sizes, by rwa [← sizes]⟩⟩
    rw [selected_below piece below, undone] at unpacks
    exact Option.some.inj unpacks
  · intro ok
    rcases Nat.lt_or_ge (position (compressPieces env.lz4 m) k) (2 ^ 32) with below | above
    · have same := ok.below below
      refine ⟨?_, by rw [← lengthFirst, same, length]⟩
      rw [selected_below piece below, undone, same]
    · obtain ⟨sizes, unpacks⟩ := ok.above above
      exact ⟨by rwa [sizes], sizes⟩

theorem compressKeeps_iff (done : compressInst env m = some out) :
    CompressKeeps env.lz4 m out ↔ CompressOk env.lz4 m := by
  obtain ⟨written, sized, packed⟩ := compressInst_written done
  have plain : ∀ {k : Nat} {s t : Section}, m.sections[k]? = some s → out.sections[k]? = some t →
      isBuffer s = false →
      (out.sectionBytes t = m.sectionBytes s ↔ PlainOk m (compressPieces env.lz4 m) k s) := by
    intro k s t atK atK' plain
    have size := sized _ (entry_mem_running atK)
    rw [compressEntry_plain plain] at size
    exact written.plain_iff atK atK' (compressEntry_plain plain) size
  have buffer : ∀ {k : Nat} {s t first : Section}, m.sections[k]? = some s →
      out.sections[k]? = some t → isBuffer s = true → firstNamed m.sections s.name = some first →
      (env.lz4.decompress (out.sectionBytes t) t.decompressedSize = some (m.sectionBytes s) ∧
        t.decompressedSize = (m.sectionBytes s).length ↔
      BufferOk env.lz4 m (compressPieces env.lz4 m) k s first) := by
    intro k s t first atK atK' isBuf found
    exact bufferOk_iff written atK atK' isBuf found (packed s (List.mem_of_getElem? atK) isBuf)
  constructor
  · intro keeps
    constructor
    · intro k s atK isPlain
      obtain ⟨t, atK'⟩ := written.exists_section atK
      have flag := compress_eq_isBuffer written atK atK'
      rw [isPlain] at flag
      exact (plain atK atK' isPlain).mp (keeps.plain k s t atK atK' flag)
    · intro k s first atK isBuf found
      obtain ⟨t, atK'⟩ := written.exists_section atK
      have flag := compress_eq_isBuffer written atK atK'
      rw [isBuf] at flag
      exact (buffer atK atK' isBuf found).mp (keeps.compressed k s t atK atK' flag)
  · intro ok
    constructor
    · intro k s t atK atK' flag
      rw [compress_eq_isBuffer written atK atK'] at flag
      exact (plain atK atK' flag).mpr (ok.plain k s atK flag)
    · intro k s t atK atK' flag
      rw [compress_eq_isBuffer written atK atK'] at flag
      obtain ⟨first, found, -⟩ := packed s (List.mem_of_getElem? atK) flag
      exact (buffer atK atK' flag found).mpr (ok.buffer k s first atK flag found)

end CompressKeeps

section EncryptKeeps

variable {env : RewriteEnv} {m : Model} {out : ModelData}

theorem encryptEntry_plain {encFiles : List (String × List UInt8)} {k : Nat} {s : Section}
    (plain : isEncrypted s = false) :
    encryptEntry encFiles m (u32 (runningSum m.sections k)) s =
      ({ s with encrypt := false, compress := false, decompressedSize := 0 },
        bytesAtSum m k s) := by
  rw [encryptEntry, if_neg (by rw [plain]; simp)]
  rfl

theorem encryptKeeps_iff (done : encrypt env m = some out) :
    EncryptKeeps m out ↔ EncryptOk env m := by
  obtain ⟨job, stored, written, sized⟩ := encrypt_written done
  have encryptFlag : ∀ {k : Nat} {s t : Section}, m.sections[k]? = some s →
      out.sections[k]? = some t → t.encrypt = isEncrypted s := by
    intro k s t atK atK'
    rw [written.header atK atK', encryptEntry]
    cases isEncrypted s <;> rfl
  have plain : ∀ {k : Nat} {s t : Section}, m.sections[k]? = some s → out.sections[k]? = some t →
      isEncrypted s = false →
      (out.sectionBytes t = m.sectionBytes s ↔
        PlainOk m (encryptPieces (env.encrypter job) m) k s) := by
    intro k s t atK atK' plain
    have size := sized _ (entry_mem_running atK)
    rw [encryptEntry_plain plain] at size
    exact written.plain_iff atK atK' (encryptEntry_plain plain) (size rfl)
  constructor
  · intro keeps job' stored' k s atK isPlain
    rw [stored] at stored'
    cases stored'
    obtain ⟨t, atK'⟩ := written.exists_section atK
    exact (plain atK atK' isPlain).mp
      (keeps k s t atK atK' (by rw [encryptFlag atK atK', isPlain]))
  · intro ok k s t atK atK' flag
    rw [encryptFlag atK atK'] at flag
    exact (plain atK atK' flag).mpr (ok job stored k s atK flag)

end EncryptKeeps

/-- A rewritten model keeps its sections exactly when those passed through have their bytes
    where the sizes before them add up to, and buffers are the first of their name. -/
theorem rewrite_keeps_iff (env : RewriteEnv) (m : Model) :
    (∀ out, compressInst env m = some out →
      (CompressKeeps env.lz4 m out ↔ CompressOk env.lz4 m)) ∧
    ∀ out, encrypt env m = some out → (EncryptKeeps m out ↔ EncryptOk env m) :=
  ⟨fun _ done => compressKeeps_iff done, fun _ done => encryptKeeps_iff done⟩

/-- LZ4 for 32 zero bytes, and an encrypter that copies. -/
def zerosEnv : RewriteEnv where
  lz4 := {
    compress := fun bytes =>
      if bytes = List.replicate 32 0 then some [0x1F, 0, 1, 0, 7, 0x50, 0, 0, 0, 0, 0] else none
    decompress := fun bytes size =>
      if bytes = [0x1F, 0, 1, 0, 7, 0x50, 0, 0, 0, 0, 0] ∧ size = 32 then
        some (List.replicate 32 0)
      else none
    undoes := by
      intro bytes out done
      split at done
      · rename_i zeros
        cases done
        rw [zeros]
        rfl
      · cases done }
  creates _ := true
  encrypter job := job.stored

/-- A model with a command buffer of 32 zero bytes, some bytes that are in no section, and a
    section of two bytes. -/
def gapModel (gap : List UInt8) : Model where
  programs := [⟨1, 0, [], [], [], [⟨[], [], .tpu ⟨some "main", none⟩⟩], 0, 0⟩]
  weightMap := []
  sections := [⟨.cmdbuf, "main", 0, 32, false, false, 0⟩,
    ⟨.func, "func", 32 + gap.length, 2, false, false, 0⟩]
  binary := List.replicate 32 0 ++ gap ++ [1, 2]
  inside := by
    simp only [List.mem_cons, List.not_mem_nil, or_false, forall_eq_or_imp, forall_eq,
      List.length_append, List.length_cons, List.length_nil, List.length_replicate]
    omega
  sizeLt := by simp

theorem encryptJob_gapModel (gap : List UInt8) :
    encryptJob zerosEnv (gapModel gap) =
      some ⟨[("main", List.replicate 32 0)], ["main"], none⟩ := by
  have block : storeBlocks (gapModel gap) 0 32 = some (List.replicate 32 0) := by
    have inside : 0 + 32 ≤ (gapModel gap).binary.length := by
      simp only [gapModel, List.length_append, List.length_replicate]
      omega
    have read : streamRead (gapModel gap).binary 0 32 = some (List.replicate 32 0) :=
      streamRead_eq_some.mpr ⟨inside, rfl⟩
    unfold storeBlocks
    simp [read]
  have job : encryptJob zerosEnv (gapModel gap) =
      ((storeBlocks (gapModel gap) 0 32).bind fun bytes =>
        some ⟨zerosEnv.store [] "main" bytes, ["main"], none⟩).bind
          (storeWeights zerosEnv (gapModel gap) (gapModel gap).sections) := rfl
  rw [job, block]
  rfl

theorem rewrite_keeps_iff_no_gap :
    ∃ out out', compressInst zerosEnv (gapModel []) = some out ∧
      encrypt zerosEnv (gapModel []) = some out' ∧
      (CompressKeeps zerosEnv.lz4 (gapModel []) out ↔ CompressOk zerosEnv.lz4 (gapModel [])) ∧
      (EncryptKeeps (gapModel []) out' ↔ EncryptOk zerosEnv (gapModel [])) := by
  have packs : (compressInst zerosEnv (gapModel [])).isSome = true := rfl
  have encrypts : (encrypt zerosEnv (gapModel [])).isSome = true := by
    unfold encrypt
    rw [encryptJob_gapModel]
    rfl
  obtain ⟨out, done⟩ := Option.isSome_iff_exists.mp packs
  obtain ⟨out', done'⟩ := Option.isSome_iff_exists.mp encrypts
  have both := rewrite_keeps_iff zerosEnv (gapModel [])
  exact ⟨out, out', done, done', both.1 out done, both.2 out' done'⟩

/-- One byte between two sections: both commands write the second section with that byte in
    front and its own last byte cut off. -/
theorem rewrite_gap_shifts :
    (∀ s ∈ (gapModel [9]).sections, isBuffer s = true →
      ∃ p ∈ (gapModel [9]).programs, ∃ r ∈ p.routines, r.sectionName = some s.name) ∧
    ∃ out out', compressInst zerosEnv (gapModel [9]) = some out ∧
      encrypt zerosEnv (gapModel [9]) = some out' ∧
      ¬ CompressKeeps zerosEnv.lz4 (gapModel [9]) out ∧ ¬ EncryptKeeps (gapModel [9]) out' := by
  have packs : (compressInst zerosEnv (gapModel [9])).isSome = true := rfl
  have encrypts : (encrypt zerosEnv (gapModel [9])).isSome = true := by
    unfold encrypt
    rw [encryptJob_gapModel]
    rfl
  obtain ⟨out, done⟩ := Option.isSome_iff_exists.mp packs
  obtain ⟨out', done'⟩ := Option.isSome_iff_exists.mp encrypts
  have shifted : bytesAtSum (gapModel [9]) 1 ⟨.func, "func", 33, 2, false, false, 0⟩ ≠
      (gapModel [9]).sectionBytes ⟨.func, "func", 33, 2, false, false, 0⟩ := by
    decide
  refine ⟨?_, out, out', done, done', ?_, ?_⟩
  · simp [gapModel, isBuffer, Routine.sectionName, TpuRoutine.sectionName]
  · rw [compressKeeps_iff done]
    intro ok
    exact shifted ((ok.plain 1 _ rfl rfl).below (by decide))
  · rw [encryptKeeps_iff done']
    intro ok
    exact shifted ((ok _ (encryptJob_gapModel [9]) 1 _ rfl rfl).below (by decide))

end CviRuntime.Tool
