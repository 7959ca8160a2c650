import ChronoLog.Archive.Layout

/-!
# Paths of the archive, byte by byte

A name is any string of bytes.  Here the directory names are computed on bytes, and each
byte read as the character of its code turns them into those of `Archive/Layout`, where the
encoding is undone.  A writer tag is any text of two decimal numbers.

## Main definitions

* `ByteString.encodeArchiveName`, `ByteString.storyArchiveDirectory` — on bytes.
* `IsWriterTag` — the tags of two decimal numbers.
* `taggedFileName` — a window file's name with a tag given as text.

## Main results

* `ByteString.storyArchiveDirectory_inj` — two stories never share a directory.
* `archive_paths` — **names of directories and of files are told apart and read back.**
-/

namespace ChronoLog.Archive

namespace ByteString

/-- The text whose characters are the bytes. -/
def text (bytes : List UInt8) : String := String.ofList (bytes.map Char.ofUInt8)

/-- `'%'`, `'/'`, `'.'` and the byte 0. -/
def percent : UInt8 := 0x25

def slash : UInt8 := 0x2F

def dot : UInt8 := 0x2E

def nul : UInt8 := 0

/-- One byte of a name. -/
def encodeByte (c : UInt8) : List UInt8 :=
  if c = percent then [percent, 0x32, 0x35]
  else if c = slash then [percent, 0x32, 0x46]
  else if c = nul then [percent, 0x30, 0x30]
  else [c]

/-- `encodeArchiveName`. -/
def encodeArchiveName (name : List UInt8) : List UInt8 :=
  if name = [] then [percent]
  else if name = [dot] then [percent, 0x32, 0x45]
  else if name = [dot, dot] then [percent, 0x32, 0x45, percent, 0x32, 0x45]
  else name.flatMap encodeByte

/-- `operator/` of paths without a root name: an absolute path replaces the one before it,
and a separator is put where there is none. -/
def pathAppend (path name : List UInt8) : List UInt8 :=
  if name.head? = some slash then name
  else if path.getLast? = none ∨ path.getLast? = some slash then path ++ name
  else path ++ slash :: name

/-- `chronicleArchiveDirectory`. -/
def chronicleArchiveDirectory (archive_root chronicle_name : List UInt8) : List UInt8 :=
  pathAppend archive_root (encodeArchiveName chronicle_name)

/-- `storyArchiveDirectory`. -/
def storyArchiveDirectory (archive_root chronicle_name story_name : List UInt8) : List UInt8 :=
  pathAppend (chronicleArchiveDirectory archive_root chronicle_name)
    (encodeArchiveName story_name)

/-! ### The bytes as characters -/

theorem ofUInt8_injective : Function.Injective Char.ofUInt8 := by
  intro a b h
  have hval := congrArg (fun c : Char => c.val.toNat) h
  simp only [Char.ofUInt8, UInt8.toNat_toUInt32] at hval
  exact UInt8.toNat_inj.mp hval

theorem text_injective : Function.Injective text := by
  intro a b h
  have hlist := congrArg String.toList h
  simp only [text, String.toList_ofList] at hlist
  exact List.map_injective_iff.mpr ofUInt8_injective hlist

theorem map_encodeByte (c : UInt8) :
    (encodeByte c).map Char.ofUInt8 = encodeChar (Char.ofUInt8 c) := by
  have hiff : ∀ b : UInt8, Char.ofUInt8 c = Char.ofUInt8 b ↔ c = b := fun b =>
    ofUInt8_injective.eq_iff
  simp only [encodeByte, encodeChar, show '%' = Char.ofUInt8 percent from rfl,
    show '/' = Char.ofUInt8 slash from rfl, show '\x00' = Char.ofUInt8 nul from rfl, hiff]
  split_ifs <;> rfl

/-- The encoding is that of `Archive/Layout` on the characters of the bytes. -/
theorem text_encodeArchiveName (name : List UInt8) :
    text (encodeArchiveName name) = Archive.encodeArchiveName (text name) := by
  have hiff : ∀ bytes, text name = text bytes ↔ name = bytes := fun bytes =>
    text_injective.eq_iff
  simp only [encodeArchiveName, Archive.encodeArchiveName, show "" = text [] from rfl,
    show "." = text [dot] from rfl, show ".." = text [dot, dot] from rfl, hiff]
  split_ifs
  · rfl
  · rfl
  · rfl
  · rw [text, text, String.toList_ofList, List.map_flatMap, List.flatMap_map]
    exact congrArg String.ofList (List.flatMap_congr fun c _ => map_encodeByte c)

/-- **Two names never share a directory.** -/
theorem encodeArchiveName_inj {a b : List UInt8} (h : encodeArchiveName a = encodeArchiveName b) :
    a = b := by
  refine text_injective (encodeArchiveName_injective ?_)
  rw [← text_encodeArchiveName, h, text_encodeArchiveName]

/-! ### What the name of a directory never is -/

/-- A byte of an encoded name is never a separator or the end of a string. -/
theorem notMem_encodeArchiveName (name : List UInt8) :
    slash ∉ encodeArchiveName name ∧ nul ∉ encodeArchiveName name := by
  have hescape : ∀ x y b : UInt8, x ≠ slash ∧ x ≠ nul → y ≠ slash ∧ y ≠ nul →
      b ∈ [percent, x, y] → b ≠ slash ∧ b ≠ nul := by
    intro x y b hx hy hb
    simp only [List.mem_cons, List.not_mem_nil, or_false] at hb
    rcases hb with rfl | rfl | rfl
    · decide
    · exact hx
    · exact hy
  have hbyte : ∀ c b : UInt8, b ∈ encodeByte c → b ≠ slash ∧ b ≠ nul := by
    intro c b hb
    rw [encodeByte] at hb
    split_ifs at hb with hpercent hslash hnul
    · exact hescape _ _ b (by decide) (by decide) hb
    · exact hescape _ _ b (by decide) (by decide) hb
    · exact hescape _ _ b (by decide) (by decide) hb
    · obtain rfl := List.mem_singleton.mp hb
      exact ⟨hslash, hnul⟩
  rw [encodeArchiveName]
  split_ifs
  · decide
  · decide
  · decide
  · simp only [List.mem_flatMap, not_exists, not_and]
    exact ⟨fun c _ hb => (hbyte c _ hb).1 rfl, fun c _ hb => (hbyte c _ hb).2 rfl⟩

/-- A directory name that decodes to itself would be encoded as another one. -/
theorem encodeArchiveName_ne {bytes : List UInt8}
    (hself : decodeChars (text bytes).toList = (text bytes).toList)
    (hother : encodeArchiveName bytes ≠ bytes) (name : List UInt8) :
    encodeArchiveName name ≠ bytes := by
  intro h
  have hdecode := decodeChars_encodeArchiveName (text name)
  rw [← text_encodeArchiveName, h, hself] at hdecode
  have hname : bytes = name := text_injective (String.toList_inj.mp hdecode)
  exact hother (by rw [hname, h, hname])

/-- `kArchiveManifestDirName`. -/
def kArchiveManifestDirName : List UInt8 :=
  [percent, 0x6D, 0x61, 0x6E, 0x69, 0x66, 0x65, 0x73, 0x74]

example : text kArchiveManifestDirName = "%manifest" := rfl

theorem encodeArchiveName_safe (name : List UInt8) :
    encodeArchiveName name ≠ [] ∧ encodeArchiveName name ≠ [dot] ∧
      encodeArchiveName name ≠ [dot, dot] ∧ encodeArchiveName name ≠ kArchiveManifestDirName := by
  refine ⟨?_, ?_, ?_, ?_⟩
  · exact encodeArchiveName_ne rfl (by decide) name
  · exact encodeArchiveName_ne rfl (by decide) name
  · exact encodeArchiveName_ne rfl (by decide) name
  · exact encodeArchiveName_ne rfl (by decide) name

/-! ### Directories -/

/-- What comes before the first occurrence of a byte is determined, and so is the rest. -/
theorem append_cons_inj {x : UInt8} {a a' b b' : List UInt8} (ha : x ∉ a) (ha' : x ∉ a')
    (h : a ++ x :: b = a' ++ x :: b') : a = a' ∧ b = b' := by
  induction a generalizing a' with
  | nil =>
    cases a' with
    | nil => exact ⟨rfl, (List.cons.inj h).2⟩
    | cons y a' => exact absurd (List.mem_cons.mpr (Or.inl (List.cons.inj h).1)) ha'
  | cons y a ih =>
    cases a' with
    | nil => exact absurd (List.mem_cons.mpr (Or.inl (List.cons.inj h).1.symm)) ha
    | cons y' a' =>
      obtain ⟨rfl, hrest⟩ := List.cons.inj h
      obtain ⟨rfl, rfl⟩ := ih (fun hx => ha (List.mem_cons_of_mem _ hx))
        (fun hx => ha' (List.mem_cons_of_mem _ hx)) hrest
      exact ⟨rfl, rfl⟩

/-- An encoded name is put after the path, which alone decides on the separator. -/
theorem pathAppend_encodeArchiveName (path : List UInt8) :
    ∃ start, ∀ name,
      pathAppend path (encodeArchiveName name) = start ++ encodeArchiveName name := by
  have hrelative : ∀ name, (encodeArchiveName name).head? ≠ some slash := fun name h =>
    (notMem_encodeArchiveName name).1 (List.mem_of_mem_head? h)
  by_cases hpath : path.getLast? = none ∨ path.getLast? = some slash
  · exact ⟨path, fun name => by rw [pathAppend, if_neg (hrelative name), if_pos hpath]⟩
  · refine ⟨path ++ [slash], fun name => ?_⟩
    rw [pathAppend, if_neg (hrelative name), if_neg hpath, List.append_assoc]
    rfl

/-- A directory below that of an encoded name comes after a separator. -/
theorem pathAppend_below (start name below : List UInt8) :
    pathAppend (start ++ encodeArchiveName name) (encodeArchiveName below) =
      start ++ encodeArchiveName name ++ slash :: encodeArchiveName below := by
  have hrelative : (encodeArchiveName below).head? ≠ some slash := fun h =>
    (notMem_encodeArchiveName below).1 (List.mem_of_mem_head? h)
  have hne : encodeArchiveName name ≠ [] := (encodeArchiveName_safe name).1
  have hlast : (start ++ encodeArchiveName name).getLast? = (encodeArchiveName name).getLast? :=
    List.getLast?_append_of_ne_nil start hne
  rw [pathAppend, if_neg hrelative, if_neg]
  rw [hlast]
  rintro (h | h)
  · exact hne (List.getLast?_eq_none_iff.mp h)
  · exact (notMem_encodeArchiveName name).1 (List.mem_of_mem_getLast? h)

/-- **Two stories never share a directory.** -/
theorem storyArchiveDirectory_inj {archive_root chronicle story chronicle' story' : List UInt8}
    (h : storyArchiveDirectory archive_root chronicle story =
      storyArchiveDirectory archive_root chronicle' story') :
    chronicle = chronicle' ∧ story = story' := by
  obtain ⟨start, hstart⟩ := pathAppend_encodeArchiveName archive_root
  simp only [storyArchiveDirectory, chronicleArchiveDirectory, hstart, pathAppend_below,
    List.append_assoc, List.append_cancel_left_eq] at h
  obtain ⟨hchronicle, hstory⟩ := append_cons_inj (notMem_encodeArchiveName chronicle).1
    (notMem_encodeArchiveName chronicle').1 h
  exact ⟨encodeArchiveName_inj hchronicle, encodeArchiveName_inj hstory⟩

end ByteString

/-! ### Names of window files with any tag -/

/-- `windowFileName`. -/
def taggedFileName (start_time : ℕ) (writer_tag : String) (incarnation sequence : ℕ) : String :=
  String.ofList (Nat.toDigits 10 (start_time / 1000000000) ++ '.' :: (writer_tag.toList ++
    '.' :: (Nat.toDigits 10 incarnation ++ '.' :: (Nat.toDigits 10 sequence ++
      ".vlen.h5".toList))))

/-- The tag is two decimal numbers, the second one after a dot. -/
def IsWriterTag (writer_tag : String) (recording_group writer_start : ℕ) : Prop :=
  ∃ group start, writer_tag = joinParts [group, start] ∧ isNumber group = true ∧
    isNumber start = true ∧ stoull group = some recording_group ∧ stoull start = some writer_start

theorem dot_notMem_of_isNumber {part : List Char} (h : isNumber part = true) : '.' ∉ part := by
  intro hmem
  rw [isNumber, Bool.and_eq_true, List.all_eq_true] at h
  exact absurd (h.2 '.' hmem) (by decide)

theorem toDigits_inj {m n : ℕ} (h : Nat.toDigits 10 m = Nat.toDigits 10 n) : m = n := by
  rw [← Nat.ofDigitChars_ten_toDigits (n := m), h, Nat.ofDigitChars_ten_toDigits]

theorem taggedFileName_joinParts (start_time incarnation sequence : ℕ) (group start : List Char) :
    taggedFileName start_time (joinParts [group, start]) incarnation sequence =
      joinParts [Nat.toDigits 10 (start_time / 1000000000), group, start,
        Nat.toDigits 10 incarnation, Nat.toDigits 10 sequence, "vlen".toList, "h5".toList] := by
  simp [taggedFileName, joinParts, List.intercalate]

/-- The parts of a window file's name. -/
theorem nameParts_taggedFileName {start_time incarnation sequence : ℕ} {group start : List Char}
    (hgroup : isNumber group = true) (hstart : isNumber start = true) :
    nameParts (taggedFileName start_time (joinParts [group, start]) incarnation sequence) =
      [Nat.toDigits 10 (start_time / 1000000000), group, start, Nat.toDigits 10 incarnation,
        Nat.toDigits 10 sequence, "vlen".toList, "h5".toList] := by
  rw [taggedFileName_joinParts]
  refine nameParts_joinParts ?_ (List.cons_ne_nil _ _)
  simp only [List.forall_mem_cons, List.not_mem_nil, false_implies, implies_true, and_true]
  exact ⟨dot_notMem_toDigits _, dot_notMem_of_isNumber hgroup, dot_notMem_of_isNumber hstart,
    dot_notMem_toDigits _, dot_notMem_toDigits _, by decide, by decide⟩

theorem parseWindowFileName_taggedFileName {start_time incarnation sequence : ℕ}
    {writer_tag : String} {recording_group writer_start : ℕ}
    (htag : IsWriterTag writer_tag recording_group writer_start) (hstart : start_time < 2 ^ 64)
    (hincarnation : incarnation < 2 ^ 64) (hsequence : sequence < 2 ^ 64) :
    parseWindowFileName (taggedFileName start_time writer_tag incarnation sequence) =
      some { start_second := start_time / 1000000000, recording_group := recording_group,
             writer_start := writer_start, incarnation := incarnation, sequence := sequence } := by
  obtain ⟨group, start, rfl, hgroupNumber, hstartNumber, hgroup, hwriter⟩ := htag
  have hsecond : start_time / 1000000000 < 2 ^ 64 := by omega
  have hvlen : isVlenSuffix ["vlen".toList, "h5".toList] = true := by decide
  rw [parseWindowFileName, nameParts_taggedFileName hgroupNumber hstartNumber]
  simp only [hvlen, List.all_cons, List.all_nil, isNumber_toDigits, hgroupNumber, hstartNumber,
    Bool.and_self, if_true, stoull_toDigits hsecond, hgroup, hwriter,
    stoull_toDigits hincarnation, stoull_toDigits hsequence]
  rfl

/-- Every name that the parser accepts is one of the archive's own. -/
theorem isWindowFileName_of_parse {file_name : String} {parsed : WindowFileName}
    (h : parseWindowFileName file_name = some parsed) : isWindowFileName file_name = true := by
  rw [parseWindowFileName] at h
  split at h
  · next second group start incarnation sequence suffix hparts =>
    split at h
    · next haccepted =>
      simp only [List.all_cons, List.all_nil, Bool.and_true, Bool.and_eq_true] at haccepted
      obtain ⟨⟨hsecond, hgroup, hstart, hincarnation, hsequence⟩, hsuffix⟩ := haccepted
      -- the suffix starts with a word, so the numbers end before it
      have hdrop : suffix.dropWhile isNumber = suffix := by
        cases suffix with
        | nil => rfl
        | cons word rest =>
          simp only [isVlenSuffix, Bool.and_eq_true, decide_eq_true_eq] at hsuffix
          have hword : isNumber word = false := by
            rw [hsuffix.1]
            decide
          rw [List.dropWhile_cons, hword]
          rfl
      simp only [isWindowFileName, hparts, List.head?_cons, Option.any_some, hsecond,
        List.dropWhile_cons, hgroup, hstart, hincarnation, hsequence, if_true, hdrop, hsuffix,
        Bool.and_self]
    · cases h
  · cases h

/-- The name of a window file tells its tag, its incarnation and its sequence. -/
theorem taggedFileName_inj {start_time start_time' incarnation incarnation' sequence sequence' : ℕ}
    {writer_tag writer_tag' : String} {recording_group writer_start : ℕ}
    {recording_group' writer_start' : ℕ}
    (htag : IsWriterTag writer_tag recording_group writer_start)
    (htag' : IsWriterTag writer_tag' recording_group' writer_start')
    (h : taggedFileName start_time writer_tag incarnation sequence =
      taggedFileName start_time' writer_tag' incarnation' sequence') :
    writer_tag = writer_tag' ∧ incarnation = incarnation' ∧ sequence = sequence' := by
  obtain ⟨group, start, rfl, hgroup, hstart, -⟩ := htag
  obtain ⟨group', start', rfl, hgroup', hstart', -⟩ := htag'
  have hparts := congrArg nameParts h
  rw [nameParts_taggedFileName hgroup hstart, nameParts_taggedFileName hgroup' hstart'] at hparts
  simp only [List.cons.injEq, and_true] at hparts
  obtain ⟨-, rfl, rfl, hincarnation, hsequence⟩ := hparts
  exact ⟨rfl, toDigits_inj hincarnation, toDigits_inj hsequence⟩

/-- **Paths of the archive are told apart, safe and read back.**  On byte strings, the
directories of two stories are different; the name of a directory is never empty, `.`, `..` or
that of the manifest and holds no separator and no zero byte; the name of a window file reads
back, is one of the archive's own, as every name that parses is, and tells its tag, incarnation
and sequence. -/
theorem archive_paths (archive_root : List UInt8) :
    (∀ a b, ByteString.encodeArchiveName a = ByteString.encodeArchiveName b → a = b) ∧
      (∀ name, ByteString.encodeArchiveName name ≠ [] ∧
        ByteString.encodeArchiveName name ≠ [ByteString.dot] ∧
        ByteString.encodeArchiveName name ≠ [ByteString.dot, ByteString.dot] ∧
        ByteString.encodeArchiveName name ≠ ByteString.kArchiveManifestDirName ∧
        ByteString.slash ∉ ByteString.encodeArchiveName name ∧
        ByteString.nul ∉ ByteString.encodeArchiveName name) ∧
      (∀ chronicle story chronicle' story',
        ByteString.storyArchiveDirectory archive_root chronicle story =
          ByteString.storyArchiveDirectory archive_root chronicle' story' →
        chronicle = chronicle' ∧ story = story') ∧
      (∀ start_time writer_tag recording_group writer_start incarnation sequence,
        IsWriterTag writer_tag recording_group writer_start → start_time < 2 ^ 64 →
        incarnation < 2 ^ 64 → sequence < 2 ^ 64 →
        parseWindowFileName (taggedFileName start_time writer_tag incarnation sequence) =
          some ⟨start_time / 1000000000, recording_group, writer_start, incarnation, sequence⟩ ∧
        isWindowFileName (taggedFileName start_time writer_tag incarnation sequence) = true) ∧
      (∀ file_name parsed, parseWindowFileName file_name = some parsed →
        isWindowFileName file_name = true) ∧
      ∀ start_time start_time' writer_tag writer_tag' recording_group writer_start
        recording_group' writer_start' incarnation incarnation' sequence sequence',
        IsWriterTag writer_tag recording_group writer_start →
        IsWriterTag writer_tag' recording_group' writer_start' →
        taggedFileName start_time writer_tag incarnation sequence =
          taggedFileName start_time' writer_tag' incarnation' sequence' →
        writer_tag = writer_tag' ∧ incarnation = incarnation' ∧ sequence = sequence' := by
  refine ⟨fun a b h => ByteString.encodeArchiveName_inj h, fun name => ?_,
    fun _ _ _ _ h => ByteString.storyArchiveDirectory_inj h, ?_,
    fun _ _ h => isWindowFileName_of_parse h, ?_⟩
  · obtain ⟨hempty, hdot, hdots, hmanifest⟩ := ByteString.encodeArchiveName_safe name
    exact ⟨hempty, hdot, hdots, hmanifest, ByteString.notMem_encodeArchiveName name⟩
  · intro start_time writer_tag recording_group writer_start incarnation sequence htag hstart
      hincarnation hsequence
    have hparse := parseWindowFileName_taggedFileName htag hstart hincarnation hsequence
    exact ⟨hparse, isWindowFileName_of_parse hparse⟩
  · intro _ _ _ _ _ _ _ _ _ _ _ _ htag htag' h
    exact taggedFileName_inj htag htag' h

end ChronoLog.Archive
