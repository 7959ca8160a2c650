import ChronoLog.Basic

/-!
# The layout of the archive

A story's files are in a directory of their own, named after the chronicle and the
story, and the name of a file says which grapher process wrote it and for which of
its pipelines.  A destroy decides by these names which files it deletes, and a player
decides by the same names which ones it forgets, so the names must read back as they
were written.

The two patterns of the source are read on the parts of a name between its dots: none
of the numbers and words in them holds a dot.

## Main definitions

* `encodeArchiveName` — the directory of a chronicle or a story.
* `windowFileName`, `numberedFileName` — the names a window can get.
* `parseWindowFileName`, `isWindowFileName` — the names read back.

## Main results

* `encodeArchiveName_injective` — two names never share a directory.
* `parseWindowFileName_numberedFileName` — every name a window can get reads back as it
  was written.
-/

namespace ChronoLog.Archive

abbrev ChronicleName := String

abbrev StoryName := String

/-- One character of a name, as it stands in a directory name. -/
def encodeChar (c : Char) : List Char :=
  if c = '%' then ['%', '2', '5']
  else if c = '/' then ['%', '2', 'F']
  else if c = '\x00' then ['%', '0', '0']
  else [c]

/-- `encodeArchiveName`. -/
def encodeArchiveName (name : String) : String :=
  if name = "" then "%"
  else if name = "." then "%2E"
  else if name = ".." then "%2E%2E"
  else String.ofList (name.toList.flatMap encodeChar)

/-- The encoding undone. -/
def decodeChars : List Char → List Char
  | [] => []
  | '%' :: '2' :: '5' :: rest => '%' :: decodeChars rest
  | '%' :: '2' :: 'F' :: rest => '/' :: decodeChars rest
  | '%' :: '0' :: '0' :: rest => '\x00' :: decodeChars rest
  | '%' :: '2' :: 'E' :: rest => '.' :: decodeChars rest
  | ['%'] => []
  | c :: rest => c :: decodeChars rest

theorem decodeChars_encodeChar_append (c : Char) (rest : List Char) :
    decodeChars (encodeChar c ++ rest) = c :: decodeChars rest := by
  unfold encodeChar
  split
  · next h => rw [h]; rfl
  split
  · next h => rw [h]; rfl
  split
  · next h => rw [h]; rfl
  · next h _ _ =>
    rw [List.singleton_append, decodeChars.eq_7] <;> simp_all

theorem decodeChars_flatMap (cs : List Char) : decodeChars (cs.flatMap encodeChar) = cs := by
  induction cs with
  | nil => rfl
  | cons c cs ih => rw [List.flatMap_cons, decodeChars_encodeChar_append, ih]

theorem decodeChars_encodeArchiveName (name : String) :
    decodeChars (encodeArchiveName name).toList = name.toList := by
  unfold encodeArchiveName
  split
  · next h => rw [h]; rfl
  split
  · next h => rw [h]; rfl
  split
  · next h => rw [h]; rfl
  · rw [String.toList_ofList, decodeChars_flatMap]

/-- **Two names never share a directory.** -/
theorem encodeArchiveName_injective {a b : String} (h : encodeArchiveName a = encodeArchiveName b) :
    a = b := by
  have ha := decodeChars_encodeArchiveName a
  rw [h, decodeChars_encodeArchiveName b] at ha
  exact (String.toList_inj.mp ha).symm

/-! ### Names of window files -/

/-- A window file name from its parts. -/
def joinParts (parts : List (List Char)) : String := String.ofList (['.'].intercalate parts)

/-- The parts of a name between its dots. -/
def nameParts (name : String) : List (List Char) := name.toList.splitOn '.'

theorem nameParts_joinParts {parts : List (List Char)} (h : ∀ p ∈ parts, '.' ∉ p)
    (hne : parts ≠ []) : nameParts (joinParts parts) = parts := by
  rw [nameParts, joinParts, String.toList_ofList]
  exact List.splitOn_intercalate '.' h hne

/-- `windowFileName`, with the writer tag "<recording group>.<start time>" given by its
two numbers. -/
def windowFileName (start_time recording_group writer_start incarnation sequence : ℕ) : String :=
  joinParts [Nat.toDigits 10 (start_time / 1000000000), Nat.toDigits 10 recording_group,
    Nat.toDigits 10 writer_start, Nat.toDigits 10 incarnation, Nat.toDigits 10 sequence,
    "vlen".toList, "h5".toList]

/-- The `n`-th name tried for a file: its own name first, then `<stem>.<n>.<extension>`. -/
def numberedFileName (base_file_name : String) (n : ℕ) : String :=
  if n = 0 then base_file_name
  else
    let parts := nameParts base_file_name
    joinParts (parts.dropLast ++ [Nat.toDigits 10 n] ++ parts.getLast?.toList)

/-- How many names `publishFile` and `publishByRename` try for a window. -/
def kMaxFilesPerWindow : ℕ := 100000

/-- The fields of a window file's name. -/
structure WindowFileName where
  start_second : ℕ
  recording_group : ℕ
  writer_start : ℕ
  incarnation : ℕ
  sequence : ℕ
  deriving DecidableEq, Repr

/-- `[0-9]+`. -/
def isNumber (part : List Char) : Bool := !part.isEmpty && part.all Char.isDigit

/-- `(\.partial\..+)?$`; the dot of a pattern is no end of line. -/
def isPartialSuffix : List (List Char) → Bool
  | [] => true
  | word :: rest =>
    word = "partial".toList && rest != [] && rest != [[]] &&
      rest.all fun part => part.all fun c => c != '\n' && c != '\r'

/-- `\.h5(\.partial\..+)?$`. -/
def isH5Suffix : List (List Char) → Bool
  | [] => false
  | word :: rest => word = "h5".toList && isPartialSuffix rest

/-- `\.vlen(\.[0-9]+)?\.h5(\.partial\..+)?$`. -/
def isVlenSuffix : List (List Char) → Bool
  | [] => false
  | word :: rest =>
    word = "vlen".toList &&
      (isH5Suffix rest || (rest.head?.any isNumber && isH5Suffix rest.tail))

/-- `std::stoull` on digits; it throws on a number that does not fit. -/
def stoull (digits : List Char) : Option ℕ :=
  let n := Nat.ofDigitChars 10 digits 0
  if n < 2 ^ 64 then some n else none

/-- `parseWindowFileName`; `none` where the source returns `false`. -/
def parseWindowFileName (file_name : String) : Option WindowFileName :=
  match nameParts file_name with
  | second :: group :: start :: incarnation :: sequence :: suffix =>
    if [second, group, start, incarnation, sequence].all isNumber && isVlenSuffix suffix then do
      return { start_second := ← stoull second, recording_group := ← stoull group,
               writer_start := ← stoull start, incarnation := ← stoull incarnation,
               sequence := ← stoull sequence }
    else none
  | _ => none

/-- `isWindowFileName`. -/
def isWindowFileName (file_name : String) : Bool :=
  let parts := nameParts file_name
  parts.head?.any isNumber && isVlenSuffix (parts.dropWhile isNumber)

theorem isNumber_toDigits (n : ℕ) : isNumber (Nat.toDigits 10 n) = true := by
  have hne : (Nat.toDigits 10 n).isEmpty = false :=
    List.isEmpty_eq_false_iff.mpr Nat.toDigits_ne_nil
  rw [isNumber, hne, Bool.not_false, Bool.true_and, List.all_eq_true]
  intro c hc
  exact Nat.isDigit_of_mem_toDigits (by omega) (by omega) hc

theorem dot_notMem_toDigits (n : ℕ) : '.' ∉ Nat.toDigits 10 n := by
  intro hmem
  have hdigit := Nat.isDigit_of_mem_toDigits (by omega) (by omega) hmem
  revert hdigit
  decide

theorem stoull_toDigits {n : ℕ} (h : n < 2 ^ 64) : stoull (Nat.toDigits 10 n) = some n := by
  rw [stoull, Nat.ofDigitChars_ten_toDigits]
  exact if_pos h

/-- The parts of a name a window can get. -/
def windowParts (start_time recording_group writer_start incarnation sequence n : ℕ) :
    List (List Char) :=
  [Nat.toDigits 10 (start_time / 1000000000), Nat.toDigits 10 recording_group,
    Nat.toDigits 10 writer_start, Nat.toDigits 10 incarnation, Nat.toDigits 10 sequence] ++
    "vlen".toList :: ((if n = 0 then [] else [Nat.toDigits 10 n]) ++ ["h5".toList])

section

variable (start_time recording_group writer_start incarnation sequence n : ℕ)

theorem dot_notMem_windowParts :
    ∀ p ∈ windowParts start_time recording_group writer_start incarnation sequence n, '.' ∉ p := by
  intro p hp
  simp only [windowParts, List.mem_append, List.mem_cons, List.not_mem_nil, or_false] at hp
  rcases hp with (hp | hp | hp | hp | hp) | hp | hp | hp
  · exact hp ▸ dot_notMem_toDigits _
  · exact hp ▸ dot_notMem_toDigits _
  · exact hp ▸ dot_notMem_toDigits _
  · exact hp ▸ dot_notMem_toDigits _
  · exact hp ▸ dot_notMem_toDigits _
  · rw [hp]; decide
  · split at hp
    · cases hp
    · exact List.mem_singleton.mp hp ▸ dot_notMem_toDigits _
  · rw [hp]; decide

theorem nameParts_windowFileName :
    nameParts (windowFileName start_time recording_group writer_start incarnation sequence) =
      windowParts start_time recording_group writer_start incarnation sequence 0 :=
  nameParts_joinParts
    (dot_notMem_windowParts start_time recording_group writer_start incarnation sequence 0)
    (List.cons_ne_nil _ _)

theorem nameParts_numberedFileName :
    nameParts (numberedFileName
      (windowFileName start_time recording_group writer_start incarnation sequence) n) =
      windowParts start_time recording_group writer_start incarnation sequence n := by
  unfold numberedFileName
  split
  · next h =>
    rw [h]
    exact nameParts_windowFileName _ _ _ _ _
  · next h =>
    have hparts : (windowParts start_time recording_group writer_start incarnation sequence
        0).dropLast ++ [Nat.toDigits 10 n] ++ (windowParts start_time recording_group writer_start
          incarnation sequence 0).getLast?.toList =
        windowParts start_time recording_group writer_start incarnation sequence n := by
      simp [windowParts, h]
    simp only [nameParts_windowFileName, hparts]
    exact nameParts_joinParts (dot_notMem_windowParts _ _ _ _ _ _) (List.cons_ne_nil _ _)

theorem isVlenSuffix_windowParts :
    isVlenSuffix ("vlen".toList :: ((if n = 0 then [] else [Nat.toDigits 10 n]) ++
      ["h5".toList])) = true := by
  split
  · decide
  · simp only [isVlenSuffix, decide_true, Bool.true_and, Bool.or_eq_true]
    right
    simp [isNumber_toDigits, isH5Suffix, isPartialSuffix]

/-- **Every name a window can get reads back as it was written.** -/
theorem parseWindowFileName_numberedFileName (hstart : start_time < 2 ^ 64)
    (hgroup : recording_group < 2 ^ 64) (hwriter : writer_start < 2 ^ 64)
    (hincarnation : incarnation < 2 ^ 64) (hsequence : sequence < 2 ^ 64) :
    parseWindowFileName (numberedFileName
      (windowFileName start_time recording_group writer_start incarnation sequence) n) =
      some { start_second := start_time / 1000000000, recording_group := recording_group,
             writer_start := writer_start, incarnation := incarnation, sequence := sequence } := by
  have hsecond : start_time / 1000000000 < 2 ^ 64 := by omega
  rw [parseWindowFileName, nameParts_numberedFileName, windowParts]
  simp only [List.cons_append, List.nil_append, isVlenSuffix_windowParts, List.all_cons,
    List.all_nil, isNumber_toDigits, Bool.and_self, if_true, stoull_toDigits hsecond,
    stoull_toDigits hgroup, stoull_toDigits hwriter, stoull_toDigits hincarnation,
    stoull_toDigits hsequence]
  rfl

/-- Every name a window can get is one of the archive's own. -/
theorem isWindowFileName_numberedFileName :
    isWindowFileName (numberedFileName
      (windowFileName start_time recording_group writer_start incarnation sequence) n) = true := by
  have hvlen : isNumber "vlen".toList = false := by decide
  simp only [isWindowFileName, nameParts_numberedFileName, windowParts, List.cons_append,
    List.nil_append, List.head?_cons, Option.any_some, List.dropWhile_cons, isNumber_toDigits,
    if_true, hvlen, Bool.true_and]
  simpa using isVlenSuffix_windowParts n

end

end ChronoLog.Archive
