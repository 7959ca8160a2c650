import ChronoLog.Archive.ManifestLines
import ChronoLog.Lib.JsonText

/-!
# Compact texts of flat objects

A printer and a reader of objects whose values are strings, numbers and booleans, on which the
lines of a manifest log can be tried out.  A slash is not escaped, as json-c is asked for.

## Main definitions

* `compactObjects` — the printer and the reader.

## Main results

* `compactObjects_faithful` — **what is relied on of json-c holds of them.**
* `manifest_line_format` — **the line of a record reads back as the record, and no part of it or
  anything longer is read.**
-/

namespace ChronoLog.Archive.ManifestLog

open JsonText (readBody readBody_plain readBody_quote readBody_escape escape)

/-! ### Texts -/

/-- A byte of a string as it is printed. -/
def escapeByte (c : UInt8) : Text := if c = char '/' then [c] else escape c

def printString (s : Text) : Text := char '"' :: (s.flatMap escapeByte ++ [char '"'])

def printDigits (n : ℕ) : Text := (Nat.toDigits 10 n).map char

def printValue : Value → Text
  | .null => ascii "null"
  | .string s => printString s
  | .int n => if n < 0 then char '-' :: printDigits n.natAbs else printDigits n.natAbs
  | .boolean b => if b then ascii "true" else ascii "false"
  | .other text => text

def printMember (m : Text × Value) : Text := printString m.1 ++ char ':' :: printValue m.2

def printMembers : Members → Text
  | [] => []
  | [m] => printMember m
  | m :: ms => printMember m ++ char ',' :: printMembers ms

def printObject (o : Members) : Text := char '{' :: (printMembers o ++ [char '}'])

/-! ### The reader -/

def isDigitByte (c : UInt8) : Bool := char '0' ≤ c && c ≤ char '9'

/-- The digits at the start of a text, as a number, and what follows them. -/
def readDigits (text : Text) : ℕ × Text :=
  (Nat.ofDigitChars 10 ((text.takeWhile isDigitByte).map fun c => Char.ofNat c.toNat) 0,
    text.dropWhile isDigitByte)

def readValue : Text → Option (Value × Text)
  | [] => none
  | c :: rest =>
    if c = char '"' then (readBody rest).map fun r => (.string r.1, r.2)
    else if c = char '-' then some (.int (-(readDigits rest).1), (readDigits rest).2)
    else if isDigitByte c then some (.int (readDigits (c :: rest)).1, (readDigits (c :: rest)).2)
    else if (ascii "true").isPrefixOf (c :: rest) then
      some (.boolean true, (c :: rest).drop 4)
    else if (ascii "false").isPrefixOf (c :: rest) then
      some (.boolean false, (c :: rest).drop 5)
    else none

def readMember : Text → Option ((Text × Value) × Text)
  | [] => none
  | c :: rest =>
    if c = char '"' then
      (readBody rest).bind fun key =>
        match key.2 with
        | [] => none
        | c :: rest =>
          if c = char ':' then (readValue rest).map fun value => ((key.1, value.1), value.2)
          else none
    else none

/-- The members up to the closing brace. -/
def readMembers : ℕ → Text → Option Members
  | 0, _ => none
  | fuel + 1, text =>
    (readMember text).bind fun m =>
      match m.2 with
      | [] => none
      | c :: rest =>
        if c = char ',' then (readMembers fuel rest).map (m.1 :: ·)
        else if c = char '}' then some [m.1]
        else none

def readObject : Text → Option Members
  | [] => none
  | c :: rest =>
    if c = char '{' then
      if rest.head? = some (char '}') then some [] else readMembers rest.length rest
    else none

def compactObjects : ManifestJson where
  print := printObject
  parse := readObject

/-! ### Strings and numbers -/

theorem readBody_escapeByte (c : UInt8) (s : Text) :
    readBody (escapeByte c ++ s) = (readBody s).map fun r => (c :: r.1, r.2) := by
  unfold escapeByte
  split
  · next hc =>
    rw [hc]
    exact readBody_plain (by decide) (by decide) s
  · exact readBody_escape c s

theorem readBody_printed (s rest : Text) :
    readBody (s.flatMap escapeByte ++ char '"' :: rest) = some (s, rest) := by
  induction s with
  | nil => exact readBody_quote rest
  | cons c s ih =>
    rw [List.flatMap_cons, List.append_assoc, readBody_escapeByte, ih]
    rfl

theorem char_digit {c : Char} (h : c.isDigit = true) :
    isDigitByte (char c) = true ∧ Char.ofNat (char c).toNat = c := by
  have hall : ∀ n < 58, 48 ≤ n → isDigitByte (char (Char.ofNat n)) = true ∧
      Char.ofNat (char (Char.ofNat n)).toNat = Char.ofNat n := by decide
  obtain ⟨hlow, hhigh⟩ := Char.isDigit_iff_toNat.mp h
  have hc := hall c.toNat (Nat.lt_succ_of_le hhigh) hlow
  rwa [Char.ofNat_toNat] at hc

theorem isDigitByte_of_mem_printDigits {n : ℕ} {c : UInt8} (h : c ∈ printDigits n) :
    isDigitByte c = true := by
  obtain ⟨d, hd, rfl⟩ := List.mem_map.mp h
  exact (char_digit (Nat.isDigit_of_mem_toDigits (by omega) (by omega) hd)).1

theorem readDigits_printDigits (n : ℕ) {c : UInt8} (hc : isDigitByte c = false) (rest : Text) :
    readDigits (printDigits n ++ c :: rest) = (n, c :: rest) := by
  have hdigits : ∀ d ∈ printDigits n, isDigitByte d = true :=
    fun d hd => isDigitByte_of_mem_printDigits hd
  have htake : (printDigits n ++ c :: rest).takeWhile isDigitByte = printDigits n := by
    rw [List.takeWhile_append_of_pos hdigits, List.takeWhile_cons_of_neg (by simp [hc]),
      List.append_nil]
  have hdrop : (printDigits n ++ c :: rest).dropWhile isDigitByte = c :: rest := by
    rw [List.dropWhile_append_of_pos hdigits, List.dropWhile_cons_of_neg (by simp [hc])]
  have hback : (printDigits n).map (fun c => Char.ofNat c.toNat) = Nat.toDigits 10 n := by
    rw [printDigits, List.map_map]
    refine (List.map_congr_left fun d hd => ?_).trans (List.map_id' _)
    exact (char_digit (Nat.isDigit_of_mem_toDigits (by omega) (by omega) hd)).2
  rw [readDigits, htake, hdrop, hback, Nat.ofDigitChars_ten_toDigits]

/-- What comes after a value. -/
def Stops (c : UInt8) : Prop := c = char ',' ∨ c = char '}'

theorem readValue_printValue {value : Value} (h : value.Stored) {c : UInt8} (hc : Stops c)
    (rest : Text) : readValue (printValue value ++ c :: rest) = some (value, c :: rest) := by
  have hstop : isDigitByte c = false := by
    rcases hc with rfl | rfl <;> decide
  cases value with
  | null => cases h
  | other text => cases h
  | string s =>
    rw [printValue, printString, List.cons_append, List.append_assoc, readValue, if_pos rfl,
      List.singleton_append, readBody_printed]
    rfl
  | boolean b =>
    cases b
    · rfl
    · rfl
  | int n =>
    have hne : printDigits n.natAbs ≠ [] := by
      intro hnil
      exact Nat.toDigits_ne_nil (List.map_eq_nil_iff.mp hnil)
    rw [printValue]
    split
    · next hneg =>
      rw [List.cons_append, readValue, if_neg (by decide), if_pos rfl,
        readDigits_printDigits _ hstop]
      have hn : -(n.natAbs : ℤ) = n := by omega
      simp only [hn]
    · next hpos =>
      obtain ⟨d, ds, hds⟩ := List.exists_cons_of_ne_nil hne
      have hd : isDigitByte d = true :=
        isDigitByte_of_mem_printDigits (hds ▸ List.mem_cons_self : d ∈ printDigits n.natAbs)
      have hquote : d ≠ char '"' := by
        rintro rfl
        exact absurd hd (by decide)
      have hminus : d ≠ char '-' := by
        rintro rfl
        exact absurd hd (by decide)
      have hread := readDigits_printDigits n.natAbs hstop rest
      rw [hds, List.cons_append] at hread
      rw [hds, List.cons_append, readValue, if_neg hquote, if_neg hminus, if_pos hd, hread]
      have hn : (n.natAbs : ℤ) = n := by omega
      simp only [hn]

theorem readMember_printMember {m : Text × Value} (h : m.2.Stored) {c : UInt8} (hc : Stops c)
    (rest : Text) : readMember (printMember m ++ c :: rest) = some (m, c :: rest) := by
  have htext : printMember m ++ c :: rest = char '"' ::
      (m.1.flatMap escapeByte ++ char '"' :: char ':' :: (printValue m.2 ++ c :: rest)) := by
    simp [printMember, printString]
  rw [htext, readMember, if_pos rfl, readBody_printed, Option.bind_some]
  dsimp only
  rw [if_pos rfl, readValue_printValue h hc]
  rfl

theorem readMembers_printMembers {ms : Members} (hne : ms ≠ []) (h : ∀ m ∈ ms, m.2.Stored)
    {fuel : ℕ} (hfuel : ms.length ≤ fuel) (rest : Text) :
    readMembers fuel (printMembers ms ++ char '}' :: rest) = some ms := by
  induction ms generalizing fuel with
  | nil => exact absurd rfl hne
  | cons m ms ih =>
    obtain ⟨fuel, rfl⟩ := Nat.exists_eq_add_one_of_ne_zero
      (Nat.ne_of_gt (Nat.lt_of_lt_of_le (Nat.succ_pos _) hfuel))
    rw [List.length_cons, Nat.add_le_add_iff_right] at hfuel
    have hm := h m List.mem_cons_self
    cases ms with
    | nil =>
      rw [printMembers, readMembers, readMember_printMember hm (.inr rfl), Option.bind_some]
      dsimp only
      rw [if_neg (by decide), if_pos rfl]
    | cons m' ms =>
      rw [printMembers, List.append_assoc, List.cons_append, readMembers,
        readMember_printMember hm (.inl rfl), Option.bind_some]
      dsimp only
      rw [if_pos rfl, ih (List.cons_ne_nil _ _) (fun x hx => h x (List.mem_cons_of_mem _ hx)) hfuel]
      rfl
      nofun

theorem length_le_printMembers (ms : Members) : ms.length ≤ (printMembers ms).length := by
  have hpos : ∀ m : Text × Value, 0 < (printMember m).length := by
    intro m
    rw [printMember, printString, List.cons_append, List.length_cons]
    exact Nat.succ_pos _
  induction ms with
  | nil => exact Nat.le_refl 0
  | cons m ms ih =>
    cases ms with
    | nil => exact hpos m
    | cons m' ms =>
      have hm := hpos m
      have hsplit : printMembers (m :: m' :: ms) =
          printMember m ++ char ',' :: printMembers (m' :: ms) := rfl
      rw [hsplit]
      simp only [List.length_append, List.length_cons] at ih ⊢
      omega

theorem readObject_printObject {o : Members} (h : ∀ m ∈ o, m.2.Stored) :
    readObject (printObject o) = some o := by
  rw [printObject, readObject, if_pos rfl]
  cases o with
  | nil => rfl
  | cons m ms =>
    rw [if_neg, readMembers_printMembers (List.cons_ne_nil m ms) h]
    · rw [List.length_append]
      exact Nat.le_trans (length_le_printMembers _) (Nat.le_add_right _ _)
    · -- a member starts with a quote
      cases ms with
      | nil => simp [printMembers, printMember, printString, char]
      | cons m' ms => simp [printMembers, printMember, printString, char]

/-! ### The loop of `endOfFirstObject` -/

/-- The variables of the loop after a text, if it has not ended. -/
def Scan.feed (st : Scan) (text : Text) : Option Scan := text.foldlM Scan.next st

theorem Scan.feed_append (st : Scan) (a b : Text) :
    st.feed (a ++ b) = (st.feed a).bind fun st' => st'.feed b :=
  List.foldlM_append

theorem Scan.run_append {st st' : Scan} {a : Text} (h : st.feed a = some st') (b : Text) :
    st.run (a ++ b) = (st'.run b).map (· + a.length) := by
  induction a generalizing st with
  | nil =>
    cases h
    simp
  | cons c a ih =>
    obtain ⟨st₁, h₁, hrest⟩ := Option.bind_eq_some_iff.mp h
    rw [List.cons_append, Scan.run, h₁]
    dsimp only
    rw [ih hrest, Option.map_map]
    rfl

/-- A text that leaves the loop where it is inside an object. -/
def Skipped (text : Text) : Prop := Scan.feed ⟨1, false, false⟩ text = some ⟨1, false, false⟩

theorem Skipped.append {a b : Text} (ha : Skipped a) (hb : Skipped b) : Skipped (a ++ b) := by
  rw [Skipped, Scan.feed_append, ha]
  exact hb

/-- A byte of a string leaves the loop in the string. -/
theorem feed_escapeByte :
    ∀ c : UInt8, Scan.feed ⟨1, true, false⟩ (escapeByte c) = some ⟨1, true, false⟩ := by
  have hall : ∀ n < 256, Scan.feed ⟨1, true, false⟩ (escapeByte (UInt8.ofNat n)) =
      some ⟨1, true, false⟩ := by decide +kernel
  intro c
  have hc := hall c.toNat c.toNat_lt
  rwa [UInt8.ofNat_toNat] at hc

theorem feed_flatMap_escapeByte (s : Text) :
    Scan.feed ⟨1, true, false⟩ (s.flatMap escapeByte) = some ⟨1, true, false⟩ := by
  induction s with
  | nil => rfl
  | cons c s ih => rw [List.flatMap_cons, Scan.feed_append, feed_escapeByte, Option.bind_some, ih]

theorem skipped_printString (s : Text) : Skipped (printString s) := by
  show Scan.feed ⟨1, true, false⟩ (s.flatMap escapeByte ++ [char '"']) = _
  rw [Scan.feed_append, feed_flatMap_escapeByte]
  rfl

theorem skipped_printDigits (n : ℕ) : Skipped (printDigits n) := by
  have hdigit : ∀ c : UInt8, isDigitByte c = true → Skipped [c] := by
    intro c
    have hall : ∀ n < 256, isDigitByte (UInt8.ofNat n) = true →
        Scan.feed ⟨1, false, false⟩ [UInt8.ofNat n] = some ⟨1, false, false⟩ := by decide +kernel
    have hc := hall c.toNat c.toNat_lt
    rwa [UInt8.ofNat_toNat] at hc
  have hmem : ∀ c ∈ printDigits n, isDigitByte c = true := fun c hc =>
    isDigitByte_of_mem_printDigits hc
  generalize printDigits n = text at hmem ⊢
  induction text with
  | nil => rfl
  | cons c cs ih =>
    rw [List.forall_mem_cons] at hmem
    exact (hdigit c hmem.1).append (ih hmem.2)

theorem skipped_printValue {value : Value} (h : value.Stored) : Skipped (printValue value) := by
  cases value with
  | null => cases h
  | other text => cases h
  | string s => exact skipped_printString s
  | boolean b => cases b <;> rfl
  | int n =>
    rw [printValue]
    split
    · exact Skipped.append (a := [char '-']) rfl (skipped_printDigits _)
    · exact skipped_printDigits _

theorem skipped_printMembers {ms : Members} (h : ∀ m ∈ ms, m.2.Stored) :
    Skipped (printMembers ms) := by
  have hmember : ∀ m : Text × Value, m.2.Stored → Skipped (printMember m) := by
    intro m hm
    exact (skipped_printString m.1).append
      (Skipped.append (a := [char ':']) rfl (skipped_printValue hm))
  induction ms with
  | nil => rfl
  | cons m ms ih =>
    rw [List.forall_mem_cons] at h
    cases ms with
    | nil => exact hmember m h.1
    | cons m' ms =>
      rw [printMembers]
      · exact (hmember m h.1).append (Skipped.append (a := [char ',']) rfl (ih h.2))
      · nofun

theorem endOfFirstObject_printObject {o : Members} (h : ∀ m ∈ o, m.2.Stored) :
    endOfFirstObject (printObject o) = some (printObject o).length := by
  have hopen : Scan.feed {} (char '{' :: printMembers o) = some ⟨1, false, false⟩ :=
    skipped_printMembers h
  rw [printObject, ← List.cons_append, endOfFirstObject, Scan.run_append hopen,
    List.length_append, Nat.add_comm]
  rfl

/-! ### One line -/

theorem newline_notMem_escapeByte (c : UInt8) : char '\n' ∉ escapeByte c := by
  have hall : ∀ n < 256, char '\n' ∉ escapeByte (UInt8.ofNat n) := by decide +kernel
  have hc := hall c.toNat c.toNat_lt
  rwa [UInt8.ofNat_toNat] at hc

theorem newline_notMem_printString (s : Text) : char '\n' ∉ printString s := by
  unfold printString
  intro hmem
  rcases List.mem_cons.mp hmem with hmem | hmem
  · exact absurd hmem (by decide)
  rcases List.mem_append.mp hmem with hmem | hmem
  · obtain ⟨c, -, hc⟩ := List.mem_flatMap.mp hmem
    exact newline_notMem_escapeByte c hc
  · exact absurd hmem (by decide)

theorem newline_notMem_printValue {value : Value} (h : value.Stored) :
    char '\n' ∉ printValue value := by
  have hdigits : ∀ n, char '\n' ∉ printDigits n := fun n hmem =>
    absurd (isDigitByte_of_mem_printDigits hmem) (by decide)
  cases value with
  | null => cases h
  | other text => cases h
  | string s => exact newline_notMem_printString s
  | boolean b => cases b <;> decide
  | int n =>
    rw [printValue]
    split
    · rw [List.mem_cons, not_or]
      exact ⟨by decide, hdigits _⟩
    · exact hdigits _

theorem newline_notMem_printMembers {ms : Members} (h : ∀ m ∈ ms, m.2.Stored) :
    char '\n' ∉ printMembers ms := by
  have hmember : ∀ m : Text × Value, m.2.Stored → char '\n' ∉ printMember m := by
    intro m hm
    rw [printMember, List.mem_append, List.mem_cons, not_or, not_or]
    exact ⟨newline_notMem_printString _, by decide, newline_notMem_printValue hm⟩
  induction ms with
  | nil => exact List.not_mem_nil
  | cons m ms ih =>
    rw [List.forall_mem_cons] at h
    cases ms with
    | nil => exact hmember m h.1
    | cons m' ms =>
      rw [printMembers, List.mem_append, List.mem_cons, not_or, not_or]
      · exact ⟨hmember m h.1, by decide, ih h.2⟩
      · nofun

/-- **What is relied on of json-c holds of compact texts.** -/
theorem compactObjects_faithful : compactObjects.Faithful where
  parse_print o _ h := readObject_printObject h
  one_line o h := by
    show char '\n' ∉ char '{' :: (printMembers o ++ [char '}'])
    rw [List.mem_cons, List.mem_append, not_or, not_or]
    exact ⟨by decide, newline_notMem_printMembers h, by decide⟩
  object_text o h := endOfFirstObject_printObject h

/-- **The text of a record that is stored reads back as the record; no part of it, and nothing that
goes on after it, is read as any record.** -/
theorem manifest_line_format {lib : ManifestJson} (hlib : lib.Faithful) {record : Record}
    (hstore : record.storable = true) (hnamed : record.Named) :
    parseManifestLine lib (toManifestLine lib record) = some record.kept ∧
      (∀ text, text <+: toManifestLine lib record → text ≠ toManifestLine lib record →
        parseManifestLine lib text = none) ∧
      ∀ rest, rest ≠ [] → parseManifestLine lib (toManifestLine lib record ++ rest) = none := by
  refine ⟨parseManifestLine_toManifestLine hlib hstore hnamed, ?_, ?_⟩
  · intro text htext hne
    exact parseManifestLine_cut hlib htext hne
  · intro rest hne
    exact parseManifestLine_append hlib record hne

theorem manifest_line_format_delete :
    let record : Record :=
      { op := .DELETE, chronicle := ascii "a\"b", story := ascii "s\\"
        writer_start := 5, incarnation_bound := 9 }
    parseManifestLine compactObjects (toManifestLine compactObjects record) = some record ∧
      parseManifestLine compactObjects ((toManifestLine compactObjects record).take 20) = none := by
  intro record
  have hstore : record.storable = true := by decide
  have hformat := manifest_line_format compactObjects_faithful hstore (by decide)
  exact ⟨hformat.1, hformat.2.1 _ (List.take_prefix _ _) (by decide +kernel)⟩

end ChronoLog.Archive.ManifestLog
