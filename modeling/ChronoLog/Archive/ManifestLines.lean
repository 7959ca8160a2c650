import ChronoLog.Basic

/-!
# The lines of a manifest log

A record of the archive manifest is one line of JSON text (`ArchiveManifest.cpp`).  The numbers
of a record go into the text as `int64`.  A line is read only if its first object ends where the
line does, so that neither a line that was cut short nor two records run together are read.

json-c prints and parses the texts; it is not part of the source.

## Main definitions

* `Record`, `Record.storable` — a record, and the check of `append` on its numbers.
* `ManifestJson`, `ManifestJson.Faithful` — the JSON library, and what is relied on.
* `toManifestLine`, `parseManifestLine` — the line of a record, and the record of a line.
* `Record.kept` — what the line of a record says of it.

## Main results

* `parseManifestLine_toManifestLine` — **a record that is stored is read back.**
* `parseManifestLine_cut`, `parseManifestLine_append` — a part of a line is not read, nor is a line
  with something after it.
-/

namespace ChronoLog.Archive.ManifestLog

abbrev Text := List UInt8

def UINT64_MAX : UInt64 := 0xFFFFFFFFFFFFFFFF

inductive Op where
  | PUBLISH
  | DELETE
  | OPEN
  deriving DecidableEq, Repr

/-- `ArchiveManifestRecord`. -/
structure Record where
  op : Op := .PUBLISH
  chronicle : Text := []
  story : Text := []
  whole_chronicle : Bool := false
  file : Text := []
  writer : Text := []
  writer_start : UInt64 := 0
  incarnation_bound : UInt64 := UINT64_MAX
  start : UInt64 := 0
  stop : UInt64 := 0
  events : UInt64 := 0
  deriving DecidableEq, Repr

def kMaxStored : UInt64 := 0x7FFFFFFFFFFFFFFF

/-- The numbers that `append` accepts: those that fit in `int64`. -/
def Record.storable (record : Record) : Bool :=
  let bound_stored := record.incarnation_bound != UINT64_MAX
  !(record.start > kMaxStored || record.stop > kMaxStored || record.events > kMaxStored ||
    (bound_stored && (record.incarnation_bound > kMaxStored || record.writer_start > kMaxStored)))

/-! ### JSON -/

/-- The value of a member of an object. -/
inductive Value where
  | null
  | string (s : Text)
  | int (n : ℤ)
  | boolean (b : Bool)
  | other (text : Text)
  deriving DecidableEq, Repr

abbrev Members := List (Text × Value)

/-- A character of the texts. -/
def char (c : Char) : UInt8 := c.toNat.toUInt8

def ascii (s : String) : Text := s.toList.map char

/-- The variables of `endOfFirstObject`. -/
structure Scan where
  depth : ℤ := 0
  in_string : Bool := false
  escaped : Bool := false
  deriving DecidableEq, Repr

/-- A round of its loop; `none` at the brace that closes the object. -/
def Scan.next (st : Scan) (c : UInt8) : Option Scan :=
  if st.in_string then
    if st.escaped then some { st with escaped := false }
    else if c = char '\\' then some { st with escaped := true }
    else if c = char '"' then some { st with in_string := false }
    else some st
  else if c = char '"' then some { st with in_string := true }
  else if c = char '{' then some { st with depth := st.depth + 1 }
  else if c = char '}' then
    if st.depth - 1 = 0 then none else some { st with depth := st.depth - 1 }
  else some st

def Scan.run (st : Scan) : Text → Option ℕ
  | [] => none
  | c :: rest =>
    match st.next c with
    | none => some 1
    | some st => (st.run rest).map (· + 1)

/-- The index just past the closing brace of the first object, if there is one. -/
def endOfFirstObject (line : Text) : Option ℕ := Scan.run {} line

/-- The loop ends in no part of the text before the brace where it ends. -/
theorem Scan.run_part {st : Scan} {p text : Text} {n : ℕ} (h : st.run text = some n)
    (hp : p <+: text) (hlt : p.length < n) : st.run p = none := by
  induction p generalizing st text n with
  | nil => rfl
  | cons c p ih =>
    cases text with
    | nil => exact absurd (List.prefix_nil.mp hp) (List.cons_ne_nil _ _)
    | cons d text =>
      obtain ⟨rfl, hrest⟩ := List.cons_prefix_cons.mp hp
      rw [Scan.run] at h ⊢
      cases hnext : st.next c with
      | none =>
        rw [hnext] at h
        cases h
        rw [List.length_cons] at hlt
        omega
      | some st' =>
        rw [hnext] at h
        obtain ⟨m, hm, rfl⟩ := Option.map_eq_some_iff.mp h
        rw [List.length_cons, Nat.add_lt_add_iff_right] at hlt
        dsimp only
        rw [ih hm hrest hlt]
        rfl

/-- The loop ends at the same brace where more follows. -/
theorem Scan.run_longer {st : Scan} {text : Text} {n : ℕ} (h : st.run text = some n)
    (rest : Text) : st.run (text ++ rest) = some n := by
  induction text generalizing st n with
  | nil => cases h
  | cons c text ih =>
    rw [List.cons_append, Scan.run]
    rw [Scan.run] at h
    cases hnext : st.next c with
    | none =>
      rw [hnext] at h
      exact h
    | some st' =>
      rw [hnext] at h
      obtain ⟨m, hm, rfl⟩ := Option.map_eq_some_iff.mp h
      dsimp only
      rw [ih hm]
      rfl

/-- The library. -/
structure ManifestJson where
  /-- `json_object_to_json_string_ext` of an object, on one line. -/
  print : Members → Text
  /-- `json_tokener_parse_ex`; `none` unless it succeeds with an object. -/
  parse : Text → Option Members

namespace Value

/-- The values that records are made of; a number is an `int64`. -/
def Stored : Value → Prop
  | null => False
  | string _ => True
  | int n => -2 ^ 63 ≤ n ∧ n < 2 ^ 63
  | boolean _ => True
  | other _ => False

end Value

/-- What is relied on: objects are printed on one line, as the text of an object, and are read
back. -/
structure ManifestJson.Faithful (lib : ManifestJson) : Prop where
  parse_print : ∀ o : Members, (o.map Prod.fst).Nodup → (∀ m ∈ o, m.2.Stored) →
    lib.parse (lib.print o) = some o
  one_line : ∀ o : Members, (∀ m ∈ o, m.2.Stored) → char '\n' ∉ lib.print o
  object_text : ∀ o : Members, (∀ m ∈ o, m.2.Stored) →
    endOfFirstObject (lib.print o) = some (lib.print o).length

/-! ### Lines -/

/-- A number as `int64`. -/
def newUint64 (value : UInt64) : Value := .int value.toBitVec.toInt

def newString (value : Text) : Value := .string value

/-- The members of the object of a record. -/
def Record.members (record : Record) : Members :=
  match record.op with
  | .OPEN =>
    [(ascii "op", newString (ascii "open")), (ascii "writer", newString record.writer),
      (ascii "time", newUint64 record.start)]
  | .PUBLISH =>
    [(ascii "op", newString (ascii "publish")), (ascii "chronicle", newString record.chronicle),
      (ascii "story", newString record.story), (ascii "file", newString record.file),
      (ascii "start", newUint64 record.start), (ascii "end", newUint64 record.stop),
      (ascii "events", newUint64 record.events)]
  | .DELETE =>
    [(ascii "op", newString (ascii "delete")), (ascii "chronicle", newString record.chronicle),
      if record.whole_chronicle then (ascii "whole_chronicle", .boolean true)
      else (ascii "story", newString record.story)] ++
    if record.incarnation_bound != UINT64_MAX then
      [(ascii "writer_start", newUint64 record.writer_start),
        (ascii "up_to_incarnation", newUint64 record.incarnation_bound)]
    else []

def toManifestLine (lib : ManifestJson) (record : Record) : Text := lib.print record.members

/-- `json_object_object_get_ex`; a null is no field. -/
def field (object : Members) (key : Text) : Option Value :=
  match object.lookup key with
  | some .null => none
  | value => value

/-- The functions that read a field: `none` where they fail, else the new value. -/
def getString (object : Members) (key : Text) (required : Bool) (value : Text) : Option Text :=
  match field object key with
  | none => if required then none else some value
  | some (.string s) => some s
  | some _ => none

def getUint64 (object : Members) (key : Text) (required : Bool) (value : UInt64) :
    Option UInt64 :=
  match field object key with
  | none => if required then none else some value
  | some (.int n) => if n < 0 then none else some (UInt64.ofNat n.toNat)
  | some _ => none

def getBool (object : Members) (key : Text) (value : Bool) : Option Bool :=
  match field object key with
  | none => some value
  | some (.boolean b) => some b
  | some _ => none

/-- The record of an object. -/
def readRecord (object : Members) : Option Record := do
  let op ← getString object (ascii "op") true []
  let chronicle ← if op ≠ ascii "open" then getString object (ascii "chronicle") true []
    else some []
  if op = ascii "publish" then
    let story ← getString object (ascii "story") true []
    let file ← getString object (ascii "file") true []
    let start ← getUint64 object (ascii "start") true 0
    let stop ← getUint64 object (ascii "end") true 0
    let events ← getUint64 object (ascii "events") false 0
    if file.isEmpty then none
    else some { op := .PUBLISH, chronicle, story, file, start, stop, events }
  else if op = ascii "open" then
    let writer ← getString object (ascii "writer") true []
    let start ← getUint64 object (ascii "time") true 0
    some { op := .OPEN, writer, start }
  else if op = ascii "delete" then
    let whole_chronicle ← getBool object (ascii "whole_chronicle") false
    let story ← getString object (ascii "story") (!whole_chronicle) []
    let writer_start ← getUint64 object (ascii "writer_start") false 0
    let incarnation_bound ← getUint64 object (ascii "up_to_incarnation") false UINT64_MAX
    some { op := .DELETE, chronicle, story, whole_chronicle, writer_start, incarnation_bound }
  else none

def parseManifestLine (lib : ManifestJson) (line : Text) : Option Record :=
  if line.isEmpty then none
  else
    match lib.parse line with
    | none => none
    | some object =>
      if endOfFirstObject line = some line.length then readRecord object else none

/-! ### Reading a line back -/

/-- What the line of a record says of it. -/
def Record.kept (record : Record) : Record :=
  match record.op with
  | .OPEN => { op := .OPEN, writer := record.writer, start := record.start }
  | .PUBLISH =>
    { op := .PUBLISH, chronicle := record.chronicle, story := record.story, file := record.file
      start := record.start, stop := record.stop, events := record.events }
  | .DELETE =>
    { op := .DELETE, chronicle := record.chronicle
      story := if record.whole_chronicle then [] else record.story
      whole_chronicle := record.whole_chronicle
      writer_start := if record.incarnation_bound = UINT64_MAX then 0 else record.writer_start
      incarnation_bound := record.incarnation_bound }

/-- A publication names its file. -/
def Record.Named (record : Record) : Prop := record.op = .PUBLISH → record.file ≠ []

instance (record : Record) : Decidable record.Named := inferInstanceAs (Decidable (_ → _))

theorem toInt_of_le {value : UInt64} (h : value ≤ kMaxStored) :
    value.toBitVec.toInt = (value.toNat : ℤ) := by
  rw [UInt64.le_iff_toNat_le] at h
  have hmax : kMaxStored.toNat = 2 ^ 63 - 1 := rfl
  rw [BitVec.toInt_eq_toNat_cond, UInt64.toNat_toBitVec, if_pos (by omega)]

theorem stored_newUint64 (value : UInt64) : (newUint64 value).Stored := by
  refine ⟨?_, ?_⟩
  · exact BitVec.le_toInt value.toBitVec
  · exact BitVec.toInt_lt

/-- A number that fits in `int64` is read back. -/
theorem getUint64_newUint64 {object : Members} {key : Text} {value : UInt64}
    (hfield : object.lookup key = some (newUint64 value)) (hle : value ≤ kMaxStored)
    (required : Bool) (default : UInt64) :
    getUint64 object key required default = some value := by
  rw [newUint64, toInt_of_le hle] at hfield
  unfold getUint64 field
  rw [hfield]
  dsimp only
  rw [if_neg (by omega), Int.toNat_natCast, UInt64.ofNat_toNat]

theorem stored_newString (value : Text) : (newString value).Stored := trivial

theorem stored_members (record : Record) : ∀ m ∈ record.members, m.2.Stored := by
  have htrue : (Value.boolean true).Stored := trivial
  unfold Record.members
  cases record.op with
  | OPEN =>
    simp only [List.forall_mem_cons, stored_newString, stored_newUint64, true_and]
    exact fun _ h => absurd h List.not_mem_nil
  | PUBLISH =>
    simp only [List.forall_mem_cons, stored_newString, stored_newUint64, true_and]
    exact fun _ h => absurd h List.not_mem_nil
  | DELETE =>
    cases record.whole_chronicle <;> cases record.incarnation_bound != UINT64_MAX <;>
      simp [stored_newString, stored_newUint64, htrue]

theorem nodup_members (record : Record) : (record.members.map Prod.fst).Nodup := by
  unfold Record.members
  cases record.op with
  | OPEN => exact (by decide : ([ascii "op", ascii "writer", ascii "time"] : List Text).Nodup)
  | PUBLISH =>
    exact (by decide : ([ascii "op", ascii "chronicle", ascii "story", ascii "file", ascii "start",
      ascii "end", ascii "events"] : List Text).Nodup)
  | DELETE =>
    cases record.whole_chronicle <;> cases record.incarnation_bound != UINT64_MAX
    · exact (by decide : ([ascii "op", ascii "chronicle", ascii "story"] : List Text).Nodup)
    · exact (by decide : ([ascii "op", ascii "chronicle", ascii "story", ascii "writer_start",
        ascii "up_to_incarnation"] : List Text).Nodup)
    · exact (by decide : ([ascii "op", ascii "chronicle", ascii "whole_chronicle"] :
        List Text).Nodup)
    · exact (by decide : ([ascii "op", ascii "chronicle", ascii "whole_chronicle",
        ascii "writer_start", ascii "up_to_incarnation"] : List Text).Nodup)

theorem newline_notMem_toManifestLine {lib : ManifestJson} (hlib : lib.Faithful)
    (record : Record) : char '\n' ∉ toManifestLine lib record :=
  hlib.one_line _ (stored_members record)

/-- **A part of a line is not read.** -/
theorem parseManifestLine_cut {lib : ManifestJson} (hlib : lib.Faithful) {record : Record}
    {p : Text} (hp : p <+: toManifestLine lib record) (hne : p ≠ toManifestLine lib record) :
    parseManifestLine lib p = none := by
  have hlt : p.length < (toManifestLine lib record).length := by
    refine Nat.lt_of_le_of_ne hp.length_le ?_
    intro hlen
    exact hne (hp.eq_of_length hlen)
  have hscan : endOfFirstObject p = none :=
    Scan.run_part (hlib.object_text _ (stored_members record)) hp hlt
  unfold parseManifestLine
  split
  · rfl
  · split
    · rfl
    · rw [hscan, if_neg nofun]

/-- **A line is not read with anything after it, such as another record.** -/
theorem parseManifestLine_append {lib : ManifestJson} (hlib : lib.Faithful) (record : Record)
    {rest : Text} (hne : rest ≠ []) :
    parseManifestLine lib (toManifestLine lib record ++ rest) = none := by
  have hscan : endOfFirstObject (toManifestLine lib record ++ rest) =
      some (toManifestLine lib record).length :=
    Scan.run_longer (hlib.object_text _ (stored_members record)) rest
  have hlen : (toManifestLine lib record).length ≠ (toManifestLine lib record ++ rest).length := by
    have hpos := List.length_pos_iff.mpr hne
    rw [List.length_append]
    omega
  unfold parseManifestLine
  split
  · rfl
  · split
    · rfl
    · rw [hscan, if_neg]
      intro heq
      exact hlen (Option.some.inj heq)

theorem readRecord_members {record : Record} (hstore : record.storable = true)
    (hnamed : record.Named) : readRecord record.members = some record.kept := by
  simp only [Record.storable, Bool.not_eq_true', Bool.or_eq_false_iff, decide_eq_false_iff_not,
    UInt64.not_lt, Bool.and_eq_false_imp, bne_iff_ne] at hstore
  obtain ⟨⟨⟨hstart, hstop⟩, hevents⟩, hbound⟩ := hstore
  unfold Record.members Record.kept
  cases hop : record.op with
  | OPEN =>
    show (getUint64 _ (ascii "time") true 0).bind _ = _
    rw [getUint64_newUint64 rfl hstart]
    rfl
  | PUBLISH =>
    show (getUint64 _ (ascii "start") true 0).bind _ = _
    rw [getUint64_newUint64 rfl hstart]
    show (getUint64 _ (ascii "end") true 0).bind _ = _
    rw [getUint64_newUint64 rfl hstop]
    show (getUint64 _ (ascii "events") false 0).bind _ = _
    rw [getUint64_newUint64 rfl hevents]
    show (if record.file.isEmpty then none else some _) = _
    rw [if_neg]
    rw [List.isEmpty_iff]
    exact hnamed hop
  | DELETE =>
    by_cases hmax : record.incarnation_bound = UINT64_MAX
    · have hno : (record.incarnation_bound != UINT64_MAX) = false := bne_eq_false_iff_eq.mpr hmax
      rw [hno, if_pos hmax, hmax]
      cases record.whole_chronicle <;> rfl
    · obtain ⟨hle, hwriter⟩ := hbound hmax
      have hyes : (record.incarnation_bound != UINT64_MAX) = true := bne_iff_ne.mpr hmax
      rw [hyes, if_neg hmax]
      cases record.whole_chronicle
      · show (getUint64 _ (ascii "writer_start") false 0).bind _ = _
        rw [getUint64_newUint64 rfl hwriter]
        show (getUint64 _ (ascii "up_to_incarnation") false UINT64_MAX).bind _ = _
        rw [getUint64_newUint64 rfl hle]
        rfl
      · show (getUint64 _ (ascii "writer_start") false 0).bind _ = _
        rw [getUint64_newUint64 rfl hwriter]
        show (getUint64 _ (ascii "up_to_incarnation") false UINT64_MAX).bind _ = _
        rw [getUint64_newUint64 rfl hle]
        rfl

/-- **A record that is stored is read back.** -/
theorem parseManifestLine_toManifestLine {lib : ManifestJson} (hlib : lib.Faithful)
    {record : Record} (hstore : record.storable = true) (hnamed : record.Named) :
    parseManifestLine lib (toManifestLine lib record) = some record.kept := by
  have htext := hlib.object_text _ (stored_members record)
  have hne : (toManifestLine lib record).isEmpty = false := by
    cases hline : toManifestLine lib record with
    | nil =>
      rw [toManifestLine] at hline
      rw [hline] at htext
      cases htext
    | cons c rest => rfl
  unfold parseManifestLine
  rw [hne, if_neg Bool.false_ne_true, toManifestLine,
    hlib.parse_print _ (nodup_members record) (stored_members record)]
  dsimp only
  rw [if_pos htext, readRecord_members hstore hnamed]

end ChronoLog.Archive.ManifestLog
