import ChronoLog.Archive.CompactObjects
import ChronoLog.Lib.LineLog
import ChronoLog.Lib.Transition

/-!
# The log of a writer and the players that follow it

A grapher appends its records to one log, a line for each, and a player reads on from where it
was.  A write may be cut short, also by the end of the process: the next record then starts on a
line of its own, so the part of a line that is left is never read as a record of another one.
The log may be removed, and then an append makes a new one, which starts with a header that
tells a reader that it is another log.

## Main definitions

* `ManifestState.step` — a grapher that starts, appends and ends, and a reader.
* `Proper` — the steps that are as the callers and the file system make them.
* `Agrees` — what holds of the logs and of what the reader has returned.

## Main results

* `Logged.append` — a write, whole or cut short, after whole lines.
* `Reading.readStep` — **a read goes on in the log that the reader is in, or starts in the one
  that is under the name now.**
-/

namespace ChronoLog.Archive.ManifestLog

open LineLog

def newline : UInt8 := char '\n'

def kHeadBytes : ℕ := 64 * 1024

variable (lib : ManifestJson)

/-- What a reader makes of a line; a header only marks the start of a log. -/
def readLine (line : Text) : Option Record :=
  (parseManifestLine lib line).filter fun record => record.op ≠ .OPEN

/-- The record of the header. -/
def header (writer_id : Text) (now : UInt64) : Record :=
  { op := .OPEN, writer := writer_id, start := now }

def headerLine (writer_id : Text) (now : UInt64) : Text :=
  toManifestLine lib (header writer_id now) ++ [newline]

/-- The text that an append writes. -/
def appendedText (writer_id : Text) (now : UInt64) (created needsNewline : Bool)
    (record : Record) : Text :=
  let line := toManifestLine lib record ++ [newline]
  if created then headerLine lib writer_id now ++ line
  else if needsNewline then newline :: line
  else line

def endsWithoutNewline (content : Text) : Bool :=
  !content.isEmpty && content.getLast? != some newline

/-! ### The states -/

/-- A log on the file system. -/
structure LogFile where
  inode : ℕ
  content : Text := []
  deriving DecidableEq, Repr

/-- `ArchiveManifestWriter`, once it was opened. -/
structure Writer where
  theFailed : Bool := false
  theLogNeedsNewline : Bool := false
  deriving DecidableEq, Repr

/-- An append that has written. -/
structure Attempt where
  serial : ℕ
  record : Record
  /-- The number of the log it wrote to. -/
  log : ℕ
  written : Bool
  deriving DecidableEq, Repr

/-- An append between its write and its end. -/
structure InFlight where
  attempt : Attempt
  created : Bool
  deriving DecidableEq, Repr

/-- `ArchiveManifestTail`. -/
structure Tail where
  theOffset : ℕ := 0
  theInode : ℕ := 0
  theHead : Text := []
  deriving DecidableEq, Repr

def Tail.startsAsBefore (t : Tail) (content : Text) : Bool :=
  t.theOffset = 0 || t.theHead.isEmpty || t.theHead.isPrefixOf content

/-- The test of `readNew` for another file under the name. -/
def Tail.replaced (t : Tail) (file : LogFile) : Bool :=
  file.inode ≠ t.theInode || file.content.length < t.theOffset || !t.startsAsBefore file.content

structure ManifestState where
  file : Option LogFile := none
  /-- The contents of the logs that were removed. -/
  removed : List Text := []
  writer : Option Writer := none
  attempts : List Attempt := []
  inFlight : List InFlight := []
  /-- The numbers of the appends that succeeded. -/
  succeeded : List ℕ := []
  tail : Tail := {}
  /-- The number of the log that the reader is in. -/
  followed : Option ℕ := none
  /-- What the reader has returned, with the numbers of the logs. -/
  returned : List (ℕ × Record) := []
  deriving DecidableEq, Repr

/-- What the operating system answers when a writer opens its log. -/
structure OpenOutcome where
  readable : Bool := true
  synced : Bool := true
  closed : Bool := true
  directoriesSynced : Bool := true
  deriving DecidableEq, Repr

/-- The steps.  `bytes` is how much of a write is made, and `inode` the number of a new file. -/
inductive ManifestStep where
  | start (now : UInt64) (inode bytes : ℕ) (o : OpenOutcome)
  /-- The process ends, also in the middle of its appends. -/
  | exit
  /-- The section of an append under the mutex. -/
  | append (record : Record) (now : UInt64) (inode bytes : ℕ)
  | finish (i : ℕ) (synced closed directoriesSynced : Bool)
  | remove
  | read (max_bytes : ℕ) (readable : Bool)
  deriving DecidableEq, Repr

namespace ManifestState

variable (writer_id : Text)

/-- `open`. -/
def startStep (s : ManifestState) (now : UInt64) (inode bytes : ℕ) (o : OpenOutcome) :
    Option ManifestState :=
  match s.writer with
  | some _ => none
  | none =>
    let file := s.file.getD ⟨inode, []⟩
    let text := if file.content.isEmpty then headerLine lib writer_id now else []
    let content := file.content ++ text.take bytes
    let ok := decide (text.length ≤ bytes) && o.synced && o.closed && o.directoriesSynced
    let w : Writer := { theLogNeedsNewline := o.readable && endsWithoutNewline content }
    some { s with
      file := some ⟨file.inode, content⟩
      writer := if ok then some w else none }

/-- `append`, up to where it lets the mutex go. -/
def appendStep (s : ManifestState) (record : Record) (now : UInt64) (inode bytes : ℕ) :
    Option ManifestState :=
  match s.writer with
  | none => none
  | some w =>
    if !record.storable || w.theFailed then some s
    else
      let file := s.file.getD ⟨inode, []⟩
      let created := file.content.isEmpty
      let text := appendedText lib writer_id now created w.theLogNeedsNewline record
      let written : Bool := text.length ≤ bytes
      let attempt : Attempt := ⟨s.attempts.length, record, s.removed.length, written⟩
      some { s with
        file := some ⟨file.inode, file.content ++ text.take bytes⟩
        -- a failed write may leave part of the line
        writer := some { w with theLogNeedsNewline := !written }
        attempts := s.attempts ++ [attempt]
        inFlight := s.inFlight ++ [⟨attempt, created⟩] }

/-- The rest of `append`. -/
def finishStep (s : ManifestState) (i : ℕ) (synced closed directoriesSynced : Bool) :
    Option ManifestState := do
  let w ← s.writer
  let f ← s.inFlight[i]?
  let s := { s with inFlight := s.inFlight.eraseIdx i }
  let latched : Writer := { w with theFailed := true }
  let doubtful : Writer := { w with theLogNeedsNewline := w.theLogNeedsNewline || !closed }
  if f.attempt.written && !synced then some { s with writer := some latched }
  else if !f.attempt.written || !closed then some { s with writer := some doubtful }
  else if f.created && !directoriesSynced then some { s with writer := some latched }
  else some { s with succeeded := s.succeeded ++ [f.attempt.serial] }

def removeStep (s : ManifestState) : Option ManifestState :=
  s.file.map fun file => { s with file := none, removed := s.removed ++ [file.content] }

/-- The tail after its test for another file. -/
def tailOf (s : ManifestState) (file : LogFile) : Tail :=
  if s.tail.replaced file then { theInode := file.inode } else s.tail

/-- The log the reader is in after that test. -/
def followedOf (s : ManifestState) (file : LogFile) : Option ℕ :=
  if (s.tailOf file).theOffset = 0 then some s.removed.length else s.followed

/-- The whole lines that `readNew` takes. -/
def piece (content : Text) (max_bytes : ℕ) : Text :=
  if h : content = [] then []
  else
    wholePart newline (readPiece newline content (min content.length (max max_bytes 1)) (by
      have hpos := List.length_pos_iff.mpr h
      omega))

/-- The first line, up to a size. -/
def headOf (content : Text) : Text :=
  (content.takeWhile (· ≠ newline) ++ [newline]).take kHeadBytes

/-- `readNew`. -/
def readStep (s : ManifestState) (max_bytes : ℕ) (readable : Bool) : Option ManifestState :=
  match s.file with
  | none => some s
  | some file =>
    let t := s.tailOf file
    let s := { s with tail := t, followed := s.followedOf file }
    let buffer := piece (file.content.drop t.theOffset) max_bytes
    if !readable || buffer.isEmpty then some s
    else
      some { s with
        tail := { t with
          theOffset := t.theOffset + buffer.length
          theHead := if t.theOffset = 0 then headOf buffer else t.theHead }
        returned := s.returned ++
          (records newline (readLine lib) buffer).map fun r => (s.removed.length, r) }

def step (s : ManifestState) : ManifestStep → Option ManifestState
  | .start now inode bytes o => s.startStep lib writer_id now inode bytes o
  | .exit => some { s with writer := none, inFlight := [] }
  | .append record now inode bytes => s.appendStep lib writer_id record now inode bytes
  | .finish i synced closed directoriesSynced => s.finishStep i synced closed directoriesSynced
  | .remove => s.removeStep
  | .read max_bytes readable => s.readStep lib max_bytes readable

/-- One log name, from the time on when it is not there yet. -/
def system : Transition.System ManifestState ManifestStep where
  Initial s := s = {}
  step s l := s.step lib writer_id l

/-! ### What holds of the logs -/

/-- The content of a log. -/
def content (s : ManifestState) (g : ℕ) : Option Text :=
  (s.removed ++ s.file.toList.map (·.content))[g]?

def attemptsOf (s : ManifestState) (g : ℕ) : List Attempt := s.attempts.filter fun a => a.log = g

def succeededOf (s : ManifestState) (g : ℕ) : List Attempt :=
  (s.attemptsOf g).filter fun a => a.serial ∈ s.succeeded

def returnedOf (s : ManifestState) (g : ℕ) : List Record :=
  (s.returned.filter fun r => r.1 = g).map Prod.snd

/-- The records of a log. -/
def recordsOf (content : Text) : List Record := records newline (readLine lib) content

/-- A reader that is in the middle of another log than the one under the name sees that it is
another one. -/
def Recognizes (s : ManifestState) : Prop :=
  ∀ file ∈ s.file, 0 < s.tail.theOffset → s.followed ≠ some s.removed.length →
    s.tail.replaced file = true

instance (s : ManifestState) : Decidable s.Recognizes := inferInstanceAs (Decidable (∀ _ ∈ _, _))

end ManifestState

/-- Only records of published and deleted files are appended, and the test for a cut-short line
can read the log. -/
def Proper (s : ManifestState) : ManifestStep → Prop
  | .start _ _ _ o => o.readable = true
  | .exit => True
  | .append record _ _ _ => record.op ≠ .OPEN ∧ record.Named
  | .finish _ _ _ _ => True
  | .remove => True
  | .read _ _ => s.Recognizes

/-- What holds of the logs and of what the reader has returned. -/
structure Agrees (lib : ManifestJson) (writer_id : Text) (s : ManifestState) : Prop where
  /-- A log holds the records whose appends succeeded, in their order. -/
  succeeded : ∀ g c, s.content g = some c →
    ((s.succeededOf g).map fun a => a.record.kept).Sublist (ManifestState.recordsOf lib c)
  /-- It holds nothing but records that were passed to an append, each once at most. -/
  attempted : ∀ g c, s.content g = some c →
    (ManifestState.recordsOf lib c).Sublist ((s.attemptsOf g).map fun a => a.record.kept)
  /-- The reader returns the records of a log from the first on. -/
  returned : ∀ g c, s.content g = some c → s.returnedOf g <+: ManifestState.recordsOf lib c
  /-- A read of the whole log returns all of its records. -/
  all_returned : ∀ file ∈ s.file, s.Recognizes → ∀ max_bytes, file.content.length ≤ max_bytes →
    ∀ s', s.step lib writer_id (.read max_bytes true) = some s' →
      s'.returnedOf s.removed.length = ManifestState.recordsOf lib file.content

/-! ### Lines of a log -/

section Lines

variable {lib : ManifestJson} {record : Record}

theorem readLine_nil : readLine lib [] = none := rfl

theorem readLine_cut (hlib : lib.Faithful) {p : Text} (hp : p <+: toManifestLine lib record)
    (hne : p ≠ toManifestLine lib record) : readLine lib p = none := by
  rw [readLine, parseManifestLine_cut hlib hp hne]
  rfl

theorem op_kept (record : Record) : record.kept.op = record.op := by
  unfold Record.kept
  cases record.op <;> rfl

theorem readLine_toManifestLine (hlib : lib.Faithful) (hstore : record.storable = true)
    (hnamed : record.Named) (hop : record.op ≠ .OPEN) :
    readLine lib (toManifestLine lib record) = some record.kept := by
  rw [readLine, parseManifestLine_toManifestLine hlib hstore hnamed, Option.filter_some, op_kept,
    if_pos (decide_eq_true hop)]

/-- A header is not returned, whatever its time is. -/
theorem readLine_header (hlib : lib.Faithful) (writer_id : Text) (now : UInt64) :
    readLine lib (toManifestLine lib (header writer_id now)) = none := by
  have hmembers : readRecord (header writer_id now).members =
      (getUint64 (header writer_id now).members (ascii "time") true 0).bind fun start =>
        some { op := .OPEN, writer := writer_id, start } := rfl
  have hparse : ∀ r, parseManifestLine lib (toManifestLine lib (header writer_id now)) = some r →
      r.op = .OPEN := by
    intro r hr
    unfold parseManifestLine at hr
    rw [toManifestLine, hlib.parse_print _ (nodup_members _) (stored_members _)] at hr
    split at hr
    · cases hr
    dsimp only at hr
    split at hr
    · rw [hmembers] at hr
      obtain ⟨start, -, hr⟩ := Option.bind_eq_some_iff.mp hr
      cases hr
      rfl
    · cases hr
  unfold readLine
  cases hline : parseManifestLine lib (toManifestLine lib (header writer_id now)) with
  | none => rfl
  | some r => simp [hparse r hline]

/-- The text of an append is made of lines, after a separator where one is asked for. -/
theorem appendedText_eq (lib : ManifestJson) (writer_id : Text) (now : UInt64)
    (created needsNewline : Bool) (record : Record) :
    appendedText lib writer_id now created needsNewline record =
      if created then
        unlines newline [toManifestLine lib (header writer_id now), toManifestLine lib record]
      else if needsNewline then newline :: unlines newline [toManifestLine lib record]
      else unlines newline [toManifestLine lib record] := by
  unfold appendedText headerLine unlines
  simp

end Lines

/-! ### What a write adds -/

/-- The records of a log are among those of its appends, and those of the whole writes are there.
A line that is left unfinished may be ended later. -/
def Logged (lib : ManifestJson) (attempts : List Attempt) (content : Text) : Prop :=
  ((attempts.filter (·.written)).map fun a => a.record.kept).Sublist
      (ManifestState.recordsOf lib content) ∧
    (ManifestState.recordsOf lib (content ++ [newline])).Sublist
      (attempts.map fun a => a.record.kept)

open ManifestState (recordsOf)

section Logged

variable {lib : ManifestJson} {attempts : List Attempt} {content : Text}

theorem recordsOf_append {a : Text} (ha : Whole newline a) (b : Text) :
    recordsOf lib (a ++ b) = recordsOf lib a ++ recordsOf lib b :=
  records_append ha b

theorem Logged.attempted (h : Logged lib attempts content) :
    (recordsOf lib content).Sublist (attempts.map fun a => a.record.kept) :=
  (records_prefix_append _ _ _).sublist.trans h.2

/-- The content with its last line ended. -/
theorem Logged.ended (h : Logged lib attempts content) :
    ((attempts.filter (·.written)).map fun a => a.record.kept).Sublist
      (recordsOf lib (content ++ [newline])) :=
  h.1.trans (records_prefix_append _ _ _).sublist

/-- **A write, whole or cut short, after whole lines.** -/
theorem Logged.append {base : Text} (hbase : Whole newline base)
    (hwritten : ((attempts.filter (·.written)).map fun a => a.record.kept).Sublist
      (recordsOf lib base))
    (hattempted : (recordsOf lib base).Sublist (attempts.map fun a => a.record.kept))
    {ls : List Text} (hls : ∀ l ∈ ls, newline ∉ l)
    (hcut : ∀ l ∈ ls, ∀ p, p <+: l → p ≠ l → readLine lib p = none) {new : List Attempt}
    (hnew : ls.filterMap (readLine lib) = new.map fun a => a.record.kept) {w : Text}
    (hw : w <+: unlines newline ls)
    (hfull : ∀ a ∈ new, a.written = true → w = unlines newline ls) :
    Logged lib (attempts ++ new) (base ++ w) := by
  refine ⟨?_, ?_⟩
  · rw [List.filter_append, List.map_append, recordsOf_append hbase]
    apply hwritten.append
    by_cases hall : w = unlines newline ls
    · rw [hall, recordsOf, records_unlines _ hls, hnew]
      exact List.filter_sublist.map _
    · have hnone : new.filter (·.written) = [] := by
        rw [List.filter_eq_nil_iff]
        intro a ha hwrote
        exact hall (hfull a ha hwrote)
      rw [hnone]
      exact List.nil_sublist _
  · rw [List.append_assoc, recordsOf_append hbase, List.map_append, ← hnew]
    exact hattempted.append (records_cut hls hcut readLine_nil hw)

/-- **The section of an append under the mutex.** -/
theorem Logged.appendedText (hlib : lib.Faithful) (h : Logged lib attempts content)
    {needsNewline : Bool} (hwhole : needsNewline = false → Whole newline content)
    {a : Attempt} (hstore : a.record.storable = true) (hop : a.record.op ≠ .OPEN)
    (hnamed : a.record.Named) (writer_id : Text) (now : UInt64) {bytes : ℕ}
    (hwritten : a.written = true → (appendedText lib writer_id now content.isEmpty needsNewline
      a.record).length ≤ bytes) :
    Logged lib (attempts ++ [a]) (content ++ (appendedText lib writer_id now content.isEmpty
      needsNewline a.record).take bytes) := by
  have hline : newline ∉ toManifestLine lib a.record := newline_notMem_toManifestLine hlib _
  have hread := readLine_toManifestLine hlib hstore hnamed hop
  rw [appendedText_eq] at hwritten ⊢
  cases hempty : content.isEmpty with
  | true =>
    -- a new log starts with a header
    rw [hempty, if_pos rfl] at hwritten
    rw [if_pos rfl]
    rw [List.isEmpty_iff] at hempty
    subst hempty
    refine Logged.append whole_nil h.1 h.attempted ?_ ?_ ?_ (List.take_prefix _ _) ?_
    · simp only [List.forall_mem_cons]
      exact ⟨newline_notMem_toManifestLine hlib _, hline, fun _ hl => absurd hl List.not_mem_nil⟩
    · simp only [List.forall_mem_cons]
      exact ⟨fun _ => readLine_cut hlib, fun _ => readLine_cut hlib,
        fun _ hl => absurd hl List.not_mem_nil⟩
    · simp [readLine_header hlib, hread]
    · intro b hb hwrote
      rw [List.mem_singleton.mp hb] at hwrote
      exact List.take_of_length_le (hwritten hwrote)
  | false =>
    have hone : ∀ {base w : Text}, Whole newline base →
        ((attempts.filter (·.written)).map fun a => a.record.kept).Sublist (recordsOf lib base) →
        (recordsOf lib base).Sublist (attempts.map fun a => a.record.kept) →
        w <+: unlines newline [toManifestLine lib a.record] →
        (a.written = true → w = unlines newline [toManifestLine lib a.record]) →
        Logged lib (attempts ++ [a]) (base ++ w) := by
      intro base w hbase hin hout hw hfull
      refine Logged.append hbase hin hout ?_ ?_ ?_ hw ?_
      · rw [List.forall_mem_singleton]
        exact hline
      · rw [List.forall_mem_singleton]
        exact fun _ => readLine_cut hlib
      · simp [hread]
      · rw [List.forall_mem_singleton]
        exact hfull
    rw [hempty, if_neg Bool.false_ne_true] at hwritten
    rw [if_neg Bool.false_ne_true]
    cases hneeds : needsNewline with
    | false =>
      rw [hneeds, if_neg Bool.false_ne_true] at hwritten
      rw [if_neg Bool.false_ne_true]
      exact hone (hwhole hneeds) h.1 h.attempted (List.take_prefix _ _)
        fun hwrote => List.take_of_length_le (hwritten hwrote)
    | true =>
      rw [hneeds, if_pos rfl] at hwritten
      rw [if_pos rfl]
      cases bytes with
      | zero =>
        -- nothing was written
        have hnot : a.written = false := by
          rw [Bool.eq_false_iff]
          intro hwrote
          exact absurd (hwritten hwrote) (by simp)
        rw [List.take_zero, List.append_nil]
        refine ⟨?_, ?_⟩
        · rw [List.filter_append, List.filter_cons_of_neg (by simp [hnot]), List.filter_nil,
            List.append_nil]
          exact h.1
        · rw [List.map_append]
          exact h.2.trans (List.sublist_append_left _ _)
      | succ n =>
        -- the separator ends what was left, and the line comes after it
        rw [List.take_succ_cons, List.append_cons content newline]
        refine hone (whole_concat content) h.ended h.2 (List.take_prefix _ _) fun hwrote => ?_
        have hlen := hwritten hwrote
        rw [List.length_cons, Nat.add_le_add_iff_right] at hlen
        exact List.take_of_length_le hlen

/-- The header of a log that a writer opens. -/
theorem Logged.header (hlib : lib.Faithful) (h : Logged lib attempts []) (writer_id : Text)
    (now : UInt64) (bytes : ℕ) :
    Logged lib attempts ((headerLine lib writer_id now).take bytes) := by
  have htext : headerLine lib writer_id now =
      unlines newline [toManifestLine lib (ManifestLog.header writer_id now)] := by
    simp [headerLine, unlines]
  have hw : (headerLine lib writer_id now).take bytes <+:
      unlines newline [toManifestLine lib (ManifestLog.header writer_id now)] :=
    htext ▸ List.take_prefix _ _
  have hlogged : Logged lib (attempts ++ []) ([] ++ (headerLine lib writer_id now).take bytes) :=
    Logged.append whole_nil h.1 h.attempted
      (List.forall_mem_singleton.mpr (newline_notMem_toManifestLine hlib _))
      (List.forall_mem_singleton.mpr fun _ => readLine_cut hlib)
      (by simp [readLine_header hlib]) hw (fun _ ha => absurd ha List.not_mem_nil)
  rwa [List.append_nil, List.nil_append] at hlogged

end Logged

/-! ### The logs of a state -/

namespace ManifestState

variable {lib : ManifestJson} {s s' : ManifestState} {g : ℕ} {c : Text} {file : LogFile}

theorem content_of_lt (hg : g < s.removed.length) : s.content g = s.removed[g]? :=
  List.getElem?_append_left hg

theorem content_length : s.content s.removed.length = s.file.map (·.content) := by
  rw [content, List.getElem?_append_right (Nat.le_refl _), Nat.sub_self]
  cases s.file <;> rfl

theorem le_of_content (h : s.content g = some c) : g ≤ s.removed.length := by
  obtain ⟨hg, -⟩ := List.getElem?_eq_some_iff.mp h
  rw [List.length_append, List.length_map] at hg
  have hone : s.file.toList.length ≤ 1 := by cases s.file <;> simp
  omega

/-- The logs that were removed have numbers before that of any later one. -/
theorem lt_of_content {t : ℕ} (h : s.content t = some c) (hnone : s.content g = none) : t < g := by
  obtain ⟨ht, -⟩ := List.getElem?_eq_some_iff.mp h
  have hg := List.getElem?_eq_none_iff.mp hnone
  omega

/-- The log under the name goes on, or there is a new one. -/
structure Grows (s s' : ManifestState) (log : LogFile) : Prop where
  removed : s'.removed = s.removed
  file : s'.file = some log
  inode : ∀ old ∈ s.file, old.inode = log.inode
  content : ∀ old ∈ s.file, old.content <+: log.content

theorem Grows.content_eq (h : Grows s s' file) (hg : g ≠ s.removed.length) :
    s'.content g = s.content g := by
  rcases Nat.lt_or_gt_of_ne hg with hlt | hgt
  · rw [content_of_lt hlt, content_of_lt (h.removed ▸ hlt), h.removed]
  · have hnone : ∀ r : ManifestState, r.removed = s.removed → r.content g = none := by
      intro r hr
      cases hc : r.content g with
      | none => rfl
      | some c =>
        have hle := le_of_content hc
        rw [hr] at hle
        omega
    rw [hnone s' h.removed, hnone s rfl]

theorem Grows.content_length (h : Grows s s' file) :
    s'.content s.removed.length = some file.content := by
  rw [← h.removed, ManifestState.content_length, h.file]
  rfl

theorem Grows.exists_longer (h : Grows s s' file) (hc : s.content g = some c) :
    ∃ c', s'.content g = some c' ∧ c <+: c' := by
  by_cases hg : g = s.removed.length
  · subst hg
    rw [ManifestState.content_length, Option.map_eq_some_iff] at hc
    obtain ⟨old, hold, rfl⟩ := hc
    exact ⟨file.content, h.content_length, h.content old hold⟩
  · exact ⟨c, (h.content_eq hg).trans hc, List.prefix_refl c⟩

/-! ### The reader -/

/-- The reader is in the log under the name. -/
structure InLog (lib : ManifestJson) (s : ManifestState) (file : LogFile) (t : Tail) : Prop where
  offset : t.theOffset ≤ file.content.length
  whole : Whole newline (file.content.take t.theOffset)
  returned : s.returnedOf s.removed.length = recordsOf lib (file.content.take t.theOffset)
  head : 0 < t.theOffset → t.theInode = file.inode ∧ t.theHead <+: file.content

/-- What holds of the reader. -/
structure Reading (lib : ManifestJson) (s : ManifestState) : Prop where
  fresh : s.followed = none → s.tail.theOffset = 0
  position : ∀ t, s.followed = some t → ∃ c, s.content t = some c ∧
    s.tail.theOffset ≤ c.length ∧ Whole newline (c.take s.tail.theOffset) ∧
    s.returnedOf t = recordsOf lib (c.take s.tail.theOffset)
  later : ∀ g, (∀ t, s.followed = some t → t < g) → s.returnedOf g = []
  returned : ∀ g c, s.content g = some c → s.returnedOf g <+: recordsOf lib c
  head : ∀ file ∈ s.file, 0 < s.tail.theOffset → s.followed = some s.removed.length →
    s.tail.theInode = file.inode ∧ s.tail.theHead <+: file.content

/-- Nothing was returned of a log that does not exist yet. -/
theorem Reading.nothing_yet (h : Reading lib s) (hg : s.content g = none) :
    s.returnedOf g = [] := by
  apply h.later
  intro t ht
  obtain ⟨c, hc, -⟩ := h.position t ht
  exact lt_of_content hc hg

/-- A log that grows keeps what the reader has returned of it. -/
theorem Reading.grow (h : Reading lib s) (hgrow : Grows s s' file) (htail : s'.tail = s.tail)
    (hfollowed : s'.followed = s.followed) (hreturned : s'.returned = s.returned) :
    Reading lib s' := by
  have hof : ∀ g, s'.returnedOf g = s.returnedOf g := by
    intro g
    unfold returnedOf
    rw [hreturned]
  refine ⟨?_, ?_, ?_, ?_, ?_⟩
  · rw [htail, hfollowed]
    exact h.fresh
  · intro t ht
    rw [hfollowed] at ht
    obtain ⟨c, hc, hoffset, hwhole, hread⟩ := h.position t ht
    obtain ⟨c', hc', hprefix⟩ := hgrow.exists_longer hc
    have htake : c'.take s.tail.theOffset = c.take s.tail.theOffset := by
      obtain ⟨w, rfl⟩ := hprefix
      exact List.take_append_of_le_length hoffset
    refine ⟨c', hc', ?_, ?_, ?_⟩
    · rw [htail]
      exact hoffset.trans hprefix.length_le
    · rwa [htail, htake]
    · rwa [htail, htake, hof]
  · intro g hg
    rw [hof]
    exact h.later g fun t ht => hg t (hfollowed.trans ht)
  · intro g c' hc'
    rw [hof]
    cases hc : s.content g with
    | none =>
      rw [h.nothing_yet hc]
      exact List.nil_prefix
    | some c =>
      obtain ⟨c₂, hc₂, w, rfl⟩ := hgrow.exists_longer hc
      rw [hc'] at hc₂
      cases hc₂
      exact (h.returned g c hc).trans (records_prefix_append _ _ _)
  · intro new hnew hpos hcur
    rw [hgrow.file] at hnew
    cases hnew
    rw [htail] at hpos ⊢
    rw [hfollowed, hgrow.removed] at hcur
    -- the reader is in a log that exists
    obtain ⟨c, hc, -⟩ := h.position _ hcur
    rw [ManifestState.content_length, Option.map_eq_some_iff] at hc
    obtain ⟨old, hold, -⟩ := hc
    obtain ⟨hinode, hhead⟩ := h.head old hold hpos hcur
    exact ⟨hinode.trans (hgrow.inode old hold), hhead.trans (hgrow.content old hold)⟩

/-- The log under the name is removed. -/
theorem Reading.remove (h : Reading lib s) (hfile : s.file = some file) :
    Reading lib { s with file := none, removed := s.removed ++ [file.content] } := by
  have hcontent : ∀ g, content { s with file := none, removed := s.removed ++ [file.content] } g =
      s.content g := by
    intro g
    simp [content, hfile]
  refine ⟨h.fresh, ?_, h.later, ?_, ?_⟩
  · intro t ht
    rw [hcontent]
    exact h.position t ht
  · intro g c hc
    rw [hcontent] at hc
    exact h.returned g c hc
  · intro new hnew
    cases hnew

/-- **The test for another file puts the reader into the log under the name.** -/
theorem Reading.tested (h : Reading lib s) (hfile : s.file = some file) (hrec : s.Recognizes) :
    s.followedOf file = some s.removed.length ∧ InLog lib s file (s.tailOf file) := by
  have hcontent : s.content s.removed.length = some file.content := by
    rw [ManifestState.content_length, hfile]
    rfl
  -- at the start of the log, nothing of it was returned
  have hstart : s.returnedOf s.removed.length = [] →
      ∀ t : Tail, t.theOffset = 0 → InLog lib s file t := by
    intro hnone t ht
    refine ⟨?_, ?_, ?_, ?_⟩
    · rw [ht]
      exact Nat.zero_le _
    · rw [ht]
      exact whole_nil
    · rw [hnone, ht]
      rfl
    · intro hpos
      rw [ht] at hpos
      exact absurd hpos (Nat.lt_irrefl 0)
  have hearlier : s.followed ≠ some s.removed.length → s.returnedOf s.removed.length = [] := by
    intro hne
    apply h.later
    intro t ht
    obtain ⟨c, hc, -⟩ := h.position t ht
    apply Nat.lt_of_le_of_ne (le_of_content hc)
    rintro rfl
    exact hne ht
  by_cases hzero : s.tail.theOffset = 0
  · have htail : (s.tailOf file).theOffset = 0 := by
      unfold tailOf
      split
      · rfl
      · exact hzero
    refine ⟨by rw [followedOf, if_pos htail], hstart ?_ _ htail⟩
    by_cases hcur : s.followed = some s.removed.length
    · obtain ⟨c, -, -, -, hread⟩ := h.position _ hcur
      rw [hread, hzero]
      rfl
    · exact hearlier hcur
  · have hpos : 0 < s.tail.theOffset := Nat.pos_of_ne_zero hzero
    by_cases hcur : s.followed = some s.removed.length
    · -- the log only grew since the reader was in it
      obtain ⟨c, hc, hoffset, hwhole, hread⟩ := h.position _ hcur
      rw [hcontent] at hc
      cases hc
      obtain ⟨hinode, hhead⟩ := h.head file hfile hpos hcur
      have hsame : s.tail.replaced file = false := by
        have hnot : ¬ file.content.length < s.tail.theOffset := Nat.not_lt.mpr hoffset
        have hbefore : s.tail.startsAsBefore file.content = true := by
          unfold Tail.startsAsBefore
          rw [List.isPrefixOf_iff_prefix.mpr hhead, Bool.or_true]
        simp [Tail.replaced, hinode, hnot, hbefore]
      have htail : s.tailOf file = s.tail := by
        rw [tailOf, hsame, if_neg Bool.false_ne_true]
      rw [followedOf, htail, if_neg hzero]
      exact ⟨hcur, hoffset, hwhole, hread, fun _ => ⟨hinode, hhead⟩⟩
    · have htail : s.tailOf file = { theInode := file.inode } := by
        rw [tailOf, if_pos (hrec file hfile hpos hcur)]
      refine ⟨?_, hstart (hearlier hcur) _ ?_⟩
      · rw [followedOf, htail, if_pos rfl]
      · rw [htail]

/-- The reader is in the log under the name, and returned no more of the other logs. -/
theorem InLog.reading (hin : InLog lib s' file s'.tail) (h : Reading lib s)
    (hremoved : s'.removed = s.removed) (hfile : s.file = some file) (hfile' : s'.file = some file)
    (hfollowed : s'.followed = some s.removed.length)
    (hothers : ∀ g, g ≠ s.removed.length → s'.returnedOf g = s.returnedOf g) : Reading lib s' := by
  have hcontent : s'.content = s.content := by
    funext g
    unfold content
    rw [hremoved, hfile, hfile']
  have hcur : s.content s.removed.length = some file.content := by
    rw [ManifestState.content_length, hfile]
    rfl
  have hread := hin.returned
  rw [hremoved] at hread
  refine ⟨?_, ?_, ?_, ?_, ?_⟩
  · intro hnone
    rw [hfollowed] at hnone
    cases hnone
  · intro t ht
    rw [hfollowed] at ht
    cases ht
    rw [hcontent]
    exact ⟨file.content, hcur, hin.offset, hin.whole, hread⟩
  · intro g hg
    have hlt := hg _ hfollowed
    rw [hothers g (Nat.ne_of_gt hlt)]
    apply h.later
    intro t ht
    obtain ⟨c, hc, -⟩ := h.position t ht
    exact Nat.lt_of_le_of_lt (le_of_content hc) hlt
  · intro g c hc
    rw [hcontent] at hc
    by_cases hg : g = s.removed.length
    · subst hg
      rw [hcur] at hc
      cases hc
      rw [hread]
      conv => rhs; rw [← List.take_append_drop s'.tail.theOffset file.content]
      exact records_prefix_append _ _ _
    · rw [hothers g hg]
      exact h.returned g c hc
  · intro new hnew hpos _
    rw [hfile'] at hnew
    cases hnew
    exact hin.head hpos

theorem prefix_piece (content : Text) (max_bytes : ℕ) : piece content max_bytes <+: content := by
  unfold piece
  split
  · exact List.nil_prefix
  · exact (prefix_wholePart _).trans (readPiece_spec _ _ _).1

theorem whole_piece (content : Text) (max_bytes : ℕ) :
    Whole newline (piece content max_bytes) := by
  unfold piece
  split
  · exact whole_nil
  · exact whole_wholePart _

/-- A piece that may be as long as the content has all of its records. -/
theorem recordsOf_piece {max_bytes : ℕ} (h : c.length ≤ max_bytes) :
    recordsOf lib (piece c max_bytes) = recordsOf lib c := by
  unfold piece
  split
  · next hc => rw [hc]
  · have hmin : min c.length (max max_bytes 1) = c.length := by omega
    have hpiece : ∀ want (hwant : 0 < want), want = c.length →
        readPiece newline c want hwant = c := by
      intro want hwant heq
      unfold readPiece
      rw [dif_pos (.inr (Nat.le_of_eq heq.symm)), heq, List.take_length]
    rw [hpiece _ _ hmin]
    unfold recordsOf records
    rw [lines_wholePart]

theorem prefix_headOf {buffer : Text} (hwhole : Whole newline buffer) (hne : buffer ≠ []) :
    headOf buffer <+: buffer := by
  have hmem : newline ∈ buffer := by
    rcases hwhole with hnil | hlast
    · exact absurd hnil hne
    · exact List.mem_of_getLast? hlast
  refine (List.take_prefix _ _).trans ?_
  conv => rhs; rw [← List.takeWhile_append_dropWhile (p := (· ≠ newline)) (l := buffer)]
  rw [List.prefix_append_right_inj]
  -- what follows the first line starts with its newline
  cases hdrop : buffer.dropWhile (· ≠ newline) with
  | nil =>
    have hall := List.dropWhile_eq_nil_iff.mp hdrop newline hmem
    simp at hall
  | cons d rest =>
    have hfirst := List.head?_dropWhile_not (· ≠ newline) buffer
    rw [hdrop] at hfirst
    have hd : d = newline := by simpa using hfirst
    rw [hd]
    exact List.prefix_append [newline] rest

theorem returnedOf_append (s : ManifestState) (cur g : ℕ) (rs : List Record) :
    returnedOf { s with returned := s.returned ++ rs.map fun r => (cur, r) } g =
      s.returnedOf g ++ if cur = g then rs else [] := by
  unfold returnedOf
  rw [List.filter_append, List.map_append]
  congr 1
  split
  · next h =>
    subst h
    rw [List.filter_eq_self.mpr (by simp), List.map_map]
    exact List.map_id rs
  · next h => simp [List.filter_eq_nil_iff, h]

/-- The reader after it took a piece. -/
theorem InLog.piece {t : Tail} (hin : InLog lib s file t) (max_bytes : ℕ)
    (hne : ManifestState.piece (file.content.drop t.theOffset) max_bytes ≠ []) :
    let buffer := ManifestState.piece (file.content.drop t.theOffset) max_bytes
    InLog lib { s with returned := s.returned ++
      (recordsOf lib buffer).map fun r => (s.removed.length, r) } file
      { theOffset := t.theOffset + buffer.length, theInode := file.inode,
        theHead := if t.theOffset = 0 then headOf buffer else t.theHead } := by
  intro buffer
  obtain ⟨rest, hrest⟩ := prefix_piece (file.content.drop t.theOffset) max_bytes
  have hcontent : file.content = file.content.take t.theOffset ++ (buffer ++ rest) := by
    conv => lhs; rw [← List.take_append_drop t.theOffset file.content, ← hrest]
  have hlen : (file.content.take t.theOffset).length = t.theOffset :=
    List.length_take_of_le hin.offset
  have htake : file.content.take (t.theOffset + buffer.length) =
      file.content.take t.theOffset ++ buffer := by
    conv => lhs; rw [hcontent, ← List.append_assoc]
    apply List.take_left'
    rw [List.length_append, hlen]
  refine ⟨?_, ?_, ?_, fun _ => ⟨rfl, ?_⟩⟩
  · have hall := congrArg List.length hcontent
    rw [List.length_append, List.length_append, hlen] at hall
    dsimp only
    omega
  · rw [htake]
    exact hin.whole.append (whole_piece _ _)
  · rw [returnedOf_append, if_pos rfl, hin.returned, htake, recordsOf_append hin.whole]
  · dsimp only
    split
    · next hzero =>
      have hat : file.content = buffer ++ rest := by
        conv => lhs; rw [hcontent, hzero, List.take_zero, List.nil_append]
      conv => rhs; rw [hat]
      exact (prefix_headOf (whole_piece _ _) hne).trans (List.prefix_append _ _)
    · next hpos => exact (hin.head (Nat.pos_of_ne_zero hpos)).2

/-- **A read.** -/
theorem Reading.readStep (h : Reading lib s) (hrec : s.Recognizes) {max_bytes : ℕ}
    {readable : Bool} (hstep : s.readStep lib max_bytes readable = some s') : Reading lib s' := by
  unfold ManifestState.readStep at hstep
  cases hfile : s.file with
  | none =>
    rw [hfile] at hstep
    cases hstep
    exact h
  | some file =>
    obtain ⟨hfollowed, hin⟩ := h.tested hfile hrec
    rw [hfile] at hstep
    dsimp only at hstep
    split at hstep
    · cases hstep
      exact InLog.reading ⟨hin.offset, hin.whole, hin.returned, hin.head⟩ h rfl hfile rfl
        hfollowed fun _ _ => rfl
    · next hsome =>
      cases hstep
      rw [Bool.or_eq_true, not_or, List.isEmpty_iff] at hsome
      have hinode : (s.tailOf file).theInode = file.inode := by
        unfold tailOf
        split
        · rfl
        · next hsame =>
          simp only [Tail.replaced, Bool.or_eq_true, not_or, decide_eq_true_eq] at hsame
          exact (not_not.mp hsame.1.1).symm
      have hnext := hin.piece max_bytes hsome.2
      rw [← hinode] at hnext
      refine InLog.reading ⟨hnext.offset, hnext.whole, hnext.returned, ?_⟩ h rfl hfile rfl
        hfollowed fun g hg => ?_
      · intro hpos
        exact ⟨hinode, (hnext.head hpos).2⟩
      · refine (returnedOf_append _ _ g _).trans ?_
        rw [if_neg (Ne.symm hg), List.append_nil]

/-- **A read that may take the whole log leaves none of its records out.** -/
theorem Reading.all_returned (h : Reading lib s) (hfile : s.file = some file)
    (hrec : s.Recognizes) {max_bytes : ℕ} (hmax : file.content.length ≤ max_bytes)
    (hstep : s.readStep lib max_bytes true = some s') :
    s'.returnedOf s.removed.length = recordsOf lib file.content := by
  obtain ⟨-, hin⟩ := h.tested hfile hrec
  unfold ManifestState.readStep at hstep
  rw [hfile] at hstep
  dsimp only at hstep
  have hlen : (file.content.drop (s.tailOf file).theOffset).length ≤ max_bytes := by
    rw [List.length_drop]
    omega
  have hrest : recordsOf lib file.content =
      recordsOf lib (file.content.take (s.tailOf file).theOffset) ++ recordsOf lib
        (ManifestState.piece (file.content.drop (s.tailOf file).theOffset) max_bytes) := by
    rw [recordsOf_piece hlen, ← recordsOf_append hin.whole, List.take_append_drop]
  split at hstep
  · next hnone =>
    cases hstep
    rw [Bool.not_true, Bool.false_or, List.isEmpty_iff] at hnone
    rw [hrest, hnone]
    exact hin.returned.trans (List.append_nil _).symm
  · cases hstep
    refine (returnedOf_append _ _ _ _).trans ?_
    rw [if_pos rfl, hrest, ← hin.returned]
    rfl

end ManifestState

end ChronoLog.Archive.ManifestLog
