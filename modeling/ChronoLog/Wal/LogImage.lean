import ChronoLog.Wal.Frames
import ChronoLog.Wal.Recovery

/-!
# What recovery makes of a log

The bytes that the groups of a log leave in its segments, and what `readSegment`
makes of them: the records are replayed in log order, up to the first bytes that
are no frame.

## Main definitions

* `LogRecord`, `LoggedRecord` — a record of a group, and its frame.
* `LoggedGroup`, `LoggedSegment` — a group behind its G record, and a segment of
  groups behind its H record.

## Main results

* `applyRecord_logged` — a record does to the state what it says.
* `readSegment_framed` — what is read of a segment that holds a header and records.
-/

namespace ChronoLog

open Wal

/-! ### Records and groups -/

/-- A record that the committer writes into a group. -/
inductive LogRecord where
  | names (names : NamesRecord)
  | event (event : LogEvent)
  | dropped (storyId : StoryId)

/-- The body of the record's frame. -/
def LogRecord.HasBody (body : Bytes) : LogRecord → Prop
  | .names record => body = record.body
  | .event record => ∃ parts, encodeLogEvent record [] = some parts ∧
      body = RecordType.Event.byte :: (parts.head ++ parts.record ++ parts.tail)
  | .dropped storyId => body = droppedBody storyId

/-- A record with the body it is written as. -/
structure LoggedRecord where
  record : LogRecord
  body : Bytes
  hasBody : record.HasBody body
  fits : body.length ≤ kMaxBodyBytes

namespace LoggedRecord

/-- What the replay of the record does. -/
def apply (segment : ℕ) (state : RecoveredState) (logged : LoggedRecord) : RecoveredState :=
  match logged.record with
  | .names names => state.applyNames names
  | .event event => state.applyEvent segment event (kFrameHeaderBytes + logged.body.length)
  | .dropped storyId => state.applyDropped segment storyId

theorem sized (logged : LoggedRecord) : WellSized logged.body := by
  refine ⟨?_, logged.fits⟩
  have hbody := logged.hasBody
  rcases hrecord : logged.record with names | event | storyId <;> rw [hrecord] at hbody
  · rw [show logged.body = names.body from hbody]
    exact Nat.succ_pos _
  · obtain ⟨parts, -, heq⟩ := hbody
    rw [heq]
    exact Nat.succ_pos _
  · rw [show logged.body = droppedBody storyId from hbody]
    exact Nat.succ_pos _

end LoggedRecord

/-- A group of records behind its G record.  What a recovery keeps of a torn group is
shorter than the G record says. -/
structure LoggedGroup where
  records : List LoggedRecord
  /-- The size in the G record. -/
  size : ℕ
  size_lt : size < 256 ^ 8
  length_le : kGroupFrameBytes + (framed (records.map LoggedRecord.body)).length ≤ size

namespace LoggedGroup

/-- The bodies of the group's frames. -/
def bodies (group : LoggedGroup) : List Bytes :=
  groupBody group.size :: group.records.map LoggedRecord.body

/-- The group is as long as its G record says. -/
def Whole (group : LoggedGroup) : Prop :=
  group.size = kGroupFrameBytes + (framed (group.records.map LoggedRecord.body)).length

/-- What the replay of the group does. -/
def apply (segment : ℕ) (state : RecoveredState) (group : LoggedGroup) : RecoveredState :=
  group.records.foldl (LoggedRecord.apply segment) state

end LoggedGroup

theorem LoggedGroup.sized (group : LoggedGroup) : ∀ body ∈ group.bodies, WellSized body := by
  intro body hbody
  rcases List.mem_cons.mp hbody with rfl | hbody
  · exact sized_groupBody _
  · obtain ⟨logged, -, rfl⟩ := List.mem_map.mp hbody
    exact logged.sized

theorem LoggedGroup.length_framed (group : LoggedGroup) :
    (framed group.bodies).length =
      kGroupFrameBytes + (framed (group.records.map LoggedRecord.body)).length := by
  simp only [bodies, framed_cons, List.length_append, length_frame, groupBody,
    List.length_cons, length_putLittleEndian, kGroupFrameBytes]

/-! ### Replay -/

theorem ScannedRecord.type_cons (pos : ℕ) (b : UInt8) (rest : Bytes) :
    ScannedRecord.type ⟨pos, b :: rest⟩ = b := rfl

theorem applyRecord_names (pos segment : ℕ) (state : RecoveredState) {names : NamesRecord}
    (h : names.body.length ≤ kMaxBodyBytes) :
    applyRecord ⟨pos, names.body⟩ segment state = .ok (state.applyNames names) := by
  have hlength : names.body.length =
      1 + (8 + ((4 + names.chronicle.length) + (4 + names.story.length))) := by
    simp only [NamesRecord.body, putString, List.length_cons, List.length_append,
      length_putLittleEndian]
    omega
  rw [hlength, kMaxBodyBytes] at h
  have hdecode : decodeNames names.body = some names := decodeNames_body (by omega) (by omega)
  have htype : ScannedRecord.type ⟨pos, names.body⟩ = RecordType.Names.byte := rfl
  simp only [applyRecord, htype, hdecode, if_true]

theorem applyRecord_event (pos segment : ℕ) (state : RecoveredState) {event : LogEvent}
    {parts : EncodedEventParts} (h : encodeLogEvent event [] = some parts) :
    applyRecord ⟨pos, RecordType.Event.byte :: (parts.head ++ parts.record ++ parts.tail)⟩
      segment state = .ok (state.applyEvent segment event (kFrameHeaderBytes +
        (RecordType.Event.byte :: (parts.head ++ parts.record ++ parts.tail)).length)) := by
  have hdecode := decodeLogEvent_encodeLogEvent h []
  rw [List.append_nil] at hdecode
  have hne : ¬RecordType.Event.byte = RecordType.Names.byte := by decide
  simp only [applyRecord, ScannedRecord.type_cons, hne, List.drop_one, List.tail_cons, hdecode,
    if_true, if_false]

theorem applyRecord_dropped (pos segment : ℕ) (state : RecoveredState) (storyId : StoryId) :
    applyRecord ⟨pos, droppedBody storyId⟩ segment state =
      .ok (state.applyDropped segment storyId) := by
  have htype : ScannedRecord.type ⟨pos, droppedBody storyId⟩ = RecordType.Dropped.byte := rfl
  have hnames : ¬RecordType.Dropped.byte = RecordType.Names.byte := by decide
  have hevent : ¬RecordType.Dropped.byte = RecordType.Event.byte := by decide
  simp only [applyRecord, htype, hnames, hevent, decodeDropped_body, if_true, if_false]

theorem applyRecord_group (pos segment : ℕ) (state : RecoveredState) {bytes : ℕ}
    (hlt : bytes < 256 ^ 8) (hle : kGroupFrameBytes ≤ bytes) :
    applyRecord ⟨pos, groupBody bytes⟩ segment state = .ok state := by
  have htype : ScannedRecord.type ⟨pos, groupBody bytes⟩ = RecordType.Group.byte := rfl
  have hnames : ¬RecordType.Group.byte = RecordType.Names.byte := by decide
  have hevent : ¬RecordType.Group.byte = RecordType.Event.byte := by decide
  have hdropped : ¬RecordType.Group.byte = RecordType.Dropped.byte := by decide
  simp only [applyRecord, htype, hnames, hevent, hdropped, decodeGroup_body hlt,
    Nat.not_lt.mpr hle, if_true, if_false]

/-- **A record does to the state what it says.** -/
theorem applyRecord_logged (pos segment : ℕ) (state : RecoveredState) (logged : LoggedRecord) :
    applyRecord ⟨pos, logged.body⟩ segment state = .ok (logged.apply segment state) := by
  have hbody := logged.hasBody
  have hfits := logged.fits
  rcases hrecord : logged.record with names | event | storyId <;>
    simp only [LoggedRecord.apply, hrecord] <;> rw [hrecord] at hbody
  · rw [show logged.body = names.body from hbody] at hfits ⊢
    exact applyRecord_names pos segment state hfits
  · obtain ⟨parts, hparts, heq⟩ := hbody
    rw [heq]
    exact applyRecord_event pos segment state hparts
  · rw [show logged.body = droppedBody storyId from hbody]
    exact applyRecord_dropped pos segment state storyId

theorem applyRecords_append (segment : ℕ) (records records' : List ScannedRecord)
    (state : RecoveredState) :
    applyRecords segment (records ++ records') state =
      (applyRecords segment records state).bind (applyRecords segment records') := by
  induction records generalizing state with
  | nil => rfl
  | cons record records ih =>
    simp only [List.cons_append, applyRecords]
    cases applyRecord record segment state with
    | error err => rfl
    | ok state' => exact ih state'

theorem applyRecords_logged (segment pos : ℕ) (records : List LoggedRecord)
    (state : RecoveredState) :
    applyRecords segment (scannedFrom pos (records.map LoggedRecord.body)) state =
      .ok (records.foldl (LoggedRecord.apply segment) state) := by
  induction records generalizing pos state with
  | nil => rfl
  | cons logged records ih =>
    simp only [List.map_cons, scannedFrom, applyRecords, applyRecord_logged]
    exact ih _ _

theorem LoggedGroup.le_size (group : LoggedGroup) : kGroupFrameBytes ≤ group.size :=
  le_trans (Nat.le_add_right _ _) group.length_le

/-- The records of a group that has begun. -/
theorem applyRecords_begun (segment pos : ℕ) (group : LoggedGroup) (records : List LoggedRecord)
    (state : RecoveredState) :
    applyRecords segment
      (scannedFrom pos (groupBody group.size :: records.map LoggedRecord.body)) state =
      .ok (records.foldl (LoggedRecord.apply segment) state) := by
  simp only [scannedFrom, applyRecords,
    applyRecord_group pos segment state group.size_lt group.le_size]
  exact applyRecords_logged segment _ records state

/-- The bodies of several groups. -/
def groupBodies (groups : List LoggedGroup) : List Bytes := groups.flatMap LoggedGroup.bodies

theorem applyRecords_groups (segment pos : ℕ) (groups : List LoggedGroup)
    (state : RecoveredState) :
    applyRecords segment (scannedFrom pos (groupBodies groups)) state =
      .ok (groups.foldl (LoggedGroup.apply segment) state) := by
  induction groups generalizing pos state with
  | nil => rfl
  | cons group groups ih =>
    rw [groupBodies, List.flatMap_cons, scannedFrom_append, applyRecords_append]
    rw [LoggedGroup.bodies, applyRecords_begun]
    exact ih _ _

theorem sized_groupBodies (groups : List LoggedGroup) :
    ∀ body ∈ groupBodies groups, WellSized body := by
  intro body hbody
  obtain ⟨group, -, hbody⟩ := List.mem_flatMap.mp hbody
  exact group.sized body hbody

/-! ### The last group -/

theorem groupEndOf_logged (pos : ℕ) (logged : LoggedRecord) :
    groupEndOf ⟨pos, logged.body⟩ = none := by
  have hbody := logged.hasBody
  have hne : ScannedRecord.type ⟨pos, logged.body⟩ ≠ RecordType.Group.byte := by
    rcases hrecord : logged.record with names | event | storyId <;> rw [hrecord] at hbody
    · rw [show logged.body = names.body from hbody, NamesRecord.body, ScannedRecord.type_cons]
      decide
    · obtain ⟨parts, -, heq⟩ := hbody
      rw [heq, ScannedRecord.type_cons]
      decide
    · rw [show logged.body = droppedBody storyId from hbody, droppedBody, ScannedRecord.type_cons]
      decide
  rw [groupEndOf, if_neg hne]

theorem groupEndOf_group (pos : ℕ) {bytes : ℕ} (h : bytes < 256 ^ 8) :
    groupEndOf ⟨pos, groupBody bytes⟩ = some (pos + bytes) := by
  have htype : ScannedRecord.type ⟨pos, groupBody bytes⟩ = RecordType.Group.byte := rfl
  rw [groupEndOf, if_pos htype, decodeGroup_body h, Option.map_some]

theorem lastGroupEnd_append (records records' : List ScannedRecord) :
    lastGroupEnd (records ++ records') = (lastGroupEnd records').or (lastGroupEnd records) := by
  rw [lastGroupEnd, List.reverse_append, List.findSome?_append]
  rfl

theorem lastGroupEnd_logged (pos : ℕ) (records : List LoggedRecord) :
    lastGroupEnd (scannedFrom pos (records.map LoggedRecord.body)) = none := by
  induction records generalizing pos with
  | nil => rfl
  | cons logged records ih =>
    rw [List.map_cons, scannedFrom, ← List.singleton_append, lastGroupEnd_append, ih]
    simp [lastGroupEnd, groupEndOf_logged]

/-- The last group is the one that has begun. -/
theorem lastGroupEnd_begun (pos : ℕ) (group : LoggedGroup) (records : List LoggedRecord) :
    lastGroupEnd (scannedFrom pos (groupBody group.size :: records.map LoggedRecord.body)) =
      some (pos + group.size) := by
  rw [scannedFrom, ← List.singleton_append, lastGroupEnd_append, lastGroupEnd_logged]
  simp [lastGroupEnd, groupEndOf_group pos group.size_lt]

theorem groupBodies_concat (groups : List LoggedGroup) (last : LoggedGroup) :
    groupBodies (groups ++ [last]) = groupBodies groups ++ last.bodies := by
  simp only [groupBodies, List.flatMap_append, List.flatMap_cons, List.flatMap_nil,
    List.append_nil]

/-- Whole groups end where their last one does. -/
theorem lastGroupEnd_groups (pos : ℕ) (groups : List LoggedGroup)
    (hwhole : ∀ group ∈ groups, group.Whole) :
    lastGroupEnd (scannedFrom pos (groupBodies groups)) = none ∧ groups = [] ∨
      lastGroupEnd (scannedFrom pos (groupBodies groups)) =
        some (pos + (framed (groupBodies groups)).length) := by
  rcases List.eq_nil_or_concat' groups with rfl | ⟨before, last, rfl⟩
  · exact .inl ⟨rfl, rfl⟩
  · right
    have hlast : last.Whole := hwhole last (by simp)
    have hbodies : last.bodies = groupBody last.size :: last.records.map LoggedRecord.body := rfl
    rw [groupBodies_concat, scannedFrom_append, lastGroupEnd_append, hbodies, lastGroupEnd_begun,
      Option.some_or, ← hbodies, framed_append, List.length_append, last.length_framed, ← hlast,
      Nat.add_assoc]

/-! ### Segments -/

/-- A segment with the groups written to it. -/
structure LoggedSegment where
  number : ℕ
  createdNs : ℕ
  keeperEndpoint : Bytes
  number_lt : number < 256 ^ 8
  createdNs_lt : createdNs < 256 ^ 8
  endpoint_fits : keeperEndpoint.length + 28 ≤ kMaxBodyBytes
  groups : List LoggedGroup
  /-- The zeros after them. -/
  free : ℕ

namespace LoggedSegment

/-- The H record. -/
def header (segment : LoggedSegment) : HeaderRecord :=
  ⟨kFormatVersion, segment.number, segment.createdNs, segment.keeperEndpoint⟩

/-- The bytes up to the end of the last group. -/
def written (segment : LoggedSegment) : Bytes :=
  framed (segment.header.body :: groupBodies segment.groups)

/-- The file of a segment that is zero past its last group. -/
def file (segment : LoggedSegment) : ℕ × Bytes :=
  (segment.number, segment.written ++ List.replicate segment.free 0)

/-- What the replay of the segment does. -/
def apply (state : RecoveredState) (segment : LoggedSegment) : RecoveredState :=
  segment.groups.foldl (LoggedGroup.apply segment.number) state

theorem sized_header (segment : LoggedSegment) : WellSized segment.header.body := by
  have hlength : segment.header.body.length = segment.keeperEndpoint.length + 28 := by
    simp only [header, HeaderRecord.body, putString, kMagic, List.length_cons, List.length_append,
      length_putLittleEndian, List.length_nil]
    omega
  exact ⟨by rw [hlength]; omega, by rw [hlength]; exact segment.endpoint_fits⟩

theorem decodeHeader_header (segment : LoggedSegment) :
    decodeHeader segment.header.body = (kFormatVersion, some segment.header) := by
  have hfits := segment.endpoint_fits
  simp only [kMaxBodyBytes] at hfits
  refine decodeHeader_body rfl segment.number_lt segment.createdNs_lt ?_
  show segment.keeperEndpoint.length < 256 ^ 4
  omega

end LoggedSegment

/-- **What is read of a segment that holds its header and records**, with bytes that are
no frame after them. -/
theorem readSegment_framed (segment : LoggedSegment) {bodies : List Bytes} {rest : Bytes}
    (hsized : ∀ body ∈ bodies, WellSized body) (hrest : NoFrame rest) (state : RecoveredState) :
    readSegment segment.number (framed (segment.header.body :: bodies) ++ rest) state =
      (applyRecords segment.number
        (scannedFrom (kFrameHeaderBytes + segment.header.body.length) bodies)
        { state with bytesRead := state.bytesRead +
          (framed (segment.header.body :: bodies) ++ rest).length }).map fun state =>
        (state, segmentEnd segment.number (framed (segment.header.body :: bodies) ++ rest)
          ⟨0, segment.header.body⟩
          (scannedFrom (kFrameHeaderBytes + segment.header.body.length) bodies)
          (framed (segment.header.body :: bodies)).length (readFrame rest).reason) := by
  have hall : ∀ body ∈ segment.header.body :: bodies, WellSized body := by
    intro body hbody
    rcases List.mem_cons.mp hbody with rfl | hbody
    · exact segment.sized_header
    · exact hsized body hbody
  have htype : ScannedRecord.type ⟨0, segment.header.body⟩ = RecordType.Header.byte := rfl
  have hnumber : segment.header.segmentNumber = segment.number := rfl
  simp only [readSegment, scanSegment_framed hall hrest, scannedFrom, htype, ne_eq,
    not_true_eq_false, if_false, segment.decodeHeader_header, hnumber, Nat.zero_add]
  cases applyRecords segment.number
    (scannedFrom (kFrameHeaderBytes + segment.header.body.length) bodies)
    { state with bytesRead := state.bytesRead +
      (framed (segment.header.body :: bodies) ++ rest).length } with
  | error err => rfl
  | ok state' => rfl

end ChronoLog
