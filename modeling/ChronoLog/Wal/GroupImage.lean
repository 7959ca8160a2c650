import ChronoLog.Wal.DurableWriter
import ChronoLog.Wal.Frames

/-!
# The bytes of a group

What a scan of the bytes that the committer writes for a group finds: its E records,
each with the event it was encoded from.

## Main definitions

* `Wal.eventsIn` — the events of the E records in a range of a segment.
* `Queued.Encoded` — the frames of a queued record are those of an event.

## Main results

* `length_group` — a group is as long as its G record says.
* `eventsIn_group` — its bytes hold its E records and no others.
-/

namespace ChronoLog

namespace Wal

/-- The event of an E record. -/
def bodyEvent? (body : Bytes) : Option LogEvent :=
  (takeType .Event body).bind fun data => ((decodeLogEvent data).toOption).map Prod.fst

/-- The events of the E records that a scan finds. -/
def eventsIn (bytes : Bytes) : List LogEvent :=
  (scanSegment bytes).records.filterMap fun record => bodyEvent? record.body

theorem bodyEvent?_event {event : LogEvent} {parts : EncodedEventParts}
    (h : encodeLogEvent event [] = some parts) :
    bodyEvent? (RecordType.Event.byte :: (parts.head ++ parts.record ++ parts.tail)) =
      some event := by
  have hdecode := decodeLogEvent_encodeLogEvent h []
  rw [List.append_nil] at hdecode
  rw [bodyEvent?, takeType_byte, Option.bind_some, hdecode]
  rfl

theorem bodyEvent?_of_ne {type : UInt8} (h : type ≠ RecordType.Event.byte) (rest : Bytes) :
    bodyEvent? (type :: rest) = none := by
  rw [bodyEvent?, takeType, if_neg h, Option.bind_none]

theorem filterMap_scannedFrom (pos : ℕ) (bodies : List Bytes) :
    (scannedFrom pos bodies).filterMap (fun record => bodyEvent? record.body) =
      bodies.filterMap bodyEvent? := by
  induction bodies generalizing pos with
  | nil => rfl
  | cons body bodies ih => simp only [scannedFrom, List.filterMap_cons, ih]

/-- The events of frames are those of their bodies. -/
theorem eventsIn_framed {bodies : List Bytes} (hsized : ∀ body ∈ bodies, WellSized body) :
    eventsIn (framed bodies) = bodies.filterMap bodyEvent? := by
  have hend : NoFrame [] := noFrame_of_length (Nat.zero_le _)
  have hscan := scanSegment_framed hsized hend
  rw [List.append_nil] at hscan
  rw [eventsIn, hscan]
  exact filterMap_scannedFrom 0 bodies

end Wal

open Wal

/-- The frames of a queued E record are those of an event with its identity, and of the
names of that event's story. -/
def Queued.Encoded : Queued → Prop
  | .event record => ∃ event chronicle story, encodeEvent event [] = some record.frame ∧
      Identity.ofEvent event = record.identity ∧
      encodeNames ⟨event.storyId, chronicle, story⟩ = some record.namesFrame
  | .drop _ => True

/-- The events are those that the records were encoded from, in the same order. -/
def EventsOf (events : List LogEvent) (records : List QueuedEvent) : Prop :=
  List.Forall₂ (fun event record => encodeEvent event [] = some record.frame ∧
    Identity.ofEvent event = record.identity) events records

theorem encodeNames_eq_some {names : NamesRecord} {bytes : Bytes}
    (h : encodeNames names = some bytes) : bytes = frame names.body ∧ WellSized names.body := by
  rw [encodeNames, finish] at h
  split at h
  · cases h
  · rename_i hsize
    exact ⟨(Option.some.inj h).symm, Nat.succ_pos _, Nat.not_lt.mp hsize⟩

namespace KeeperWal

/-- The bytes are frames that hold these records' events. -/
def Frames (bytes : Bytes) (records : List QueuedEvent) : Prop :=
  ∃ bodies, (∀ body ∈ bodies, WellSized body) ∧ bytes = framed bodies ∧
    EventsOf (bodies.filterMap bodyEvent?) records

theorem Frames.nil : Frames [] [] := ⟨[], by simp, rfl, .nil⟩

/-- A frame of another kind before them. -/
theorem Frames.cons_other {bytes body : Bytes} {records : List QueuedEvent}
    (h : Frames bytes records) (hsized : WellSized body) (hbody : bodyEvent? body = none) :
    Frames (frame body ++ bytes) records := by
  obtain ⟨bodies, hall, rfl, hevents⟩ := h
  refine ⟨body :: bodies, ?_, rfl, ?_⟩
  · rintro b hb
    rcases List.mem_cons.mp hb with rfl | hb
    · exact hsized
    · exact hall b hb
  · rwa [List.filterMap_cons, hbody]

/-- The frame of an event before them. -/
theorem Frames.cons_event {bytes : Bytes} {records : List QueuedEvent}
    (h : Frames bytes records) {record : QueuedEvent} {event : LogEvent}
    (hframe : encodeEvent event [] = some record.frame)
    (hidentity : Identity.ofEvent event = record.identity) :
    Frames (record.frame.bytes ++ bytes) (record :: records) := by
  obtain ⟨bodies, hall, rfl, hevents⟩ := h
  obtain ⟨parts, hparts, hbytes, hsized⟩ := eventFrame_bytes hframe
  rw [hbytes]
  refine ⟨_ :: bodies, ?_, rfl, ?_⟩
  · intro b hb
    rcases List.mem_cons.mp hb with rfl | hb
    · exact hsized
    · exact hall b hb
  · rw [List.filterMap_cons, bodyEvent?_event hparts]
    exact .cons ⟨hframe, hidentity⟩ hevents

/-- The frames of a group hold the events of its E records. -/
theorem frames_groupFrames (named : OrdSet StoryId) {group : List Queued}
    (h : ∀ entry ∈ group, entry.Encoded) :
    Frames (groupFrames named group).1 (eventsOf group) := by
  induction group generalizing named with
  | nil => exact .nil
  | cons entry group ih =>
    have hrest := fun entry' hentry => h entry' (List.mem_cons_of_mem _ hentry)
    have hentry := h entry List.mem_cons_self
    cases entry with
    | drop storyId =>
      refine (ih named hrest).cons_other (sized_droppedBody storyId) ?_
      exact bodyEvent?_of_ne (by decide) _
    | event record =>
      obtain ⟨event, chronicle, story, hframe, hidentity, hnames⟩ := hentry
      have hevents : eventsOf (.event record :: group) = record :: eventsOf group := rfl
      rw [groupFrames, hevents]
      split
      · -- the story was named in this segment
        exact (ih named hrest).cons_event hframe hidentity
      · -- its names frame comes first, and holds no event
        obtain ⟨hbytes, hsized⟩ := encodeNames_eq_some hnames
        rw [hbytes]
        refine Frames.cons_other ?_ hsized (bodyEvent?_of_ne (by decide) _)
        exact (ih _ hrest).cons_event hframe hidentity

/-- **The bytes of a group hold its E records**, in its order, and no others. -/
theorem eventsIn_group (bytes : ℕ) (named : OrdSet StoryId) {group : List Queued}
    (h : ∀ entry ∈ group, entry.Encoded) :
    EventsOf (eventsIn (encodeGroup bytes ++ (groupFrames named group).1)) (eventsOf group) := by
  -- the G record comes first, and holds no event
  obtain ⟨bodies, hsized, heq, hevents⟩ := (frames_groupFrames named h).cons_other
    (sized_groupBody bytes) (bodyEvent?_of_ne (by decide) _)
  rw [encodeGroup, heq, eventsIn_framed hsized]
  exact hevents

/-- The frames of a group are as long as its records and names frames together. -/
theorem length_groupFrames (named : OrdSet StoryId) (group : List Queued) :
    (groupFrames named group).1.length =
      (group.map Queued.bytes).sum + ((namesToWrite named group).1.map List.length).sum := by
  induction group generalizing named with
  | nil => rfl
  | cons entry group ih =>
    cases entry with
    | drop storyId =>
      simp only [groupFrames, namesToWrite, Queued.bytes, List.length_append, ih, List.map_cons,
        List.sum_cons]
      omega
    | event record =>
      simp only [groupFrames, namesToWrite, List.map_cons, List.sum_cons, Queued.bytes]
      split
      · simp only [List.length_append, EventFrame.length_bytes, ih]
        omega
      · simp only [List.length_append, EventFrame.length_bytes, ih, List.map_cons, List.sum_cons]
        omega

/-- **A group is as long as its G record says.** -/
theorem length_group (bytes : ℕ) (group : List Queued) (named : OrdSet StoryId) :
    (encodeGroup bytes ++ (groupFrames named group).1).length = groupBytes group named := by
  have hgroup : (encodeGroup bytes).length = kGroupFrameBytes := by
    simp only [encodeGroup, length_frame, groupBody, List.length_cons, length_putLittleEndian,
      kGroupFrameBytes]
  rw [List.length_append, hgroup, length_groupFrames, groupBytes, Nat.add_assoc]

end KeeperWal

end ChronoLog
