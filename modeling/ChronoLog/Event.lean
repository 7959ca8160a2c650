import ChronoLog.Basic
import ChronoLog.Lib.SortedList

/-!
# Events and story chunks

## Main definitions

* `EventSequence` — the time, client and index that order an event within its
  story, with the lexicographic order of the source's `std::tuple`.
* `LogEvent` — an event as the recording path carries it.
* `StoryChunk` — the events of one story within `[startTime, endTime)`, kept in
  the order of their sequences.
-/

namespace ChronoLog

/-- What orders an event within its story: the time at which it was logged, the
client that produced it and that client's index. -/
structure EventSequence where
  time : UInt64
  clientId : UInt64
  index : UInt32
  deriving DecidableEq, Repr

namespace EventSequence

/-- The order of `std::tuple`. -/
instance : Ord EventSequence where
  compare := compareLex (compareOn EventSequence.time)
    (compareLex (compareOn EventSequence.clientId) (compareOn EventSequence.index))

instance : Std.TransOrd EventSequence :=
  inferInstanceAs (Std.TransCmp (compareLex (compareOn EventSequence.time)
    (compareLex (compareOn EventSequence.clientId) (compareOn EventSequence.index))))

instance : Std.LawfulEqOrd EventSequence where
  eq_of_compare {a b} h := by
    change compareLex _ _ a b = .eq at h
    simp only [compareLex, compareOn, Ordering.then_eq_eq] at h
    obtain ⟨ht, hc, hi⟩ := h
    cases a
    cases b
    simp only [EventSequence.mk.injEq]
    exact ⟨Std.LawfulEqOrd.eq_of_compare ht, Std.LawfulEqOrd.eq_of_compare hc,
      Std.LawfulEqOrd.eq_of_compare hi⟩

theorem time_le_of_lt {a b : EventSequence} (h : compare a b = .lt) :
    a.time.toNat ≤ b.time.toNat := by
  change compareLex _ _ a b = .lt at h
  simp only [compareLex, compareOn, Ordering.then_eq_lt] at h
  rcases h with hlt | ⟨heq, -⟩
  · exact Nat.le_of_lt (UInt64.lt_iff_toNat_lt.mp (Std.compare_eq_lt.mp hlt))
  · rw [Std.LawfulEqOrd.eq_of_compare heq]

end EventSequence

/-- An event on the recording path. -/
structure LogEvent where
  storyId : StoryId
  eventTime : UInt64
  clientId : UInt64
  eventIndex : UInt32
  logRecord : List UInt8
  deriving DecidableEq, Repr

namespace LogEvent

/-- The event's time. -/
def time (event : LogEvent) : ℕ := event.eventTime.toNat

/-- The sequence of the event within its story. -/
def sequence (event : LogEvent) : EventSequence :=
  ⟨event.eventTime, event.clientId, event.eventIndex⟩

@[simp] theorem time_sequence (event : LogEvent) :
    event.sequence.time.toNat = event.time := rfl

theorem time_eq_of_sequence_eq {e e' : LogEvent} (h : e.sequence = e'.sequence) :
    e.time = e'.time := by
  rw [← time_sequence, h, time_sequence]

end LogEvent

/-- All the events of one story for the time `[startTime, endTime)`.  Events enter
a chunk through `insertEvent` only, so each is stored under its own sequence,
belongs to the story and the interval, and carries a record. -/
structure StoryChunk where
  storyId : StoryId
  startTime : ℕ
  endTime : ℕ
  logEvents : OrdMap EventSequence LogEvent
  held : ∀ (sequence : EventSequence) (event : LogEvent),
    logEvents[sequence]? = some event → event.sequence = sequence ∧
    event.storyId = storyId ∧ startTime ≤ event.time ∧ event.time < endTime ∧
    event.logRecord ≠ []

namespace StoryChunk

/-- The constructor of the source: an empty interval becomes one of 5000 ticks. -/
def new (storyId : StoryId) (startTime endTime : ℕ) : StoryChunk where
  storyId := storyId
  startTime := startTime
  endTime := if endTime ≤ startTime then (startTime + 5000) % 2 ^ 64 else endTime
  logEvents := ∅
  held sequence event h := by simp at h

/-- The chunk's events, in the order of their sequences. -/
def events (chunk : StoryChunk) : List LogEvent := chunk.logEvents.toList.map Prod.snd

/-- `getEventCount`. -/
def getEventCount (chunk : StoryChunk) : ℕ := chunk.logEvents.size

/-- `empty`. -/
def empty (chunk : StoryChunk) : Bool := chunk.logEvents.isEmpty

/-- `firstEventTime`: the time of the oldest event, `0` if there is none. -/
def firstEventTime (chunk : StoryChunk) : ℕ := (chunk.events.head?.map LogEvent.time).getD 0

/-- `insertEvent` accepts the event. -/
def Accepts (chunk : StoryChunk) (event : LogEvent) : Prop :=
  event.storyId = chunk.storyId ∧ chunk.startTime ≤ event.time ∧ event.time < chunk.endTime ∧
    event.logRecord ≠ []

instance (chunk : StoryChunk) (event : LogEvent) : Decidable (chunk.Accepts event) :=
  inferInstanceAs (Decidable (_ ∧ _))

/-- The events from `lower_bound(start)` on that are older than `stop`. -/
def eventsFrom (chunk : StoryChunk) (start stop : ℕ) : List LogEvent :=
  (chunk.events.dropWhile fun e => e.time < start).takeWhile fun e => e.time < stop

/-- `insertEvent`, with the number of events it accepted.  An event whose
sequence the chunk already holds is accepted and left out. -/
def insertEvent (chunk : StoryChunk) (event : LogEvent) : StoryChunk × ℕ :=
  if h : chunk.Accepts event then
    ({ chunk with
        logEvents := chunk.logEvents.insertIfNew event.sequence event
        held := by
          intro sequence e he
          rw [Std.ExtTreeMap.getElem?_insertIfNew] at he
          split at he
          · next hif =>
            cases he
            exact ⟨Std.LawfulEqOrd.eq_of_compare hif.1, h⟩
          · exact chunk.held sequence e he }, 1)
  else (chunk, 0)

variable {chunk : StoryChunk} {event : LogEvent}

theorem mem_events :
    event ∈ chunk.events ↔ chunk.logEvents[event.sequence]? = some event := by
  unfold events
  constructor
  · intro h
    obtain ⟨⟨sequence, e⟩, hmem, rfl⟩ := List.mem_map.mp h
    have hget := Std.ExtTreeMap.mem_toList_iff_getElem?_eq_some.mp hmem
    rw [(chunk.held sequence e hget).1, hget]
  · intro h
    exact List.mem_map.mpr
      ⟨(event.sequence, event), Std.ExtTreeMap.mem_toList_iff_getElem?_eq_some.mpr h, rfl⟩

/-- The sequences of a chunk's events are the keys they are held under. -/
theorem map_sequence_events (chunk : StoryChunk) :
    chunk.events.map LogEvent.sequence = chunk.logEvents.keys := by
  rw [events, List.map_map, ← Std.ExtTreeMap.map_fst_toList_eq_keys]
  refine List.map_congr_left fun entry hentry => ?_
  exact (chunk.held _ _ (Std.ExtTreeMap.mem_toList_iff_getElem?_eq_some.mp hentry)).1

/-- The events of a chunk have different sequences. -/
theorem nodup_sequences (chunk : StoryChunk) : (chunk.events.map LogEvent.sequence).Nodup := by
  rw [map_sequence_events]
  exact Std.ExtTreeMap.nodup_keys

theorem length_events (chunk : StoryChunk) : chunk.events.length = chunk.getEventCount := by
  rw [events, List.length_map, Std.ExtTreeMap.length_toList, getEventCount]

/-- The chunk holds an event of the sequence. -/
theorem contains_of_mem (h : event ∈ chunk.events) :
    chunk.logEvents.contains event.sequence = true := by
  rw [Std.ExtTreeMap.contains_eq_isSome_getElem?, mem_events.mp h, Option.isSome_some]

theorem time_lt_endTime_of_mem (h : event ∈ chunk.events) : event.time < chunk.endTime :=
  (chunk.held _ _ (mem_events.mp h)).2.2.2.1

@[simp] theorem events_new (storyId : StoryId) (startTime endTime : ℕ) :
    (new storyId startTime endTime).events = [] := by
  simp [events, new]

theorem empty_eq_false_of_mem (h : event ∈ chunk.events) : chunk.empty = false := by
  have hget := mem_events.mp h
  have hne : chunk.logEvents ≠ ∅ := by
    intro hempty
    rw [hempty] at hget
    simp at hget
  simpa [empty] using hne

/-- The events are in the order of their times. -/
theorem pairwise_time_le_events : chunk.events.Pairwise fun a b => a.time ≤ b.time := by
  have hsorted : chunk.logEvents.toList.Pairwise fun a b => compare a.1 b.1 = .lt :=
    Std.ExtTreeMap.ordered_keys_toList
  unfold events
  rw [List.pairwise_map]
  refine hsorted.imp_of_mem ?_
  rintro ⟨s, e⟩ ⟨s', e'⟩ hmem hmem' hlt
  have hs := (chunk.held s e (Std.ExtTreeMap.mem_toList_iff_getElem?_eq_some.mp hmem)).1
  have hs' := (chunk.held s' e' (Std.ExtTreeMap.mem_toList_iff_getElem?_eq_some.mp hmem')).1
  subst hs hs'
  exact EventSequence.time_le_of_lt hlt

theorem firstEventTime_le_of_mem (h : event ∈ chunk.events) :
    chunk.firstEventTime ≤ event.time := by
  have hsorted := chunk.pairwise_time_le_events
  unfold firstEventTime
  cases hev : chunk.events with
  | nil =>
    rw [hev] at h
    cases h
  | cons e es =>
    rw [hev] at h hsorted
    simp only [List.head?_cons, Option.map_some, Option.getD_some]
    rcases List.mem_cons.mp h with rfl | h
    · exact Nat.le_refl _
    · exact (List.pairwise_cons.mp hsorted).1 event h

/-- The first event time is the time of an event. -/
theorem exists_mem_firstEventTime (h : chunk.empty = false) :
    ∃ e ∈ chunk.events, e.time = chunk.firstEventTime := by
  unfold firstEventTime
  cases hev : chunk.events with
  | nil =>
    have hnil : chunk.logEvents.toList = [] := List.map_eq_nil_iff.mp hev
    rw [Std.ExtTreeMap.toList_eq_nil_iff] at hnil
    simp [empty, hnil] at h
  | cons e es => exact ⟨e, List.mem_cons_self, rfl⟩

/-- The scan of a time range finds exactly the chunk's events in the range. -/
theorem mem_eventsFrom {start stop : ℕ} :
    event ∈ chunk.eventsFrom start stop ↔
      event ∈ chunk.events ∧ start ≤ event.time ∧ event.time < stop := by
  unfold eventsFrom
  have hsorted := chunk.pairwise_time_le_events
  rw [SortedList.mem_takeWhile_lt LogEvent.time (SortedList.pairwise_dropWhile hsorted _),
    SortedList.mem_dropWhile_lt LogEvent.time hsorted, and_assoc]

theorem insertEvent_of_accepts (h : chunk.Accepts event) :
    (chunk.insertEvent event).2 = 1 ∧
      (chunk.insertEvent event).1.logEvents =
        chunk.logEvents.insertIfNew event.sequence event := by
  unfold insertEvent
  rw [dif_pos h]
  exact ⟨rfl, rfl⟩

@[simp] theorem insertEvent_interval (chunk : StoryChunk) (event : LogEvent) :
    (chunk.insertEvent event).1.storyId = chunk.storyId ∧
      (chunk.insertEvent event).1.startTime = chunk.startTime ∧
      (chunk.insertEvent event).1.endTime = chunk.endTime := by
  unfold insertEvent
  split <;> exact ⟨rfl, rfl, rfl⟩

/-- An event stays in the chunk when another is inserted. -/
theorem mem_events_insertEvent_of_mem {e : LogEvent} (h : e ∈ chunk.events) :
    e ∈ (chunk.insertEvent event).1.events := by
  by_cases ha : chunk.Accepts event
  · rw [mem_events, (insertEvent_of_accepts ha).2, Std.ExtTreeMap.getElem?_insertIfNew, if_neg]
    · exact mem_events.mp h
    · rintro ⟨heq, hnot⟩
      have hseq : event.sequence = e.sequence := Std.LawfulEqOrd.eq_of_compare heq
      rw [hseq, Std.ExtTreeMap.mem_iff_isSome_getElem?, mem_events.mp h] at hnot
      exact hnot rfl
  · unfold insertEvent
    rw [dif_neg ha]
    exact h

/-- After an accepted insertion the chunk holds the sequence. -/
theorem exists_mem_events_insertEvent (h : chunk.Accepts event) :
    ∃ e ∈ (chunk.insertEvent event).1.events, e.sequence = event.sequence := by
  cases hget : chunk.logEvents[event.sequence]? with
  | none =>
    refine ⟨event, ?_, rfl⟩
    rw [mem_events, (insertEvent_of_accepts h).2, Std.ExtTreeMap.getElem?_insertIfNew, if_pos]
    exact ⟨Std.ReflCmp.compare_self, by simp [Std.ExtTreeMap.mem_iff_isSome_getElem?, hget]⟩
  | some e =>
    have hseq := (chunk.held _ _ hget).1
    refine ⟨e, mem_events_insertEvent_of_mem ?_, hseq⟩
    rw [mem_events, hseq, hget]

end StoryChunk

end ChronoLog
