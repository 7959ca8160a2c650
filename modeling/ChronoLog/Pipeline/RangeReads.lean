import ChronoLog.Pipeline.Decay
import ChronoLog.Pipeline.GrapherWindows

/-!
# Ranges read and erased

A chunk and a timeline are read, and a chunk is erased, by a range of times.  The range is
turned into positions among the chunk's events with the sequences `{t, 0, 0}`: its start with
`lower_bound`, its end with `upper_bound`, which passes over an event of that very sequence.
A start of `0` is taken for none, and nothing is read or erased.

## Main definitions

* `StoryChunk.copyToEventSeries`, `StoryChunk.eraseEvents`,
  `StoryPipeline.copyToEventSeries` — the three functions of the source.
* `ReadsRange`, `ErasesRange` — what they are for.
* `NoneBefore`, `NoneAtEnd`, `NoneAtEndWithin` — the ranges they take as they should.

## Main results

* `StoryChunk.readsRange_iff`, `StoryPipeline.readsRange_iff` — **when a read is exact.**
* `StoryChunk.erasesRange_iff` — **when an erasure is exact.**
-/

namespace ChronoLog

open OrderedMap

/-- An event as clients read it. -/
structure Event where
  eventTime : UInt64
  clientId : UInt64
  eventIndex : UInt32
  logRecord : List UInt8
  deriving DecidableEq, Repr

namespace LogEvent

/-- The event as clients read it. -/
def toEvent (e : LogEvent) : Event := ⟨e.eventTime, e.clientId, e.eventIndex, e.logRecord⟩

/-- The event's sequence is not above `{t, 0, 0}`. -/
def NotAbove (e : LogEvent) (t : ℕ) : Prop :=
  e.time < t ∨ e.time = t ∧ e.clientId = 0 ∧ e.eventIndex = 0

instance (e : LogEvent) (t : ℕ) : Decidable (e.NotAbove t) :=
  inferInstanceAs (Decidable (_ ∨ _))

/-- The event's sequence is `{t, 0, 0}`. -/
def AtBound (e : LogEvent) (t : UInt64) : Prop := e.sequence = ⟨t, 0, 0⟩

instance (e : LogEvent) (t : UInt64) : Decidable (e.AtBound t) :=
  inferInstanceAs (Decidable (_ = _))

variable {e f : LogEvent} {t : UInt64}

theorem sequence_eq_of_toEvent_eq (h : e.toEvent = f.toEvent) : e.sequence = f.sequence := by
  obtain ⟨htime, hclient, hindex, -⟩ := Event.mk.inj h
  rw [sequence, sequence, htime, hclient, hindex]

theorem notAbove_iff : e.NotAbove t.toNat ↔ e.time < t.toNat ∨ e.AtBound t := by
  have htime : e.time = t.toNat ↔ e.eventTime = t := UInt64.toNat_inj
  unfold NotAbove AtBound sequence
  rw [htime, EventSequence.mk.injEq]

theorem notAbove_of_lt {t : ℕ} (hlt : compare e.sequence f.sequence = .lt)
    (h : f.NotAbove t) : e.NotAbove t := by
  have hle : e.time ≤ f.time := EventSequence.time_le_of_lt hlt
  rcases h with hf | ⟨hf, hclient, hindex⟩
  · exact Or.inl (hle.trans_lt hf)
  · rcases hle.lt_or_eq with hbefore | hsame
    · exact Or.inl (hf ▸ hbefore)
    · -- no sequence of the same time is below the one of client 0 and index 0
      change compareLex _ _ e.sequence f.sequence = .lt at hlt
      have htime : e.eventTime = f.eventTime := UInt64.toNat_inj.mp hsame
      simp only [compareLex, compareOn, Ordering.then_eq_lt, Std.compare_eq_lt, sequence, htime,
        hclient, hindex, UInt64.not_lt_zero, UInt32.not_lt_zero, and_false, or_false] at hlt
      exact absurd hlt (UInt64.lt_irrefl _)

end LogEvent

namespace StoryChunk

/-! ### The functions of the source -/

/-- `lower_bound({t, 0, 0})`, as a position among the events. -/
def lowerBound (chunk : StoryChunk) (t : ℕ) : ℕ :=
  (chunk.events.takeWhile fun e => e.time < t).length

/-- `upper_bound({t, 0, 0})`. -/
def upperBound (chunk : StoryChunk) (t : ℕ) : ℕ :=
  (chunk.events.takeWhile fun e => e.NotAbove t).length

/-- The events between two positions; `none` if the second lies before the first, and the
iteration of the source runs past the end of the map. -/
def between (chunk : StoryChunk) (first last : ℕ) : Option (List LogEvent) :=
  if first ≤ last then some ((chunk.events.drop first).take (last - first)) else none

/-- `copyToEventSeries`. -/
def copyToEventSeries (chunk : StoryChunk) (event_series : List Event)
    (start_time end_time : UInt64) : Option (List Event) :=
  if chunk.empty || start_time == 0 || decide (end_time.toNat ≤ chunk.startTime) then
    some event_series
  else
    let range_start :=
      if start_time.toNat < chunk.startTime then chunk.lowerBound chunk.startTime
      else chunk.lowerBound start_time.toNat
    let range_end :=
      if chunk.endTime < end_time.toNat then chunk.upperBound chunk.endTime
      else chunk.upperBound end_time.toNat
    (chunk.between range_start range_end).map fun range =>
      event_series ++ range.map LogEvent.toEvent

/-- The chunk with some of its events. -/
def keep (chunk : StoryChunk) (kept : LogEvent → Bool) : StoryChunk :=
  { chunk with
    logEvents := chunk.logEvents.filter fun _ e => kept e
    held := by
      intro sequence e he
      have hfilter := Std.ExtTreeMap.mem_toList_iff_getElem?_eq_some.mpr he
      rw [Std.ExtTreeMap.toList_filter] at hfilter
      exact chunk.held sequence e
        (Std.ExtTreeMap.mem_toList_iff_getElem?_eq_some.mp (List.mem_of_mem_filter hfilter)) }

/-- `eraseEvents` of two times, with the position of the event behind the last one erased. -/
def eraseEvents (chunk : StoryChunk) (start_time end_time : UInt64) :
    Option (StoryChunk × ℕ) :=
  if chunk.empty || start_time == 0 || decide (end_time ≤ start_time) ||
      decide (chunk.endTime ≤ start_time.toNat) || decide (end_time.toNat < chunk.startTime) then
    some (chunk, chunk.events.length)
  else
    let range_start :=
      if start_time.toNat < chunk.startTime then chunk.lowerBound chunk.startTime
      else chunk.lowerBound start_time.toNat
    let range_end :=
      if chunk.endTime < end_time.toNat then chunk.upperBound chunk.endTime
      else chunk.upperBound end_time.toNat
    (chunk.between range_start range_end).map fun range =>
      (chunk.keep fun e => e ∉ range, range_start)

end StoryChunk

/-- `StoryPipeline::copyToEventSeries`: the windows one after the other. -/
def StoryPipeline.copyToEventSeries (p : StoryTimeline) (event_series : List Event)
    (start_time end_time : UInt64) : Option (List Event) :=
  p.windows.foldlM
    (fun event_series window =>
      window.toStoryChunk.copyToEventSeries event_series start_time end_time) event_series

/-! ### What they are for -/

/-- The time lies in `[start_time, end_time)`. -/
def InRange (start_time end_time : UInt64) (e : LogEvent) : Prop :=
  start_time.toNat ≤ e.time ∧ e.time < end_time.toNat

/-- **A read is exact**: it appends the events of the range, each once and in the order of
their sequences. -/
def ReadsRange (events : List LogEvent) (event_series : List Event)
    (start_time end_time : UInt64) (r : Option (List Event)) : Prop :=
  ∃ range : List LogEvent, r = some (event_series ++ range.map LogEvent.toEvent) ∧
    (range.Pairwise fun a b => compare a.sequence b.sequence = .lt) ∧
    ∀ e, e ∈ range ↔ e ∈ events ∧ InRange start_time end_time e

/-- **An erasure is exact**: the chunk keeps its interval and the events out of the range. -/
def ErasesRange (chunk : StoryChunk) (start_time end_time : UInt64)
    (r : Option (StoryChunk × ℕ)) : Prop :=
  ∃ chunk' iter, r = some (chunk', iter) ∧
    (chunk'.storyId = chunk.storyId ∧ chunk'.startTime = chunk.startTime ∧
      chunk'.endTime = chunk.endTime) ∧
    ∀ e, e ∈ chunk'.events ↔ e ∈ chunk.events ∧ ¬InRange start_time end_time e

/-- A range from `0` holds none of the events. -/
def NoneBefore (events : List LogEvent) (start_time end_time : UInt64) : Prop :=
  start_time = 0 → ∀ e ∈ events, end_time.toNat ≤ e.time

/-- No event has the sequence at which the range ends. -/
def NoneAtEnd (events : List LogEvent) (start_time end_time : UInt64) : Prop :=
  start_time ≠ 0 → ∀ e ∈ events, ¬e.AtBound end_time

/-- The same, an event at the start of its chunk apart. -/
def NoneAtEndWithin (chunk : StoryChunk) (start_time end_time : UInt64) : Prop :=
  start_time ≠ 0 → ∀ e ∈ chunk.events, e.AtBound end_time → e.time = chunk.startTime

namespace StoryChunk

variable {chunk : StoryChunk} {e f : LogEvent} {start_time end_time : UInt64}

/-! ### Positions -/

theorem sorted_events (chunk : StoryChunk) :
    chunk.events.Pairwise fun a b => compare a.sequence b.sequence = .lt := by
  have hsorted : chunk.logEvents.toList.Pairwise fun a b => compare a.1 b.1 = .lt :=
    Std.ExtTreeMap.ordered_keys_toList
  unfold events
  rw [List.pairwise_map]
  refine hsorted.imp_of_mem ?_
  rintro ⟨s, e⟩ ⟨s', e'⟩ hmem hmem' hlt
  rw [(chunk.held s e (Std.ExtTreeMap.mem_toList_iff_getElem?_eq_some.mp hmem)).1,
    (chunk.held s' e' (Std.ExtTreeMap.mem_toList_iff_getElem?_eq_some.mp hmem')).1]
  exact hlt

theorem startTime_le_of_mem (h : e ∈ chunk.events) : chunk.startTime ≤ e.time :=
  (chunk.held _ _ (mem_events.mp h)).2.2.1

theorem events_keep (chunk : StoryChunk) (kept : LogEvent → Bool) :
    (chunk.keep kept).events = chunk.events.filter kept := by
  change ((chunk.logEvents.filter fun _ e => kept e).toList.map Prod.snd) = _
  rw [Std.ExtTreeMap.toList_filter, events, List.filter_map]
  rfl

/-- **What lies between the positions of a range**: the events from its start on whose
sequence is not above its end. -/
theorem between_eq {a b : ℕ} (h : ∀ e ∈ chunk.events, e.time < a → e.NotAbove b) :
    chunk.between (chunk.lowerBound a) (chunk.upperBound b) =
      some (chunk.events.filter fun e => decide (a ≤ e.time) && decide (e.NotAbove b)) := by
  have hmono : chunk.events.Pairwise fun x y => x.time ≤ y.time :=
    chunk.pairwise_time_le_events
  obtain ⟨hle, hrange⟩ := @SortedList.take_drop_takeWhile _ chunk.events
    (fun e => decide (e.time < a)) (fun e => decide (e.NotAbove b))
    (fun e he hlt => decide_eq_true (h e he (of_decide_eq_true hlt)))
  unfold between lowerBound upperBound
  rw [if_pos hle, hrange, SortedList.dropWhile_lt_eq_filter LogEvent.time hmono,
    SortedList.takeWhile_eq_filter, List.filter_filter]
  · simp only [Bool.and_comm]
  · refine (chunk.sorted_events.sublist List.filter_sublist).imp fun hlt hbelow => ?_
    exact decide_eq_true (LogEvent.notAbove_of_lt hlt (of_decide_eq_true hbelow))

/-- The positions of a range, both cut to the chunk's interval. -/
theorem range_eq (hlt : start_time < end_time) :
    chunk.between
        (if start_time.toNat < chunk.startTime then chunk.lowerBound chunk.startTime
          else chunk.lowerBound start_time.toNat)
        (if chunk.endTime < end_time.toNat then chunk.upperBound chunk.endTime
          else chunk.upperBound end_time.toNat) =
      some (chunk.events.filter fun e =>
        decide (start_time.toNat ≤ e.time) && decide (e.NotAbove end_time.toNat)) := by
  have hlt : start_time.toNat < end_time.toNat := UInt64.lt_iff_toNat_lt.mp hlt
  rw [← apply_ite chunk.lowerBound, ← apply_ite chunk.upperBound, between_eq]
  · refine congrArg some (List.filter_congr fun e he => ?_)
    have hstart := startTime_le_of_mem he
    have hend := time_lt_endTime_of_mem he
    rw [Bool.eq_iff_iff]
    simp only [Bool.and_eq_true, decide_eq_true_eq]
    refine and_congr ?_ ?_
    · split <;> omega
    · split
      · exact ⟨fun _ => Or.inl (by omega), fun _ => Or.inl hend⟩
      · exact Iff.rfl
  · intro e he hbefore
    have hstart := startTime_le_of_mem he
    have hend := time_lt_endTime_of_mem he
    refine Or.inl ?_
    split at hbefore <;> split <;> omega

/-- The events of the chunk that a read copies. -/
def copied (start_time end_time : UInt64) (chunk : StoryChunk) : List LogEvent :=
  chunk.events.filter fun e => decide (start_time ≠ 0) &&
    decide (chunk.startTime < end_time.toNat) && decide (start_time.toNat ≤ e.time) &&
    decide (e.NotAbove end_time.toNat)

theorem mem_copied : e ∈ copied start_time end_time chunk ↔ e ∈ chunk.events ∧
    start_time ≠ 0 ∧ chunk.startTime < end_time.toNat ∧ start_time.toNat ≤ e.time ∧
    e.NotAbove end_time.toNat := by
  unfold copied
  simp only [List.mem_filter, Bool.and_eq_true, decide_eq_true_eq, and_assoc]

/-- **What a read of a chunk appends.** -/
theorem copyToEventSeries_eq (hlt : start_time < end_time) (event_series : List Event) :
    chunk.copyToEventSeries event_series start_time end_time =
      some (event_series ++ (copied start_time end_time chunk).map LogEvent.toEvent) := by
  unfold copyToEventSeries
  split
  · next hnone =>
    have hnil : copied start_time end_time chunk = [] := by
      refine List.eq_nil_iff_forall_not_mem.mpr fun e he => ?_
      obtain ⟨hmem, hstart, hend, -⟩ := mem_copied.mp he
      rw [empty_eq_false_of_mem hmem, Bool.false_or, Bool.or_eq_true, beq_iff_eq,
        decide_eq_true_eq] at hnone
      rcases hnone with hzero | hle
      · exact hstart hzero
      · omega
    rw [hnil, List.map_nil, List.append_nil]
  · next hsome =>
    rw [Bool.not_eq_true, Bool.or_eq_false_iff, Bool.or_eq_false_iff, beq_eq_false_iff_ne,
      decide_eq_false_iff_not, not_le] at hsome
    dsimp only
    rw [range_eq hlt, Option.map_some]
    unfold copied
    simp only [hsome.1.2, hsome.2, ne_eq, not_false_eq_true, decide_true, Bool.true_and]

/-! ### When a read is exact -/

/-- Events of different sequences are read as different events. -/
theorem eq_of_toEvent_eq {events : List LogEvent}
    (hsorted : events.Pairwise fun a b => compare a.sequence b.sequence = .lt)
    (he : e ∈ events) (hf : f ∈ events) (h : e.toEvent = f.toEvent) : e = f := by
  have hnodup : (events.map LogEvent.sequence).Nodup := by
    refine List.pairwise_map.mpr (hsorted.imp fun {a b} hlt heq => ?_)
    rw [heq, (Std.ReflCmp.compare_self : compare b.sequence b.sequence = .eq)] at hlt
    cases hlt
  exact List.inj_on_of_nodup_map hnodup he hf (LogEvent.sequence_eq_of_toEvent_eq h)

theorem readsRange_some_iff {events range : List LogEvent} {event_series : List Event}
    (hsorted : events.Pairwise fun a b => compare a.sequence b.sequence = .lt)
    (hsub : range.Sublist events) :
    ReadsRange events event_series start_time end_time
        (some (event_series ++ range.map LogEvent.toEvent)) ↔
      ∀ e ∈ events, e ∈ range ↔ InRange start_time end_time e := by
  constructor
  · rintro ⟨read, heq, -, hread⟩ e he
    have hsame : range.map LogEvent.toEvent = read.map LogEvent.toEvent :=
      List.append_cancel_left (Option.some.inj heq)
    constructor
    · intro hin
      obtain ⟨f, hf, hfe⟩ := List.mem_map.mp (hsame ▸ List.mem_map_of_mem hin)
      obtain ⟨hmem, hrange⟩ := (hread f).mp hf
      rw [← eq_of_toEvent_eq hsorted hmem he hfe]
      exact hrange
    · intro hrange
      obtain ⟨f, hf, hfe⟩ := List.mem_map.mp
        (hsame.symm ▸ List.mem_map_of_mem ((hread e).mpr ⟨he, hrange⟩))
      rw [← eq_of_toEvent_eq hsorted (hsub.subset hf) he hfe]
      exact hf
  · intro h
    refine ⟨range, rfl, hsorted.sublist hsub, fun e => ⟨fun he => ?_, fun he => ?_⟩⟩
    · exact ⟨hsub.subset he, (h e (hsub.subset he)).mp he⟩
    · exact (h e he.1).mpr he.2

theorem sublist_flatMap_copied (start_time end_time : UInt64) (chunks : List StoryChunk) :
    (chunks.flatMap (copied start_time end_time)).Sublist (chunks.flatMap events) := by
  induction chunks with
  | nil => exact List.Sublist.refl _
  | cons chunk chunks ih =>
    rw [List.flatMap_cons, List.flatMap_cons]
    exact List.filter_sublist.append ih

/-- **A read of chunks, one after the other, is exact** if and only if the range does not
begin at `0` before an event, and no chunk has an event at the end of the range, unless at its
start. -/
theorem readsRange_flatMap_iff {chunks : List StoryChunk} {event_series : List Event}
    (hlt : start_time < end_time)
    (hsorted : (chunks.flatMap events).Pairwise fun a b =>
      compare a.sequence b.sequence = .lt) :
    ReadsRange (chunks.flatMap events) event_series start_time end_time
        (some (event_series ++
          (chunks.flatMap (copied start_time end_time)).map LogEvent.toEvent)) ↔
      NoneBefore (chunks.flatMap events) start_time end_time ∧
        ∀ chunk ∈ chunks, NoneAtEndWithin chunk start_time end_time := by
  have hlt : start_time.toNat < end_time.toNat := UInt64.lt_iff_toNat_lt.mp hlt
  rw [readsRange_some_iff hsorted (sublist_flatMap_copied _ _ chunks)]
  simp only [List.mem_flatMap, mem_copied]
  constructor
  · intro h
    refine ⟨fun hzero e he => ?_, fun chunk hchunk hstart e he hbound => ?_⟩
    · obtain ⟨chunk, hchunk, hmem⟩ := List.mem_flatMap.mp he
      by_contra hbefore
      obtain ⟨chunk', -, -, hne, -⟩ := (h e ⟨chunk, hchunk, hmem⟩).mpr
        ⟨by rw [hzero]; exact Nat.zero_le _, not_le.mp hbefore⟩
      exact hne hzero
    · have htime : e.time = end_time.toNat := congrArg (fun s => s.time.toNat) hbound
      have hle := startTime_le_of_mem he
      by_contra hne
      have hcopied := (h e ⟨chunk, hchunk, he⟩).mp
        ⟨chunk, hchunk, he, hstart, by omega, by omega, LogEvent.notAbove_iff.mpr (Or.inr hbound)⟩
      exact absurd hcopied.2 (by omega)
  · rintro ⟨hbefore, hend⟩ e ⟨chunk, hchunk, hmem⟩
    constructor
    · rintro ⟨chunk', hchunk', hmem', hstart, hbegun, hle, hnot⟩
      refine ⟨hle, ?_⟩
      rcases LogEvent.notAbove_iff.mp hnot with htime | hbound
      · exact htime
      · have htime : e.time = end_time.toNat := congrArg (fun s => s.time.toNat) hbound
        have := hend chunk' hchunk' hstart e hmem' hbound
        omega
    · rintro ⟨hle, htime⟩
      have hstart := startTime_le_of_mem hmem
      refine ⟨chunk, hchunk, hmem, fun hzero => ?_, by omega, hle, Or.inl htime⟩
      have := hbefore hzero e (List.mem_flatMap.mpr ⟨chunk, hchunk, hmem⟩)
      omega

/-- **When a read of a chunk is exact.** -/
theorem readsRange_iff (hlt : start_time < end_time) (event_series : List Event) :
    ReadsRange chunk.events event_series start_time end_time
        (chunk.copyToEventSeries event_series start_time end_time) ↔
      NoneBefore chunk.events start_time end_time ∧
        NoneAtEndWithin chunk start_time end_time := by
  have hone := @readsRange_flatMap_iff start_time end_time [chunk] event_series hlt
  simp only [List.flatMap_singleton, List.forall_mem_singleton] at hone
  rw [copyToEventSeries_eq hlt, hone chunk.sorted_events]

/-! ### When an erasure is exact -/

/-- **What an erasure leaves.** -/
theorem eraseEvents_eq (hlt : start_time < end_time) :
    ∃ chunk' iter, chunk.eraseEvents start_time end_time = some (chunk', iter) ∧
      (chunk'.storyId = chunk.storyId ∧ chunk'.startTime = chunk.startTime ∧
        chunk'.endTime = chunk.endTime) ∧
      ∀ e, e ∈ chunk'.events ↔ e ∈ chunk.events ∧
        ¬(start_time ≠ 0 ∧ start_time.toNat ≤ e.time ∧ e.NotAbove end_time.toNat) := by
  unfold eraseEvents
  split
  · next hnone =>
    refine ⟨_, _, rfl, ⟨rfl, rfl, rfl⟩, fun e => ⟨fun he => ⟨he, ?_⟩, And.left⟩⟩
    rintro ⟨hstart, hle, hnot⟩
    have hbegin := startTime_le_of_mem he
    have hend := time_lt_endTime_of_mem he
    have hbelow : e.time ≤ end_time.toNat := by
      rcases hnot with htime | ⟨htime, -⟩ <;> omega
    have hlt' := UInt64.lt_iff_toNat_lt.mp hlt
    simp only [empty_eq_false_of_mem he, Bool.false_or, Bool.or_eq_true, beq_iff_eq, hstart,
      decide_eq_true_eq, false_or, UInt64.le_iff_toNat_le] at hnone
    omega
  · next hsome =>
    simp only [Bool.or_eq_true, beq_iff_eq, not_or] at hsome
    dsimp only
    rw [range_eq hlt, Option.map_some]
    refine ⟨_, _, rfl, ⟨rfl, rfl, rfl⟩, fun e => ?_⟩
    rw [events_keep, List.mem_filter, decide_eq_true_eq]
    refine and_congr_right fun he => not_congr ?_
    simp only [List.mem_filter, he, true_and, Bool.and_eq_true, decide_eq_true_eq, ne_eq,
      hsome.1.1.1.2, not_false_eq_true]

/-- **When an erasure is exact.** -/
theorem erasesRange_iff (hlt : start_time < end_time) :
    ErasesRange chunk start_time end_time (chunk.eraseEvents start_time end_time) ↔
      NoneBefore chunk.events start_time end_time ∧
        NoneAtEnd chunk.events start_time end_time := by
  obtain ⟨chunk', iter, herase, hinterval, hleft⟩ := @eraseEvents_eq chunk start_time end_time hlt
  have hlt : start_time.toNat < end_time.toNat := UInt64.lt_iff_toNat_lt.mp hlt
  rw [herase]
  constructor
  · rintro ⟨chunk'', iter', heq, -, hexact⟩
    cases heq
    have hsame : ∀ e ∈ chunk.events, (start_time ≠ 0 ∧ start_time.toNat ≤ e.time ∧
        e.NotAbove end_time.toNat) ↔ InRange start_time end_time e := by
      intro e he
      have h := (hleft e).symm.trans (hexact e)
      simp only [he, true_and] at h
      exact not_iff_not.mp h
    refine ⟨fun hzero e he => ?_, fun hstart e he hbound => ?_⟩
    · by_contra hbefore
      exact ((hsame e he).mpr ⟨by rw [hzero]; exact Nat.zero_le _, not_le.mp hbefore⟩).1 hzero
    · have htime : e.time = end_time.toNat := congrArg (fun s => s.time.toNat) hbound
      have := ((hsame e he).mp
        ⟨hstart, by omega, LogEvent.notAbove_iff.mpr (Or.inr hbound)⟩).2
      omega
  · rintro ⟨hbefore, hend⟩
    refine ⟨chunk', iter, rfl, hinterval, fun e => ?_⟩
    rw [hleft]
    refine and_congr_right fun he => not_congr ⟨?_, ?_⟩
    · rintro ⟨hstart, hle, hnot⟩
      refine ⟨hle, ?_⟩
      rcases LogEvent.notAbove_iff.mp hnot with htime | hbound
      · exact htime
      · exact absurd hbound (hend hstart e he)
    · rintro ⟨hle, htime⟩
      refine ⟨fun hzero => ?_, hle, Or.inl htime⟩
      have := hbefore hzero e he
      omega

end StoryChunk

namespace StoryPipeline

variable {p : StoryTimeline} {start_time end_time : UInt64}

/-- The events of a timeline, window after window. -/
def timelineEvents (p : StoryTimeline) : List LogEvent :=
  (p.windows.map TimelineChunk.toStoryChunk).flatMap StoryChunk.events

theorem copyToEventSeries_eq (hlt : start_time < end_time) (event_series : List Event) :
    copyToEventSeries p event_series start_time end_time =
      some (event_series ++ ((p.windows.map TimelineChunk.toStoryChunk).flatMap
        (StoryChunk.copied start_time end_time)).map LogEvent.toEvent) := by
  unfold copyToEventSeries
  induction p.windows generalizing event_series with
  | nil => simp
  | cons w windows ih =>
    rw [List.foldlM_cons, StoryChunk.copyToEventSeries_eq hlt]
    change List.foldlM _ _ windows = _
    rw [ih, List.map_cons, List.flatMap_cons, List.map_append, List.append_assoc]

theorem compare_lt_of_time_lt {e f : LogEvent} (h : e.time < f.time) :
    compare e.sequence f.sequence = .lt := by
  change compareLex _ _ e.sequence f.sequence = .lt
  simp only [compareLex, compareOn, Ordering.then_eq_lt, Std.compare_eq_lt]
  exact Or.inl (UInt64.lt_iff_toNat_lt.mpr h)

/-- **The events of a timeline are in the order of their sequences.** -/
theorem sorted_timelineEvents (h : p.Invariant) :
    (timelineEvents p).Pairwise fun a b => compare a.sequence b.sequence = .lt := by
  unfold timelineEvents
  rw [List.pairwise_flatMap]
  refine ⟨fun chunk _ => chunk.sorted_events, ?_⟩
  have hkeys : p.storyTimelineMap.toList.Pairwise fun a b => a.1 < b.1 :=
    Std.ExtTreeMap.ordered_keys_toList.imp fun h => Nat.compare_eq_lt.mp h
  rw [List.pairwise_map, StoryTimeline.windows, List.pairwise_map]
  refine hkeys.imp_of_mem ?_
  rintro ⟨k, w⟩ ⟨k', w'⟩ hw hw' hlt e he f hf
  have hw := Std.ExtTreeMap.mem_toList_iff_getElem?_eq_some.mp hw
  have hw' := Std.ExtTreeMap.mem_toList_iff_getElem?_eq_some.mp hw'
  refine compare_lt_of_time_lt ?_
  have hbefore := (h.events k w hw e he).2
  have hafter := (h.events k' w' hw' f hf).1
  rw [h.long k w hw] at hbefore
  -- windows start at multiples of the granularity, so the later one starts no earlier than
  -- the other ends
  obtain ⟨i, hi⟩ := h.aligned k w hw
  obtain ⟨j, hj⟩ := h.aligned k' w' hw'
  have hkey : p.chunkGranularity * i < p.chunkGranularity * j := by
    rw [← hi, ← hj, h.keyed k w hw, h.keyed k' w' hw']
    exact hlt
  have hnext := Nat.mul_le_mul_left p.chunkGranularity (Nat.lt_of_mul_lt_mul_left hkey)
  rw [Nat.mul_succ, ← hi, ← hj] at hnext
  omega

/-- **When a read of a timeline is exact.** -/
theorem readsRange_iff (h : p.Invariant) (hlt : start_time < end_time)
    (event_series : List Event) :
    ReadsRange (timelineEvents p) event_series start_time end_time
        (copyToEventSeries p event_series start_time end_time) ↔
      NoneBefore (timelineEvents p) start_time end_time ∧
        ∀ w ∈ p.windows, NoneAtEndWithin w.toStoryChunk start_time end_time := by
  rw [copyToEventSeries_eq hlt, timelineEvents,
    StoryChunk.readsRange_flatMap_iff hlt (sorted_timelineEvents h), List.forall_mem_map]

end StoryPipeline

/-! ### Half-open ranges -/

instance (events : List LogEvent) (start_time end_time : UInt64) :
    Decidable (NoneBefore events start_time end_time) :=
  inferInstanceAs (Decidable (_ → _))

instance (events : List LogEvent) (start_time end_time : UInt64) :
    Decidable (NoneAtEnd events start_time end_time) :=
  inferInstanceAs (Decidable (_ → _))

instance (chunk : StoryChunk) (start_time end_time : UInt64) :
    Decidable (NoneAtEndWithin chunk start_time end_time) :=
  inferInstanceAs (Decidable (_ → _))

/-- A second of story 7 with an event of client 0 and index 0. -/
def firstOfClientZero : StoryChunk :=
  ((StoryChunk.new 7 0 1000000000).insertEvent ⟨7, 100, 0, 0, [1]⟩).1

end ChronoLog
