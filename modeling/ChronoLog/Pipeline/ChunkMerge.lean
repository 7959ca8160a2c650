import ChronoLog.Pipeline.GrapherWindows

/-!
# Events merged into a chunk

`StoryChunk::mergeEvents` moves events of a map, or of another chunk, into a master chunk.
It offers the master one event after the other, counts those that it takes in 32 bits, and
at the end erases the source from the first one counted to the last.  An event between them
that the master refused goes with the range, and is not counted.

## Main definitions

* `StoryChunk.EventMap` — a map of events, each under its own sequence.
* `StoryChunk.mergeEventsOfMap`, `StoryChunk.mergeEvents` — the two overloads.
* `StoryChunk.LosesNothing` — what a merge is for.
* `StoryChunk.NoneRefusedBetween` — no refused event lies between two that are counted.
* `StoryChunk.StartsAsAsked` — where a merge start is put back, nothing is gained or missed.

## Main results

* `StoryChunk.foldl_next` — what the loop finds.
* `StoryChunk.losesNothing_mergeFrom_iff` — **a merge loses nothing if and only if none is
  refused in between.**
* `StoryChunk.mergeEvents_loses_nothing_iff` — the same for both overloads, from the merge start
  that the caller gave.
* `StoryChunk.mergeEvents_eq_mergeChunk` — the merge of a pipeline's window is the second
  overload.
-/

namespace ChronoLog

namespace StoryChunk

/-! ### The two overloads -/

/-- A map of events, each under its own sequence, as the list of its events in order.  An
iterator is a position in the list, `end()` any position behind the last event. -/
structure EventMap where
  logEvents : List LogEvent
  sorted : logEvents.Pairwise fun a b => compare a.sequence b.sequence = .lt

/-- `lower_bound({t, 0, 0})`. -/
def EventMap.lowerBound (events : EventMap) (t : ℕ) : ℕ :=
  (events.logEvents.takeWhile fun e => e.time < t).length

/-- The variables of the loop. -/
structure MergeScan where
  master : StoryChunk
  merged_event_count : UInt32 := 0
  first_merged : Option LogEvent := none
  last_merged : Option LogEvent := none

/-- The body of the loop: the master is offered the next event. -/
def MergeScan.next (s : MergeScan) (event : LogEvent) : MergeScan :=
  let inserted := s.master.insertEvent event
  if 0 < inserted.2 then
    { master := inserted.1
      merged_event_count := s.merged_event_count + 1
      first_merged := if s.merged_event_count = 0 then some event else s.first_merged
      last_merged := some event }
  else { s with master := inserted.1 }

/-- The loop, from the event at `merge_start` to the first one behind the master's range. -/
def mergeScan (master : StoryChunk) (events : List LogEvent) : MergeScan :=
  (events.takeWhile fun e => e.time < master.endTime).foldl MergeScan.next { master }

/-- The events without those from one to another. -/
def withoutRange (events : List LogEvent) (first last : LogEvent) : List LogEvent :=
  events.filter fun e => !((compare first.sequence e.sequence).isLE &&
    (compare e.sequence last.sequence).isLE)

/-- The range `[first_merged, last_merged]` leaves the source. -/
def MergeScan.eraseMerged (s : MergeScan) (source : List LogEvent) : List LogEvent :=
  if 0 < s.merged_event_count then
    match s.first_merged, s.last_merged with
    | some first_merged, some last_merged => withoutRange source first_merged last_merged
    | _, _ => source
  else source

/-- What a merge leaves: the master, the events of the source and the number returned. -/
structure Merged where
  master : StoryChunk
  source : List LogEvent
  merged_event_count : UInt32

/-- The loop and the removal, which the overloads share. -/
def mergeFrom (master : StoryChunk) (source events : List LogEvent) : Merged :=
  let s := mergeScan master events
  { master := s.master
    source := s.eraseMerged source
    merged_event_count := s.merged_event_count }

/-- `mergeEvents` of a map, with the iterator it leaves in `merge_start`; `none` if the
iterator of a map that is not empty is its end, which the source dereferences. -/
def mergeEventsOfMap (master : StoryChunk) (events : EventMap) (merge_start : ℕ) :
    Option (Merged × ℕ) :=
  if events.logEvents.isEmpty then some (⟨master, events.logEvents, 0⟩, merge_start)
  else events.logEvents[merge_start]?.map fun event =>
    let merge_start :=
      if event.time < master.startTime then events.lowerBound master.startTime else merge_start
    (mergeFrom master events.logEvents (events.logEvents.drop merge_start), merge_start)

/-- The time a merge starts at: `0`, the default, and a time that is not before the chunk's
end stand for its start. -/
def mergeStartTime (other_chunk : IncomingChunk) (merge_start_time : UInt64) : ℕ :=
  if merge_start_time = 0 ∨ other_chunk.endTime ≤ merge_start_time then
    other_chunk.startTime.toNat
  else merge_start_time.toNat

/-- `mergeEvents` of another chunk. -/
def mergeEvents (master : StoryChunk) (other_chunk : IncomingChunk)
    (merge_start_time : UInt64) : Merged :=
  if other_chunk.empty then ⟨master, other_chunk.logEvents, 0⟩
  else
    let merge_start_time := mergeStartTime other_chunk merge_start_time
    let merge_start :=
      if merge_start_time < master.startTime then other_chunk.eventsFrom master.startTime
      else other_chunk.eventsFrom merge_start_time
    mergeFrom master other_chunk.logEvents merge_start

/-! ### What a merge is for -/

/-- The events of a map that the master may take: those from the iterator on. -/
def insertableOfMap (master : StoryChunk) (events : EventMap) (merge_start : ℕ) :
    List LogEvent :=
  (events.logEvents.drop merge_start).filter fun e => master.Accepts e

/-- The events of another chunk that the master may take: those from a time on. -/
def insertableFrom (master : StoryChunk) (other_chunk : IncomingChunk) (t : ℕ) : List LogEvent :=
  other_chunk.logEvents.filter fun e => decide (t ≤ e.time) && decide (master.Accepts e)

/-- The events of another chunk that the master may take: those from the merge start on, as the
caller gave it. -/
def insertableOfChunk (master : StoryChunk) (other_chunk : IncomingChunk)
    (merge_start_time : UInt64) : List LogEvent :=
  insertableFrom master other_chunk merge_start_time.toNat

/-- The same from the time that the merge starts at. -/
def reachedOfChunk (master : StoryChunk) (other_chunk : IncomingChunk)
    (merge_start_time : UInt64) : List LogEvent :=
  insertableFrom master other_chunk (mergeStartTime other_chunk merge_start_time)

/-- **A merge loses nothing**: the master gains exactly the insertable events that it did not
hold, what leaves the source is held by the master, everything else stays, and the number
returned is the number of events that left. -/
structure LosesNothing (master : StoryChunk) (source insertable : List LogEvent) (r : Merged) :
    Prop where
  interval : r.master.storyId = master.storyId ∧ r.master.startTime = master.startTime ∧
    r.master.endTime = master.endTime
  master : ∀ e, e ∈ r.master.events ↔
    e ∈ master.events ∨ e ∈ insertable ∧ e.sequence ∉ master.logEvents
  removed : ∀ e ∈ source, e ∉ r.source → e.sequence ∈ r.master.logEvents
  left : r.source.Sublist source
  count : r.merged_event_count.toNat + r.source.length = source.length

/-- The insertable events that are counted at the end, of which a 32-bit number is left. -/
def counted (insertable : List LogEvent) : List LogEvent :=
  insertable.drop (insertable.length - insertable.length % 2 ^ 32)

/-- Every event of the source between two counted ones is insertable itself. -/
def NoneRefusedBetween (source insertable : List LogEvent) : Prop :=
  ∀ e ∈ source, ∀ f ∈ counted insertable, ∀ l ∈ counted insertable,
    (compare f.sequence e.sequence).isLE = true → (compare e.sequence l.sequence).isLE = true →
      e ∈ insertable

instance (source insertable : List LogEvent) :
    Decidable (NoneRefusedBetween source insertable) := by
  unfold NoneRefusedBetween
  infer_instance

/-- The master accepts no event it does not hold between the merge start that the caller gave and
the start of the chunk, where the first is put back to the second. -/
def StartsAsAsked (master : StoryChunk) (other_chunk : IncomingChunk) (merge_start_time : UInt64) :
    Prop :=
  ∀ e ∈ other_chunk.logEvents, master.Accepts e → e.sequence ∉ master.logEvents →
    (merge_start_time.toNat ≤ e.time ↔ mergeStartTime other_chunk merge_start_time ≤ e.time)

instance (master : StoryChunk) (other_chunk : IncomingChunk) (merge_start_time : UInt64) :
    Decidable (StartsAsAsked master other_chunk merge_start_time) := by
  unfold StartsAsAsked
  infer_instance

/-! ### The loop -/

variable {chunk master : StoryChunk} {e event : LogEvent} {source scanned : List LogEvent}

theorem insertEvent_of_not_accepts (h : ¬chunk.Accepts event) :
    chunk.insertEvent event = (chunk, 0) := by
  unfold insertEvent
  rw [dif_neg h]

theorem accepts_insertEvent : (chunk.insertEvent event).1.Accepts e ↔ chunk.Accepts e := by
  obtain ⟨hstory, hstart, hend⟩ := insertEvent_interval chunk event
  unfold Accepts
  rw [hstory, hstart, hend]

theorem mem_logEvents_insertEvent {seq : EventSequence} :
    seq ∈ (chunk.insertEvent event).1.logEvents ↔
      chunk.Accepts event ∧ event.sequence = seq ∨ seq ∈ chunk.logEvents := by
  by_cases hacc : chunk.Accepts event
  · rw [(insertEvent_of_accepts hacc).2, Std.ExtTreeMap.mem_insertIfNew,
      Std.LawfulEqOrd.compare_eq_iff_eq]
    simp only [hacc, true_and]
  · rw [insertEvent_of_not_accepts hacc]
    simp only [hacc, false_and, false_or]

theorem mem_events_insertEvent :
    e ∈ (chunk.insertEvent event).1.events ↔
      chunk.Accepts event ∧ event.sequence ∉ chunk.logEvents ∧ e = event ∨
        e ∈ chunk.events := by
  by_cases hacc : chunk.Accepts event
  · rw [mem_events, (insertEvent_of_accepts hacc).2, Std.ExtTreeMap.getElem?_insertIfNew,
      mem_events]
    simp only [hacc, true_and, Std.LawfulEqOrd.compare_eq_iff_eq]
    split
    · next hnew =>
      obtain ⟨hseq, hnew⟩ := hnew
      have hnone : chunk.logEvents[e.sequence]? = none :=
        Std.ExtTreeMap.getElem?_eq_none (hseq ▸ hnew)
      rw [hnone, Option.some.injEq]
      simp only [hnew, not_false_eq_true, true_and, reduceCtorEq, or_false, eq_comm]
    · next hnot =>
      refine ⟨Or.inr, ?_⟩
      rintro (⟨hnew, rfl⟩ | hheld)
      · exact absurd ⟨rfl, hnew⟩ hnot
      · exact hheld
  · rw [insertEvent_of_not_accepts hacc]
    simp only [hacc, false_and, false_or]

/-- **A chunk that was offered events in their order** gains those it accepts and does not
hold. -/
theorem mem_events_foldl_insertEvent {events : List LogEvent}
    (hsorted : events.Pairwise fun a b => compare a.sequence b.sequence = .lt) :
    e ∈ (events.foldl (fun chunk e => (chunk.insertEvent e).1) chunk).events ↔
      e ∈ chunk.events ∨
        e ∈ events.filter (fun e => chunk.Accepts e) ∧ e.sequence ∉ chunk.logEvents := by
  induction events generalizing chunk with
  | nil => simp
  | cons a events ih =>
    obtain ⟨ha, hsorted⟩ := List.pairwise_cons.mp hsorted
    rw [List.foldl_cons, ih hsorted, mem_events_insertEvent, List.mem_filter, List.mem_filter,
      List.mem_cons, decide_eq_true_eq, decide_eq_true_eq, accepts_insertEvent,
      mem_logEvents_insertEvent]
    have hdistinct : e ∈ events → a.sequence ≠ e.sequence := by
      intro he heq
      have hlt := ha e he
      rw [heq, (Std.ReflCmp.compare_self : compare e.sequence e.sequence = .eq)] at hlt
      cases hlt
    constructor
    · rintro ((⟨hacc, hnew, rfl⟩ | hheld) | ⟨⟨he, hacc⟩, hnew⟩)
      · exact Or.inr ⟨⟨Or.inl rfl, hacc⟩, hnew⟩
      · exact Or.inl hheld
      · exact Or.inr ⟨⟨Or.inr he, hacc⟩, fun hin => hnew (Or.inr hin)⟩
    · rintro (hheld | ⟨⟨rfl | he, hacc⟩, hnew⟩)
      · exact Or.inl (Or.inr hheld)
      · exact Or.inl (Or.inl ⟨hacc, hnew, rfl⟩)
      · refine Or.inr ⟨⟨he, hacc⟩, ?_⟩
        rintro (⟨-, heq⟩ | hin)
        · exact hdistinct he heq
        · exact hnew hin

theorem toNat_count_succ (n : UInt32) : (n + 1).toNat = (n.toNat + 1) % 2 ^ 32 := by
  rw [UInt32.toNat_add]
  rfl

/-- The events that are counted, after one more. -/
theorem counted_append_singleton (l : List LogEvent) (a : LogEvent) :
    counted (l ++ [a]) =
      if (l.length + 1) % 2 ^ 32 = 0 then [] else counted l ++ [a] := by
  unfold counted
  rw [List.length_append, List.length_singleton]
  split
  · next hzero => rw [hzero, Nat.sub_zero, List.drop_eq_nil_iff.mpr (by simp)]
  · next hne =>
    have hdrop : l.length + 1 - (l.length + 1) % 2 ^ 32 = l.length - l.length % 2 ^ 32 := by
      omega
    rw [hdrop, List.drop_append_of_le_length (by omega)]

/-- **What the loop finds**: the master with the events it was offered, and, of those it
takes, their number in 32 bits, the last one, and the first of those counted. -/
theorem foldl_next (master : StoryChunk) (l : List LogEvent) :
    let s := l.foldl MergeScan.next { master }
    let taken := l.filter fun e => master.Accepts e
    s.master = l.foldl (fun chunk e => (chunk.insertEvent e).1) master ∧
      s.merged_event_count.toNat = taken.length % 2 ^ 32 ∧
      s.last_merged = taken.getLast? ∧
      (s.merged_event_count ≠ 0 → s.first_merged = (counted taken).head?) := by
  induction l using List.reverseRecOn with
  | nil => exact ⟨rfl, rfl, rfl, fun h => absurd rfl h⟩
  | append_singleton l a ih =>
    obtain ⟨hmaster, hcount, hlast, hfirst⟩ := ih
    simp only [List.foldl_append, List.foldl_cons, List.foldl_nil, List.filter_append]
    generalize l.foldl MergeScan.next { master } = s at hmaster hcount hlast hfirst ⊢
    have hacc : s.master.Accepts a ↔ master.Accepts a := by
      obtain ⟨hstory, hstart, hend⟩ := (StoryPipeline.foldl_insertEvent_spec l master).1
      rw [hmaster]
      unfold Accepts
      rw [hstory, hstart, hend]
    by_cases ha : master.Accepts a
    · have hone := (insertEvent_of_accepts (hacc.mpr ha)).1
      rw [List.filter_cons_of_pos (by simpa using ha), List.filter_nil]
      generalize l.filter (fun e => master.Accepts e) = taken at hcount hlast hfirst ⊢
      unfold MergeScan.next
      simp only [hone, Nat.lt_one_iff, if_true]
      refine ⟨by rw [hmaster], ?_, by simp, fun hne => ?_⟩
      · rw [toNat_count_succ, hcount, List.length_append, List.length_singleton, Nat.mod_add_mod]
      · have hwrap : (taken.length + 1) % 2 ^ 32 ≠ 0 := by
          intro hzero
          refine hne (UInt32.toNat_inj.mp ?_)
          rw [toNat_count_succ, hcount, Nat.mod_add_mod, hzero]
          rfl
        rw [counted_append_singleton, if_neg hwrap]
        split
        · next hzero =>
          -- the count has just begun: nothing is counted yet
          have hnone : counted taken = [] := by
            rw [hzero] at hcount
            rw [counted, ← hcount]
            exact List.drop_eq_nil_iff.mpr (by simp)
          rw [hnone]
          rfl
        · next hpos =>
          have hsome : counted taken ≠ [] := by
            have hne : taken.length % 2 ^ 32 ≠ 0 := by
              rw [← hcount]
              exact fun h => hpos (UInt32.toNat_inj.mp h)
            unfold counted
            rw [Ne, List.drop_eq_nil_iff]
            omega
          rw [hfirst hpos, List.head?_append_of_ne_nil _ hsome]
    · have hnot : ¬s.master.Accepts a := fun h => ha (hacc.mp h)
      rw [List.filter_cons_of_neg (by simpa using ha), List.filter_nil, List.append_nil]
      unfold MergeScan.next
      simp only [insertEvent_of_not_accepts hnot, lt_irrefl, if_false]
      refine ⟨?_, hcount, hlast, hfirst⟩
      rw [hmaster] at hnot ⊢
      rw [insertEvent_of_not_accepts hnot]

/-! ### What leaves the source -/

/-- The events of a source from one to another. -/
def rangeOf (source : List LogEvent) (first last : LogEvent) : List LogEvent :=
  source.filter fun e => (compare first.sequence e.sequence).isLE &&
    (compare e.sequence last.sequence).isLE

theorem mem_rangeOf {first last : LogEvent} :
    e ∈ rangeOf source first last ↔ e ∈ source ∧
      (compare first.sequence e.sequence).isLE = true ∧
      (compare e.sequence last.sequence).isLE = true := by
  rw [rangeOf, List.mem_filter, Bool.and_eq_true]

theorem length_rangeOf_add (source : List LogEvent) (first last : LogEvent) :
    (rangeOf source first last).length + (withoutRange source first last).length =
      source.length :=
  (List.length_eq_length_filter_add _).symm

theorem nodup_of_sorted
    (h : source.Pairwise fun a b => compare a.sequence b.sequence = .lt) : source.Nodup := by
  refine h.imp ?_
  rintro a b hlt rfl
  rw [(Std.ReflCmp.compare_self : compare a.sequence a.sequence = .eq)] at hlt
  cases hlt

variable {insertable : List LogEvent}

theorem mem_of_mem_counted (h : e ∈ counted insertable) : e ∈ insertable :=
  List.mem_of_mem_drop h

theorem length_counted (insertable : List LogEvent) :
    (counted insertable).length = insertable.length % 2 ^ 32 := by
  unfold counted
  rw [List.length_drop]
  omega

theorem sorted_counted
    (h : insertable.Pairwise fun a b => compare a.sequence b.sequence = .lt) :
    (counted insertable).Pairwise fun a b => compare a.sequence b.sequence = .lt :=
  h.sublist (List.drop_sublist _ _)

/-- The range that leaves is as long as the number counted, if and only if none in it was
refused. -/
theorem length_rangeOf_eq_iff {first last : LogEvent}
    (hsource : source.Pairwise fun a b => compare a.sequence b.sequence = .lt)
    (hsub : insertable.Sublist source) (hfirst : (counted insertable).head? = some first)
    (hlast : (counted insertable).getLast? = some last) :
    (rangeOf source first last).length = (counted insertable).length ↔
      ∀ e ∈ rangeOf source first last, e ∈ insertable := by
  have hsorted := hsource.sublist hsub
  have hcounted := sorted_counted hsorted
  have hin : ∀ e ∈ counted insertable, e ∈ rangeOf source first last := fun e he =>
    mem_rangeOf.mpr ⟨hsub.subset (mem_of_mem_counted he),
      SortedList.isLE_of_head? LogEvent.sequence hcounted hfirst he,
      SortedList.isLE_of_getLast? LogEvent.sequence hcounted hlast he⟩
  have hnodup := nodup_of_sorted hcounted
  have hrange := (nodup_of_sorted hsource).filter fun e =>
    (compare first.sequence e.sequence).isLE && (compare e.sequence last.sequence).isLE
  constructor
  · intro hlength e he
    have hperm := (List.subperm_of_subset hnodup hin).perm_of_length_le hlength.le
    exact mem_of_mem_counted (hperm.mem_iff.mpr he)
  · intro hall
    refine ((List.perm_ext_iff_of_nodup hrange hnodup).mpr fun e => ⟨fun he => ?_, hin e⟩).length_eq
    -- an insertable event that is not counted lies before the first one counted
    have hsplit : e ∈ insertable.take (insertable.length - insertable.length % 2 ^ 32) ++
        counted insertable := by
      rw [counted, List.take_append_drop]
      exact hall e he
    rcases List.mem_append.mp hsplit with hbefore | hcount
    · have hlt : compare e.sequence first.sequence = .lt := by
        rw [← List.take_append_drop (insertable.length - insertable.length % 2 ^ 32) insertable]
          at hsorted
        exact (List.pairwise_append.mp hsorted).2.2 e hbefore first (List.mem_of_head? hfirst)
      have hle := (mem_rangeOf.mp he).2.1
      rw [Std.OrientedCmp.gt_of_lt hlt] at hle
      cases hle
    · exact hcount

theorem noneRefusedBetween_iff {first last : LogEvent}
    (hsorted : insertable.Pairwise fun a b => compare a.sequence b.sequence = .lt)
    (hfirst : (counted insertable).head? = some first)
    (hlast : (counted insertable).getLast? = some last) :
    NoneRefusedBetween source insertable ↔
      ∀ e ∈ rangeOf source first last, e ∈ insertable := by
  have hcounted := sorted_counted hsorted
  constructor
  · intro h e he
    obtain ⟨hmem, hle, hle'⟩ := mem_rangeOf.mp he
    exact h e hmem first (List.mem_of_head? hfirst) last (List.mem_of_getLast? hlast) hle hle'
  · intro h e he f hf l hl hfe hel
    refine h e (mem_rangeOf.mpr ⟨he, ?_, ?_⟩)
    · have hle := SortedList.isLE_of_head? LogEvent.sequence hcounted hfirst hf
      exact Std.TransCmp.isLE_trans hle hfe
    · have hle := SortedList.isLE_of_getLast? LogEvent.sequence hcounted hlast hl
      exact Std.TransCmp.isLE_trans hel hle

/-- **A merge loses nothing if and only if none is refused in between.** -/
theorem losesNothing_mergeFrom_iff {events : List LogEvent}
    (hsource : source.Pairwise fun a b => compare a.sequence b.sequence = .lt)
    (hevents : events.Sublist source)
    (hscan : (events.takeWhile fun e => e.time < master.endTime).filter
      (fun e => master.Accepts e) = insertable) :
    LosesNothing master source insertable (mergeFrom master source events) ↔
      NoneRefusedBetween source insertable := by
  have hscanned :=
    (List.takeWhile_sublist fun e : LogEvent => e.time < master.endTime).trans hevents
  have hsub : insertable.Sublist source := hscan ▸ List.filter_sublist.trans hscanned
  have hspec := StoryPipeline.foldl_insertEvent_spec
    (events.takeWhile fun e => e.time < master.endTime) master
  have hmem := fun e => @mem_events_foldl_insertEvent master e _ (hsource.sublist hscanned)
  obtain ⟨hmaster, hcount, hlast, hfirst⟩ := foldl_next master
    (events.takeWhile fun e => e.time < master.endTime)
  rw [hscan] at hcount hlast hfirst
  simp only [hscan] at hmem
  rw [← hmaster] at hspec hmem
  rw [← length_counted] at hcount
  unfold mergeFrom mergeScan
  generalize (events.takeWhile fun e => e.time < master.endTime).foldl MergeScan.next { master }
    = s at hspec hmem hmaster hcount hlast hfirst
  change LosesNothing master source insertable
    ⟨s.master, s.eraseMerged source, s.merged_event_count⟩ ↔ _
  have htaken : ∀ e ∈ insertable, e.sequence ∈ s.master.logEvents := by
    intro e he
    rw [← hscan] at he
    obtain ⟨hin, hacc⟩ := List.mem_filter.mp he
    exact hspec.2.2 e hin (by simpa using hacc)
  by_cases hzero : s.merged_event_count = 0
  · have hnone : counted insertable = [] := by
      rw [← List.length_eq_zero_iff, ← hcount, hzero]
      rfl
    have hleft : s.eraseMerged source = source := by
      rw [MergeScan.eraseMerged, hzero, if_neg (by decide)]
    rw [hleft]
    refine ⟨fun _ e _ f hf => ?_, fun _ => ⟨hspec.1, hmem, ?_, List.Sublist.refl _, ?_⟩⟩
    · rw [hnone] at hf
      cases hf
    · intro e he hnot
      exact absurd he hnot
    · change s.merged_event_count.toNat + source.length = _
      rw [hzero]
      exact Nat.zero_add _
  · have hpos : 0 < (counted insertable).length := by
      rw [← hcount]
      exact Nat.pos_of_ne_zero fun h => hzero (UInt32.toNat_inj.mp h)
    obtain ⟨first, hhead⟩ := Option.isSome_iff_exists.mp
      (List.isSome_head?.mpr (List.length_pos_iff.mp hpos))
    obtain ⟨last, hend⟩ := Option.isSome_iff_exists.mp
      (List.getLast?_isSome.mpr (List.length_pos_iff.mp hpos))
    have hend' : insertable.getLast? = some last := by
      rw [← hend]
      unfold counted at hpos ⊢
      rw [List.getLast?_drop, if_neg (by rw [List.length_drop] at hpos; omega)]
    have hleft : s.eraseMerged source = withoutRange source first last := by
      rw [MergeScan.eraseMerged, if_pos (UInt32.pos_iff_ne_zero.mpr hzero), hfirst hzero, hlast,
        hhead, hend']
    have hlength := length_rangeOf_add source first last
    have hiff := length_rangeOf_eq_iff hsource hsub hhead hend
    rw [noneRefusedBetween_iff (hsource.sublist hsub) hhead hend, ← hiff, hleft]
    constructor
    · intro h
      have hreturned := h.count
      dsimp only at hreturned
      omega
    · intro hrange
      refine ⟨hspec.1, hmem, fun e he hnot => ?_, List.filter_sublist, ?_⟩
      · dsimp only at hnot
        rw [withoutRange, List.mem_filter, not_and, Bool.not_eq_true', Bool.not_eq_false,
          Bool.and_eq_true] at hnot
        exact htaken e (hiff.mp hrange e (mem_rangeOf.mpr ⟨he, hnot he⟩))
      · dsimp only
        omega

/-- **What the master has** after a merge, whether it loses something or not. -/
theorem mem_mergeFrom_iff {events : List LogEvent}
    (hsource : source.Pairwise fun a b => compare a.sequence b.sequence = .lt)
    (hevents : events.Sublist source)
    (hscan : (events.takeWhile fun e => e.time < master.endTime).filter
      (fun e => master.Accepts e) = insertable) :
    e ∈ (mergeFrom master source events).master.events ↔
      e ∈ master.events ∨ e ∈ insertable ∧ e.sequence ∉ master.logEvents := by
  have hscanned :=
    (List.takeWhile_sublist fun e : LogEvent => e.time < master.endTime).trans hevents
  change e ∈ ((events.takeWhile fun e => e.time < master.endTime).foldl MergeScan.next
    { master }).master.events ↔ _
  rw [(foldl_next master _).1, mem_events_foldl_insertEvent (hsource.sublist hscanned), hscan]

/-- What a merge promises of one list of insertable events, from what it promises of the one it
took. -/
theorem losesNothing_congr_iff {wanted : List LogEvent} {r : Merged}
    (hr : ∀ e, e ∈ r.master.events ↔
      e ∈ master.events ∨ e ∈ insertable ∧ e.sequence ∉ master.logEvents) :
    LosesNothing master source wanted r ↔ LosesNothing master source insertable r ∧
      ∀ e, e.sequence ∉ master.logEvents → (e ∈ wanted ↔ e ∈ insertable) := by
  constructor
  · intro h
    refine ⟨⟨h.interval, hr, h.removed, h.left, h.count⟩, fun e hnew => ?_⟩
    have hnot : e ∉ master.events := by
      intro he
      rw [mem_events] at he
      exact hnew (Std.ExtTreeMap.mem_iff_isSome_getElem?.mpr (by rw [he]; rfl))
    have hboth := (h.master e).symm.trans (hr e)
    simpa only [hnot, hnew, not_false_eq_true, false_or, and_true] using hboth
  · rintro ⟨h, hsame⟩
    refine ⟨h.interval, fun e => ?_, h.removed, h.left, h.count⟩
    rw [hr]
    exact or_congr_right (and_congr_left fun hnew => (hsame e hnew).symm)

/-! ### The overloads -/

theorem time_le_of_sorted
    (h : source.Pairwise fun a b => compare a.sequence b.sequence = .lt) :
    source.Pairwise fun a b => a.time ≤ b.time :=
  h.imp fun hlt => EventSequence.time_le_of_lt hlt

/-- The master takes nothing behind its range. -/
theorem filter_takeWhile_endTime (h : scanned.Pairwise fun a b => a.time ≤ b.time) :
    (scanned.takeWhile fun e => e.time < master.endTime).filter (fun e => master.Accepts e) =
      scanned.filter fun e => master.Accepts e := by
  rw [SortedList.takeWhile_lt_eq_filter LogEvent.time h, List.filter_filter]
  refine List.filter_congr fun e _ => ?_
  rw [Bool.eq_iff_iff, Bool.and_eq_true, decide_eq_true_eq, decide_eq_true_eq]
  exact ⟨And.left, fun hacc => ⟨hacc, hacc.2.2.1⟩⟩

/-- The master takes nothing before its range. -/
theorem filter_dropWhile_startTime (h : source.Pairwise fun a b => a.time ≤ b.time) :
    (source.dropWhile fun e => e.time < master.startTime).filter (fun e => master.Accepts e) =
      source.filter fun e => master.Accepts e := by
  rw [SortedList.dropWhile_lt_eq_filter LogEvent.time h, List.filter_filter]
  refine List.filter_congr fun e _ => ?_
  rw [Bool.eq_iff_iff, Bool.and_eq_true, decide_eq_true_eq, decide_eq_true_eq]
  exact ⟨And.left, fun hacc => ⟨hacc, hacc.2.1⟩⟩

/-- Where the loop over a map starts, no insertable event is passed over. -/
theorem filter_drop_mergeStart {events : EventMap} {merge_start : ℕ}
    (hstart : events.logEvents[merge_start]? = some event) :
    (events.logEvents.drop (if event.time < master.startTime then
        events.lowerBound master.startTime else merge_start)).filter (fun e => master.Accepts e) =
      insertableOfMap master events merge_start := by
  have htimes := time_le_of_sorted events.sorted
  split
  · next hbefore =>
    rw [EventMap.lowerBound, SortedList.drop_length_takeWhile,
      filter_dropWhile_startTime htimes, insertableOfMap]
    -- the events before the iterator are before the master's range
    have hnone : (events.logEvents.take merge_start).filter (fun e => master.Accepts e) = [] := by
      refine List.filter_eq_nil_iff.mpr fun e he hacc => ?_
      rw [← List.take_append_drop merge_start events.logEvents] at htimes
      have hin : event ∈ events.logEvents.drop merge_start := by
        rw [← List.head?_drop] at hstart
        exact List.mem_of_head? hstart
      have hle := (List.pairwise_append.mp htimes).2.2 e he event hin
      have hge := (of_decide_eq_true hacc).2.1
      omega
    nth_rewrite 1 [← List.take_append_drop merge_start events.logEvents]
    rw [List.filter_append, hnone, List.nil_append]
  · rfl

theorem losesNothing_nil (r : Merged) (hr : r = ⟨master, [], 0⟩) :
    LosesNothing master [] [] r := by
  subst hr
  refine ⟨⟨rfl, rfl, rfl⟩, fun e => by simp, fun e he => ?_, List.Sublist.refl _, rfl⟩
  cases he

/-- **The merge of a map loses nothing** if and only if the iterator can be followed and none
is refused in between. -/
theorem losesNothing_mergeEventsOfMap_iff (events : EventMap) (merge_start : ℕ) :
    (∃ r iter, mergeEventsOfMap master events merge_start = some (r, iter) ∧
      LosesNothing master events.logEvents (insertableOfMap master events merge_start) r) ↔
    (events.logEvents = [] ∨ merge_start < events.logEvents.length) ∧
      NoneRefusedBetween events.logEvents (insertableOfMap master events merge_start) := by
  unfold mergeEventsOfMap
  split
  · next hempty =>
    have hnil := List.isEmpty_iff.mp hempty
    have hnone : insertableOfMap master events merge_start = [] := by
      rw [insertableOfMap, hnil, List.drop_nil, List.filter_nil]
    rw [hnone, hnil]
    refine ⟨fun _ => ⟨Or.inl rfl, fun e he => ?_⟩, fun _ => ⟨_, _, rfl, losesNothing_nil _ rfl⟩⟩
    cases he
  · next hne =>
    have hlong : events.logEvents ≠ [] := fun h => hne (by rw [h]; rfl)
    cases hstart : events.logEvents[merge_start]? with
    | none =>
      have hend := List.getElem?_eq_none_iff.mp hstart
      simp only [Option.map_none, reduceCtorEq, false_and, exists_false, hlong, false_or,
        not_lt.mpr hend]
    | some event =>
      have hin : merge_start < events.logEvents.length :=
        (List.getElem?_eq_some_iff.mp hstart).1
      have hsub := List.drop_sublist (if event.time < master.startTime then
        events.lowerBound master.startTime else merge_start) events.logEvents
      have hscan := (@filter_takeWhile_endTime master _
        ((time_le_of_sorted events.sorted).sublist hsub)).trans (filter_drop_mergeStart hstart)
      have hiff := losesNothing_mergeFrom_iff events.sorted hsub hscan
      simp only [Option.map_some, Option.some.injEq, Prod.mk.injEq, and_assoc, hin, or_true,
        true_and, ← hiff]
      constructor
      · rintro ⟨r, iter, rfl, -, h⟩
        exact h
      · intro h
        exact ⟨_, _, rfl, rfl, h⟩

/-- The merge of a chunk loses none of the events from where it starts, if and only if none is
refused in between. -/
theorem losesNothing_reachedOfChunk_iff (other_chunk : IncomingChunk) (merge_start_time : UInt64) :
    (∀ e, e ∈ (mergeEvents master other_chunk merge_start_time).master.events ↔ e ∈ master.events ∨
        e ∈ reachedOfChunk master other_chunk merge_start_time ∧ e.sequence ∉ master.logEvents) ∧
      (LosesNothing master other_chunk.logEvents
        (reachedOfChunk master other_chunk merge_start_time)
          (mergeEvents master other_chunk merge_start_time) ↔
        NoneRefusedBetween other_chunk.logEvents
          (reachedOfChunk master other_chunk merge_start_time)) := by
  unfold mergeEvents
  split
  · next hempty =>
    have hnil := List.isEmpty_iff.mp hempty
    have hnone : reachedOfChunk master other_chunk merge_start_time = [] := by
      rw [reachedOfChunk, insertableFrom, hnil, List.filter_nil]
    rw [hnone, hnil]
    refine ⟨fun e => by simp, fun _ e he => ?_, fun _ => losesNothing_nil _ rfl⟩
    cases he
  · have htimes := time_le_of_sorted other_chunk.sorted
    have hdrop : ∀ t, other_chunk.eventsFrom t =
        other_chunk.logEvents.filter fun e => t ≤ e.time :=
      fun t => SortedList.dropWhile_lt_eq_filter LogEvent.time htimes t
    dsimp only
    have hsub : ∀ start : ℕ, (if start < master.startTime then
        other_chunk.eventsFrom master.startTime else other_chunk.eventsFrom start).Sublist
          other_chunk.logEvents := by
      intro start
      split <;> exact List.dropWhile_sublist _
    have hscan : ∀ start : ℕ, ((if start < master.startTime then
        other_chunk.eventsFrom master.startTime else other_chunk.eventsFrom start).takeWhile
          fun e => e.time < master.endTime).filter (fun e => master.Accepts e) =
            insertableFrom master other_chunk start := by
      intro start
      rw [filter_takeWhile_endTime (htimes.sublist (hsub start))]
      unfold insertableFrom
      split
      · next hbefore =>
        rw [hdrop, List.filter_filter]
        refine List.filter_congr fun e _ => ?_
        rw [Bool.eq_iff_iff]
        simp only [Bool.and_eq_true, decide_eq_true_eq]
        exact ⟨fun h => ⟨by omega, h.1⟩, fun h => ⟨h.2, h.2.2.1⟩⟩
      · rw [hdrop, List.filter_filter]
        refine List.filter_congr fun e _ => ?_
        rw [Bool.and_comm]
    exact ⟨fun e => mem_mergeFrom_iff other_chunk.sorted (hsub _) (hscan _),
      losesNothing_mergeFrom_iff other_chunk.sorted (hsub _) (hscan _)⟩

theorem startsAsAsked_iff (other_chunk : IncomingChunk) (merge_start_time : UInt64) :
    StartsAsAsked master other_chunk merge_start_time ↔
      ∀ e, e.sequence ∉ master.logEvents →
        (e ∈ insertableOfChunk master other_chunk merge_start_time ↔
          e ∈ reachedOfChunk master other_chunk merge_start_time) := by
  unfold StartsAsAsked insertableOfChunk reachedOfChunk insertableFrom
  simp only [List.mem_filter, Bool.and_eq_true, decide_eq_true_eq]
  constructor
  · intro h e hnew
    exact ⟨fun ⟨he, hle, hacc⟩ => ⟨he, (h e he hacc hnew).mp hle, hacc⟩,
      fun ⟨he, hle, hacc⟩ => ⟨he, (h e he hacc hnew).mpr hle, hacc⟩⟩
  · intro h e he hacc hnew
    exact ⟨fun hle => ((h e hnew).mp ⟨he, hle, hacc⟩).2.1,
      fun hle => ((h e hnew).mpr ⟨he, hle, hacc⟩).2.1⟩

/-- **The merge of a chunk loses nothing** if and only if none is refused in between, and where
the merge start is put back nothing is gained or missed. -/
theorem losesNothing_mergeEvents_iff (other_chunk : IncomingChunk) (merge_start_time : UInt64) :
    LosesNothing master other_chunk.logEvents
        (insertableOfChunk master other_chunk merge_start_time)
        (mergeEvents master other_chunk merge_start_time) ↔
      StartsAsAsked master other_chunk merge_start_time ∧
        NoneRefusedBetween other_chunk.logEvents
          (reachedOfChunk master other_chunk merge_start_time) := by
  obtain ⟨hmem, hiff⟩ := @losesNothing_reachedOfChunk_iff master other_chunk merge_start_time
  rw [losesNothing_congr_iff hmem, hiff, startsAsAsked_iff, and_comm]

/-- **Both overloads lose nothing** if and only if no event between two that are taken is
refused, the iterator of a map that is not empty is not its end, and where the merge start of a
chunk is put back the master accepts nothing new in between. -/
theorem mergeEvents_loses_nothing_iff (master : StoryChunk) :
    (∀ (events : EventMap) (merge_start : ℕ),
      (∃ r iter, mergeEventsOfMap master events merge_start = some (r, iter) ∧
        LosesNothing master events.logEvents (insertableOfMap master events merge_start) r) ↔
      (events.logEvents = [] ∨ merge_start < events.logEvents.length) ∧
        NoneRefusedBetween events.logEvents (insertableOfMap master events merge_start)) ∧
    ∀ (other_chunk : IncomingChunk) (merge_start_time : UInt64),
      LosesNothing master other_chunk.logEvents
          (insertableOfChunk master other_chunk merge_start_time)
          (mergeEvents master other_chunk merge_start_time) ↔
        StartsAsAsked master other_chunk merge_start_time ∧
          NoneRefusedBetween other_chunk.logEvents
            (reachedOfChunk master other_chunk merge_start_time) :=
  ⟨losesNothing_mergeEventsOfMap_iff, losesNothing_mergeEvents_iff⟩

/-- A second of story 7 with no events. -/
def emptySecond : StoryChunk := new 7 0 1000000000

/-- An event without a record between two others. -/
def refusedBetween : IncomingChunk where
  startTime := 0
  endTime := 1000000000
  logEvents := [⟨7, 100, 1, 0, [1]⟩, ⟨7, 200, 1, 0, []⟩, ⟨7, 300, 1, 0, [1]⟩]
  carriedReceipts := ∅
  sorted := by decide

/-- One event. -/
def oneEarly : IncomingChunk where
  startTime := 0
  endTime := 1000000000
  logEvents := [⟨7, 100, 1, 0, [1]⟩]
  carriedReceipts := ∅
  sorted := by decide

/-- **The event without a record leaves the chunk and is nowhere**: three events leave and two
are counted.  A merge from the end of a chunk on takes the events before it. -/
theorem refused_event_lost :
    ¬LosesNothing emptySecond refusedBetween.logEvents
      (insertableOfChunk emptySecond refusedBetween 0)
        (mergeEvents emptySecond refusedBetween 0) ∧
      ¬LosesNothing emptySecond oneEarly.logEvents
        (insertableOfChunk emptySecond oneEarly 1000000000)
        (mergeEvents emptySecond oneEarly 1000000000) ∧
      ¬∃ r iter, mergeEventsOfMap emptySecond ⟨refusedBetween.logEvents, refusedBetween.sorted⟩ 0 =
          some (r, iter) ∧
        LosesNothing emptySecond refusedBetween.logEvents
          (insertableOfMap emptySecond ⟨refusedBetween.logEvents, refusedBetween.sorted⟩ 0) r := by
  refine ⟨?_, ?_, fun h => ?_⟩
  · rw [losesNothing_mergeEvents_iff]
    decide +kernel
  · rw [losesNothing_mergeEvents_iff]
    decide +kernel
  · have hnone := ((losesNothing_mergeEventsOfMap_iff
      ⟨refusedBetween.logEvents, refusedBetween.sorted⟩ 0).mp h).2
    revert hnone
    decide +kernel

/-! ### The merge of a pipeline's window -/

open StoryPipeline (mergeChunk)

theorem counted_of_lt (h : insertable.length < 2 ^ 32) : counted insertable = insertable := by
  rw [counted, Nat.mod_eq_of_lt h, Nat.sub_self, List.drop_zero]

theorem eventsFrom_of_empty {c : IncomingChunk} (h : c.empty = true) (t : ℕ) :
    c.eventsFrom t = [] := by
  rw [IncomingChunk.eventsFrom, List.isEmpty_iff.mp h, List.dropWhile_nil]

/-- **A pipeline's window merges a chunk as the second overload does** from the default start
time, as long as the number of events taken fits in 32 bits. -/
theorem mergeEvents_eq_mergeChunk (w : TimelineChunk) (c : IncomingChunk)
    (hfits : ((StoryPipeline.scanned w c).filter
      fun e => w.toStoryChunk.Accepts e).length < 2 ^ 32) :
    (mergeEvents w.toStoryChunk c 0).master = (mergeChunk w c).1.toStoryChunk ∧
      (mergeEvents w.toStoryChunk c 0).source = (mergeChunk w c).2.logEvents := by
  have hscan : StoryPipeline.scanned w c =
      (if mergeStartTime c 0 < w.startTime then c.eventsFrom w.startTime
        else c.eventsFrom (mergeStartTime c 0)).takeWhile fun e => e.time < w.endTime := by
    rw [mergeStartTime, if_pos (Or.inl rfl), StoryPipeline.scanned]
    split <;> rfl
  unfold mergeEvents mergeChunk StoryPipeline.offer
  split
  · next hempty =>
    have hnone : StoryPipeline.scanned w c = [] := by
      rw [hscan, eventsFrom_of_empty hempty, eventsFrom_of_empty hempty, ite_self,
        List.takeWhile_nil]
    rw [hnone]
    exact ⟨rfl, rfl⟩
  · obtain ⟨hmaster, hcount, hlast, hfirst⟩ := foldl_next w.toStoryChunk (StoryPipeline.scanned w c)
    generalize hinsertable : (StoryPipeline.scanned w c).filter
      (fun e => w.toStoryChunk.Accepts e) = insertable at hfits hcount hlast hfirst ⊢
    rw [Nat.mod_eq_of_lt hfits] at hcount
    rw [counted_of_lt hfits] at hfirst
    rw [hscan] at hmaster hcount hlast hfirst ⊢
    unfold mergeFrom mergeScan
    refine ⟨hmaster, ?_⟩
    dsimp only
    generalize ((if mergeStartTime c 0 < w.startTime then _ else _ : List LogEvent).takeWhile
      fun e => e.time < w.endTime).foldl MergeScan.next { master := w.toStoryChunk } = s
      at hcount hlast hfirst ⊢
    unfold MergeScan.eraseMerged
    split
    · next hpos =>
      rw [hfirst (UInt32.pos_iff_ne_zero.mp hpos), hlast]
      cases insertable.head? <;> cases insertable.getLast? <;> rfl
    · next hzero =>
      have hnil : insertable = [] := by
        rw [UInt32.pos_iff_ne_zero, not_not] at hzero
        rw [← List.length_eq_zero_iff, ← hcount, hzero]
        rfl
      rw [hnil]
      rfl

end StoryChunk

end ChronoLog
