import ChronoLog.Pipeline.GrapherMerge

/-!
# What a window takes of a chunk

A window is offered the chunk's events of its range and takes those it accepts.  What leaves
the chunk is the range from the first one taken to the last.  Before that the window is
given the chunk's receipts, and every one it did not carry is reported held.

## Main definitions

* `StoryPipeline.TakenBy`, `StoryPipeline.Between` — the events a window takes, and those that
  leave the chunk with them.
* `StoryPipeline.stateAfter` — the state of a merge after a window took its events.
* `StoryPipeline.Recorded` — what the calls of the tracker say of the receipts carried.

## Main results

* `StoryPipeline.mem_mergeChunk` — what leaves the chunk.
* `StoryPipeline.mem_holdReceipts_of_event`, `StoryPipeline.count_holdReceipts` — a window
  with an event of the chunk carries its receipts, and each new one is reported once.
* `StoryPipeline.Recorded.stateAfter` — the calls keep saying what is carried.
-/

namespace ChronoLog

open OrderedMap

namespace IncomingChunk

variable {c : IncomingChunk} {e f : LogEvent} {t : ℕ}

theorem time_le_of_isLE (h : (compare e.sequence f.sequence).isLE = true) :
    e.time ≤ f.time := by
  cases hcmp : compare e.sequence f.sequence with
  | lt => exact EventSequence.time_le_of_lt hcmp
  | eq => exact (LogEvent.time_eq_of_sequence_eq (Std.LawfulEqOrd.eq_of_compare hcmp)).le
  | gt =>
    rw [hcmp] at h
    cases h

theorem pairwise_time (c : IncomingChunk) :
    c.logEvents.Pairwise fun a b => a.time ≤ b.time :=
  c.sorted.imp fun h => EventSequence.time_le_of_lt h

theorem mem_eventsFrom : e ∈ c.eventsFrom t ↔ e ∈ c.logEvents ∧ t ≤ e.time :=
  SortedList.mem_dropWhile_lt LogEvent.time c.pairwise_time t

theorem empty_eq_false_iff : c.empty = false ↔ ∃ e, e ∈ c.logEvents := by
  unfold empty
  cases c.logEvents with
  | nil => simp
  | cons a l => simp only [List.isEmpty_cons, true_iff]; exact ⟨a, List.mem_cons_self⟩

theorem firstEventTime_le (h : e ∈ c.logEvents) : c.firstEventTime ≤ e.time := by
  have hsorted := c.pairwise_time
  unfold firstEventTime
  cases hev : c.logEvents with
  | nil =>
    rw [hev] at h
    cases h
  | cons a l =>
    rw [hev] at h hsorted
    rcases List.mem_cons.mp h with rfl | h
    · exact le_rfl
    · exact (List.pairwise_cons.mp hsorted).1 e h

theorem exists_firstEventTime (h : c.empty = false) :
    ∃ e ∈ c.logEvents, e.time = c.firstEventTime := by
  unfold firstEventTime
  unfold empty at h
  cases hev : c.logEvents with
  | nil =>
    rw [hev] at h
    cases h
  | cons a l => exact ⟨a, List.mem_cons_self, rfl⟩

theorem mem_of_mem_eraseEvents {start stop : ℕ} (h : e ∈ (c.eraseEvents start stop).logEvents) :
    e ∈ c.logEvents := by
  unfold eraseEvents at h
  dsimp only at h
  split at h
  · exact h
  · exact List.mem_of_mem_filter h

end IncomingChunk

namespace StoryPipeline

open StoryTimeline (Placeable placeable_congr)

variable {w : TimelineChunk} {c : IncomingChunk} {e f : LogEvent}

theorem mem_scanned :
    e ∈ scanned w c ↔ e ∈ c.logEvents ∧ c.startTime.toNat ≤ e.time ∧ w.startTime ≤ e.time ∧
      e.time < w.endTime := by
  have hsorted : ∀ t, (c.eventsFrom t).Pairwise fun a b => a.time ≤ b.time := fun t =>
    SortedList.pairwise_dropWhile c.pairwise_time _
  unfold scanned
  simp only [SortedList.mem_takeWhile_lt LogEvent.time (hsorted _), IncomingChunk.mem_eventsFrom]
  split <;> constructor
  · rintro ⟨⟨hmem, hle⟩, hlt⟩
    exact ⟨hmem, by omega, hle, hlt⟩
  · rintro ⟨hmem, -, hle, hlt⟩
    exact ⟨⟨hmem, hle⟩, hlt⟩
  · rintro ⟨⟨hmem, hle⟩, hlt⟩
    exact ⟨hmem, hle, by omega, hlt⟩
  · rintro ⟨hmem, hle, -, hlt⟩
    exact ⟨⟨hmem, hle⟩, hlt⟩

/-- The window takes this event of the chunk. -/
def TakenBy (w : TimelineChunk) (c : IncomingChunk) (e : LogEvent) : Prop :=
  e ∈ c.logEvents ∧ c.startTime.toNat ≤ e.time ∧ w.toStoryChunk.Accepts e

theorem mem_merged :
    e ∈ (scanned w c).filter (fun e => w.toStoryChunk.Accepts e) ↔ TakenBy w c e := by
  rw [List.mem_filter, mem_scanned, decide_eq_true_eq]
  constructor
  · rintro ⟨⟨hmem, hle, -, -⟩, hacc⟩
    exact ⟨hmem, hle, hacc⟩
  · rintro ⟨hmem, hle, hacc⟩
    exact ⟨⟨hmem, hle, hacc.2.1, hacc.2.2.1⟩, hacc⟩

theorem sorted_merged (w : TimelineChunk) (c : IncomingChunk) :
    ((scanned w c).filter fun e => w.toStoryChunk.Accepts e).Pairwise fun a b =>
      compare a.sequence b.sequence = .lt := by
  refine c.sorted.sublist (List.filter_sublist.trans ?_)
  exact (List.takeWhile_sublist _).trans (List.dropWhile_sublist _)

theorem isLE_self (e : LogEvent) : (compare e.sequence e.sequence).isLE = true := by
  have hself : compare e.sequence e.sequence = .eq := Std.ReflCmp.compare_self
  rw [hself]
  rfl

/-- The event lies between two that the window takes. -/
def Between (w : TimelineChunk) (c : IncomingChunk) (e : LogEvent) : Prop :=
  ∃ f l, TakenBy w c f ∧ TakenBy w c l ∧ (compare f.sequence e.sequence).isLE = true ∧
    (compare e.sequence l.sequence).isLE = true

/-- **What leaves the chunk when a window takes its events**: all from the first one taken
to the last. -/
theorem mem_mergeChunk :
    e ∈ (mergeChunk w c).2.logEvents ↔ e ∈ c.logEvents ∧ ¬Between w c e := by
  have hsorted := sorted_merged w c
  unfold mergeChunk
  generalize hm : (scanned w c).filter (fun e => w.toStoryChunk.Accepts e) = merged at hsorted
  have hmem : ∀ f, f ∈ merged ↔ TakenBy w c f := fun f => by
    rw [← hm]
    exact mem_merged
  cases merged with
  | nil =>
    simp only [List.head?_nil, List.getLast?_nil]
    refine ⟨fun he => ⟨he, ?_⟩, And.left⟩
    rintro ⟨f, l, hf, -⟩
    exact absurd ((hmem f).mpr hf) (List.not_mem_nil)
  | cons a l =>
    obtain ⟨last, hlast⟩ := Option.ne_none_iff_exists'.mp
      (mt List.getLast?_eq_none_iff.mp (List.cons_ne_nil a l))
    simp only [List.head?_cons, hlast]
    have hfirst : ∀ f, TakenBy w c f → (compare a.sequence f.sequence).isLE = true :=
      fun f hf => SortedList.isLE_of_head? LogEvent.sequence hsorted List.head?_cons
        ((hmem f).mpr hf)
    have hend : ∀ f, TakenBy w c f → (compare f.sequence last.sequence).isLE = true :=
      fun f hf =>
        SortedList.isLE_of_getLast? LogEvent.sequence hsorted hlast ((hmem f).mpr hf)
    have ha : TakenBy w c a := (hmem a).mp List.mem_cons_self
    have hl : TakenBy w c last := (hmem last).mp (List.mem_of_getLast? hlast)
    unfold IncomingChunk.eraseRange IncomingChunk.keep
    rw [List.mem_filter, Bool.not_eq_true', Bool.and_eq_false_iff]
    constructor
    · rintro ⟨he, hout⟩
      refine ⟨he, ?_⟩
      rintro ⟨f, l', hf, hl', hfe, hel⟩
      rcases hout with hout | hout
      · rw [Std.TransCmp.isLE_trans (hfirst f hf) hfe] at hout
        cases hout
      · rw [Std.TransCmp.isLE_trans hel (hend l' hl')] at hout
        cases hout
    · rintro ⟨he, hout⟩
      refine ⟨he, ?_⟩
      by_contra hin
      rw [not_or, Bool.not_eq_false, Bool.not_eq_false] at hin
      exact hout ⟨a, last, ha, hl, hin.1, hin.2⟩

/-- A chunk that was offered events has its range and its story, keeps the events it had, and
holds those it takes. -/
theorem foldl_insertEvent_spec (events : List LogEvent) (chunk : StoryChunk) :
    let after := events.foldl (fun chunk e => (chunk.insertEvent e).1) chunk
    (after.storyId = chunk.storyId ∧ after.startTime = chunk.startTime ∧
      after.endTime = chunk.endTime) ∧
      (∀ seq, seq ∈ chunk.logEvents → seq ∈ after.logEvents) ∧
      ∀ e ∈ events, chunk.Accepts e → e.sequence ∈ after.logEvents := by
  induction events generalizing chunk with
  | nil => exact ⟨⟨rfl, rfl, rfl⟩, fun _ h => h, fun e he => by cases he⟩
  | cons a events ih =>
    obtain ⟨hfields, hkept, htaken⟩ := ih (chunk.insertEvent a).1
    have hinterval := StoryChunk.insertEvent_interval chunk a
    have hstays : ∀ seq, seq ∈ chunk.logEvents → seq ∈ (chunk.insertEvent a).1.logEvents := by
      intro seq hseq
      by_cases hacc : chunk.Accepts a
      · rw [(StoryChunk.insertEvent_of_accepts hacc).2]
        exact Std.ExtTreeMap.mem_insertIfNew.mpr (Or.inr hseq)
      · unfold StoryChunk.insertEvent
        rw [dif_neg hacc]
        exact hseq
    refine ⟨⟨hfields.1.trans hinterval.1, hfields.2.1.trans hinterval.2.1,
      hfields.2.2.trans hinterval.2.2⟩, fun seq hseq => hkept seq (hstays seq hseq), ?_⟩
    intro e he hacc
    rcases List.mem_cons.mp he with rfl | he
    · refine hkept _ ?_
      rw [(StoryChunk.insertEvent_of_accepts hacc).2]
      exact Std.ExtTreeMap.mem_insertIfNew_self
    · refine htaken e he ?_
      unfold StoryChunk.Accepts
      rw [hinterval.1, hinterval.2.1, hinterval.2.2]
      exact hacc

/-- A chunk that was offered events holds no other sequences. -/
theorem mem_of_foldl_insertEvent {events : List LogEvent} {chunk : StoryChunk}
    {seq : EventSequence}
    (h : seq ∈ (events.foldl (fun chunk e => (chunk.insertEvent e).1) chunk).logEvents) :
    seq ∈ chunk.logEvents ∨ ∃ e ∈ events, e.sequence = seq := by
  induction events generalizing chunk with
  | nil => exact Or.inl h
  | cons a events ih =>
    rcases ih h with h | ⟨e, he, rfl⟩
    · by_cases hacc : chunk.Accepts a
      · rw [(StoryChunk.insertEvent_of_accepts hacc).2, Std.ExtTreeMap.mem_insertIfNew,
          Std.LawfulEqOrd.compare_eq_iff_eq] at h
        rcases h with h | h
        · exact Or.inr ⟨a, List.mem_cons_self, h⟩
        · exact Or.inl h
      · dsimp only at h
        unfold StoryChunk.insertEvent at h
        rw [dif_neg hacc] at h
        exact Or.inl h
    · exact Or.inr ⟨e, List.mem_cons_of_mem a he, rfl⟩

theorem mem_foldl_insert {l : List ℕ} {s : OrdSet ℕ} {r : ℕ} :
    r ∈ l.foldl (·.insert ·) s ↔ r ∈ s ∨ r ∈ l := by
  induction l generalizing s with
  | nil => simp
  | cons a l ih =>
    rw [List.foldl_cons, ih, Std.ExtTreeSet.mem_insert, Std.LawfulEqOrd.compare_eq_iff_eq,
      List.mem_cons, eq_comm (a := r)]
    tauto

theorem nodup_toList_set (s : OrdSet ℕ) : s.toList.Nodup := by
  refine List.Pairwise.imp ?_ (Std.ExtTreeSet.ordered_toList (t := s))
  rintro a b hlt rfl
  rw [(Std.ReflCmp.compare_self : compare a a = .eq)] at hlt
  cases hlt

variable {a : Attachments} {r : ℕ}

theorem holdReceipts_toStoryChunk (a : Attachments) (w : TimelineChunk) (c : IncomingChunk) :
    (holdReceipts a w c).1.toStoryChunk = w.toStoryChunk := by
  unfold holdReceipts
  split <;> rfl

/-- The receipts a holder carries: those it had and those it is given. -/
theorem mem_holdReceipts :
    r ∈ (holdReceipts a w c).1.carriedReceipts ↔
      r ∈ w.carriedReceipts ∨ r ∈ (holdReceipts a w c).2 := by
  unfold holdReceipts
  split
  · exact mem_foldl_insert
  · simp

/-- **One hold for every receipt a holder did not carry.** -/
theorem count_holdReceipts :
    (holdReceipts a w c).2.count r =
      if r ∈ (holdReceipts a w c).1.carriedReceipts ∧ r ∉ w.carriedReceipts then 1 else 0 := by
  have hnodup : (holdReceipts a w c).2.Nodup := by
    unfold holdReceipts
    split
    · exact (nodup_toList_set _).filter _
    · exact List.nodup_nil
  have hnew : r ∈ (holdReceipts a w c).2 → r ∉ w.carriedReceipts := by
    unfold holdReceipts
    split
    · intro h
      have hnot := (List.mem_filter.mp h).2
      rw [Std.ExtTreeSet.mem_iff_contains, Bool.not_eq_true]
      rw [Bool.not_eq_true'] at hnot
      exact hnot
    · intro h
      cases h
  by_cases h : r ∈ (holdReceipts a w c).2
  · rw [List.count_eq_one_of_mem hnodup h, if_pos ⟨mem_holdReceipts.mpr (Or.inr h), hnew h⟩]
  · rw [List.count_eq_zero_of_not_mem h, if_neg]
    rintro ⟨hcarries, hnot⟩
    rcases mem_holdReceipts.mp hcarries with hold | hnew
    · exact hnot hold
    · exact h hnew

/-- A holder in whose range the chunk has an event carries its receipts. -/
theorem mem_holdReceipts_of_event (htracker : a.theReceiptTracker = true)
    (he : e ∈ c.logEvents) (hstart : w.startTime ≤ e.time) (hend : e.time < w.endTime)
    (hr : r ∈ c.carriedReceipts) : r ∈ (holdReceipts a w c).1.carriedReceipts := by
  have hhas : hasEventFor w c = true := by
    have hmem := IncomingChunk.mem_eventsFrom.mpr ⟨he, hstart⟩
    have hsorted : (c.eventsFrom w.startTime).Pairwise fun a b => a.time ≤ b.time :=
      SortedList.pairwise_dropWhile c.pairwise_time _
    unfold hasEventFor
    cases hfrom : c.eventsFrom w.startTime with
    | nil =>
      rw [hfrom] at hmem
      cases hmem
    | cons b l =>
      rw [hfrom] at hmem hsorted
      rw [List.head?_cons, Option.any_some, decide_eq_true_eq]
      rcases List.mem_cons.mp hmem with rfl | hmem
      · exact hend
      · exact ((List.pairwise_cons.mp hsorted).1 e hmem).trans_lt hend
  unfold holdReceipts
  rw [htracker, hhas, Bool.and_self, if_pos rfl]
  refine mem_foldl_insert.mpr ?_
  by_cases hcarried : r ∈ w.carriedReceipts
  · exact Or.inl hcarried
  · refine Or.inr (List.mem_filter.mpr ⟨Std.ExtTreeSet.mem_toList.mpr hr, ?_⟩)
    rw [Std.ExtTreeSet.mem_iff_contains, Bool.not_eq_true] at hcarried
    rw [Bool.not_eq_true']
    exact hcarried

/-! ### A window after it took its events -/

/-- A window after it was given a chunk's receipts and took its events. -/
def windowAfter (a : Attachments) (w : TimelineChunk) (c : IncomingChunk) : TimelineChunk :=
  (mergeChunk (holdReceipts a w c).1 c).1

theorem windowAfter_spec (a : Attachments) (w : TimelineChunk) (c : IncomingChunk) :
    ((windowAfter a w c).storyId = w.storyId ∧ (windowAfter a w c).startTime = w.startTime ∧
      (windowAfter a w c).endTime = w.endTime) ∧
      (windowAfter a w c).carriedReceipts = (holdReceipts a w c).1.carriedReceipts ∧
      ∀ e, TakenBy w c e → e.sequence ∈ (windowAfter a w c).logEvents := by
  have hsame := holdReceipts_toStoryChunk a w c
  have hchunk : (windowAfter a w c).toStoryChunk =
      (scanned (holdReceipts a w c).1 c).foldl (fun chunk e => (chunk.insertEvent e).1)
        w.toStoryChunk := by
    rw [← hsame]
    rfl
  obtain ⟨hfields, -, htaken⟩ :=
    foldl_insertEvent_spec (scanned (holdReceipts a w c).1 c) w.toStoryChunk
  rw [← hchunk] at hfields htaken
  refine ⟨hfields, rfl, fun e he => ?_⟩
  refine htaken e (mem_scanned.mpr ⟨he.1, he.2.1, ?_, ?_⟩) he.2.2
  · rw [hsame]
    exact he.2.2.2.1
  · rw [hsame]
    exact he.2.2.2.2.1

/-- The window keeps its events, and gains no others than the chunk's. -/
theorem mem_windowAfter (a : Attachments) (w : TimelineChunk) (c : IncomingChunk)
    (seq : EventSequence) :
    (seq ∈ w.logEvents → seq ∈ (windowAfter a w c).logEvents) ∧
      (seq ∈ (windowAfter a w c).logEvents →
        seq ∈ w.logEvents ∨ ∃ e ∈ c.logEvents, e.sequence = seq) := by
  have hchunk : (windowAfter a w c).toStoryChunk =
      (scanned (holdReceipts a w c).1 c).foldl (fun chunk e => (chunk.insertEvent e).1)
        w.toStoryChunk := by
    rw [← holdReceipts_toStoryChunk a w c]
    rfl
  rw [hchunk]
  refine ⟨(foldl_insertEvent_spec _ w.toStoryChunk).2.1 seq, fun h => ?_⟩
  rcases mem_of_foldl_insertEvent h with h | ⟨e, he, heq⟩
  · exact Or.inl h
  · exact Or.inr ⟨e, (mem_scanned.mp he).1, heq⟩

/-- The state of a merge after a window took its events. -/
def stateAfter (a : Attachments) (s : Merge) (k : ℕ) (w : TimelineChunk) : Merge :=
  { s with
    timeline :=
      { s.timeline with
        storyTimelineMap := s.timeline.storyTimelineMap.insert k (windowAfter a w s.other) }
    other := (mergeChunk (holdReceipts a w s.other).1 s.other).2
    calls := s.calls ++ (holdReceipts a w s.other).2.map (.holdReceipt (.window k)) }

variable {s : Merge} {k : ℕ}

theorem mergeInto_eq (hiter : s.iter = some k)
    (hw : s.timeline.storyTimelineMap[k]? = some w) :
    mergeInto a s = some (stateAfter a s k w) := by
  rw [mergeInto, hiter, Option.bind_some, hw, Option.map_some, stateAfter, hiter]
  rfl

theorem exists_of_mergeInto {s' : Merge} (h : mergeInto a s = some s') :
    ∃ (k : ℕ) (w : TimelineChunk), s.iter = some k ∧
      s.timeline.storyTimelineMap[k]? = some w ∧ s' = stateAfter a s k w := by
  obtain ⟨k, hiter, hwindow⟩ := Option.bind_eq_some_iff.mp h
  obtain ⟨w, hw, -⟩ := Option.map_eq_some_iff.mp hwindow
  rw [mergeInto_eq hiter hw, Option.some.injEq] at h
  exact ⟨k, w, hiter, hw, h.symm⟩

theorem mem_stateAfter :
    e ∈ (stateAfter a s k w).other.logEvents ↔
      e ∈ s.other.logEvents ∧ ¬Between w s.other e := by
  refine mem_mergeChunk.trans (and_congr_right fun _ => not_congr ?_)
  unfold Between TakenBy
  rw [holdReceipts_toStoryChunk]

theorem chunk_stateAfter :
    (stateAfter a s k w).other.startTime = s.other.startTime ∧
      (stateAfter a s k w).other.endTime = s.other.endTime ∧
      (stateAfter a s k w).other.carriedReceipts = s.other.carriedReceipts := by
  change (mergeChunk (holdReceipts a w s.other).1 s.other).2.startTime = _ ∧
    (mergeChunk (holdReceipts a w s.other).1 s.other).2.endTime = _ ∧
    (mergeChunk (holdReceipts a w s.other).1 s.other).2.carriedReceipts = _
  unfold mergeChunk
  dsimp only
  split <;> exact ⟨rfl, rfl, rfl⟩

theorem getElem?_stateAfter (j : ℕ) :
    (stateAfter a s k w).timeline.storyTimelineMap[j]? =
      if k = j then some (windowAfter a w s.other) else s.timeline.storyTimelineMap[j]? := by
  change (s.timeline.storyTimelineMap.insert k (windowAfter a w s.other))[j]? = _
  simp only [Std.ExtTreeMap.getElem?_insert, Std.LawfulEqOrd.compare_eq_iff_eq]

/-! ### The receipts held -/

/-- The holder carries the receipt. -/
def carriedBy (timeline : StoryTimeline) (stashed : List TimelineChunk) :
    Holder → ℕ → Bool
  | .window k, r => timeline.storyTimelineMap[k]?.any fun w => w.carriedReceipts.contains r
  | .salvage t, r => stashed.any fun w => w.startTime == t && w.carriedReceipts.contains r

theorem carriedBy_window {q : StoryTimeline} {stashed : List TimelineChunk} :
    carriedBy q stashed (.window k) r = true ↔
      ∃ w : TimelineChunk, q.storyTimelineMap[k]? = some w ∧ r ∈ w.carriedReceipts := by
  change (q.storyTimelineMap[k]?.any fun w => w.carriedReceipts.contains r) = true ↔ _
  rw [Option.any_eq_true]
  simp only [Std.ExtTreeSet.mem_iff_contains]

/-- **What has been recorded of the receipts**: every window that came to carry a receipt was
reported once, no other was, and nothing else was reported. -/
structure Recorded (p : StoryTimeline) (s : Merge) : Prop where
  kept : ∀ k r, carriedBy p [] (.window k) r = true →
    carriedBy s.timeline [] (.window k) r = true
  counts : ∀ k r, s.calls.count (.holdReceipt (.window k) r) =
    if carriedBy s.timeline [] (.window k) r && !carriedBy p [] (.window k) r then 1 else 0
  calls : ∀ call ∈ s.calls, ∃ k r, call = .holdReceipt (.window k) r
  stashed : s.stashed = []
  kept_going : s.discarded = false

variable {p : StoryTimeline}

theorem carriedBy_stateAfter (hw : s.timeline.storyTimelineMap[k]? = some w) (j : ℕ) :
    carriedBy (stateAfter a s k w).timeline [] (.window j) r = true ↔
      carriedBy s.timeline [] (.window j) r = true ∨
        k = j ∧ r ∈ (holdReceipts a w s.other).2 := by
  have hcarried := (windowAfter_spec a w s.other).2.1
  simp only [carriedBy_window, getElem?_stateAfter]
  by_cases hj : k = j
  · subst hj
    simp only [if_true, Option.some.injEq, exists_eq_left', hcarried, mem_holdReceipts, true_and,
      hw]
  · simp only [hj, if_false, false_and, or_false]

theorem count_holds (l : List ℕ) (j : ℕ) :
    (l.map (TrackerCall.holdReceipt (.window k))).count (.holdReceipt (.window j) r) =
      if k = j then l.count r else 0 := by
  split
  · next hj =>
    subst hj
    refine List.count_map_of_injective l _ (fun x y hxy => ?_) r
    cases hxy
    rfl
  · next hj =>
    refine List.count_eq_zero.mpr fun hmem => ?_
    obtain ⟨x, -, hx⟩ := List.mem_map.mp hmem
    cases hx
    exact hj rfl

/-- A window that takes events reports the receipts it comes to carry. -/
theorem Recorded.stateAfter (h : Recorded p s) (hw : s.timeline.storyTimelineMap[k]? = some w) :
    Recorded p (stateAfter a s k w) where
  kept j r hp := (carriedBy_stateAfter hw j).mpr (Or.inl (h.kept j r hp))
  counts j r := by
    have hiff := carriedBy_stateAfter (a := a) (r := r) hw j
    have hold : carriedBy s.timeline [] (.window k) r = true ↔ r ∈ w.carriedReceipts := by
      rw [carriedBy_window, hw]
      simp only [Option.some.injEq, exists_eq_left']
    have hcount := count_holdReceipts (a := a) (w := w) (c := s.other) (r := r)
    have hnew := mem_holdReceipts (a := a) (w := w) (c := s.other) (r := r)
    have hbefore := h.counts j r
    have hkept := h.kept j r
    change (s.calls ++ (holdReceipts a w s.other).2.map (TrackerCall.holdReceipt (.window k))).count
      (.holdReceipt (.window j) r) = _
    rw [List.count_append, count_holds, hbefore]
    by_cases hj : k = j
    · subst hj
      by_cases hmem : r ∈ w.carriedReceipts
      · have hcarried := hold.mpr hmem
        rw [if_neg fun hne => hne.2 hmem] at hcount
        rw [if_pos rfl, hcount, hcarried, hiff.mpr (Or.inl hcarried), Nat.add_zero]
      · have hnot : carriedBy s.timeline [] (.window k) r = false :=
          Bool.not_eq_true _ ▸ mt hold.mp hmem
        have hp : carriedBy p [] (.window k) r = false := by
          by_contra hp
          exact hmem (hold.mp (hkept (Bool.not_eq_false _ ▸ hp)))
        simp only [hcount, hnot, hp, Bool.not_false, eq_self, Bool.and_true, Bool.false_eq_true,
          if_false, if_true, Nat.zero_add, hiff, hnew, hmem, false_or, true_and, not_false_eq_true,
          and_true]
    · rw [if_neg hj]
      simp only [hj, false_and, or_false] at hiff
      rw [Bool.eq_iff_iff.mpr hiff, Nat.add_zero]
  calls call hcall := by
    rcases List.mem_append.mp hcall with hcall | hcall
    · exact h.calls call hcall
    · obtain ⟨r, -, rfl⟩ := List.mem_map.mp hcall
      exact ⟨k, r, rfl⟩
  stashed := h.stashed
  kept_going := h.kept_going

/-- A new window carries no receipt. -/
theorem Recorded.insertWindow (h : Recorded p s) (hw : w.carriedReceipts = ∅)
    (hk : k ∉ s.timeline.storyTimelineMap) :
    Recorded p { s with timeline := s.timeline.insertWindow k w } := by
  have hsame : ∀ j r, carriedBy (s.timeline.insertWindow k w) [] (.window j) r =
      carriedBy s.timeline [] (.window j) r := by
    intro j r
    rw [Bool.eq_iff_iff, carriedBy_window, carriedBy_window]
    change (∃ u, (s.timeline.storyTimelineMap.insertIfNew k w)[j]? = some u ∧ _) ↔ _
    rw [Std.ExtTreeMap.getElem?_insertIfNew]
    split
    · next heq =>
      rw [← Std.LawfulEqOrd.eq_of_compare heq.1, Std.ExtTreeMap.getElem?_eq_none hk]
      simp [hw]
    · rfl
  refine ⟨fun j r hp => ?_, fun j r => ?_, h.calls, h.stashed, h.kept_going⟩
  · rw [hsame]
    exact h.kept j r hp
  · rw [hsame]
    exact h.counts j r

end StoryPipeline

end ChronoLog
