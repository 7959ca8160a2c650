import ChronoLog.Pipeline.Timeline

/-!
# Events placed in a keeper's timeline

`KeeperStoryPipeline::mergeEvents` takes the events that clients logged for a story and
places each in the window of its time.  The window that took the last event is tried
first; the timeline is extended at either end for an event outside of it.  An event that
no window takes is reported to the tail store, so that the write-ahead log forgets it.

## Main definitions

* `KeeperStoryPipeline.mergeEvents` — the loop over the events, with the rounds of the loops
  that extend the timeline cut off.
* `KeeperStoryPipeline.findActiveEvent` — the search for one event.
* `KeeperStoryPipeline.Places` — what the merge is for.

## Main results

* `StoryTimeline.Spans.locate` — the search for a window finds the one of the time.
* `KeeperStoryPipeline.mergeEvents_places` — **the merge does what it is for if the window
  of every event fits in 64 bits, and only if the window of every event of the story
  does.**
-/

namespace ChronoLog

open OrderedMap
open StoryTimeline (Placeable placeable_congr)

namespace KeeperStoryPipeline

/-- The state of the loop over the events. -/
structure Merge where
  timeline : StoryTimeline
  /-- `chunk_to_merge_iter`. -/
  iter : Option ℕ
  /-- The calls of `eventDiscarded`, in order. -/
  discarded : List EventSequence := []

/-- `insertEvent` on the window of an iterator, with whether it took the event; `none` for
`end()`, which has no window. -/
def tryInsert (p : StoryTimeline) (iter : Option ℕ) (event : LogEvent) :
    Option (StoryTimeline × Bool) :=
  iter.bind fun k => p.storyTimelineMap[k]?.map fun window =>
    let inserted := window.toStoryChunk.insertEvent event
    if inserted.2 = 0 then (p, false)
    else
      ({ p with
          storyTimelineMap := p.storyTimelineMap.insert k
            { window with toStoryChunk := inserted.1 } }, true)

/-- The state after the attempt to insert an event: an event that is not taken is
discarded. -/
def afterInsert (s : Merge) (event : LogEvent) (r : StoryTimeline × Bool) : Merge :=
  if r.2 then { s with timeline := r.1 }
  else { s with timeline := r.1, discarded := s.discarded ++ [event.sequence] }

/-- The window before the first one that starts after a time. -/
def locate (p : StoryTimeline) (t : ℕ) : Option ℕ :=
  match lowerBound p.storyTimelineMap t with
  | none => prev p.storyTimelineMap none
  | some k =>
    if p.storyTimelineMap[k]?.any fun window => decide (t < window.startTime) then
      prev p.storyTimelineMap (some k)
    else some k

/-- The state of a loop that extends the timeline. -/
structure Extension where
  timeline : StoryTimeline
  iter : Option ℕ
  failed : Bool := false

/-- A round of a loop that extends the timeline: it is left when no window was added. -/
def extensionRound (extend : StoryTimeline → StoryTimeline × Option ℕ) (s : Extension) :
    Option Extension :=
  let r := extend s.timeline
  some { timeline := r.1, iter := r.2, failed := r.2.isNone }

/-- `while (event.time() >= TimelineEnd()) appendStoryChunk()`. -/
def extendForward (rounds : ℕ) (p : StoryTimeline) (iter : Option ℕ) (t : ℕ) :
    Option Extension :=
  Loop.run (fun s => !s.failed && decide (s.timeline.timelineEnd ≤ t))
    (extensionRound StoryTimeline.appendStoryChunk) rounds { timeline := p, iter }

/-- `while (event.time() < TimelineStart()) prependStoryChunk()`. -/
def extendBackward (rounds : ℕ) (p : StoryTimeline) (iter : Option ℕ) (t : ℕ) :
    Option Extension :=
  Loop.run (fun s => !s.failed && decide (t < s.timeline.timelineStart))
    (extensionRound StoryTimeline.prependStoryChunk) rounds { timeline := p, iter }

/-- What follows an extension: the event is inserted in the window the iterator is left at,
or discarded. -/
def insertExtended (s : Merge) (event : LogEvent) (x : Extension) : Option Merge :=
  if x.iter = none then
    some { s with
      timeline := x.timeline
      iter := x.iter
      discarded := s.discarded ++ [event.sequence] }
  else
    (tryInsert x.timeline x.iter event).map
      (afterInsert { s with timeline := x.timeline, iter := x.iter } event)

/-- An event within the timeline: the window used last is tried first. -/
def mergeWithin (s : Merge) (event : LogEvent) : Option Merge :=
  (tryInsert s.timeline s.iter event).bind fun r =>
    if r.2 then some { s with timeline := r.1 }
    else
      let iter := locate r.1 event.time
      (tryInsert r.1 iter event).map (afterInsert { s with timeline := r.1, iter } event)

/-- One round of the loop over the events. -/
def mergeEvent (rounds : ℕ) (s : Merge) (event : LogEvent) : Option Merge :=
  if s.timeline.timelineStart ≤ event.time ∧ event.time < s.timeline.timelineEnd then
    mergeWithin s event
  else if s.timeline.timelineEnd ≤ event.time then
    (extendForward rounds s.timeline s.iter event.time).bind (insertExtended s event)
  else
    (extendBackward rounds (s.timeline.delayedBy event.time) s.iter event.time).bind
      (insertExtended s event)

/-- `mergeEvents`: the events are taken from the front of the queue until it is empty.
`none` if a loop takes more rounds or an iterator behind the last window is followed. -/
def mergeEvents (rounds : ℕ) (p : StoryTimeline) (event_deque : List LogEvent) : Option Merge :=
  event_deque.foldlM (mergeEvent rounds)
    { timeline := p, iter := prev p.storyTimelineMap none }

/-- `findActiveEvent`: the event stored under a sequence in the last window that starts no
later. -/
def findActiveEvent (p : StoryTimeline) (seq : EventSequence) : Option LogEvent :=
  let iter := upperBound p.storyTimelineMap seq.time.toNat
  if iter = firstKey p.storyTimelineMap then none
  else (p.deref (prev p.storyTimelineMap iter)).bind fun window => window.logEvents[seq]?

/-- **What the merge is for**: every event of the story with a record is in the one window
that covers its time, the others are reported discarded once each, and an event is found
under its sequence exactly if it was there before or is the first of the merged ones. -/
structure Places (p : StoryTimeline) (event_deque : List LogEvent) (r : Merge) : Prop where
  placed : ∀ e ∈ event_deque, Placeable p e →
    ∃ (k : ℕ) (window : TimelineChunk), r.timeline.storyTimelineMap[k]? = some window ∧
      window.startTime ≤ e.time ∧ e.time < window.endTime ∧ e.sequence ∈ window.logEvents ∧
      ∀ (k' : ℕ) (window' : TimelineChunk), r.timeline.storyTimelineMap[k']? = some window' →
        e.sequence ∈ window'.logEvents → k' = k
  discarded : r.discarded =
    (event_deque.filter fun e => ¬Placeable p e).map LogEvent.sequence
  found : ∀ seq, findActiveEvent r.timeline seq =
    (findActiveEvent p seq).or
      (event_deque.find? fun e => Placeable p e ∧ e.sequence = seq)

/-- The timeline after an event enters a window. -/
def insertAt (p : StoryTimeline) (k : ℕ) (w : TimelineChunk) (event : LogEvent) :
    StoryTimeline :=
  { p with
    storyTimelineMap := p.storyTimelineMap.insert k
      { w with toStoryChunk := (w.toStoryChunk.insertEvent event).1 } }

/-- The event a timeline holds under a sequence, looked up in the window of its time. -/
def heldAt (p : StoryTimeline) (seq : EventSequence) : Option LogEvent :=
  p.storyTimelineMap[p.grid.start seq.time.toNat]?.bind fun window => window.logEvents[seq]?

/-- Two timelines of one story that hold the same events. -/
structure SameEvents (p q : StoryTimeline) : Prop where
  storyId : q.storyId = p.storyId
  granularity : q.granularity = p.granularity
  heldAt : ∀ seq, heldAt q seq = heldAt p seq

theorem SameEvents.refl (p : StoryTimeline) : SameEvents p p := ⟨rfl, rfl, fun _ => rfl⟩

theorem SameEvents.trans {p q r : StoryTimeline} (h : SameEvents p q) (h' : SameEvents q r) :
    SameEvents p r :=
  ⟨h'.storyId.trans h.storyId, h'.granularity.trans h.granularity,
    fun seq => (h'.heldAt seq).trans (h.heldAt seq)⟩

variable {p : StoryTimeline} {lo hi k t : ℕ} {w : TimelineChunk} {e : LogEvent}

theorem SameEvents.grid {q : StoryTimeline} (h : SameEvents p q) : q.grid = p.grid :=
  congrArg ChunkGranularity.grid h.granularity

/-- A new empty window changes no event. -/
theorem sameEvents_insertWindow (hk : k ∉ p.storyTimelineMap) (hw : w.logEvents = ∅) :
    SameEvents p (p.insertWindow k w) := by
  refine ⟨rfl, rfl, fun seq => ?_⟩
  have hnone : p.storyTimelineMap[k]? = none := Std.ExtTreeMap.getElem?_eq_none hk
  change ((p.storyTimelineMap.insertIfNew k w)[p.grid.start seq.time.toNat]?).bind _ = _
  rw [Std.ExtTreeMap.getElem?_insertIfNew, heldAt]
  split
  · next heq =>
    rw [← Std.LawfulEqOrd.eq_of_compare heq.1, hnone, Option.bind_some, hw,
      Std.ExtTreeMap.getElem?_empty, Option.bind_none]
  · rfl

/-- `insertEvent` on a window of the timeline. -/
theorem tryInsert_eq (hw : p.storyTimelineMap[k]? = some w) :
    tryInsert p (some k) e =
      if w.toStoryChunk.Accepts e then some (insertAt p k w e, true) else some (p, false) := by
  unfold tryInsert
  rw [Option.bind_some, hw, Option.map_some]
  split
  · next hacc =>
    have hone := (StoryChunk.insertEvent_of_accepts hacc).1
    simp only [hone, one_ne_zero, if_false]
    rfl
  · next hacc =>
    have hzero : (w.toStoryChunk.insertEvent e).2 = 0 := by
      unfold StoryChunk.insertEvent
      rw [dif_neg hacc]
    simp only [hzero, if_true]

section Spans

variable (h : p.Spans lo hi)

include h

/-- The window that takes an event is the one of its time. -/
theorem accepts_iff (hfits : hi < 2 ^ 64) (hw : p.storyTimelineMap[k]? = some w) :
    w.toStoryChunk.Accepts e ↔ Placeable p e ∧ p.grid.start e.time = k := by
  obtain ⟨hstart, -, hstory⟩ := h.window k w hw
  have hend := h.endTime hfits hw
  obtain ⟨hk, -, -⟩ := (h.keys k).mp (StoryTimeline.mem_of_window hw)
  constructor
  · rintro ⟨hid, hle, hlt, hrecord⟩
    exact ⟨⟨hid.trans hstory, hrecord⟩, h.start_eq_of_mem hfits hw hle hlt⟩
  · rintro ⟨⟨hid, hrecord⟩, rfl⟩
    refine ⟨hid.trans hstory.symm, hstart ▸ p.grid.start_le _, ?_, hrecord⟩
    rw [hend, Tiling.stop_start]
    exact p.grid.lt_stop _

/-- An event that enters its window is found from then on. -/
theorem heldAt_insertAt (hfits : hi < 2 ^ 64) (hw : p.storyTimelineMap[k]? = some w)
    (hacc : w.toStoryChunk.Accepts e) (seq : EventSequence) :
    heldAt (insertAt p k w e) seq =
      (heldAt p seq).or (if e.sequence = seq then some e else none) := by
  obtain ⟨-, hk⟩ := (accepts_iff h hfits hw).mp hacc
  have hlog := (StoryChunk.insertEvent_of_accepts hacc).2
  change ((p.storyTimelineMap.insert k _)[p.grid.start seq.time.toNat]?).bind _ = _
  rw [Std.ExtTreeMap.getElem?_insert]
  unfold heldAt
  by_cases hcell : p.grid.start seq.time.toNat = k
  · rw [hcell, if_pos Std.ReflCmp.compare_self, Option.bind_some, hw, Option.bind_some]
    change (w.toStoryChunk.insertEvent e).1.logEvents[seq]? = _
    rw [hlog, Std.ExtTreeMap.getElem?_insertIfNew]
    by_cases hseq : e.sequence = seq
    · subst hseq
      rw [if_pos rfl]
      cases hget : w.logEvents[e.sequence]? with
      | none =>
        have hnot : e.sequence ∉ w.logEvents := fun hmem => by
          have hsome := Std.ExtTreeMap.mem_iff_isSome_getElem?.mp hmem
          rw [hget] at hsome
          cases hsome
        rw [if_pos ⟨Std.ReflCmp.compare_self, hnot⟩, Option.none_or]
      | some e' =>
        rw [if_neg, Option.some_or]
        rintro ⟨-, hnot⟩
        exact hnot (Std.ExtTreeMap.mem_iff_isSome_getElem?.mpr (by rw [hget]; rfl))
    · rw [if_neg hseq, Option.or_none, if_neg]
      rintro ⟨heq, -⟩
      exact hseq (Std.LawfulEqOrd.eq_of_compare heq)
  · have hne : ¬compare k (p.grid.start seq.time.toNat) = .eq := fun heq =>
      hcell (Std.LawfulEqOrd.eq_of_compare heq).symm
    have hseq : e.sequence ≠ seq := by
      rintro rfl
      exact hcell hk
    rw [if_neg hne, if_neg hseq, Option.or_none]

theorem spans_insertAt (hw : p.storyTimelineMap[k]? = some w) :
    (insertAt p k w e).Spans lo hi := by
  have hinterval := StoryChunk.insertEvent_interval w.toStoryChunk e
  exact h.replace hw hinterval.2.1 hinterval.2.2 hinterval.1

/-- **The search for a window finds the one of the time.** -/
theorem locate_eq (hlo : lo ≤ t) (hhi : t < hi) : locate p t = some (p.grid.start t) := by
  unfold locate
  rcases h.lowerBound_cases hlo hhi with ⟨hfound, hprev⟩ | ⟨hfound, hstart⟩ |
    ⟨k, hk, hfound, hlt, hprev⟩
  · rw [hfound]
    exact hprev
  · obtain ⟨hmem, -, -⟩ := lowerBound_eq_some_iff.mp hfound
    obtain ⟨w, hw⟩ := StoryTimeline.exists_window hmem
    simp only [hfound, hw, Option.any_some, (h.window t w hw).1, lt_irrefl, decide_false,
      Bool.false_eq_true, if_false, hstart]
  · obtain ⟨w, hw⟩ := StoryTimeline.exists_window hk
    simp only [hfound, hw, Option.any_some, (h.window k w hw).1, hlt, decide_true, if_true]
    exact hprev

/-- **The search for an event looks in the window of its time.** -/
theorem findActiveEvent_eq (hfits : hi < 2 ^ 64) (seq : EventSequence) :
    findActiveEvent p seq = heldAt p seq := by
  unfold findActiveEvent heldAt
  rw [h.firstKey_eq]
  generalize ht : seq.time.toNat = t
  rcases Nat.lt_or_ge t lo with hlt | hlo
  · have hupper : upperBound p.storyTimelineMap t = some lo :=
      upperBound_eq_some_iff.mpr ⟨h.lo_mem, hlt, fun k hk _ => ((h.keys k).mp hk).2.1⟩
    have hnot : p.grid.start t ∉ p.storyTimelineMap := fun hmem =>
      absurd ((h.keys _).mp hmem).2.1 (by have := p.grid.start_le t; omega)
    rw [hupper, if_pos rfl, Std.ExtTreeMap.getElem?_eq_none hnot]
    rfl
  · have hbefore : ∀ j, j ∈ p.storyTimelineMap → j ≤ t → (∀ k ∈ p.storyTimelineMap, k ≤ t → k ≤ j) →
        upperBound p.storyTimelineMap t ≠ some lo ∧
          prev p.storyTimelineMap (upperBound p.storyTimelineMap t) = some j :=
      fun j hj hjt hmax => h.firstKey_eq ▸ prev_upperBound hj hjt hmax
    rcases Nat.lt_or_ge t hi with hhi | hhi
    · obtain ⟨hne, hprev⟩ := hbefore (p.grid.start t)
        ((h.keys _).mpr (Tiling.start_mem_starts h.lo_start hlo hhi)) (p.grid.start_le t)
        fun k hk hkt => Tiling.le_start_of_le ((h.keys k).mp hk).1 hkt
      rw [if_neg hne, hprev]
      rfl
    · -- behind the last window nothing is held
      obtain ⟨hlast, hmax⟩ := lastKey_eq_some_iff.mp h.lastKey_eq
      have hlt := h.lt
      have hstart := p.grid.start_le (hi - 1)
      obtain ⟨hne, hprev⟩ := hbefore _ hlast (by omega) fun k hk _ => hmax k hk
      obtain ⟨w, hw⟩ := StoryTimeline.exists_window hlast
      have hnot : p.grid.start t ∉ p.storyTimelineMap := fun hmem =>
        absurd ((h.keys _).mp hmem).2.2
          (not_lt.mpr (Tiling.le_start_of_le h.hi_start hhi))
      rw [if_neg hne, hprev, StoryTimeline.deref, Option.bind_some, hw, Option.bind_some,
        Std.ExtTreeMap.getElem?_eq_none hnot, Option.bind_none]
      by_contra hsome
      obtain ⟨e, he⟩ := Option.ne_none_iff_exists'.mp hsome
      obtain ⟨hseq, -, -, hend, -⟩ := w.held seq e he
      have hstop := h.endTime hfits hw
      rw [h.stop_last] at hstop
      have htime : e.time = t := by
        rw [← ht, ← hseq]
        rfl
      omega

end Spans

/-- The rounds that suffice for every loop that extends a timeline. -/
def enough : ℕ := 2 ^ 64

/-- **Extension forward** adds the cells up to the one of the time. -/
theorem extendForward_eq (h : p.Spans lo hi) (hhi : hi ≤ t) (hstop : p.grid.stop t < 2 ^ 64)
    (iter : Option ℕ) :
    ∃ q, extendForward enough p iter t =
        some { timeline := q, iter := some (p.grid.start t), failed := false } ∧
      q.Spans lo (p.grid.stop t) ∧ SameEvents p q := by
  let I : Extension → Prop := fun x => ∃ hi', x.timeline.Spans lo hi' ∧ hi' ≤ p.grid.stop t ∧
    x.failed = false ∧ (t < hi' → x.iter = some (p.grid.start t)) ∧ SameEvents p x.timeline
  have hround : ∀ x, I x → (!x.failed && decide (x.timeline.timelineEnd ≤ t)) = true →
      ∃ x', extensionRound StoryTimeline.appendStoryChunk x = some x' ∧ I x' ∧
        p.grid.stop t - x'.timeline.timelineEnd < p.grid.stop t - x.timeline.timelineEnd := by
    rintro x ⟨hi', hspans, hle, hok, -, hsame⟩ hcond
    have hend := hspans.timelineEnd (hle.trans_lt hstop)
    rw [hok, hend, Bool.not_false, Bool.true_and, decide_eq_true_eq] at hcond
    obtain ⟨happend, hspans'⟩ := hspans.appendStoryChunk (hle.trans_lt hstop)
    have hgrid := hsame.grid
    have hcell := hspans.hi_start
    have hgrows := p.grid.lt_stop hi'
    rw [hgrid] at hspans' hcell
    -- the next cell stops no later than the one of the time
    have hnext : p.grid.stop hi' ≤ p.grid.stop t := by
      rcases hcond.eq_or_lt with rfl | hlt
      · exact le_rfl
      · by_contra hgt
        have hstart := Tiling.start_eq_of_mem hcell hlt.le
          ((p.grid.lt_stop t).trans (not_le.mp hgt))
        have := Tiling.stop_start p.grid t
        rw [hstart] at this
        omega
    refine ⟨_, rfl, ⟨p.grid.stop hi', ?_, hnext, ?_, ?_, ?_⟩, ?_⟩
    · rw [happend]
      exact hspans'
    · rw [happend]
      rfl
    · intro hlt
      rw [happend, ← Tiling.start_eq_of_mem hcell hcond hlt]
    · rw [happend]
      exact hsame.trans (sameEvents_insertWindow hspans.not_mem_hi rfl)
    · change p.grid.stop t - x.timeline.appendStoryChunk.1.timelineEnd < _
      rw [hend, happend, hspans'.timelineEnd (hnext.trans_lt hstop)]
      have := p.grid.lt_stop t
      omega
  have hle : hi ≤ p.grid.stop t := hhi.trans (p.grid.lt_stop t).le
  obtain ⟨x, hrun, ⟨hi', hspans, hle', hok, hiter, hsame⟩, hdone⟩ := Loop.run_of_variant _ hround
    (s := { timeline := p, iter }) ⟨hi, h, hle, rfl, fun hlt => by omega, SameEvents.refl p⟩
  have hend := hspans.timelineEnd (hle'.trans_lt hstop)
  rw [hok, hend, Bool.not_false, Bool.true_and, decide_eq_false_iff_not, not_le] at hdone
  have hcell := hspans.hi_start
  rw [hsame.grid] at hcell
  have heq : hi' = p.grid.stop t := le_antisymm hle' (Tiling.stop_le_of_lt hcell hdone)
  subst heq
  obtain ⟨q, it, failed⟩ := x
  refine ⟨q, ?_, hspans, hsame⟩
  have hrun' := Loop.run_mono hrun (show _ ≤ enough by
    unfold enough
    omega)
  rw [← hok, ← hiter hdone]
  exact hrun'

/-- **Extension backward** adds the cells down to the one of the time. -/
theorem extendBackward_eq (h : p.Spans lo hi) (hlo : t < lo) (htop : lo ≤ p.granularity.top)
    (iter : Option ℕ) :
    ∃ q, extendBackward enough p iter t =
        some { timeline := q, iter := some (p.grid.start t), failed := false } ∧
      q.Spans (p.grid.start t) hi ∧ SameEvents p q := by
  let I : Extension → Prop := fun x => ∃ lo', x.timeline.Spans lo' hi ∧ lo' ≤ lo ∧
    p.grid.start t ≤ lo' ∧ x.failed = false ∧ (lo' ≤ t → x.iter = some (p.grid.start t)) ∧
    SameEvents p x.timeline
  have hround : ∀ x, I x → (!x.failed && decide (t < x.timeline.timelineStart)) = true →
      ∃ x', extensionRound StoryTimeline.prependStoryChunk x = some x' ∧ I x' ∧
        x'.timeline.timelineStart < x.timeline.timelineStart := by
    rintro x ⟨lo', hspans, hle, hge, hok, -, hsame⟩ hcond
    have hstart := hspans.timelineStart
    rw [hok, hstart, Bool.not_false, Bool.true_and, decide_eq_true_eq] at hcond
    have htop' : lo' ≤ x.timeline.granularity.top := by
      rw [hsame.granularity]
      exact hle.trans htop
    obtain ⟨hlong, hcell, hstop⟩ := hspans.prependStart htop' (by omega)
    obtain ⟨hprepend, hspans'⟩ := hspans.prependStoryChunk htop' (by omega)
    have hpos := x.timeline.granularity.ns_pos
    have hg : x.timeline.chunkGranularity = x.timeline.granularity.ns := rfl
    have hgrid := hsame.grid
    rw [hgrid] at hcell hstop
    have hnot : lo' - x.timeline.chunkGranularity ∉ x.timeline.storyTimelineMap := fun hmem =>
      absurd ((hspans.keys _).mp hmem).2.1 (by omega)
    refine ⟨_, rfl, ⟨lo' - x.timeline.chunkGranularity, ?_, ?_, ?_, ?_, ?_, ?_⟩, ?_⟩
    · rw [hprepend]
      exact hspans'
    · omega
    · -- the cell of the time does not start after the one before `lo'`
      by_contra hgt
      have := Tiling.stop_le_of_lt (p.grid.isStart_start t) (not_le.mp hgt)
      have := p.grid.start_le t
      omega
    · rw [hprepend]
      rfl
    · intro hlt
      rw [hprepend, Tiling.start_eq_of_mem hcell hlt (by omega)]
    · rw [hprepend]
      exact hsame.trans (sameEvents_insertWindow hnot rfl)
    · change x.timeline.prependStoryChunk.1.timelineStart < _
      rw [hstart, hprepend, hspans'.timelineStart]
      omega
  have hle : p.grid.start t ≤ lo := (p.grid.start_le t).trans hlo.le
  obtain ⟨x, hrun, ⟨lo', hspans, -, hge, hok, hiter, hsame⟩, hdone⟩ :=
    Loop.run_of_variant _ hround (s := { timeline := p, iter })
      ⟨lo, h, le_rfl, hle, rfl, fun hlt => by omega, SameEvents.refl p⟩
  have hstart := hspans.timelineStart
  rw [hok, hstart, Bool.not_false, Bool.true_and, decide_eq_false_iff_not, not_lt] at hdone
  have hcell := hspans.lo_start
  rw [hsame.grid] at hcell
  have heq : lo' = p.grid.start t := le_antisymm (Tiling.le_start_of_le hcell hdone) hge
  subst heq
  obtain ⟨q, it, failed⟩ := x
  refine ⟨q, ?_, hspans, hsame⟩
  have htop' := p.granularity.top_lt
  have hrun' := Loop.run_mono hrun (show _ ≤ enough by
    rw [h.timelineStart]
    unfold enough
    omega)
  rw [← hok, ← hiter hdone]
  exact hrun'

/-- What the merge of one event does to the events held. -/
def takes (p : StoryTimeline) (e : LogEvent) (seq : EventSequence) : Option LogEvent :=
  if Placeable p e ∧ e.sequence = seq then some e else none

/-- The timeline after the merge of one event. -/
structure Took (p q q' : StoryTimeline) (e : LogEvent) : Prop where
  storyId : q'.storyId = q.storyId
  granularity : q'.granularity = q.granularity
  heldAt : ∀ seq, heldAt q' seq = (heldAt q seq).or (takes p e seq)

/-- An attempt to insert an event in a window that is not the event's, or an event that has
no place, changes nothing. -/
theorem tryInsert_of_not_accepts (hw : p.storyTimelineMap[k]? = some w)
    (hacc : ¬w.toStoryChunk.Accepts e) : tryInsert p (some k) e = some (p, false) := by
  rw [tryInsert_eq hw, if_neg hacc]

/-- **An event is inserted in the window of its time.** -/
theorem tryInsert_of_accepts (h : p.Spans lo hi) (hfits : hi < 2 ^ 64)
    (hw : p.storyTimelineMap[k]? = some w) (hacc : w.toStoryChunk.Accepts e) :
    ∃ q, tryInsert p (some k) e = some (q, true) ∧ q.Spans lo hi ∧ k ∈ q.storyTimelineMap ∧
      Took p p q e := by
  refine ⟨insertAt p k w e, ?_, spans_insertAt h hw, ?_, rfl, rfl, fun seq => ?_⟩
  · rw [tryInsert_eq hw, if_pos hacc]
  · exact Std.ExtTreeMap.mem_insert_self
  · have hplace := ((accepts_iff h hfits hw).mp hacc).1
    rw [heldAt_insertAt h hfits hw hacc, takes]
    simp only [hplace, true_and]

/-- The state between two events: the timeline has not run out of 64 bits and the iterator
points to a window. -/
structure Ready (p : StoryTimeline) (s : Merge) (lo hi : ℕ) : Prop where
  spans : s.timeline.Spans lo hi
  fits : hi < 2 ^ 64
  regular : lo ≤ p.granularity.top
  storyId : s.timeline.storyId = p.storyId
  granularity : s.timeline.granularity = p.granularity
  iter : ∃ k ∈ s.timeline.storyTimelineMap, s.iter = some k

/-- What the merge of one event reports. -/
def reports (p : StoryTimeline) (e : LogEvent) : List EventSequence :=
  if Placeable p e then [] else [e.sequence]

variable {s : Merge}

/-- The state after an event went to the window of its time. -/
theorem insert_at_cell {q : StoryTimeline} {u : Merge} (h : q.Spans lo hi)
    (hfits : hi < 2 ^ 64) (hregular : lo ≤ p.granularity.top) (hlo : lo ≤ e.time)
    (hhi : e.time < hi) (hstory : q.storyId = p.storyId) (hgran : q.granularity = p.granularity)
    (hiter : u.iter = some (q.grid.start e.time)) :
    ∃ s', (tryInsert q u.iter e).map (afterInsert u e) = some s' ∧ Ready p s' lo hi ∧
      s'.discarded = u.discarded ++ reports p e ∧ Took p q s'.timeline e := by
  obtain ⟨w, hw, hstart, hend⟩ := h.getElem?_start hfits hlo hhi
  have hplace := placeable_congr (e := e) hstory
  by_cases hp : Placeable q e
  · have hacc := (accepts_iff h hfits hw).mpr ⟨hp, rfl⟩
    obtain ⟨q', htry, hspans, hmem, htook⟩ := tryInsert_of_accepts h hfits hw hacc
    rw [← hiter] at htry
    have htook' : Took p q q' e := by
      refine ⟨htook.storyId, htook.granularity, fun seq => ?_⟩
      rw [htook.heldAt, takes, takes]
      simp only [hplace]
    refine ⟨{ u with timeline := q' }, ?_, ⟨hspans, hfits, hregular, htook.storyId.trans hstory,
      htook.granularity.trans hgran, ⟨_, hmem, hiter⟩⟩, ?_, htook'⟩
    · rw [htry]
      rfl
    · rw [reports, if_pos (hplace.mp hp), List.append_nil]
  · have hacc : ¬w.toStoryChunk.Accepts e := fun hacc =>
      hp ((accepts_iff h hfits hw).mp hacc).1
    have hmem := StoryTimeline.mem_of_window hw
    have htry := tryInsert_of_not_accepts hw hacc
    rw [← hiter] at htry
    refine ⟨{ u with timeline := q, discarded := u.discarded ++ [e.sequence] }, ?_,
      ⟨h, hfits, hregular, hstory, hgran, ⟨_, hmem, hiter⟩⟩, ?_, rfl, rfl, fun seq => ?_⟩
    · rw [htry]
      rfl
    · rw [reports, if_neg fun hp' => hp (hplace.mpr hp')]
    · rw [takes, if_neg fun hp' => hp (hplace.mpr hp'.1), Option.or_none]

/-- An event within the timeline goes to the window of its time, whichever window was used
last. -/
theorem mergeWithin_eq (h : Ready p s lo hi) (hlo : lo ≤ e.time) (hhi : e.time < hi) :
    ∃ s', mergeWithin s e = some s' ∧ Ready p s' lo hi ∧
      s'.discarded = s.discarded ++ reports p e ∧ Took p s.timeline s'.timeline e := by
  obtain ⟨k, hk, hiter⟩ := h.iter
  obtain ⟨w, hw⟩ := StoryTimeline.exists_window hk
  have hplace := placeable_congr (e := e) h.storyId
  unfold mergeWithin
  by_cases hacc : w.toStoryChunk.Accepts e
  · obtain ⟨q', htry, hspans, hmem, htook⟩ := tryInsert_of_accepts h.spans h.fits hw hacc
    have hp := ((accepts_iff h.spans h.fits hw).mp hacc).1
    rw [← hiter] at htry
    refine ⟨{ s with timeline := q' }, ?_, ⟨hspans, h.fits, h.regular,
      htook.storyId.trans h.storyId, htook.granularity.trans h.granularity,
      ⟨k, hmem, hiter⟩⟩, ?_, htook.storyId, htook.granularity, fun seq => ?_⟩
    · rw [htry]
      rfl
    · rw [reports, if_pos (hplace.mp hp), List.append_nil]
    · rw [htook.heldAt, takes, takes]
      simp only [hplace]
  · -- not the window used last: the search finds the window of the time
    have htry := tryInsert_of_not_accepts hw hacc
    rw [← hiter] at htry
    rw [htry]
    obtain ⟨s', hs', hready, hdiscarded, htook⟩ := insert_at_cell
      (u := { s with iter := locate s.timeline e.time })
      h.spans h.fits h.regular hlo hhi h.storyId h.granularity (locate_eq h.spans hlo hhi)
    exact ⟨s', hs', hready, hdiscarded, htook⟩

/-- **One event**: if its window fits in 64 bits it is placed or reported. -/
theorem mergeEvent_eq (h : Ready p s lo hi) (hfits : p.grid.stop e.time < 2 ^ 64) :
    ∃ s' lo' hi', mergeEvent enough s e = some s' ∧ Ready p s' lo' hi' ∧
      s'.discarded = s.discarded ++ reports p e ∧ Took p s.timeline s'.timeline e := by
  have hgrid : s.timeline.grid = p.grid := congrArg ChunkGranularity.grid h.granularity
  have hcell := p.grid.lt_stop e.time
  have hstart := p.grid.start_le e.time
  unfold mergeEvent
  rw [h.spans.timelineStart, h.spans.timelineEnd h.fits]
  by_cases hin : lo ≤ e.time ∧ e.time < hi
  · rw [if_pos hin]
    obtain ⟨s', hs', hready, hdiscarded, htook⟩ := mergeWithin_eq h hin.1 hin.2
    exact ⟨s', lo, hi, hs', hready, hdiscarded, htook⟩
  rw [if_neg hin]
  by_cases hafter : hi ≤ e.time
  · rw [if_pos hafter]
    obtain ⟨q, hext, hspans, hsame⟩ :=
      extendForward_eq h.spans hafter (by rw [hgrid]; exact hfits) s.iter
    rw [hgrid] at hext hspans
    have hlt := h.spans.lt
    obtain ⟨s', hs', hready, hdiscarded, htook⟩ := insert_at_cell
      (u := { s with timeline := q, iter := some (p.grid.start e.time) }) (e := e)
      hspans hfits h.regular (by omega) hcell (hsame.storyId.trans h.storyId)
      (hsame.granularity.trans h.granularity) (by rw [hsame.grid, hgrid])
    refine ⟨s', _, _, ?_, hready, hdiscarded, htook.storyId.trans hsame.storyId,
      htook.granularity.trans hsame.granularity, fun seq => ?_⟩
    · rw [hext, Option.bind_some, insertExtended, if_neg (by simp)]
      exact hs'
    · rw [htook.heldAt, hsame.heldAt]
  · rw [if_neg hafter]
    have hbefore : e.time < lo := by omega
    obtain ⟨hmap, hid, hgran⟩ := s.timeline.delayedBy_fields e.time
    have hdelayed : (s.timeline.delayedBy e.time).Spans lo hi := h.spans.of_same_map hmap hid hgran
    have hregular : lo ≤ (s.timeline.delayedBy e.time).granularity.top := by
      rw [hgran, h.granularity]
      exact h.regular
    obtain ⟨q, hext, hspans, hsame⟩ := extendBackward_eq hdelayed hbefore hregular s.iter
    have hgrid' : (s.timeline.delayedBy e.time).grid = p.grid :=
      (congrArg ChunkGranularity.grid hgran).trans hgrid
    rw [hgrid'] at hext hspans
    have hlt := h.spans.lt
    obtain ⟨s', hs', hready, hdiscarded, htook⟩ := insert_at_cell
      (u := { s with timeline := q, iter := some (p.grid.start e.time) }) (e := e)
      hspans h.fits (hstart.trans (hbefore.le.trans h.regular)) hstart (by omega)
      (hsame.storyId.trans (hid.trans h.storyId))
      (hsame.granularity.trans (hgran.trans h.granularity)) (by rw [hsame.grid, hgrid'])
    have hheld : ∀ seq, heldAt (s.timeline.delayedBy e.time) seq = heldAt s.timeline seq := by
      intro seq
      rw [heldAt, heldAt, hmap, hgrid', hgrid]
    refine ⟨s', _, _, ?_, hready, hdiscarded, htook.storyId.trans (hsame.storyId.trans hid),
      htook.granularity.trans (hsame.granularity.trans hgran), fun seq => ?_⟩
    · rw [hext, Option.bind_some, insertExtended, if_neg (by simp)]
      exact hs'
    · rw [htook.heldAt, hsame.heldAt, hheld]

/-- **The loop over the events**, by induction on the queue. -/
theorem foldlM_mergeEvent_eq (event_deque : List LogEvent) (h : Ready p s lo hi)
    (hfits : ∀ e ∈ event_deque, p.grid.stop e.time < 2 ^ 64) :
    ∃ r lo' hi', event_deque.foldlM (mergeEvent enough) s = some r ∧ Ready p r lo' hi' ∧
      r.discarded = s.discarded ++ event_deque.flatMap (reports p) ∧
      ∀ seq, heldAt r.timeline seq =
        (heldAt s.timeline seq).or (event_deque.findSome? fun e => takes p e seq) := by
  induction event_deque generalizing s lo hi with
  | nil => exact ⟨s, lo, hi, rfl, h, by simp, fun seq => by simp⟩
  | cons e events ih =>
    rw [List.forall_mem_cons] at hfits
    obtain ⟨s₁, lo₁, hi₁, hs₁, h₁, hdiscarded₁, htook⟩ := mergeEvent_eq h hfits.1
    obtain ⟨r, lo', hi', hr, hready, hdiscarded, hheld⟩ := ih h₁ hfits.2
    refine ⟨r, lo', hi', ?_, hready, ?_, fun seq => ?_⟩
    · rw [List.foldlM_cons, hs₁]
      exact hr
    · rw [hdiscarded, hdiscarded₁, List.flatMap_cons, List.append_assoc]
    · rw [hheld, htook.heldAt, Option.or_assoc, List.findSome?_cons]
      cases takes p e seq <;> rfl

theorem flatMap_reports (p : StoryTimeline) (events : List LogEvent) :
    events.flatMap (reports p) =
      (events.filter fun e => ¬Placeable p e).map LogEvent.sequence := by
  induction events with
  | nil => rfl
  | cons e events ih =>
    rw [List.flatMap_cons, ih, reports]
    by_cases hp : Placeable p e <;> simp [hp]

theorem findSome?_takes (p : StoryTimeline) (events : List LogEvent) (seq : EventSequence) :
    (events.findSome? fun e => takes p e seq) =
      events.find? fun e => Placeable p e ∧ e.sequence = seq := by
  induction events with
  | nil => rfl
  | cons e events ih =>
    rw [List.findSome?_cons, List.find?_cons, ih, takes]
    by_cases hp : Placeable p e ∧ e.sequence = seq <;> simp [hp]

/-- A pipeline is ready for events. -/
theorem ready_of_spans (h : p.Spans lo hi) (htop : hi ≤ p.granularity.top) :
    Ready p { timeline := p, iter := prev p.storyTimelineMap none } lo hi := by
  have hfits := p.granularity.top_lt
  have hlt := h.lt
  exact ⟨h, by omega, by omega, rfl, rfl, _, (lastKey_eq_some_iff.mp h.lastKey_eq).1,
    h.lastKey_eq⟩

/-- **If the window of every event fits in 64 bits, the merge does what it is for.** -/
theorem mergeEvents_of_fits (h : p.Invariant) {event_deque : List LogEvent}
    (hfits : ∀ e ∈ event_deque, p.grid.stop e.time < 2 ^ 64) :
    ∃ r, mergeEvents enough p event_deque = some r ∧ Places p event_deque r := by
  obtain ⟨lo, hi, hspans, htop, -⟩ := h.spans
  have hlast : hi < 2 ^ 64 := htop.trans_lt p.granularity.top_lt
  obtain ⟨r, lo', hi', hr, hready, hdiscarded, hheld⟩ :=
    foldlM_mergeEvent_eq event_deque (ready_of_spans hspans htop) hfits
  have hgrid : r.timeline.grid = p.grid := congrArg ChunkGranularity.grid hready.granularity
  have hfound : ∀ seq, findActiveEvent r.timeline seq = (findActiveEvent p seq).or
      (event_deque.find? fun e => Placeable p e ∧ e.sequence = seq) := by
    intro seq
    rw [findActiveEvent_eq hready.spans hready.fits, findActiveEvent_eq hspans hlast, hheld,
      findSome?_takes]
  refine ⟨r, hr, fun e he hplace => ?_, ?_, hfound⟩
  · -- the event's sequence is found, in the window of its time
    have hsome : (heldAt r.timeline e.sequence).isSome = true := by
      rw [← findActiveEvent_eq hready.spans hready.fits, hfound, Option.isSome_or,
        List.find?_isSome.mpr ⟨e, he, by simp [hplace]⟩, Bool.or_true]
    obtain ⟨e', he'⟩ := Option.isSome_iff_exists.mp hsome
    obtain ⟨w, hw, hget⟩ := Option.bind_eq_some_iff.mp he'
    have hheldw := w.held _ _ hget
    have htime : e'.time = e.time := LogEvent.time_eq_of_sequence_eq hheldw.1
    refine ⟨_, w, hw, htime ▸ hheldw.2.2.1, htime ▸ hheldw.2.2.2.1, ?_, fun k' w' hw' hmem => ?_⟩
    · exact Std.ExtTreeMap.mem_iff_isSome_getElem?.mpr (by rw [hget]; rfl)
    · obtain ⟨e'', he''⟩ := Option.isSome_iff_exists.mp
        (Std.ExtTreeMap.mem_iff_isSome_getElem?.mp hmem)
      have hheld' := w'.held _ _ he''
      have htime' : e''.time = e.time := LogEvent.time_eq_of_sequence_eq hheld'.1
      rw [htime'] at hheld'
      exact (hready.spans.start_eq_of_mem hready.fits hw' hheld'.2.2.1 hheld'.2.2.2.1).symm
  · rw [hdiscarded, flatMap_reports]
    rfl

section OutOfTime

variable {q : StoryTimeline} {last stop rounds : ℕ} {s' : Merge}

/-- An extension that failed leaves the event to be discarded. -/
theorem insertExtended_of_failed {x : Extension} (hiter : x.iter = none) :
    insertExtended s e x = some
      { timeline := x.timeline, iter := none, discarded := s.discarded ++ [e.sequence] } := by
  rw [insertExtended, if_pos hiter, hiter]

/-- **Out of time, every event is discarded**, unless the merge follows the iterator behind
the last window. -/
theorem mergeEvent_of_outOfTime (h : p.OutOfTime s.timeline last stop) (hiter : s.iter = none)
    (hlast : last + 5000 = 2 ^ 64 + stop) (hstop : stop < 5000)
    (hmerge : mergeEvent rounds s e = some s') :
    p.OutOfTime s'.timeline last stop ∧ s'.iter = none ∧
      s'.discarded = s.discarded ++ [e.sequence] := by
  unfold KeeperStoryPipeline.mergeEvent at hmerge
  rw [h.timelineEnd] at hmerge
  split at hmerge
  · rw [mergeWithin, hiter] at hmerge
    cases hmerge
  · split at hmerge
    · next hle =>
      obtain ⟨x, hrun, hinsert⟩ := Option.bind_eq_some_iff.mp hmerge
      obtain ⟨⟨hx, hfailed⟩, hdone⟩ := Loop.run_of_invariant
        (I := fun x => x.timeline = s.timeline ∧ (x.failed = true → x.iter = none))
        (by
          rintro x x' ⟨hx, -⟩ - hround
          simp only [extensionRound, hx, h.appendStoryChunk, Option.some.injEq] at hround
          subst hround
          exact ⟨rfl, fun _ => rfl⟩) ⟨rfl, fun hfalse => by cases hfalse⟩ hrun
      rw [hx, h.timelineEnd, decide_eq_true hle, Bool.and_true, Bool.not_eq_false'] at hdone
      rw [insertExtended_of_failed (hfailed hdone), Option.some.injEq] at hinsert
      subst hinsert
      exact ⟨hx ▸ h, rfl, rfl⟩
    · next hrange hlt =>
      obtain ⟨hmap, -, hgran⟩ := s.timeline.delayedBy_fields e.time
      have hstart : (s.timeline.delayedBy e.time).timelineStart = s.timeline.timelineStart := by
        rw [StoryTimeline.timelineStart, StoryTimeline.timelineStart, hmap]
      have hfirst : s.timeline.timelineStart = stop := by
        rcases h.first with hzero | hfirst <;> omega
      have hdelayed : p.OutOfTime (s.timeline.delayedBy e.time) last stop := by
        refine ⟨hgran.trans h.granularity, ?_, ?_, ?_, Or.inr (hstart.trans hfirst)⟩
        · rw [hmap]
          exact h.lastKey_eq
        · rw [hmap]
          exact h.last_end
        · rw [hmap]
          exact h.stop_mem
      obtain ⟨x, hrun, hinsert⟩ := Option.bind_eq_some_iff.mp hmerge
      obtain ⟨⟨hx, hxstart, hfailed⟩, hdone⟩ := Loop.run_of_invariant
        (I := fun x => p.OutOfTime x.timeline last stop ∧ x.timeline.timelineStart = stop ∧
          (x.failed = true → x.iter = none))
        (by
          rintro x x' ⟨hx, hxstart, -⟩ - hround
          cases hround
          obtain ⟨hx', hxstart'⟩ := hx.prependStoryChunk hlast hstop hxstart
          exact ⟨hx', hxstart', fun hfailed => Option.isNone_iff_eq_none.mp hfailed⟩)
        ⟨hdelayed, hstart.trans hfirst, fun hfalse => by cases hfalse⟩ hrun
      rw [hxstart, decide_eq_true (by omega), Bool.and_true, Bool.not_eq_false'] at hdone
      rw [insertExtended_of_failed (hfailed hdone), Option.some.injEq] at hinsert
      subst hinsert
      exact ⟨hx, rfl, rfl⟩

/-- **Past the last window that fits** the timeline runs out of time, and the event is
discarded. -/
theorem Ready.mergeEvent_of_past_end (h : Ready p s lo hi) (hpast : 2 ^ 64 ≤ p.grid.stop e.time)
    (hmerge : mergeEvent rounds s e = some s') :
    ∃ last stop, last + 5000 = 2 ^ 64 + stop ∧ stop < 5000 ∧
      p.OutOfTime s'.timeline last stop ∧ s'.iter = none ∧
      s'.discarded = s.discarded ++ [e.sequence] := by
  have hgrid : s.timeline.grid = p.grid := congrArg ChunkGranularity.grid h.granularity
  have hcell := p.grid.isStart_start e.time
  have hle := p.grid.start_le e.time
  have htime : e.time < 2 ^ 64 := e.eventTime.toNat_lt
  have hstopt := Tiling.stop_start p.grid e.time
  have hhi : hi ≤ p.grid.start e.time := by
    have hstart := h.spans.hi_start
    rw [hgrid] at hstart
    refine Tiling.le_start_of_le hstart ?_
    by_contra hlt
    have := Tiling.stop_le_of_lt hstart (not_le.mp hlt)
    have := h.fits
    omega
  generalize p.grid.start e.time = last at hcell hle hstopt hhi
  have htop : p.granularity.top ≤ last := by
    by_contra htop
    have hle' : p.grid.stop last ≤ p.granularity.top := Tiling.stop_le_of_lt
      (ChunkGranularity.isStart_of_dvd p.granularity.ns_dvd_top le_rfl) (not_le.mp htop)
    have := p.granularity.top_lt
    omega
  have hlong : p.grid.stop last = last + 5000 := ChunkGranularity.stop_of_top_le hcell htop
  have hns := p.granularity.top_add_ns
  have hns' := p.granularity.ns_lt
  obtain ⟨c, hc⟩ := ChunkGranularity.five_thousand_dvd_of_isStart hcell
  generalize hstop : last + 5000 - 2 ^ 64 = stop
  have hlast : last + 5000 = 2 ^ 64 + stop := by omega
  refine ⟨last, stop, hlast, by omega, ?_⟩
  unfold KeeperStoryPipeline.mergeEvent at hmerge
  rw [h.spans.timelineEnd h.fits, if_neg (by omega), if_pos (by omega)] at hmerge
  obtain ⟨x, hrun, hinsert⟩ := Option.bind_eq_some_iff.mp hmerge
  let I : Extension → Prop := fun x =>
    (x.failed = false ∧ x.timeline.granularity = p.granularity ∧
      ∃ hi', x.timeline.Spans lo hi' ∧ (hi' ≤ last ∨ hi' = p.grid.stop last)) ∨
    (p.OutOfTime x.timeline last stop ∧ (x.failed = true → x.iter = none))
  have hend : ∀ (x : Extension) (hi' : ℕ), x.timeline.Spans lo hi' →
      (hi' ≤ last ∨ hi' = p.grid.stop last) → x.timeline.timelineEnd ≤ e.time := by
    intro x hi' hspans hcases
    rw [hspans.timelineEnd_eq_mod]
    rcases hcases with hle' | rfl
    · exact (Nat.mod_le _ _).trans (hle'.trans hle)
    · rw [hlong, hlast, Nat.add_mod_left, Nat.mod_eq_of_lt (by omega)]
      omega
  obtain ⟨hx, hdone⟩ := Loop.run_of_invariant (I := I)
    (by
      rintro x x' (⟨hok, hgran, hi', hspans, hcases⟩ | ⟨hx, -⟩) - hround
      · have hxgrid : x.timeline.grid = p.grid := congrArg ChunkGranularity.grid hgran
        rcases hcases with hle' | rfl
        · -- the next cell, or the last one
          obtain ⟨happend, hspans'⟩ := hspans.appendStoryChunk (by omega)
          simp only [extensionRound, happend, Option.some.injEq] at hround
          subst hround
          rw [hxgrid] at hspans'
          refine Or.inl ⟨rfl, hgran, _, hspans', ?_⟩
          rcases hle'.lt_or_eq with hlt | rfl
          · exact Or.inl (Tiling.stop_le_of_lt hcell hlt)
          · exact Or.inr rfl
        · obtain ⟨hiter, hout⟩ :=
            StoryTimeline.outOfTime_appendStoryChunk hspans hgran hcell hlong hlast
              (by omega) (by omega)
          simp only [extensionRound, hiter, Option.some.injEq] at hround
          subst hround
          exact Or.inr ⟨hout, fun hfalse => by cases hfalse⟩
      · simp only [extensionRound, hx.appendStoryChunk, Option.some.injEq] at hround
        subst hround
        exact Or.inr ⟨hx, fun _ => rfl⟩)
    (Or.inl ⟨rfl, h.granularity, hi, h.spans, Or.inl hhi⟩) hrun
  rcases hx with ⟨hok, -, hi', hspans, hcases⟩ | ⟨hx, hfailed⟩
  · rw [hok, decide_eq_true (hend x hi' hspans hcases)] at hdone
    cases hdone
  · rw [hx.timelineEnd, decide_eq_true (by omega), Bool.and_true, Bool.not_eq_false'] at hdone
    rw [insertExtended_of_failed (hfailed hdone), Option.some.injEq] at hinsert
    subst hinsert
    exact ⟨hx, rfl, rfl⟩

theorem mergeEvent_mono {rounds' : ℕ} (h : mergeEvent rounds s e = some s')
    (hle : rounds ≤ rounds') : mergeEvent rounds' s e = some s' := by
  unfold KeeperStoryPipeline.mergeEvent at h ⊢
  split at h
  · next hin => rw [if_pos hin, h]
  · next hin =>
    rw [if_neg hin]
    split at h
    · next hafter =>
      rw [if_pos hafter]
      obtain ⟨x, hrun, hinsert⟩ := Option.bind_eq_some_iff.mp h
      exact Option.bind_eq_some_iff.mpr ⟨x, Loop.run_mono hrun hle, hinsert⟩
    · next hafter =>
      rw [if_neg hafter]
      obtain ⟨x, hrun, hinsert⟩ := Option.bind_eq_some_iff.mp h
      exact Option.bind_eq_some_iff.mpr ⟨x, Loop.run_mono hrun hle, hinsert⟩

theorem foldlM_mergeEvent_mono {rounds' : ℕ} {events : List LogEvent}
    (h : events.foldlM (mergeEvent rounds) s = some s') (hle : rounds ≤ rounds') :
    events.foldlM (mergeEvent rounds') s = some s' := by
  induction events generalizing s with
  | nil => exact h
  | cons e events ih =>
    rw [List.foldlM_cons] at h ⊢
    obtain ⟨s₁, hs₁, hrest⟩ := Option.bind_eq_some_iff.mp h
    exact Option.bind_eq_some_iff.mpr ⟨s₁, mergeEvent_mono hs₁ hle, ih hrest⟩

theorem foldlM_mergeEvent_of_outOfTime (h : p.OutOfTime s.timeline last stop)
    (hiter : s.iter = none) (hlast : last + 5000 = 2 ^ 64 + stop) (hstop : stop < 5000)
    {events : List LogEvent} (hrun : events.foldlM (KeeperStoryPipeline.mergeEvent rounds) s =
      some s') : s'.discarded = s.discarded ++ events.map LogEvent.sequence := by
  induction events generalizing s with
  | nil =>
    cases hrun
    exact (List.append_nil _).symm
  | cons e events ih =>
    rw [List.foldlM_cons] at hrun
    obtain ⟨s₁, hs₁, hrest⟩ := Option.bind_eq_some_iff.mp hrun
    obtain ⟨h₁, hiter₁, hdiscarded⟩ := mergeEvent_of_outOfTime h hiter hlast hstop hs₁
    rw [ih h₁ hiter₁ hrest, hdiscarded, List.map_cons, List.append_assoc,
      List.singleton_append]

/-- From the first event past the last window that fits on, every event is discarded. -/
theorem Ready.discarded_of_foldlM {events : List LogEvent} (h : Ready p s lo hi)
    (hrun : events.foldlM (mergeEvent rounds) s = some s') (hrounds : enough ≤ rounds) :
    ∃ before after, events = before ++ after ∧
      (∀ e ∈ before, p.grid.stop e.time < 2 ^ 64) ∧
      s'.discarded = s.discarded ++ (before.flatMap (reports p) ++
        after.map LogEvent.sequence) := by
  induction events generalizing s lo hi with
  | nil =>
    cases hrun
    exact ⟨[], [], rfl, by simp, by simp⟩
  | cons e events ih =>
    rw [List.foldlM_cons] at hrun
    obtain ⟨s₁, hs₁, hrest⟩ := Option.bind_eq_some_iff.mp hrun
    by_cases hfits : p.grid.stop e.time < 2 ^ 64
    · obtain ⟨s₂, lo₂, hi₂, hs₂, h₂, hdiscarded₂, -⟩ := mergeEvent_eq h hfits
      rw [mergeEvent_mono hs₂ hrounds, Option.some.injEq] at hs₁
      subst hs₁
      obtain ⟨before, after, rfl, hbefore, hdiscarded⟩ := ih h₂ hrest
      refine ⟨e :: before, after, rfl, List.forall_mem_cons.mpr ⟨hfits, hbefore⟩, ?_⟩
      rw [hdiscarded, hdiscarded₂, List.flatMap_cons]
      simp only [List.append_assoc]
    · obtain ⟨last, stop, hlast, hstop, hout, hiter, hdiscarded⟩ :=
        h.mergeEvent_of_past_end (not_lt.mp hfits) hs₁
      refine ⟨[], e :: events, rfl, by simp, ?_⟩
      rw [foldlM_mergeEvent_of_outOfTime hout hiter hlast hstop hrest, hdiscarded, List.flatMap_nil,
        List.nil_append, List.map_cons, List.append_assoc, List.singleton_append]

end OutOfTime

/-- **The merge does what it is for only if the window of every event of the story with a
record fits.** -/
theorem fits_of_places (h : p.Invariant) {rounds : ℕ} {event_deque : List LogEvent} {r : Merge}
    (hrun : mergeEvents rounds p event_deque = some r) (hplaces : Places p event_deque r)
    (he : e ∈ event_deque) (hplace : Placeable p e) : p.grid.stop e.time < 2 ^ 64 := by
  obtain ⟨lo, hi, hspans, htop, -⟩ := h.spans
  have hrun' := foldlM_mergeEvent_mono hrun (Nat.le_max_left rounds enough)
  obtain ⟨before, after, rfl, hbefore, hdiscarded⟩ :=
    (ready_of_spans hspans htop).discarded_of_foldlM hrun' (Nat.le_max_right rounds enough)
  rcases List.mem_append.mp he with he | he
  · exact hbefore e he
  · -- what was discarded are the events that have no place, and `e` was discarded
    exfalso
    rw [hplaces.discarded, flatMap_reports, List.filter_append, List.map_append] at hdiscarded
    have hafter := List.append_cancel_left hdiscarded
    have hlength := congrArg List.length hafter
    rw [List.length_map, List.length_map, List.length_filter_eq_length_iff] at hlength
    have hbad := hlength e he
    simp only [hplace, not_true_eq_false, decide_false, Bool.false_eq_true] at hbad

/-- **If the window of every event fits in 64 bits, the merge ends and does what it is for;
and it does that only if the window of every event of the story with a record fits.** -/
theorem mergeEvents_places (p : StoryTimeline) (event_deque : List LogEvent)
    (h : p.Invariant) :
    ((∀ e ∈ event_deque, p.grid.stop e.time < 2 ^ 64) →
        ∃ rounds r, mergeEvents rounds p event_deque = some r ∧ Places p event_deque r) ∧
      ((∃ rounds r, mergeEvents rounds p event_deque = some r ∧ Places p event_deque r) →
        ∀ e ∈ event_deque, Placeable p e → p.grid.stop e.time < 2 ^ 64) := by
  refine ⟨fun hfits => ?_, ?_⟩
  · obtain ⟨r, hr, hplaces⟩ := mergeEvents_of_fits h hfits
    exact ⟨enough, r, hr, hplaces⟩
  · rintro ⟨rounds, r, hr, hplaces⟩ e he hplace
    exact fits_of_places h hr hplaces he hplace

/-- An event of story 7. -/
def eventAt (eventTime : UInt64) : LogEvent := ⟨7, eventTime, 1, 0, [1]⟩

/-- Events in the timeline and behind it are placed. -/
theorem mergeEvents_places_two :
    StoryTimeline.secondWindows.Invariant ∧
      ∃ rounds r, mergeEvents rounds StoryTimeline.secondWindows
          [eventAt 500000000, eventAt 7000000000] = some r ∧
        Places StoryTimeline.secondWindows [eventAt 500000000, eventAt 7000000000] r := by
  refine ⟨StoryTimeline.invariant_secondWindows, (mergeEvents_places _ _
    StoryTimeline.invariant_secondWindows).1 ?_⟩
  simp only [List.forall_mem_cons, List.not_mem_nil, false_imp_iff, implies_true, and_true]
  exact ⟨by decide +kernel, by decide +kernel⟩

/-- **An event of the story at the last tick is never placed.** -/
theorem last_tick_not_placed :
    StoryTimeline.secondWindows.Invariant ∧
      Placeable StoryTimeline.secondWindows (eventAt 18446744073709551615) ∧
      ¬∃ rounds r, mergeEvents rounds StoryTimeline.secondWindows
          [eventAt 18446744073709551615] = some r ∧
        Places StoryTimeline.secondWindows [eventAt 18446744073709551615] r := by
  have hplace : Placeable StoryTimeline.secondWindows (eventAt 18446744073709551615) :=
    ⟨rfl, by simp [eventAt]⟩
  refine ⟨StoryTimeline.invariant_secondWindows, hplace, ?_⟩
  rintro ⟨rounds, r, hrun, hplaces⟩
  have hfits := fits_of_places StoryTimeline.invariant_secondWindows hrun hplaces
    (List.mem_singleton_self _) hplace
  have hpast : ¬StoryTimeline.secondWindows.grid.stop (eventAt 18446744073709551615).time <
      2 ^ 64 := by decide +kernel
  exact hpast hfits

end KeeperStoryPipeline

end ChronoLog
