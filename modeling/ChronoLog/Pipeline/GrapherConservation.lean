import ChronoLog.Pipeline.GrapherWindows

/-!
# What a grapher's merge does with the events of a chunk

A window erases from the chunk the range from the first event it took to the last.  An
event without a record, or of another story, between the two leaves the chunk with them
without being held anywhere, and nothing is reported discarded.

## Main definitions

* `StoryPipeline.Merging` — the cells up to a point have been taken.
* `StoryPipeline.Drained` — the events that leave the chunk.
* `StoryPipeline.Conserves` — what the merge is for.
* `StoryPipeline.MergeSafe` — when the merge does what it is for.

## Main results

* `StoryPipeline.Merging.mergeInto` — a window takes the events of its cell.
* `StoryPipeline.start_spec`, `StoryPipeline.Merging.mergeExisting`,
  `StoryPipeline.mergeAppended_spec` — the loops end.
* `StoryPipeline.mergeEvents_conserves_iff` — **the merge ends, conserves the chunk's events
  and reports its receipts rightly, if and only if it is safe.**
-/

namespace ChronoLog

open OrderedMap

namespace StoryPipeline

open StoryTimeline (Placeable placeable_congr)

variable {a : Attachments} {p : StoryTimeline} {w : TimelineChunk} {c : IncomingChunk}
  {s : Merge} {e : LogEvent} {k r : ℕ}

/-! ### The cells one by one -/

/-- An event of the story with a record, not before the chunk's start: what a window of its
time takes. -/
def Takes (p : StoryTimeline) (c : IncomingChunk) (e : LogEvent) : Prop :=
  Placeable p e ∧ c.startTime.toNat ≤ e.time

instance (p : StoryTimeline) (c : IncomingChunk) (e : LogEvent) : Decidable (Takes p c e) :=
  inferInstanceAs (Decidable (_ ∧ _))

/-- The event lies between two of its cell that are taken. -/
def Enclosed (p : StoryTimeline) (c : IncomingChunk) (e : LogEvent) : Prop :=
  ∃ f ∈ c.logEvents, ∃ l ∈ c.logEvents, Takes p c f ∧ Takes p c l ∧
    p.grid.start f.time = p.grid.start e.time ∧ p.grid.start l.time = p.grid.start e.time ∧
    (compare f.sequence e.sequence).isLE = true ∧ (compare e.sequence l.sequence).isLE = true

theorem enclosed_of_takes (he : e ∈ c.logEvents) (h : Takes p c e) : Enclosed p c e :=
  ⟨e, he, e, he, h, h, rfl, rfl, isLE_self e, isLE_self e⟩

/-- **The merge has taken the cells up to `cur`**: what lay between events taken there has
left the chunk, and the events taken are held with the chunk's receipts. -/
structure Merging (a : Attachments) (p : StoryTimeline) (c : IncomingChunk) (lo hi cur : ℕ)
    (s : Merge) : Prop extends Recorded p s where
  storyId : s.timeline.storyId = p.storyId
  granularity : s.timeline.granularity = p.granularity
  spans : s.timeline.Spans lo hi
  fits : hi < 2 ^ 64
  chunk : s.other.startTime = c.startTime ∧ s.other.endTime = c.endTime ∧
    s.other.carriedReceipts = c.carriedReceipts
  left : ∀ e, e ∈ s.other.logEvents ↔ e ∈ c.logEvents ∧ ¬(e.time < cur ∧ Enclosed p c e)
  placed : ∀ e ∈ c.logEvents, Takes p c e → e.time < cur → ∃ w : TimelineChunk,
    s.timeline.storyTimelineMap[p.grid.start e.time]? = some w ∧ e.sequence ∈ w.logEvents ∧
      (a.theReceiptTracker = true → ∀ r ∈ c.carriedReceipts, r ∈ w.carriedReceipts)

namespace Merging

variable {lo hi cur cur' : ℕ}

theorem grid (h : Merging a p c lo hi cur s) : s.timeline.grid = p.grid :=
  congrArg ChunkGranularity.grid h.granularity

/-- The rest of the state does not matter. -/
theorem of_same {s' : Merge} (h : Merging a p c lo hi cur s) (hrec : Recorded p s')
    (htimeline : s'.timeline = s.timeline) (hother : s'.other = s.other) :
    Merging a p c lo hi cur s' := by
  refine ⟨hrec, ?_, ?_, ?_, h.fits, ?_, ?_, ?_⟩
  · rw [htimeline]
    exact h.storyId
  · rw [htimeline]
    exact h.granularity
  · rw [htimeline]
    exact h.spans
  · rw [hother]
    exact h.chunk
  · rw [hother]
    exact h.left
  · rw [htimeline]
    exact h.placed

/-- Cells without an event of the chunk are skipped. -/
theorem skip (h : Merging a p c lo hi cur s) (hle : cur ≤ cur')
    (hempty : ∀ e ∈ s.other.logEvents, cur' ≤ e.time) : Merging a p c lo hi cur' s := by
  have htaken : ∀ e ∈ c.logEvents, e.time < cur' → Enclosed p c e → e.time < cur := by
    intro e he hlt henc
    by_contra hge
    have := hempty e ((h.left e).mpr ⟨he, fun hgone => hge hgone.1⟩)
    omega
  refine { h with left := fun e => ?_, placed := fun e he htakes hlt => ?_ }
  · rw [h.left]
    refine and_congr_right fun he => not_congr ⟨fun hgone => ⟨by omega, hgone.2⟩, ?_⟩
    rintro ⟨hlt, henc⟩
    exact ⟨htaken e he hlt henc, henc⟩
  · exact h.placed e he htakes (htaken e he hlt (enclosed_of_takes he htakes))

/-- What the window of a cell takes. -/
theorem takenBy_iff (h : Merging a p c lo hi cur s) (hk : k ∈ s.timeline.storyTimelineMap)
    (hw : s.timeline.storyTimelineMap[k]? = some w) :
    TakenBy w s.other e ↔
      e ∈ s.other.logEvents ∧ Takes p c e ∧ p.grid.start e.time = k := by
  obtain ⟨hstart, -, hstory⟩ := h.spans.window k w hw
  have hend := h.spans.endTime h.fits hw
  obtain ⟨hcell, -, -⟩ := (h.spans.keys k).mp hk
  rw [h.grid] at hend hcell
  unfold TakenBy
  rw [h.chunk.1]
  refine and_congr_right fun _ => ?_
  constructor
  · rintro ⟨hge, hid, hle, hlt, hrecord⟩
    refine ⟨⟨⟨hid.trans (hstory.trans h.storyId), hrecord⟩, hge⟩, ?_⟩
    exact Tiling.start_eq_of_mem hcell (hstart ▸ hle) (hend ▸ hlt)
  · rintro ⟨⟨⟨hid, hrecord⟩, hge⟩, rfl⟩
    refine ⟨hge, hid.trans (hstory.trans h.storyId).symm, hstart ▸ p.grid.start_le _, ?_, hrecord⟩
    rw [hend, Tiling.stop_start]
    exact p.grid.lt_stop _

/-- **What leaves the chunk with a cell** is what lies between events taken there. -/
theorem between_iff (h : Merging a p c lo hi cur s) (hk : cur ∈ s.timeline.storyTimelineMap)
    (hw : s.timeline.storyTimelineMap[cur]? = some w) :
    Between w s.other e ↔ p.grid.start e.time = cur ∧ Enclosed p c e := by
  obtain ⟨hcell, -, -⟩ := (h.spans.keys cur).mp hk
  rw [h.grid] at hcell
  constructor
  · rintro ⟨f, l, hf, hl, hfe, hel⟩
    obtain ⟨hfmem, hftakes, hfcell⟩ := (h.takenBy_iff hk hw).mp hf
    obtain ⟨hlmem, hltakes, hlcell⟩ := (h.takenBy_iff hk hw).mp hl
    have hle := IncomingChunk.time_le_of_isLE hfe
    have hle' := IncomingChunk.time_le_of_isLE hel
    have hstart : p.grid.start e.time = cur := by
      refine Tiling.start_eq_of_mem hcell ?_ ?_
      · exact (hfcell ▸ p.grid.start_le f.time).trans hle
      · refine hle'.trans_lt ?_
        rw [← hlcell, Tiling.stop_start]
        exact p.grid.lt_stop _
    refine ⟨hstart, f, ((h.left f).mp hfmem).1, l, ((h.left l).mp hlmem).1, hftakes, hltakes, ?_,
      ?_, hfe, hel⟩
    · rw [hfcell, hstart]
    · rw [hlcell, hstart]
  · rintro ⟨hstart, f, hf, l, hl, hftakes, hltakes, hfcell, hlcell, hfe, hel⟩
    rw [hstart] at hfcell hlcell
    have hthere : ∀ x ∈ c.logEvents, p.grid.start x.time = cur → x ∈ s.other.logEvents := by
      intro x hx hxcell
      refine (h.left x).mpr ⟨hx, fun hgone => ?_⟩
      have := p.grid.start_le x.time
      omega
    exact ⟨f, l, (h.takenBy_iff hk hw).mpr ⟨hthere f hf hfcell, hftakes, hfcell⟩,
      (h.takenBy_iff hk hw).mpr ⟨hthere l hl hlcell, hltakes, hlcell⟩, hfe, hel⟩

/-- **A window takes the events of its cell.** -/
theorem mergeInto (h : Merging a p c lo hi cur s) (hiter : s.iter = some cur)
    (hk : cur ∈ s.timeline.storyTimelineMap) :
    ∃ s', mergeInto a s = some s' ∧ Merging a p c lo hi (p.grid.stop cur) s' ∧
      s'.iter = some cur ∧ s'.appendFailed = s.appendFailed := by
  obtain ⟨w, hw⟩ := StoryTimeline.exists_window hk
  obtain ⟨hcell, -, -⟩ := (h.spans.keys cur).mp hk
  rw [h.grid] at hcell
  obtain ⟨hfields, hcarried, htaken⟩ := windowAfter_spec a w s.other
  refine ⟨_, mergeInto_eq hiter hw, ?_, hiter, rfl⟩
  have hcells : ∀ t, t < p.grid.stop cur ↔ t < cur ∨ p.grid.start t = cur := by
    intro t
    constructor
    · intro hlt
      rcases Nat.lt_or_ge t cur with hlt' | hge
      · exact Or.inl hlt'
      · exact Or.inr (Tiling.start_eq_of_mem hcell hge hlt)
    · rintro (hlt | rfl)
      · exact hlt.trans (p.grid.lt_stop cur)
      · rw [Tiling.stop_start]
        exact p.grid.lt_stop t
  refine ⟨h.toRecorded.stateAfter hw, h.storyId, h.granularity,
    h.spans.replace hw hfields.2.1 hfields.2.2 hfields.1, h.fits, ?_, fun e => ?_,
    fun e he htakes hlt => ?_⟩
  · obtain ⟨hstart, hend, hreceipts⟩ := chunk_stateAfter (a := a) (s := s) (k := cur) (w := w)
    rw [hstart, hend, hreceipts]
    exact h.chunk
  · rw [mem_stateAfter]
    constructor
    · rintro ⟨he, hout⟩
      obtain ⟨hmem, hnot⟩ := (h.left e).mp he
      refine ⟨hmem, fun hgone => ?_⟩
      rcases (hcells e.time).mp hgone.1 with hlt | hstart
      · exact hnot ⟨hlt, hgone.2⟩
      · exact hout ((h.between_iff hk hw).mpr ⟨hstart, hgone.2⟩)
    · rintro ⟨hmem, hnot⟩
      have he : e ∈ s.other.logEvents := (h.left e).mpr
        ⟨hmem, fun hgone => hnot ⟨(hcells e.time).mpr (Or.inl hgone.1), hgone.2⟩⟩
      refine ⟨he, fun hbetween => ?_⟩
      obtain ⟨hstart, henc⟩ := (h.between_iff hk hw).mp hbetween
      exact hnot ⟨(hcells e.time).mpr (Or.inr hstart), henc⟩
  · rw [getElem?_stateAfter]
    rcases (hcells e.time).mp hlt with hlt' | hstart
    · have hne : cur ≠ p.grid.start e.time := by
        have := p.grid.start_le e.time
        omega
      rw [if_neg hne]
      exact h.placed e he htakes hlt'
    · have hmem : e ∈ s.other.logEvents := by
        refine (h.left e).mpr ⟨he, fun hgone => ?_⟩
        have := p.grid.start_le e.time
        omega
      have hby := (h.takenBy_iff hk hw).mpr ⟨hmem, htakes, hstart⟩
      rw [if_pos hstart.symm]
      refine ⟨_, rfl, htaken e hby, fun htracker r hr => ?_⟩
      rw [hcarried]
      exact mem_holdReceipts_of_event htracker hmem hby.2.2.2.1 hby.2.2.2.2.1
        (h.chunk.2.2 ▸ hr)

end Merging

/-! ### The windows there are -/

theorem Recorded.of_same {s' : Merge} (h : Recorded p s)
    (hmap : s'.timeline.storyTimelineMap = s.timeline.storyTimelineMap)
    (hcalls : s'.calls = s.calls) (hstashed : s'.stashed = s.stashed)
    (hdiscarded : s'.discarded = s.discarded) : Recorded p s' := by
  have hsame : ∀ k r, carriedBy s'.timeline [] (.window k) r =
      carriedBy s.timeline [] (.window k) r := fun k r => by
    unfold carriedBy
    rw [hmap]
  refine ⟨fun k r hp => ?_, fun k r => ?_, ?_, hstashed.trans h.stashed,
    hdiscarded.trans h.kept_going⟩
  · rw [hsame]
    exact h.kept k r hp
  · rw [hsame, hcalls]
    exact h.counts k r
  · rw [hcalls]
    exact h.calls

/-- Nothing has been taken yet. -/
theorem merging_start {lo hi : ℕ} {q : StoryTimeline} (h : p.Spans lo hi) (hfits : hi < 2 ^ 64)
    (hmap : q.storyTimelineMap = p.storyTimelineMap) (hstory : q.storyId = p.storyId)
    (hgran : q.granularity = p.granularity) (iter : Option ℕ) :
    Merging a p c lo hi 0 { timeline := q, other := c, iter } := by
  have hsame : ∀ k r, carriedBy q [] (.window k) r = carriedBy p [] (.window k) r := fun k r => by
    unfold carriedBy
    rw [hmap]
  refine ⟨⟨fun k r hp => (hsame k r).trans hp, fun k r => ?_, fun call hcall => ?_, rfl, rfl⟩,
    hstory, hgran, h.of_same_map hmap hstory hgran, hfits, ⟨rfl, rfl, rfl⟩, fun e => ?_,
    fun e _ _ hlt => absurd hlt (Nat.not_lt_zero _)⟩
  · rw [hsame, Bool.and_not_self, if_neg Bool.false_ne_true]
    rfl
  · cases hcall
  · exact ⟨fun he => ⟨he, fun hgone => absurd hgone.1 (Nat.not_lt_zero _)⟩, And.left⟩

namespace Merging

variable {lo hi cur lo' hi' : ℕ}

/-- The timeline grows by an empty window. -/
theorem insertWindow (h : Merging a p c lo hi cur s) (hk : k ∉ s.timeline.storyTimelineMap)
    (hw : w.carriedReceipts = ∅) (hspans : (s.timeline.insertWindow k w).Spans lo' hi')
    (hfits : hi' < 2 ^ 64) (iter : Option ℕ) :
    Merging a p c lo' hi' cur
      { s with timeline := s.timeline.insertWindow k w, iter } := by
  refine ⟨(h.toRecorded.insertWindow hw hk).of_same rfl rfl rfl rfl, h.storyId, h.granularity,
    hspans, hfits, h.chunk, h.left, fun e he htakes hlt => ?_⟩
  obtain ⟨u, hu, hheld⟩ := h.placed e he htakes hlt
  refine ⟨u, ?_, hheld⟩
  change (s.timeline.storyTimelineMap.insertIfNew k w)[p.grid.start e.time]? = some u
  rw [Std.ExtTreeMap.getElem?_insertIfNew, if_neg]
  · exact hu
  · rintro ⟨heq, -⟩
    rw [Std.LawfulEqOrd.eq_of_compare heq] at hk
    exact hk (StoryTimeline.mem_of_window hu)

/-- The iterator points to the next cell to take, if there is one. -/
def At (hi cur : ℕ) (s : Merge) : Prop :=
  (s.iter = some cur ∧ cur ∈ s.timeline.storyTimelineMap) ∨ (s.iter = none ∧ cur = hi)

theorem le_of_at (h : Merging a p c lo hi cur s) (hat : At hi cur s) : cur ≤ hi := by
  rcases hat with ⟨-, hmem⟩ | ⟨-, rfl⟩
  · exact ((h.spans.keys cur).mp hmem).2.2.le
  · exact le_rfl

/-- A round of the loop over the windows there are. -/
theorem mergeRound (h : Merging a p c lo hi cur s) (hiter : s.iter = some cur)
    (hk : cur ∈ s.timeline.storyTimelineMap) :
    ∃ s', mergeRound a s = some s' ∧ Merging a p c lo hi (p.grid.stop cur) s' ∧
      At hi (p.grid.stop cur) s' ∧ s'.appendFailed = s.appendFailed := by
  obtain ⟨s₁, hs₁, h₁, hiter₁, hok⟩ := h.mergeInto hiter hk
  refine ⟨{ s₁ with iter := next s₁.timeline.storyTimelineMap cur }, ?_, ?_, ?_, hok⟩
  · rw [StoryPipeline.mergeRound, hiter, Option.bind_some, hs₁, Option.map_some]
  · exact h₁.of_same (h₁.toRecorded.of_same rfl rfl rfl rfl) rfl rfl
  · have hmem : cur ∈ s₁.timeline.storyTimelineMap := by
      rw [h₁.spans.keys, h₁.grid, ← h.grid]
      exact (h.spans.keys cur).mp hk
    have hnext := h₁.spans.next_eq hmem
    rw [h₁.grid] at hnext
    rcases hnext with ⟨hmem', hnext⟩ | ⟨hlast, hnext⟩
    · exact Or.inl ⟨hnext, hmem'⟩
    · exact Or.inr ⟨hnext, hlast⟩

/-- **The loop over the windows there are** takes their cells. -/
theorem mergeExisting (h : Merging a p c lo hi cur s) (hat : At hi cur s)
    (hok : s.appendFailed = false) :
    ∃ rounds s', mergeExisting rounds a s = some s' ∧ Merging a p c lo hi hi s' ∧
      s'.appendFailed = false := by
  let I : Merge → Prop := fun s =>
    (∃ cur, Merging a p c lo hi cur s ∧ At hi cur s) ∧ s.appendFailed = false
  let μ : Merge → ℕ := fun s => (s.iter.map fun k => hi - k).getD 0
  have hround : ∀ s, I s → (s.iter.isSome && !s.other.empty &&
      decide (s.other.firstEventTime < s.timeline.timelineEnd)) = true →
      ∃ s', StoryPipeline.mergeRound a s = some s' ∧ I s' ∧ μ s' < μ s := by
    rintro s ⟨⟨cur, h, hat⟩, hok⟩ hcond
    rw [Bool.and_eq_true, Bool.and_eq_true] at hcond
    rcases hat with ⟨hiter, hk⟩ | ⟨hiter, -⟩
    · obtain ⟨s', hs', h', hat', hok'⟩ := h.mergeRound hiter hk
      refine ⟨s', hs', ⟨⟨_, h', hat'⟩, hok'.trans hok⟩, ?_⟩
      have hlt := ((h.spans.keys cur).mp hk).2.2
      have hstop := p.grid.lt_stop cur
      unfold μ
      rw [hiter, Option.map_some, Option.getD_some]
      rcases hat' with ⟨hiter', -⟩ | ⟨hiter', -⟩
      · rw [hiter', Option.map_some, Option.getD_some]
        omega
      · rw [hiter', Option.map_none, Option.getD_none]
        omega
    · rw [hiter] at hcond
      exact absurd hcond.1.1 Bool.false_ne_true
  obtain ⟨s', hrun, ⟨⟨cur', h', hat'⟩, hok'⟩, hdone⟩ :=
    Loop.run_of_variant μ hround ⟨⟨cur, h, hat⟩, hok⟩
  -- the loop ends behind the last window, or because no event lies before the timeline's end
  rcases hat' with ⟨hiter, hk⟩ | ⟨-, rfl⟩
  · refine ⟨_, s', hrun, h'.skip (h'.le_of_at (Or.inl ⟨hiter, hk⟩)) fun e he => ?_, hok'⟩
    have hne : s'.other.empty = false := IncomingChunk.empty_eq_false_iff.mpr ⟨e, he⟩
    rw [hiter, hne, Option.isSome_some, Bool.true_and, Bool.not_false, Bool.true_and,
      decide_eq_false_iff_not, not_lt, h'.spans.timelineEnd h'.fits] at hdone
    exact hdone.trans (IncomingChunk.firstEventTime_le he)
  · exact ⟨_, s', hrun, h', hok'⟩

end Merging

/-! ### Where the merge begins -/

section Start

variable {lo hi t : ℕ}

/-- **The search for the first window** finds the one of the time. -/
theorem startWithin_eq (h : p.Spans lo hi) (hlo : lo ≤ t) (hhi : t < hi) :
    startWithin p t = some (p.grid.start t) := by
  unfold startWithin
  rcases h.lowerBound_cases hlo hhi with ⟨hfound, hprev⟩ | ⟨hfound, hstart⟩ |
    ⟨k, hk, hfound, hlt, hprev⟩
  · rw [hfound]
    exact hprev
  · obtain ⟨hmem, -, -⟩ := lowerBound_eq_some_iff.mp hfound
    obtain ⟨w, hw⟩ := StoryTimeline.exists_window hmem
    simp only [hfound, hw, Option.any_some, (h.window t w hw).1, lt_irrefl, decide_false,
      Bool.false_eq_true, if_false, hstart]
  · obtain ⟨w, hw⟩ := StoryTimeline.exists_window hk
    have hne : some k ≠ firstKey p.storyTimelineMap := by
      rw [h.firstKey_eq]
      rintro ⟨⟩
      omega
    simp only [hfound, hw, Option.any_some, (h.window k w hw).1, hlt, decide_true, if_true, hne,
      if_false]
    exact hprev

/-- **The loop that extends the timeline into the past** ends at the cell of the chunk's first
event. -/
theorem startBefore_spec (h : p.Spans lo hi) (hfits : hi < 2 ^ 64)
    (htop : lo ≤ p.granularity.top) (hne : c.empty = false) (hlt : c.firstEventTime < lo) :
    ∃ rounds s, startBefore rounds a { timeline := p, other := c } = some s ∧
      Merging a p c (p.grid.start c.firstEventTime) hi 0 s ∧ s.other = c ∧
      s.iter = some (p.grid.start c.firstEventTime) ∧ s.appendFailed = false := by
  let I : Merge → Prop := fun s => ∃ lo', Merging a p c lo' hi 0 s ∧ s.other = c ∧ lo' ≤ lo ∧
    p.grid.start c.firstEventTime ≤ lo' ∧
    (lo' ≤ c.firstEventTime → s.iter = some (p.grid.start c.firstEventTime)) ∧
    s.appendFailed = false
  have hround : ∀ s, I s →
      (!s.other.empty && decide (s.other.firstEventTime < s.timeline.timelineStart)) = true →
      ∃ s', prependRound a s = some s' ∧ I s' ∧
        s'.timeline.timelineStart < s.timeline.timelineStart := by
    rintro s ⟨lo', hs, hother, hle, hge, -, hok⟩ hcond
    have hstart := hs.spans.timelineStart
    rw [hother, hne, hstart, Bool.not_false, Bool.true_and, decide_eq_true_eq] at hcond
    have htop' : lo' ≤ s.timeline.granularity.top := by
      rw [hs.granularity]
      exact hle.trans htop
    obtain ⟨hlong, hcell, hstop⟩ := hs.spans.prependStart htop' (by omega)
    obtain ⟨hprepend, hspans'⟩ := hs.spans.prependStoryChunk htop' (by omega)
    have hpos : 0 < s.timeline.chunkGranularity := s.timeline.granularity.ns_pos
    have hgrid := hs.grid
    rw [hgrid] at hcell hstop
    generalize s.timeline.chunkGranularity = g at *
    have hnot : lo' - g ∉ s.timeline.storyTimelineMap := fun hmem =>
      absurd ((hs.spans.keys _).mp hmem).2.1 (by omega)
    have hs' := hs.insertWindow hnot rfl hspans' hfits (some (lo' - g))
    refine ⟨_, ?_, ⟨lo' - g, hs', hother, by omega, ?_, fun hlt' => ?_, hok⟩, ?_⟩
    · rw [prependRound, hprepend]
    · -- the cell of the first event does not start after the one before `lo'`
      by_contra hgt
      have := Tiling.stop_le_of_lt (p.grid.isStart_start c.firstEventTime) (not_le.mp hgt)
      have := p.grid.start_le c.firstEventTime
      omega
    · exact congrArg some (Tiling.start_eq_of_mem hcell hlt' (by omega)).symm
    · rw [hstart, hspans'.timelineStart]
      omega
  obtain ⟨hmap, hstory, hgran⟩ := p.delayedBy_fields c.firstEventTime
  have hle : p.grid.start c.firstEventTime ≤ lo := (p.grid.start_le _).trans hlt.le
  obtain ⟨s, hrun, ⟨lo', hs, hother, -, hge, hiter, hok⟩, hdone⟩ :=
    Loop.run_of_variant _ hround
      (s := { timeline := p.delayedBy c.firstEventTime, other := c })
      ⟨lo, merging_start h hfits hmap hstory hgran none, rfl, le_rfl, hle,
        fun hlt' => absurd hlt (not_lt.mpr hlt'), rfl⟩
  rw [hother, hne, hs.spans.timelineStart, Bool.not_false, Bool.true_and,
    decide_eq_false_iff_not, not_lt] at hdone
  have hcell := hs.spans.lo_start
  rw [hs.grid] at hcell
  have heq : lo' = p.grid.start c.firstEventTime :=
    le_antisymm (Tiling.le_start_of_le hcell hdone) hge
  subst heq
  exact ⟨_, s, hrun, hs, hother, hiter hdone, hok⟩

/-- **Where the merge begins**: all the chunk's events lie in the cell the iterator points to
or behind. -/
theorem start_spec (h : p.Spans lo hi) (hfits : hi < 2 ^ 64) (htop : lo ≤ p.granularity.top)
    (hne : c.empty = false) :
    ∃ rounds s lo' cur, start rounds a p c = some s ∧ Merging a p c lo' hi cur s ∧
      lo' ≤ lo ∧ Merging.At hi cur s ∧ s.appendFailed = false := by
  have hafter : ∀ e ∈ c.logEvents, p.grid.start c.firstEventTime ≤ e.time := fun e he =>
    (p.grid.start_le _).trans (IncomingChunk.firstEventTime_le he)
  rcases Nat.lt_or_ge c.firstEventTime lo with hbefore | hlo
  · obtain ⟨rounds, s, hrun, hs, hother, hiter, hok⟩ :=
      startBefore_spec (a := a) h hfits htop hne hbefore
    refine ⟨rounds, s, _, _, ?_, hs.skip (Nat.zero_le _) (by rw [hother]; exact hafter),
      (p.grid.start_le _).trans hbefore.le, Or.inl ⟨hiter, hs.spans.lo_mem⟩, hok⟩
    rw [start, h.timelineStart, if_pos hbefore]
    exact hrun
  · rcases Nat.lt_or_ge c.firstEventTime hi with hwithin | hhi
    · have hs := merging_start (a := a) (c := c) h hfits rfl rfl rfl
        (startWithin p c.firstEventTime)
      refine ⟨0, _, lo, p.grid.start c.firstEventTime, ?_, hs.skip (Nat.zero_le _) hafter,
        le_rfl, Or.inl ⟨startWithin_eq h hlo hwithin,
          (h.keys _).mpr (Tiling.start_mem_starts h.lo_start hlo hwithin)⟩, rfl⟩
      rw [start, h.timelineStart, h.timelineEnd hfits, if_neg (by omega), if_pos hwithin]
    · have hs := merging_start (a := a) (c := c) h hfits rfl rfl rfl none
      refine ⟨0, _, lo, hi, ?_, hs.skip (Nat.zero_le _) fun e he => ?_, le_rfl,
        Or.inr ⟨rfl, rfl⟩, rfl⟩
      · rw [start, h.timelineStart, h.timelineEnd hfits, if_neg (by omega), if_neg (by omega)]
      · exact hhi.trans (IncomingChunk.firstEventTime_le he)

end Start

/-! ### The windows that are appended -/

/-- The timeline comes to cover the event: it does already, or its window begins no later than
the chunk ends and fits in 64 bits. -/
def Reached (p : StoryTimeline) (c : IncomingChunk) (e : LogEvent) : Prop :=
  e.time < p.timelineEnd ∨
    (p.grid.start e.time ≤ c.endTime.toNat ∧ p.grid.stop e.time < 2 ^ 64)

/-- **The event leaves the chunk**: the timeline comes to cover it, and it lies between two
events of its window that are taken. -/
def Drained (p : StoryTimeline) (c : IncomingChunk) (e : LogEvent) : Prop :=
  Enclosed p c e ∧ Reached p c e

section Append

variable {lo hi : ℕ}

/-- What the appends before this one reached. -/
def Grown (p : StoryTimeline) (c : IncomingChunk) (hi : ℕ) : Prop :=
  p.timelineEnd ≤ hi ∧ ∀ t, p.timelineEnd ≤ t → t < hi → p.grid.start t ≤ c.endTime.toNat

theorem grown_stop (h : Grown p c hi) (hcell : p.grid.IsStart hi) (hend : hi ≤ c.endTime.toNat) :
    Grown p c (p.grid.stop hi) := by
  refine ⟨h.1.trans (p.grid.lt_stop hi).le, fun t hle hlt => ?_⟩
  rcases Nat.lt_or_ge t hi with hlt' | hge
  · exact h.2 t hle hlt'
  · rw [Tiling.start_eq_of_mem hcell hge hlt]
    exact hend

namespace Merging

/-- All the events of the chunk have been drained if none is left. -/
theorem drained (h : Merging a p c lo hi hi s) (hgrown : Grown p c hi)
    (hempty : s.other.empty = true) (he : e ∈ c.logEvents) : Drained p c e := by
  have hgone : e.time < hi ∧ Enclosed p c e := by
    by_contra hnot
    have hne := IncomingChunk.empty_eq_false_iff.mpr ⟨e, (h.left e).mpr ⟨he, hnot⟩⟩
    rw [hempty] at hne
    cases hne
  refine ⟨hgone.2, ?_⟩
  rcases Nat.lt_or_ge e.time p.timelineEnd with hlt | hge
  · exact Or.inl hlt
  · have hcell := h.spans.hi_start
    rw [h.grid] at hcell
    exact Or.inr ⟨hgrown.2 e.time hge hgone.1,
      (Tiling.stop_le_of_lt hcell hgone.1).trans_lt h.fits⟩

/-- What is left when no window is appended any more is not drained. -/
theorem not_drained (h : Merging a p c lo hi hi s) (hgrown : Grown p c hi)
    (hstop : c.endTime.toNat < hi ∨ 2 ^ 64 ≤ p.grid.stop hi) (hne : s.other.empty = false) :
    ∃ e ∈ c.logEvents, ¬Drained p c e := by
  obtain ⟨e, he⟩ := IncomingChunk.empty_eq_false_iff.mp hne
  obtain ⟨hmem, hnot⟩ := (h.left e).mp he
  refine ⟨e, hmem, ?_⟩
  rintro ⟨henc, hreached⟩
  have hge : hi ≤ e.time := by
    by_contra hlt
    exact hnot ⟨not_le.mp hlt, henc⟩
  have hcell := h.spans.hi_start
  rw [h.grid] at hcell
  have hstart := Tiling.le_start_of_le hcell hge
  rcases hreached with hlt | ⟨hend, hfits⟩
  · have := hgrown.1
    omega
  · rcases hstop with hlt | hpast
    · omega
    · -- the event's window ends no earlier than the one that no longer fits
      have hle : p.grid.stop hi ≤ p.grid.stop e.time := by
        rcases hge.lt_or_eq with hlt | rfl
        · rcases Nat.lt_or_ge e.time (p.grid.stop hi) with hin | hout
          · exact (Tiling.stop_eq_of_mem hge hin).ge
          · exact hout.trans (p.grid.lt_stop _).le
        · exact le_rfl
      omega

/-- **A window that fits is appended**, and takes the events of its cell. -/
theorem appendRound (h : Merging a p c lo hi hi s) (hstop : p.grid.stop hi < 2 ^ 64)
    (hok : s.appendFailed = false) :
    ∃ s', appendRound a s = some s' ∧
      Merging a p c lo (p.grid.stop hi) (p.grid.stop hi) s' ∧ s'.appendFailed = false := by
  obtain ⟨happend, hspans⟩ := h.spans.appendStoryChunk h.fits
  rw [h.grid] at hspans
  have h₁ := h.insertWindow h.spans.not_mem_hi rfl hspans hstop (some hi)
  have hend := hspans.timelineEnd hstop
  unfold StoryPipeline.appendRound
  rw [happend]
  dsimp only
  rw [if_neg (Option.some_ne_none hi), hend]
  split
  · have hmem : hi ∈ (s.timeline.insertWindow hi (s.timeline.newChunk hi
        ((hi + s.timeline.chunkGranularity) % 2 ^ 64))).storyTimelineMap :=
      Std.ExtTreeMap.mem_insertIfNew_self
    obtain ⟨s', hs', h', -, hok'⟩ := h₁.mergeInto rfl hmem
    exact ⟨s', hs', h', hok'.trans hok⟩
  · next hge =>
    refine ⟨_, rfl, h₁.skip (p.grid.lt_stop hi).le fun e he => ?_, hok⟩
    exact (not_lt.mp hge).trans (IncomingChunk.firstEventTime_le he)

end Merging

end Append

section Late

variable {lo hi last stop : ℕ}

/-- A window appended behind the timeline's end takes nothing. -/
theorem appendRound_late (h : Recorded p s) (hne : s.other.empty = false)
    (happend : s.timeline.appendStoryChunk.2 = some k)
    (hend : s.timeline.appendStoryChunk.1.timelineEnd ≤ k) :
    ∃ s', appendRound a s = some s' ∧ Recorded p s' ∧ s'.other.empty = false ∧
      s'.other.endTime = s.other.endTime ∧ s'.appendFailed = s.appendFailed ∧
      (s'.timeline = s.timeline.appendStoryChunk.1 ∨
        ∃ w w' : TimelineChunk, s.timeline.appendStoryChunk.1.storyTimelineMap[k]? = some w ∧
          (w'.storyId = w.storyId ∧ w'.startTime = w.startTime ∧ w'.endTime = w.endTime) ∧
          s'.timeline = { s.timeline.appendStoryChunk.1 with
            storyTimelineMap :=
              s.timeline.appendStoryChunk.1.storyTimelineMap.insert k w' }) := by
  obtain ⟨hk, w, hstart, hreceipts, hq⟩ := StoryTimeline.appendStoryChunk_of_some happend
  have hw : (s.timeline.insertWindow k w).storyTimelineMap[k]? = some w := by
    change (s.timeline.storyTimelineMap.insertIfNew k w)[k]? = some w
    rw [Std.ExtTreeMap.getElem?_insertIfNew, if_pos ⟨Std.ReflCmp.compare_self, hk⟩]
  have h₁ : Recorded p { s with timeline := s.timeline.insertWindow k w, iter := some k } :=
    (h.insertWindow hreceipts hk).of_same rfl rfl rfl rfl
  unfold appendRound
  dsimp only
  rw [happend, if_neg (Option.some_ne_none k)]
  rw [hq] at hend ⊢
  split
  · next hlt =>
    refine ⟨_, mergeInto_eq rfl hw, h₁.stateAfter hw, ?_, chunk_stateAfter.2.1, rfl,
      Or.inr ⟨w, _, hw, (windowAfter_spec a w s.other).1, rfl⟩⟩
    -- the first event comes before the window, and stays
    obtain ⟨e, he, htime⟩ := IncomingChunk.exists_firstEventTime hne
    refine IncomingChunk.empty_eq_false_iff.mpr ⟨e, mem_stateAfter.mpr ⟨he, ?_⟩⟩
    rintro ⟨f, l, hf, -, hfe, -⟩
    have hle := IncomingChunk.time_le_of_isLE hfe
    have hge : w.startTime ≤ f.time := hf.2.2.2.1
    omega
  · exact ⟨_, rfl, h₁, hne, rfl, rfl, Or.inl rfl⟩

/-- **Out of time, the loop ends with events left**: the window that wraps takes nothing, nor
does the one behind it, and then the append fails. -/
theorem mergeAppended_late (h : Merging a p c lo hi hi s) (hok : s.appendFailed = false)
    (hne : s.other.empty = false) (hend : hi ≤ c.endTime.toNat)
    (hlate : 2 ^ 64 ≤ p.grid.stop hi) :
    ∃ s' stop, mergeAppended 3 a s = some s' ∧ Recorded p s' ∧ s'.other.empty = false ∧
      p.OutOfTime s'.timeline hi stop ∧ stop < 5000 := by
  have hcell := h.spans.hi_start
  rw [h.grid] at hcell
  obtain ⟨stop, hlong, hwrap, hpos, hstop⟩ :=
    ChunkGranularity.stop_of_past_end hcell h.fits hlate
  change p.grid.stop hi = hi + 5000 at hlong
  have hother : s.other.endTime.toNat = c.endTime.toNat := congrArg UInt64.toNat h.chunk.2.1
  -- the first round appends the window that wraps
  obtain ⟨happend, hspans⟩ := h.spans.appendStoryChunk h.fits
  have hend₁ := hspans.timelineEnd_eq_mod
  rw [h.grid] at hspans hend₁
  have hmod : stop % 2 ^ 64 = stop := Nat.mod_eq_of_lt (by omega)
  rw [hlong, hwrap, Nat.add_mod_left, hmod] at hend₁
  obtain ⟨s₁, hs₁, h₁, hne₁, hother₁, hok₁, htimeline₁⟩ :=
    appendRound_late (a := a) (k := hi) h.toRecorded hne (by rw [happend])
      (by rw [happend, hend₁]; omega)
  have hspans₁ : s₁.timeline.Spans lo (p.grid.stop hi) ∧
      s₁.timeline.granularity = p.granularity := by
    rw [happend] at htimeline₁
    rcases htimeline₁ with heq | ⟨w, w', hw, ⟨hstory, hstart, hend'⟩, heq⟩
    · rw [heq]
      exact ⟨hspans, h.granularity⟩
    · rw [heq]
      exact ⟨hspans.replace hw hstart hend' hstory, h.granularity⟩
  -- the second one appends a window in front of the others
  obtain ⟨happend₁, hout₁⟩ := StoryTimeline.outOfTime_appendStoryChunk hspans₁.1 hspans₁.2 hcell
    hlong hwrap hstop hpos
  obtain ⟨s₂, hs₂, h₂, hne₂, hother₂, hok₂, htimeline₂⟩ :=
    appendRound_late (a := a) h₁ hne₁ happend₁ (by rw [hout₁.timelineEnd])
  have hout₂ : p.OutOfTime s₂.timeline hi stop := by
    rcases htimeline₂ with heq | ⟨w, w', hw, ⟨-, -, hend'⟩, heq⟩
    · rw [heq]
      exact hout₁
    · rw [heq]
      exact hout₁.replace hw hend'
  -- the third one fails
  have hs₃ : appendRound a s₂ = some { s₂ with iter := none, appendFailed := true } := by
    unfold appendRound
    rw [hout₂.appendStoryChunk]
    rfl
  have h₃ : Recorded p { s₂ with iter := none, appendFailed := true } :=
    h₂.of_same rfl rfl rfl rfl
  refine ⟨_, stop, ?_, h₃, hne₂, hout₂, hstop⟩
  have hend₂ : s₁.timeline.timelineEnd = stop := by
    rw [hspans₁.1.timelineEnd_eq_mod, hlong, hwrap, Nat.add_mod_left, hmod]
  have hother₁' : s₁.other.endTime.toNat = c.endTime.toNat := by
    rw [hother₁]
    exact hother
  have hother₂' : s₂.other.endTime.toNat = c.endTime.toNat := by
    rw [hother₂]
    exact hother₁'
  unfold mergeAppended
  rw [Loop.run_succ_of_body ?_ hs₁, Loop.run_succ_of_body ?_ hs₂, Loop.run_succ_of_body ?_ hs₃,
    Loop.run_of_not]
  · rfl
  · rw [hok₂, hok₁, hok, hne₂, hout₂.timelineEnd, hother₂', decide_eq_true (by omega)]
    rfl
  · rw [hok₁, hok, hne₁, hend₂, hother₁', decide_eq_true (by omega)]
    rfl
  · rw [hok, hne, h.spans.timelineEnd h.fits, hother, decide_eq_true hend]
    rfl

/-- Why events are left: the timeline reaches behind the chunk's end, or it has run out of
time. -/
def Stopped (a : Attachments) (p : StoryTimeline) (c : IncomingChunk) (s : Merge) : Prop :=
  (∃ lo hi, Merging a p c lo hi hi s ∧ c.endTime.toNat < hi) ∨
    ∃ last stop, p.OutOfTime s.timeline last stop ∧ stop < 5000

/-- **The loop that extends the timeline forward ends**, with nothing left if all events are
drained and something left otherwise. -/
theorem mergeAppended_spec (h : Merging a p c lo hi hi s) (hok : s.appendFailed = false)
    (hgrown : Grown p c hi) :
    ∃ rounds s', mergeAppended rounds a s = some s' ∧ Recorded p s' ∧
      ((s'.other.empty = true ∧ (∀ e ∈ c.logEvents, Drained p c e) ∧
          ∃ hi', Merging a p c lo hi' hi' s') ∨
        (s'.other.empty = false ∧ (∃ e ∈ c.logEvents, ¬Drained p c e) ∧ Stopped a p c s')) := by
  generalize hleft : 2 ^ 64 - hi = left
  induction left using Nat.strong_induction_on generalizing s hi with
  | _ left ih =>
    have hend := h.spans.timelineEnd h.fits
    have hother : s.other.endTime.toNat = c.endTime.toNat := congrArg UInt64.toNat h.chunk.2.1
    have hcell := h.spans.hi_start
    rw [h.grid] at hcell
    cases hempty : s.other.empty with
    | true =>
      refine ⟨0, s, Loop.run_of_not ?_, h.toRecorded,
        Or.inl ⟨hempty, fun e he => h.drained hgrown hempty he, hi, h⟩⟩
      rw [hempty, hok]
      rfl
    | false =>
      rcases Nat.lt_or_ge c.endTime.toNat hi with hlt | hge
      · refine ⟨0, s, Loop.run_of_not ?_, h.toRecorded,
          Or.inr ⟨hempty, h.not_drained hgrown (Or.inl hlt) hempty, Or.inl ⟨lo, hi, h, hlt⟩⟩⟩
        rw [hempty, hok, hend, hother, decide_eq_false (by omega)]
        rfl
      · rcases Nat.lt_or_ge (p.grid.stop hi) (2 ^ 64) with hfits | hlate
        · obtain ⟨s₁, hs₁, h₁, hok₁⟩ := h.appendRound hfits hok
          have hnext := p.grid.lt_stop hi
          have hfits' := h.fits
          obtain ⟨rounds, s', hrun, hresult⟩ :=
            ih (2 ^ 64 - p.grid.stop hi) (by omega) h₁ hok₁ (grown_stop hgrown hcell hge) rfl
          refine ⟨rounds + 1, s', ?_, hresult⟩
          unfold mergeAppended
          rw [Loop.run_succ_of_body ?_ hs₁]
          · exact hrun
          · rw [hempty, hok, hend, hother, decide_eq_true hge]
            rfl
        · obtain ⟨s', stop, hrun, h', hne', hout, hstop⟩ :=
            mergeAppended_late h hok hempty hge hlate
          exact ⟨3, s', hrun, h', Or.inr ⟨hne', h.not_drained hgrown (Or.inr hlate) hempty,
            Or.inr ⟨hi, stop, hout, hstop⟩⟩⟩

end Late

/-! ### The whole merge -/

theorem start_mono {n n' : ℕ} (h : start n a p c = some s) (hle : n ≤ n') :
    start n' a p c = some s := by
  unfold start at h ⊢
  split at h
  · next hlt =>
    rw [if_pos hlt]
    exact Loop.run_mono h hle
  · next hge =>
    rw [if_neg hge]
    exact h

theorem mergeEvents_mono {n n' : ℕ} (h : mergeEvents n a p c = some s) (hle : n ≤ n') :
    mergeEvents n' a p c = some s := by
  unfold mergeEvents at h ⊢
  split at h
  · next hempty => rw [if_pos hempty, h]
  · next hne =>
    rw [if_neg hne]
    obtain ⟨s₁, hs₁, h⟩ := Option.bind_eq_some_iff.mp h
    obtain ⟨s₂, hs₂, h⟩ := Option.bind_eq_some_iff.mp h
    obtain ⟨s₃, hs₃, h⟩ := Option.bind_eq_some_iff.mp h
    refine Option.bind_eq_some_iff.mpr ⟨s₁, start_mono hs₁ hle, ?_⟩
    refine Option.bind_eq_some_iff.mpr ⟨s₂, Loop.run_mono hs₂ hle, ?_⟩
    exact Option.bind_eq_some_iff.mpr ⟨s₃, Loop.run_mono hs₃ hle, h⟩

/-- The calls that report a merge. -/
def reports (a : Attachments) (c : IncomingChunk) : List TrackerCall :=
  if a.theReceiptTracker then c.carriedReceipts.toList.map .receiptMerged else []

/-- How a merge ends: with all events drained and the merge of the receipts reported, or with
some event that is not drained and the merge counted as discarding. -/
def Ended (a : Attachments) (p : StoryTimeline) (c : IncomingChunk) (r : Merge) : Prop :=
  ((∀ e ∈ c.logEvents, Drained p c e) ∧ r.discarded = false ∧
      ∃ s hi lo, Merging a p c lo hi hi s ∧ lo ≤ p.granularity.top ∧
        (∀ e ∈ c.logEvents, e.time < hi) ∧ r.timeline = s.timeline ∧ r.stashed = [] ∧
        r.calls = s.calls ++ reports a c) ∨
    ((∃ e ∈ c.logEvents, ¬Drained p c e) ∧ r.discarded = true ∧
      ∃ s, Recorded p s ∧ Stopped a p c s ∧ r.timeline = s.timeline ∧ r.stashed = [] ∧
        r.calls = s.calls)

/-- **A merge ends** in one of the two ways. -/
theorem mergeEvents_ended_of_spans {lo hi : ℕ} (hspans : p.Spans lo hi) (hfits : hi < 2 ^ 64)
    (htop : lo ≤ p.granularity.top) (hne : c.empty = false) :
    ∃ rounds r, mergeEvents rounds a p c = some r ∧ Ended a p c r := by
  obtain ⟨n₁, s₁, lo₁, cur, hs₁, h₁, hle, hat, hok₁⟩ :=
    start_spec (a := a) hspans hfits htop hne
  obtain ⟨n₂, s₂, hs₂, h₂, hok₂⟩ := h₁.mergeExisting hat hok₁
  have hgrown : Grown p c hi := by
    rw [Grown, hspans.timelineEnd hfits]
    exact ⟨le_rfl, fun t hle hlt => absurd hlt (not_lt.mpr hle)⟩
  obtain ⟨n₃, s₃, hs₃, h₃, hcases⟩ := mergeAppended_spec h₂ hok₂ hgrown
  refine ⟨n₁ + n₂ + n₃, finish a s₃, ?_, ?_⟩
  · unfold mergeEvents
    rw [hne, if_neg Bool.false_ne_true]
    refine Option.bind_eq_some_iff.mpr ⟨s₁, start_mono hs₁ (by omega), ?_⟩
    refine Option.bind_eq_some_iff.mpr ⟨s₂, Loop.run_mono hs₂ (by omega), ?_⟩
    exact Option.bind_eq_some_iff.mpr ⟨s₃, Loop.run_mono hs₃ (by omega), rfl⟩
  · rcases hcases with ⟨hempty, hall, hi', h'⟩ | ⟨hleft, hsome, hstopped⟩
    · refine Or.inl ⟨hall, ?_, s₃, hi', _, h', hle.trans htop, fun e he => ?_, rfl, h₃.stashed,
        ?_⟩
      · change (s₃.discarded || !s₃.other.empty) = false
        rw [h₃.kept_going, hempty]
        rfl
      · by_contra hge
        have hmem := (h'.left e).mpr ⟨he, fun hgone => hge hgone.1⟩
        have := IncomingChunk.empty_eq_false_iff.mpr ⟨e, hmem⟩
        rw [hempty] at this
        cases this
      · change (if (a.theReceiptTracker && !(s₃.discarded || !s₃.other.empty)) = true then _
          else _) = _
        rw [h₃.kept_going, hempty, h'.chunk.2.2, reports]
        cases a.theReceiptTracker with
        | true => rfl
        | false => exact (List.append_nil _).symm
    · refine Or.inr ⟨hsome, ?_, s₃, h₃, hstopped, rfl, h₃.stashed, ?_⟩
      · change (s₃.discarded || !s₃.other.empty) = true
        rw [hleft, Bool.not_false, Bool.or_true]
      · change (if (a.theReceiptTracker && !(s₃.discarded || !s₃.other.empty)) = true then _
          else _) = _
        rw [hleft, Bool.not_false, Bool.or_true, Bool.not_true, Bool.and_false,
          if_neg Bool.false_ne_true]

theorem mergeEvents_ended (h : p.Invariant) (hne : c.empty = false) :
    ∃ rounds r, mergeEvents rounds a p c = some r ∧ Ended a p c r := by
  obtain ⟨lo, hi, hspans, htop, -⟩ := h.spans
  have hlt := hspans.lt
  exact mergeEvents_ended_of_spans hspans (htop.trans_lt p.granularity.top_lt) (by omega) hne

/-- A chunk that may hold events after a merge: a window of the timeline or a salvage chunk. -/
inductive HolderOf (r : Merge) : Holder → TimelineChunk → Prop where
  | window {k : ℕ} {w : TimelineChunk} (h : r.timeline.storyTimelineMap[k]? = some w) :
    HolderOf r (.window k) w
  | salvage {w : TimelineChunk} (h : w ∈ r.stashed) : HolderOf r (.salvage w.startTime) w

/-- The chunk's range contains the event's time, it is of the chunk's story with a record, and
the chunk has an event of its sequence. -/
def Holds (w : TimelineChunk) (e : LogEvent) : Prop :=
  w.toStoryChunk.Accepts e ∧ e.sequence ∈ w.logEvents

/-- **What the merge is for**: an event of the story with a record is held by the one chunk
whose range contains its time, or the merge counts as discarding; the merge of a receipt is
reported only when every event is held, by chunks that carry all the receipts; and a chunk
that came to carry a receipt was reported once. -/
structure Conserves (p : StoryTimeline) (c : IncomingChunk) (r : Merge) : Prop where
  placed : ∀ e ∈ c.logEvents, Placeable p e → r.discarded = true ∨
    ∃ holder w, HolderOf r holder w ∧ Holds w e ∧ ∀ holder' w', HolderOf r holder' w' →
      w'.startTime ≤ e.time → e.time < w'.endTime → holder' = holder
  reported : ∀ receipt, .receiptMerged receipt ∈ r.calls →
    ∀ e ∈ c.logEvents, ∃ holder w, HolderOf r holder w ∧ Holds w e
  carried : ∀ receipt, .receiptMerged receipt ∈ r.calls → ∀ e ∈ c.logEvents,
    ∀ holder w, HolderOf r holder w → Holds w e →
      ∀ receipt' ∈ c.carriedReceipts, receipt' ∈ w.carriedReceipts
  held : ∀ holder receipt, r.calls.count (.holdReceipt holder receipt) =
    if carriedBy r.timeline r.stashed holder receipt && !carriedBy p [] holder receipt then 1
    else 0

/-- **When the merge does what it is for**: no receipt is reported, or every event is of the
story with a record, or some event is not drained. -/
def MergeSafe (a : Attachments) (p : StoryTimeline) (c : IncomingChunk) : Prop :=
  a.theReceiptTracker = false ∨ c.carriedReceipts.toList = [] ∨
    (∀ e ∈ c.logEvents, Placeable p e) ∨ ∃ e ∈ c.logEvents, ¬Drained p c e

/-- **One hold for every receipt a chunk came to carry.** -/
theorem held_of_recorded {r : Merge} (h : Recorded p s) (htimeline : r.timeline = s.timeline)
    (hstashed : r.stashed = []) {l : List ℕ}
    (hcalls : r.calls = s.calls ++ l.map .receiptMerged) (holder : Holder) (receipt : ℕ) :
    r.calls.count (.holdReceipt holder receipt) =
      if carriedBy r.timeline r.stashed holder receipt && !carriedBy p [] holder receipt then 1
      else 0 := by
  have hreports : (l.map TrackerCall.receiptMerged).count (.holdReceipt holder receipt) = 0 := by
    refine List.count_eq_zero.mpr fun hmem => ?_
    obtain ⟨x, -, hx⟩ := List.mem_map.mp hmem
    cases hx
  rw [hcalls, List.count_append, hreports, Nat.add_zero, htimeline, hstashed]
  cases holder with
  | window k => exact h.counts k receipt
  | salvage t =>
    refine List.count_eq_zero.mpr fun hmem => ?_
    obtain ⟨k, r, hcall⟩ := h.calls _ hmem
    cases hcall

/-- An event that is taken is held by the window of its time alone. -/
theorem Merging.held {lo hi : ℕ} {r : Merge} (h : Merging a p c lo hi hi s)
    (htimeline : r.timeline = s.timeline) (hstashed : r.stashed = []) (he : e ∈ c.logEvents)
    (htakes : Takes p c e) (hlt : e.time < hi) :
    ∃ w, HolderOf r (.window (p.grid.start e.time)) w ∧ Holds w e ∧
      (a.theReceiptTracker = true → ∀ receipt ∈ c.carriedReceipts,
        receipt ∈ w.carriedReceipts) ∧
      ∀ holder' w', HolderOf r holder' w' → w'.startTime ≤ e.time → e.time < w'.endTime →
        holder' = .window (p.grid.start e.time) ∧ w' = w := by
  obtain ⟨w, hw, hmem, hcarries⟩ := h.placed e he htakes hlt
  obtain ⟨hstart, -, hstory⟩ := h.spans.window _ w hw
  have hend := h.spans.endTime h.fits hw
  rw [h.grid, Tiling.stop_start] at hend
  refine ⟨w, .window (by rw [htimeline]; exact hw), ⟨⟨?_, ?_, ?_, htakes.1.2⟩, hmem⟩, hcarries,
    ?_⟩
  · exact htakes.1.1.trans (hstory.trans h.storyId).symm
  · exact hstart ▸ p.grid.start_le _
  · exact hend ▸ p.grid.lt_stop _
  · intro holder' w' hholder hge hlt'
    cases hholder with
    | @window k _ hw' =>
      rw [htimeline] at hw'
      have hcell := h.spans.start_eq_of_mem h.fits hw' hge hlt'
      rw [h.grid] at hcell
      subst hcell
      rw [hw, Option.some.injEq] at hw'
      exact ⟨rfl, hw'.symm⟩
    | salvage hw' =>
      rw [hstashed] at hw'
      cases hw'

theorem takes_of_drained (he : Drained p c e) (hplace : Placeable p e) : Takes p c e := by
  obtain ⟨⟨f, -, l, -, hf, -, -, -, hfe, -⟩, -⟩ := he
  exact ⟨hplace, hf.2.trans (IncomingChunk.time_le_of_isLE hfe)⟩

/-- **A safe merge conserves.** -/
theorem conserves_of_safe {r : Merge} (h : Ended a p c r) (hsafe : MergeSafe a p c) :
    Conserves p c r := by
  rcases h with ⟨hall, -, s, hi, lo, hs, -, hlt, htimeline, hstashed, hcalls⟩ |
    ⟨-, hdiscarded, s, hs, -, htimeline, hstashed, hcalls⟩
  · have hreported : ∀ receipt, .receiptMerged receipt ∈ r.calls →
        a.theReceiptTracker = true ∧ ∀ e ∈ c.logEvents, Takes p c e := by
      intro receipt hmem
      rw [hcalls] at hmem
      rcases List.mem_append.mp hmem with hmem | hmem
      · obtain ⟨k, r', hcall⟩ := hs.calls _ hmem
        cases hcall
      · unfold reports at hmem
        split at hmem
        · next htracker =>
          obtain ⟨r', hr', -⟩ := List.mem_map.mp hmem
          refine ⟨htracker, fun e he => takes_of_drained (hall e he) ?_⟩
          rcases hsafe with hno | hno | hplace | ⟨e', he', hnot⟩
          · rw [hno] at htracker
            cases htracker
          · rw [hno] at hr'
            cases hr'
          · exact hplace e he
          · exact absurd (hall e' he') hnot
        · cases hmem
    refine ⟨fun e he hplace => Or.inr ?_, fun receipt hmem e he => ?_,
      fun receipt hmem e he holder w hholder hholds => ?_, fun holder receipt => ?_⟩
    · obtain ⟨w, hholder, hholds, -, honly⟩ := hs.held htimeline hstashed he
        (takes_of_drained (hall e he) hplace) (hlt e he)
      exact ⟨_, w, hholder, hholds, fun holder' w' h' hge hlt' => (honly holder' w' h' hge hlt').1⟩
    · obtain ⟨w, hholder, hholds, -, -⟩ := hs.held htimeline hstashed he
        ((hreported receipt hmem).2 e he) (hlt e he)
      exact ⟨_, w, hholder, hholds⟩
    · obtain ⟨u, -, -, hcarries, honly⟩ := hs.held htimeline hstashed he
        ((hreported receipt hmem).2 e he) (hlt e he)
      obtain ⟨-, rfl⟩ := honly holder w hholder hholds.1.2.1 hholds.1.2.2.1
      exact hcarries (hreported receipt hmem).1
    · obtain ⟨l, hl⟩ : ∃ l : List ℕ, reports a c = l.map .receiptMerged := by
        unfold reports
        split
        · exact ⟨_, rfl⟩
        · exact ⟨[], rfl⟩
      rw [hl] at hcalls
      exact held_of_recorded hs.toRecorded htimeline hstashed hcalls holder receipt
  · have hno : ∀ receipt, .receiptMerged receipt ∉ r.calls := by
      intro receipt hmem
      rw [hcalls] at hmem
      obtain ⟨k, r', hcall⟩ := hs.calls _ hmem
      cases hcall
    refine ⟨fun _ _ _ => Or.inl hdiscarded, fun receipt hmem => absurd hmem (hno receipt),
      fun receipt hmem => absurd hmem (hno receipt), ?_⟩
    exact held_of_recorded (l := []) hs htimeline hstashed (by rw [hcalls]; simp)

/-- **An unsafe merge does not conserve**: it reports the receipts of an event that is held
nowhere. -/
theorem safe_of_conserves {r : Merge} (h : Ended a p c r) (hconserves : Conserves p c r) :
    MergeSafe a p c := by
  rcases h with ⟨hall, -, s, hi, lo, hs, -, -, htimeline, hstashed, hcalls⟩ | ⟨hsome, -⟩
  · cases htracker : a.theReceiptTracker with
    | false => exact Or.inl htracker
    | true =>
      cases hreceipts : c.carriedReceipts.toList with
      | nil => exact Or.inr (Or.inl hreceipts)
      | cons receipt rest =>
        refine Or.inr (Or.inr (Or.inl fun e he => ?_))
        have hmem : .receiptMerged receipt ∈ r.calls := by
          rw [hcalls, reports, htracker, hreceipts, if_pos rfl]
          exact List.mem_append_right _ List.mem_cons_self
        obtain ⟨holder, w, hholder, hacc, -⟩ := hconserves.reported receipt hmem e he
        cases hholder with
        | window hw =>
          rw [htimeline] at hw
          have hstory := (hs.spans.window _ w hw).2.2
          exact ⟨hacc.1.trans (hstory.trans hs.storyId), hacc.2.2.2⟩
        | salvage hw =>
          rw [hstashed] at hw
          cases hw
  · exact Or.inr (Or.inr (Or.inr hsome))

/-- A merge that conserves is safe. -/
theorem safe_of_run (h : p.Invariant) {n' : ℕ} {r' : Merge}
    (hrun' : mergeEvents n' a p c = some r') (hconserves : Conserves p c r') :
    MergeSafe a p c := by
  cases hempty : c.empty with
  | true =>
    refine Or.inr (Or.inr (Or.inl fun e he => ?_))
    have hne := IncomingChunk.empty_eq_false_iff.mpr ⟨e, he⟩
    rw [hempty] at hne
    cases hne
  | false =>
    obtain ⟨n, r, hrun, hended⟩ := mergeEvents_ended (a := a) h hempty
    have heq := (mergeEvents_mono hrun (Nat.le_max_left n n')).symm.trans
      (mergeEvents_mono hrun' (Nat.le_max_right n n'))
    obtain rfl : r = r' := Option.some.inj heq
    exact safe_of_conserves hended hconserves

/-- A safe merge ends and conserves. -/
theorem run_of_safe (h : p.Invariant) (hsafe : MergeSafe a p c) :
    ∃ rounds r, mergeEvents rounds a p c = some r ∧ Conserves p c r := by
  cases hempty : c.empty with
  | true =>
    have hnone : ∀ e, e ∉ c.logEvents := fun e he => by
      have hne := IncomingChunk.empty_eq_false_iff.mpr ⟨e, he⟩
      rw [hempty] at hne
      cases hne
    refine ⟨0, { timeline := p, other := c }, ?_, fun e he => absurd he (hnone e),
      fun _ _ e he => absurd he (hnone e), fun _ _ e he => absurd he (hnone e),
      fun holder receipt => ?_⟩
    · rw [mergeEvents, if_pos hempty]
    · rw [Bool.and_not_self, if_neg Bool.false_ne_true]
      rfl
  | false =>
    obtain ⟨n, r, hrun, hended⟩ := mergeEvents_ended (a := a) h hempty
    exact ⟨n, r, hrun, conserves_of_safe hended hsafe⟩

/-- **The merge ends, conserves the chunk's events and reports its receipts rightly, if and
only if it is safe.** -/
theorem mergeEvents_conserves_iff (a : Attachments) (p : StoryTimeline) (c : IncomingChunk)
    (h : p.Invariant) :
    (∃ rounds r, mergeEvents rounds a p c = some r ∧ Conserves p c r) ↔ MergeSafe a p c := by
  constructor
  · rintro ⟨rounds, r, hrun, hconserves⟩
    exact safe_of_run h hrun hconserves
  · intro hsafe
    exact run_of_safe h hsafe

/-- An event of story 7. -/
def eventAt (eventTime : UInt64) (logRecord : List UInt8) : LogEvent :=
  ⟨7, eventTime, 1, 0, logRecord⟩

theorem sorted_three : [eventAt 100 [1], eventAt 200 [], eventAt 300 [1]].Pairwise fun a b =>
    compare a.sequence b.sequence = .lt := by
  decide

/-- A chunk of the first second, with receipt 5, in which the second of three events has no
record. -/
def threeEvents : IncomingChunk where
  startTime := 0
  endTime := 1000000000
  logEvents := [eventAt 100 [1], eventAt 200 [], eventAt 300 [1]]
  carriedReceipts := (∅ : OrdSet ℕ).insert 5
  sorted := sorted_three

/-- The same chunk without that event. -/
def twoEvents : IncomingChunk := threeEvents.keep fun e => e.logRecord ≠ []

theorem logEvents_twoEvents : twoEvents.logEvents = [eventAt 100 [1], eventAt 300 [1]] := by
  decide

/-- The events are merged and the receipt is reported. -/
theorem mergeEvents_conserves_two :
    StoryTimeline.secondWindows.Invariant ∧
      ∃ rounds r, mergeEvents rounds ⟨true, true⟩ StoryTimeline.secondWindows twoEvents = some r ∧
        Conserves StoryTimeline.secondWindows twoEvents r := by
  refine ⟨StoryTimeline.invariant_secondWindows, (mergeEvents_conserves_iff ⟨true, true⟩ _ _
    StoryTimeline.invariant_secondWindows).mpr (Or.inr (Or.inr (Or.inl ?_)))⟩
  rw [logEvents_twoEvents]
  simp only [List.forall_mem_cons, List.not_mem_nil, false_imp_iff, implies_true, and_true]
  exact ⟨⟨rfl, by simp [eventAt]⟩, ⟨rfl, by simp [eventAt]⟩⟩

/-- **An event without a record between two others is lost, and the receipt reported.** -/
theorem event_between_lost :
    StoryTimeline.secondWindows.Invariant ∧
      ¬∃ rounds r,
        mergeEvents rounds ⟨true, true⟩ StoryTimeline.secondWindows threeEvents = some r ∧
        Conserves StoryTimeline.secondWindows threeEvents r := by
  refine ⟨StoryTimeline.invariant_secondWindows, ?_⟩
  rintro ⟨rounds, r, hrun, hconserves⟩
  have htakes : ∀ t, Takes StoryTimeline.secondWindows threeEvents (eventAt t [1]) := fun t =>
    ⟨⟨rfl, by simp [eventAt]⟩, Nat.zero_le _⟩
  have hcells : ∀ e ∈ threeEvents.logEvents, ∀ f ∈ threeEvents.logEvents,
      StoryTimeline.secondWindows.grid.start e.time =
        StoryTimeline.secondWindows.grid.start f.time := by
    decide +kernel
  have hends : ∀ e ∈ threeEvents.logEvents,
      (compare (eventAt 100 [1]).sequence e.sequence).isLE = true ∧
        (compare e.sequence (eventAt 300 [1]).sequence).isLE = true := by
    decide
  have hreached : ∀ e ∈ threeEvents.logEvents,
      StoryTimeline.secondWindows.grid.start e.time ≤ threeEvents.endTime.toNat ∧
        StoryTimeline.secondWindows.grid.stop e.time < 2 ^ 64 := by
    decide +kernel
  have hfirst : eventAt 100 [1] ∈ threeEvents.logEvents := by decide
  have hlast : eventAt 300 [1] ∈ threeEvents.logEvents := by decide
  rcases safe_of_run StoryTimeline.invariant_secondWindows hrun hconserves with
    hno | hno | hplace | ⟨e, he, hnot⟩
  · cases hno
  · revert hno
    decide
  · exact (hplace (eventAt 200 []) (by decide)).2 rfl
  · refine hnot ⟨⟨_, hfirst, _, hlast, htakes 100, htakes 300, hcells _ hfirst e he,
      hcells _ hlast e he, hends e he⟩, Or.inr (hreached e he)⟩

end StoryPipeline

end ChronoLog
