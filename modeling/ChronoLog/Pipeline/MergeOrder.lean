import ChronoLog.Pipeline.GrapherConservation

/-!
# The order of merges

Several keepers send chunks of one story to a grapher, in any order and more than once.  A
chunk whose events fit adds exactly its events, each to the window of its time, so that the
order of the chunks does not matter.  A chunk with an event behind the last window that fits
in 64 bits leaves a timeline that takes nothing any more, and what comes after it is lost.

## Main definitions

* `StoryPipeline.HeldAt` — a window holds an event of a sequence.
* `StoryPipeline.WellFormed` — the chunks that keepers send.
* `StoryPipeline.mergeAll` — the merges of a list of chunks.

## Main results

* `StoryPipeline.heldAt_mergeEvents` — what the merge of one chunk adds.
* `StoryPipeline.mergeAll_order` — **the order and the number of merges do not matter.**
-/

namespace ChronoLog

open OrderedMap

namespace StoryPipeline

open StoryTimeline (Placeable placeable_congr)

variable {p q : StoryTimeline} {a : Attachments} {c : IncomingChunk} {s s' : Merge} {k : ℕ}
  {seq : EventSequence} {e : LogEvent} {rounds : ℕ}

/-- The window at a key holds an event of the sequence. -/
def HeldAt (p : StoryTimeline) (k : ℕ) (seq : EventSequence) : Prop :=
  ∃ w : TimelineChunk, p.storyTimelineMap[k]? = some w ∧ seq ∈ w.logEvents

/-- **What a merge moves**: the windows keep what they held and gain events of the chunk
only. -/
structure Moves (p : StoryTimeline) (c : IncomingChunk) (s : Merge) : Prop where
  kept : ∀ k seq, HeldAt p k seq → HeldAt s.timeline k seq
  added : ∀ k seq, HeldAt s.timeline k seq →
    HeldAt p k seq ∨ ∃ e ∈ c.logEvents, e.sequence = seq
  other : ∀ e ∈ s.other.logEvents, e ∈ c.logEvents

theorem heldAt_congr (h : q.storyTimelineMap = p.storyTimelineMap) :
    HeldAt q k seq ↔ HeldAt p k seq := by
  unfold HeldAt
  rw [h]

/-- A new window holds nothing. -/
theorem heldAt_addWindow {j : ℕ} {w : TimelineChunk} (hw : w.logEvents = ∅) :
    HeldAt (p.addWindow j w).1 k seq ↔ HeldAt p k seq := by
  unfold StoryTimeline.addWindow
  split
  · exact Iff.rfl
  · next hj =>
    change (∃ u, (p.storyTimelineMap.insertIfNew j w)[k]? = some u ∧ _) ↔ _
    rw [Std.ExtTreeMap.getElem?_insertIfNew]
    unfold HeldAt
    split
    · next heq =>
      rw [← Std.LawfulEqOrd.eq_of_compare heq.1, Std.ExtTreeMap.getElem?_eq_none hj]
      simp [hw]
    · exact Iff.rfl

theorem heldAt_appendStoryChunk : HeldAt p.appendStoryChunk.1 k seq ↔ HeldAt p k seq :=
  heldAt_addWindow rfl

theorem heldAt_prependStoryChunk : HeldAt p.prependStoryChunk.1 k seq ↔ HeldAt p k seq :=
  heldAt_addWindow rfl

namespace Moves

/-- A state whose windows hold the same. -/
theorem of_same (h : Moves p c s)
    (hheld : ∀ k seq, HeldAt s'.timeline k seq ↔ HeldAt s.timeline k seq)
    (hother : ∀ e ∈ s'.other.logEvents, e ∈ s.other.logEvents) : Moves p c s' :=
  ⟨fun k seq hp => (hheld k seq).mpr (h.kept k seq hp),
    fun k seq hs => h.added k seq ((hheld k seq).mp hs), fun e he => h.other e (hother e he)⟩

theorem mergeInto (h : Moves p c s) (hs : mergeInto a s = some s') : Moves p c s' := by
  obtain ⟨j, w, -, hw, rfl⟩ := exists_of_mergeInto hs
  have hafter := mem_windowAfter a w s.other
  refine ⟨fun k seq hp => ?_, fun k seq hheld => ?_, fun e he => ?_⟩
  · obtain ⟨u, hu, hmem⟩ := h.kept k seq hp
    unfold HeldAt
    rw [getElem?_stateAfter]
    by_cases hj : j = k
    · subst hj
      rw [hw, Option.some.injEq] at hu
      rw [if_pos rfl]
      exact ⟨_, rfl, (hafter seq).1 (hu ▸ hmem)⟩
    · rw [if_neg hj]
      exact ⟨u, hu, hmem⟩
  · obtain ⟨u, hu, hmem⟩ := hheld
    rw [getElem?_stateAfter] at hu
    by_cases hj : j = k
    · subst hj
      rw [if_pos rfl, Option.some.injEq] at hu
      rcases (hafter seq).2 (hu ▸ hmem) with hmem | ⟨e, he, heq⟩
      · exact h.added j seq ⟨w, hw, hmem⟩
      · exact Or.inr ⟨e, h.other e he, heq⟩
    · rw [if_neg hj] at hu
      exact h.added k seq ⟨u, hu, hmem⟩
  · exact h.other e (mem_stateAfter.mp he).1

theorem prependRound (h : Moves p c s) (hs : prependRound a s = some s') : Moves p c s' := by
  unfold StoryPipeline.prependRound at hs
  dsimp only at hs
  split at hs
  · cases hs
    exact h.of_same (fun _ _ => heldAt_prependStoryChunk) fun _ he => he
  · cases hs
    unfold salvage
    dsimp only
    split
    · refine h.of_same (fun _ _ => Iff.rfl) fun e he => ?_
      have hmerged : ∀ e, e ∈ (mergeChunk (holdReceipts a (s.timeline.newChunk
          s.other.startTime.toNat s.timeline.timelineStart) s.other).1 s.other).2.logEvents →
          e ∈ s.other.logEvents := fun e he => (mem_mergeChunk.mp he).1
      dsimp only at he
      split at he
      · exact hmerged e (IncomingChunk.mem_of_mem_eraseEvents he)
      · exact hmerged e he
    · exact h.of_same (fun _ _ => Iff.rfl) fun _ he => IncomingChunk.mem_of_mem_eraseEvents he

theorem mergeRound (h : Moves p c s) (hs : mergeRound a s = some s') : Moves p c s' := by
  obtain ⟨k, -, hs⟩ := Option.bind_eq_some_iff.mp hs
  obtain ⟨s₁, hs₁, hs'⟩ := Option.map_eq_some_iff.mp hs
  rw [← hs']
  exact (h.mergeInto hs₁).of_same (fun _ _ => Iff.rfl) fun _ he => he

theorem appendRound (h : Moves p c s) (hs : appendRound a s = some s') : Moves p c s' := by
  have happended : Moves p c { s with
      timeline := s.timeline.appendStoryChunk.1, iter := s.timeline.appendStoryChunk.2 } :=
    h.of_same (fun _ _ => heldAt_appendStoryChunk) fun _ he => he
  unfold StoryPipeline.appendRound at hs
  dsimp only at hs
  split at hs
  · cases hs
    exact happended.of_same (fun _ _ => Iff.rfl) fun _ he => he
  · split at hs
    · exact happended.mergeInto hs
    · cases hs
      exact happended

end Moves

/-- **A merge moves events of its chunk only.** -/
theorem moves_mergeEvents (h : mergeEvents rounds a p c = some s) : Moves p c s := by
  have hstart : ∀ (q : StoryTimeline) (iter : Option ℕ),
      q.storyTimelineMap = p.storyTimelineMap →
      Moves p c { timeline := q, other := c, iter } := fun q iter hq =>
    ⟨fun _ _ hp => (heldAt_congr hq).mpr hp, fun _ _ hs => Or.inl ((heldAt_congr hq).mp hs),
      fun _ he => he⟩
  unfold mergeEvents at h
  split at h
  · cases h
    exact hstart p none rfl
  · obtain ⟨s₁, hs₁, h⟩ := Option.bind_eq_some_iff.mp h
    obtain ⟨s₂, hs₂, h⟩ := Option.bind_eq_some_iff.mp h
    obtain ⟨s₃, hs₃, h⟩ := Option.bind_eq_some_iff.mp h
    have h₁ : Moves p c s₁ := by
      unfold start at hs₁
      split at hs₁
      · refine (Loop.run_of_invariant (I := Moves p c)
          (fun s s' h _ hs => h.prependRound hs) ?_ hs₁).1
        exact hstart _ none (p.delayedBy_fields _).1
      · split at hs₁ <;> cases hs₁ <;> exact hstart p _ rfl
    have h₂ := (Loop.run_of_invariant (fun s s' h _ hs => Moves.mergeRound h hs) h₁ hs₂).1
    have h₃ := (Loop.run_of_invariant (fun s s' h _ hs => Moves.appendRound h hs) h₂ hs₃).1
    cases h
    refine h₃.of_same (fun _ _ => Iff.rfl) fun e he => ?_
    change e ∈ (if !s₃.other.empty then _ else s₃.other).logEvents at he
    split at he
    · exact IncomingChunk.mem_of_mem_eraseEvents he
    · exact he

/-! ### One merge -/

/-- A timeline of the same story whose windows are cells of the grid and fit in 64 bits. -/
structure Extends (p q : StoryTimeline) : Prop where
  storyId : q.storyId = p.storyId
  granularity : q.granularity = p.granularity
  spans : ∃ lo hi, q.Spans lo hi ∧ hi < 2 ^ 64 ∧ lo ≤ p.granularity.top

theorem extends_of_invariant (h : p.Invariant) : Extends p p := by
  obtain ⟨lo, hi, hspans, htop, -⟩ := h.spans
  have hlt := hspans.lt
  exact ⟨rfl, rfl, lo, hi, hspans, htop.trans_lt p.granularity.top_lt, by omega⟩

theorem Extends.grid (h : Extends p q) : q.grid = p.grid :=
  congrArg ChunkGranularity.grid h.granularity

/-- The chunks that keepers send: their events are of the story, lie within the chunk's range
and have a record. -/
def WellFormed (p : StoryTimeline) (c : IncomingChunk) : Prop :=
  ∀ e ∈ c.logEvents, Placeable p e ∧ c.startTime.toNat ≤ e.time ∧ e.time < c.endTime.toNat

/-- The window of every event of the chunk fits in 64 bits. -/
def WindowsFit (p : StoryTimeline) (c : IncomingChunk) : Prop :=
  ∀ e ∈ c.logEvents, p.grid.stop e.time < 2 ^ 64

theorem WellFormed.of_extends (h : WellFormed p c) (hq : Extends p q) : WellFormed q c :=
  fun e he => ⟨(placeable_congr hq.storyId).mpr (h e he).1, (h e he).2⟩

theorem WindowsFit.of_extends (h : WindowsFit p c) (hq : Extends p q) : WindowsFit q c := by
  unfold WindowsFit
  rw [hq.grid]
  exact h

/-- **What the merge of a chunk adds**: its events, each to the window of its time. -/
theorem heldAt_mergeEvents (h : Extends p p) (hwell : WellFormed p c) (hfits : WindowsFit p c) :
    ∃ rounds r, mergeEvents rounds a p c = some r ∧ Extends p r.timeline ∧
      ∀ k seq, HeldAt r.timeline k seq ↔
        HeldAt p k seq ∨ ∃ e ∈ c.logEvents, e.sequence = seq ∧ p.grid.start e.time = k := by
  obtain ⟨lo, hi, hspans, hhi, htop⟩ := h.spans
  have htakes : ∀ e ∈ c.logEvents, Takes p c e := fun e he => ⟨(hwell e he).1, (hwell e he).2.1⟩
  cases hempty : c.empty with
  | true =>
    have hnone : ∀ e, e ∉ c.logEvents := fun e he => by
      have hne := IncomingChunk.empty_eq_false_iff.mpr ⟨e, he⟩
      rw [hempty] at hne
      cases hne
    refine ⟨0, { timeline := p, other := c }, by rw [mergeEvents, if_pos hempty], h,
      fun k seq => ⟨Or.inl, ?_⟩⟩
    rintro (hheld | ⟨e, he, -⟩)
    · exact hheld
    · exact absurd he (hnone e)
  | false =>
    obtain ⟨rounds, r, hrun, hended⟩ :=
      mergeEvents_ended_of_spans (a := a) hspans hhi htop hempty
    have hmoves := moves_mergeEvents hrun
    have hdrained : ∀ e ∈ c.logEvents, Drained p c e := fun e he => by
      refine ⟨enclosed_of_takes he (htakes e he), Or.inr ⟨?_, hfits e he⟩⟩
      have := p.grid.start_le e.time
      have := (hwell e he).2.2
      omega
    rcases hended with ⟨-, -, s, hi', lo', hs, hlo', hlt, htimeline, -⟩ | ⟨⟨e, he, hnot⟩, -⟩
    · refine ⟨rounds, r, hrun, ⟨?_, ?_, lo', hi', ?_, hs.fits, hlo'⟩, fun k seq => ⟨?_, ?_⟩⟩
      · rw [htimeline]
        exact hs.storyId
      · rw [htimeline]
        exact hs.granularity
      · rw [htimeline]
        exact hs.spans
      · intro hheld
        rcases hmoves.added k seq hheld with hheld' | ⟨e, he, rfl⟩
        · exact Or.inl hheld'
        · -- the window that holds it is the one of its time
          refine Or.inr ⟨e, he, rfl, ?_⟩
          obtain ⟨w, hw, hmem⟩ := hheld
          rw [htimeline] at hw
          obtain ⟨e', he'⟩ := Option.isSome_iff_exists.mp
            (Std.ExtTreeMap.mem_iff_isSome_getElem?.mp hmem)
          have hin := w.held _ _ he'
          rw [LogEvent.time_eq_of_sequence_eq hin.1] at hin
          have hcell := hs.spans.start_eq_of_mem hs.fits hw hin.2.2.1 hin.2.2.2.1
          rw [hs.grid] at hcell
          exact hcell
      · rintro (hheld | ⟨e, he, rfl, rfl⟩)
        · exact hmoves.kept k seq hheld
        · obtain ⟨w, hw, hmem, -⟩ := hs.placed e he (htakes e he) (hlt e he)
          rw [htimeline]
          exact ⟨w, hw, hmem⟩
    · exact absurd (hdrained e he) hnot

/-! ### Many merges -/

/-- The merges of some chunks, one after another. -/
def mergeAll (rounds : ℕ) (attached : Attachments) (p : StoryTimeline)
    (chunks : List IncomingChunk) : Option StoryTimeline :=
  chunks.foldlM (fun q c => (mergeEvents rounds attached q c).map Merge.timeline) p

theorem mergeAll_cons {chunks : List IncomingChunk} :
    mergeAll rounds a p (c :: chunks) =
      ((mergeEvents rounds a p c).map Merge.timeline).bind fun q =>
        mergeAll rounds a q chunks := by
  rw [mergeAll, List.foldlM_cons]
  rfl

theorem mergeAll_mono {chunks : List IncomingChunk} {rounds' : ℕ}
    (h : mergeAll rounds a p chunks = some q) (hle : rounds ≤ rounds') :
    mergeAll rounds' a p chunks = some q := by
  induction chunks generalizing p with
  | nil => exact h
  | cons c chunks ih =>
    rw [mergeAll_cons] at h ⊢
    obtain ⟨p₁, hp₁, hrest⟩ := Option.bind_eq_some_iff.mp h
    obtain ⟨r, hr, rfl⟩ := Option.map_eq_some_iff.mp hp₁
    rw [mergeEvents_mono hr hle, Option.map_some, Option.bind_some]
    exact ih hrest

/-- A merge followed by others. -/
theorem mergeAll_cons_of_run {l : List IncomingChunk} {r : Merge} {n m : ℕ}
    (hr : mergeEvents n a p c = some r) (hq : mergeAll m a r.timeline l = some q) :
    mergeAll (max n m) a p (c :: l) = some q := by
  rw [mergeAll_cons, mergeEvents_mono hr (Nat.le_max_left n m), Option.map_some,
    Option.bind_some]
  exact mergeAll_mono hq (Nat.le_max_right n m)

/-- **What the merges of some chunks add**, in whatever order. -/
theorem mergeAll_spec {l : List IncomingChunk} (h : Extends p p)
    (hwell : ∀ c ∈ l, WellFormed p c) (hfits : ∀ c ∈ l, WindowsFit p c) :
    ∃ rounds q, mergeAll rounds a p l = some q ∧ Extends p q ∧
      ∀ k seq, HeldAt q k seq ↔ HeldAt p k seq ∨
        ∃ c ∈ l, ∃ e ∈ c.logEvents, e.sequence = seq ∧ p.grid.start e.time = k := by
  induction l generalizing p with
  | nil => exact ⟨0, p, rfl, h, fun k seq => by simp⟩
  | cons c l ih =>
    rw [List.forall_mem_cons] at hwell hfits
    obtain ⟨n, r, hr, hext, hheld⟩ := heldAt_mergeEvents (a := a) h hwell.1 hfits.1
    have hself : Extends r.timeline r.timeline := by
      obtain ⟨lo, hi, hspans, hhi, htop⟩ := hext.spans
      exact ⟨rfl, rfl, lo, hi, hspans, hhi, by rw [hext.granularity]; exact htop⟩
    obtain ⟨m, q, hq, hext', hheld'⟩ := ih hself
      (fun c hc => (hwell.2 c hc).of_extends hext) (fun c hc => (hfits.2 c hc).of_extends hext)
    refine ⟨max n m, q, mergeAll_cons_of_run hr hq, ⟨hext'.storyId.trans hext.storyId,
      hext'.granularity.trans hext.granularity, ?_⟩, fun k seq => ?_⟩
    · obtain ⟨lo, hi, hspans, hhi, htop⟩ := hext'.spans
      exact ⟨lo, hi, hspans, hhi, by rw [hext.granularity] at htop; exact htop⟩
    · rw [hheld', hheld, hext.grid, List.exists_mem_cons_iff, or_assoc]

/-- Two timelines whose windows at one key have the same range and hold events of the same
sequences. -/
structure SameSequences (q q' : StoryTimeline) : Prop where
  ranges : ∀ (k : ℕ) (w w' : TimelineChunk), q.storyTimelineMap[k]? = some w →
    q'.storyTimelineMap[k]? = some w' → w'.startTime = w.startTime ∧ w'.endTime = w.endTime
  windows : ∀ k seq, HeldAt q k seq ↔ HeldAt q' k seq
  overall : ∀ seq, (∃ k, HeldAt q k seq) ↔ ∃ k, HeldAt q' k seq

/-- **The order and the number of merges do not matter**: chunks whose events' windows fit,
merged in any two orders with any of them more than once, leave the same sequences in every
window. -/
theorem mergeAll_order (a : Attachments) (p : StoryTimeline) (chunks chunks' : List IncomingChunk)
    (h : p.Invariant) (hsame : ∀ c, c ∈ chunks ↔ c ∈ chunks')
    (hwell : ∀ c ∈ chunks, WellFormed p c) (hfits : ∀ c ∈ chunks, WindowsFit p c) :
    ∃ rounds q q', mergeAll rounds a p chunks = some q ∧
      mergeAll rounds a p chunks' = some q' ∧ SameSequences q q' := by
  have hself := extends_of_invariant h
  obtain ⟨n, q, hq, hext, hheld⟩ := mergeAll_spec (a := a) hself hwell hfits
  obtain ⟨m, q', hq', hext', hheld'⟩ := mergeAll_spec (a := a) (l := chunks') hself
    (fun c hc => hwell c ((hsame c).mpr hc)) (fun c hc => hfits c ((hsame c).mpr hc))
  have hwindows : ∀ k seq, HeldAt q k seq ↔ HeldAt q' k seq := fun k seq => by
    rw [hheld, hheld']
    simp only [hsame]
  refine ⟨max n m, q, q', mergeAll_mono hq (Nat.le_max_left n m),
    mergeAll_mono hq' (Nat.le_max_right n m), fun k w w' hw hw' => ?_, hwindows, fun seq => ?_⟩
  · obtain ⟨lo, hi, hspans, -⟩ := hext.spans
    obtain ⟨lo', hi', hspans', -⟩ := hext'.spans
    obtain ⟨hstart, hend, -⟩ := hspans.window k w hw
    obtain ⟨hstart', hend', -⟩ := hspans'.window k w' hw'
    rw [hstart, hstart', hend, hend', hext.grid, hext'.grid]
    exact ⟨rfl, rfl⟩
  · exact exists_congr fun k => hwindows k seq

/-! ### A timeline that has run out of time -/

/-- Out of time, a chunk from behind the timeline's end is discarded as a whole. -/
theorem mergeEvents_outOfTime {last stop : ℕ} (h : p.OutOfTime q last stop)
    (hne : c.empty = false) (hfirst : stop ≤ c.firstEventTime)
    (hend : stop ≤ c.endTime.toNat) :
    ∃ r, mergeEvents 1 a q c = some r ∧ r.timeline = q := by
  let s : Merge := { timeline := q, other := c }
  have hstart : start 1 a q c = some s := by
    have hge : ¬c.firstEventTime < q.timelineStart := by
      rcases h.first with hzero | hstop <;> omega
    rw [start, if_neg hge, if_neg]
    rw [h.timelineEnd]
    omega
  have hexisting : mergeExisting 1 a s = some s := Loop.run_of_not rfl
  have hround : appendRound a s = some { s with appendFailed := true } := by
    unfold appendRound
    dsimp only
    rw [h.appendStoryChunk]
    rfl
  have happended : mergeAppended 1 a s = some { s with appendFailed := true } := by
    unfold mergeAppended
    rw [Loop.run_succ_of_body ?_ hround, Loop.run_of_not rfl]
    change (!false && !c.empty && decide (q.timelineEnd ≤ c.endTime.toNat)) = true
    rw [hne, h.timelineEnd, decide_eq_true hend]
    rfl
  refine ⟨finish a { s with appendFailed := true }, ?_, rfl⟩
  unfold mergeEvents
  rw [hne, if_neg Bool.false_ne_true, hstart, Option.bind_eq_bind, Option.bind_some, hexisting,
    Option.bind_some, happended, Option.bind_some]
  rfl

/-- A chunk with an event whose window does not fit leaves a timeline out of time. -/
theorem outOfTime_of_not_fits {lo hi : ℕ} (hspans : p.Spans lo hi) (hhi : hi < 2 ^ 64)
    (htop : lo ≤ p.granularity.top) (he : e ∈ c.logEvents)
    (hlt : e.time < c.endTime.toNat) (hpast : 2 ^ 64 ≤ p.grid.stop e.time) :
    ∃ rounds r last stop, mergeEvents rounds a p c = some r ∧
      p.OutOfTime r.timeline last stop ∧ stop < 5000 := by
  have hne : c.empty = false := IncomingChunk.empty_eq_false_iff.mpr ⟨e, he⟩
  obtain ⟨rounds, r, hrun, hended⟩ := mergeEvents_ended_of_spans (a := a) hspans hhi htop hne
  have hbefore : ∀ {s : Merge} {lo' hi' : ℕ}, Merging a p c lo' hi' hi' s → hi' ≤ e.time := by
    intro s lo' hi' hs
    by_contra hgt
    have hcell := hs.spans.hi_start
    rw [hs.grid] at hcell
    have := Tiling.stop_le_of_lt hcell (not_le.mp hgt)
    have := hs.fits
    omega
  rcases hended with ⟨-, -, s, hi', lo', hs, -, hall, -⟩ |
    ⟨-, -, s, -, ⟨lo', hi', hs, hend⟩ | ⟨last, stop, hout, hstop⟩, htimeline, -⟩
  · have := hall e he
    have := hbefore hs
    omega
  · have := hbefore hs
    omega
  · exact ⟨rounds, r, last, stop, hrun, htimeline ▸ hout, hstop⟩

theorem wellFormed_chunkAt {eventTime : UInt64} (h : eventTime < eventTime + 1) :
    WellFormed StoryTimeline.secondWindows (chunkAt eventTime) := by
  intro e he
  obtain rfl := List.mem_singleton.mp he
  exact ⟨⟨rfl, by simp⟩, le_rfl, UInt64.lt_iff_toNat_lt.mp h⟩

/-- Two chunks of one story in both orders, one of them twice. -/
theorem mergeAll_order_two :
    StoryTimeline.secondWindows.Invariant ∧
      ∃ rounds q q', mergeAll rounds ⟨true, true⟩ StoryTimeline.secondWindows
          [chunkAt 500000000, chunkAt 7000000000] = some q ∧
        mergeAll rounds ⟨true, true⟩ StoryTimeline.secondWindows
          [chunkAt 7000000000, chunkAt 500000000, chunkAt 7000000000] = some q' ∧
        SameSequences q q' := by
  refine ⟨StoryTimeline.invariant_secondWindows, mergeAll_order ⟨true, true⟩ _ _ _
    StoryTimeline.invariant_secondWindows (fun c => ?_) ?_ ?_⟩
  · simp only [List.mem_cons, List.not_mem_nil, or_false]
    tauto
  · simp only [List.forall_mem_cons, List.not_mem_nil, false_imp_iff, implies_true, and_true]
    exact ⟨wellFormed_chunkAt (by decide), wellFormed_chunkAt (by decide)⟩
  · simp only [List.forall_mem_cons, List.not_mem_nil, false_imp_iff, implies_true, and_true]
    constructor
    · intro e he
      obtain rfl := List.mem_singleton.mp he
      decide +kernel
    · intro e he
      obtain rfl := List.mem_singleton.mp he
      decide +kernel

/-- **A chunk from the last ticks makes the grapher lose the chunks that come after it**, not
those that came before. -/
theorem order_matters_past_end :
    StoryTimeline.secondWindows.Invariant ∧
      WellFormed StoryTimeline.secondWindows (chunkAt 4000000000) ∧
      WellFormed StoryTimeline.secondWindows (chunkAt 18446744073709551614) ∧
      ∃ rounds q q', mergeAll rounds ⟨true, true⟩ StoryTimeline.secondWindows
          [chunkAt 4000000000, chunkAt 18446744073709551614] = some q ∧
        mergeAll rounds ⟨true, true⟩ StoryTimeline.secondWindows
          [chunkAt 18446744073709551614, chunkAt 4000000000] = some q' ∧
        (∃ k, HeldAt q k ⟨4000000000, 1, 0⟩) ∧ ¬∃ k, HeldAt q' k ⟨4000000000, 1, 0⟩ := by
  have hinvariant := StoryTimeline.invariant_secondWindows
  have hself := extends_of_invariant hinvariant
  have hgood := @wellFormed_chunkAt 4000000000 (by decide)
  have hlast := @wellFormed_chunkAt 18446744073709551614 (by decide)
  obtain ⟨lo, hi, hspans, hhi, htop⟩ := hself.spans
  have hpast : 2 ^ 64 ≤ StoryTimeline.secondWindows.grid.stop 18446744073709551614 := by
    decide +kernel
  have hnothing : ∀ k seq, ¬HeldAt StoryTimeline.secondWindows k seq := by
    have hempty : ∀ w ∈ StoryTimeline.secondWindows.windows, w.logEvents.isEmpty = true := by
      decide +kernel
    rintro k seq ⟨w, hw, hmem⟩
    have hwin : w ∈ StoryTimeline.secondWindows.windows :=
      List.mem_map.mpr ⟨(k, w), Std.ExtTreeMap.mem_toList_iff_getElem?_eq_some.mpr hw, rfl⟩
    rw [Std.ExtTreeMap.isEmpty_iff.mp (hempty w hwin)] at hmem
    exact Std.ExtTreeMap.not_mem_empty hmem
  refine ⟨hinvariant, hgood, hlast, ?_⟩
  -- the good chunk first: its event is placed, and stays
  have hfits : WindowsFit StoryTimeline.secondWindows (chunkAt 4000000000) := by
    intro e he
    obtain rfl := List.mem_singleton.mp he
    decide +kernel
  obtain ⟨n₁, r₁, hr₁, hext₁, hheld₁⟩ :=
    heldAt_mergeEvents (a := ⟨true, true⟩) hself hgood hfits
  obtain ⟨lo₁, hi₁, hspans₁, hhi₁, htop₁⟩ := hext₁.spans
  rw [← hext₁.granularity] at htop₁
  obtain ⟨n₂, r₂, last₂, stop₂, hr₂, -, -⟩ := outOfTime_of_not_fits (a := ⟨true, true⟩)
    (c := chunkAt 18446744073709551614) hspans₁ hhi₁ htop₁ List.mem_cons_self (by decide)
    (by rw [hext₁.grid]; exact hpast)
  -- the last ticks first: nothing is placed any more
  obtain ⟨n₃, r₃, last₃, stop₃, hr₃, hout₃, hstop₃⟩ :=
    outOfTime_of_not_fits (a := ⟨true, true⟩) (c := chunkAt 18446744073709551614) hspans hhi htop
      List.mem_cons_self (by decide) hpast
  obtain ⟨r₄, hr₄, hsame⟩ := mergeEvents_outOfTime (a := ⟨true, true⟩)
    (c := chunkAt 4000000000) hout₃ rfl (hstop₃.le.trans (by decide))
    (hstop₃.le.trans (by decide))
  have hfirst := mergeAll_cons_of_run (l := [chunkAt 18446744073709551614]) hr₁
    (mergeAll_cons_of_run (l := []) hr₂ (m := 0) rfl)
  have hsecond := mergeAll_cons_of_run (l := [chunkAt 4000000000]) hr₃
    (mergeAll_cons_of_run (l := []) hr₄ (m := 0) rfl)
  refine ⟨_, r₂.timeline, r₄.timeline, mergeAll_mono hfirst (Nat.le_max_left _ _),
    mergeAll_mono hsecond (Nat.le_max_right _ _), ?_, ?_⟩
  · obtain ⟨k, hk⟩ : ∃ k, HeldAt r₁.timeline k ⟨4000000000, 1, 0⟩ :=
      ⟨_, (hheld₁ _ _).mpr (Or.inr ⟨_, List.mem_cons_self, rfl, rfl⟩)⟩
    exact ⟨k, (moves_mergeEvents hr₂).kept k _ hk⟩
  · rintro ⟨k, hk⟩
    rw [hsame] at hk
    rcases (moves_mergeEvents hr₃).added k _ hk with hk | ⟨e, he, heq⟩
    · exact hnothing k _ hk
    · obtain rfl := List.mem_singleton.mp he
      revert heq
      decide

end StoryPipeline

end ChronoLog
