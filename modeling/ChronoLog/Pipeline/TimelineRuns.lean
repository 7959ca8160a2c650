import ChronoLog.Lib.Transition
import ChronoLog.Pipeline.Decay
import ChronoLog.Pipeline.GrapherWindows
import ChronoLog.Pipeline.KeeperMerge

/-!
# What a timeline keeps, over whole runs

The pipelines of graphers and keepers merge, extract decayed windows and grow at either end
in any order.  As long as the windows of the times they are given fit in 64 bits, the
timeline stays a row of aligned, contiguous windows, two at least.

The lock is held for a whole merge, but extraction takes it anew for every window, so a run
is made of single rounds of it, with merges in between.

## Main definitions

* `TimelineStep`, `timelines` — the runs of a pipeline, whatever it merges.
* `TimelineStep.Fits` — the windows a step makes fit in 64 bits.

## Main results

* `StoryTimeline.Invariant.appendStoryChunk`, `StoryTimeline.Invariant.prependStoryChunk`,
  `StoryTimeline.Invariant.extractionRound` — one lemma for each operation.
* `StoryTimeline.invariant_of_runs` — **both pipelines keep the invariant.**
-/

namespace ChronoLog

open OrderedMap Transition

namespace ChunkGranularity

/-- The window of a time, from multiple to multiple of the granularity, fits in 64 bits. -/
def Fits (g : ChunkGranularity) (t : ℕ) : Prop := (t / g.ns + 1) * g.ns < 2 ^ 64

instance (g : ChunkGranularity) (t : ℕ) : Decidable (g.Fits t) :=
  inferInstanceAs (Decidable (_ < _))

variable {g : ChunkGranularity} {t u k : ℕ}

theorem Fits.of_le (h : g.Fits t) (hle : u ≤ t) : g.Fits u := by
  refine lt_of_le_of_lt (Nat.mul_le_mul_right g.ns ?_) h
  have := Nat.div_le_div_right (c := g.ns) hle
  omega

/-- A window that fits ends no later than the last multiple of the granularity. -/
theorem Fits.stop_le (h : g.Fits k) (hk : g.grid.IsStart k) (htop : k ≤ g.top) :
    g.grid.stop k ≤ g.top := by
  have hdvd := dvd_of_isStart hk htop
  have hns := g.ns_pos
  have hend : (k / g.ns + 1) * g.ns = k + g.ns := by
    rw [Nat.add_mul, Nat.div_mul_cancel hdvd, Nat.one_mul]
  have hle : k + g.ns ≤ g.top :=
    g.le_top_of_dvd ((Nat.dvd_add_right hdvd).mpr (Nat.dvd_refl _)) (hend ▸ h)
  rw [stop_of_lt_top hk (by omega)]
  exact hle

end ChunkGranularity

namespace StoryTimeline

variable {p : StoryTimeline} {lo hi k : ℕ} {w : TimelineChunk} {now : UInt64}

theorem granularity_addWindow (p : StoryTimeline) (k : ℕ) (w : TimelineChunk) :
    (p.addWindow k w).1.granularity = p.granularity := by
  unfold addWindow
  split <;> rfl

theorem granularity_appendStoryChunk (p : StoryTimeline) :
    p.appendStoryChunk.1.granularity = p.granularity := granularity_addWindow _ _ _

theorem granularity_prependStoryChunk (p : StoryTimeline) :
    p.prependStoryChunk.1.granularity = p.granularity := granularity_addWindow _ _ _

namespace Invariant

/-- **An append keeps the invariant** if the new window fits. -/
theorem appendStoryChunk (h : p.Invariant) (hfits : p.granularity.Fits p.timelineEnd) :
    p.appendStoryChunk.1.Invariant := by
  obtain ⟨lo, hi, hspans, htop, htwo⟩ := h.spans
  have hhi : hi < 2 ^ 64 := htop.trans_lt p.granularity.top_lt
  obtain ⟨happend, hspans'⟩ := hspans.appendStoryChunk hhi
  rw [hspans.timelineEnd hhi] at hfits
  rw [happend]
  exact hspans'.invariant (hfits.stop_le hspans.hi_start htop) (htwo.trans (p.grid.lt_stop hi))

/-- **A prepend keeps the invariant** if the timeline does not start at `0`. -/
theorem prependStoryChunk (h : p.Invariant) (hpos : 0 < p.timelineStart) :
    p.prependStoryChunk.1.Invariant := by
  obtain ⟨lo, hi, hspans, htop, htwo⟩ := h.spans
  have hlt := hspans.lt
  rw [hspans.timelineStart] at hpos
  obtain ⟨-, -, hstop⟩ := hspans.prependStart (by omega) hpos
  obtain ⟨hprepend, hspans'⟩ := hspans.prependStoryChunk (by omega) hpos
  rw [hprepend]
  refine hspans'.invariant htop ?_
  change p.grid.stop (lo - p.chunkGranularity) < hi
  rw [hstop]
  exact hlt

theorem exists_prepended (h : p.Invariant) (hpos : 0 < p.timelineStart) :
    ∃ k, p.prependStoryChunk.2 = some k := by
  obtain ⟨lo, hi, hspans, htop, -⟩ := h.spans
  have hlt := hspans.lt
  rw [hspans.timelineStart] at hpos
  rw [(hspans.prependStoryChunk (by omega) hpos).1]
  exact ⟨_, rfl⟩

/-- **A window that takes events keeps the invariant.** -/
theorem replace (h : p.Invariant) (hw : p.storyTimelineMap[k]? = some w) {w' : TimelineChunk}
    (hsame : w'.storyId = w.storyId ∧ w'.startTime = w.startTime ∧ w'.endTime = w.endTime) :
    Invariant { p with storyTimelineMap := p.storyTimelineMap.insert k w' } := by
  obtain ⟨lo, hi, hspans, htop, htwo⟩ := h.spans
  exact (hspans.replace hw hsame.2.1 hsame.2.2 hsame.1).invariant htop htwo

theorem delayedBy (h : p.Invariant) (t : ℕ) : (p.delayedBy t).Invariant := by
  obtain ⟨lo, hi, hspans, htop, htwo⟩ := h.spans
  obtain ⟨hmap, hstory, hgran⟩ := p.delayedBy_fields t
  refine (hspans.of_same_map hmap hstory hgran).invariant ?_ ?_
  · rw [hgran]
    exact htop
  · rw [grid, hgran]
    exact htwo

/-- **A round of extraction keeps the invariant** if a window it appends fits. -/
theorem extractionRound (h : p.Invariant) {extracted : List TimelineChunk} {s : Extraction}
    (hfits : p.eraseHead.storyTimelineMap.size < 2 → p.granularity.Fits p.timelineEnd)
    (hround : StoryTimeline.extractionRound now { timeline := p, extracted } = some s) :
    s.timeline.Invariant ∧ s.timeline.granularity = p.granularity := by
  obtain ⟨lo, hi, hspans, htop, htwo⟩ := h.spans
  have hhi : hi < 2 ^ 64 := htop.trans_lt p.granularity.top_lt
  have herase := hspans.eraseHead htwo
  have hend := hspans.timelineEnd hhi
  obtain ⟨w, -, ⟨-, rfl⟩ | ⟨-, rfl⟩⟩ := extractionRound_cases hround
  · unfold extractHead
    dsimp only
    split
    · next hsize =>
      have hone : p.grid.stop (p.grid.stop lo) = hi := herase.size_lt_two_iff.mp hsize
      obtain ⟨happend, hspans'⟩ := herase.appendStoryChunk hhi
      rw [happend]
      refine ⟨hspans'.invariant ?_ ?_, rfl⟩
      · rw [hend] at hfits
        exact (hfits hsize).stop_le hspans.hi_start htop
      · exact hone ▸ p.grid.lt_stop hi
    · next hsize =>
      refine ⟨herase.invariant htop ?_, rfl⟩
      have hne : ¬p.grid.stop (p.grid.stop lo) = hi := fun hone =>
        hsize (herase.size_lt_two_iff.mpr hone)
      have hle := Tiling.stop_le_of_lt hspans.hi_start htwo
      change p.grid.stop (p.grid.stop lo) < hi
      omega
  · exact ⟨h, rfl⟩

end Invariant

end StoryTimeline

/-! ### A chunk merged by a grapher -/

namespace StoryPipeline

open StoryTimeline

variable {p : StoryTimeline} {a : Attachments} {c : IncomingChunk} {s s' : Merge} {t : UInt64}
  {g : ChunkGranularity} {rounds : ℕ}

/-- What a merge keeps of the timeline, and of the chunk's end. -/
structure Keeps (g : ChunkGranularity) (t : UInt64) (s : Merge) : Prop where
  invariant : s.timeline.Invariant
  granularity : s.timeline.granularity = g
  endTime : s.other.endTime = t

theorem Keeps.mergeInto (h : Keeps g t s) (hs : mergeInto a s = some s') : Keeps g t s' := by
  obtain ⟨k, w, -, hw, rfl⟩ := exists_of_mergeInto hs
  exact ⟨h.invariant.replace hw (windowAfter_spec a w s.other).1, h.granularity,
    chunk_stateAfter.2.1.trans h.endTime⟩

theorem Keeps.prependRound (h : Keeps g t s)
    (hcond : (!s.other.empty && decide (s.other.firstEventTime < s.timeline.timelineStart)) =
      true) (hs : prependRound a s = some s') : Keeps g t s' := by
  rw [Bool.and_eq_true, decide_eq_true_eq] at hcond
  have hpos : 0 < s.timeline.timelineStart := by omega
  obtain ⟨k, hk⟩ := h.invariant.exists_prepended hpos
  unfold StoryPipeline.prependRound at hs
  simp only [hk, Option.some.injEq] at hs
  subst hs
  exact ⟨h.invariant.prependStoryChunk hpos,
    (granularity_prependStoryChunk _).trans h.granularity, h.endTime⟩

theorem Keeps.mergeRound (h : Keeps g t s) (hs : mergeRound a s = some s') : Keeps g t s' := by
  obtain ⟨k, -, hs⟩ := Option.bind_eq_some_iff.mp hs
  obtain ⟨s₁, hs₁, rfl⟩ := Option.map_eq_some_iff.mp hs
  have h₁ := h.mergeInto hs₁
  exact ⟨h₁.invariant, h₁.granularity, h₁.endTime⟩

/-- Windows are appended up to the one of the chunk's end. -/
theorem Keeps.appendRound (h : Keeps g t s) (hfits : g.Fits t.toNat)
    (hcond : (!s.appendFailed && !s.other.empty &&
      decide (s.timeline.timelineEnd ≤ s.other.endTime.toNat)) = true)
    (hs : appendRound a s = some s') : Keeps g t s' := by
  rw [Bool.and_eq_true, decide_eq_true_eq, h.endTime] at hcond
  have hwindow : s.timeline.granularity.Fits s.timeline.timelineEnd := by
    rw [h.granularity]
    exact hfits.of_le hcond.2
  have hinvariant := h.invariant.appendStoryChunk hwindow
  have hgran := (granularity_appendStoryChunk s.timeline).trans h.granularity
  unfold StoryPipeline.appendRound at hs
  dsimp only at hs
  split at hs
  · cases hs
    exact ⟨hinvariant, hgran, h.endTime⟩
  · split at hs
    · have h₁ : Keeps g t { s with
          timeline := s.timeline.appendStoryChunk.1, iter := s.timeline.appendStoryChunk.2 } :=
        ⟨hinvariant, hgran, h.endTime⟩
      exact h₁.mergeInto hs
    · cases hs
      exact ⟨hinvariant, hgran, h.endTime⟩

/-- **A merge keeps the invariant** if the window of the chunk's end fits. -/
theorem mergeEvents_invariant (h : p.Invariant) (hfits : p.granularity.Fits c.endTime.toNat)
    (hs : mergeEvents rounds a p c = some s) :
    s.timeline.Invariant ∧ s.timeline.granularity = p.granularity := by
  unfold mergeEvents at hs
  split at hs
  · cases hs
    exact ⟨h, rfl⟩
  · obtain ⟨s₁, hs₁, hs⟩ := Option.bind_eq_some_iff.mp hs
    obtain ⟨s₂, hs₂, hs⟩ := Option.bind_eq_some_iff.mp hs
    obtain ⟨s₃, hs₃, hs⟩ := Option.bind_eq_some_iff.mp hs
    have h₁ : Keeps p.granularity c.endTime s₁ := by
      unfold start at hs₁
      split at hs₁
      · refine (Loop.run_of_invariant (I := Keeps p.granularity c.endTime)
          (fun s s' h hcond hs => h.prependRound hcond hs) ?_ hs₁).1
        exact ⟨h.delayedBy _, (p.delayedBy_fields _).2.2, rfl⟩
      · split at hs₁ <;> cases hs₁ <;> exact ⟨h, rfl, rfl⟩
    have h₂ := (Loop.run_of_invariant (fun s s' h _ hs => Keeps.mergeRound h hs) h₁ hs₂).1
    have h₃ := (Loop.run_of_invariant
      (fun s s' h hcond hs => Keeps.appendRound h hfits hcond hs) h₂ hs₃).1
    cases hs
    exact ⟨h₃.invariant, h₃.granularity⟩

end StoryPipeline

/-! ### Events merged by a keeper -/

namespace KeeperStoryPipeline

open StoryTimeline

variable {p q : StoryTimeline} {e : LogEvent} {s s' : Merge} {g : ChunkGranularity}
  {rounds : ℕ}

theorem tryInsert_invariant {iter : Option ℕ} {r : StoryTimeline × Bool} (h : p.Invariant)
    (hr : tryInsert p iter e = some r) :
    r.1.Invariant ∧ r.1.granularity = p.granularity := by
  obtain ⟨k, rfl, hr'⟩ := Option.bind_eq_some_iff.mp hr
  obtain ⟨w, hw, -⟩ := Option.map_eq_some_iff.mp hr'
  rw [tryInsert_eq hw] at hr
  split at hr <;> cases hr
  · exact ⟨h.replace hw (StoryChunk.insertEvent_interval w.toStoryChunk e), rfl⟩
  · exact ⟨h, rfl⟩

/-- What follows an extension keeps the invariant. -/
theorem insertExtended_invariant {x : Extension} (h : x.timeline.Invariant)
    (hs : insertExtended s e x = some s') :
    s'.timeline.Invariant ∧ s'.timeline.granularity = x.timeline.granularity := by
  unfold insertExtended at hs
  split at hs
  · cases hs
    exact ⟨h, rfl⟩
  · obtain ⟨r, hr, rfl⟩ := Option.map_eq_some_iff.mp hs
    have hr' := tryInsert_invariant h hr
    unfold afterInsert
    split <;> exact hr'

/-- **An event keeps the invariant** if its window fits. -/
theorem mergeEvent_invariant (h : s.timeline.Invariant)
    (hfits : s.timeline.granularity.Fits e.time) (hs : mergeEvent rounds s e = some s') :
    s'.timeline.Invariant ∧ s'.timeline.granularity = s.timeline.granularity := by
  let I : Extension → Prop := fun x =>
    x.timeline.Invariant ∧ x.timeline.granularity = s.timeline.granularity
  unfold KeeperStoryPipeline.mergeEvent at hs
  split at hs
  · obtain ⟨r, hr, hs⟩ := Option.bind_eq_some_iff.mp hs
    have hr' := tryInsert_invariant h hr
    split at hs
    · cases hs
      exact hr'
    · obtain ⟨r', hr₂, rfl⟩ := Option.map_eq_some_iff.mp hs
      have hr₂' := tryInsert_invariant hr'.1 hr₂
      unfold afterInsert
      split <;> exact ⟨hr₂'.1, hr₂'.2.trans hr'.2⟩
  · split at hs
    · obtain ⟨x, hx, hs⟩ := Option.bind_eq_some_iff.mp hs
      have hI : I x := (Loop.run_of_invariant (I := I) (by
        rintro x x' ⟨hx, hgran⟩ hcond hround
        rw [Bool.and_eq_true, decide_eq_true_eq] at hcond
        cases hround
        refine ⟨hx.appendStoryChunk ?_, (granularity_appendStoryChunk _).trans hgran⟩
        rw [hgran]
        exact hfits.of_le hcond.2) ⟨h, rfl⟩ hx).1
      obtain ⟨hs', hgran⟩ := insertExtended_invariant hI.1 hs
      exact ⟨hs', hgran.trans hI.2⟩
    · obtain ⟨x, hx, hs⟩ := Option.bind_eq_some_iff.mp hs
      have hI : I x := (Loop.run_of_invariant (I := I) (by
        rintro x x' ⟨hx, hgran⟩ hcond hround
        rw [Bool.and_eq_true, decide_eq_true_eq] at hcond
        cases hround
        exact ⟨hx.prependStoryChunk (by omega),
          (granularity_prependStoryChunk _).trans hgran⟩)
        ⟨h.delayedBy _, (s.timeline.delayedBy_fields _).2.2⟩ hx).1
      obtain ⟨hs', hgran⟩ := insertExtended_invariant hI.1 hs
      exact ⟨hs', hgran.trans hI.2⟩

/-- **A merge keeps the invariant** if the windows of the events fit. -/
theorem mergeEvents_invariant {events : List LogEvent} (h : p.Invariant)
    (hfits : ∀ e ∈ events, p.granularity.Fits e.time)
    (hs : mergeEvents rounds p events = some s) :
    s.timeline.Invariant ∧ s.timeline.granularity = p.granularity := by
  unfold mergeEvents at hs
  have hstart : (Merge.mk p (prev p.storyTimelineMap none) []).timeline.Invariant ∧
    (Merge.mk p (prev p.storyTimelineMap none) []).timeline.granularity = p.granularity := ⟨h, rfl⟩
  generalize Merge.mk p (prev p.storyTimelineMap none) [] = s₀ at hs hstart
  induction events generalizing s₀ with
  | nil =>
    cases hs
    exact hstart
  | cons e events ih =>
    rw [List.foldlM_cons] at hs
    obtain ⟨s₁, hs₁, hs⟩ := Option.bind_eq_some_iff.mp hs
    rw [List.forall_mem_cons] at hfits
    obtain ⟨h₁, hgran⟩ := mergeEvent_invariant hstart.1 (hstart.2 ▸ hfits.1) hs₁
    exact ih hfits.2 s₁ hs ⟨h₁, hgran.trans hstart.2⟩

end KeeperStoryPipeline

/-! ### Runs -/

/-- A step of a pipeline: a merge, one round of an extraction, or a window more at either
end. -/
inductive TimelineStep (μ : Type) where
  | mergeEvents (input : μ) (rounds : ℕ)
  | extractionRound (now : UInt64)
  | appendStoryChunk
  | prependStoryChunk

/-- The timeline after a step. -/
def StoryTimeline.step {μ : Type} (merge : ℕ → StoryTimeline → μ → Option StoryTimeline)
    (p : StoryTimeline) : TimelineStep μ → Option StoryTimeline
  | .mergeEvents input rounds => merge rounds p input
  | .extractionRound now =>
    (StoryTimeline.extractionRound now { timeline := p }).map StoryTimeline.Extraction.timeline
  | .appendStoryChunk => some p.appendStoryChunk.1
  | .prependStoryChunk => some p.prependStoryChunk.1

/-- The runs of a pipeline, whatever it merges. -/
def timelines {μ : Type} (merge : ℕ → StoryTimeline → μ → Option StoryTimeline) :
    System StoryTimeline (TimelineStep μ) where
  Initial p := ∃ storyId storyStartTime chunkGranularity acceptanceWindow,
    p = StoryTimeline.new storyId storyStartTime chunkGranularity acceptanceWindow
  step := StoryTimeline.step merge

/-- The runs of a grapher's pipeline. -/
def StoryPipeline.timelines :
    System StoryTimeline (TimelineStep (StoryPipeline.Attachments × IncomingChunk)) :=
  ChronoLog.timelines fun rounds p input =>
    (StoryPipeline.mergeEvents rounds input.1 p input.2).map StoryPipeline.Merge.timeline

/-- The runs of a keeper's pipeline. -/
def KeeperStoryPipeline.timelines : System StoryTimeline (TimelineStep (List LogEvent)) :=
  ChronoLog.timelines fun rounds p event_deque =>
    (KeeperStoryPipeline.mergeEvents rounds p event_deque).map
      KeeperStoryPipeline.Merge.timeline

/-- The windows that a step makes fit in 64 bits. -/
def TimelineStep.Fits {μ : Type} (merged : ChunkGranularity → μ → Prop) (p : StoryTimeline) :
    TimelineStep μ → Prop
  | .mergeEvents input _ => merged p.granularity input
  | .extractionRound _ =>
    p.eraseHead.storyTimelineMap.size < 2 → p.granularity.Fits p.timelineEnd
  | .appendStoryChunk => p.granularity.Fits p.timelineEnd
  | .prependStoryChunk => 0 < p.timelineStart

instance {μ : Type} (merged : ChunkGranularity → μ → Prop)
    [∀ g input, Decidable (merged g input)] (p : StoryTimeline) (l : TimelineStep μ) :
    Decidable (l.Fits merged p) :=
  match l with
  | .mergeEvents input _ => inferInstanceAs (Decidable (merged p.granularity input))
  | .extractionRound _ =>
    inferInstanceAs (Decidable (_ → p.granularity.Fits p.timelineEnd))
  | .appendStoryChunk => inferInstanceAs (Decidable (p.granularity.Fits p.timelineEnd))
  | .prependStoryChunk => inferInstanceAs (Decidable (0 < p.timelineStart))

/-- A chunk extends the timeline up to the window of its end. -/
def StoryPipeline.StepFits (p : StoryTimeline)
    (l : TimelineStep (StoryPipeline.Attachments × IncomingChunk)) : Prop :=
  l.Fits (fun g input => g.Fits input.2.endTime.toNat) p

instance (p : StoryTimeline) (l : TimelineStep (StoryPipeline.Attachments × IncomingChunk)) :
    Decidable (StoryPipeline.StepFits p l) :=
  inferInstanceAs (Decidable (l.Fits _ p))

/-- An event extends the timeline up to its window. -/
def KeeperStoryPipeline.StepFits (p : StoryTimeline) (l : TimelineStep (List LogEvent)) : Prop :=
  l.Fits (fun g event_deque => ∀ e ∈ event_deque, g.Fits e.time) p

instance (p : StoryTimeline) (l : TimelineStep (List LogEvent)) :
    Decidable (KeeperStoryPipeline.StepFits p l) :=
  inferInstanceAs (Decidable (l.Fits _ p))

namespace StoryTimeline

variable {p p' : StoryTimeline} {g : ChunkGranularity}

/-- **A step keeps the invariant** if merges do. -/
theorem step_invariant {μ : Type} {merge : ℕ → StoryTimeline → μ → Option StoryTimeline}
    {merged : ChunkGranularity → μ → Prop}
    (hmerge : ∀ rounds p input p', p.Invariant → merged p.granularity input →
      merge rounds p input = some p' → p'.Invariant)
    {l : TimelineStep μ} (h : p.Invariant) (hfits : l.Fits merged p)
    (hstep : (timelines merge).step p l = some p') : p'.Invariant := by
  cases l with
  | mergeEvents input rounds => exact hmerge rounds p input p' h hfits hstep
  | extractionRound now =>
    obtain ⟨s, hs, rfl⟩ := Option.map_eq_some_iff.mp hstep
    exact (h.extractionRound hfits hs).1
  | appendStoryChunk =>
    cases hstep
    exact h.appendStoryChunk hfits
  | prependStoryChunk =>
    cases hstep
    exact h.prependStoryChunk hfits

/-- **Both pipelines keep the invariant**: in every run from the constructor whose windows
fit in 64 bits, the timeline is keyed by the starts of its windows, which are aligned, one
granularity long and contiguous, two at least, and hold events of their range only. -/
theorem invariant_of_runs (storyId : StoryId) (storyStartTime : UInt64) (g : ChunkGranularity)
    (acceptanceWindow : UInt32)
    (hfits : storyStartTime.toNat / g.ns * g.ns + g.ns * 3 < 2 ^ 64) :
    (∀ steps p, StoryPipeline.timelines.StepsMeet StoryPipeline.StepFits
        (new storyId storyStartTime g acceptanceWindow) steps →
      StoryPipeline.timelines.run (new storyId storyStartTime g acceptanceWindow) steps =
        some p → p.Invariant) ∧
    (∀ steps p, KeeperStoryPipeline.timelines.StepsMeet KeeperStoryPipeline.StepFits
        (new storyId storyStartTime g acceptanceWindow) steps →
      KeeperStoryPipeline.timelines.run (new storyId storyStartTime g acceptanceWindow) steps =
        some p → p.Invariant) := by
  have hnew := invariant_new storyId acceptanceWindow hfits
  constructor
  · intro steps p hcond hrun
    refine System.run_induction_of_stepsMeet (P := Invariant) (fun p l p' h hfits hstep =>
      step_invariant ?_ h hfits hstep) hnew hcond hrun
    intro rounds p input p' h hmerged hmerge
    obtain ⟨s, hs, rfl⟩ := Option.map_eq_some_iff.mp hmerge
    exact (StoryPipeline.mergeEvents_invariant h hmerged hs).1
  · intro steps p hcond hrun
    refine System.run_induction_of_stepsMeet (P := Invariant) (fun p l p' h hfits hstep =>
      step_invariant ?_ h hfits hstep) hnew hcond hrun
    intro rounds p input p' h hmerged hmerge
    obtain ⟨s, hs, rfl⟩ := Option.map_eq_some_iff.mp hmerge
    exact (KeeperStoryPipeline.mergeEvents_invariant h hmerged hs).1

/-- A run of each pipeline in which windows are appended, filled and removed. -/
theorem invariant_of_runs_seconds :
    (∃ p, StoryPipeline.timelines.run secondWindows
        [.mergeEvents (⟨true, true⟩, StoryPipeline.chunkAt 3500000000) 5,
          .extractionRound 2500000000] = some p ∧
      p.Invariant) ∧
    ∃ p, KeeperStoryPipeline.timelines.run secondWindows
        [.appendStoryChunk, .mergeEvents [⟨7, 3500000000, 1, 0, [1]⟩] 5,
          .extractionRound 2500000000] = some p ∧ p.Invariant := by
  have hruns := invariant_of_runs 7 0 ⟨1, one_second_fits.1, one_second_fits.2⟩ 1 (by decide)
  constructor
  · obtain ⟨p, hp⟩ := Option.isSome_iff_exists.mp (show (StoryPipeline.timelines.run secondWindows
      [.mergeEvents (⟨true, true⟩, StoryPipeline.chunkAt 3500000000) 5,
        .extractionRound 2500000000]).isSome = true by decide +kernel)
    exact ⟨p, hp, hruns.1 _ p (System.stepsMeet_of_check (by decide +kernel)) hp⟩
  · obtain ⟨p, hp⟩ := Option.isSome_iff_exists.mp (show (KeeperStoryPipeline.timelines.run
      secondWindows [.appendStoryChunk, .mergeEvents [⟨7, 3500000000, 1, 0, [1]⟩] 5,
        .extractionRound 2500000000]).isSome = true by
        decide +kernel)
    exact ⟨p, hp, hruns.2 _ p (System.stepsMeet_of_check (by decide +kernel)) hp⟩

end StoryTimeline

end ChronoLog
