import ChronoLog.Pipeline.Timeline

/-!
# Decayed windows

`extractDecayedStoryChunks` removes windows from the head of the timeline while the
current time has reached the head's end plus the acceptance window.  The test of the
loop admits equality; the test under the lock, which removes the window, does not.  A
current time that is exactly the end of a window plus the acceptance window therefore
keeps the loop going without removing anything.  The sum is taken in 64 bits.

## Main definitions

* `StoryTimeline.extractDecayed` — the loop, cut off after a number of rounds.
* `StoryPipeline.extractDecayedStoryChunks`,
  `KeeperStoryPipeline.extractDecayedStoryChunks` — the two versions.
* `StoryTimeline.Decays` — what the loop is for.
* `StoryTimeline.DecaySafe` — when it does that.

## Main results

* `StoryTimeline.extractDecayedStoryChunks_iff` — **both versions end and remove precisely
  the decayed windows, if and only if the time is safe.**
-/

namespace ChronoLog

open OrderedMap

namespace StoryTimeline

/-- `*storyTimelineMap.begin()`. -/
def headWindow (p : StoryTimeline) : Option TimelineChunk := p.deref (firstKey p.storyTimelineMap)

/-- `acceptanceWindow + getEndTime()`. -/
def decayTime (p : StoryTimeline) (w : TimelineChunk) : ℕ :=
  (p.acceptanceWindow.toNat + w.endTime) % 2 ^ 64

/-- `storyTimelineMap.erase(storyTimelineMap.begin())`. -/
def eraseHead (p : StoryTimeline) : StoryTimeline :=
  { p with storyTimelineMap := p.storyTimelineMap.erase p.timelineStart }

/-- The state of the loop. -/
structure Extraction where
  timeline : StoryTimeline
  /-- The windows removed from the map, in order. -/
  extracted : List TimelineChunk := []

/-- The section under the lock that removes the head and leaves two windows at least. -/
def extractHead (s : Extraction) (w : TimelineChunk) : Extraction where
  timeline :=
    if s.timeline.eraseHead.storyTimelineMap.size < 2 then
      s.timeline.eraseHead.appendStoryChunk.1
    else s.timeline.eraseHead
  extracted := s.extracted ++ [w]

/-- The test of the loop. -/
def headDecayed (now : UInt64) (s : Extraction) : Bool :=
  s.timeline.headWindow.any fun w => decide (s.timeline.decayTime w ≤ now.toNat)

/-- A round of the loop: the test is repeated under the lock. -/
def extractionRound (now : UInt64) (s : Extraction) : Option Extraction :=
  s.timeline.headWindow.map fun w =>
    if s.timeline.decayTime w < now.toNat then extractHead s w else s

/-- The loop of both versions of `extractDecayedStoryChunks`. -/
def extractDecayed (rounds : ℕ) (p : StoryTimeline) (now : UInt64) : Option Extraction :=
  Loop.run (headDecayed now) (extractionRound now) rounds { timeline := p }

end StoryTimeline

open StoryTimeline

/-- The graphers' version hands every removed window to its caller, empty ones too. -/
def StoryPipeline.extractDecayedStoryChunks (rounds : ℕ) (p : StoryTimeline) (now : UInt64) :
    Option Extraction :=
  extractDecayed rounds p now

/-- What the keepers' version does with the windows it removes. -/
structure KeeperExtraction extends StoryTimeline.Extraction where
  /-- The chunks given to `ingestSealedChunk`, in order. -/
  ingested : List TimelineChunk
  /-- The empty windows, which are deleted. -/
  deleted : List TimelineChunk

/-- The keepers' version gives the removed windows to the retention store and deletes the
empty ones. -/
def KeeperStoryPipeline.extractDecayedStoryChunks (rounds : ℕ) (p : StoryTimeline)
    (now : UInt64) : Option KeeperExtraction :=
  (extractDecayed rounds p now).map fun s =>
    { s with
      ingested := s.extracted.filter fun w => !w.empty
      deleted := s.extracted.filter fun w => w.empty }

namespace StoryTimeline

/-- **What extraction is for**: the removed windows, in order, are the ones whose end plus
the acceptance window has passed, the others stay as they were, with windows appended only
to keep two. -/
structure Decays (p : StoryTimeline) (now : UInt64) (s : Extraction) : Prop where
  order : ∃ added : List TimelineChunk, (∀ w ∈ added, w.events = []) ∧
    s.extracted ++ s.timeline.windows = p.windows ++ added
  ascending : s.extracted.Pairwise fun a b => a.startTime < b.startTime
  passed : ∀ w ∈ s.extracted, p.acceptanceWindow.toNat + w.endTime ≤ now.toNat
  kept : ∀ w ∈ s.timeline.windows, now.toNat < p.acceptanceWindow.toNat + w.endTime
  two : 2 ≤ s.timeline.storyTimelineMap.size

/-- The end of the head window plus the acceptance window. -/
def headDecay (p : StoryTimeline) : ℕ :=
  p.acceptanceWindow.toNat + (p.timelineStart + p.chunkGranularity)

/-- When extraction at a time does what it is for.  Before the head has decayed, the head's
decay time may not wrap to a time that has passed.  From then on, the time may not be the
decay time of a window, the decay time of the first window that has not decayed fits in
64 bits, and so does the window behind it. -/
def DecaySafe (p : StoryTimeline) (now : UInt64) : Prop :=
  (now.toNat < p.headDecay ∧ (p.headDecay < 2 ^ 64 ∨ now.toNat < p.headDecay - 2 ^ 64)) ∨
  (p.headDecay ≤ now.toNat ∧ ¬p.grid.IsStart (now.toNat - p.acceptanceWindow.toNat) ∧
    p.acceptanceWindow.toNat + p.grid.stop (now.toNat - p.acceptanceWindow.toNat) < 2 ^ 64 ∧
    p.grid.stop (p.grid.stop (now.toNat - p.acceptanceWindow.toNat)) < 2 ^ 64)

instance (p : StoryTimeline) (now : UInt64) : Decidable (p.DecaySafe now) :=
  inferInstanceAs (Decidable (_ ∨ _))

variable {p : StoryTimeline} {lo hi k : ℕ} {w : TimelineChunk} {s : Extraction} {now : UInt64}

namespace Spans

theorem headWindow (h : p.Spans lo hi) :
    ∃ w, p.headWindow = some w ∧ p.storyTimelineMap[lo]? = some w := by
  obtain ⟨w, hw⟩ := exists_window h.lo_mem
  refine ⟨w, ?_, hw⟩
  rw [StoryTimeline.headWindow, h.firstKey_eq, deref, Option.bind_some, hw]

theorem eraseHead (h : p.Spans lo hi) (htwo : p.grid.stop lo < hi) :
    p.eraseHead.Spans (p.grid.stop lo) hi where
  lo_start := p.grid.isStart_stop lo
  hi_start := h.hi_start
  lt := htwo
  keys k := by
    change k ∈ p.storyTimelineMap.erase p.timelineStart ↔ k ∈ p.grid.starts (p.grid.stop lo) hi
    rw [h.timelineStart, Std.ExtTreeMap.mem_erase, Tiling.starts_tail, h.keys k, Set.mem_sdiff,
      Set.mem_singleton_iff, and_comm, ne_eq, Std.LawfulEqOrd.compare_eq_iff_eq, eq_comm]
  window k u hu := by
    change (p.storyTimelineMap.erase p.timelineStart)[k]? = some u at hu
    rw [Std.ExtTreeMap.getElem?_erase] at hu
    split at hu
    · cases hu
    · exact h.window k u hu

theorem windows_eq_cons (h : p.Spans lo hi) (hw : p.storyTimelineMap[lo]? = some w) :
    p.windows = w :: p.eraseHead.windows := by
  have hfirst := toList_erase_first hw fun k hk => ((h.keys k).mp hk).2.1
  have herase : p.eraseHead.storyTimelineMap = p.storyTimelineMap.erase lo := by
    rw [← h.timelineStart]
    rfl
  unfold windows
  rw [hfirst, List.map_cons, herase]

theorem windows_insertWindow (h : p.Spans lo hi) (w : TimelineChunk) :
    (p.insertWindow hi w).windows = p.windows ++ [w] := by
  have hinsert : (p.insertWindow hi w).storyTimelineMap = p.storyTimelineMap.insert hi w := by
    refine Std.ExtTreeMap.ext_getElem? fun k => ?_
    change (p.storyTimelineMap.insertIfNew hi w)[k]? = _
    rw [Std.ExtTreeMap.getElem?_insertIfNew, Std.ExtTreeMap.getElem?_insert]
    simp only [h.not_mem_hi, not_false_eq_true, and_true]
  unfold windows
  rw [hinsert, toList_insert_last fun k hk => ((h.keys k).mp hk).2.2, List.map_append]
  rfl

/-- A timeline of one window. -/
theorem size_lt_two_iff (h : p.Spans lo hi) :
    p.storyTimelineMap.size < 2 ↔ p.grid.stop lo = hi := by
  have hle : p.grid.stop lo ≤ hi := Tiling.stop_le_of_lt h.hi_start h.lt
  rw [← not_le, two_le_size_iff]
  constructor
  · intro hnot
    by_contra hne
    exact hnot ⟨lo, h.lo_mem, p.grid.stop lo, (h.keys _).mpr ⟨p.grid.isStart_stop lo,
      (p.grid.lt_stop lo).le, by omega⟩, p.grid.lt_stop lo⟩
  · rintro heq ⟨k, hk, k', hk', hlt⟩
    obtain ⟨-, hlok, -⟩ := (h.keys k).mp hk
    obtain ⟨hstart, -, hhi⟩ := (h.keys k').mp hk'
    have := Tiling.stop_le_of_lt hstart (hlok.trans_lt hlt)
    omega

end Spans

/-- Windows appended by the timeline are empty. -/
theorem events_newChunk (p : StoryTimeline) (startTime endTime : ℕ) :
    (p.newChunk startTime endTime).events = [] := StoryChunk.events_new _ _ _

/-- **The loop's state when the windows before `lo` are removed.** -/
structure Reached (p : StoryTimeline) (now : UInt64) (s : Extraction) (lo hi : ℕ) : Prop where
  spans : s.timeline.Spans lo hi
  two : p.grid.stop lo < hi
  granularity : s.timeline.granularity = p.granularity
  acceptance : s.timeline.acceptanceWindow = p.acceptanceWindow
  keysFit : ∀ k ∈ s.timeline.storyTimelineMap, k < 2 ^ 64
  order : ∃ added : List TimelineChunk, (∀ w ∈ added, w.events = []) ∧
    s.extracted ++ s.timeline.windows = p.windows ++ added
  ascending : s.extracted.Pairwise fun a b => a.startTime < b.startTime
  below : ∀ w ∈ s.extracted, w.startTime < lo
  passed : ∀ w ∈ s.extracted, p.acceptanceWindow.toNat + w.endTime ≤ now.toNat

namespace Reached

theorem grid (h : Reached p now s lo hi) : s.timeline.grid = p.grid :=
  congrArg ChunkGranularity.grid h.granularity

/-- The head's decay time. -/
theorem head (h : Reached p now s lo hi) :
    ∃ w, s.timeline.headWindow = some w ∧ s.timeline.storyTimelineMap[lo]? = some w ∧
      w.startTime = lo ∧ w.endTime = p.grid.stop lo % 2 ^ 64 ∧
      s.timeline.decayTime w = (p.acceptanceWindow.toNat + p.grid.stop lo) % 2 ^ 64 := by
  obtain ⟨w, hhead, hw⟩ := h.spans.headWindow
  obtain ⟨hstart, hend, -⟩ := h.spans.window lo w hw
  rw [h.grid] at hend
  refine ⟨w, hhead, hw, hstart, hend, ?_⟩
  rw [decayTime, h.acceptance, hend, Nat.add_mod_mod]

theorem headDecayed_eq (h : Reached p now s lo hi) :
    headDecayed now s =
      decide ((p.acceptanceWindow.toNat + p.grid.stop lo) % 2 ^ 64 ≤ now.toNat) := by
  obtain ⟨w, hhead, -, -, -, hdecay⟩ := h.head
  rw [headDecayed, hhead, Option.any_some, hdecay]

/-- **A round removes the head** and appends a window when only one is left. -/
theorem round (h : Reached p now s lo hi)
    (hdecayed : p.acceptanceWindow.toNat + p.grid.stop lo < now.toNat)
    (hfits : p.grid.stop (p.grid.stop lo) < 2 ^ 64) :
    ∃ s' hi', extractionRound now s = some s' ∧ Reached p now s' (p.grid.stop lo) hi' ∧
      (hi' = hi ∨ hi' = p.grid.stop (p.grid.stop (p.grid.stop lo))) := by
  obtain ⟨w, hhead, hw, hstart, hend, hdecay⟩ := h.head
  have hnow := now.toNat_lt
  rw [Nat.mod_eq_of_lt (by omega)] at hend hdecay
  have htwo := h.two
  have hgrid := h.grid
  rw [← hgrid] at htwo
  have herase := h.spans.eraseHead htwo
  have hcons := h.spans.windows_eq_cons hw
  rw [hgrid] at herase
  obtain ⟨added, hempty, horder⟩ := h.order
  have hround : extractionRound now s = some (extractHead s w) := by
    rw [extractionRound, hhead, Option.map_some, if_pos (by omega)]
  have hext : (extractHead s w).extracted = s.extracted ++ [w] := rfl
  have hascending : (s.extracted ++ [w]).Pairwise fun a b => a.startTime < b.startTime := by
    refine List.pairwise_append.mpr ⟨h.ascending, List.pairwise_singleton _ _, ?_⟩
    intro a ha b hb
    rw [List.mem_singleton.mp hb, hstart]
    exact h.below a ha
  have hbelow : ∀ u ∈ s.extracted ++ [w], u.startTime < p.grid.stop lo := by
    intro u hu
    rcases List.mem_append.mp hu with hu | hu
    · exact (h.below u hu).trans (p.grid.lt_stop lo)
    · rw [List.mem_singleton.mp hu, hstart]
      exact p.grid.lt_stop lo
  have hpassed : ∀ u ∈ s.extracted ++ [w],
      p.acceptanceWindow.toNat + u.endTime ≤ now.toNat := by
    intro u hu
    rcases List.mem_append.mp hu with hu | hu
    · exact h.passed u hu
    · rw [List.mem_singleton.mp hu, hend]
      omega
  have hkeys : ∀ k ∈ s.timeline.eraseHead.storyTimelineMap, k < 2 ^ 64 := fun k hk =>
    h.keysFit k (Std.ExtTreeMap.mem_of_mem_erase hk)
  have hrest : s.extracted ++ [w] ++ s.timeline.eraseHead.windows = p.windows ++ added := by
    rw [← horder, hcons, List.append_assoc, List.singleton_append]
  have hsize := herase.size_lt_two_iff
  rw [show s.timeline.eraseHead.grid = p.grid from hgrid] at hsize
  by_cases hone : p.grid.stop (p.grid.stop lo) = hi
  · -- the last window: another one is appended behind it
    have hhi : hi < 2 ^ 64 := hone ▸ hfits
    obtain ⟨happend, hspans⟩ := herase.appendStoryChunk hhi
    have htimeline : (extractHead s w).timeline = s.timeline.eraseHead.appendStoryChunk.1 :=
      if_pos (hsize.mpr hone)
    rw [happend] at htimeline
    refine ⟨_, p.grid.stop hi, hround, ⟨?_, ?_, ?_, ?_, ?_, ?_, hascending, hbelow, hpassed⟩,
      Or.inr (by rw [hone])⟩
    · rw [htimeline]
      rw [show s.timeline.eraseHead.grid = p.grid from hgrid] at hspans
      exact hspans
    · rw [hone]
      exact p.grid.lt_stop hi
    · rw [htimeline]
      exact h.granularity
    · rw [htimeline]
      exact h.acceptance
    · rw [htimeline]
      intro k hk
      rcases Std.ExtTreeMap.mem_insertIfNew.mp hk with heq | hk
      · rw [← Std.LawfulEqOrd.eq_of_compare heq]
        exact hhi
      · exact hkeys k hk
    · let fresh := s.timeline.eraseHead.newChunk hi
        ((hi + s.timeline.eraseHead.chunkGranularity) % 2 ^ 64)
      refine ⟨added ++ [fresh], ?_, ?_⟩
      · intro u hu
        rcases List.mem_append.mp hu with hu | hu
        · exact hempty u hu
        · rw [List.mem_singleton.mp hu]
          exact events_newChunk _ _ _
      · rw [htimeline, herase.windows_insertWindow, hext, ← List.append_assoc, hrest,
          List.append_assoc]
  · have htimeline : (extractHead s w).timeline = s.timeline.eraseHead :=
      if_neg fun hlt => hone (hsize.mp hlt)
    have hhi := h.spans.hi_start
    rw [hgrid] at hhi
    have hle : p.grid.stop (p.grid.stop lo) ≤ hi := Tiling.stop_le_of_lt hhi h.two
    refine ⟨_, hi, hround, ⟨?_, by omega, ?_, ?_, ?_, ⟨added, hempty, ?_⟩, hascending, hbelow,
      hpassed⟩, Or.inl rfl⟩
    · rw [htimeline]
      exact herase
    · rw [htimeline]
      exact h.granularity
    · rw [htimeline]
      exact h.acceptance
    · rw [htimeline]
      exact hkeys
    · rw [htimeline, hext]
      exact hrest

/-- When the head has not decayed, the removed windows are the decayed ones. -/
theorem decays (h : Reached p now s lo hi) (hfits : hi < 2 ^ 64)
    (hhead : now.toNat < p.acceptanceWindow.toNat + p.grid.stop lo) : p.Decays now s := by
  refine ⟨h.order, h.ascending, h.passed, ?_, ?_⟩
  · intro w hw
    obtain ⟨⟨k, u⟩, hmem, rfl⟩ := List.mem_map.mp hw
    have hu := Std.ExtTreeMap.mem_toList_iff_getElem?_eq_some.mp hmem
    obtain ⟨hk, hlo, -⟩ := (h.spans.keys k).mp (mem_of_window hu)
    have hend := h.spans.endTime hfits hu
    rw [h.grid] at hend hk
    have hle : p.grid.stop lo ≤ p.grid.stop k := by
      rcases hlo.eq_or_lt with rfl | hlt
      · exact le_rfl
      · exact (Tiling.stop_le_of_lt hk hlt).trans (p.grid.lt_stop k).le
    change now.toNat < p.acceptanceWindow.toNat + u.endTime
    omega
  · have hsize := h.spans.size_lt_two_iff
    rw [h.grid] at hsize
    have htwo := h.two
    omega

end Reached

/-- The loop starts with the whole timeline. -/
theorem Spans.reached (h : p.Spans lo hi) (hfits : hi ≤ 2 ^ 64) (htwo : p.grid.stop lo < hi)
    (now : UInt64) : Reached p now { timeline := p } lo hi where
  spans := h
  two := htwo
  granularity := rfl
  acceptance := rfl
  keysFit k hk := ((h.keys k).mp hk).2.2.trans_le hfits
  order := ⟨[], by simp, by simp⟩
  ascending := List.Pairwise.nil
  below w hw := by cases hw
  passed w hw := by cases hw

section Loop

variable {x : ℕ}

/-- The windows before the cell of `x` are removed one after another. -/
theorem Reached.step (h : Reached p now s lo hi) (hlo : lo < p.grid.start x)
    (hstart : p.acceptanceWindow.toNat + p.grid.start x < now.toNat)
    (hfits : p.grid.stop x < 2 ^ 64) :
    ∃ s' hi', extractionRound now s = some s' ∧ Reached p now s' (p.grid.stop lo) hi' ∧
      p.grid.stop lo ≤ p.grid.start x ∧
      (hi < 2 ^ 64 → p.grid.stop (p.grid.stop x) < 2 ^ 64 → hi' < 2 ^ 64) := by
  have hle : p.grid.stop lo ≤ p.grid.start x := Tiling.stop_le_of_lt (p.grid.isStart_start x) hlo
  have hnext : p.grid.stop (p.grid.stop lo) ≤ p.grid.stop x := by
    rcases hle.lt_or_eq with hlt | heq
    · exact (Tiling.stop_le_of_lt (p.grid.isStart_start x) hlt).trans
        ((p.grid.start_le x).trans (p.grid.lt_stop x).le)
    · rw [heq, Tiling.stop_start]
  obtain ⟨s', hi', hround, h', hhi'⟩ := h.round (by omega) (by omega)
  refine ⟨s', hi', hround, h', hle, fun hhi hlast => ?_⟩
  rcases hhi' with rfl | rfl
  · exact hhi
  · rcases hnext.lt_or_eq with hlt | heq
    · have := Tiling.stop_le_of_lt (p.grid.isStart_stop x) hlt
      omega
    · rw [heq]
      exact hlast

/-- The head of a timeline whose windows before the cell of `x` are removed. -/
theorem Reached.headDecayed_of_lt (h : Reached p now s lo hi) (hlo : lo < p.grid.start x)
    (hstart : p.acceptanceWindow.toNat + p.grid.start x ≤ now.toNat) :
    headDecayed now s = true := by
  have hle : p.grid.stop lo ≤ p.grid.start x := Tiling.stop_le_of_lt (p.grid.isStart_start x) hlo
  have hnow := now.toNat_lt
  rw [h.headDecayed_eq, decide_eq_true_eq, Nat.mod_eq_of_lt (by omega)]
  omega

end Loop

/-- The head window of a timeline that keeps the invariant. -/
theorem Invariant.head (h : p.Invariant) :
    ∃ lo hi, p.Spans lo hi ∧ hi < 2 ^ 64 ∧ p.grid.stop lo < hi ∧
      p.headDecay = p.acceptanceWindow.toNat + p.grid.stop lo ∧ 5000 ≤ p.grid.stop lo := by
  obtain ⟨lo, hi, hspans, htop, htwo⟩ := h.spans
  have hlt := hspans.lt
  have htop' := p.granularity.top_lt
  have hstop := ChunkGranularity.stop_of_lt_top hspans.lo_start (by omega)
  have hlong := Nat.le_of_dvd p.granularity.ns_pos p.granularity.dvd_ns
  refine ⟨lo, hi, hspans, by omega, htwo, ?_, ?_⟩
  · unfold headDecay chunkGranularity
    rw [hspans.timelineStart]
    exact congrArg (p.acceptanceWindow.toNat + ·) hstop.symm
  · unfold grid
    omega

/-- **At a safe time the loop ends and removes precisely the decayed windows.** -/
theorem Invariant.decays_of_safe (h : p.Invariant) (hsafe : p.DecaySafe now) :
    ∃ rounds s, extractDecayed rounds p now = some s ∧ p.Decays now s := by
  obtain ⟨lo, hi, hspans, hhi, htwo, hdecay, -⟩ := h.head
  have hreached := hspans.reached hhi.le htwo now
  have hnow := now.toNat_lt
  have hacceptance := p.acceptanceWindow.toNat_lt
  rcases hsafe with ⟨hlt, hwrap⟩ | ⟨hle, hstart, hfits, hnext⟩
  · -- the head has not decayed: the loop ends at once
    have hcond : headDecayed now { timeline := p } = false := by
      rw [hreached.headDecayed_eq, decide_eq_false_iff_not, ← hdecay, not_le]
      rcases hwrap with hwrap | hwrap
      · rw [Nat.mod_eq_of_lt hwrap]
        exact hlt
      · omega
    exact ⟨0, _, Loop.run_of_not hcond, hreached.decays hhi (by omega)⟩
  · -- the windows before the cell of `now - acceptanceWindow` go
    generalize hx : now.toNat - p.acceptanceWindow.toNat = x at hstart hfits hnext
    have hlt : p.grid.start x < x := lt_of_le_of_ne (p.grid.start_le x) hstart
    have hstop := p.grid.lt_stop x
    let I : Extraction → Prop := fun s =>
      ∃ lo hi, Reached p now s lo hi ∧ hi < 2 ^ 64 ∧ lo ≤ p.grid.start x
    have hI : I { timeline := p } := by
      refine ⟨lo, hi, hreached, hhi, Tiling.le_start_of_le hspans.lo_start ?_⟩
      have := p.grid.lt_stop lo
      omega
    have hround : ∀ s, I s → headDecayed now s = true → ∃ s', extractionRound now s = some s' ∧
        I s' ∧ p.grid.start x - s'.timeline.timelineStart <
          p.grid.start x - s.timeline.timelineStart := by
      rintro s ⟨lo, hi, hr, hhi, hlo⟩ hcond
      have hlt' : lo < p.grid.start x := by
        refine lt_of_le_of_ne hlo fun heq => ?_
        rw [hr.headDecayed_eq, decide_eq_true_eq, heq, Tiling.stop_start,
          Nat.mod_eq_of_lt (by omega)] at hcond
        omega
      obtain ⟨s', hi', hround, hr', hle', hfits'⟩ := hr.step hlt' (by omega) (by omega)
      refine ⟨s', hround, ⟨_, hi', hr', hfits' hhi hnext, hle'⟩, ?_⟩
      rw [hr.spans.timelineStart, hr'.spans.timelineStart]
      have := p.grid.lt_stop lo
      omega
    obtain ⟨s, hrun, ⟨lo', hi', hr, hhi', hlo'⟩, hend⟩ := Loop.run_of_variant _ hround hI
    have heq : lo' = p.grid.start x := by
      rcases hlo'.lt_or_eq with hlt' | heq
      · rw [hr.headDecayed_of_lt hlt' (by omega)] at hend
        cases hend
      · exact heq
    refine ⟨_, s, hrun, hr.decays hhi' ?_⟩
    rw [heq, Tiling.stop_start]
    omega

section Unsafe

variable {s' : Extraction} {x : ℕ}

/-- A round either removes the head or leaves the state as it is. -/
theorem extractionRound_cases (h : extractionRound now s = some s') :
    ∃ w, s.timeline.headWindow = some w ∧
      ((s.timeline.decayTime w < now.toNat ∧ s' = extractHead s w) ∨
        (now.toNat ≤ s.timeline.decayTime w ∧ s' = s)) := by
  obtain ⟨w, hw, hs'⟩ := Option.map_eq_some_iff.mp h
  refine ⟨w, hw, ?_⟩
  split at hs'
  · next hlt => exact Or.inl ⟨hlt, hs'.symm⟩
  · next hlt => exact Or.inr ⟨not_lt.mp hlt, hs'.symm⟩

/-- What was removed stays removed. -/
theorem mem_extracted_round (h : extractionRound now s = some s') (hw : w ∈ s.extracted) :
    w ∈ s'.extracted := by
  obtain ⟨u, -, ⟨-, rfl⟩ | ⟨-, rfl⟩⟩ := extractionRound_cases h
  · exact List.mem_append_left _ hw
  · exact hw

/-- A head whose decay time wraps below the current time is removed too early. -/
theorem Reached.round_wrapped (h : Reached p now s lo hi)
    (hstop : p.grid.stop lo < 2 ^ 64)
    (hwrap : 2 ^ 64 ≤ p.acceptanceWindow.toNat + p.grid.stop lo)
    (hround : extractionRound now s = some s') :
    s' = s ∨ ∃ w ∈ s'.extracted, now.toNat < p.acceptanceWindow.toNat + w.endTime := by
  have hnow := now.toNat_lt
  obtain ⟨w, hhead, -, -, hend, -⟩ := h.head
  rw [Nat.mod_eq_of_lt hstop] at hend
  obtain ⟨u, hu, ⟨-, rfl⟩ | ⟨-, rfl⟩⟩ := extractionRound_cases hround
  · rw [hhead, Option.some.injEq] at hu
    subst hu
    exact Or.inr ⟨w, List.mem_append_right _ (List.mem_singleton_self w), by omega⟩
  · exact Or.inl rfl

/-- Every end of the loop is one in which a window was removed too early, if the loop keeps
on as long as none was. -/
theorem not_decays_of_removed {I : Extraction → Prop} {rounds : ℕ}
    (hcond : ∀ s, I s → headDecayed now s = true)
    (hround : ∀ s s', I s → extractionRound now s = some s' →
      I s' ∨ ∃ w ∈ s'.extracted, now.toNat < p.acceptanceWindow.toNat + w.endTime)
    (hI : I { timeline := p }) (hrun : extractDecayed rounds p now = some s) :
    ¬p.Decays now s := by
  intro hdecays
  have hend := Loop.run_of_invariant
    (I := fun s => I s ∨ ∃ w ∈ s.extracted, now.toNat < p.acceptanceWindow.toNat + w.endTime)
    (by
      rintro s s' (hs | ⟨w, hw, hlt⟩) - hround'
      · exact hround s s' hs hround'
      · exact Or.inr ⟨w, mem_extracted_round hround' hw, hlt⟩) (Or.inl hI) hrun
  obtain ⟨hs | ⟨w, hw, hlt⟩, hfalse⟩ := hend
  · rw [hcond s hs] at hfalse
    cases hfalse
  · exact absurd (hdecays.passed w hw) (not_le.mpr hlt)

/-- Before the head has decayed. -/
theorem Invariant.not_decays_of_wrapped (h : p.Invariant) {rounds : ℕ}
    (hlt : now.toNat < p.headDecay) (hwrap : 2 ^ 64 ≤ p.headDecay)
    (hpast : p.headDecay - 2 ^ 64 ≤ now.toNat)
    (hrun : extractDecayed rounds p now = some s) : ¬p.Decays now s := by
  obtain ⟨lo, hi, hspans, hhi, htwo, hdecay, -⟩ := h.head
  have hacceptance := p.acceptanceWindow.toNat_lt
  refine not_decays_of_removed (I := fun s => s = { timeline := p }) ?_ ?_ rfl hrun
  · rintro s rfl
    rw [(hspans.reached hhi.le htwo now).headDecayed_eq, decide_eq_true_eq, ← hdecay]
    omega
  · rintro s s' rfl hround
    exact (hspans.reached hhi.le htwo now).round_wrapped (by omega) (by omega) hround

/-- **At a time that is the decay time of a window the loop never ends.** -/
theorem Invariant.extractDecayed_eq_none (h : p.Invariant) (hle : p.headDecay ≤ now.toNat)
    (hstart : p.grid.IsStart (now.toNat - p.acceptanceWindow.toNat)) (rounds : ℕ) :
    extractDecayed rounds p now = none := by
  obtain ⟨lo, hi, hspans, hhi, htwo, hdecay, -⟩ := h.head
  have hnow := now.toNat_lt
  generalize hx : now.toNat - p.acceptanceWindow.toNat = x at hstart
  refine Loop.run_eq_none_of_forever
    (I := fun s => ∃ lo hi, Reached p now s lo hi ∧ p.grid.stop lo ≤ x) ?_ ?_
    ⟨lo, hi, hspans.reached hhi.le htwo now, by omega⟩ rounds
  · rintro s ⟨lo, hi, hr, hle'⟩
    rw [hr.headDecayed_eq, decide_eq_true_eq, Nat.mod_eq_of_lt (by omega)]
    omega
  · rintro s s' ⟨lo, hi, hr, hle'⟩ hround
    rcases hle'.lt_or_eq with hlt | heq
    · have hnext := Tiling.stop_le_of_lt hstart hlt
      obtain ⟨s₁, hi₁, hround₁, hr₁, -⟩ := hr.round (by omega) (by omega)
      rw [hround₁, Option.some.injEq] at hround
      exact ⟨_, hi₁, hround ▸ hr₁, hnext⟩
    · -- the head's decay time is the current time: the test under the lock fails
      obtain ⟨w, hhead, -, -, -, hdecay'⟩ := hr.head
      rw [Nat.mod_eq_of_lt (by omega)] at hdecay'
      obtain ⟨u, hu, ⟨hlt, -⟩ | ⟨-, rfl⟩⟩ := extractionRound_cases hround
      · rw [hhead, Option.some.injEq] at hu
        subst hu
        omega
      · exact ⟨lo, hi, hr, heq.le⟩

/-- From the decay of the head on, when the decay time of the first window that has not
decayed wraps. -/
theorem Invariant.not_decays_of_decay_wrapped (h : p.Invariant) {rounds : ℕ}
    (hle : p.headDecay ≤ now.toNat) (hx : now.toNat - p.acceptanceWindow.toNat = x)
    (hstart : ¬p.grid.IsStart x) (hfits : p.grid.stop x < 2 ^ 64)
    (hwrap : 2 ^ 64 ≤ p.acceptanceWindow.toNat + p.grid.stop x)
    (hrun : extractDecayed rounds p now = some s) : ¬p.Decays now s := by
  obtain ⟨lo, hi, hspans, hhi, htwo, hdecay, -⟩ := h.head
  have hnow := now.toNat_lt
  have hlt : p.grid.start x < x := lt_of_le_of_ne (p.grid.start_le x) hstart
  have hlong : p.grid.stop x ≤ x + 2 ^ 62 := by
    have hcell := p.grid.isStart_start x
    have hns := p.granularity.ns_lt
    rw [← Tiling.stop_start]
    rcases Nat.lt_or_ge (p.grid.start x) p.granularity.top with htop | htop
    · have := ChunkGranularity.stop_of_lt_top hcell htop
      unfold grid at this hlt ⊢
      omega
    · have := ChunkGranularity.stop_of_top_le hcell htop
      unfold grid at this hlt ⊢
      omega
  refine not_decays_of_removed
    (I := fun s => ∃ lo hi, Reached p now s lo hi ∧ lo ≤ p.grid.start x) ?_ ?_
    ⟨lo, hi, hspans.reached hhi.le htwo now, ?_⟩ hrun
  · rintro s ⟨lo, hi, hr, hlo⟩
    rcases hlo.lt_or_eq with hlt' | rfl
    · exact hr.headDecayed_of_lt hlt' (by omega)
    · rw [hr.headDecayed_eq, decide_eq_true_eq, Tiling.stop_start]
      omega
  · rintro s s' ⟨lo, hi, hr, hlo⟩ hround
    rcases hlo.lt_or_eq with hlt' | rfl
    · obtain ⟨s₁, hi₁, hround₁, hr₁, hle₁, -⟩ := hr.step hlt' (by omega) hfits
      rw [hround₁, Option.some.injEq] at hround
      exact Or.inl ⟨_, hi₁, hround ▸ hr₁, hle₁⟩
    · rw [← Tiling.stop_start] at hfits hwrap
      rcases hr.round_wrapped hfits hwrap hround with rfl | hremoved
      · exact Or.inl ⟨_, hi, hr, le_rfl⟩
      · exact Or.inr hremoved
  · refine Tiling.le_start_of_le hspans.lo_start ?_
    have := p.grid.lt_stop lo
    omega

/-- From the decay of the head on, when the window kept behind the first one that has not
decayed does not fit. -/
theorem Invariant.not_decays_of_next_wrapped (h : p.Invariant) {rounds : ℕ}
    (hle : p.headDecay ≤ now.toNat) (hx : now.toNat - p.acceptanceWindow.toNat = x)
    (hstart : ¬p.grid.IsStart x)
    (hfits : p.acceptanceWindow.toNat + p.grid.stop x < 2 ^ 64)
    (hwrap : 2 ^ 64 ≤ p.grid.stop (p.grid.stop x))
    (hrun : extractDecayed rounds p now = some s) : ¬p.Decays now s := by
  intro hdecays
  obtain ⟨lo, hi, hspans, hhi, htwo, hdecay, hlong⟩ := h.head
  have hlt : p.grid.start x < x := lt_of_le_of_ne (p.grid.start_le x) hstart
  have hxstop := p.grid.lt_stop x
  have hlox : lo ≤ p.grid.start x := by
    refine Tiling.le_start_of_le hspans.lo_start ?_
    have := p.grid.lt_stop lo
    omega
  -- the loop ends when the head is the cell of `x`
  obtain ⟨⟨lo', hi', hr, hlo'⟩, hfalse⟩ := Loop.run_of_invariant
    (I := fun s => ∃ lo hi, Reached p now s lo hi ∧ lo ≤ p.grid.start x)
    (by
      rintro s s' ⟨lo, hi, hr, hlo⟩ hcond hround
      rcases hlo.lt_or_eq with hlt' | rfl
      · obtain ⟨s₁, hi₁, hround₁, hr₁, hle₁, -⟩ := hr.step hlt' (by omega) (by omega)
        rw [hround₁, Option.some.injEq] at hround
        exact ⟨_, hi₁, hround ▸ hr₁, hle₁⟩
      · rw [hr.headDecayed_eq, decide_eq_true_eq, Tiling.stop_start,
          Nat.mod_eq_of_lt hfits] at hcond
        omega) ⟨lo, hi, hspans.reached hhi.le htwo now, hlox⟩ hrun
  have heq : lo' = p.grid.start x := by
    rcases hlo'.lt_or_eq with hlt' | heq
    · rw [hr.headDecayed_of_lt hlt' (by omega)] at hfalse
      cases hfalse
    · exact heq
  subst heq
  -- and the window behind it ends past `2^64`
  have hgrid := hr.grid
  have htwo' := hr.two
  rw [Tiling.stop_start] at htwo'
  have hcell := p.grid.isStart_stop x
  have hmem : p.grid.stop x ∈ s.timeline.storyTimelineMap := by
    refine (hr.spans.keys _).mpr ?_
    rw [hgrid]
    exact ⟨hcell, by omega, htwo'⟩
  obtain ⟨w, hw⟩ := exists_window hmem
  obtain ⟨-, hend, -⟩ := hr.spans.window _ w hw
  have hkept := hdecays.kept w
    (List.mem_map.mpr ⟨_, Std.ExtTreeMap.mem_toList_iff_getElem?_eq_some.mpr hw, rfl⟩)
  have htop : p.granularity.top ≤ p.grid.stop x := by
    by_contra htop
    have hle' : p.grid.stop (p.grid.stop x) ≤ p.granularity.top := Tiling.stop_le_of_lt
      (ChunkGranularity.isStart_of_dvd p.granularity.ns_dvd_top le_rfl) (not_le.mp htop)
    have := p.granularity.top_lt
    omega
  have hstop : p.grid.stop (p.grid.stop x) = p.grid.stop x + 5000 :=
    ChunkGranularity.stop_of_top_le hcell htop
  rw [hgrid, hstop] at hend
  omega

/-- The timeline after its last window was appended with an end past `2^64`: what is appended
next comes first in the map, and extraction removes and appends it for ever. -/
structure Wrapped (p : StoryTimeline) (s : Extraction) (last stop : ℕ) : Prop where
  granularity : s.timeline.granularity = p.granularity
  acceptance : s.timeline.acceptanceWindow = p.acceptanceWindow
  keys : ∀ k, k ∈ s.timeline.storyTimelineMap ↔ k = stop ∨ k = last
  first_end : ∀ w : TimelineChunk, s.timeline.storyTimelineMap[stop]? = some w →
    w.endTime = stop + p.chunkGranularity
  last_end : ∀ w : TimelineChunk, s.timeline.storyTimelineMap[last]? = some w →
    w.endTime = stop

/-- The head is removed and only the window with the wrapped end is left. -/
theorem wrapped_extractHead {last stop : ℕ} (hlt : stop < last)
    (hfits : stop + p.chunkGranularity < 2 ^ 64)
    (hgranularity : s.timeline.granularity = p.granularity)
    (hacceptance : s.timeline.acceptanceWindow = p.acceptanceWindow)
    (hkeys : ∀ k, k ∈ s.timeline.eraseHead.storyTimelineMap ↔ k = last)
    (hlast : ∀ w : TimelineChunk, s.timeline.eraseHead.storyTimelineMap[last]? = some w →
      w.endTime = stop) : Wrapped p (extractHead s w) last stop := by
  have hchunk : s.timeline.eraseHead.chunkGranularity = p.chunkGranularity :=
    congrArg ChunkGranularity.ns hgranularity
  have hone : s.timeline.eraseHead.storyTimelineMap.size < 2 := by
    by_contra htwo
    obtain ⟨k, hk, k', hk', hlt'⟩ := two_le_size_iff.mp (not_lt.mp htwo)
    rw [(hkeys k).mp hk, (hkeys k').mp hk'] at hlt'
    exact absurd hlt' (lt_irrefl last)
  have hmem := (hkeys last).mpr rfl
  have hend : s.timeline.eraseHead.timelineEnd = stop := by
    obtain ⟨w, hw⟩ := exists_window hmem
    have hmax : lastKey s.timeline.eraseHead.storyTimelineMap = some last :=
      lastKey_eq_some_iff.mpr ⟨hmem, fun k hk => ((hkeys k).mp hk).le⟩
    rw [timelineEnd, hmax, deref, Option.bind_some, hw, Option.map_some, Option.getD_some,
      hlast w hw]
  have hnot : stop ∉ s.timeline.eraseHead.storyTimelineMap := fun h => by
    have := (hkeys stop).mp h
    omega
  have htimeline : (extractHead s w).timeline = s.timeline.eraseHead.insertWindow stop
      (s.timeline.eraseHead.newChunk stop (stop + p.chunkGranularity)) := by
    change (if _ then s.timeline.eraseHead.appendStoryChunk.1 else _) = _
    rw [if_pos hone, appendStoryChunk, hend, addWindow, if_neg hnot, hchunk,
      Nat.mod_eq_of_lt hfits]
  refine ⟨?_, ?_, ?_, ?_, ?_⟩
  · rw [htimeline]
    exact hgranularity
  · rw [htimeline]
    exact hacceptance
  · rw [htimeline]
    intro k
    refine Std.ExtTreeMap.mem_insertIfNew.trans ?_
    rw [hkeys, Std.LawfulEqOrd.compare_eq_iff_eq, eq_comm]
  · rw [htimeline]
    intro u hu
    have hpos := p.granularity.ns_pos
    change (s.timeline.eraseHead.storyTimelineMap.insertIfNew stop _)[stop]? = some u at hu
    rw [Std.ExtTreeMap.getElem?_insertIfNew, if_pos ⟨Std.ReflCmp.compare_self, hnot⟩] at hu
    cases hu
    change (if stop + p.chunkGranularity ≤ stop then _ else stop + p.chunkGranularity) = _
    unfold chunkGranularity
    rw [if_neg (by omega)]
  · rw [htimeline]
    intro u hu
    change (s.timeline.eraseHead.storyTimelineMap.insertIfNew stop _)[last]? = some u at hu
    rw [Std.ExtTreeMap.getElem?_insertIfNew, if_neg] at hu
    · exact hlast u hu
    · rintro ⟨heq, -⟩
      have := Std.LawfulEqOrd.eq_of_compare heq
      omega

/-- The head of a wrapped timeline. -/
theorem Wrapped.head {last stop : ℕ} (h : Wrapped p s last stop) (hlt : stop < last) :
    ∃ w, s.timeline.headWindow = some w ∧ s.timeline.timelineStart = stop ∧
      s.timeline.decayTime w =
        (p.acceptanceWindow.toNat + (stop + p.chunkGranularity)) % 2 ^ 64 := by
  have hmem := (h.keys stop).mpr (Or.inl rfl)
  have hmin : firstKey s.timeline.storyTimelineMap = some stop := by
    refine firstKey_eq_some_iff.mpr ⟨hmem, fun k hk => ?_⟩
    rcases (h.keys k).mp hk with rfl | rfl <;> omega
  obtain ⟨w, hw⟩ := exists_window hmem
  refine ⟨w, ?_, ?_, ?_⟩
  · rw [headWindow, hmin, deref, Option.bind_some, hw]
  · rw [timelineStart, hmin, Option.getD_some]
  · rw [decayTime, h.acceptance, h.first_end w hw]

/-- **Past the last window that fits the loop never ends.** -/
theorem Invariant.extractDecayed_eq_none_of_past_end (h : p.Invariant)
    (hle : p.headDecay ≤ now.toNat) (hx : now.toNat - p.acceptanceWindow.toNat = x)
    (hstart : ¬p.grid.IsStart x) (hwrap : 2 ^ 64 ≤ p.grid.stop x) (rounds : ℕ) :
    extractDecayed rounds p now = none := by
  obtain ⟨lo, hi, hspans, hhi, htwo, hdecay, -⟩ := h.head
  have hnow := now.toNat_lt
  have hns := p.granularity.ns_lt
  have hsum := p.granularity.top_add_ns
  have hcell := p.grid.isStart_start x
  have hlt : p.grid.start x < x := lt_of_le_of_ne (p.grid.start_le x) hstart
  have hstopx := Tiling.stop_start p.grid x
  generalize p.grid.start x = last at hcell hlt hstopx
  have htop : p.granularity.top ≤ last := by
    by_contra htop
    have hle' : p.grid.stop last ≤ p.granularity.top := Tiling.stop_le_of_lt
      (ChunkGranularity.isStart_of_dvd p.granularity.ns_dvd_top le_rfl) (not_le.mp htop)
    have := p.granularity.top_lt
    omega
  have hstop : p.grid.stop last = last + 5000 := ChunkGranularity.stop_of_top_le hcell htop
  have hg : p.chunkGranularity = p.granularity.ns := rfl
  generalize hv : last + 5000 - 2 ^ 64 = stop
  refine Loop.run_eq_none_of_forever
    (I := fun s => (∃ lo hi, Reached p now s lo hi ∧ lo < last) ∨ Wrapped p s last stop) ?_ ?_
    (Or.inl ⟨lo, hi, hspans.reached hhi.le htwo now, ?_⟩) rounds
  · rintro s (⟨lo, hi, hr, hlo⟩ | hw)
    · have hle' := Tiling.stop_le_of_lt hcell hlo
      rw [hr.headDecayed_eq, decide_eq_true_eq, Nat.mod_eq_of_lt (by omega)]
      omega
    · obtain ⟨w, hhead, -, hdecay'⟩ := hw.head (by omega)
      rw [headDecayed, hhead, Option.any_some, hdecay', decide_eq_true_eq,
        Nat.mod_eq_of_lt (by omega)]
      omega
  · rintro s s' (⟨lo, hi, hr, hlo⟩ | hw) hround
    · have hle' := Tiling.stop_le_of_lt hcell hlo
      rcases hle'.lt_or_eq with hlt' | heq
      · have hnext := Tiling.stop_le_of_lt hcell hlt'
        obtain ⟨s₁, hi₁, hround₁, hr₁, -⟩ := hr.round (by omega) (by omega)
        rw [hround₁, Option.some.injEq] at hround
        exact Or.inl ⟨_, hi₁, hround ▸ hr₁, hlt'⟩
      · -- the last window that fits goes: only the one with the wrapped end is left
        obtain ⟨w, hhead, -, -, -, hdecay'⟩ := hr.head
        rw [Nat.mod_eq_of_lt (by omega)] at hdecay'
        obtain ⟨u, hu, ⟨-, rfl⟩ | ⟨hge, -⟩⟩ := extractionRound_cases hround
        · have hgrid := hr.grid
          have htwo' := hr.two
          rw [← hgrid] at htwo'
          have herase := hr.spans.eraseHead htwo'
          rw [hgrid, heq] at herase
          have hkeys : ∀ k, k ∈ s.timeline.eraseHead.storyTimelineMap ↔ k = last := by
            intro k
            constructor
            · intro hk
              obtain ⟨hkstart, hkle, -⟩ := (herase.keys k).mp hk
              have hkfit := hr.keysFit k (Std.ExtTreeMap.mem_of_mem_erase hk)
              rw [show s.timeline.eraseHead.grid = p.grid from hgrid] at hkstart
              by_contra hne
              have := Tiling.stop_le_of_lt hkstart (lt_of_le_of_ne hkle (Ne.symm hne))
              omega
            · rintro rfl
              exact herase.lo_mem
          refine Or.inr (wrapped_extractHead (by omega) (by omega) hr.granularity hr.acceptance
            hkeys fun w hw => ?_)
          obtain ⟨-, hend, -⟩ := herase.window last w hw
          rw [show s.timeline.eraseHead.grid = p.grid from hgrid, hstop] at hend
          omega
        · rw [hhead, Option.some.injEq] at hu
          subst hu
          omega
    · obtain ⟨w, hhead, hstart', hdecay'⟩ := hw.head (by omega)
      rw [Nat.mod_eq_of_lt (by omega)] at hdecay'
      obtain ⟨u, hu, ⟨-, rfl⟩ | ⟨hge, -⟩⟩ := extractionRound_cases hround
      · have herased : s.timeline.eraseHead.storyTimelineMap =
            s.timeline.storyTimelineMap.erase stop := by
          rw [← hstart']
          rfl
        refine Or.inr (wrapped_extractHead (by omega) (by omega) hw.granularity hw.acceptance
          (fun k => ?_) fun w hlast => ?_)
        · rw [herased, Std.ExtTreeMap.mem_erase, hw.keys, ne_eq,
            Std.LawfulEqOrd.compare_eq_iff_eq]
          omega
        · rw [herased, Std.ExtTreeMap.getElem?_erase] at hlast
          split at hlast
          · cases hlast
          · exact hw.last_end w hlast
      · rw [hhead, Option.some.injEq] at hu
        subst hu
        omega
  · have hx' : p.grid.stop lo ≤ x := by omega
    have hlo := p.grid.lt_stop lo
    have hcellx := Tiling.le_start_of_le (p.grid.isStart_stop lo) hx'
    by_contra hge
    have hstopx' : p.grid.start x = last :=
      Tiling.start_eq_of_mem hcell hlt.le (by have := p.grid.lt_stop x; omega)
    omega

end Unsafe

/-- **The loop ends and removes precisely the decayed windows if and only if the time is
safe.** -/
theorem Invariant.decays_iff (h : p.Invariant) :
    (∃ rounds s, extractDecayed rounds p now = some s ∧ p.Decays now s) ↔ p.DecaySafe now := by
  refine ⟨?_, h.decays_of_safe⟩
  rintro ⟨rounds, s, hrun, hdecays⟩
  rcases Nat.lt_or_ge now.toNat p.headDecay with hlt | hle
  · refine Or.inl ⟨hlt, ?_⟩
    by_contra hnot
    rw [not_or, not_lt, not_lt] at hnot
    exact h.not_decays_of_wrapped hlt hnot.1 hnot.2 hrun hdecays
  · have hstart : ¬p.grid.IsStart (now.toNat - p.acceptanceWindow.toNat) := by
      intro hstart
      rw [h.extractDecayed_eq_none hle hstart] at hrun
      cases hrun
    have hfits : p.grid.stop (now.toNat - p.acceptanceWindow.toNat) < 2 ^ 64 := by
      by_contra hwrap
      rw [h.extractDecayed_eq_none_of_past_end hle rfl hstart (not_lt.mp hwrap)] at hrun
      cases hrun
    have hdecay : p.acceptanceWindow.toNat +
        p.grid.stop (now.toNat - p.acceptanceWindow.toNat) < 2 ^ 64 := by
      by_contra hwrap
      exact h.not_decays_of_decay_wrapped hle rfl hstart hfits (not_lt.mp hwrap) hrun hdecays
    refine Or.inr ⟨hle, hstart, hdecay, ?_⟩
    by_contra hwrap
    exact h.not_decays_of_next_wrapped hle rfl hstart hdecay (not_lt.mp hwrap) hrun hdecays

/-- **Both versions end and remove precisely the decayed windows, if and only if the time is
safe**; the keepers' version then gives the windows with events to the retention store and
deletes the others. -/
theorem extractDecayedStoryChunks_iff (p : StoryTimeline) (now : UInt64) (h : p.Invariant) :
    ((∃ rounds s, StoryPipeline.extractDecayedStoryChunks rounds p now = some s ∧
        p.Decays now s) ↔ p.DecaySafe now) ∧
      ((∃ rounds s, KeeperStoryPipeline.extractDecayedStoryChunks rounds p now = some s ∧
          p.Decays now s.toExtraction ∧
          s.ingested = s.extracted.filter (fun w => !w.empty) ∧
          s.deleted = s.extracted.filter fun w => w.empty) ↔ p.DecaySafe now) := by
  refine ⟨h.decays_iff, ?_⟩
  rw [← h.decays_iff]
  constructor
  · rintro ⟨rounds, s, hrun, hdecays, -, -⟩
    obtain ⟨s', hrun', rfl⟩ := Option.map_eq_some_iff.mp hrun
    exact ⟨rounds, s', hrun', hdecays⟩
  · rintro ⟨rounds, s, hrun, hdecays⟩
    exact ⟨rounds, _, Option.map_eq_some_iff.mpr ⟨s, hrun, rfl⟩, hdecays, rfl, rfl⟩

/-- Between two decay times the loop ends: one window has decayed. -/
theorem extractDecayedStoryChunks_between :
    secondWindows.DecaySafe 2500000000 ∧
      ∃ rounds s, StoryPipeline.extractDecayedStoryChunks rounds secondWindows 2500000000 =
        some s ∧ secondWindows.Decays 2500000000 s := by
  have hsafe : secondWindows.DecaySafe 2500000000 := by decide +kernel
  exact ⟨hsafe, (extractDecayedStoryChunks_iff secondWindows 2500000000
    invariant_secondWindows).1.mpr hsafe⟩

/-- **At the head's end plus the acceptance window neither version ends.** -/
theorem extractDecayedStoryChunks_spins :
    secondWindows.Invariant ∧ secondWindows.headDecay = 2000000000 ∧
      (∀ rounds, StoryPipeline.extractDecayedStoryChunks rounds secondWindows 2000000000 =
        none) ∧
      ∀ rounds, KeeperStoryPipeline.extractDecayedStoryChunks rounds secondWindows 2000000000 =
        none := by
  have hnone := @Invariant.extractDecayed_eq_none _ 2000000000
    invariant_secondWindows (by decide +kernel) (by decide +kernel)
  refine ⟨invariant_secondWindows, by decide +kernel, hnone, fun rounds => ?_⟩
  rw [KeeperStoryPipeline.extractDecayedStoryChunks, hnone]
  rfl

end StoryTimeline

end ChronoLog
