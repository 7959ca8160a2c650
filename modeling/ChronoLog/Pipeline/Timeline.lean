import ChronoLog.Event
import ChronoLog.Lib.Iterators
import ChronoLog.Lib.Tiling
import ChronoLog.Lib.Loop

/-!
# The timeline of a story pipeline

A pipeline keeps the events of one story that may still change in a timeline of
windows, `storyTimelineMap`, each as long as the chunk granularity.  The pipelines
of the graphers (`StoryPipeline`) and of the keepers (`KeeperStoryPipeline`) differ
in what they merge; the timeline, its growth at either end and the extraction of the
windows that have decayed are the same code.

The source computes the times of windows in 64 bits.  A window that would end past
`2^64` ends before it starts, and the constructor of `StoryChunk` then gives it 5000
ticks, so behind the last multiple of the granularity the timeline goes on in windows
of that length until these do not fit either.

## Main definitions

* `StoryTimeline` — a pipeline's timeline, with one definition per operation of the
  source under the source's name.
* `ChunkGranularity.grid` — where the windows of a granularity lie.
* `StoryTimeline.Invariant` — what a timeline keeps: aligned, contiguous windows, two at
  least.
* `StoryTimeline.Spans` — the timeline's windows are the cells of the grid from one point
  to another.

## Main results

* `StoryTimeline.invariant_iff` — a timeline that keeps the invariant spans the grid's
  regular part.
* `StoryTimeline.Spans.appendStoryChunk`, `StoryTimeline.Spans.prependStoryChunk` — the
  timeline grows by the next cell at either end.
* `StoryTimeline.Spans.getElem?_start` — the window of a time.
-/

namespace ChronoLog

open OrderedMap

/-- A granularity: a non-zero 32-bit number of seconds. -/
structure ChunkGranularity where
  seconds : ℕ
  pos : 0 < seconds
  lt : seconds < 2 ^ 32
  deriving DecidableEq

namespace ChunkGranularity

variable (g : ChunkGranularity)

/-- The granularity in nanoseconds. -/
def ns : ℕ := g.seconds * 1000000000

theorem ns_pos : 0 < g.ns := Nat.mul_pos g.pos (by decide)

theorem ns_lt : g.ns < 2 ^ 62 := by
  have := g.lt
  unfold ns
  omega

theorem dvd_ns : 5000 ∣ g.ns := Dvd.dvd.mul_left (by decide) g.seconds

/-- The last multiple of the granularity below `2^64`. -/
def top : ℕ := (2 ^ 64 - 1) / g.ns * g.ns

theorem ns_dvd_top : g.ns ∣ g.top := Nat.dvd_mul_left _ _

theorem top_lt : g.top < 2 ^ 64 := by
  have := Nat.div_mul_le_self (2 ^ 64 - 1) g.ns
  unfold top
  omega

/-- No multiple of the granularity lies between its last one and `2^64`. -/
theorem le_top_of_dvd {t : ℕ} (ht : g.ns ∣ t) (hlt : t < 2 ^ 64) : t ≤ g.top := by
  obtain ⟨q, rfl⟩ := ht
  rw [Nat.mul_comm]
  exact Nat.mul_le_mul_right _ ((Nat.le_div_iff_mul_le g.ns_pos).mpr (by
    rw [Nat.mul_comm]
    omega))

theorem top_add_ns : 2 ^ 64 ≤ g.top + g.ns := by
  by_contra h
  have hle := g.le_top_of_dvd ((Nat.dvd_add_right g.ns_dvd_top).mpr (Nat.dvd_refl _)) (not_le.mp h)
  have := g.ns_pos
  omega

theorem five_thousand_pos : 0 < 5000 := by decide

/-- Where the windows lie: from multiple to multiple of the granularity, and behind the
last multiple below `2^64` every 5000 ticks. -/
def grid : Tiling ℕ :=
  Tiling.join (Tiling.every g.ns g.ns_pos) (Tiling.every 5000 five_thousand_pos) g.top
    (Tiling.isStart_every.mpr g.ns_dvd_top)
    (Tiling.isStart_every.mpr (g.dvd_ns.trans g.ns_dvd_top))

variable {g} {t : ℕ}

theorem isStart_of_dvd (h : g.ns ∣ t) (ht : t ≤ g.top) : g.grid.IsStart t := by
  rcases ht.lt_or_eq with hlt | rfl
  · exact (Tiling.isStart_join_of_lt hlt).mpr (Tiling.isStart_every.mpr h)
  · exact (Tiling.isStart_join_of_le le_rfl).mpr
      (Tiling.isStart_every.mpr (g.dvd_ns.trans g.ns_dvd_top))

theorem dvd_of_isStart (h : g.grid.IsStart t) (ht : t ≤ g.top) : g.ns ∣ t := by
  rcases ht.lt_or_eq with hlt | rfl
  · exact Tiling.isStart_every.mp ((Tiling.isStart_join_of_lt hlt).mp h)
  · exact g.ns_dvd_top

/-- Every window starts at a multiple of 5000. -/
theorem five_thousand_dvd_of_isStart (h : g.grid.IsStart t) : 5000 ∣ t := by
  rcases Nat.lt_or_ge t g.top with hlt | hle
  · exact g.dvd_ns.trans (dvd_of_isStart h hlt.le)
  · exact Tiling.isStart_every.mp ((Tiling.isStart_join_of_le hle).mp h)

/-- A regular window is as long as the granularity. -/
theorem stop_of_lt_top (h : g.grid.IsStart t) (ht : t < g.top) : g.grid.stop t = t + g.ns :=
  (Tiling.stop_join_of_lt ht).trans (Tiling.stop_every (dvd_of_isStart h ht.le))

theorem stop_of_top_le (h : g.grid.IsStart t) (ht : g.top ≤ t) : g.grid.stop t = t + 5000 :=
  (Tiling.stop_join_of_le ht).trans (Tiling.stop_every (five_thousand_dvd_of_isStart h))

/-- **The cell that no longer fits in 64 bits** is one of the 5000 ticks long ones, and ends
within as many of them. -/
theorem stop_of_past_end (h : g.grid.IsStart t) (ht : t < 2 ^ 64)
    (hpast : 2 ^ 64 ≤ g.grid.stop t) :
    ∃ stop, g.grid.stop t = t + 5000 ∧ t + 5000 = 2 ^ 64 + stop ∧ 0 < stop ∧ stop < 5000 := by
  have htop := g.top_lt
  have hle : g.top ≤ t := by
    by_contra hlt
    have := Tiling.stop_le_of_lt (isStart_of_dvd g.ns_dvd_top le_rfl) (not_le.mp hlt)
    omega
  have hstop := stop_of_top_le h hle
  obtain ⟨q, hq⟩ := five_thousand_dvd_of_isStart h
  exact ⟨t + 5000 - 2 ^ 64, hstop, by omega, by omega, by omega⟩

/-- **The constructor's fix lays the windows on the grid.** -/
theorem endTime_new (storyId : StoryId) (h : g.grid.IsStart t) :
    (StoryChunk.new storyId t ((t + g.ns) % 2 ^ 64)).endTime = g.grid.stop t % 2 ^ 64 := by
  have hns := g.ns_lt
  have hpos := g.ns_pos
  have htop := g.top_add_ns
  have htop' := g.top_lt
  change (if (t + g.ns) % 2 ^ 64 ≤ t then (t + 5000) % 2 ^ 64 else (t + g.ns) % 2 ^ 64) = _
  rcases Nat.lt_or_ge t g.top with hlt | hle
  · have hstop := stop_of_lt_top h hlt
    have hle := Tiling.stop_le_of_lt (isStart_of_dvd g.ns_dvd_top le_rfl) hlt
    rw [hstop] at hle ⊢
    rw [Nat.mod_eq_of_lt (by omega), if_neg (by omega)]
  · rw [stop_of_top_le h hle, if_pos (by omega)]

end ChunkGranularity

/-- A window of a timeline: a chunk with the receipts it carries. -/
structure TimelineChunk extends StoryChunk where
  carriedReceipts : OrdSet ℕ := ∅

/-- What the pipelines have in common. -/
structure StoryTimeline where
  storyId : StoryId
  granularity : ChunkGranularity
  acceptanceWindow : UInt64
  storyTimelineMap : OrdMap ℕ TimelineChunk := ∅

namespace StoryTimeline

/-- `chunkGranularity`, in nanoseconds. -/
def chunkGranularity (p : StoryTimeline) : ℕ := p.granularity.ns

/-- A new window of the story. -/
def newChunk (p : StoryTimeline) (startTime endTime : ℕ) : TimelineChunk :=
  { toStoryChunk := StoryChunk.new p.storyId startTime endTime }

/-- The map's `insert`: a key that is there keeps its entry. -/
def insertWindow (p : StoryTimeline) (key : ℕ) (window : TimelineChunk) : StoryTimeline :=
  { p with storyTimelineMap := p.storyTimelineMap.insertIfNew key window }

/-- One of the windows the constructor starts with. -/
def initialWindow (p : StoryTimeline) (startTime i : ℕ) : StoryTimeline :=
  let window := p.newChunk ((startTime + p.chunkGranularity * i) % 2 ^ 64)
    ((startTime + p.chunkGranularity * (i + 1)) % 2 ^ 64)
  p.insertWindow window.startTime window

/-- The constructors: three windows from the last multiple of the granularity that is not
after the story's start time. -/
def new (storyId : StoryId) (storyStartTime : UInt64) (chunkGranularity : ChunkGranularity)
    (acceptanceWindow : UInt32) : StoryTimeline :=
  let start := storyStartTime.toNat - storyStartTime.toNat % chunkGranularity.ns
  [0, 1, 2].foldl (fun p i => p.initialWindow start i)
    { storyId, granularity := chunkGranularity
      acceptanceWindow := acceptanceWindow.toUInt64 * 1000000000 }

/-- `TimelineStart`. -/
def timelineStart (p : StoryTimeline) : ℕ := (firstKey p.storyTimelineMap).getD 0

/-- The window an iterator points to; `none` for `end()`. -/
def deref (p : StoryTimeline) (iter : Option ℕ) : Option TimelineChunk :=
  iter.bind fun k => p.storyTimelineMap[k]?

/-- `TimelineEnd`. -/
def timelineEnd (p : StoryTimeline) : ℕ :=
  ((p.deref (lastKey p.storyTimelineMap)).map fun window => window.endTime).getD 0

/-- Insert a new window and return the iterator to it, `end()` if its key is there. -/
def addWindow (p : StoryTimeline) (key : ℕ) (window : TimelineChunk) :
    StoryTimeline × Option ℕ :=
  if key ∈ p.storyTimelineMap then (p, none) else (p.insertWindow key window, some key)

/-- `prependStoryChunk`. -/
def prependStoryChunk (p : StoryTimeline) : StoryTimeline × Option ℕ :=
  let start := (p.timelineStart + 2 ^ 64 - p.chunkGranularity) % 2 ^ 64
  p.addWindow start (p.newChunk start p.timelineStart)

/-- `appendStoryChunk`. -/
def appendStoryChunk (p : StoryTimeline) : StoryTimeline × Option ℕ :=
  p.addWindow p.timelineEnd
    (p.newChunk p.timelineEnd ((p.timelineEnd + p.chunkGranularity) % 2 ^ 64))

/-- Delayed events widen the acceptance window by their delay and three microseconds. -/
def delayedBy (p : StoryTimeline) (t : ℕ) : StoryTimeline :=
  { p with acceptanceWindow := UInt64.ofNat (p.timelineStart - t) + 3000 }

theorem delayedBy_fields (p : StoryTimeline) (t : ℕ) :
    (p.delayedBy t).storyTimelineMap = p.storyTimelineMap ∧
      (p.delayedBy t).storyId = p.storyId ∧ (p.delayedBy t).granularity = p.granularity := by
  simp only [delayedBy, and_self]

/-- An event of the pipeline's story with a record. -/
def Placeable (p : StoryTimeline) (event : LogEvent) : Prop :=
  event.storyId = p.storyId ∧ event.logRecord ≠ []

instance (p : StoryTimeline) (event : LogEvent) : Decidable (Placeable p event) :=
  inferInstanceAs (Decidable (_ ∧ _))

/-- The windows in the order of their starts. -/
def windows (p : StoryTimeline) : List TimelineChunk := p.storyTimelineMap.toList.map Prod.snd

/-- **What a timeline keeps**: it is keyed by the starts of its windows, every window starts
at a multiple of the granularity, is one granularity long and holds events of its range
only, a window that is not the last is followed by the one that starts where it ends, and
there are two windows at least. -/
structure Invariant (p : StoryTimeline) : Prop where
  keyed : ∀ (k : ℕ) (w : TimelineChunk), p.storyTimelineMap[k]? = some w → w.startTime = k
  aligned : ∀ (k : ℕ) (w : TimelineChunk), p.storyTimelineMap[k]? = some w →
    p.chunkGranularity ∣ w.startTime
  long : ∀ (k : ℕ) (w : TimelineChunk), p.storyTimelineMap[k]? = some w →
    w.endTime = w.startTime + p.chunkGranularity
  fits : ∀ (k : ℕ) (w : TimelineChunk), p.storyTimelineMap[k]? = some w → w.endTime < 2 ^ 64
  contiguous : ∀ (k : ℕ) (w : TimelineChunk), p.storyTimelineMap[k]? = some w →
    (∀ k' ∈ p.storyTimelineMap, k' ≤ k) ∨ w.endTime ∈ p.storyTimelineMap
  two : 2 ≤ p.storyTimelineMap.size
  story : ∀ (k : ℕ) (w : TimelineChunk), p.storyTimelineMap[k]? = some w →
    w.storyId = p.storyId
  events : ∀ (k : ℕ) (w : TimelineChunk), p.storyTimelineMap[k]? = some w →
    ∀ e ∈ w.events, w.startTime ≤ e.time ∧ e.time < w.endTime

/-- Where the timeline's windows lie. -/
def grid (p : StoryTimeline) : Tiling ℕ := p.granularity.grid

/-- **The timeline's windows are the cells of the grid from `lo` to `hi`.**  The end of the
last one may lie past `2^64`. -/
structure Spans (p : StoryTimeline) (lo hi : ℕ) : Prop where
  lo_start : p.grid.IsStart lo
  hi_start : p.grid.IsStart hi
  lt : lo < hi
  keys : ∀ k, k ∈ p.storyTimelineMap ↔ k ∈ p.grid.starts lo hi
  window : ∀ (k : ℕ) (w : TimelineChunk), p.storyTimelineMap[k]? = some w →
    w.startTime = k ∧ w.endTime = p.grid.stop k % 2 ^ 64 ∧ w.storyId = p.storyId

variable {p : StoryTimeline} {lo hi k t : ℕ} {w : TimelineChunk}

theorem exists_window (hk : k ∈ p.storyTimelineMap) :
    ∃ w, p.storyTimelineMap[k]? = some w :=
  Option.isSome_iff_exists.mp (Std.ExtTreeMap.mem_iff_isSome_getElem?.mp hk)

theorem mem_of_window (hw : p.storyTimelineMap[k]? = some w) : k ∈ p.storyTimelineMap := by
  rw [Std.ExtTreeMap.mem_iff_isSome_getElem?, hw, Option.isSome_some]

theorem placeable_congr {q : StoryTimeline} {e : LogEvent} (h : q.storyId = p.storyId) :
    Placeable q e ↔ Placeable p e := by
  unfold Placeable
  rw [h]

namespace Spans

theorem lo_mem (h : p.Spans lo hi) : lo ∈ p.storyTimelineMap :=
  (h.keys lo).mpr ⟨h.lo_start, le_rfl, h.lt⟩

theorem firstKey_eq (h : p.Spans lo hi) : firstKey p.storyTimelineMap = some lo :=
  firstKey_eq_some_iff.mpr ⟨h.lo_mem, fun k hk => ((h.keys k).mp hk).2.1⟩

theorem timelineStart (h : p.Spans lo hi) : p.timelineStart = lo := by
  rw [StoryTimeline.timelineStart, h.firstKey_eq, Option.getD_some]

/-- The last window ends where the span does. -/
theorem stop_last (h : p.Spans lo hi) : p.grid.stop (p.grid.start (hi - 1)) = hi := by
  have hlt := h.lt
  have hle : p.grid.stop (hi - 1) ≤ hi := Tiling.stop_le_of_lt h.hi_start (by omega)
  have hgt := p.grid.lt_stop (hi - 1)
  rw [Tiling.stop_start]
  omega

theorem lastKey_eq (h : p.Spans lo hi) :
    lastKey p.storyTimelineMap = some (p.grid.start (hi - 1)) := by
  have hlt := h.lt
  refine lastKey_eq_some_iff.mpr ⟨(h.keys _).mpr ?_, fun k hk => ?_⟩
  · exact Tiling.start_mem_starts h.lo_start (by omega) (by omega)
  · obtain ⟨hstart, -, hkhi⟩ := (h.keys k).mp hk
    exact Tiling.le_start_of_le hstart (by omega)

theorem timelineEnd_eq_mod (h : p.Spans lo hi) : p.timelineEnd = hi % 2 ^ 64 := by
  have hlast := lastKey_eq_some_iff.mp h.lastKey_eq
  obtain ⟨w, hw⟩ := exists_window hlast.1
  rw [StoryTimeline.timelineEnd, h.lastKey_eq, deref, Option.bind_some, hw, Option.map_some,
    Option.getD_some, (h.window _ w hw).2.1, h.stop_last]

theorem timelineEnd (h : p.Spans lo hi) (hfits : hi < 2 ^ 64) : p.timelineEnd = hi := by
  rw [h.timelineEnd_eq_mod, Nat.mod_eq_of_lt hfits]

/-- A window that fits in 64 bits ends with its cell. -/
theorem endTime (h : p.Spans lo hi) (hfits : hi < 2 ^ 64)
    (hw : p.storyTimelineMap[k]? = some w) : w.endTime = p.grid.stop k := by
  have hle : p.grid.stop k ≤ hi :=
    Tiling.stop_le_of_lt h.hi_start ((h.keys k).mp (mem_of_window hw)).2.2
  rw [(h.window k w hw).2.1, Nat.mod_eq_of_lt (by omega)]

/-- **The window of a time within the timeline.** -/
theorem getElem?_start (h : p.Spans lo hi) (hfits : hi < 2 ^ 64) (hlo : lo ≤ t) (hhi : t < hi) :
    ∃ w, p.storyTimelineMap[p.grid.start t]? = some w ∧ w.startTime ≤ t ∧ t < w.endTime := by
  obtain ⟨w, hw⟩ := exists_window ((h.keys _).mpr (Tiling.start_mem_starts h.lo_start hlo hhi))
  refine ⟨w, hw, (h.window _ w hw).1 ▸ p.grid.start_le t, ?_⟩
  rw [h.endTime hfits hw, Tiling.stop_start]
  exact p.grid.lt_stop t

/-- The windows do not overlap. -/
theorem start_eq_of_mem (h : p.Spans lo hi) (hfits : hi < 2 ^ 64)
    (hw : p.storyTimelineMap[k]? = some w) (hstart : w.startTime ≤ t) (hstop : t < w.endTime) :
    p.grid.start t = k := by
  have hk := (h.keys k).mp (mem_of_window hw)
  exact Tiling.start_eq_of_mem hk.1 ((h.window k w hw).1 ▸ hstart) (h.endTime hfits hw ▸ hstop)

theorem not_mem_hi (h : p.Spans lo hi) : hi ∉ p.storyTimelineMap := fun hmem =>
  absurd ((h.keys hi).mp hmem).2.2 (Nat.lt_irrefl hi)

/-- The window behind one is the one of the next cell. -/
theorem next_eq (h : p.Spans lo hi) (hk : k ∈ p.storyTimelineMap) :
    (p.grid.stop k ∈ p.storyTimelineMap ∧
        next p.storyTimelineMap k = some (p.grid.stop k)) ∨
      (p.grid.stop k = hi ∧ next p.storyTimelineMap k = none) := by
  obtain ⟨-, hlo, hlt⟩ := (h.keys k).mp hk
  have hgt := p.grid.lt_stop k
  have hafter : ∀ k' ∈ p.storyTimelineMap, k < k' → p.grid.stop k ≤ k' := fun k' hk' hlt' =>
    Tiling.stop_le_of_lt ((h.keys k').mp hk').1 hlt'
  rcases (Tiling.stop_le_of_lt h.hi_start hlt).lt_or_eq with hstop | hstop
  · have hmem : p.grid.stop k ∈ p.storyTimelineMap :=
      (h.keys _).mpr ⟨p.grid.isStart_stop k, by omega, hstop⟩
    exact Or.inl ⟨hmem, upperBound_eq_some_iff.mpr ⟨hmem, hgt, hafter⟩⟩
  · refine Or.inr ⟨hstop, upperBound_eq_none_iff.mpr fun k' hk' => ?_⟩
    by_contra hlt'
    have := hafter k' hk' (not_le.mp hlt')
    have := ((h.keys k').mp hk').2.2
    omega

/-- **The search from a time on**: the window of the time is the one before the first that
starts later, unless one starts right then. -/
theorem lowerBound_cases (h : p.Spans lo hi) (hlo : lo ≤ t) (hhi : t < hi) :
    (lowerBound p.storyTimelineMap t = none ∧
        prev p.storyTimelineMap none = some (p.grid.start t)) ∨
      (lowerBound p.storyTimelineMap t = some t ∧ p.grid.start t = t) ∨
      ∃ k ∈ p.storyTimelineMap, lowerBound p.storyTimelineMap t = some k ∧ t < k ∧
        prev p.storyTimelineMap (some k) = some (p.grid.start t) := by
  have hmem := (h.keys _).mpr (Tiling.start_mem_starts h.lo_start hlo hhi)
  have hle := p.grid.start_le t
  have hbelow : ∀ k ∈ p.storyTimelineMap, k ≤ t → k ≤ p.grid.start t := fun k hk hkt =>
    Tiling.le_start_of_le ((h.keys k).mp hk).1 hkt
  cases hfound : lowerBound p.storyTimelineMap t with
  | none =>
    have hall := lowerBound_eq_none_iff.mp hfound
    exact Or.inl ⟨rfl, lastKey_eq_some_iff.mpr ⟨hmem, fun k hk => hbelow k hk (hall k hk).le⟩⟩
  | some k =>
    obtain ⟨hk, htk, hmin⟩ := lowerBound_eq_some_iff.mp hfound
    rcases htk.lt_or_eq with hlt | rfl
    · refine Or.inr (Or.inr ⟨k, hk, rfl, hlt, ?_⟩)
      refine prev_some_eq_some_iff.mpr ⟨hmem, hle.trans_lt hlt, fun j hj hjk => ?_⟩
      refine hbelow j hj ?_
      by_contra hge
      exact absurd (hmin j hj (not_le.mp hge).le) (not_le.mpr hjk)
    · exact Or.inr (Or.inl ⟨rfl, ((h.keys _).mp hk).1⟩)

/-- The acceptance window does not matter to where the windows lie. -/
theorem of_same_map {q : StoryTimeline} (h : p.Spans lo hi)
    (hmap : q.storyTimelineMap = p.storyTimelineMap) (hstory : q.storyId = p.storyId)
    (hgran : q.granularity = p.granularity) : q.Spans lo hi := by
  have hgrid : q.grid = p.grid := congrArg ChunkGranularity.grid hgran
  refine ⟨?_, ?_, h.lt, ?_, ?_⟩
  · rw [hgrid]
    exact h.lo_start
  · rw [hgrid]
    exact h.hi_start
  · rw [hgrid, hmap]
    exact h.keys
  · rw [hgrid, hmap, hstory]
    exact h.window

/-- A window within the span is replaced by one of the same range. -/
theorem replace (h : p.Spans lo hi) (hw : p.storyTimelineMap[k]? = some w) {w' : TimelineChunk}
    (hstart : w'.startTime = w.startTime) (hend : w'.endTime = w.endTime)
    (hstory : w'.storyId = w.storyId) :
    Spans { p with storyTimelineMap := p.storyTimelineMap.insert k w' } lo hi where
  lo_start := h.lo_start
  hi_start := h.hi_start
  lt := h.lt
  keys k' := by
    refine Iff.trans ?_ (h.keys k')
    change k' ∈ p.storyTimelineMap.insert k w' ↔ _
    rw [Std.ExtTreeMap.mem_insert]
    constructor
    · rintro (heq | hmem)
      · rw [← Std.LawfulEqOrd.eq_of_compare heq]
        exact mem_of_window hw
      · exact hmem
    · exact Or.inr
  window k' u hu := by
    change (p.storyTimelineMap.insert k w')[k']? = some u at hu
    rw [Std.ExtTreeMap.getElem?_insert] at hu
    split at hu
    · next heq =>
      cases hu
      rw [← Std.LawfulEqOrd.eq_of_compare heq, hstart, hend, hstory]
      exact h.window k w hw
    · exact h.window k' u hu

/-- A span whose windows are known, with one window more. -/
theorem insertWindow {lo' hi' : ℕ} (h : p.Spans lo hi) (hlo' : p.grid.IsStart lo')
    (hhi' : p.grid.IsStart hi') (hlt' : lo' < hi')
    (hstarts : p.grid.starts lo' hi' = insert k (p.grid.starts lo hi))
    (hw : w.startTime = k ∧ w.endTime = p.grid.stop k % 2 ^ 64 ∧ w.storyId = p.storyId) :
    (p.insertWindow k w).Spans lo' hi' where
  lo_start := hlo'
  hi_start := hhi'
  lt := hlt'
  keys k' := by
    change k' ∈ p.storyTimelineMap.insertIfNew k w ↔ k' ∈ p.grid.starts lo' hi'
    rw [Std.ExtTreeMap.mem_insertIfNew, hstarts, Set.mem_insert_iff, h.keys k',
      Std.LawfulEqOrd.compare_eq_iff_eq, eq_comm]
  window k' u hu := by
    change (p.storyTimelineMap.insertIfNew k w)[k']? = some u at hu
    rw [Std.ExtTreeMap.getElem?_insertIfNew] at hu
    split at hu
    · next heq =>
      cases hu
      rw [← Std.LawfulEqOrd.eq_of_compare heq.1]
      exact hw
    · exact h.window k' u hu

/-- **The timeline grows by the next cell.** -/
theorem appendStoryChunk (h : p.Spans lo hi) (hfits : hi < 2 ^ 64) :
    p.appendStoryChunk =
        (p.insertWindow hi (p.newChunk hi ((hi + p.chunkGranularity) % 2 ^ 64)), some hi) ∧
      (p.insertWindow hi (p.newChunk hi ((hi + p.chunkGranularity) % 2 ^ 64))).Spans lo
        (p.grid.stop hi) := by
  constructor
  · rw [StoryTimeline.appendStoryChunk, h.timelineEnd hfits, addWindow, if_neg h.not_mem_hi]
  · refine h.insertWindow h.lo_start (p.grid.isStart_stop hi) (h.lt.trans (p.grid.lt_stop hi))
      (Tiling.starts_append h.hi_start h.lt.le) ⟨rfl, ?_, rfl⟩
    exact ChunkGranularity.endTime_new p.storyId h.hi_start

/-- The start of the window before a regular one. -/
theorem prependStart (h : p.Spans lo hi) (hlo : lo ≤ p.granularity.top) (hpos : 0 < lo) :
    p.chunkGranularity ≤ lo ∧ p.grid.IsStart (lo - p.chunkGranularity) ∧
      p.grid.stop (lo - p.chunkGranularity) = lo := by
  have hdvd := ChunkGranularity.dvd_of_isStart h.lo_start hlo
  have hle : p.chunkGranularity ≤ lo := Nat.le_of_dvd hpos hdvd
  have hns := p.granularity.ns_pos
  have hstart : p.grid.IsStart (lo - p.chunkGranularity) :=
    ChunkGranularity.isStart_of_dvd (Nat.dvd_sub hdvd (Nat.dvd_refl _)) (by omega)
  refine ⟨hle, hstart, ?_⟩
  have hstop := ChunkGranularity.stop_of_lt_top hstart (by
    unfold chunkGranularity at hle ⊢
    omega)
  refine Eq.trans hstop ?_
  unfold chunkGranularity at hle ⊢
  omega

/-- **The timeline grows by the cell before its first**, as long as there is one. -/
theorem prependStoryChunk (h : p.Spans lo hi) (hlo : lo ≤ p.granularity.top) (hpos : 0 < lo) :
    p.prependStoryChunk =
        (p.insertWindow (lo - p.chunkGranularity) (p.newChunk (lo - p.chunkGranularity) lo),
          some (lo - p.chunkGranularity)) ∧
      (p.insertWindow (lo - p.chunkGranularity) (p.newChunk (lo - p.chunkGranularity) lo)).Spans
        (lo - p.chunkGranularity) hi := by
  obtain ⟨hle, hstart, hstop⟩ := h.prependStart hlo hpos
  have hns := p.granularity.ns_pos
  have hlt := h.lt
  have htop := p.granularity.top_lt
  have hkey : (lo + 2 ^ 64 - p.chunkGranularity) % 2 ^ 64 = lo - p.chunkGranularity := by
    have hsub : lo + 2 ^ 64 - p.chunkGranularity = lo - p.chunkGranularity + 2 ^ 64 := by omega
    rw [hsub, Nat.add_mod_right, Nat.mod_eq_of_lt (by omega)]
  have hlower : lo - p.chunkGranularity < lo := by
    unfold chunkGranularity at hle ⊢
    omega
  have hnot : lo - p.chunkGranularity ∉ p.storyTimelineMap := fun hmem =>
    absurd ((h.keys _).mp hmem).2.1 (by omega)
  constructor
  · rw [StoryTimeline.prependStoryChunk, h.timelineStart, hkey, addWindow, if_neg hnot]
  · refine h.insertWindow hstart h.hi_start (by omega)
      (Tiling.starts_prepend hstart hstop hlt.le) ⟨rfl, ?_, rfl⟩
    change (if lo ≤ lo - p.chunkGranularity then _ else lo) = _
    rw [if_neg (by omega), hstop, Nat.mod_eq_of_lt (by omega)]

/-- A timeline that spans regular cells, two at least, keeps the invariant. -/
theorem invariant (h : p.Spans lo hi) (htop : hi ≤ p.granularity.top)
    (htwo : p.grid.stop lo < hi) : p.Invariant := by
  have hregular : ∀ (k : ℕ) (w : TimelineChunk), p.storyTimelineMap[k]? = some w →
      w.startTime = k ∧ p.chunkGranularity ∣ k ∧ w.endTime = k + p.chunkGranularity ∧
        p.grid.stop k ≤ hi ∧ w.endTime = p.grid.stop k := by
    intro k w hw
    have hend := h.endTime (htop.trans_lt p.granularity.top_lt) hw
    obtain ⟨hk, -, hkhi⟩ := (h.keys k).mp (mem_of_window hw)
    have hstop := ChunkGranularity.stop_of_lt_top hk (hkhi.trans_le htop)
    exact ⟨(h.window k w hw).1, ChunkGranularity.dvd_of_isStart hk (hkhi.le.trans htop),
      hend.trans hstop, Tiling.stop_le_of_lt h.hi_start hkhi, hend⟩
  refine ⟨fun k w hw => (hregular k w hw).1, fun k w hw => ?_, fun k w hw => ?_,
    fun k w hw => ?_, fun k w hw => ?_, ?_, fun k w hw => (h.window k w hw).2.2,
    fun k w _ e he => ?_⟩
  · obtain ⟨hkey, hdvd, -⟩ := hregular k w hw
    exact hkey ▸ hdvd
  · obtain ⟨hkey, -, hend, -⟩ := hregular k w hw
    rw [hkey, hend]
  · obtain ⟨-, -, -, hle, hend⟩ := hregular k w hw
    exact hend ▸ (hle.trans htop).trans_lt p.granularity.top_lt
  · -- the last window ends with the span, every other one at a cell of it
    obtain ⟨-, -, -, hle, hend⟩ := hregular k w hw
    obtain ⟨-, hlo, -⟩ := (h.keys k).mp (mem_of_window hw)
    rcases hle.lt_or_eq with hlt | heq
    · right
      rw [hend]
      exact (h.keys _).mpr ⟨p.grid.isStart_stop k, hlo.trans (p.grid.lt_stop k).le, hlt⟩
    · left
      intro k' hk'
      obtain ⟨hstart', -, hhi'⟩ := (h.keys k').mp hk'
      by_contra hlt
      exact absurd (Tiling.stop_le_of_lt hstart' (not_le.mp hlt)) (by omega)
  · refine two_le_size_iff.mpr ⟨lo, h.lo_mem, p.grid.stop lo, ?_, p.grid.lt_stop lo⟩
    exact (h.keys _).mpr ⟨p.grid.isStart_stop lo, (p.grid.lt_stop lo).le, htwo⟩
  · have hheld := w.held _ _ (StoryChunk.mem_events.mp he)
    exact ⟨hheld.2.2.1, hheld.2.2.2.1⟩

end Spans

/-- The window that was appended. -/
theorem appendStoryChunk_of_some (h : p.appendStoryChunk.2 = some k) :
    k ∉ p.storyTimelineMap ∧ ∃ w : TimelineChunk, w.startTime = k ∧ w.carriedReceipts = ∅ ∧
      p.appendStoryChunk.1 = p.insertWindow k w := by
  unfold appendStoryChunk addWindow at h ⊢
  split at h
  · cases h
  · next hk =>
    obtain rfl : p.timelineEnd = k := Option.some.inj h
    rw [if_neg hk]
    exact ⟨hk, _, rfl, rfl, rfl⟩

namespace Invariant

/-- A regular window's start is a cell's. -/
theorem isStart (h : p.Invariant) (hw : p.storyTimelineMap[k]? = some w) :
    p.grid.IsStart k ∧ k < p.granularity.top ∧ p.grid.stop k = k + p.chunkGranularity := by
  have hkey := h.keyed k w hw
  have hdvd := h.aligned k w hw
  have hend := h.long k w hw
  have hfits := h.fits k w hw
  rw [hkey] at hdvd hend
  have hns := p.granularity.ns_pos
  have hle : k + p.chunkGranularity ≤ p.granularity.top :=
    p.granularity.le_top_of_dvd ((Nat.dvd_add_right hdvd).mpr (Nat.dvd_refl _)) (hend ▸ hfits)
  have hlt : k < p.granularity.top := by
    unfold chunkGranularity at hle
    omega
  have hstart : p.grid.IsStart k := ChunkGranularity.isStart_of_dvd hdvd hlt.le
  exact ⟨hstart, hlt, ChunkGranularity.stop_of_lt_top hstart hlt⟩

/-- **A timeline that keeps the invariant spans regular cells of the grid**, two at least. -/
theorem spans (h : p.Invariant) :
    ∃ lo hi, p.Spans lo hi ∧ hi ≤ p.granularity.top ∧ p.grid.stop lo < hi := by
  obtain ⟨a, ha, b, hb, hab⟩ := two_le_size_iff.mp h.two
  obtain ⟨lo, hlo⟩ := exists_firstKey ha
  obtain ⟨last, hlast⟩ := exists_lastKey ha
  obtain ⟨hlomem, hlomin⟩ := firstKey_eq_some_iff.mp hlo
  obtain ⟨hlastmem, hlastmax⟩ := lastKey_eq_some_iff.mp hlast
  obtain ⟨wlo, hwlo⟩ := exists_window hlomem
  obtain ⟨wlast, hwlast⟩ := exists_window hlastmem
  obtain ⟨hlostart, hlotop, hlostop⟩ := h.isStart hwlo
  obtain ⟨hstart, htop, hstop⟩ := h.isStart hwlast
  have hhi : p.grid.stop last ≤ p.granularity.top :=
    Tiling.stop_le_of_lt
      (ChunkGranularity.isStart_of_dvd p.granularity.ns_dvd_top le_rfl) htop
  have hloend : p.grid.stop lo ≤ last := by
    have hlolast : lo < last := by
      have h1 := hlomin a ha
      have h2 := hlastmax b hb
      omega
    exact Tiling.stop_le_of_lt hstart hlolast
  refine ⟨lo, p.grid.stop last, ⟨hlostart, p.grid.isStart_stop last, ?_, fun k => ⟨?_, ?_⟩, ?_⟩,
    hhi, ?_⟩
  · exact (p.grid.lt_stop lo).trans (hloend.trans_lt (p.grid.lt_stop last))
  · intro hk
    obtain ⟨w, hw⟩ := exists_window hk
    exact ⟨(h.isStart hw).1, hlomin k hk, (hlastmax k hk).trans_lt (p.grid.lt_stop last)⟩
  · -- by induction on the distance from the first window, each window follows the one before
    rintro ⟨hk, hle, hlt⟩
    induction k using Nat.strong_induction_on with
    | _ k ih =>
      rcases hle.eq_or_lt with rfl | hlt'
      · exact hlomem
      · let k' := p.grid.start (k - 1)
        have hk'lt : k' < k := by
          have := p.grid.start_le (k - 1)
          change p.grid.start (k - 1) < k
          omega
        have hstop' : p.grid.stop k' = k := by
          have hle' : p.grid.stop (k - 1) ≤ k := Tiling.stop_le_of_lt hk (by omega)
          have hgt' := p.grid.lt_stop (k - 1)
          change p.grid.stop (p.grid.start (k - 1)) = k
          rw [Tiling.stop_start]
          omega
        have hmem' : k' ∈ p.storyTimelineMap :=
          ih k' hk'lt (p.grid.isStart_start _) (Tiling.le_start_of_le hlostart (by omega))
            (hk'lt.trans hlt)
        obtain ⟨w', hw'⟩ := exists_window hmem'
        obtain ⟨-, -, hlen⟩ := h.isStart hw'
        have hend' : w'.endTime = k := by
          rw [h.long k' w' hw', h.keyed k' w' hw', ← hlen, hstop']
        rcases h.contiguous k' w' hw' with hmax | hmem
        · have heq : k' = last := le_antisymm (hlastmax k' hmem') (hmax last hlastmem)
          rw [heq] at hstop'
          omega
        · exact hend' ▸ hmem
  · intro k w hw
    obtain ⟨-, -, hlen⟩ := h.isStart hw
    have hend := h.long k w hw
    rw [h.keyed k w hw, ← hlen] at hend
    exact ⟨h.keyed k w hw, by rw [← hend, Nat.mod_eq_of_lt (h.fits k w hw)], h.story k w hw⟩
  · exact hloend.trans_lt (p.grid.lt_stop last)

end Invariant

/-- The first window of a timeline. -/
theorem spans_first (hempty : p.storyTimelineMap = ∅) (hk : p.grid.IsStart k)
    (hw : w.startTime = k ∧ w.endTime = p.grid.stop k % 2 ^ 64 ∧ w.storyId = p.storyId) :
    (p.insertWindow k w).Spans k (p.grid.stop k) := by
  refine ⟨hk, p.grid.isStart_stop k, p.grid.lt_stop k, fun k' => ?_, fun k' u hu => ?_⟩
  · change k' ∈ p.storyTimelineMap.insertIfNew k w ↔ k' ∈ p.grid.starts k (p.grid.stop k)
    have hnone : k' ∉ p.grid.starts k k := fun h => absurd (h.2.1.trans_lt h.2.2) (lt_irrefl k)
    rw [Tiling.starts_append hk le_rfl, Set.mem_insert_iff, Std.ExtTreeMap.mem_insertIfNew,
      Std.LawfulEqOrd.compare_eq_iff_eq, eq_comm, hempty]
    simp only [Std.ExtTreeMap.not_mem_empty, hnone]
  · change (p.storyTimelineMap.insertIfNew k w)[k']? = some u at hu
    rw [Std.ExtTreeMap.getElem?_insertIfNew, hempty] at hu
    split at hu
    · next heq =>
      cases hu
      rw [← Std.LawfulEqOrd.eq_of_compare heq.1]
      exact hw
    · simp at hu

/-- A window of the constructor lies on the grid. -/
theorem initialWindow_eq {start i : ℕ} (hstart : p.chunkGranularity ∣ start)
    (hfits : start + p.chunkGranularity * (i + 1) < 2 ^ 64) :
    ∃ w, p.initialWindow start i = p.insertWindow (start + p.chunkGranularity * i) w ∧
      p.grid.IsStart (start + p.chunkGranularity * i) ∧
      p.grid.stop (start + p.chunkGranularity * i) = start + p.chunkGranularity * (i + 1) ∧
      start + p.chunkGranularity * (i + 1) ≤ p.granularity.top ∧
      w.startTime = start + p.chunkGranularity * i ∧
      w.endTime = p.grid.stop (start + p.chunkGranularity * i) % 2 ^ 64 ∧
      w.storyId = p.storyId := by
  have hpos : 0 < p.chunkGranularity := p.granularity.ns_pos
  have hsucc : start + p.chunkGranularity * (i + 1) =
      start + p.chunkGranularity * i + p.chunkGranularity := by
    rw [Nat.mul_succ]
    omega
  have htop : start + p.chunkGranularity * (i + 1) ≤ p.granularity.top :=
    p.granularity.le_top_of_dvd
      ((Nat.dvd_add_right hstart).mpr (Nat.dvd_mul_right _ _)) hfits
  have hk : p.grid.IsStart (start + p.chunkGranularity * i) :=
    ChunkGranularity.isStart_of_dvd ((Nat.dvd_add_right hstart).mpr (Nat.dvd_mul_right _ _))
      (by omega)
  have hstop : p.grid.stop (start + p.chunkGranularity * i) =
      start + p.chunkGranularity * (i + 1) :=
    (ChunkGranularity.stop_of_lt_top hk (by omega)).trans hsucc.symm
  refine ⟨p.newChunk (start + p.chunkGranularity * i) (start + p.chunkGranularity * (i + 1)),
    ?_, hk, hstop, htop, rfl, ?_, rfl⟩
  · unfold initialWindow
    rw [Nat.mod_eq_of_lt hfits, Nat.mod_eq_of_lt (by omega)]
    rfl
  · change (if start + p.chunkGranularity * (i + 1) ≤ start + p.chunkGranularity * i then _
      else start + p.chunkGranularity * (i + 1)) = _
    rw [if_neg (by omega), hstop, Nat.mod_eq_of_lt hfits]

/-- The constructor's windows follow each other. -/
theorem Spans.initialWindow {start i : ℕ} (h : p.Spans lo (start + p.chunkGranularity * i))
    (hstart : p.chunkGranularity ∣ start)
    (hfits : start + p.chunkGranularity * (i + 1) < 2 ^ 64) :
    (p.initialWindow start i).Spans lo (start + p.chunkGranularity * (i + 1)) := by
  obtain ⟨w, heq, -, hstop, -, hw⟩ := initialWindow_eq hstart hfits
  rw [heq, ← hstop]
  exact h.insertWindow h.lo_start (p.grid.isStart_stop _) (h.lt.trans (p.grid.lt_stop _))
    (Tiling.starts_append h.hi_start h.lt.le) hw

theorem granularity_initialWindow (p : StoryTimeline) (start i : ℕ) :
    (p.initialWindow start i).granularity = p.granularity := rfl

/-- **A new pipeline keeps the invariant**, if its three windows fit in 64 bits. -/
theorem invariant_new (storyId : StoryId) {storyStartTime : UInt64} {g : ChunkGranularity}
    (acceptanceWindow : UInt32)
    (hfits : storyStartTime.toNat / g.ns * g.ns + g.ns * 3 < 2 ^ 64) :
    (new storyId storyStartTime g acceptanceWindow).Invariant := by
  have hpos := g.ns_pos
  have hstart : storyStartTime.toNat - storyStartTime.toNat % g.ns =
      storyStartTime.toNat / g.ns * g.ns := by
    have := Nat.div_add_mod' storyStartTime.toNat g.ns
    omega
  unfold new
  simp only [hstart, List.foldl_cons, List.foldl_nil]
  generalize hs : storyStartTime.toNat / g.ns * g.ns = start at hfits
  have hdvd : g.ns ∣ start := hs ▸ Nat.dvd_mul_left _ _
  generalize hp₀ : StoryTimeline.mk storyId g (acceptanceWindow.toUInt64 * 1000000000) ∅ = p₀
  have hg : p₀.granularity = g := by rw [← hp₀]
  have hempty : p₀.storyTimelineMap = ∅ := by rw [← hp₀]
  subst hg
  -- the three windows are consecutive cells
  obtain ⟨w, heq, hk, hstop, -, hw⟩ :=
    initialWindow_eq (p := p₀) (i := 0) hdvd (by unfold chunkGranularity; omega)
  have h₁ := spans_first hempty hk hw
  rw [← heq, hstop] at h₁
  have hg₁ := granularity_initialWindow p₀ start 0
  unfold chunkGranularity at h₁ hstop
  generalize p₀.initialWindow start 0 = p₁ at h₁ hg₁ ⊢
  unfold grid at hstop
  rw [← hg₁] at h₁ hdvd hfits hpos hstop
  have h₂ := Spans.initialWindow (i := 1) h₁ hdvd (by unfold chunkGranularity; omega)
  have hg₂ := granularity_initialWindow p₁ start 1
  unfold chunkGranularity at h₂
  generalize p₁.initialWindow start 1 = p₂ at h₂ hg₂ ⊢
  rw [← hg₂] at h₂ hdvd hfits hpos hstop
  have h₃ := Spans.initialWindow (i := 2) h₂ hdvd (by unfold chunkGranularity; omega)
  have hg₃ := granularity_initialWindow p₂ start 2
  unfold chunkGranularity at h₃
  generalize p₂.initialWindow start 2 = p₃ at h₃ hg₃ ⊢
  rw [← hg₃] at h₃ hdvd hfits hpos hstop
  refine h₃.invariant ?_ ?_
  · exact ChunkGranularity.le_top_of_dvd _
      ((Nat.dvd_add_right hdvd).mpr (Nat.dvd_mul_right _ _)) hfits
  · unfold grid
    omega

theorem invariant_iff :
    p.Invariant ↔ ∃ lo hi, p.Spans lo hi ∧ hi ≤ p.granularity.top ∧ p.grid.stop lo < hi := by
  constructor
  · intro h
    exact h.spans
  · rintro ⟨lo, hi, h, htop, htwo⟩
    exact h.invariant htop htwo

section OutOfTime

variable {q : StoryTimeline} {last stop : ℕ}

/-- A timeline whose last window has an end past `2^64`: the next window was appended in
front of the others, and no window can be appended any more. -/
structure OutOfTime (p q : StoryTimeline) (last stop : ℕ) : Prop where
  granularity : q.granularity = p.granularity
  lastKey_eq : lastKey q.storyTimelineMap = some last
  last_end : ∀ w : TimelineChunk, q.storyTimelineMap[last]? = some w → w.endTime = stop
  stop_mem : stop ∈ q.storyTimelineMap
  first : q.timelineStart = 0 ∨ q.timelineStart = stop

theorem OutOfTime.timelineEnd (h : OutOfTime p q last stop) : q.timelineEnd = stop := by
  obtain ⟨w, hw⟩ := exists_window (lastKey_eq_some_iff.mp h.lastKey_eq).1
  rw [StoryTimeline.timelineEnd, h.lastKey_eq, deref, Option.bind_some, hw,
    Option.map_some, Option.getD_some, h.last_end w hw]

/-- A window is replaced by one that ends at the same time. -/
theorem OutOfTime.replace (h : OutOfTime p q last stop) (hw : q.storyTimelineMap[k]? = some w)
    {w' : TimelineChunk} (hend : w'.endTime = w.endTime) :
    OutOfTime p { q with storyTimelineMap := q.storyTimelineMap.insert k w' } last stop := by
  have hkeys : ∀ j, j ∈ q.storyTimelineMap.insert k w' ↔ j ∈ q.storyTimelineMap := fun j => by
    rw [Std.ExtTreeMap.mem_insert, Std.LawfulEqOrd.compare_eq_iff_eq]
    refine or_iff_right_of_imp ?_
    rintro rfl
    exact mem_of_window hw
  refine ⟨h.granularity, ?_, fun u hu => ?_, (hkeys stop).mpr h.stop_mem, ?_⟩
  · rw [lastKey_congr hkeys]
    exact h.lastKey_eq
  · change (q.storyTimelineMap.insert k w')[last]? = some u at hu
    rw [Std.ExtTreeMap.getElem?_insert] at hu
    split at hu
    · next heq =>
      cases hu
      rw [hend]
      exact h.last_end w (Std.LawfulEqOrd.eq_of_compare heq ▸ hw)
    · exact h.last_end u hu
  · change (firstKey (q.storyTimelineMap.insert k w')).getD 0 = 0 ∨
      (firstKey (q.storyTimelineMap.insert k w')).getD 0 = stop
    rw [firstKey_congr hkeys]
    exact h.first

/-- Nothing is appended any more. -/
theorem OutOfTime.appendStoryChunk (h : OutOfTime p q last stop) :
    q.appendStoryChunk = (q, none) := by
  rw [StoryTimeline.appendStoryChunk, h.timelineEnd, addWindow,
    if_pos h.stop_mem]

/-- A window prepended in front of the wrapped one comes before the last one. -/
theorem OutOfTime.prependStoryChunk (h : OutOfTime p q last stop)
    (hlast : last + 5000 = 2 ^ 64 + stop) (hstop : stop < 5000)
    (hfirst : q.timelineStart = stop) :
    OutOfTime p q.prependStoryChunk.1 last stop ∧
      q.prependStoryChunk.1.timelineStart = stop := by
  have hns := q.granularity.ns_lt
  have hlong := Nat.le_of_dvd q.granularity.ns_pos q.granularity.dvd_ns
  have hbig : 1000000000 ≤ q.granularity.ns := by
    have := q.granularity.pos
    unfold ChunkGranularity.ns
    omega
  have hg : q.chunkGranularity = q.granularity.ns := rfl
  have hkey : (stop + 2 ^ 64 - q.chunkGranularity) % 2 ^ 64 =
      stop + 2 ^ 64 - q.chunkGranularity := Nat.mod_eq_of_lt (by omega)
  rw [StoryTimeline.prependStoryChunk, hfirst, hkey]
  generalize hk : stop + 2 ^ 64 - q.chunkGranularity = k
  generalize q.newChunk k stop = w
  unfold StoryTimeline.addWindow
  split
  · exact ⟨h, hfirst⟩
  · obtain ⟨hmem, hmax⟩ := lastKey_eq_some_iff.mp h.lastKey_eq
    have hmin : firstKey q.storyTimelineMap = some stop := by
      obtain ⟨first, hf⟩ := exists_firstKey h.stop_mem
      rw [StoryTimeline.timelineStart, hf, Option.getD_some] at hfirst
      rw [hf, hfirst]
    obtain ⟨-, hmin⟩ := firstKey_eq_some_iff.mp hmin
    have hkeys : ∀ j, j ∈ q.storyTimelineMap.insertIfNew k w ↔
        k = j ∨ j ∈ q.storyTimelineMap := fun j => by
      rw [Std.ExtTreeMap.mem_insertIfNew, Std.LawfulEqOrd.compare_eq_iff_eq]
    have hstart : (q.insertWindow k w).timelineStart = stop := by
      have hnew : firstKey (q.storyTimelineMap.insertIfNew k w) = some stop := by
        refine firstKey_eq_some_iff.mpr ⟨(hkeys _).mpr (Or.inr h.stop_mem), fun j hj => ?_⟩
        rcases (hkeys j).mp hj with rfl | hj
        · omega
        · exact hmin j hj
      change (firstKey (q.storyTimelineMap.insertIfNew k w)).getD 0 = stop
      rw [hnew, Option.getD_some]
    refine ⟨⟨h.granularity, lastKey_eq_some_iff.mpr ⟨(hkeys _).mpr (Or.inr hmem),
      fun j hj => ?_⟩, fun u hu => h.last_end u ?_, (hkeys _).mpr (Or.inr h.stop_mem),
      Or.inr hstart⟩, hstart⟩
    · rcases (hkeys j).mp hj with rfl | hj
      · omega
      · exact hmax j hj
    · change (q.storyTimelineMap.insertIfNew k w)[last]? = some u at hu
      rw [Std.ExtTreeMap.getElem?_insertIfNew, if_neg] at hu
      · exact hu
      · rintro ⟨heq, -⟩
        have := Std.LawfulEqOrd.eq_of_compare heq
        omega

/-- The window behind the last one is appended in front of the others. -/
theorem outOfTime_appendStoryChunk (h : q.Spans lo (p.grid.stop last))
    (hgran : q.granularity = p.granularity) (hcell : p.grid.IsStart last)
    (hlong : p.grid.stop last = last + 5000) (hlast : last + 5000 = 2 ^ 64 + stop)
    (hstop : stop < 5000) (hpos : 0 < stop) :
    q.appendStoryChunk.2 = some stop ∧ OutOfTime p q.appendStoryChunk.1 last stop := by
  have hgrid : q.grid = p.grid := congrArg ChunkGranularity.grid hgran
  have hend : q.timelineEnd = stop := by
    rw [h.timelineEnd_eq_mod, hlong, hlast, Nat.add_mod_left, Nat.mod_eq_of_lt (by omega)]
  have hnot : stop ∉ q.storyTimelineMap := fun hmem => by
    obtain ⟨hstart, -⟩ := (h.keys stop).mp hmem
    obtain ⟨c, hc⟩ := ChunkGranularity.five_thousand_dvd_of_isStart hstart
    omega
  rw [appendStoryChunk, hend, addWindow, if_neg hnot]
  generalize q.newChunk stop ((stop + q.chunkGranularity) % 2 ^ 64) = w
  have hkeys : ∀ j, j ∈ q.storyTimelineMap.insertIfNew stop w ↔
      stop = j ∨ j ∈ q.storyTimelineMap := fun j => by
    rw [Std.ExtTreeMap.mem_insertIfNew, Std.LawfulEqOrd.compare_eq_iff_eq]
  have hmax : ∀ j ∈ q.storyTimelineMap, j ≤ last := by
    intro j hj
    obtain ⟨hstart, -, hlt⟩ := (h.keys j).mp hj
    rw [hgrid] at hstart
    by_contra hge
    exact absurd (Tiling.stop_le_of_lt hstart (not_le.mp hge)) (not_le.mpr hlt)
  have hlo : lo ≤ last := hmax lo h.lo_mem
  have hmem : last ∈ q.storyTimelineMap :=
    (h.keys last).mpr ⟨by rw [hgrid]; exact hcell, hlo, p.grid.lt_stop last⟩
  refine ⟨rfl, hgran, ?_, fun u hu => ?_, (hkeys _).mpr (Or.inl rfl), ?_⟩
  · refine lastKey_eq_some_iff.mpr ⟨(hkeys _).mpr (Or.inr hmem), fun j hj => ?_⟩
    rcases (hkeys j).mp hj with rfl | hj
    · omega
    · exact hmax j hj
  · change (q.storyTimelineMap.insertIfNew stop w)[last]? = some u at hu
    rw [Std.ExtTreeMap.getElem?_insertIfNew, if_neg] at hu
    · rw [(h.window last u hu).2.1, hgrid, hlong, hlast, Nat.add_mod_left,
        Nat.mod_eq_of_lt (by omega)]
    · rintro ⟨heq, -⟩
      have := Std.LawfulEqOrd.eq_of_compare heq
      omega
  · -- the first window starts at `0`, or else later than the wrapped one
    have hfirst : firstKey (q.storyTimelineMap.insertIfNew stop w) = some (min lo stop) := by
      refine firstKey_eq_some_iff.mpr ⟨(hkeys _).mpr ?_, fun j hj => ?_⟩
      · rcases Nat.le_total lo stop with hle | hle
        · rw [Nat.min_eq_left hle]
          exact Or.inr h.lo_mem
        · rw [Nat.min_eq_right hle]
          exact Or.inl rfl
      · rcases (hkeys j).mp hj with rfl | hj
        · exact Nat.min_le_right _ _
        · exact (Nat.min_le_left _ _).trans ((h.keys j).mp hj).2.1
    change (firstKey (q.storyTimelineMap.insertIfNew stop w)).getD 0 = 0 ∨
      (firstKey (q.storyTimelineMap.insertIfNew stop w)).getD 0 = stop
    rw [hfirst, Option.getD_some]
    obtain ⟨c, hc⟩ := ChunkGranularity.five_thousand_dvd_of_isStart h.lo_start
    omega

end OutOfTime

theorem one_second_fits : 0 < 1 ∧ 1 < 2 ^ 32 := by decide

/-- A story whose windows are one second long, with an acceptance window of a second. -/
def secondWindows : StoryTimeline :=
  new 7 0 ⟨1, one_second_fits.1, one_second_fits.2⟩ 1

theorem invariant_secondWindows : secondWindows.Invariant :=
  invariant_new 7 1 (by decide)

end StoryTimeline

end ChronoLog
