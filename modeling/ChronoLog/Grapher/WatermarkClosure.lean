import ChronoLog.Grapher.WatermarkRegistry
import ChronoLog.Lib.Intervals

/-!
# The watermark is the closure of the persisted intervals

What the registry does to one story depends on that story's part of the state
alone, its *view*: the entry, whether a drop of it waits to be reported and
whether a failed write of it is held aside.  The calls act on the view as a
machine of its own, and the properties of the watermark are properties of that
machine.

Between two registrations W is the greatest point that the persisted intervals
reach from the anchor, whatever order they came in.  A registration of a known
story may move W over an idle gap, which it must not do once a write of the
story has failed.

## Main definitions

* `Entry.advance`, `Entry.cover` — what a persisted interval and a registration
  do to an entry.
* `StoryView`, `StoryView.call` — the registry as one story sees it.
* `Entry.Tracks` — the invariant: W is reached, and an interval is either below
  W or parked above it.
* `WatermarkClosed` — what the watermark of a story is along a run.
* `FailureCarried` — the condition on a call.

## Main results

* `absorbFrom_spec` — one forward pass computes the closure.
* `view_call` — the registry simulates the machine of every story.
* `watermarkClosed_of_failureCarried` — **the watermark is the closure of the
  persisted intervals, and no registration moves it past a failed write**, in
  every run that adopts no story while a failed write of it is held aside.
* `adopted_story_forgets_failure` — a run of four calls that moves it past one.
-/

namespace ChronoLog

namespace StoryWatermarkRegistry

open Intervals Transition

/-! ### One forward pass computes the closure -/

/-- What the pass over `intervals` leaves of an entry that had exactly these
intervals parked. -/
structure Absorbed (intervals : List (ℕ × ℕ)) (entry entry' : Entry) : Prop where
  le : entry.w ≤ entry'.w
  reaches : Reaches {i | i ∈ intervals} entry.w entry'.w
  parked : ∀ s e : ℕ, entry'.pending[s]? = some e ↔ (s, e) ∈ intervals ∧ entry'.w < s
  closed : ∀ i ∈ intervals, i.1 ≤ entry'.w → i.2 ≤ entry'.w
  writeFailed : entry'.writeFailed = entry.writeFailed

/-- Taking the first interval out of the parked ones leaves the others. -/
theorem getElem?_erase_head {pending : OrdMap ℕ ℕ} {start stop : ℕ} {rest : List (ℕ × ℕ)}
    (hsorted : ((start, stop) :: rest).Pairwise fun i j => i.1 < j.1)
    (hpending : ∀ s e : ℕ, pending[s]? = some e ↔ (s, e) ∈ (start, stop) :: rest) (s e : ℕ) :
    (pending.erase start)[s]? = some e ↔ (s, e) ∈ rest := by
  rw [Std.ExtTreeMap.getElem?_erase]
  by_cases hs : start = s
  · subst hs
    have hnot : (start, e) ∉ rest := fun hmem =>
      absurd (List.rel_of_pairwise_cons hsorted hmem) (lt_irrefl _)
    simp [hnot]
  · rw [if_neg (by simpa using hs), hpending]
    simp [Ne.symm hs]

/-- **The forward pass computes the closure** of the parked intervals. -/
theorem absorbFrom_spec {intervals : List (ℕ × ℕ)} {entry : Entry}
    (hsorted : intervals.Pairwise fun i j => i.1 < j.1)
    (hpending : ∀ s e : ℕ, entry.pending[s]? = some e ↔ (s, e) ∈ intervals) :
    Absorbed intervals entry (absorbFrom intervals entry) := by
  induction intervals generalizing entry with
  | nil =>
    refine ⟨le_rfl, Reaches.refl, fun s e => ?_, by simp, rfl⟩
    rw [absorbFrom, hpending]
    simp
  | cons interval rest ih =>
    obtain ⟨start, stop⟩ := interval
    rw [absorbFrom]
    split
    · next hgap =>
      -- every later interval starts above W as well
      have habove : ∀ i ∈ (start, stop) :: rest, entry.w < i.1 := by
        intro i hi
        rcases List.mem_cons.mp hi with rfl | hi
        · exact hgap
        · exact lt_trans hgap (List.rel_of_pairwise_cons hsorted hi)
      refine ⟨le_rfl, Reaches.refl, fun s e => ?_, fun i hi hle => ?_, rfl⟩
      · rw [hpending]
        exact ⟨fun h => ⟨h, habove _ h⟩, And.left⟩
      · exact absurd (habove i hi) (not_lt.mpr hle)
    · next htouch =>
      have h := @ih
        { entry with
          w := if stop > entry.w then stop else entry.w
          pending := entry.pending.erase start }
        (List.Pairwise.of_cons hsorted) (getElem?_erase_head hsorted hpending)
      have hw : entry.w ≤ if stop > entry.w then stop else entry.w := by
        split <;> omega
      have hstop : stop ≤ if stop > entry.w then stop else entry.w := by
        split <;> omega
      refine ⟨hw.trans h.le, ?_, fun s e => ?_, fun i hi hle => ?_, h.writeFailed⟩
      · refine Reaches.trans ?_ (Reaches.mono h.reaches fun i hi => List.mem_cons_of_mem _ hi)
        dsimp only
        split
        · exact Advances.reaches ⟨start, not_lt.mp htouch, List.mem_cons_self⟩
        · exact Reaches.refl
      · have hle := h.le
        dsimp only at hle
        rw [h.parked]
        constructor
        · rintro ⟨hmem, hlt⟩
          exact ⟨List.mem_cons_of_mem _ hmem, hlt⟩
        · rintro ⟨hmem, hlt⟩
          rcases List.mem_cons.mp hmem with heq | hmem
          · have hs : s = start := congrArg Prod.fst heq
            omega
          · exact ⟨hmem, hlt⟩
      · rcases List.mem_cons.mp hi with rfl | hi
        · exact hstop.trans h.le
        · exact h.closed i hi hle

/-- The pass over the parked intervals of an entry. -/
theorem absorbContiguous_spec (entry : Entry) :
    Absorbed entry.pending.toList entry (absorbContiguous entry) := by
  refine absorbFrom_spec ?_ fun s e => ?_
  · refine List.Pairwise.imp ?_ Std.ExtTreeMap.ordered_keys_toList
    intro i j hij
    exact Std.compare_eq_lt.mp hij
  · rw [Std.ExtTreeMap.mem_toList_iff_getElem?_eq_some]

/-! ### What the calls do to one story -/

/-- The end an interval is parked with: the later one of two with one start. -/
def Entry.parkedEnd (entry : Entry) (start stop : ℕ) : ℕ :=
  match entry.pending[start]? with
  | none => stop
  | some known => if stop > known then stop else known

/-- What `advancePersisted` does to the entry of its story. -/
def Entry.advance (entry : Entry) (start stop : ℕ) : Entry :=
  if stop ≤ entry.w then entry
  else
    absorbContiguous
      { entry with pending := entry.pending.insert start (entry.parkedEnd start stop) }

/-- What `registerStory` does to the entry of a known story. -/
def Entry.cover (entry : Entry) (startTime : ℕ) (freshPipeline : Bool) : Entry :=
  if startTime > entry.w then
    if !freshPipeline || entry.writeFailed || !entry.pending.isEmpty then entry
    else { entry with w := startTime }
  else entry

/-- The registry as one story sees it. -/
structure StoryView where
  entry : Option Entry
  dropped : Bool
  /-- A failed write of the story is held aside until it registers. -/
  failureHeld : Bool

/-- The report is a drop report of the story. -/
def IsDropOf (storyId : StoryId) (report : StoryId × StoryWatermarkReport) : Prop :=
  report.1 = storyId ∧ report.2.watermark = kStoryDroppedWatermark

instance (storyId : StoryId) (report : StoryId × StoryWatermarkReport) :
    Decidable (IsDropOf storyId report) := inferInstanceAs (Decidable (_ ∧ _))

namespace StoryView

/-- The story registers without an entry, or with one that is started over. -/
def register (v : StoryView) (startTime : ℕ) : StoryView where
  entry := some { anchor := startTime, w := startTime, writeFailed := v.failureHeld }
  dropped := false
  failureHeld := false

/-- The view of a story after a call. -/
def call (storyId : StoryId) (v : StoryView) : Call → StoryView
  | .registerStory id startTime freshPipeline =>
    if id = storyId then
      match v.entry, v.dropped with
      | some entry, false => { v with entry := some (entry.cover startTime freshPipeline) }
      | _, _ => v.register startTime
    else v
  | .dropStory id =>
    if id = storyId then
      { v with
        entry := v.entry.map fun entry => { entry with w := kStoryDroppedWatermark }
        dropped := true }
    else v
  | .persistFailed id =>
    if id = storyId then
      match v.entry with
      | none => { v with failureHeld := true }
      | some entry => { v with entry := some { entry with writeFailed := true } }
    else v
  | .advancePersisted id start stop =>
    if id = storyId ∧ start < stop then
      { v with
        entry := some ((v.entry.getD { anchor := start, w := start }).advance start stop) }
    else v
  | .markUndelivered reports =>
    if v.entry.isNone ∧ ∃ report ∈ reports, IsDropOf storyId report then { v with dropped := true }
    else v
  | .snapshotDirty =>
    if v.dropped then { v with entry := none, dropped := false } else v
  | .assignReceipt _ | .holdReceipt .. | .releaseReceipt .. | .receiptMerged .. => v

end StoryView

/-- The part of the registry that concerns one story. -/
def view (r : StoryWatermarkRegistry) (storyId : StoryId) : StoryView where
  entry := r.stories[storyId]?
  dropped := r.dropped.contains storyId
  failureHeld := r.failedBeforeRegistration.contains storyId

variable (r : StoryWatermarkRegistry) (storyId other : StoryId)

theorem view_registerNew (startTime : ℕ) :
    (r.registerNew other startTime).view storyId =
      if other = storyId then (r.view storyId).register startTime else r.view storyId := by
  unfold registerNew view StoryView.register
  by_cases h : other = storyId
  · subst h
    simp
  · simp [h, Std.ExtTreeMap.getElem?_insert]

theorem view_registerStory (startTime : ℕ) (freshPipeline : Bool) :
    (r.registerStory other startTime freshPipeline).view storyId =
      (r.view storyId).call storyId (.registerStory other startTime freshPipeline) := by
  have hentry : (r.view other).entry = r.stories[other]? := rfl
  have hdropped : (r.view other).dropped = r.dropped.contains other := rfl
  unfold registerStory StoryView.call
  dsimp only
  cases he : r.stories[other]? with
  | none =>
    dsimp only
    rw [view_registerNew]
    split
    · next h =>
      subst h
      rw [hentry, he]
    · rfl
  | some entry =>
    dsimp only
    cases hd : r.dropped.contains other with
    | true =>
      rw [if_pos rfl, view_registerNew]
      split
      · next h =>
        subst h
        rw [hentry, he, hdropped, hd]
        rfl
      · next h => simp [view, h, Std.ExtTreeMap.getElem?_erase]
    | false =>
      rw [if_neg (by simp)]
      by_cases h : other = storyId
      · subst h
        rw [if_pos rfl, hentry, he, hdropped, hd]
        dsimp only [Entry.cover]
        split
        · split
          · simp [view, he, hd]
          · simp [view, hd]
        · simp [view, he, hd]
      · rw [if_neg h]
        split
        · split
          · rfl
          · simp [view, h, Std.ExtTreeMap.getElem?_insert]
        · rfl

theorem view_dropStory :
    (r.dropStory other).view storyId = (r.view storyId).call storyId (.dropStory other) := by
  unfold dropStory StoryView.call
  dsimp only
  by_cases h : other = storyId
  · subst h
    cases he : r.stories[other]? with
    | none => simp [view, he]
    | some entry => simp [view, he]
  · cases he : r.stories[other]? with
    | none => simp [view, h]
    | some entry => simp [view, h, Std.ExtTreeMap.getElem?_insert]

theorem view_persistFailed :
    (r.persistFailed other).view storyId =
      (r.view storyId).call storyId (.persistFailed other) := by
  unfold persistFailed StoryView.call
  dsimp only
  by_cases h : other = storyId
  · subst h
    cases he : r.stories[other]? with
    | none => simp [view, he]
    | some entry => simp [view, he]
  · cases he : r.stories[other]? with
    | none => simp [view, h]
    | some entry => simp [view, h, Std.ExtTreeMap.getElem?_insert]

theorem view_advancePersisted (start stop : ℕ) :
    (r.advancePersisted other start stop).view storyId =
      (r.view storyId).call storyId (.advancePersisted other start stop) := by
  unfold advancePersisted
  by_cases hempty : stop ≤ start
  · have hcall : (r.view storyId).call storyId (.advancePersisted other start stop) =
        r.view storyId := if_neg (by omega)
    rw [if_pos hempty, hcall]
  · rw [if_neg hempty]
    by_cases h : other = storyId
    · subst h
      have hcall : (r.view other).call other (.advancePersisted other start stop) =
          { r.view other with
            entry := some ((r.stories[other]?.getD { anchor := start, w := start }).advance
              start stop) } := if_pos ⟨rfl, by omega⟩
      rw [hcall]
      unfold Entry.advance
      dsimp only
      split
      · simp [view]
      · simp only [view, Std.ExtTreeMap.getElem?_insert_self]
        rfl
    · have hcall : (r.view storyId).call storyId (.advancePersisted other start stop) =
          r.view storyId := if_neg (fun hc => h hc.1)
      rw [hcall]
      dsimp only
      split
      · simp [view, h, Std.ExtTreeMap.getElem?_insert]
      · simp [view, h, Std.ExtTreeMap.getElem?_insert]

theorem view_markUndeliveredOne (report : StoryId × StoryWatermarkReport) :
    (r.markUndeliveredOne report).view storyId =
      if (r.view storyId).entry.isNone ∧ IsDropOf storyId report then
        { r.view storyId with dropped := true }
      else r.view storyId := by
  unfold markUndeliveredOne
  rw [Std.ExtTreeMap.contains_eq_isSome_getElem?]
  by_cases h : report.1 = storyId
  · subst h
    cases he : r.stories[report.1]? with
    | none =>
      by_cases hdrop : report.2.watermark = kStoryDroppedWatermark <;>
        simp [view, IsDropOf, he, hdrop]
    | some entry => simp [view, he]
  · have hother : ¬ ((r.view storyId).entry.isNone ∧ IsDropOf storyId report) :=
      fun hc => h hc.2.1
    split
    · rfl
    · split
      · simp [view, h]
      · rfl

theorem view_markUndelivered (reports : List (StoryId × StoryWatermarkReport)) :
    (r.markUndelivered reports).view storyId =
      (r.view storyId).call storyId (.markUndelivered reports) := by
  unfold markUndelivered
  induction reports generalizing r with
  | nil => simp [StoryView.call]
  | cons report reports ih =>
    rw [List.foldl_cons, ih, view_markUndeliveredOne]
    by_cases hone : (r.view storyId).entry.isNone ∧ IsDropOf storyId report
    · have hall : (r.view storyId).entry.isNone ∧
          ∃ report' ∈ report :: reports, IsDropOf storyId report' :=
        ⟨hone.1, report, List.mem_cons_self, hone.2⟩
      rw [if_pos hone]
      simp only [StoryView.call, if_pos hall]
      split <;> rfl
    · rw [if_neg hone]
      refine if_congr (and_congr_right fun hnone => ?_) rfl rfl
      simp [show ¬ IsDropOf storyId report from fun h => hone ⟨hnone, h⟩]

theorem view_foldl_forgetStory (ids : List StoryId) :
    (ids.foldl forgetStory r).view storyId =
      if storyId ∈ ids then { r.view storyId with entry := none } else r.view storyId := by
  induction ids generalizing r with
  | nil => simp
  | cons id ids ih =>
    have hone : (r.forgetStory id).view storyId =
        if id = storyId then { r.view storyId with entry := none } else r.view storyId := by
      unfold forgetStory view
      by_cases h : id = storyId
      · subst h
        simp
      · simp [h, Std.ExtTreeMap.getElem?_erase]
    rw [List.foldl_cons, ih, hone]
    by_cases h : id = storyId
    · subst h
      simp
    · simp [h, Ne.symm h]

theorem view_snapshotDirty :
    r.snapshotDirty.1.view storyId = (r.view storyId).call storyId .snapshotDirty := by
  have hforget := view_foldl_forgetStory r storyId r.dropped.toList
  have hview : r.snapshotDirty.1.view storyId =
      { (r.dropped.toList.foldl forgetStory r).view storyId with dropped := false } := by
    simp [snapshotDirty, view]
  rw [hview, hforget]
  unfold StoryView.call
  have hd : (r.view storyId).dropped = r.dropped.contains storyId := rfl
  simp only [Std.ExtTreeSet.mem_toList, Std.ExtTreeSet.mem_iff_contains, hd]
  cases hdropped : r.dropped.contains storyId with
  | true => rfl
  | false => simp [view, hdropped]

theorem view_settleIfWritten (receipt : ℕ) (state : ReceiptState) :
    (r.settleIfWritten other receipt state).view storyId = r.view storyId := by
  unfold settleIfWritten
  split <;> rfl

/-- **The registry simulates the machine of every story.** -/
theorem view_call (c : Call) : (r.call c).view storyId = (r.view storyId).call storyId c := by
  cases c with
  | registerStory id startTime freshPipeline =>
    exact view_registerStory r storyId id startTime freshPipeline
  | dropStory id => exact view_dropStory r storyId id
  | persistFailed id => exact view_persistFailed r storyId id
  | advancePersisted id start stop => exact view_advancePersisted r storyId id start stop
  | markUndelivered reports => exact view_markUndelivered r storyId reports
  | snapshotDirty => exact view_snapshotDirty r storyId
  | assignReceipt id => rfl
  | holdReceipt id receipt =>
    change (r.holdReceipt id receipt).view storyId = r.view storyId
    unfold holdReceipt
    split <;> rfl
  | releaseReceipt id receipt =>
    change (r.releaseReceipt id receipt).view storyId = r.view storyId
    unfold releaseReceipt
    split
    · rfl
    · split
      · exact view_settleIfWritten _ storyId id receipt _
      · rfl
  | receiptMerged id receipt =>
    change (r.receiptMerged id receipt).view storyId = r.view storyId
    unfold receiptMerged
    split
    · rfl
    · exact view_settleIfWritten _ storyId id receipt _

/-! ### The invariant of an entry -/

/-- Against the intervals `I` delivered so far: W is reached from `base`, what is
parked starts above it, and an interval is either below W or parked. -/
structure Entry.Tracks (entry : Entry) (base : ℕ) (I : Set (ℕ × ℕ)) : Prop where
  reaches : Reaches I base entry.w
  base_le : base ≤ entry.w
  parked : ∀ s e : ℕ, entry.pending[s]? = some e → (s, e) ∈ I ∧ entry.w < s
  kept : ∀ i ∈ I, i.1 < i.2 →
    i.2 ≤ entry.w ∨ ∃ e : ℕ, entry.pending[i.1]? = some e ∧ i.2 ≤ e

namespace Entry

variable {entry : Entry} {base : ℕ} {I : Set (ℕ × ℕ)}

/-- No interval leads past W. -/
theorem Tracks.closed (h : entry.Tracks base I) {i : ℕ × ℕ} (hi : i ∈ I)
    (hle : i.1 ≤ entry.w) : i.2 ≤ entry.w := by
  by_cases hempty : i.2 ≤ i.1
  · exact hempty.trans hle
  · rcases h.kept i hi (not_le.mp hempty) with hbelow | ⟨e, hparked, -⟩
    · exact hbelow
    · exact absurd (h.parked _ _ hparked).2 (not_lt.mpr hle)

/-- **W is the greatest point reached.** -/
theorem Tracks.isGreatest (h : entry.Tracks base I) :
    IsGreatest {t | Reaches I base t} entry.w :=
  Reaches.isGreatest h.reaches h.base_le fun _ hi hle => h.closed hi hle

/-- An entry as it is made tracks the intervals that are all empty. -/
theorem tracks_anchor {anchor : ℕ} {writeFailed : Bool} (hI : ∀ i ∈ I, i.2 ≤ i.1) :
    Tracks { anchor, w := anchor, writeFailed } anchor I where
  reaches := Reaches.refl
  base_le := le_rfl
  parked := fun s e h => by simp at h
  kept := fun i hi hlt => absurd (hI i hi) (not_le.mpr hlt)

/-- An empty interval changes nothing. -/
theorem Tracks.add_empty (h : entry.Tracks base I) {J : Set (ℕ × ℕ)}
    (hJ : ∀ i ∈ J, i.2 ≤ i.1) : entry.Tracks base (I ∪ J) where
  reaches := h.reaches.mono Set.subset_union_left
  base_le := h.base_le
  parked := fun s e hs => ⟨Or.inl (h.parked s e hs).1, (h.parked s e hs).2⟩
  kept := fun i hi hlt => by
    rcases hi with hi | hi
    · exact h.kept i hi hlt
    · exact absurd (hJ i hi) (not_le.mpr hlt)

theorem w_le_advance (start stop : ℕ) : entry.w ≤ (entry.advance start stop).w := by
  unfold advance
  split
  · exact le_rfl
  · exact (absorbContiguous_spec { entry with
      pending := entry.pending.insert start (entry.parkedEnd start stop) }).le

@[simp] theorem writeFailed_advance (start stop : ℕ) :
    (entry.advance start stop).writeFailed = entry.writeFailed := by
  unfold advance
  split
  · rfl
  · exact (absorbContiguous_spec _).writeFailed

theorem le_parkedEnd (start stop : ℕ) : stop ≤ entry.parkedEnd start stop := by
  unfold parkedEnd
  split
  · exact le_rfl
  · split <;> omega

theorem known_le_parkedEnd {start known : ℕ} (stop : ℕ) (h : entry.pending[start]? = some known) :
    known ≤ entry.parkedEnd start stop := by
  unfold parkedEnd
  rw [h]
  dsimp only
  split <;> omega

theorem Tracks.mem_parkedEnd (h : entry.Tracks base I) (start stop : ℕ) :
    (start, entry.parkedEnd start stop) ∈ I ∪ {(start, stop)} := by
  unfold parkedEnd
  cases hs : entry.pending[start]? with
  | none => exact Or.inr rfl
  | some known =>
    dsimp only
    split
    · exact Or.inr rfl
    · exact Or.inl (h.parked start known hs).1

/-- **A persisted interval joins the tracked ones.** -/
theorem Tracks.advance (h : entry.Tracks base I) (start stop : ℕ) :
    (entry.advance start stop).Tracks base (I ∪ {(start, stop)}) := by
  unfold Entry.advance
  split
  · next hbelow =>
    refine ⟨h.reaches.mono Set.subset_union_left, h.base_le, ?_, ?_⟩
    · intro s e hs
      exact ⟨Or.inl (h.parked s e hs).1, (h.parked s e hs).2⟩
    · rintro i (hi | rfl) hlt
      · exact h.kept i hi hlt
      · exact Or.inl hbelow
  · obtain ⟨pending, hpending⟩ : ∃ pending : OrdMap ℕ ℕ,
        pending = entry.pending.insert start (entry.parkedEnd start stop) := ⟨_, rfl⟩
    have hstart : pending[start]? = some (entry.parkedEnd start stop) := by
      rw [hpending, Std.ExtTreeMap.getElem?_insert_self]
    have hother : ∀ s : ℕ, s ≠ start → pending[s]? = entry.pending[s]? := by
      intro s hs
      rw [hpending, Std.ExtTreeMap.getElem?_insert, if_neg (by simpa using Ne.symm hs)]
    have hmem : ∀ s e : ℕ, pending[s]? = some e → (s, e) ∈ I ∪ {(start, stop)} := by
      intro s e hs
      by_cases heq : s = start
      · subst heq
        cases hstart.symm.trans hs
        exact h.mem_parkedEnd s stop
      · exact Or.inl (h.parked s e ((hother s heq) ▸ hs)).1
    rw [← hpending]
    have habs := absorbContiguous_spec { entry with pending }
    -- an interval that was parked is still parked, or W has reached its end
    have hkeeps : ∀ s e x : ℕ, pending[s]? = some e → x ≤ e →
        x ≤ (absorbContiguous { entry with pending }).w ∨
          ∃ e' : ℕ, (absorbContiguous { entry with pending }).pending[s]? = some e' ∧ x ≤ e' := by
      intro s e x hs hx
      have hlist := Std.ExtTreeMap.mem_toList_iff_getElem?_eq_some.mpr hs
      by_cases hle : s ≤ (absorbContiguous { entry with pending }).w
      · exact Or.inl (hx.trans (habs.closed _ hlist hle))
      · exact Or.inr ⟨e, (habs.parked s e).mpr ⟨hlist, not_le.mp hle⟩, hx⟩
    refine ⟨?_, h.base_le.trans habs.le, ?_, ?_⟩
    · refine (h.reaches.mono Set.subset_union_left).trans (habs.reaches.mono ?_)
      rintro ⟨s, e⟩ hi
      exact hmem s e (Std.ExtTreeMap.mem_toList_iff_getElem?_eq_some.mp hi)
    · intro s e hs
      obtain ⟨hlist, hlt⟩ := (habs.parked s e).mp hs
      exact ⟨hmem s e (Std.ExtTreeMap.mem_toList_iff_getElem?_eq_some.mp hlist), hlt⟩
    · rintro i (hi | rfl) hlt
      · rcases h.kept i hi hlt with hbelow | ⟨e, he, hx⟩
        · exact Or.inl (hbelow.trans habs.le)
        · by_cases heq : i.1 = start
          · exact hkeeps _ _ _ (heq ▸ hstart) (hx.trans (known_le_parkedEnd stop (heq ▸ he)))
          · exact hkeeps _ _ _ ((hother _ heq).trans he) hx
      · exact hkeeps _ _ _ hstart (le_parkedEnd start stop)

/-- **What a registration does to a known story**: nothing, or it moves W over an
idle gap. -/
theorem cover_cases (entry : Entry) (startTime : ℕ) (freshPipeline : Bool) :
    entry.cover startTime freshPipeline = entry ∨
      (entry.w < startTime ∧ freshPipeline = true ∧ entry.writeFailed = false ∧
        entry.pending.isEmpty = true ∧
        entry.cover startTime freshPipeline = { entry with w := startTime }) := by
  unfold cover
  split
  · next hlt =>
    split
    · exact Or.inl rfl
    · next hgap =>
      simp only [Bool.or_eq_true, Bool.not_eq_true', not_or, Bool.not_eq_true,
        Bool.not_eq_false] at hgap
      exact Or.inr ⟨hlt, hgap.1.1, hgap.1.2, hgap.2, rfl⟩
  · exact Or.inl rfl

theorem w_le_cover (startTime : ℕ) (freshPipeline : Bool) :
    entry.w ≤ (entry.cover startTime freshPipeline).w := by
  rcases cover_cases entry startTime freshPipeline with h | ⟨hlt, -, -, -, h⟩
  · rw [h]
  · rw [h]
    exact hlt.le

@[simp] theorem writeFailed_cover (startTime : ℕ) (freshPipeline : Bool) :
    (entry.cover startTime freshPipeline).writeFailed = entry.writeFailed := by
  rcases cover_cases entry startTime freshPipeline with h | ⟨-, -, -, -, h⟩
  · rw [h]
  · rw [h]

/-- Where nothing is parked, every interval ends at or below W. -/
theorem Tracks.le_of_isEmpty (h : entry.Tracks base I) (hempty : entry.pending.isEmpty = true)
    {i : ℕ × ℕ} (hi : i ∈ I) (hlt : i.1 < i.2) : i.2 ≤ entry.w := by
  rcases h.kept i hi hlt with hbelow | ⟨e, he, -⟩
  · exact hbelow
  · rw [Std.ExtTreeMap.isEmpty_iff.mp hempty] at he
    simp at he

/-- A registration keeps the intervals tracked, from another base if it moves W. -/
theorem Tracks.cover (h : entry.Tracks base I) (startTime : ℕ) (freshPipeline : Bool) :
    ∃ base', (entry.cover startTime freshPipeline).Tracks base' I := by
  rcases cover_cases entry startTime freshPipeline with hc | ⟨hlt, -, -, hempty, hc⟩
  · rw [hc]
    exact ⟨base, h⟩
  · rw [hc]
    refine ⟨startTime, Reaches.refl, le_rfl, ?_, ?_⟩
    · intro s e hs
      rw [Std.ExtTreeMap.isEmpty_iff.mp hempty] at hs
      simp at hs
    · intro i hi hi'
      exact Or.inl ((h.le_of_isEmpty hempty hi hi').trans hlt.le)

end Entry

/-! ### Runs of one story -/

/-- The intervals of the story that the calls report as persisted. -/
def delivered (storyId : StoryId) (calls : List Call) : Set (ℕ × ℕ) :=
  {i | Call.advancePersisted storyId i.1 i.2 ∈ calls}

theorem delivered_append (calls calls' : List Call) :
    delivered storyId (calls ++ calls') = delivered storyId calls ∪ delivered storyId calls' := by
  ext i
  simp [delivered]

/-- A call for another story, or with an empty interval, delivers nothing. -/
theorem delivered_empty {storyId id : StoryId} {start stop : ℕ}
    (h : ¬ (id = storyId ∧ start < stop)) :
    ∀ i ∈ delivered storyId [.advancePersisted id start stop], i.2 ≤ i.1 := by
  intro i hi
  simp only [delivered, List.mem_singleton, Set.mem_ofPred_eq,
    Call.advancePersisted.injEq] at hi
  obtain ⟨hid, hs, he⟩ := hi
  exact not_lt.mp fun hlt => h ⟨hid.symm, by omega⟩

/-- The call registers the story. -/
def Call.Registers (storyId : StoryId) : Call → Prop
  | .registerStory id _ _ => id = storyId
  | _ => False

/-- The call destroys the story, or marks an undelivered report of that. -/
def Call.Drops (storyId : StoryId) : Call → Prop
  | .dropStory id => id = storyId
  | .markUndelivered reports => ∃ report ∈ reports, IsDropOf storyId report
  | _ => False

/-- What a call can do to the entry of a known story that is not dropped. -/
inductive Entry.Step (storyId : StoryId) (entry : Entry) : Call → Entry → Prop
  | advance {start stop : ℕ} (h : start < stop) :
    Entry.Step storyId entry (.advancePersisted storyId start stop) (entry.advance start stop)
  | fail : Entry.Step storyId entry (.persistFailed storyId) { entry with writeFailed := true }
  | register (startTime : ℕ) (freshPipeline : Bool) :
    Entry.Step storyId entry (.registerStory storyId startTime freshPipeline)
      (entry.cover startTime freshPipeline)
  | none {c : Call} (hempty : ∀ i ∈ delivered storyId [c], i.2 ≤ i.1)
      (hfail : c ≠ .persistFailed storyId) : Entry.Step storyId entry c entry

variable {storyId}

/-- **Inversion**: a call that does not destroy a known story takes its entry one
step. -/
theorem StoryView.call_known {v : StoryView} {entry : Entry} {c : Call}
    (hentry : v.entry = some entry) (hdropped : v.dropped = false)
    (hc : c ≠ .dropStory storyId) :
    ∃ entry', v.call storyId c = { v with entry := some entry' } ∧
      Entry.Step storyId entry c entry' := by
  have hv : v = { v with entry := some entry } := by rw [← hentry]
  cases c with
  | registerStory id startTime freshPipeline =>
    by_cases h : id = storyId
    · subst h
      refine ⟨_, ?_, .register startTime freshPipeline⟩
      simp only [StoryView.call, if_true, hentry, hdropped]
    · exact ⟨entry, (if_neg h).trans hv, .none (by simp [delivered]) (by simp)⟩
  | dropStory id =>
    have h : id ≠ storyId := fun h => hc (h ▸ rfl)
    exact ⟨entry, (if_neg h).trans hv, .none (by simp [delivered]) (by simp)⟩
  | persistFailed id =>
    by_cases h : id = storyId
    · subst h
      refine ⟨_, ?_, .fail⟩
      simp only [StoryView.call, if_true, hentry]
    · exact ⟨entry, (if_neg h).trans hv, .none (by simp [delivered]) (by simpa using h)⟩
  | advancePersisted id start stop =>
    by_cases h : id = storyId ∧ start < stop
    · obtain ⟨rfl, hlt⟩ := h
      refine ⟨_, ?_, .advance hlt⟩
      simp only [StoryView.call, true_and, if_pos hlt, hentry, Option.getD_some]
    · exact ⟨entry, (if_neg h).trans hv, .none (delivered_empty h) (by simp)⟩
  | markUndelivered reports =>
    refine ⟨entry, (if_neg ?_).trans hv, .none (by simp [delivered]) (by simp)⟩
    simp [hentry]
  | snapshotDirty =>
    refine ⟨entry, (if_neg ?_).trans hv, .none (by simp [delivered]) (by simp)⟩
    simp [hdropped]
  | assignReceipt id => exact ⟨entry, hv, .none (by simp [delivered]) (by simp)⟩
  | holdReceipt id receipt => exact ⟨entry, hv, .none (by simp [delivered]) (by simp)⟩
  | releaseReceipt id receipt => exact ⟨entry, hv, .none (by simp [delivered]) (by simp)⟩
  | receiptMerged id receipt => exact ⟨entry, hv, .none (by simp [delivered]) (by simp)⟩

namespace Entry.Step

variable {entry entry' : Entry} {c : Call} {base : ℕ} {I : Set (ℕ × ℕ)}

theorem w_le (h : Entry.Step storyId entry c entry') : entry.w ≤ entry'.w := by
  cases h with
  | advance _ => exact Entry.w_le_advance _ _
  | fail => exact le_rfl
  | register startTime freshPipeline => exact Entry.w_le_cover startTime freshPipeline
  | none _ _ => exact le_rfl

theorem delivered_advance (start stop : ℕ) :
    delivered storyId [.advancePersisted storyId start stop] = {(start, stop)} := by
  ext ⟨s, e⟩
  simp [delivered]

/-- A step that is no registration tracks the call's interval as well. -/
theorem tracks (h : Entry.Step storyId entry c entry') (hc : ¬ c.Registers storyId)
    (htracks : entry.Tracks base I) : entry'.Tracks base (I ∪ delivered storyId [c]) := by
  cases h with
  | @advance start stop _ =>
    rw [delivered_advance]
    exact htracks.advance start stop
  | fail =>
    have hfailed : Entry.Tracks { entry with writeFailed := true } base I :=
      ⟨htracks.reaches, htracks.base_le, htracks.parked, htracks.kept⟩
    exact hfailed.add_empty (by simp [delivered])
  | register startTime freshPipeline => exact absurd rfl hc
  | none hempty _ => exact htracks.add_empty hempty

/-- Every step tracks the call's interval, a registration maybe from a new base. -/
theorem tracks_some (h : Entry.Step storyId entry c entry') (htracks : entry.Tracks base I) :
    ∃ base', entry'.Tracks base' (I ∪ delivered storyId [c]) := by
  by_cases hc : c.Registers storyId
  · cases h with
    | register startTime freshPipeline =>
      obtain ⟨base', hcover⟩ := htracks.cover startTime freshPipeline
      exact ⟨base', hcover.add_empty (by simp [delivered])⟩
    | advance _ => exact absurd hc id
    | fail => exact absurd hc id
    | none hempty _ => exact ⟨base, htracks.add_empty hempty⟩
  · exact ⟨base, h.tracks hc htracks⟩

/-- A failed write stays known, and a failing call makes it known. -/
theorem writeFailed (h : Entry.Step storyId entry c entry')
    (hfailed : entry.writeFailed = true ∨ c = .persistFailed storyId) :
    entry'.writeFailed = true := by
  cases h with
  | advance _ =>
    rw [Entry.writeFailed_advance]
    exact hfailed.resolve_right (by simp)
  | fail => rfl
  | register startTime freshPipeline =>
    rw [Entry.writeFailed_cover]
    exact hfailed.resolve_right (by simp)
  | none _ hc => exact hfailed.resolve_right hc

end Entry.Step

/-- W never decreases along calls that do not destroy the story. -/
theorem StoryView.known_run {v : StoryView} {entry : Entry} {calls : List Call}
    (hentry : v.entry = some entry) (hdropped : v.dropped = false)
    (hcalls : Call.dropStory storyId ∉ calls) :
    ∃ entry', (calls.foldl (StoryView.call storyId) v).entry = some entry' ∧
      (calls.foldl (StoryView.call storyId) v).dropped = false ∧ entry.w ≤ entry'.w := by
  induction calls generalizing v entry with
  | nil => exact ⟨entry, hentry, hdropped, le_rfl⟩
  | cons c calls ih =>
    rw [List.mem_cons, not_or] at hcalls
    obtain ⟨entry₁, hcall, hstep⟩ := call_known hentry hdropped (Ne.symm hcalls.1)
    rw [List.foldl_cons, hcall]
    obtain ⟨entry', he, hd, hle⟩ := ih (v := { v with entry := some entry₁ }) rfl hdropped hcalls.2
    exact ⟨entry', he, hd, hstep.w_le.trans hle⟩

/-- **Along calls that neither destroy nor register the story, its entry tracks
what they deliver.** -/
theorem StoryView.tracks_run {v : StoryView} {entry : Entry} {base : ℕ} {I : Set (ℕ × ℕ)}
    {calls : List Call} (hentry : v.entry = some entry) (hdropped : v.dropped = false)
    (htracks : entry.Tracks base I)
    (hcalls : ∀ c ∈ calls, c ≠ .dropStory storyId ∧ ¬ c.Registers storyId) :
    ∃ entry', (calls.foldl (StoryView.call storyId) v).entry = some entry' ∧
      entry'.Tracks base (I ∪ delivered storyId calls) := by
  induction calls generalizing v entry I with
  | nil =>
    refine ⟨entry, hentry, ?_⟩
    exact htracks.add_empty (by simp [delivered])
  | cons c calls ih =>
    obtain ⟨hc, hreg⟩ := hcalls c List.mem_cons_self
    obtain ⟨entry₁, hcall, hstep⟩ := call_known hentry hdropped hc
    rw [List.foldl_cons, hcall]
    obtain ⟨entry', he, ht⟩ := ih (v := { v with entry := some entry₁ }) rfl hdropped
      (hstep.tracks hreg htracks) fun c' hc' => hcalls c' (List.mem_cons_of_mem _ hc')
    refine ⟨entry', he, ?_⟩
    rwa [Set.union_assoc, ← delivered_append, List.singleton_append] at ht

/-- What a whole run without a drop keeps of a story: the intervals delivered and
whether a write of it failed. -/
structure StoryView.Accounts (v : StoryView) (I : Set (ℕ × ℕ)) (failed : Prop) : Prop where
  not_dropped : v.dropped = false
  unknown : v.entry = none → (∀ i ∈ I, i.2 ≤ i.1) ∧ (failed → v.failureHeld = true)
  known : ∀ entry, v.entry = some entry →
    (∃ base, entry.Tracks base I) ∧ (failed → entry.writeFailed = true)

/-- The call adopts no story while a failed write of it is held aside. -/
def FailureCarried (storyId : StoryId) (r : StoryWatermarkRegistry) : Call → Prop
  | .advancePersisted id start stop =>
    id = storyId → start < stop → r.stories.contains storyId = false →
      r.failedBeforeRegistration.contains storyId = false
  | _ => True

instance (r : StoryWatermarkRegistry) : (c : Call) → Decidable (FailureCarried storyId r c)
  | .advancePersisted .. => inferInstanceAs (Decidable (_ → _ → _ → _))
  | .registerStory .. | .dropStory _ | .persistFailed _ | .assignReceipt _ | .holdReceipt ..
  | .releaseReceipt .. | .receiptMerged .. | .markUndelivered _ | .snapshotDirty =>
    inferInstanceAs (Decidable True)

/-- One call on a story without an entry. -/
theorem StoryView.Accounts.call_unknown {v : StoryView} {I : Set (ℕ × ℕ)} {failed : Prop}
    (h : v.Accounts I failed) (hentry : v.entry = none) {c : Call} (hdrop : ¬ c.Drops storyId)
    (hcarried : ∀ start stop, c = .advancePersisted storyId start stop → start < stop →
      v.failureHeld = false) :
    (v.call storyId c).Accounts (I ∪ delivered storyId [c])
      (failed ∨ c = .persistFailed storyId) := by
  obtain ⟨hI, hheld⟩ := h.unknown hentry
  -- a call that leaves the view as it is
  have hsame : (∀ i ∈ delivered storyId [c], i.2 ≤ i.1) → c ≠ .persistFailed storyId →
      v.Accounts (I ∪ delivered storyId [c]) (failed ∨ c = .persistFailed storyId) := by
    intro hempty hfail
    refine ⟨h.not_dropped, fun _ => ⟨?_, ?_⟩, fun entry he => ?_⟩
    · rintro i (hi | hi)
      · exact hI i hi
      · exact hempty i hi
    · rintro (hf | hc)
      · exact hheld hf
      · exact absurd hc hfail
    · rw [hentry] at he
      cases he
  cases c with
  | registerStory id startTime freshPipeline =>
    by_cases hid : id = storyId
    · subst hid
      have hcall : v.call id (.registerStory id startTime freshPipeline) =
          v.register startTime := by
        simp only [StoryView.call, if_true, hentry]
      rw [hcall]
      refine ⟨rfl, fun he => (by cases he), fun entry he => ?_⟩
      cases he
      refine ⟨⟨startTime, Entry.tracks_anchor ?_⟩, ?_⟩
      · rintro i (hi | hi)
        · exact hI i hi
        · simp [delivered] at hi
      · rintro (hf | hc)
        · exact hheld hf
        · cases hc
    · rw [show v.call storyId (.registerStory id startTime freshPipeline) = v from if_neg hid]
      exact hsame (by simp [delivered]) (by simp)
  | dropStory id =>
    rw [show v.call storyId (.dropStory id) = v from if_neg hdrop]
    exact hsame (by simp [delivered]) (by simp)
  | persistFailed id =>
    by_cases hid : id = storyId
    · subst hid
      have hcall : v.call id (.persistFailed id) = { v with failureHeld := true } := by
        simp only [StoryView.call, if_true, hentry]
      rw [hcall]
      refine ⟨h.not_dropped, fun _ => ⟨?_, fun _ => rfl⟩, fun entry he => ?_⟩
      · rintro i (hi | hi)
        · exact hI i hi
        · simp [delivered] at hi
      · rw [hentry] at he
        cases he
    · rw [show v.call storyId (.persistFailed id) = v from if_neg hid]
      exact hsame (by simp [delivered]) (by simpa using hid)
  | advancePersisted id start stop =>
    by_cases hid : id = storyId ∧ start < stop
    · obtain ⟨rfl, hlt⟩ := hid
      have hcall : v.call id (.advancePersisted id start stop) =
          { v with
            entry := some (Entry.advance { anchor := start, w := start } start stop) } := by
        simp only [StoryView.call, true_and, if_pos hlt, hentry, Option.getD_none]
      rw [hcall]
      refine ⟨h.not_dropped, fun he => (by cases he), fun entry he => ?_⟩
      cases he
      refine ⟨⟨start, ?_⟩, ?_⟩
      · rw [Entry.Step.delivered_advance]
        exact (Entry.tracks_anchor hI).advance start stop
      · rintro (hf | hc)
        · have hno := hcarried start stop rfl hlt
          rw [hheld hf] at hno
          cases hno
        · cases hc
    · rw [show v.call storyId (.advancePersisted id start stop) = v from if_neg hid]
      exact hsame (delivered_empty hid) (by simp)
  | markUndelivered reports =>
    rw [show v.call storyId (.markUndelivered reports) = v from if_neg fun hc => hdrop hc.2]
    exact hsame (by simp [delivered]) (by simp)
  | snapshotDirty =>
    rw [show v.call storyId .snapshotDirty = v from if_neg (by simp [h.not_dropped])]
    exact hsame (by simp [delivered]) (by simp)
  | assignReceipt id => exact hsame (by simp [delivered]) (by simp)
  | holdReceipt id receipt => exact hsame (by simp [delivered]) (by simp)
  | releaseReceipt id receipt => exact hsame (by simp [delivered]) (by simp)
  | receiptMerged id receipt => exact hsame (by simp [delivered]) (by simp)

/-- **One call of a run without a drop**, on the registry. -/
theorem accounts_call {r : StoryWatermarkRegistry} {I : Set (ℕ × ℕ)} {failed : Prop}
    (h : (r.view storyId).Accounts I failed) {c : Call} (hdrop : ¬ c.Drops storyId)
    (hcarried : FailureCarried storyId r c) :
    ((r.call c).view storyId).Accounts (I ∪ delivered storyId [c])
      (failed ∨ c = .persistFailed storyId) := by
  rw [view_call]
  cases hentry : (r.view storyId).entry with
  | none =>
    refine h.call_unknown hentry hdrop fun start stop hc hlt => ?_
    subst hc
    refine hcarried rfl hlt ?_
    rw [Std.ExtTreeMap.contains_eq_isSome_getElem?]
    exact (congrArg Option.isSome hentry).trans rfl
  | some entry =>
    have hc : c ≠ .dropStory storyId := fun hc => hdrop (hc ▸ rfl)
    obtain ⟨entry', hcall, hstep⟩ := StoryView.call_known hentry h.not_dropped hc
    obtain ⟨⟨base, htracks⟩, hfailed⟩ := h.known entry hentry
    rw [hcall]
    refine ⟨h.not_dropped, fun he => (by cases he), fun entry'' he => ?_⟩
    cases he
    exact ⟨hstep.tracks_some htracks, fun hf => hstep.writeFailed (hf.imp_left hfailed)⟩

/-- The registry of a process as a transition system. -/
def registry : System StoryWatermarkRegistry Call where
  Initial r := ∃ instanceId, r = fresh instanceId
  step r c := some (r.call c)

/-- **A run without a drop** keeps account of the intervals and the failures. -/
theorem accounts_run {r : StoryWatermarkRegistry} {I : Set (ℕ × ℕ)} {failed : Prop}
    (h : (r.view storyId).Accounts I failed) {calls : List Call}
    (hdrop : ∀ c ∈ calls, ¬ c.Drops storyId)
    (hcarried : registry.StepsMeet (FailureCarried storyId) r calls) :
    ((calls.foldl call r).view storyId).Accounts (I ∪ delivered storyId calls)
      (failed ∨ .persistFailed storyId ∈ calls) := by
  induction calls generalizing r I failed with
  | nil => simpa [delivered] using h
  | cons c calls ih =>
    have hone := accounts_call h (hdrop c List.mem_cons_self) hcarried.1
    have hrest := ih hone (fun c' hc' => hdrop c' (List.mem_cons_of_mem _ hc'))
      (hcarried.2 _ rfl)
    rw [Set.union_assoc, ← delivered_append, List.singleton_append] at hrest
    rw [List.mem_cons, ← or_assoc, eq_comm (b := c)]
    exact hrest

/-! ### The watermark of a story along a run -/

theorem accounts_fresh (instanceId : ℕ) :
    ((fresh instanceId).view storyId).Accounts ∅ False where
  not_dropped := by simp [view, fresh]
  unknown := fun _ => ⟨by simp, False.elim⟩
  known := fun entry he => by simp [view, fresh] at he

/-- The registry of a new process after the calls. -/
def after (instanceId : ℕ) (calls : List Call) : StoryWatermarkRegistry :=
  calls.foldl call (fresh instanceId)

theorem after_append (instanceId : ℕ) (calls calls' : List Call) :
    after instanceId (calls ++ calls') = calls'.foldl call (after instanceId calls) :=
  List.foldl_append

theorem view_foldl_call (r : StoryWatermarkRegistry) (calls : List Call) :
    (calls.foldl call r).view storyId = calls.foldl (StoryView.call storyId) (r.view storyId) := by
  induction calls generalizing r with
  | nil => rfl
  | cons c calls ih => rw [List.foldl_cons, List.foldl_cons, ih, view_call]

/-- The call makes an entry of the story with this anchor: the story registers,
or its first interval is persisted before it does. -/
def Anchors (r : StoryWatermarkRegistry) (storyId : StoryId) (anchor : ℕ) : Call → Prop
  | .registerStory id startTime _ =>
    id = storyId ∧ startTime = anchor ∧
      (r.stories.contains storyId = false ∨ r.dropped.contains storyId = true)
  | .advancePersisted id start stop =>
    id = storyId ∧ start = anchor ∧ start < stop ∧ r.stories.contains storyId = false ∧
      r.dropped.contains storyId = false
  | _ => False

/-- The calls anchor the story and do not destroy it afterwards. -/
def Records (r : StoryWatermarkRegistry) (storyId : StoryId) (anchor : ℕ) : List Call → Prop
  | [] => False
  | c :: calls => Anchors r storyId anchor c ∧ Call.dropStory storyId ∉ calls

/-- The calls after the one that anchors the story register it no further. -/
def RegistersOnce (storyId : StoryId) (calls : List Call) : Prop :=
  ∀ c ∈ calls.tail, ¬ c.Registers storyId

/-- **What W of a story is** after the calls of a process.  `before` is whatever
the process did first and `since` begins with the call that anchors the story. -/
structure WatermarkClosed (instanceId : ℕ) (storyId : StoryId) (calls : List Call) : Prop where
  /-- W is the greatest point the persisted intervals reach from the anchor. -/
  isGreatest : ∀ before since anchor, calls = before ++ since →
    Records (after instanceId before) storyId anchor since → RegistersOnce storyId since →
      IsGreatest {t | Reaches (delivered storyId since) anchor t}
        ((after instanceId calls).getPersisted storyId)
  /-- W depends on the set of the intervals alone. -/
  order_independent : ∀ before since since' anchor, calls = before ++ since →
    Records (after instanceId before) storyId anchor since → RegistersOnce storyId since →
    Records (after instanceId before) storyId anchor since' → RegistersOnce storyId since' →
    delivered storyId since' = delivered storyId since →
      (after instanceId (before ++ since')).getPersisted storyId =
        (after instanceId calls).getPersisted storyId
  /-- W never decreases, registrations included. -/
  monotone : ∀ before since later anchor, calls = before ++ since ++ later →
    Records (after instanceId before) storyId anchor since → Call.dropStory storyId ∉ later →
      (after instanceId (before ++ since)).getPersisted storyId ≤
        (after instanceId calls).getPersisted storyId
  /-- W passes no tick that no persisted interval covers. -/
  covered : ∀ before since anchor, calls = before ++ since →
    Records (after instanceId before) storyId anchor since → RegistersOnce storyId since →
    ∀ tick, anchor ≤ tick → tick < (after instanceId calls).getPersisted storyId →
      ∃ i ∈ delivered storyId since, i.1 ≤ tick ∧ tick < i.2
  /-- A registration moves W of a known story only to its start, with a fresh
  pipeline, after no failed write and with every persisted interval below W. -/
  covers_gap : ∀ before startTime freshPipeline,
    calls = before ++ [.registerStory storyId startTime freshPipeline] →
    (∀ c ∈ before, ¬ c.Drops storyId) →
    (after instanceId before).stories.contains storyId = true →
    (after instanceId calls).getPersisted storyId ≠
      (after instanceId before).getPersisted storyId →
      (after instanceId calls).getPersisted storyId = startTime ∧
      (after instanceId before).getPersisted storyId < startTime ∧
      freshPipeline = true ∧ Call.persistFailed storyId ∉ before ∧
      ∀ i ∈ delivered storyId before, i.1 < i.2 →
        i.2 ≤ (after instanceId before).getPersisted storyId

theorem getPersisted_eq {r : StoryWatermarkRegistry} {entry : Entry}
    (h : (r.view storyId).entry = some entry) : r.getPersisted storyId = entry.w := by
  have hentry : r.stories[storyId]? = some entry := h
  simp [getPersisted, hentry]

/-- The call that anchors a story makes an entry of it that tracks the call. -/
theorem Anchors.tracks {r : StoryWatermarkRegistry} {anchor : ℕ} {c : Call}
    (h : Anchors r storyId anchor c) :
    ∃ entry, ((r.call c).view storyId).entry = some entry ∧
      ((r.call c).view storyId).dropped = false ∧
      entry.Tracks anchor (delivered storyId [c]) := by
  rw [view_call]
  cases c with
  | registerStory id startTime freshPipeline =>
    obtain ⟨rfl, rfl, hnew⟩ := h
    have hcall : (r.view id).call id (.registerStory id startTime freshPipeline) =
        (r.view id).register startTime := by
      simp only [StoryView.call, if_true]
      split
      · next entry hentry hdropped =>
        have hknown : r.stories.contains id = true := by
          rw [Std.ExtTreeMap.contains_eq_isSome_getElem?]
          exact (congrArg Option.isSome hentry).trans rfl
        have hnot : r.dropped.contains id = false := hdropped
        rw [hknown, hnot] at hnew
        simp at hnew
      · rfl
    rw [hcall]
    exact ⟨_, rfl, rfl, Entry.tracks_anchor (by simp [delivered])⟩
  | advancePersisted id start stop =>
    obtain ⟨rfl, rfl, hlt, hunknown, hdropped⟩ := h
    have hentry : (r.view id).entry = none := by
      rw [Std.ExtTreeMap.contains_eq_isSome_getElem?, Option.isSome_eq_false_iff,
        Option.isNone_iff_eq_none] at hunknown
      exact hunknown
    refine ⟨Entry.advance { anchor := start, w := start } start stop, ?_, ?_, ?_⟩
    · simp only [StoryView.call, true_and, if_pos hlt, hentry, Option.getD_none]
    · simp only [StoryView.call, true_and, if_pos hlt]
      exact hdropped
    · rw [Entry.Step.delivered_advance]
      have htracks : Entry.Tracks { anchor := start, w := start } start ∅ :=
        Entry.tracks_anchor (by simp)
      simpa using htracks.advance start stop
  | dropStory _ | persistFailed _ | assignReceipt _ | holdReceipt _ _ | releaseReceipt _ _
  | receiptMerged _ _ | markUndelivered _ | snapshotDirty => exact absurd h id

/-- While the story is recorded it has an entry. -/
theorem Records.known {r : StoryWatermarkRegistry} {anchor : ℕ} {calls : List Call}
    (h : Records r storyId anchor calls) :
    ∃ entry, ((calls.foldl call r).view storyId).entry = some entry ∧
      ((calls.foldl call r).view storyId).dropped = false := by
  cases calls with
  | nil => exact absurd h id
  | cons c calls =>
    obtain ⟨entry, hentry, hdropped, -⟩ := h.1.tracks
    obtain ⟨entry', hentry', hdropped', -⟩ := StoryView.known_run hentry hdropped h.2
    rw [List.foldl_cons, view_foldl_call]
    exact ⟨entry', hentry', hdropped'⟩

/-- **While the story is recorded and not registered again, its entry tracks the
intervals delivered.** -/
theorem Records.tracks {r : StoryWatermarkRegistry} {anchor : ℕ} {calls : List Call}
    (h : Records r storyId anchor calls) (honce : RegistersOnce storyId calls) :
    ∃ entry, ((calls.foldl call r).view storyId).entry = some entry ∧
      entry.Tracks anchor (delivered storyId calls) := by
  cases calls with
  | nil => exact absurd h id
  | cons c calls =>
    obtain ⟨entry, hentry, hdropped, htracks⟩ := h.1.tracks
    have hquiet : ∀ c' ∈ calls, c' ≠ .dropStory storyId ∧ ¬ c'.Registers storyId :=
      fun c' hc' => ⟨fun heq => h.2 (heq ▸ hc'), honce c' hc'⟩
    obtain ⟨entry', hentry', htracks'⟩ :=
      StoryView.tracks_run hentry hdropped htracks hquiet
    rw [List.foldl_cons, view_foldl_call]
    rw [← delivered_append, List.singleton_append] at htracks'
    exact ⟨entry', hentry', htracks'⟩

theorem Records.isGreatest {instanceId anchor : ℕ} {before since : List Call}
    (h : Records (after instanceId before) storyId anchor since)
    (honce : RegistersOnce storyId since) :
    IsGreatest {t | Reaches (delivered storyId since) anchor t}
      ((after instanceId (before ++ since)).getPersisted storyId) := by
  obtain ⟨entry, hentry, htracks⟩ := h.tracks honce
  rw [after_append, getPersisted_eq hentry]
  exact htracks.isGreatest

/-- **The watermark is the closure of the persisted intervals, and no
registration moves it past a failed write**, in every run that adopts no story
while a failed write of it is held aside. -/
theorem watermarkClosed_of_failureCarried (instanceId : ℕ) (storyId : StoryId)
    (calls : List Call)
    (hcarried : registry.StepsMeet (FailureCarried storyId) (fresh instanceId) calls) :
    WatermarkClosed instanceId storyId calls where
  isGreatest := by
    rintro before since anchor rfl hrec honce
    exact hrec.isGreatest honce
  order_independent := by
    rintro before since since' anchor rfl hrec honce hrec' honce' hsame
    have h := hrec.isGreatest honce
    have h' := hrec'.isGreatest honce'
    rw [hsame] at h'
    exact h'.unique h
  monotone := by
    rintro before since later anchor rfl hrec hlater
    obtain ⟨entry, hentry, hdropped⟩ := hrec.known
    obtain ⟨entry', hentry', -, hle⟩ := StoryView.known_run hentry hdropped hlater
    rw [← view_foldl_call] at hentry'
    rw [after_append, after_append, after_append, getPersisted_eq hentry,
      getPersisted_eq hentry']
    exact hle
  covered := by
    rintro before since anchor rfl hrec honce tick hle hlt
    exact (hrec.isGreatest honce).1.covered hle hlt
  covers_gap := by
    rintro before startTime freshPipeline rfl hdrop hknown hmoved
    have hacc := accounts_run (accounts_fresh instanceId) hdrop hcarried.of_append
    rw [Set.empty_union, false_or] at hacc
    obtain ⟨entry, hentry⟩ := Option.isSome_iff_exists.mp
      (Std.ExtTreeMap.contains_eq_isSome_getElem?.symm.trans hknown)
    obtain ⟨⟨base, htracks⟩, hfailed⟩ := hacc.known entry hentry
    have hnext : ((after instanceId
        (before ++ [.registerStory storyId startTime freshPipeline])).view storyId).entry =
        some (entry.cover startTime freshPipeline) := by
      rw [after_append, List.foldl_cons, List.foldl_nil, view_call]
      have he : ((after instanceId before).view storyId).entry = some entry := hentry
      have hd : ((after instanceId before).view storyId).dropped = false := hacc.not_dropped
      simp only [StoryView.call, if_true, he, hd]
    rw [getPersisted_eq hentry, getPersisted_eq hnext] at hmoved ⊢
    rcases Entry.cover_cases entry startTime freshPipeline with
      hsame | ⟨hlt, hpipe, hwrite, hempty, hcover⟩
    · exact absurd (congrArg Entry.w hsame) hmoved
    · refine ⟨congrArg Entry.w hcover, hlt, hpipe, fun hmem => ?_, fun i hi hi' => ?_⟩
      · rw [hfailed hmem] at hwrite
        cases hwrite
      · exact htracks.le_of_isEmpty hempty hi hi'

/-- Two windows of a story persisted out of order after a failed write, and the
story registered again. -/
theorem watermarkClosed_outOfOrder :
    registry.StepsMeet (FailureCarried 7) (fresh 1)
        [.persistFailed 7, .registerStory 7 10 true, .advancePersisted 7 20 30,
          .advancePersisted 7 10 20, .registerStory 7 100 true] ∧
      WatermarkClosed 1 7
        [.persistFailed 7, .registerStory 7 10 true, .advancePersisted 7 20 30,
          .advancePersisted 7 10 20, .registerStory 7 100 true] := by
  have hmeet : registry.StepsMeet (FailureCarried 7) (fresh 1)
      [.persistFailed 7, .registerStory 7 10 true, .advancePersisted 7 20 30,
        .advancePersisted 7 10 20, .registerStory 7 100 true] :=
    System.stepsMeet_of_check (by decide +kernel)
  exact ⟨hmeet, watermarkClosed_of_failureCarried 1 7 _ hmeet⟩

/-- **A story adopted after a failed write forgets the failure**: its first
persisted interval makes an entry that does not carry it, and a registration
then moves W over the gap that holds the events that were never written. -/
theorem adopted_story_forgets_failure :
    ¬ WatermarkClosed 1 7
      [.persistFailed 7, .advancePersisted 7 10 20, .registerStory 7 0 true,
        .registerStory 7 100 true] := by
  intro h
  have hgap := h.covers_gap
    [.persistFailed 7, .advancePersisted 7 10 20, .registerStory 7 0 true] 100 true rfl
    (by simp [Call.Drops]) (by decide +kernel) (by decide +kernel)
  exact hgap.2.2.2.1 List.mem_cons_self

end StoryWatermarkRegistry

end ChronoLog
