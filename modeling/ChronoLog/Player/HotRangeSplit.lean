import ChronoLog.Keeper.RetentionStore

/-!
# How a replay splits between the archive and the keepers

The player asks every keeper of the story for the range, splits the range at a
boundary, and merges what the archive holds below it with what the keepers
served.

## Main definitions

* `splitHotRange`, `planReplay` — the split of the range and what the player
  does with it.
* `mergeReplayEvents` — one ascending series with each event once.
* `replayRange` — the reply to a replay, from the keepers' answers and the
  archive.

## Main results

* `mem_replayRange_iff` — **which events a reply holds**: those the archive holds
  below the boundary, those served unconfirmed, and those served at or above it.
* `pairwise_mergeReplayEvents` — a reply holds each event once and in order.
-/

namespace ChronoLog

open KeeperChunkRetentionStore

/-- Where a replay splits between the archive and the story's keepers. -/
structure HotRangeSplit where
  boundary : ℕ := 0
  hotEvents : List LogEvent := []
  /-- The hot side reaches back to the start: no archive read is needed. -/
  complete : Bool := false
  deriving DecidableEq, Repr

/-- What the player does with the rest of the replay. -/
structure ReplayPlan where
  archiveNeeded : Bool := false
  archiveEnd : ℕ := 0
  complete : Bool := true
  deriving DecidableEq, Repr

/-- `planReplay`. -/
def planReplay (split : HotRangeSplit) (endTime : ℕ) (allKeepersAnswered anyTruncated : Bool) :
    ReplayPlan :=
  if !allKeepersAnswered then
    { archiveNeeded := true, archiveEnd := endTime, complete := false }
  else
    { archiveNeeded := !split.complete, archiveEnd := split.boundary, complete := !anyTruncated }

/-- The highest watermark a keeper reports. -/
def highestWatermark (responses : List HotRangeResponse) : ℕ :=
  responses.foldl (fun w response => if response.knownW > w then response.knownW else w) 0

/-- The lowest hot floor a keeper reports. -/
def lowestFloor (responses : List HotRangeResponse) : ℕ :=
  responses.foldl (fun f response => if response.hotFloor < f then response.hotFloor else f)
    (2 ^ 64 - 1)

/-- The boundary of the split. -/
def boundaryOf (responses : List HotRangeResponse) (endTime : ℕ) : ℕ :=
  min (if highestWatermark responses > 0 then highestWatermark responses
    else lowestFloor responses) endTime

/-- Add events to a map by their sequences; the first of a sequence stays. -/
def emplaceAll (merged : OrdMap EventSequence LogEvent) (es : List LogEvent) :
    OrdMap EventSequence LogEvent :=
  es.foldl (fun merged e => merged.insertIfNew e.sequence e) merged

/-- The keepers' events at or above the boundary and the unconfirmed ones. -/
def mergeHot (boundary : ℕ) (responses : List HotRangeResponse) :
    OrdMap EventSequence LogEvent :=
  responses.foldl
    (fun merged response =>
      emplaceAll (emplaceAll merged response.unconfirmedEvents)
        (response.events.filter fun e => boundary ≤ e.time))
    ∅

/-- `splitHotRange`. -/
def splitHotRange (responses : List HotRangeResponse) (startTime endTime : ℕ) : HotRangeSplit :=
  let boundary := boundaryOf responses endTime
  { boundary
    hotEvents := (mergeHot boundary responses).toList.map Prod.snd
    complete := decide (boundary ≤ startTime) }

/-- `mergeReplayEvents`: one ascending series with each event once. -/
def mergeReplayEvents (archived hot : List LogEvent) : List LogEvent :=
  SortedList.sortUnique LogEvent.sequence (archived ++ hot)

/-- The reply to a replay of `[startTime, endTime)` of a story, from the keepers'
answers and the events the archive holds. -/
def replayRange (storyId : StoryId) (archive : List LogEvent) (responses : List HotRangeResponse)
    (startTime endTime : ℕ) : ReplayPlan × List LogEvent :=
  let split := splitHotRange responses startTime endTime
  let plan := planReplay split endTime (responses.all (·.answered))
    (responses.any (·.truncated))
  let archived :=
    if plan.archiveNeeded then
      archive.filter fun e =>
        e.storyId = storyId ∧ startTime ≤ e.time ∧ e.time < plan.archiveEnd
    else []
  (plan, mergeReplayEvents archived split.hotEvents)

/-! ### The boundary -/

private theorem foldl_max_spec (l : List HotRangeResponse) (w : ℕ) :
    (∀ response ∈ l,
        response.knownW ≤ l.foldl (fun w r => if r.knownW > w then r.knownW else w) w) ∧
      w ≤ l.foldl (fun w r => if r.knownW > w then r.knownW else w) w ∧
      (l.foldl (fun w r => if r.knownW > w then r.knownW else w) w = w ∨
        ∃ response ∈ l,
          response.knownW = l.foldl (fun w r => if r.knownW > w then r.knownW else w) w) := by
  induction l generalizing w with
  | nil => exact ⟨(fun _ h => by cases h), Nat.le_refl w, Or.inl rfl⟩
  | cons r l ih =>
    rw [List.foldl_cons]
    obtain ⟨hle, hbase, hcase⟩ := ih (if r.knownW > w then r.knownW else w)
    have hr : r.knownW ≤ if r.knownW > w then r.knownW else w := by split <;> omega
    have hw : w ≤ if r.knownW > w then r.knownW else w := by split <;> omega
    refine ⟨fun response hmem => ?_, Nat.le_trans hw hbase, ?_⟩
    · rcases List.mem_cons.mp hmem with rfl | hmem
      · exact Nat.le_trans hr hbase
      · exact hle response hmem
    · rcases hcase with heq | ⟨response, hmem, heq⟩
      · by_cases hgt : r.knownW > w
        · right
          refine ⟨r, List.mem_cons_self, ?_⟩
          rw [heq, if_pos hgt]
        · left
          rw [heq, if_neg hgt]
      · exact Or.inr ⟨response, List.mem_cons_of_mem r hmem, heq⟩

private theorem foldl_min_spec (l : List HotRangeResponse) (f : ℕ) :
    (∀ response ∈ l,
        l.foldl (fun f r => if r.hotFloor < f then r.hotFloor else f) f ≤ response.hotFloor) ∧
      l.foldl (fun f r => if r.hotFloor < f then r.hotFloor else f) f ≤ f ∧
      (l.foldl (fun f r => if r.hotFloor < f then r.hotFloor else f) f = f ∨
        ∃ response ∈ l,
          response.hotFloor = l.foldl (fun f r => if r.hotFloor < f then r.hotFloor else f) f) := by
  induction l generalizing f with
  | nil => exact ⟨(fun _ h => by cases h), Nat.le_refl f, Or.inl rfl⟩
  | cons r l ih =>
    rw [List.foldl_cons]
    obtain ⟨hle, hbase, hcase⟩ := ih (if r.hotFloor < f then r.hotFloor else f)
    have hr : (if r.hotFloor < f then r.hotFloor else f) ≤ r.hotFloor := by split <;> omega
    have hf : (if r.hotFloor < f then r.hotFloor else f) ≤ f := by split <;> omega
    refine ⟨fun response hmem => ?_, Nat.le_trans hbase hf, ?_⟩
    · rcases List.mem_cons.mp hmem with rfl | hmem
      · exact Nat.le_trans hbase hr
      · exact hle response hmem
    · rcases hcase with heq | ⟨response, hmem, heq⟩
      · by_cases hlt : r.hotFloor < f
        · right
          refine ⟨r, List.mem_cons_self, ?_⟩
          rw [heq, if_pos hlt]
        · left
          rw [heq, if_neg hlt]
      · exact Or.inr ⟨response, List.mem_cons_of_mem r hmem, heq⟩

variable {responses : List HotRangeResponse} {endTime t : ℕ}

theorem lt_highestWatermark_iff :
    t < highestWatermark responses ↔ ∃ response ∈ responses, t < response.knownW := by
  obtain ⟨hle, -, hcase⟩ := foldl_max_spec responses 0
  constructor
  · intro h
    rcases hcase with heq | ⟨response, hmem, heq⟩
    · unfold highestWatermark at h
      omega
    · refine ⟨response, hmem, ?_⟩
      rw [heq]
      exact h
  · rintro ⟨response, hmem, hlt⟩
    exact Nat.lt_of_lt_of_le hlt (hle response hmem)

theorem lt_lowestFloor_iff (ht : t < 2 ^ 64 - 1) :
    t < lowestFloor responses ↔ ∀ response ∈ responses, t < response.hotFloor := by
  obtain ⟨hle, -, hcase⟩ := foldl_min_spec responses (2 ^ 64 - 1)
  constructor
  · intro h response hmem
    exact Nat.lt_of_lt_of_le h (hle response hmem)
  · intro h
    unfold lowestFloor
    rcases hcase with heq | ⟨response, hmem, heq⟩
    · rw [heq]
      exact ht
    · rw [← heq]
      exact h response hmem

/-- **What lies below the boundary**: what is below a watermark that a keeper
reports, or, where no keeper reports one, what is older than every floor. -/
theorem lt_boundaryOf_iff (hlt : t < endTime) (ht : t < 2 ^ 64 - 1) :
    t < boundaryOf responses endTime ↔
      (∃ response ∈ responses, t < response.knownW) ∨
        (∀ response ∈ responses, response.knownW = 0) ∧
          ∀ response ∈ responses, t < response.hotFloor := by
  unfold boundaryOf
  rw [Nat.lt_min]
  have hzero : highestWatermark responses > 0 ↔ ∃ response ∈ responses, 0 < response.knownW :=
    lt_highestWatermark_iff
  by_cases hw : highestWatermark responses > 0
  · rw [if_pos hw, lt_highestWatermark_iff]
    obtain ⟨response, hmem, hpos⟩ := hzero.mp hw
    constructor
    · exact fun h => Or.inl h.1
    · rintro (h | ⟨hnone, -⟩)
      · exact ⟨h, hlt⟩
      · have := hnone response hmem
        omega
  · rw [if_neg hw, lt_lowestFloor_iff ht]
    have hnone : ∀ response ∈ responses, response.knownW = 0 := by
      intro response hmem
      by_contra hne
      exact hw (hzero.mpr ⟨response, hmem, by omega⟩)
    constructor
    · exact fun h => Or.inr ⟨hnone, h.1⟩
    · rintro (⟨response, hmem, hpos⟩ | ⟨-, h⟩)
      · have := hnone response hmem
        omega
      · exact ⟨h, hlt⟩

/-! ### The reply -/

/-- The map holds each event under its sequence. -/
def KeyedBySequence (merged : OrdMap EventSequence LogEvent) : Prop :=
  ∀ (sequence : EventSequence) (e : LogEvent), merged[sequence]? = some e → e.sequence = sequence

theorem emplaceAll_spec {merged : OrdMap EventSequence LogEvent} (h : KeyedBySequence merged)
    (es : List LogEvent) :
    KeyedBySequence (emplaceAll merged es) ∧
      ∀ sequence, sequence ∈ emplaceAll merged es ↔
        sequence ∈ merged ∨ ∃ e ∈ es, e.sequence = sequence := by
  unfold emplaceAll
  induction es generalizing merged with
  | nil => exact ⟨h, fun sequence => by simp⟩
  | cons e es ih =>
    rw [List.foldl_cons]
    have hkeyed : KeyedBySequence (merged.insertIfNew e.sequence e) := by
      intro sequence x hx
      rw [Std.ExtTreeMap.getElem?_insertIfNew] at hx
      split at hx
      · next hif =>
        cases hx
        exact Std.LawfulEqOrd.eq_of_compare hif.1
      · exact h sequence x hx
    obtain ⟨hk, hmem⟩ := ih hkeyed
    refine ⟨hk, fun sequence => ?_⟩
    rw [hmem, Std.ExtTreeMap.mem_insertIfNew, List.exists_mem_cons_iff,
      Std.LawfulEqOrd.compare_eq_iff_eq]
    tauto

theorem mergeHot_spec (boundary : ℕ) (responses : List HotRangeResponse) :
    KeyedBySequence (mergeHot boundary responses) ∧
      ∀ sequence, sequence ∈ mergeHot boundary responses ↔
        ∃ response ∈ responses, (∃ e ∈ response.unconfirmedEvents, e.sequence = sequence) ∨
          ∃ e ∈ response.events, boundary ≤ e.time ∧ e.sequence = sequence := by
  unfold mergeHot
  have hall : ∀ (l : List HotRangeResponse) (merged : OrdMap EventSequence LogEvent),
      KeyedBySequence merged →
      KeyedBySequence (l.foldl (fun merged response =>
        emplaceAll (emplaceAll merged response.unconfirmedEvents)
          (response.events.filter fun e => boundary ≤ e.time)) merged) ∧
      ∀ sequence, sequence ∈ l.foldl (fun merged response =>
        emplaceAll (emplaceAll merged response.unconfirmedEvents)
          (response.events.filter fun e => boundary ≤ e.time)) merged ↔
        sequence ∈ merged ∨
          ∃ response ∈ l, (∃ e ∈ response.unconfirmedEvents, e.sequence = sequence) ∨
            ∃ e ∈ response.events, boundary ≤ e.time ∧ e.sequence = sequence := by
    intro l
    induction l with
    | nil => exact fun merged h => ⟨h, fun sequence => by simp⟩
    | cons response l ih =>
      intro merged h
      rw [List.foldl_cons]
      obtain ⟨hk₁, hm₁⟩ := emplaceAll_spec h response.unconfirmedEvents
      obtain ⟨hk₂, hm₂⟩ := emplaceAll_spec hk₁ (response.events.filter fun e => boundary ≤ e.time)
      obtain ⟨hk, hm⟩ := ih _ hk₂
      refine ⟨hk, fun sequence => ?_⟩
      rw [hm, hm₂, hm₁, List.exists_mem_cons_iff]
      simp only [List.mem_filter, decide_eq_true_eq, and_assoc, or_assoc]
  obtain ⟨hk, hm⟩ := hall responses ∅ (by intro sequence e h; simp at h)
  refine ⟨hk, fun sequence => ?_⟩
  rw [hm]
  simp

theorem mem_hotEvents_iff (startTime : ℕ) {sequence : EventSequence} :
    sequence ∈ (splitHotRange responses startTime endTime).hotEvents.map LogEvent.sequence ↔
      ∃ response ∈ responses, (∃ e ∈ response.unconfirmedEvents, e.sequence = sequence) ∨
        ∃ e ∈ response.events,
          boundaryOf responses endTime ≤ e.time ∧ e.sequence = sequence := by
  obtain ⟨hk, hm⟩ := mergeHot_spec (boundaryOf responses endTime) responses
  rw [← hm, splitHotRange]
  dsimp only
  rw [List.map_map, List.mem_map]
  constructor
  · rintro ⟨⟨key, e⟩, hmem, heq⟩
    have hget := Std.ExtTreeMap.mem_toList_iff_getElem?_eq_some.mp hmem
    have hkey := hk key e hget
    rw [← heq, Function.comp_apply, hkey, Std.ExtTreeMap.mem_iff_isSome_getElem?, hget]
    rfl
  · intro h
    rw [Std.ExtTreeMap.mem_iff_isSome_getElem?] at h
    obtain ⟨e, he⟩ := Option.isSome_iff_exists.mp h
    exact ⟨(sequence, e), Std.ExtTreeMap.mem_toList_iff_getElem?_eq_some.mpr he, hk sequence e he⟩

/-- A reply holds each event once, in the order of the sequences. -/
theorem pairwise_mergeReplayEvents (archived hot : List LogEvent) :
    (mergeReplayEvents archived hot).Pairwise fun a b => compare a.sequence b.sequence = .lt :=
  SortedList.pairwise_sortUnique LogEvent.sequence _

/-- **Which sequences a reply holds**, once every keeper has answered. -/
theorem mem_replayRange_iff {storyId : StoryId} {archive : List LogEvent} {startTime : ℕ}
    {sequence : EventSequence} (hanswered : responses.all (·.answered) = true) :
    sequence ∈ (replayRange storyId archive responses startTime endTime).2.map
        LogEvent.sequence ↔
      (∃ e ∈ archive, e.storyId = storyId ∧ startTime ≤ e.time ∧
        e.time < boundaryOf responses endTime ∧ e.sequence = sequence) ∨
      ∃ response ∈ responses, (∃ e ∈ response.unconfirmedEvents, e.sequence = sequence) ∨
        ∃ e ∈ response.events,
          boundaryOf responses endTime ≤ e.time ∧ e.sequence = sequence := by
  rw [← mem_hotEvents_iff startTime]
  unfold replayRange mergeReplayEvents planReplay
  simp only [hanswered, Bool.not_true, Bool.false_eq_true, if_false]
  rw [SortedList.mem_map_key_sortUnique, List.map_append, List.mem_append]
  refine or_congr ?_ Iff.rfl
  -- an archive read is skipped only where it could find nothing
  by_cases hb : boundaryOf responses endTime ≤ startTime
  · simp only [splitHotRange, hb, decide_true, Bool.not_true, Bool.false_eq_true, if_false,
      List.map_nil, List.not_mem_nil, false_iff]
    rintro ⟨e, -, -, hstart, hlt, -⟩
    omega
  · simp only [splitHotRange, hb, decide_false, Bool.not_false, if_true, List.mem_map,
      List.mem_filter, decide_eq_true_eq, and_assoc]

end ChronoLog
