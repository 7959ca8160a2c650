import ChronoLog.Basic
import ChronoLog.Lib.Transition

/-!
# The grapher's watermark registry

`StoryWatermarkRegistry` keeps, for every story, the persisted watermark W and
the receipts of the chunks that arrived for it.  A receipt is pending from the
arrival of its chunk until the chunk is merged and every window holding one of
its events is written.  A report carries W, the highest receipt assigned to the
story and the pending ones; a keeper reads a receipt not above the highest and
not listed as written.

Times and watermarks are compared and copied, never added to, so they are plain
numbers here.  The receipt counter and the holder counts are the ones the source
increments: they wrap at their widths.

## Main definitions

* `StoryWatermarkRegistry` — the state, with one definition per method of the
  source under the source's name.
* `Call`, `StoryWatermarkRegistry.call` — the methods as the labels of a system.
-/

namespace ChronoLog

/-- What a grapher reports about one story (`ChunkReceipt.h`). -/
structure StoryWatermarkReport where
  watermark : ℕ := 0
  grapherInstance : ℕ := 0
  highestReceipt : ℕ := 0
  pendingReceipts : List ℕ := []
  deriving DecidableEq, Repr

namespace StoryWatermarkRegistry

/-- A story's watermark state. -/
structure Entry where
  anchor : ℕ := 0
  w : ℕ := 0
  /-- An HDF5 write for this story failed at least once (sticky). -/
  writeFailed : Bool := false
  /-- Start and end of the persisted intervals that are not contiguous yet. -/
  pending : OrdMap ℕ ℕ := ∅

/-- The forward pass of `absorbContiguous` over the intervals in their order. -/
def absorbFrom : List (ℕ × ℕ) → Entry → Entry
  | [], entry => entry
  | (start, stop) :: rest, entry =>
    if start > entry.w then entry
    else
      absorbFrom rest
        { entry with
          w := if stop > entry.w then stop else entry.w
          pending := entry.pending.erase start }

/-- Fold every pending interval that touches the prefix into W. -/
def absorbContiguous (entry : Entry) : Entry := absorbFrom entry.pending.toList entry

/-- The state of a pending receipt. -/
structure ReceiptState where
  /-- Chunks holding events of the receipt that are not written yet (`uint32_t`). -/
  holders : ℕ := 0
  /-- Every event of the receipt's chunk went into a holding chunk. -/
  merged : Bool := false
  deriving DecidableEq, Repr

/-- The receipts of a story, kept apart from its `Entry`. -/
structure StoryReceipts where
  lastAssigned : ℕ := 0
  pending : OrdMap ℕ ReceiptState := ∅

end StoryWatermarkRegistry

open StoryWatermarkRegistry

/-- The registry's state. -/
structure StoryWatermarkRegistry where
  /-- Id of this grapher process. -/
  instanceId : ℕ
  /-- The one receipt counter of every story (`uint64_t`). -/
  lastReceipt : ℕ := 0
  stories : OrdMap StoryId Entry := ∅
  receipts : OrdMap StoryId StoryReceipts := ∅
  dirty : OrdSet StoryId := ∅
  /-- Destroyed stories whose drop report has not gone out yet. -/
  dropped : OrdSet StoryId := ∅
  /-- Stories whose window failed to write before they were registered here. -/
  failedBeforeRegistration : OrdSet StoryId := ∅

namespace StoryWatermarkRegistry

/-- A registry as a grapher process starts with it. -/
def fresh (instanceId : ℕ) : StoryWatermarkRegistry := { instanceId }

/-- The part of `registerStory` for a story that has no entry (any more). -/
def registerNew (r : StoryWatermarkRegistry) (storyId : StoryId) (startTime : ℕ) :
    StoryWatermarkRegistry :=
  { r with
    dropped := r.dropped.erase storyId
    failedBeforeRegistration := r.failedBeforeRegistration.erase storyId
    stories := r.stories.insert storyId
      { anchor := startTime, w := startTime
        writeFailed := r.failedBeforeRegistration.contains storyId }
    dirty := r.dirty.insert storyId }

/-- `registerStory`: anchors a story, or covers the idle gap up to its start. -/
def registerStory (r : StoryWatermarkRegistry) (storyId : StoryId) (startTime : ℕ)
    (freshPipeline : Bool) : StoryWatermarkRegistry :=
  match r.stories[storyId]? with
  | some entry =>
    if r.dropped.contains storyId then
      -- a different incarnation under the same id: start it over
      registerNew
        { r with
          stories := r.stories.erase storyId
          receipts := r.receipts.erase storyId
          dropped := r.dropped.erase storyId
          dirty := r.dirty.erase storyId }
        storyId startTime
    else if startTime > entry.w then
      if !freshPipeline || entry.writeFailed || !entry.pending.isEmpty then r
      else
        { r with
          stories := r.stories.insert storyId { entry with w := startTime }
          dirty := r.dirty.insert storyId }
    else r
  | none => registerNew r storyId startTime

/-- `dropStory`: the story was destroyed; report it once more, then forget it. -/
def dropStory (r : StoryWatermarkRegistry) (storyId : StoryId) : StoryWatermarkRegistry :=
  let r := { r with dropped := r.dropped.insert storyId, dirty := r.dirty.insert storyId }
  match r.stories[storyId]? with
  | none => r
  | some entry =>
    { r with
      stories := r.stories.insert storyId { entry with w := kStoryDroppedWatermark }
      receipts := r.receipts.modify storyId fun story => { story with pending := ∅ } }

/-- `persistFailed`: a merged window's HDF5 write failed. -/
def persistFailed (r : StoryWatermarkRegistry) (storyId : StoryId) : StoryWatermarkRegistry :=
  match r.stories[storyId]? with
  | none => { r with failedBeforeRegistration := r.failedBeforeRegistration.insert storyId }
  | some entry =>
    { r with stories := r.stories.insert storyId { entry with writeFailed := true } }

/-- `advancePersisted`: the merged window `[start, stop)` is persisted. -/
def advancePersisted (r : StoryWatermarkRegistry) (storyId : StoryId) (start stop : ℕ) :
    StoryWatermarkRegistry :=
  if stop ≤ start then r
  else
    -- the first persisted interval anchors a story that was never registered
    let entry := r.stories[storyId]?.getD { anchor := start, w := start }
    if stop ≤ entry.w then { r with stories := r.stories.insert storyId entry }
    else
      let kept := match entry.pending[start]? with
        | none => stop
        | some known => if stop > known then stop else known
      let absorbed := absorbContiguous { entry with pending := entry.pending.insert start kept }
      { r with
        stories := r.stories.insert storyId absorbed
        dirty := if absorbed.w ≠ entry.w then r.dirty.insert storyId else r.dirty }

/-- `getPersisted`: the story's W, `0` if it is unknown. -/
def getPersisted (r : StoryWatermarkRegistry) (storyId : StoryId) : ℕ :=
  (r.stories[storyId]?.map Entry.w).getD 0

/-- The number `assignReceipt` gives out next. -/
def nextReceipt (r : StoryWatermarkRegistry) : ℕ := (r.lastReceipt + 1) % 2 ^ 64

/-- `assignReceipt`: a chunk for the story arrived and gets `nextReceipt`. -/
def assignReceipt (r : StoryWatermarkRegistry) (storyId : StoryId) : StoryWatermarkRegistry :=
  let story := r.receipts[storyId]?.getD {}
  { r with
    lastReceipt := r.nextReceipt
    receipts := r.receipts.insert storyId
      { lastAssigned := r.nextReceipt
        -- `emplace` keeps the state of a number that is still pending
        pending := story.pending.insertIfNew r.nextReceipt {} } }

/-- `findPending`: the state of a pending receipt of the story. -/
def findPending (r : StoryWatermarkRegistry) (storyId : StoryId) (receipt : ℕ) :
    Option ReceiptState :=
  (r.receipts[storyId]?).bind fun story => story.pending[receipt]?

/-- Write the state of a pending receipt back. -/
def setPending (r : StoryWatermarkRegistry) (storyId : StoryId) (receipt : ℕ)
    (state : ReceiptState) : StoryWatermarkRegistry :=
  { r with
    receipts := r.receipts.modify storyId fun story =>
      { story with pending := story.pending.insert receipt state } }

/-- `settleIfWritten`, after the receipt's new state is in place. -/
def settleIfWritten (r : StoryWatermarkRegistry) (storyId : StoryId) (receipt : ℕ)
    (state : ReceiptState) : StoryWatermarkRegistry :=
  if !state.merged || state.holders ≠ 0 then r
  else
    { r with
      receipts := r.receipts.modify storyId fun story =>
        { story with pending := story.pending.erase receipt }
      dirty := r.dirty.insert storyId }

/-- `holdReceipt`: a window or salvage chunk now holds events of the receipt. -/
def holdReceipt (r : StoryWatermarkRegistry) (storyId : StoryId) (receipt : ℕ) :
    StoryWatermarkRegistry :=
  match r.findPending storyId receipt with
  | none => r
  | some state =>
    r.setPending storyId receipt { state with holders := (state.holders + 1) % 2 ^ 32 }

/-- `releaseReceipt`: one chunk holding events of the receipt was written. -/
def releaseReceipt (r : StoryWatermarkRegistry) (storyId : StoryId) (receipt : ℕ) :
    StoryWatermarkRegistry :=
  match r.findPending storyId receipt with
  | none => r
  | some state =>
    if state.holders > 0 then
      let state := { state with holders := state.holders - 1 }
      (r.setPending storyId receipt state).settleIfWritten storyId receipt state
    else r

/-- `receiptMerged`: the receipt's chunk is merged and none of its events was
discarded. -/
def receiptMerged (r : StoryWatermarkRegistry) (storyId : StoryId) (receipt : ℕ) :
    StoryWatermarkRegistry :=
  match r.findPending storyId receipt with
  | none => r
  | some state =>
    let state := { state with merged := true }
    (r.setPending storyId receipt state).settleIfWritten storyId receipt state

/-- One report of `markUndelivered`. -/
def markUndeliveredOne (r : StoryWatermarkRegistry) (report : StoryId × StoryWatermarkReport) :
    StoryWatermarkRegistry :=
  if r.stories.contains report.1 then { r with dirty := r.dirty.insert report.1 }
  else if report.2.watermark = kStoryDroppedWatermark then
    { r with dropped := r.dropped.insert report.1, dirty := r.dirty.insert report.1 }
  else r

/-- `markUndelivered`: reports that could not be delivered are marked again. -/
def markUndelivered (r : StoryWatermarkRegistry)
    (reports : List (StoryId × StoryWatermarkReport)) : StoryWatermarkRegistry :=
  reports.foldl markUndeliveredOne r

/-- The report `snapshotDirty` builds for a dirty story, if it builds one. -/
def reportOf (r : StoryWatermarkRegistry) (storyId : StoryId) : Option StoryWatermarkReport :=
  match r.stories[storyId]? with
  | none =>
    if r.dropped.contains storyId then
      some { watermark := kStoryDroppedWatermark, grapherInstance := r.instanceId }
    else none
  | some entry =>
    match r.receipts[storyId]? with
    | none => some { watermark := entry.w, grapherInstance := r.instanceId }
    | some story =>
      some
        { watermark := entry.w
          grapherInstance := r.instanceId
          highestReceipt := story.lastAssigned
          pendingReceipts := story.pending.keys }

/-- The reports of `snapshotDirty`, in the order of their story ids. -/
def dirtyReports (r : StoryWatermarkRegistry) : List (StoryId × StoryWatermarkReport) :=
  r.dirty.toList.filterMap fun storyId => (r.reportOf storyId).map (storyId, ·)

/-- Forget a dropped story, whose report is on its way. -/
def forgetStory (r : StoryWatermarkRegistry) (storyId : StoryId) : StoryWatermarkRegistry :=
  { r with stories := r.stories.erase storyId, receipts := r.receipts.erase storyId }

/-- `snapshotDirty`: builds the reports, clears the dirty set and forgets the
dropped stories. -/
def snapshotDirty (r : StoryWatermarkRegistry) :
    StoryWatermarkRegistry × List (StoryId × StoryWatermarkReport) :=
  let forgotten := r.dropped.toList.foldl forgetStory r
  ({ forgotten with dirty := ∅, dropped := ∅ }, r.dirtyReports)

/-- The methods that change a registry. -/
inductive Call where
  | registerStory (storyId : StoryId) (startTime : ℕ) (freshPipeline : Bool)
  | dropStory (storyId : StoryId)
  | persistFailed (storyId : StoryId)
  | advancePersisted (storyId : StoryId) (start stop : ℕ)
  | assignReceipt (storyId : StoryId)
  | holdReceipt (storyId : StoryId) (receipt : ℕ)
  | releaseReceipt (storyId : StoryId) (receipt : ℕ)
  | receiptMerged (storyId : StoryId) (receipt : ℕ)
  | markUndelivered (reports : List (StoryId × StoryWatermarkReport))
  | snapshotDirty
  deriving Repr

/-- The registry after a call. -/
def call (r : StoryWatermarkRegistry) : Call → StoryWatermarkRegistry
  | .registerStory storyId startTime freshPipeline =>
    r.registerStory storyId startTime freshPipeline
  | .dropStory storyId => r.dropStory storyId
  | .persistFailed storyId => r.persistFailed storyId
  | .advancePersisted storyId start stop => r.advancePersisted storyId start stop
  | .assignReceipt storyId => r.assignReceipt storyId
  | .holdReceipt storyId receipt => r.holdReceipt storyId receipt
  | .releaseReceipt storyId receipt => r.releaseReceipt storyId receipt
  | .receiptMerged storyId receipt => r.receiptMerged storyId receipt
  | .markUndelivered reports => r.markUndelivered reports
  | .snapshotDirty => r.snapshotDirty.1

/-! ### What each call does to the pending receipts -/

variable (r : StoryWatermarkRegistry) (storyId other : StoryId) (receipt number : ℕ)

theorem findPending_congr {r r' : StoryWatermarkRegistry} (h : r'.receipts = r.receipts) :
    r'.findPending other number = r.findPending other number := by
  simp only [findPending, h]

@[simp] theorem receipts_persistFailed : (r.persistFailed storyId).receipts = r.receipts := by
  unfold persistFailed
  split <;> rfl

@[simp] theorem lastReceipt_persistFailed :
    (r.persistFailed storyId).lastReceipt = r.lastReceipt := by
  unfold persistFailed
  split <;> rfl

@[simp] theorem receipts_advancePersisted (start stop : ℕ) :
    (r.advancePersisted storyId start stop).receipts = r.receipts := by
  unfold advancePersisted
  split
  · rfl
  · dsimp only
    split <;> rfl

@[simp] theorem lastReceipt_advancePersisted (start stop : ℕ) :
    (r.advancePersisted storyId start stop).lastReceipt = r.lastReceipt := by
  unfold advancePersisted
  split
  · rfl
  · dsimp only
    split <;> rfl

@[simp] theorem receipts_markUndeliveredOne (report : StoryId × StoryWatermarkReport) :
    (r.markUndeliveredOne report).receipts = r.receipts := by
  unfold markUndeliveredOne
  split
  · rfl
  · split <;> rfl

@[simp] theorem lastReceipt_markUndeliveredOne (report : StoryId × StoryWatermarkReport) :
    (r.markUndeliveredOne report).lastReceipt = r.lastReceipt := by
  unfold markUndeliveredOne
  split
  · rfl
  · split <;> rfl

@[simp] theorem receipts_markUndelivered (reports : List (StoryId × StoryWatermarkReport)) :
    (r.markUndelivered reports).receipts = r.receipts := by
  unfold markUndelivered
  induction reports generalizing r with
  | nil => rfl
  | cons report reports ih => rw [List.foldl_cons, ih, receipts_markUndeliveredOne]

@[simp] theorem lastReceipt_markUndelivered
    (reports : List (StoryId × StoryWatermarkReport)) :
    (r.markUndelivered reports).lastReceipt = r.lastReceipt := by
  unfold markUndelivered
  induction reports generalizing r with
  | nil => rfl
  | cons report reports ih => rw [List.foldl_cons, ih, lastReceipt_markUndeliveredOne]

@[simp] theorem receipts_registerNew (startTime : ℕ) :
    (r.registerNew storyId startTime).receipts = r.receipts := rfl

@[simp] theorem lastReceipt_registerNew (startTime : ℕ) :
    (r.registerNew storyId startTime).lastReceipt = r.lastReceipt := rfl

/-- Registering a story forgets its receipts exactly when it finds an entry of
the id and a drop that was not reported yet. -/
theorem receipts_registerStory (startTime : ℕ) (freshPipeline : Bool) :
    (r.registerStory storyId startTime freshPipeline).receipts =
      if r.stories.contains storyId ∧ r.dropped.contains storyId then r.receipts.erase storyId
      else r.receipts := by
  unfold registerStory
  rw [Std.ExtTreeMap.contains_eq_isSome_getElem?]
  cases r.stories[storyId]? with
  | none => simp
  | some entry =>
    by_cases hd : r.dropped.contains storyId = true
    · simp [hd]
    · simp only [hd, Bool.false_eq_true, if_false, and_false]
      split
      · split <;> rfl
      · rfl

@[simp] theorem lastReceipt_registerStory (startTime : ℕ) (freshPipeline : Bool) :
    (r.registerStory storyId startTime freshPipeline).lastReceipt = r.lastReceipt := by
  unfold registerStory
  split
  · split
    · rfl
    · split
      · split <;> rfl
      · rfl
  · rfl

theorem findPending_registerStory (startTime : ℕ) (freshPipeline : Bool) :
    (r.registerStory storyId startTime freshPipeline).findPending other number =
      if (r.stories.contains storyId ∧ r.dropped.contains storyId) ∧ storyId = other then none
      else r.findPending other number := by
  simp only [findPending, receipts_registerStory]
  by_cases h : r.stories.contains storyId ∧ r.dropped.contains storyId
  · rw [if_pos h]
    by_cases ho : storyId = other
    · rw [if_pos ⟨h, ho⟩, ho, Std.ExtTreeMap.getElem?_erase_self, Option.bind_none]
    · rw [if_neg (fun hc => ho hc.2), Std.ExtTreeMap.getElem?_erase]
      simp [ho]
  · rw [if_neg h, if_neg (fun hc => h hc.1)]

@[simp] theorem lastReceipt_dropStory :
    (r.dropStory storyId).lastReceipt = r.lastReceipt := by
  unfold dropStory
  dsimp only
  split <;> rfl

/-- A drop clears the pending receipts of the story if it has an entry. -/
theorem findPending_dropStory :
    (r.dropStory storyId).findPending other number =
      if r.stories.contains storyId ∧ storyId = other then none
      else r.findPending other number := by
  unfold dropStory findPending
  dsimp only
  rw [Std.ExtTreeMap.contains_eq_isSome_getElem?]
  cases r.stories[storyId]? with
  | none => simp
  | some entry =>
    dsimp only
    rw [Std.ExtTreeMap.getElem?_modify]
    by_cases ho : storyId = other
    · subst ho
      cases r.receipts[storyId]? <;> simp
    · simp [ho]

@[simp] theorem lastReceipt_assignReceipt :
    (r.assignReceipt storyId).lastReceipt = r.nextReceipt := rfl

theorem findPending_assignReceipt :
    (r.assignReceipt storyId).findPending other number =
      if storyId = other ∧ r.nextReceipt = number ∧ r.findPending other number = none then some {}
      else r.findPending other number := by
  unfold assignReceipt findPending
  dsimp only
  rw [Std.ExtTreeMap.getElem?_insert]
  by_cases ho : storyId = other
  · subst ho
    rw [if_pos (by simp), Option.bind_some, Std.ExtTreeMap.getElem?_insertIfNew]
    cases h : r.receipts[storyId]? with
    | none => simp
    | some story =>
      simp only [Option.getD_some, Option.bind_some, Std.LawfulEqOrd.compare_eq_iff_eq,
        Std.ExtTreeMap.mem_iff_isSome_getElem?]
      by_cases hn : r.nextReceipt = number
      · subst hn
        cases story.pending[r.nextReceipt]? <;> simp
      · simp [hn]
  · simp [ho]

@[simp] theorem lastReceipt_setPending (state : ReceiptState) :
    (r.setPending storyId receipt state).lastReceipt = r.lastReceipt := rfl

theorem findPending_setPending (state : ReceiptState) :
    (r.setPending storyId receipt state).findPending other number =
      if (storyId = other ∧ receipt = number) ∧ r.receipts.contains storyId then some state
      else r.findPending other number := by
  unfold setPending findPending
  dsimp only
  rw [Std.ExtTreeMap.getElem?_modify, Std.ExtTreeMap.contains_eq_isSome_getElem?]
  by_cases ho : storyId = other
  · subst ho
    cases r.receipts[storyId]? with
    | none => simp
    | some story =>
      simp only [Std.ReflCmp.compare_self, if_true, Option.map_some, Option.bind_some]
      rw [Std.ExtTreeMap.getElem?_insert]
      simp
  · simp [ho]

@[simp] theorem lastReceipt_settleIfWritten (state : ReceiptState) :
    (r.settleIfWritten storyId receipt state).lastReceipt = r.lastReceipt := by
  unfold settleIfWritten
  split <;> rfl

theorem findPending_settleIfWritten (state : ReceiptState) :
    (r.settleIfWritten storyId receipt state).findPending other number =
      if (storyId = other ∧ receipt = number) ∧ state.merged = true ∧ state.holders = 0 then none
      else r.findPending other number := by
  unfold settleIfWritten
  split
  · next h =>
    rw [if_neg]
    rintro ⟨-, hm, hh⟩
    simp [hm, hh] at h
  · next h =>
    simp only [Bool.or_eq_true, Bool.not_eq_true', decide_eq_true_eq, not_or, not_not,
      Bool.not_eq_false] at h
    unfold findPending
    dsimp only
    rw [Std.ExtTreeMap.getElem?_modify]
    by_cases ho : storyId = other
    · subst ho
      cases r.receipts[storyId]? with
      | none => simp
      | some story =>
        simp only [Std.ReflCmp.compare_self, if_true, Option.map_some, Option.bind_some]
        rw [Std.ExtTreeMap.getElem?_erase]
        simp [h]
    · simp [ho]

theorem lastReceipt_foldl_forgetStory (ids : List StoryId) :
    (ids.foldl forgetStory r).lastReceipt = r.lastReceipt := by
  induction ids generalizing r with
  | nil => rfl
  | cons id ids ih => rw [List.foldl_cons, ih]; rfl

theorem findPending_foldl_forgetStory (ids : List StoryId) :
    (ids.foldl forgetStory r).findPending other number =
      if other ∈ ids then none else r.findPending other number := by
  induction ids generalizing r with
  | nil => simp
  | cons id ids ih =>
    have hone : (r.forgetStory id).findPending other number =
        if id = other then none else r.findPending other number := by
      unfold forgetStory findPending
      dsimp only
      rw [Std.ExtTreeMap.getElem?_erase]
      by_cases ho : id = other <;> simp [ho]
    rw [List.foldl_cons, ih, hone]
    by_cases ho : id = other
    · simp [ho]
    · simp [ho, Ne.symm ho]

@[simp] theorem lastReceipt_snapshotDirty : r.snapshotDirty.1.lastReceipt = r.lastReceipt :=
  lastReceipt_foldl_forgetStory r _

/-- A snapshot forgets the receipts of the stories whose drop it reports. -/
theorem findPending_snapshotDirty :
    r.snapshotDirty.1.findPending other number =
      if r.dropped.contains other then none else r.findPending other number := by
  have h := findPending_foldl_forgetStory r other number r.dropped.toList
  simp only [Std.ExtTreeSet.mem_toList, Std.ExtTreeSet.mem_iff_contains] at h
  exact h

/-- A report of the snapshot is the report of a story. -/
theorem reportOf_of_mem_dirtyReports {report : StoryWatermarkReport}
    (h : (storyId, report) ∈ r.dirtyReports) : r.reportOf storyId = some report := by
  obtain ⟨id, -, hid⟩ := List.mem_filterMap.mp h
  obtain ⟨rep, hrep, heq⟩ := Option.map_eq_some_iff.mp hid
  cases heq
  exact hrep

/-- **What a report that is not a drop says**: it lists the story's pending
receipts, every one of them. -/
theorem mem_pendingReceipts_of_reportOf {report : StoryWatermarkReport}
    (h : r.reportOf storyId = some report) (hw : report.watermark ≠ kStoryDroppedWatermark) :
    number ∈ report.pendingReceipts ↔ (r.findPending storyId number).isSome := by
  unfold reportOf at h
  cases hs : r.stories[storyId]? with
  | none =>
    simp only [hs] at h
    split at h
    · rw [← Option.some.inj h] at hw
      exact absurd rfl hw
    · cases h
  | some entry =>
    simp only [hs] at h
    cases hr : r.receipts[storyId]? with
    | none =>
      simp only [hr, Option.some.injEq] at h
      simp [← h, findPending, hr]
    | some story =>
      simp only [hr, Option.some.injEq] at h
      simp [← h, findPending, hr, Std.ExtTreeMap.mem_keys]

/-- A story with a pending receipt has a receipt record. -/
theorem contains_of_findPending {state : ReceiptState}
    (h : r.findPending storyId receipt = some state) : r.receipts.contains storyId = true := by
  rw [Std.ExtTreeMap.contains_eq_isSome_getElem?]
  obtain ⟨story, hstory, -⟩ := Option.bind_eq_some_iff.mp h
  rw [hstory, Option.isSome_some]

end StoryWatermarkRegistry

end ChronoLog
