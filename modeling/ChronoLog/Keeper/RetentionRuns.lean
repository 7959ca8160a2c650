import ChronoLog.Keeper.RetainedChunks
import ChronoLog.Lib.Transition

/-!
# Runs of the retention store, and the receipt view

Every method of the store runs under its mutex, so a run is a list of calls.
Here the runs are set up, and the first thing that is a matter of whole runs is
settled: what the store knows of a story's receipts.

The store keeps the reports of one grapher instance as a highest receipt and a
set of pending ones, and combines two of them with two filters that are not
symmetric.  What it keeps is nevertheless the join of the reports: a receipt is
settled in the view as soon as one report covered it and did not list it.

## Main definitions

* `StoreCall`, `RetentionStep`, `retention` — the store's methods as a transition
  system.
* `ViewSettles` — the receipt view says that a receipt is written.
* `CoveredBy` — some report covers the receipt and does not list it.
* `ReportsJoin` — the view of a story is the join of its reports.

## Main results

* `viewSettles_mergeReceipts` — **folding in a report is a join**.
* `reports_join_of_not_dropped` — the view is the join of the reports of a run
  that does not drop the story, and a receipt is settled only by a report of its
  own instance.
* `drop_report_is_no_watermark` — a report that drops the story is not joined.
-/

namespace ChronoLog

open KeeperChunkRetentionStore Transition

/-- The methods a running keeper calls on its store, sealing apart. -/
inductive StoreCall where
  | markShipped (storyId : StoryId) (id : ChunkId) (grapherInstance receipt : ℕ)
  | markSendFailed (storyId : StoryId) (id : ChunkId)
  | applyReport (storyId : StoryId) (report : StoryWatermarkReport)
  | freeDurableChunks
  | requeueStalled (maxAge : ℕ)
  | flushUnshippedChunks
  | releaseStoryTail (storyId : StoryId)
  | clearDroppedStory (storyId : StoryId)
  | fetchRange (storyId : StoryId)

namespace StoreCall

/-- The store after the call. -/
def run (s : KeeperChunkRetentionStore) (now : ℕ) : StoreCall → KeeperChunkRetentionStore
  | markShipped storyId id grapherInstance receipt =>
    s.markShipped storyId id grapherInstance receipt now
  | markSendFailed storyId id => s.markSendFailed storyId id now
  | applyReport storyId report => s.applyReport storyId report now
  | freeDurableChunks => s.freeDurableChunks now
  | requeueStalled maxAge => s.requeueStalled maxAge now
  | flushUnshippedChunks => s.flushUnshippedChunks
  | releaseStoryTail storyId => s.releaseStoryTail storyId now
  | clearDroppedStory storyId => s.clearDroppedStory storyId
  | fetchRange storyId => s.afterFetchRange storyId now

/-- The story a drop report destroys on the keeper. -/
def destroys : StoreCall → Option StoryId
  | applyReport storyId report =>
    if report.watermark = kStoryDroppedWatermark then some storyId else none
  | _ => none

end StoreCall

/-- A call on the store, sealing and the events the pipeline drops included. -/
inductive RetentionStep where
  | sealChunk (chunk : StoryChunk)
  | discardEvent (storyId : StoryId) (event : EventSequence)
  | call (c : StoreCall)

namespace RetentionStep

/-- The store after the call.  A pipeline seals a chunk for the chunk's own
story. -/
def run (s : KeeperChunkRetentionStore) (now : ℕ) : RetentionStep → KeeperChunkRetentionStore
  | sealChunk chunk => s.ingestSealedChunk chunk.storyId chunk now
  | discardEvent storyId event => s.eventDiscarded storyId event
  | call c => c.run s now

/-- The report a step applies to the story. -/
def reportFor (storyId : StoryId) : RetentionStep → Option StoryWatermarkReport
  | call (.applyReport id report) => if id = storyId then some report else none
  | _ => none

end RetentionStep

/-- The store of one keeper; a label carries the time of the call. -/
def retention : System KeeperChunkRetentionStore (RetentionStep × ℕ) where
  Initial s := ∃ tailCapacity delay ttl, s = fresh tailCapacity delay ttl
  step s l := some (l.1.run s l.2)

/-- An event of story 7. -/
def eventAt (t : UInt64) : LogEvent :=
  { storyId := 7, eventTime := t, clientId := 1, eventIndex := 0, logRecord := [120] }

/-- A sealed chunk of story 7 with one event. -/
def oneEventChunk (start stop : ℕ) (t : UInt64) : StoryChunk :=
  ((StoryChunk.new 7 start stop).insertEvent (eventAt t)).1

/-- The report covers the receipt of the instance and does not list it. -/
def StoryWatermarkReport.Covers (report : StoryWatermarkReport) (grapherInstance receipt : ℕ) :
    Prop :=
  report.grapherInstance = grapherInstance ∧ receipt ≤ report.highestReceipt ∧
    receipt ∉ report.pendingReceipts

namespace KeeperChunkRetentionStore

theorem shrinks_run (s : KeeperChunkRetentionStore) (now : ℕ) (c : StoreCall) :
    s.Shrinks (c.run s now) := by
  cases c with
  | markShipped storyId id grapherInstance receipt => exact shrinks_updateChunk _ now
  | markSendFailed storyId id => exact shrinks_updateChunk _ now
  | applyReport storyId report => exact shrinks_applyReport report now
  | freeDurableChunks => exact (frees_freeDurableChunks now).toShrinks
  | requeueStalled maxAge => exact shrinks_requeueStalled maxAge now
  | flushUnshippedChunks => exact shrinks_flushUnshippedChunks
  | releaseStoryTail storyId => exact (frees_releaseStoryTail now).toShrinks
  | clearDroppedStory storyId => exact ⟨rfl, fun _ _ => Or.inr rfl⟩
  | fetchRange storyId => exact (frees_afterFetchRange now).toShrinks

/-! ### Folding in a report is a join -/

/-- The story's receipt view says that the receipt of the instance is written. -/
def ViewSettles (story : StoryRetention) (grapherInstance receipt : ℕ) : Prop :=
  grapherInstance = story.reportInstance ∧ receipt ≤ story.highestReceipt ∧
    receipt ∉ story.pendingReceipts

/-- A chunk is settled if it has no receipt, or the view settles its receipt. -/
theorem receiptSettled_iff {story : StoryRetention} {state : ChunkState} :
    receiptSettled story state = true ↔
      state.receipt = 0 ∨ ViewSettles story state.receiptInstance state.receipt := by
  simp [receiptSettled, ViewSettles, and_assoc, ← Std.ExtTreeSet.contains_iff_mem]

variable {story : StoryRetention} {report : StoryWatermarkReport} {grapherInstance receipt : ℕ}

/-- A report of another instance replaces the view. -/
theorem viewSettles_mergeReceipts_of_ne (h : report.grapherInstance ≠ story.reportInstance) :
    ViewSettles (mergeReceipts story report) grapherInstance receipt ↔
      report.Covers grapherInstance receipt := by
  unfold mergeReceipts ViewSettles StoryWatermarkReport.Covers
  rw [if_pos h, eq_comm (a := grapherInstance)]
  simp

/-- **Folding in a report of the view's instance is a join**: what it settles is
what the view settled or the report covers. -/
theorem viewSettles_mergeReceipts (h : report.grapherInstance = story.reportInstance) :
    ViewSettles (mergeReceipts story report) grapherInstance receipt ↔
      ViewSettles story grapherInstance receipt ∨ report.Covers grapherInstance receipt := by
  have hpending : receipt ∈ (mergeReceipts story report).pendingReceipts ↔
      (receipt ∈ story.pendingReceipts ∧
        (report.highestReceipt < receipt ∨ receipt ∈ report.pendingReceipts)) ∨
      (receipt ∈ report.pendingReceipts ∧ story.highestReceipt < receipt) := by
    unfold mergeReceipts
    rw [if_neg (not_not.mpr h)]
    simp
  have hhighest : (mergeReceipts story report).highestReceipt =
      max story.highestReceipt report.highestReceipt := by
    unfold mergeReceipts
    rw [if_neg (not_not.mpr h)]
  have hinstance : (mergeReceipts story report).reportInstance = story.reportInstance := by
    unfold mergeReceipts
    rw [if_neg (not_not.mpr h)]
  unfold ViewSettles StoryWatermarkReport.Covers
  rw [hinstance, hhighest, hpending, h, eq_comm (a := story.reportInstance), ← and_or_left]
  refine and_congr_right fun _ => ?_
  constructor
  · rintro ⟨hle, hnot⟩
    by_cases hs : receipt ≤ story.highestReceipt
    · by_cases hp : receipt ∈ story.pendingReceipts
      · -- listed in the view, so only the report can have settled it
        refine Or.inr ⟨?_, fun hr => hnot (Or.inl ⟨hp, Or.inr hr⟩)⟩
        exact not_lt.mp fun hlt => hnot (Or.inl ⟨hp, Or.inl hlt⟩)
      · exact Or.inl ⟨hs, hp⟩
    · refine Or.inr ⟨by omega, fun hr => hnot (Or.inr ⟨hr, by omega⟩)⟩
  · rintro (⟨hle, hp⟩ | ⟨hle, hp⟩)
    · refine ⟨by omega, ?_⟩
      rintro (⟨hs, -⟩ | ⟨-, hlt⟩)
      · exact hp hs
      · omega
    · refine ⟨by omega, ?_⟩
      rintro (⟨-, hlt | hr⟩ | ⟨hr, -⟩)
      · omega
      · exact hp hr
      · exact hp hr

/-! ### What the methods do to the views -/

/-- The two records agree in what the reports said. -/
structure SameView (story story' : StoryRetention) : Prop where
  knownW : story'.knownW = story.knownW
  reportInstance : story'.reportInstance = story.reportInstance
  highestReceipt : story'.highestReceipt = story.highestReceipt
  pendingReceipts : story'.pendingReceipts = story.pendingReceipts

theorem SameView.refl (story : StoryRetention) : SameView story story := ⟨rfl, rfl, rfl, rfl⟩

theorem SameView.trans {a b c : StoryRetention} (h : SameView a b) (h' : SameView b c) :
    SameView a c :=
  ⟨h'.knownW.trans h.knownW, h'.reportInstance.trans h.reportInstance,
    h'.highestReceipt.trans h.highestReceipt, h'.pendingReceipts.trans h.pendingReceipts⟩

theorem SameView.viewSettles {a b : StoryRetention} (h : SameView a b) :
    ViewSettles b grapherInstance receipt ↔ ViewSettles a grapherInstance receipt := by
  unfold ViewSettles
  rw [h.reportInstance, h.highestReceipt, h.pendingReceipts]

/-- No story's view changes. -/
def KeepsViews (s s' : KeeperChunkRetentionStore) : Prop :=
  ∀ storyId, SameView (s.storyOf storyId) (s'.storyOf storyId)

theorem KeepsViews.refl (s : KeeperChunkRetentionStore) : KeepsViews s s :=
  fun _ => SameView.refl _

theorem KeepsViews.trans {s s' s'' : KeeperChunkRetentionStore} (h : KeepsViews s s')
    (h' : KeepsViews s' s'') : KeepsViews s s'' :=
  fun storyId => (h storyId).trans (h' storyId)

theorem KeepsViews.of_storyRetention_eq {s s' : KeeperChunkRetentionStore}
    (h : s'.storyRetention = s.storyRetention) : KeepsViews s s' := by
  intro storyId
  rw [storyOf, storyOf, h]
  exact SameView.refl _

theorem keepsViews_foldl {α : Type*}
    {f : KeeperChunkRetentionStore → α → KeeperChunkRetentionStore}
    (hf : ∀ s a, KeepsViews s (f s a)) (l : List α) (s : KeeperChunkRetentionStore) :
    KeepsViews s (l.foldl f s) := by
  induction l generalizing s with
  | nil => exact KeepsViews.refl s
  | cons a l ih => exact (hf s a).trans (ih (f s a))

variable {s : KeeperChunkRetentionStore} {storyId other : StoryId}

theorem storyOf_setStory :
    (s.setStory storyId story).storyOf other =
      if storyId = other then story else s.storyOf other := by
  unfold setStory storyOf
  dsimp only
  rw [Std.ExtTreeMap.getElem?_insert]
  by_cases ho : storyId = other <;> simp [ho]

/-- Replacing one record by one with the same view. -/
theorem KeepsViews.of_insert {s' : KeeperChunkRetentionStore}
    (h : s'.storyRetention = s.storyRetention.insert storyId story)
    (hview : SameView (s.storyOf storyId) story) : KeepsViews s s' := by
  intro other
  have hof : s'.storyOf other = (s.setStory storyId story).storyOf other := by
    rw [storyOf, h]
    rfl
  rw [hof, storyOf_setStory]
  split
  · next ho => exact ho ▸ hview
  · exact SameView.refl _

theorem keepsViews_setStory (hview : SameView (s.storyOf storyId) story) :
    KeepsViews s (s.setStory storyId story) :=
  KeepsViews.of_insert rfl hview

theorem keepsViews_maybeFreeChunk (s : KeeperChunkRetentionStore) (storyId : StoryId)
    (id : ChunkId) (now : ℕ) : KeepsViews s (s.maybeFreeChunk storyId id now) := by
  rcases maybeFreeChunk_inv s storyId id now with
    ⟨-, heq⟩ | ⟨story, chunk, state, state', hstory, -, -, hcases⟩
  · rw [heq]
    exact KeepsViews.refl s
  · have hview : ∀ chunks, SameView (s.storyOf storyId) { story with chunks := chunks } := by
      intro chunks
      rw [storyOf_of_getElem? hstory]
      exact ⟨rfl, rfl, rfl, rfl⟩
    rcases hcases with ⟨-, -, -, heq⟩ | ⟨-, -, heq⟩
    · exact KeepsViews.of_insert heq (hview _)
    · exact KeepsViews.of_insert heq (hview _)

theorem keepsViews_maybeFreeChunks (s : KeeperChunkRetentionStore) (storyId : StoryId)
    (now : ℕ) : KeepsViews s (s.maybeFreeChunks storyId now) :=
  keepsViews_foldl (fun s id => keepsViews_maybeFreeChunk s storyId id now) _ s

theorem keepsViews_updateChunk (s : KeeperChunkRetentionStore) (storyId : StoryId)
    (id : ChunkId) (f : ChunkState → ChunkState) (now : ℕ) :
    KeepsViews s (s.updateChunk storyId id f now) := by
  unfold updateChunk
  split
  · exact KeepsViews.refl s
  · next story hstory =>
    split
    · exact KeepsViews.refl s
    · refine KeepsViews.trans (keepsViews_setStory ?_) (keepsViews_maybeFreeChunk _ _ _ now)
      rw [storyOf_of_getElem? hstory]
      exact ⟨rfl, rfl, rfl, rfl⟩

theorem keepsViews_evicted {oldest : EventSequence} (id : ChunkId) (now : ℕ)
    (hstory : s.storyRetention[storyId]? = some story) :
    KeepsViews s (s.evicted storyId story oldest id now) := by
  have hview : ∀ index chunks,
      SameView (s.storyOf storyId) { story with index := index, chunks := chunks } := by
    intro index chunks
    rw [storyOf_of_getElem? hstory]
    exact ⟨rfl, rfl, rfl, rfl⟩
  unfold evicted
  split
  · split
    · dsimp only
      split
      · exact (keepsViews_setStory (hview _ _)).trans (keepsViews_maybeFreeChunk _ _ _ now)
      · exact keepsViews_setStory (hview _ _)
    · exact keepsViews_setStory (hview _ _)
  · exact keepsViews_setStory (hview _ _)

theorem keepsViews_ingestSealedChunk (s : KeeperChunkRetentionStore) (storyId : StoryId)
    (chunk : StoryChunk) (now : ℕ) : KeepsViews s (s.ingestSealedChunk storyId chunk now) := by
  unfold ingestSealedChunk
  dsimp only
  split
  · exact KeepsViews.refl s
  · split
    · exact KeepsViews.refl s
    · have hadopt : KeepsViews s ((s.pruneDropped now).adopt storyId chunk now) :=
        KeepsViews.of_insert rfl ⟨rfl, rfl, rfl, rfl⟩
      refine hadopt.trans (KeepsViews.trans ?_ (KeepsViews.of_storyRetention_eq rfl))
      exact enforceCapacity_induction KeepsViews.refl (fun _ _ _ => KeepsViews.trans)
        (fun _ _ _ id hs _ => keepsViews_evicted id now hs) _ _

theorem keepsViews_markPicked (s : KeeperChunkRetentionStore)
    (p : StoryRetention → RetainedChunk → Bool) (f : ChunkState → ChunkState) :
    KeepsViews s (s.markPicked p f) := by
  intro storyId
  unfold markPicked storyOf
  dsimp only
  rw [Std.ExtTreeMap.getElem?_map]
  cases s.storyRetention[storyId]? with
  | none => exact SameView.refl _
  | some story => exact ⟨rfl, rfl, rfl, rfl⟩

theorem keepsViews_stash (s : KeeperChunkRetentionStore) (chunks : List (ChunkId × StoryChunk)) :
    KeepsViews s (s.stash chunks) :=
  KeepsViews.of_storyRetention_eq rfl

theorem keepsViews_requeueStalled (s : KeeperChunkRetentionStore) (maxAge now : ℕ) :
    KeepsViews s (s.requeueStalled maxAge now) := by
  unfold requeueStalled
  exact (keepsViews_markPicked s _ _).trans (keepsViews_stash _ _)

theorem keepsViews_flushUnshippedChunks (s : KeeperChunkRetentionStore) :
    KeepsViews s s.flushUnshippedChunks := by
  unfold flushUnshippedChunks
  exact (keepsViews_markPicked s _ _).trans (keepsViews_stash _ _)

theorem keepsViews_releaseStoryTail (s : KeeperChunkRetentionStore) (storyId : StoryId)
    (now : ℕ) : KeepsViews s (s.releaseStoryTail storyId now) := by
  unfold releaseStoryTail
  split
  · exact KeepsViews.refl s
  · next story hstory =>
    refine KeepsViews.trans (keepsViews_setStory ?_) (keepsViews_maybeFreeChunks _ _ now)
    rw [storyOf_of_getElem? hstory]
    exact ⟨rfl, rfl, rfl, rfl⟩

theorem keepsViews_afterFetchRange (s : KeeperChunkRetentionStore) (storyId : StoryId)
    (now : ℕ) : KeepsViews s (s.afterFetchRange storyId now) := by
  unfold afterFetchRange
  split
  · exact KeepsViews.refl s
  · next story hstory =>
    refine keepsViews_setStory ?_
    rw [storyOf_of_getElem? hstory]
    exact ⟨rfl, rfl, rfl, rfl⟩

/-- What `applyReport` makes of the record before it frees: the higher watermark,
and the receipts of a report that has an instance. -/
def reported (story : StoryRetention) (report : StoryWatermarkReport) : StoryRetention :=
  let story :=
    if report.watermark < story.knownW then story else { story with knownW := report.watermark }
  if report.grapherInstance ≠ 0 then mergeReceipts story report else story

theorem applyReport_of_ne (h : report.watermark ≠ kStoryDroppedWatermark) (now : ℕ) :
    s.applyReport storyId report now =
      (s.setStory storyId (reported (s.storyOf storyId) report)).maybeFreeChunks storyId now :=
  if_neg h

theorem storyOf_dropStory (now : ℕ) :
    (s.dropStory storyId now).storyOf other = if storyId = other then {} else s.storyOf other := by
  unfold dropStory
  dsimp only
  split
  · next hnone =>
    split
    · next ho =>
      subst ho
      rw [storyOf]
      exact congrArg (Option.getD · {}) hnone
    · rfl
  · unfold storyOf
    dsimp only
    rw [(foldl_dropChunk_frame _ _).1, Std.ExtTreeMap.getElem?_erase]
    by_cases ho : storyId = other <;> simp [ho]

/-- What a report leaves of the record, if there is one. -/
def viewAfter (story : StoryRetention) : Option StoryWatermarkReport → StoryRetention
  | none => story
  | some report =>
    if report.watermark = kStoryDroppedWatermark then {} else reported story report

/-- **What a step does to a story's view**: a report is folded in, a drop starts
the view over, and nothing else touches it. -/
theorem sameView_run (s : KeeperChunkRetentionStore) (now : ℕ) (x : RetentionStep)
    (storyId : StoryId) :
    SameView (viewAfter (s.storyOf storyId) (x.reportFor storyId))
      ((x.run s now).storyOf storyId) := by
  cases x with
  | sealChunk chunk => exact keepsViews_ingestSealedChunk s chunk.storyId chunk now storyId
  | discardEvent id event => exact SameView.refl _
  | call c =>
    cases c with
    | markShipped id chunk grapherInstance receipt =>
      exact keepsViews_updateChunk s id chunk _ now storyId
    | markSendFailed id chunk => exact keepsViews_updateChunk s id chunk _ now storyId
    | freeDurableChunks =>
      exact keepsViews_foldl (fun s id => keepsViews_maybeFreeChunks s id now) _ s storyId
    | requeueStalled maxAge => exact keepsViews_requeueStalled s maxAge now storyId
    | flushUnshippedChunks => exact keepsViews_flushUnshippedChunks s storyId
    | releaseStoryTail id => exact keepsViews_releaseStoryTail s id now storyId
    | clearDroppedStory id => exact SameView.refl _
    | fetchRange id => exact keepsViews_afterFetchRange s id now storyId
    | applyReport id report =>
      change SameView _ ((s.applyReport id report now).storyOf storyId)
      by_cases hdrop : report.watermark = kStoryDroppedWatermark
      · rw [show s.applyReport id report now = s.dropStory id now from if_pos hdrop,
          storyOf_dropStory]
        by_cases hid : id = storyId
        · simp only [RetentionStep.reportFor, if_pos hid, viewAfter, if_pos hdrop]
          exact SameView.refl _
        · simp only [RetentionStep.reportFor, if_neg hid, viewAfter]
          exact SameView.refl _
      · rw [applyReport_of_ne hdrop]
        refine SameView.trans ?_ (keepsViews_maybeFreeChunks _ id now storyId)
        rw [storyOf_setStory]
        by_cases hid : id = storyId
        · subst hid
          simp only [RetentionStep.reportFor, if_true, viewAfter, if_neg hdrop]
          exact SameView.refl _
        · simp only [RetentionStep.reportFor, if_neg hid, viewAfter]
          exact SameView.refl _

/-! ### The view along a run -/

/-- The store after the calls. -/
def after (s : KeeperChunkRetentionStore) (steps : List (RetentionStep × ℕ)) :
    KeeperChunkRetentionStore :=
  steps.foldl (fun s l => l.1.run s l.2) s

theorem run_eq_after (s : KeeperChunkRetentionStore) (steps : List (RetentionStep × ℕ)) :
    retention.run s steps = some (s.after steps) := by
  induction steps generalizing s with
  | nil => rfl
  | cons l steps ih => exact ih (l.1.run s l.2)

/-- The reports the calls apply to the story, in order. -/
def reportsFor (storyId : StoryId) (steps : List (RetentionStep × ℕ)) :
    List StoryWatermarkReport :=
  steps.filterMap fun l => l.1.reportFor storyId

theorem reportsFor_cons_none {l : RetentionStep × ℕ} {steps : List (RetentionStep × ℕ)}
    (h : l.1.reportFor storyId = none) :
    reportsFor storyId (l :: steps) = reportsFor storyId steps :=
  List.filterMap_cons_none (f := fun l : RetentionStep × ℕ => l.1.reportFor storyId) h

theorem reportsFor_cons_some {l : RetentionStep × ℕ} {steps : List (RetentionStep × ℕ)}
    (h : l.1.reportFor storyId = some report) :
    reportsFor storyId (l :: steps) = report :: reportsFor storyId steps :=
  List.filterMap_cons_some (f := fun l : RetentionStep × ℕ => l.1.reportFor storyId) h

/-- **The view of a story is the join of the reports**: a receipt of the instance
they come from is settled exactly if one of them covers it and does not list it,
and the watermark is the highest one reported.  A report without an instance
carries a watermark and no receipts. -/
structure ReportsJoin (story : StoryRetention) (reports : List StoryWatermarkReport) : Prop where
  settles : ∀ grapherInstance, grapherInstance ≠ 0 →
    (∀ report ∈ reports, report.grapherInstance = 0 ∨ report.grapherInstance = grapherInstance) →
    ∀ receipt, ViewSettles story grapherInstance receipt ↔
      ∃ report ∈ reports, report.Covers grapherInstance receipt
  knownW : story.knownW = (reports.map StoryWatermarkReport.watermark).foldl max 0

theorem knownW_mergeReceipts (story : StoryRetention) (report : StoryWatermarkReport) :
    (mergeReceipts story report).knownW = story.knownW := by
  unfold mergeReceipts
  dsimp only
  split <;> rfl

theorem reportInstance_mergeReceipts (story : StoryRetention) (report : StoryWatermarkReport) :
    (mergeReceipts story report).reportInstance = report.grapherInstance := by
  unfold mergeReceipts
  dsimp only
  split
  · rfl
  · next h => exact (not_not.mp h).symm

theorem knownW_reported (story : StoryRetention) (report : StoryWatermarkReport) :
    (reported story report).knownW = max story.knownW report.watermark := by
  unfold reported
  by_cases hw : report.watermark < story.knownW
  · have hmax : max story.knownW report.watermark = story.knownW := by omega
    simp only [if_pos hw, hmax]
    split
    · exact knownW_mergeReceipts story report
    · rfl
  · have hmax : max story.knownW report.watermark = report.watermark := by omega
    simp only [if_neg hw, hmax]
    split
    · exact knownW_mergeReceipts _ report
    · rfl

/-- A report without an instance leaves the receipts alone. -/
theorem viewSettles_reported_of_zero (h : report.grapherInstance = 0) :
    ViewSettles (reported story report) grapherInstance receipt ↔
      ViewSettles story grapherInstance receipt := by
  unfold reported
  dsimp only
  rw [if_neg (not_not.mpr h)]
  split <;> rfl

/-- The watermark plays no part in folding the receipts. -/
theorem viewSettles_reported (h : report.grapherInstance ≠ 0) :
    ViewSettles (reported story report) grapherInstance receipt ↔
      ViewSettles (mergeReceipts story report) grapherInstance receipt := by
  unfold reported
  dsimp only
  rw [if_pos h]
  split
  · rfl
  · unfold mergeReceipts ViewSettles
    dsimp only
    split <;> rfl

theorem reportInstance_reported (story : StoryRetention) (report : StoryWatermarkReport) :
    (reported story report).reportInstance =
      if report.grapherInstance ≠ 0 then report.grapherInstance else story.reportInstance := by
  unfold reported
  dsimp only
  by_cases hg : report.grapherInstance ≠ 0
  · rw [if_pos hg, if_pos hg]
    exact reportInstance_mergeReceipts _ report
  · rw [if_neg hg, if_neg hg]
    split <;> rfl

/-- **Folding reports of one instance is a join**, in whatever order they come. -/
theorem viewSettles_foldl_reported {reports : List StoryWatermarkReport}
    (hg : grapherInstance ≠ 0)
    (hone : ∀ report ∈ reports,
      report.grapherInstance = 0 ∨ report.grapherInstance = grapherInstance)
    (hstory : story.reportInstance = 0 ∨ story.reportInstance = grapherInstance) :
    ViewSettles (reports.foldl reported story) grapherInstance receipt ↔
      ViewSettles story grapherInstance receipt ∨
        ∃ report ∈ reports, report.Covers grapherInstance receipt := by
  induction reports generalizing story with
  | nil => simp
  | cons report reports ih =>
    have hrest := fun r hr => hone r (List.mem_cons_of_mem _ hr)
    have hthis : ViewSettles (reported story report) grapherInstance receipt ↔
        ViewSettles story grapherInstance receipt ∨ report.Covers grapherInstance receipt := by
      rcases hone report List.mem_cons_self with hzero | hinst
      · rw [viewSettles_reported_of_zero hzero]
        refine ⟨Or.inl, fun h => h.resolve_right fun hc => hg ?_⟩
        exact hc.1.symm.trans hzero
      · have hne : report.grapherInstance ≠ 0 := hinst ▸ hg
        rw [viewSettles_reported hne]
        rcases hstory with hz | hi
        · rw [viewSettles_mergeReceipts_of_ne (hz ▸ hne)]
          refine ⟨Or.inr, fun h => h.resolve_left fun hv => hg ?_⟩
          exact hv.1.trans hz
        · exact viewSettles_mergeReceipts (hinst.trans hi.symm)
    have hnext : (reported story report).reportInstance = 0 ∨
        (reported story report).reportInstance = grapherInstance := by
      rw [reportInstance_reported]
      split
      · next hne => exact Or.inr ((hone report List.mem_cons_self).resolve_left hne)
      · exact hstory
    rw [List.foldl_cons, ih hrest hnext, hthis, or_assoc]
    simp

theorem knownW_foldl_reported (reports : List StoryWatermarkReport) (story : StoryRetention) :
    (reports.foldl reported story).knownW =
      (reports.map StoryWatermarkReport.watermark).foldl max story.knownW := by
  induction reports generalizing story with
  | nil => rfl
  | cons report reports ih =>
    rw [List.foldl_cons, ih, List.map_cons, List.foldl_cons, knownW_reported]

theorem SameView.mergeReceipts {a b : StoryRetention} (h : SameView a b)
    (report : StoryWatermarkReport) :
    SameView (KeeperChunkRetentionStore.mergeReceipts a report)
      (KeeperChunkRetentionStore.mergeReceipts b report) := by
  unfold KeeperChunkRetentionStore.mergeReceipts
  rw [h.reportInstance, h.highestReceipt, h.pendingReceipts]
  dsimp only
  split
  · exact ⟨h.knownW, rfl, rfl, rfl⟩
  · exact ⟨h.knownW, rfl, rfl, rfl⟩

theorem SameView.reported {a b : StoryRetention} (h : SameView a b)
    (report : StoryWatermarkReport) :
    SameView (KeeperChunkRetentionStore.reported a report)
      (KeeperChunkRetentionStore.reported b report) := by
  have hraised : SameView
      (if report.watermark < a.knownW then a else { a with knownW := report.watermark })
      (if report.watermark < b.knownW then b else { b with knownW := report.watermark }) := by
    rw [h.knownW]
    split
    · exact h
    · exact ⟨rfl, h.reportInstance, h.highestReceipt, h.pendingReceipts⟩
  unfold KeeperChunkRetentionStore.reported
  dsimp only
  split
  · exact hraised.mergeReceipts report
  · exact hraised

/-- Along a run that does not drop the story, its view is that of its reports. -/
theorem sameView_after (steps : List (RetentionStep × ℕ)) (s : KeeperChunkRetentionStore)
    {story : StoryRetention} (hview : SameView story (s.storyOf storyId))
    (hdrop : ∀ report ∈ reportsFor storyId steps, report.watermark ≠ kStoryDroppedWatermark) :
    SameView ((reportsFor storyId steps).foldl reported story)
      ((s.after steps).storyOf storyId) := by
  induction steps generalizing s story with
  | nil => exact hview
  | cons l steps ih =>
    have hstep := sameView_run s l.2 l.1 storyId
    cases hrep : l.1.reportFor storyId with
    | none =>
      rw [hrep] at hstep
      rw [reportsFor_cons_none hrep] at hdrop ⊢
      exact ih (l.1.run s l.2) (hview.trans hstep) hdrop
    | some report =>
      rw [reportsFor_cons_some hrep] at hdrop ⊢
      have hne := hdrop report List.mem_cons_self
      rw [hrep, viewAfter, if_neg hne] at hstep
      exact ih (l.1.run s l.2) ((hview.reported report).trans hstep)
        fun r hr => hdrop r (List.mem_cons_of_mem _ hr)

/-- A receipt that a report settles is one that it covers. -/
theorem settled_or_covers (hreceipt : receipt ≠ 0)
    (h : ViewSettles (viewAfter story (some report)) grapherInstance receipt) :
    ViewSettles story grapherInstance receipt ∨ report.Covers grapherInstance receipt := by
  rw [viewAfter] at h
  split at h
  · -- the view after a drop settles no receipt
    exact absurd (Nat.le_zero.mp h.2.1) hreceipt
  · by_cases hzero : report.grapherInstance = 0
    · exact Or.inl ((viewSettles_reported_of_zero hzero).mp h)
    · rw [viewSettles_reported hzero] at h
      by_cases hinst : report.grapherInstance = story.reportInstance
      · exact (viewSettles_mergeReceipts hinst).mp h
      · exact Or.inr ((viewSettles_mergeReceipts_of_ne hinst).mp h)

/-- A receipt is settled in a view only through a report of its own instance. -/
theorem covered_of_viewSettles (hreceipt : receipt ≠ 0) (steps : List (RetentionStep × ℕ))
    (s : KeeperChunkRetentionStore)
    (h : ViewSettles ((s.after steps).storyOf storyId) grapherInstance receipt) :
    ViewSettles (s.storyOf storyId) grapherInstance receipt ∨
      ∃ report ∈ reportsFor storyId steps, report.Covers grapherInstance receipt := by
  induction steps generalizing s with
  | nil => exact Or.inl h
  | cons l steps ih =>
    have hstep := sameView_run s l.2 l.1 storyId
    cases hrep : l.1.reportFor storyId with
    | none =>
      rw [hrep] at hstep
      rw [reportsFor_cons_none hrep]
      exact (ih _ h).imp_left hstep.viewSettles.mp
    | some report =>
      rw [reportsFor_cons_some hrep]
      rcases ih _ h with hnow | ⟨r, hr, hc⟩
      · rw [hstep.viewSettles, hrep] at hnow
        refine (settled_or_covers hreceipt hnow).imp_right fun hc => ?_
        exact ⟨report, List.mem_cons_self, hc⟩
      · exact Or.inr ⟨r, List.mem_cons_of_mem _ hr, hc⟩

/-- **The view of a story is the join of its reports** in every run that does not
drop the story, and in every run the receipt of a chunk is settled only if a
report of its own instance covered it without listing it. -/
theorem reports_join_of_not_dropped (tailCapacity delay ttl : ℕ)
    (steps : List (RetentionStep × ℕ)) (storyId : StoryId) (s : KeeperChunkRetentionStore)
    (hs : s = (fresh tailCapacity delay ttl).after steps) :
    ((∀ report ∈ reportsFor storyId steps, report.watermark ≠ kStoryDroppedWatermark) →
      ReportsJoin (s.storyOf storyId) (reportsFor storyId steps)) ∧
    ∀ id retained, s.retainedAt storyId id = some retained → retained.state.receipt ≠ 0 →
      receiptSettled (s.storyOf storyId) retained.state = true →
      ∃ report ∈ reportsFor storyId steps,
        report.Covers retained.state.receiptInstance retained.state.receipt := by
  have hfresh : (fresh tailCapacity delay ttl).storyOf storyId = {} := rfl
  subst hs
  refine ⟨fun hdrop => ?_, fun id retained _ hreceipt hsettled => ?_⟩
  · have hview := sameView_after steps (fresh tailCapacity delay ttl) (SameView.refl _) hdrop
    rw [hfresh] at hview
    refine ⟨fun grapherInstance hg hone receipt => ?_, ?_⟩
    · rw [hview.viewSettles, viewSettles_foldl_reported hg hone (Or.inl rfl)]
      refine ⟨fun h => h.resolve_left fun hv => hg hv.1, Or.inr⟩
    · rw [hview.knownW, knownW_foldl_reported]
  · rcases receiptSettled_iff.mp hsettled with hzero | hview
    · exact absurd hzero hreceipt
    · rcases covered_of_viewSettles hreceipt steps _ hview with hnone | hcovered
      · exact absurd (Nat.le_zero.mp hnone.2.1) hreceipt
      · exact hcovered

/-- A report that says the first two receipts are written. -/
def twoWritten : StoryWatermarkReport :=
  { watermark := 9, grapherInstance := 1, highestReceipt := 2 }

/-- An older report, with the first receipt still pending. -/
def onePending : StoryWatermarkReport :=
  { watermark := 5, grapherInstance := 1, highestReceipt := 1, pendingReceipts := [1] }

/-- The report of the same instance that the story was destroyed. -/
def destroyed : StoryWatermarkReport :=
  { watermark := kStoryDroppedWatermark, grapherInstance := 1, highestReceipt := 2 }

/-- A report that arrives late unsettles nothing. -/
theorem reports_join_onePending :
    ReportsJoin
      (((fresh 1 0 0).after [(.call (.applyReport 7 twoWritten), 0),
        (.call (.applyReport 7 onePending), 1)]).storyOf 7)
      (reportsFor 7 [(.call (.applyReport 7 twoWritten), 0),
        (.call (.applyReport 7 onePending), 1)]) := by
  refine (reports_join_of_not_dropped 1 0 0 _ 7 _ rfl).1 ?_
  decide +kernel

/-- **A drop report is not joined**: it carries the watermark that marks a drop
and covers every receipt, and the store forgets what it knew of the story. -/
theorem drop_report_is_no_watermark :
    ¬ ReportsJoin
      (((fresh 1 0 0).after [(.call (.applyReport 7 twoWritten), 0),
        (.call (.applyReport 7 destroyed), 1)]).storyOf 7)
      (reportsFor 7 [(.call (.applyReport 7 twoWritten), 0),
        (.call (.applyReport 7 destroyed), 1)]) := by
  intro h
  have hw := h.knownW
  revert hw
  decide +kernel

end KeeperChunkRetentionStore

end ChronoLog
