import ChronoLog.Wal.DurableWriter

/-!
# Actions that leave the queues alone

Most actions of a log touch files, segments and released events only.  They keep
every queue, answer and identity in flight, so what is proved about those needs to
look at the other actions alone.

## Main definitions

* `Quiet` — the queues and the answers are as before, and nothing new is pending.

## Main results

* `always_quiet_*` — the programs all of whose actions are quiet.
-/

namespace ChronoLog

/-- Observations that say nothing about requests and their answers. -/
def Observation.neutral : Observation → Bool
  | .released _ => true
  | .storyDropped _ => true
  | .dropsRecorded _ => true
  | _ => false

namespace KeeperWal

open Concurrent (Prog)

/-- Requests, records in flight and answers are as before, no more is pending, and
nothing was observed of a request. -/
structure Quiet (s t : KeeperWal) : Prop where
  state : t.state = s.state
  queue : t.queue = s.queue
  inFlight : t.inFlight = s.inFlight
  group : t.group = s.group
  unregistered : t.unregistered = s.unregistered
  refused : t.refused = s.refused
  results : t.results = s.results
  nextCompletion : t.nextCompletion = s.nextCompletion
  committerAlive : t.committerAlive = s.committerAlive
  pending : ∀ storyId event, t.tracker.isPending storyId event →
    s.tracker.isPending storyId event
  trace : ∃ newer, t.trace = newer ++ s.trace ∧ ∀ o ∈ newer, o.neutral

namespace Quiet

variable {s t u : KeeperWal}

theorem refl (s : KeeperWal) : Quiet s s :=
  ⟨rfl, rfl, rfl, rfl, rfl, rfl, rfl, rfl, rfl, fun _ _ h => h, [], rfl, by simp⟩

theorem trans (h : Quiet s t) (h' : Quiet t u) : Quiet s u := by
  obtain ⟨newer, hnewer, hneutral⟩ := h.trace
  obtain ⟨newer', hnewer', hneutral'⟩ := h'.trace
  refine ⟨h'.state.trans h.state, h'.queue.trans h.queue, h'.inFlight.trans h.inFlight,
    h'.group.trans h.group, h'.unregistered.trans h.unregistered, h'.refused.trans h.refused,
    h'.results.trans h.results, h'.nextCompletion.trans h.nextCompletion,
    h'.committerAlive.trans h.committerAlive,
    fun storyId event hp => h.pending _ _ (h'.pending _ _ hp),
    newer' ++ newer, by rw [hnewer', hnewer, List.append_assoc], fun o ho => ?_⟩
  rcases List.mem_append.mp ho with ho | ho
  · exact hneutral' o ho
  · exact hneutral o ho

/-- A change that touches neither the queues nor what is pending. -/
theorem of_eq (hstate : t.state = s.state) (hqueue : t.queue = s.queue)
    (hinFlight : t.inFlight = s.inFlight) (hgroup : t.group = s.group)
    (hunregistered : t.unregistered = s.unregistered) (hrefused : t.refused = s.refused)
    (hresults : t.results = s.results) (hnext : t.nextCompletion = s.nextCompletion)
    (halive : t.committerAlive = s.committerAlive) (htracker : t.tracker = s.tracker)
    (htrace : t.trace = s.trace) : Quiet s t :=
  ⟨hstate, hqueue, hinFlight, hgroup, hunregistered, hrefused, hresults, hnext, halive,
    fun _ _ h => htracker ▸ h, [], htrace, by simp⟩

/-- Neutral observations are quiet. -/
theorem observe {observations : List Observation} (h : ∀ o ∈ observations, o.neutral) :
    Quiet s (s.observe observations) :=
  ⟨rfl, rfl, rfl, rfl, rfl, rfl, rfl, rfl, rfl, fun _ _ h => h, observations, rfl, h⟩

/-- So is a tracker with fewer pending events. -/
theorem release {tracker : WalReleaseTracker}
    (h : ∀ storyId event, tracker.isPending storyId event → s.tracker.isPending storyId event) :
    Quiet s { s with tracker := tracker } :=
  ⟨rfl, rfl, rfl, rfl, rfl, rfl, rfl, rfl, rfl, h, [], rfl, by simp⟩

theorem pruneAddOrder (s : KeeperWal) (storyId : StoryId) (budget : ℕ) :
    Quiet s (s.pruneAddOrder storyId budget) := by
  simp only [KeeperWal.pruneAddOrder]
  split
  · exact refl s
  · split
    · exact of_eq rfl rfl rfl rfl rfl rfl rfl rfl rfl rfl rfl
    · exact of_eq rfl rfl rfl rfl rfl rfl rfl rfl rfl rfl rfl

end Quiet

/-! ### What releases leave pending -/

theorem isPending_of_releaseEvents {tracker : WalReleaseTracker} {storyId story : StoryId}
    {events : List EventSequence} {event : EventSequence}
    (h : (tracker.releaseEvents storyId events).isPending story event) :
    tracker.isPending story event := by
  rw [WalReleaseTracker.isPending_eq_isSome, WalReleaseTracker.copies_releaseEvents] at h
  split at h
  · cases h
  · rwa [WalReleaseTracker.isPending_eq_isSome]

theorem isPending_of_releaseChunk {tracker : WalReleaseTracker} {storyId story : StoryId}
    {chunk : StoryChunk} {event : EventSequence}
    (h : (tracker.releaseChunk storyId chunk).isPending story event) :
    tracker.isPending story event := by
  simp only [WalReleaseTracker.releaseChunk] at h
  split at h
  · exact h
  · split at h
    · exact isPending_of_releaseEvents h
    · exact isPending_of_releaseEvents h

theorem isPending_of_dropStory {tracker : WalReleaseTracker} {storyId story : StoryId}
    {event : EventSequence} (h : (tracker.dropStory storyId).isPending story event) :
    tracker.isPending story event := by
  rw [WalReleaseTracker.isPending_eq_isSome, WalReleaseTracker.copies_dropStory] at h
  split at h
  · cases h
  · rwa [WalReleaseTracker.isPending_eq_isSome]

/-! ### File operations and segments -/

/-- An action that changes only the directory is quiet. -/
theorem quiet_disk (s : KeeperWal) (disk : Disk) : Quiet s { s with disk := disk } :=
  .of_eq rfl rfl rfl rfl rfl rfl rfl rfl rfl rfl rfl

/-- So is one that changes only the segment manager. -/
theorem quiet_segmentFiles (s : KeeperWal) (segmentFiles : WalSegmentManager) :
    Quiet s { s with segmentFiles := segmentFiles } :=
  .of_eq rfl rfl rfl rfl rfl rfl rfl rfl rfl rfl rfl

theorem always_quiet_fileOp (f : Disk → Disk) : (fileOp f).Always Quiet := by
  refine .atomically fun s c b s' h => ?_
  split at h <;> cases h
  · exact .refl s
  · exact quiet_disk s _

theorem always_quiet_partialOps (n : ℕ) : (partialOps n).Always Quiet := by
  induction n with
  | zero => trivial
  | succ n ih =>
    refine .bind (always_quiet_fileOp id) fun r => ?_
    cases r with
    | none => exact ih
    | some err => trivial

theorem always_quiet_writeAt (segment offset : ℕ) (data : Bytes) :
    (KeeperWal.writeAt segment offset data).Always Quiet := by
  refine .atomically fun s c b s' h => ?_
  split at h <;> cases h
  · exact quiet_disk s _
  · exact quiet_disk s _

theorem always_quiet_readUnloggedDrops : readUnloggedDrops.Always Quiet := by
  refine .atomically fun s c b s' h => ?_
  cases h
  exact .refl s

theorem always_quiet_writeUnloggedDrops (drops : List UnloggedDrop) :
    (writeUnloggedDrops drops).Always Quiet := by
  simp only [writeUnloggedDrops]
  split
  · refine .bind (.atomically fun s c b s' h => ?_) fun r => ?_
    · split at h
      · cases h
        exact .refl s
      · split at h <;> cases h
        · exact .refl s
        · exact quiet_disk s _
    · rcases r with - | (_ | _ | _ | _)
      · exact always_quiet_fileOp _
      all_goals trivial
  · refine .bind (always_quiet_partialOps 5) fun r => ?_
    cases r with
    | some err => trivial
    | none =>
      refine .bind (always_quiet_fileOp _) fun r => ?_
      cases r with
      | some err => trivial
      | none => exact always_quiet_fileOp _

theorem always_quiet_openSegments : openSegments.Always Quiet := by
  refine .atomically fun s c b s' h => ?_
  split at h
  · cases h
    exact .refl s
  · split at h <;> cases h
    · exact .refl s
    · exact .of_eq rfl rfl rfl rfl rfl rfl rfl rfl rfl rfl rfl

theorem always_quiet_prepare (segment bytes : ℕ) : (prepare segment bytes).Always Quiet := by
  refine .bind (.atomically fun s c b s' h => ?_) fun header => ?_
  · cases h
    exact .refl s
  refine .bind (always_quiet_partialOps 4) fun r => ?_
  cases r with
  | some err => exact .bind (always_quiet_fileOp id) fun _ => trivial
  | none =>
    refine .bind (always_quiet_fileOp _) fun r => ?_
    cases r with
    | some err => exact .bind (always_quiet_fileOp id) fun _ => trivial
    | none =>
      refine .bind (always_quiet_fileOp _) fun r => ?_
      cases r with
      | some err => exact .bind (always_quiet_fileOp _) fun _ => trivial
      | none => trivial

theorem quiet_takeReady (s : KeeperWal) (spare : Spare) (minBytes : ℕ) :
    Quiet s (takeReady s spare minBytes).2 := by
  simp only [takeReady]
  split
  · exact .refl s
  · exact quiet_segmentFiles s _

theorem always_quiet_finishTake (minBytes : ℕ) (ready : ReadySpare) :
    (finishTake minBytes ready).Always Quiet := by
  cases ready with
  | taken spare => trivial
  | grow spare =>
    have hgrow : (growSpare spare minBytes).Always Quiet := by
      simp only [growSpare]
      split
      · exact always_quiet_writeAt _ _ _
      · trivial
    have hextend : (extend spare minBytes).Always Quiet := by
      refine .bind hgrow fun r => ?_
      cases r with
      | some err => trivial
      | none => exact always_quiet_fileOp _
    refine .bind hextend fun r => ?_
    cases r with
    | some err => trivial
    | none => exact .modify fun s => quiet_segmentFiles s _

theorem always_quiet_takeSpare (minBytes : ℕ) : (takeSpare minBytes).Always Quiet := by
  refine .bind (.atomically fun s c b s' h => ?_) fun wait => ?_
  · split at h
    · cases h
      exact .refl s
    · split at h
      · cases h
        exact quiet_takeReady s _ minBytes
      · split at h <;> cases h
        exact quiet_segmentFiles s _
  cases wait with
  | notOpen => trivial
  | ready ready => exact always_quiet_finishTake minBytes ready
  | make segment =>
    refine .bind (.modify fun s => .refl s) fun segmentBytes => ?_
    refine .bind (always_quiet_prepare _ _) fun made => ?_
    refine .bind (.modify fun s => ?_) fun r => ?_
    · cases made with
      | error err => exact quiet_segmentFiles s _
      | ok spare => exact (quiet_segmentFiles s _).trans (quiet_takeReady _ spare minBytes)
    · cases r with
      | error err => trivial
      | ok ready => exact always_quiet_finishTake minBytes ready

theorem always_quiet_adoptExisting (segment : ℕ) : (adoptExisting segment).Always Quiet := by
  refine .bind (.atomically fun s c b s' h => ?_) fun content => ?_
  · cases h
    exact .refl s
  cases content with
  | error err => trivial
  | ok bytes =>
    simp only
    split
    · trivial
    · refine .atomically fun s c b s' h => ?_
      split at h <;> cases h
      · exact .refl s
      · exact quiet_segmentFiles s _

theorem always_quiet_deleteSegment (segment : ℕ) : (deleteSegment segment).Always Quiet := by
  refine .bind (.atomically fun s c b s' h => ?_) fun r => ?_
  · split at h
    · cases h
      exact .refl s
    · split at h <;> cases h
      · exact .refl s
      · exact .of_eq rfl rfl rfl rfl rfl rfl rfl rfl rfl rfl rfl
  · cases r with
    | some err => trivial
    | none => exact always_quiet_fileOp _

theorem always_quiet_startPreparer : startPreparer.Always Quiet := by
  refine .atomically fun s c b s' h => ?_
  split at h <;> cases h
  · exact .refl s
  · exact quiet_segmentFiles s _

theorem always_quiet_stopPreparer : stopPreparer.Always Quiet := by
  refine .bind (.modify fun s => quiet_segmentFiles s _) fun _ => ?_
  refine .atomically fun s c b s' h => ?_
  split at h <;> cases h
  exact .refl s

theorem always_quiet_preparerTurn : preparerTurn.Always Quiet := by
  refine .bind (.atomically fun s c b s' h => ?_) fun next => ?_
  · split at h
    · cases h
      exact quiet_segmentFiles s _
    · split at h <;> cases h
      exact quiet_segmentFiles s _
  rcases next with - | ⟨segment, segmentBytes⟩
  · trivial
  · exact .bind (always_quiet_prepare _ _) fun made => .modify fun s => quiet_segmentFiles s _

/-! ### Releases and drops -/

theorem always_quiet_eventDiscarded (storyId : StoryId) (event : EventSequence) :
    (eventDiscarded storyId event).Always Quiet := by
  refine .modify fun s => ?_
  refine (Quiet.observe ?_).trans ((Quiet.release ?_).trans (.pruneAddOrder _ _ _))
  · simp [Observation.neutral]
  · intro story other h
    have hone : (s.tracker.releaseEvents storyId [event]).isPending story other := h
    exact isPending_of_releaseEvents hone

theorem always_quiet_releaseBatches (storyId : StoryId) (fuel : ℕ)
    (events : List EventSequence) : (releaseBatches storyId fuel events).Always Quiet := by
  induction fuel generalizing events with
  | zero => trivial
  | succ fuel ih =>
    refine .bind (.modify fun s => ?_) fun more => ?_
    · split
      · exact .pruneAddOrder s storyId 0
      · exact (Quiet.release fun _ _ => isPending_of_releaseEvents).trans (.pruneAddOrder _ _ _)
    · split
      · split
        · trivial
        · exact ih _
      · trivial

theorem always_quiet_releaseChunkEvents (storyId : StoryId) (chunk : StoryChunk) :
    (releaseChunkEvents storyId chunk).Always Quiet := by
  simp only [releaseChunkEvents]
  split
  · trivial
  · refine .bind (.modify fun s => ?_) fun done => ?_
    · have hobserve : Quiet s (s.observe
          (chunk.logEvents.keys.map fun event => .released ⟨storyId, event⟩)) := by
        refine .observe fun o ho => ?_
        obtain ⟨event, -, rfl⟩ := List.mem_map.mp ho
        rfl
      split
      · exact hobserve
      · split
        · exact hobserve.trans ((Quiet.release fun _ _ => isPending_of_releaseChunk).trans
            (.pruneAddOrder _ _ _))
        · exact hobserve
    · split
      · trivial
      · exact always_quiet_releaseBatches _ _ _

theorem always_quiet_dropBatches (storyId : StoryId) (fuel : ℕ) :
    (dropBatches storyId fuel).Always Quiet := by
  induction fuel with
  | zero => trivial
  | succ fuel ih =>
    refine .bind (.modify fun s => ?_) fun done => ?_
    · split
      · exact ⟨rfl, rfl, rfl, rfl, rfl, rfl, rfl, rfl, rfl,
          fun _ _ => isPending_of_dropStory, [], rfl, by simp⟩
      · exact ⟨rfl, rfl, rfl, rfl, rfl, rfl, rfl, rfl, rfl,
          fun _ _ => isPending_of_releaseEvents, [], rfl, by simp⟩
    · split
      · trivial
      · exact ih

theorem always_quiet_dropStoryCopies (storyId : StoryId) :
    (dropStoryCopies storyId).Always Quiet :=
  .bind (.modify fun s => .refl s) fun batches => always_quiet_dropBatches storyId batches

theorem always_quiet_dropStories (stories : List StoryId) :
    (dropStories stories).Always Quiet := by
  induction stories with
  | nil => trivial
  | cons storyId stories ih => exact .bind (always_quiet_dropStoryCopies storyId) fun _ => ih

theorem always_quiet_recordUnloggedDrops (group : List Queued) :
    (recordUnloggedDrops group).Always Quiet := by
  simp only [recordUnloggedDrops]
  split
  · trivial
  · refine .bind always_quiet_readUnloggedDrops fun r => ?_
    cases r with
    | error err => exact always_quiet_dropStories _
    | ok drops =>
      refine .bind (.modify fun s => .refl s) fun active => ?_
      refine .bind (always_quiet_writeUnloggedDrops _) fun r => ?_
      split
      · refine .bind (.modify fun s => ?_) fun _ => always_quiet_dropStories _
        exact .observe (by simp [Observation.neutral])
      · exact always_quiet_dropStories _

/-! ### The committer's segments -/

theorem always_quiet_switchToSpare (minBytes : ℕ) : (switchToSpare minBytes).Always Quiet := by
  refine .bind (always_quiet_takeSpare minBytes) fun r => ?_
  cases r with
  | error err => trivial
  | ok spare => exact .modify fun s => .of_eq rfl rfl rfl rfl rfl rfl rfl rfl rfl rfl rfl

theorem always_quiet_rotate (minBytes : ℕ) : (rotate minBytes).Always Quiet := by
  refine .bind (.modify fun s => .refl s) fun active => ?_
  refine .bind (always_quiet_fileOp _) fun r => ?_
  cases r with
  | some err => trivial
  | none => exact always_quiet_switchToSpare minBytes

theorem always_quiet_eraseRange (offset bytes : ℕ) : (eraseRange offset bytes).Always Quiet := by
  refine .bind (.modify fun s => .refl s) fun active => ?_
  refine .bind (always_quiet_writeAt _ _ _) fun r => ?_
  cases r with
  | some err => trivial
  | none => exact always_quiet_fileOp _

theorem always_quiet_keepDrops (released : List ℕ) :
    (keepDropsOfSegmentsDeletedAhead released).Always Quiet := by
  refine .bind (.modify fun s => .refl s) fun ahead => ?_
  simp only
  split
  · trivial
  · refine .bind always_quiet_readUnloggedDrops fun r => ?_
    cases r with
    | error err => trivial
    | ok lines =>
      refine .bind (always_quiet_writeUnloggedDrops _) fun r => ?_
      cases r with
      | some err => trivial
      | none =>
        refine .bind (.modify fun s => ?_) fun _ => trivial
        exact .observe (by simp [Observation.neutral])

theorem always_quiet_deleteSegments (released : List ℕ) :
    (deleteSegments released).Always Quiet := by
  induction released with
  | nil => trivial
  | cons segment released ih =>
    refine .bind (always_quiet_deleteSegment segment) fun r => ?_
    cases r with
    | some err =>
      refine .modify fun s => ?_
      split
      · exact .refl s
      · exact .of_eq rfl rfl rfl rfl rfl rfl rfl rfl rfl rfl rfl
    | none =>
      refine .bind (.modify fun s => ?_) fun _ => ih
      exact .of_eq rfl rfl rfl rfl rfl rfl rfl rfl rfl rfl rfl

theorem always_quiet_deleteReleasedSegments : deleteReleasedSegments.Always Quiet := by
  refine .bind (.modify fun s => .refl s) fun owed => ?_
  have hsync : (syncOwed owed).Always Quiet := by
    simp only [syncOwed]
    split
    · exact always_quiet_fileOp _
    · trivial
  refine .bind hsync fun synced => ?_
  cases synced with
  | some err => trivial
  | none =>
    refine .bind (.modify fun s => ?_) fun released => ?_
    · exact .of_eq rfl rfl rfl rfl rfl rfl rfl rfl rfl rfl rfl
    · split
      · trivial
      · exact .bind (always_quiet_keepDrops _) fun _ => always_quiet_deleteSegments _

theorem always_quiet_sampleFreeSpace : sampleFreeSpace.Always Quiet := by
  refine .atomically fun s c b s' h => ?_
  split at h <;> cases h
  · exact .refl s
  · exact .of_eq rfl rfl rfl rfl rfl rfl rfl rfl rfl rfl rfl

theorem always_quiet_periodicWork : periodicWork.Always Quiet := by
  refine .bind always_quiet_sampleFreeSpace fun _ => ?_
  refine .bind always_quiet_deleteReleasedSegments fun _ => ?_
  refine .bind (.atomically fun s c b s' h => ?_) fun due => ?_
  · cases h
    exact .refl s
  split
  · refine .bind (.modify fun s => .refl s) fun r => ?_
    obtain ⟨idle, active, segmentBytes⟩ := r
    simp only
    split
    · refine .bind (always_quiet_fileOp _) fun r => ?_
      cases r with
      | some err =>
        exact .modify fun s => .of_eq rfl rfl rfl rfl rfl rfl rfl rfl rfl rfl rfl
      | none =>
        refine .bind (always_quiet_switchToSpare _) fun r => ?_
        cases r with
        | some err => trivial
        | none => exact always_quiet_deleteReleasedSegments
    · trivial
  · trivial

/-! ### The checks of the durable writer -/

theorem always_quiet_refusal (event : LogEvent) : (refusal event).Always Quiet := by
  have hadmit : walAdmit.Always Quiet := by
    refine .bind (.modify fun s => .refl s) fun running => ?_
    split
    · refine .bind (.modify fun s => .refl s) fun failed => ?_
      split
      · trivial
      · refine .bind (.modify fun s => .refl s) fun low => ?_
        split <;> trivial
    · trivial
  have hcap : refusedByCap.Always Quiet := by
    refine .bind (.atomically fun s c b s' h => ?_) fun r => ?_
    · cases h
      exact .refl s
    obtain ⟨unconfirmed, cap⟩ := r
    simp only
    split
    · exact .modify fun s => .of_eq rfl rfl rfl rfl rfl rfl rfl rfl rfl rfl rfl
    · refine .bind (.modify fun s => .refl s) fun capped => ?_
      split
      · split
        · trivial
        · exact .modify fun s => .of_eq rfl rfl rfl rfl rfl rfl rfl rfl rfl rfl rfl
      · trivial
  have hpipeline : hasPipeline.Always Quiet := by
    refine .bind (.atomically fun s c b s' h => ?_) fun r => ?_
    · cases h
      exact .refl s
    split
    · trivial
    · refine .atomically fun s c b s' h => ?_
      cases h
      exact .refl s
  simp only [refusal]
  split
  · trivial
  · refine .bind hadmit fun r => ?_
    cases r with
    | Unavailable => trivial
    | Full => trivial
    | Ok =>
      refine .bind hcap fun refused => ?_
      split
      · trivial
      · refine .bind hpipeline fun has => ?_
        split <;> trivial

end KeeperWal

end ChronoLog
