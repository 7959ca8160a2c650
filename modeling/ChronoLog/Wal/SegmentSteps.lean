import ChronoLog.Wal.Crash
import ChronoLog.Wal.GroupImage

/-!
# Actions that leave the segments alone

Requests, releases, answers and the file of unlogged drops do not write to the
segments.  They keep what a read of any of them returns, the segment manager and
what is written of the log so far.

## Main definitions

* `Untouched` — every segment reads as before, and nothing was written to one.

## Main results

* `always_untouched_*` — the programs all of whose actions are so.
-/

namespace ChronoLog

namespace KeeperWal

open Concurrent (Prog)

/-- The segments, the segment manager and the committer's place in them are as before;
what is queued was queued or is encoded, and no sync of a group was observed. -/
structure Untouched (s t : KeeperWal) : Prop where
  readFile : ∀ segment, t.disk.readFile segment = s.disk.readFile segment
  segmentFiles : t.segmentFiles = s.segmentFiles
  activeSegment : t.activeSegment = s.activeSegment
  committerAlive : t.committerAlive = s.committerAlive
  state : t.state = s.state
  queue : ∀ entry ∈ t.queue, entry ∈ s.queue ∨ entry.Encoded
  trace : ∀ segment group image, .synced segment group image ∈ t.trace →
    .synced segment group image ∈ s.trace

namespace Untouched

variable {s t u : KeeperWal}

theorem refl (s : KeeperWal) : Untouched s s :=
  ⟨fun _ => rfl, rfl, rfl, rfl, rfl, fun _ h => .inl h, fun _ _ _ h => h⟩

theorem trans (h : Untouched s t) (h' : Untouched t u) : Untouched s u where
  readFile segment := (h'.readFile segment).trans (h.readFile segment)
  segmentFiles := h'.segmentFiles.trans h.segmentFiles
  activeSegment := h'.activeSegment.trans h.activeSegment
  committerAlive := h'.committerAlive.trans h.committerAlive
  state := h'.state.trans h.state
  queue entry hentry := (h'.queue entry hentry).elim (h.queue entry) .inr
  trace _ _ _ hmem := h.trace _ _ _ (h'.trace _ _ _ hmem)

/-- A change of other fields. -/
theorem of_eq (hdisk : t.disk = s.disk) (hfiles : t.segmentFiles = s.segmentFiles)
    (hactive : t.activeSegment = s.activeSegment) (halive : t.committerAlive = s.committerAlive)
    (hstate : t.state = s.state) (hqueue : t.queue = s.queue) (htrace : t.trace = s.trace) :
    Untouched s t :=
  ⟨fun _ => by rw [hdisk], hfiles, hactive, halive, hstate, fun _ h => .inl (hqueue ▸ h),
    fun _ _ _ h => htrace ▸ h⟩

/-- Observations of other things. -/
theorem observe {observations : List Observation}
    (h : ∀ segment group image, .synced segment group image ∉ observations) :
    Untouched s (s.observe observations) :=
  ⟨fun _ => rfl, rfl, rfl, rfl, rfl, fun _ h => .inl h, fun segment group image hmem =>
    (List.mem_append.mp hmem).resolve_left (h segment group image)⟩

theorem pruneAddOrder (s : KeeperWal) (storyId : StoryId) (budget : ℕ) :
    Untouched s (s.pruneAddOrder storyId budget) := by
  simp only [KeeperWal.pruneAddOrder]
  split
  · exact refl s
  · split
    · exact of_eq rfl rfl rfl rfl rfl rfl rfl
    · exact of_eq rfl rfl rfl rfl rfl rfl rfl

/-- A release, and the pruning of the order after it. -/
theorem release (s : KeeperWal) (tracker : WalReleaseTracker) (storyId : StoryId) (budget : ℕ) :
    Untouched s ({ s with tracker := tracker }.pruneAddOrder storyId budget) :=
  (of_eq (s := s) (t := { s with tracker := tracker }) rfl rfl rfl rfl rfl rfl rfl).trans
    (pruneAddOrder _ storyId budget)

end Untouched

/-- Reading the state changes nothing. -/
theorem always_untouched_read {α : Type} (f : KeeperWal → α) :
    (Prog.modify fun s => (f s, s) : WalProg α).Always Untouched :=
  .modify fun s => .refl s

/-- Nor does reading the environment. -/
theorem always_untouched_ask {α : Type} (f : KeeperWal → Choice → α) :
    (Prog.atomically fun s c => some (f s c, s) : WalProg α).Always Untouched := by
  refine .atomically fun s c b s' h => ?_
  cases h
  exact .refl s

/-! ### File operations -/

theorem always_untouched_fileOp {f : Disk → Disk}
    (hf : ∀ disk segment, (f disk).readFile segment = disk.readFile segment) :
    (fileOp f).Always Untouched := by
  refine .atomically fun s c b s' h => ?_
  split at h <;> cases h
  · exact .refl s
  · exact ⟨hf s.disk, rfl, rfl, rfl, rfl, fun _ h => .inl h, fun _ _ _ h => h⟩

theorem always_untouched_syncData (segment : ℕ) : (syncData segment).Always Untouched :=
  always_untouched_fileOp fun disk => disk.readFile_syncData segment

theorem always_untouched_syncDirectory : syncDirectory.Always Untouched :=
  always_untouched_fileOp Disk.readFile_syncDirectory

theorem always_untouched_partialOps (n : ℕ) : (partialOps n).Always Untouched := by
  induction n with
  | zero => trivial
  | succ n ih =>
    refine .bind (always_untouched_fileOp fun _ _ => rfl) fun r => ?_
    cases r with
    | none => exact ih
    | some err => trivial

theorem always_untouched_writeUnloggedDrops (drops : List UnloggedDrop) :
    (writeUnloggedDrops drops).Always Untouched := by
  simp only [writeUnloggedDrops]
  split
  · refine .bind (.atomically fun s c b s' h => ?_) fun r => ?_
    · split at h
      · cases h
        exact .refl s
      · split at h <;> cases h
        · exact .refl s
        · exact ⟨fun _ => rfl, rfl, rfl, rfl, rfl, fun _ h => .inl h, fun _ _ _ h => h⟩
    · rcases r with - | (_ | _ | _ | _)
      · exact always_untouched_syncDirectory
      all_goals trivial
  · refine .bind (always_untouched_partialOps 5) fun r => ?_
    cases r with
    | some err => trivial
    | none =>
      refine .bind (always_untouched_fileOp fun _ _ => rfl) fun r => ?_
      cases r with
      | some err => trivial
      | none => exact always_untouched_syncDirectory

/-! ### Releases and drops -/

theorem always_untouched_eventDiscarded (storyId : StoryId) (event : EventSequence) :
    (eventDiscarded storyId event).Always Untouched :=
  .modify fun s => (Untouched.observe (by simp)).trans (.release _ _ storyId kLockBatch)

theorem always_untouched_releaseBatches (storyId : StoryId) (fuel : ℕ)
    (events : List EventSequence) : (releaseBatches storyId fuel events).Always Untouched := by
  induction fuel generalizing events with
  | zero => trivial
  | succ fuel ih =>
    refine .bind (.modify fun s => ?_) fun more => ?_
    · split
      · exact .pruneAddOrder s storyId 0
      · exact .release s _ storyId kLockBatch
    · split
      · split
        · trivial
        · exact ih _
      · trivial

theorem always_untouched_releaseChunkEvents (storyId : StoryId) (chunk : StoryChunk) :
    (releaseChunkEvents storyId chunk).Always Untouched := by
  simp only [releaseChunkEvents]
  split
  · trivial
  · refine .bind (.modify fun s => ?_) fun done => ?_
    · have hobserve : Untouched s (s.observe
          (chunk.logEvents.keys.map fun event => .released ⟨storyId, event⟩)) := .observe (by simp)
      split
      · exact hobserve
      · split
        · exact hobserve.trans (.release _ _ storyId kLockBatch)
        · exact hobserve
    · split
      · trivial
      · exact always_untouched_releaseBatches _ _ _

theorem always_untouched_dropBatches (storyId : StoryId) (fuel : ℕ) :
    (dropBatches storyId fuel).Always Untouched := by
  induction fuel with
  | zero => trivial
  | succ fuel ih =>
    refine .bind (.modify fun s => ?_) fun done => ?_
    · split
      · exact .of_eq rfl rfl rfl rfl rfl rfl rfl
      · exact .of_eq rfl rfl rfl rfl rfl rfl rfl
    · split
      · trivial
      · exact ih

theorem always_untouched_dropStoryCopies (storyId : StoryId) :
    (dropStoryCopies storyId).Always Untouched :=
  .bind (always_untouched_read _) fun batches => always_untouched_dropBatches storyId batches

theorem always_untouched_dropStories (stories : List StoryId) :
    (dropStories stories).Always Untouched := by
  induction stories with
  | nil => trivial
  | cons storyId stories ih => exact .bind (always_untouched_dropStoryCopies storyId) fun _ => ih

theorem always_untouched_recordUnloggedDrops (group : List Queued) :
    (recordUnloggedDrops group).Always Untouched := by
  simp only [recordUnloggedDrops]
  split
  · trivial
  · refine .bind (always_untouched_ask _) fun r => ?_
    cases r with
    | error err => exact always_untouched_dropStories _
    | ok drops =>
      refine .bind (always_untouched_read _) fun active => ?_
      refine .bind (always_untouched_writeUnloggedDrops _) fun r => ?_
      split
      · refine .bind (.modify fun s => ?_) fun _ => always_untouched_dropStories _
        exact .observe (by simp)
      · exact always_untouched_dropStories _

theorem always_untouched_keepDrops (released : List ℕ) :
    (keepDropsOfSegmentsDeletedAhead released).Always Untouched := by
  refine .bind (always_untouched_read _) fun ahead => ?_
  simp only
  split
  · trivial
  · refine .bind (always_untouched_ask _) fun r => ?_
    cases r with
    | error err => trivial
    | ok lines =>
      refine .bind (always_untouched_writeUnloggedDrops _) fun r => ?_
      cases r with
      | some err => trivial
      | none =>
        refine .bind (.modify fun s => ?_) fun _ => trivial
        exact .observe (by simp)

theorem always_untouched_sampleFreeSpace : sampleFreeSpace.Always Untouched := by
  refine .atomically fun s c b s' h => ?_
  split at h <;> cases h
  · exact .refl s
  · exact .of_eq rfl rfl rfl rfl rfl rfl rfl

/-! ### Registering and answering -/

theorem untouched_registerEvent (s : KeeperWal) (status : ErrorCode) (segment : ℕ)
    (event : QueuedEvent) : Untouched s (s.registerEvent status segment event) := by
  simp only [registerEvent]
  split <;> split <;> exact .of_eq rfl rfl rfl rfl rfl rfl rfl

theorem untouched_registerBatch (status : ErrorCode) (segment budget : ℕ) (entries : List Queued)
    (s : KeeperWal) : Untouched s (registerBatch status segment budget entries s).2.2 := by
  induction budget generalizing entries s with
  | zero => exact .refl s
  | succ budget ih =>
    cases entries with
    | nil => exact .refl s
    | cons entry entries =>
      cases entry with
      | event event =>
        exact (untouched_registerEvent s status segment event).trans (ih entries _)
      | drop storyId =>
        rw [registerBatch]
        split
        · exact .of_eq rfl rfl rfl rfl rfl rfl rfl
        · exact ih entries s

theorem always_untouched_registerGroup (status : ErrorCode) (segment fuel : ℕ) :
    (registerGroup status segment fuel).Always Untouched := by
  induction fuel with
  | zero => trivial
  | succ fuel ih =>
    refine .bind (.modify fun s => ?_) fun r => ?_
    · exact (untouched_registerBatch status segment kLockBatch s.unregistered s).trans
        (.of_eq rfl rfl rfl rfl rfl rfl rfl)
    · obtain ⟨dropped, finished⟩ := r
      have hrest : (if finished = true then pure () else registerGroup status segment fuel :
          WalProg Unit).Always Untouched := by
        split
        · trivial
        · exact ih
      cases dropped with
      | none => exact hrest
      | some storyId => exact .bind (always_untouched_dropStoryCopies storyId) fun _ => hrest

theorem untouched_setAnswer (s : KeeperWal) (status : ErrorCode) (entry : Queued) :
    Untouched s (s.setAnswer status entry) := by
  cases entry with
  | drop storyId => exact .refl s
  | event event =>
    exact ⟨fun _ => rfl, rfl, rfl, rfl, rfl, fun _ h => .inl h, fun segment group image hmem =>
      (List.mem_cons.mp hmem).resolve_left (by simp)⟩

theorem always_untouched_finishGroup (group : List Queued) (status : ErrorCode) (segment : ℕ) :
    (finishGroup group status segment).Always Untouched := by
  have hanswers : ∀ entries, (answerEntries status entries).Always Untouched := by
    intro entries
    induction entries with
    | nil => trivial
    | cons entry entries ih =>
      refine .bind (.modify fun s => ?_) fun _ => ih
      exact (untouched_setAnswer s status entry).trans (.of_eq rfl rfl rfl rfl rfl rfl rfl)
  exact .bind (always_untouched_registerGroup status segment group.length) fun _ => hanswers group

theorem always_untouched_refuseEntries (entries : List Queued) :
    (refuseEntries entries).Always Untouched := by
  induction entries with
  | nil => trivial
  | cons entry entries ih =>
    refine .bind (.modify fun s => ?_) fun _ => ih
    exact (untouched_setAnswer s _ entry).trans (.of_eq rfl rfl rfl rfl rfl rfl rfl)

theorem untouched_foldl {α : Type} {f : KeeperWal → α → KeeperWal}
    (hf : ∀ s a, Untouched s (f s a)) (l : List α) (s : KeeperWal) :
    Untouched s (l.foldl f s) := by
  induction l generalizing s with
  | nil => exact .refl s
  | cons a l ih => exact (hf s a).trans (ih (f s a))

theorem untouched_registerRecovered (s : KeeperWal) (recovered : RecoveredState)
    (idOf : Option (RecoveredStory → StoryId)) :
    Untouched s (s.registerRecovered recovered idOf) := by
  rw [registerRecovered]
  refine untouched_foldl (fun s entry => ?_) _ s
  obtain ⟨walStoryId, story⟩ := entry
  simp only
  split
  · rw [registerStory]
    refine untouched_foldl (fun s entry => ?_) _ s
    exact ⟨fun _ => rfl, rfl, rfl, rfl, rfl, fun _ h => .inl h, fun _ _ _ hmem =>
      (List.mem_cons.mp hmem).resolve_left (by simp)⟩
  · exact .refl s

/-! ### Requests -/

theorem always_untouched_await (completion : CompletionId) :
    (await completion).Always Untouched := by
  refine .atomically fun s c b s' h => ?_
  obtain ⟨status, -, heq⟩ := Option.map_eq_some_iff.mp h
  cases heq
  exact .refl s

theorem always_untouched_answerSettled (why : Settled) :
    (answerSettled why).Always Untouched := by
  cases why with
  | joined completion => exact always_untouched_await completion
  | durable => trivial
  | refused => trivial

theorem always_untouched_lookupDurable (client : ClientId) (identity : Identity) :
    (lookupDurable client identity).Always Untouched := by
  refine .bind (.modify fun s => .observe (by simp)) fun found => ?_
  cases found with
  | none => trivial
  | some why => exact .bind (always_untouched_answerSettled why) fun _ => trivial

/-- A record is queued as `appendDurable` encoded it. -/
theorem always_untouched_appendEnqueue (client : ClientId) {chronicle story : Bytes}
    {event : LogEvent} {frame : Wal.EventFrame} {namesFrame : Bytes}
    (hframe : Wal.encodeEvent event [] = some frame)
    (hnames : Wal.encodeNames ⟨event.storyId, chronicle, story⟩ = some namesFrame) :
    (appendEnqueue client (.ofEvent event) frame namesFrame).Always Untouched := by
  refine .modify fun s => ?_
  split
  · exact .observe (by simp)
  · refine ⟨fun _ => rfl, rfl, rfl, rfl, rfl, fun entry hentry => ?_,
      fun segment group image hmem => (List.mem_cons.mp hmem).resolve_left (by simp)⟩
    refine (List.mem_append.mp hentry).imp_right fun hnew => ?_
    rw [List.mem_singleton.mp hnew]
    exact ⟨event, chronicle, story, hframe, rfl, hnames⟩

theorem always_untouched_appendDurable (client : ClientId) (chronicle story : Bytes)
    (event : LogEvent) : (appendDurable client chronicle story event).Always Untouched := by
  have hanswer : ∀ why : Settled,
      (do return (← answerSettled why, false) : WalProg (ErrorCode × Bool)).Always Untouched :=
    fun why => .bind (always_untouched_answerSettled why) fun _ => trivial
  refine .bind (.modify fun s => .observe (by simp)) fun found => ?_
  cases found with
  | some why => exact hanswer why
  | none =>
    simp only
    split
    · rename_i frame namesFrame hframe hnames
      refine .bind (always_untouched_appendEnqueue client hframe hnames) fun found => ?_
      cases found with
      | inl why => exact hanswer why
      | inr completion => exact .bind (always_untouched_await completion) fun _ => trivial
    · trivial

theorem always_untouched_storyDropped (storyId : StoryId) :
    (storyDropped storyId).Always Untouched := by
  refine .modify fun s => ?_
  have hobserve : Untouched s (s.observe [.storyDropped storyId]) := .observe (by simp)
  simp only
  split
  · exact hobserve
  · refine hobserve.trans ⟨fun _ => rfl, rfl, rfl, rfl, rfl, fun entry hentry => ?_,
      fun _ _ _ h => h⟩
    refine (List.mem_append.mp hentry).imp_right fun hnew => ?_
    rw [List.mem_singleton.mp hnew]
    trivial

theorem always_untouched_refusal (event : LogEvent) : (refusal event).Always Untouched := by
  have hadmit : walAdmit.Always Untouched := by
    refine .bind (always_untouched_read _) fun running => ?_
    split
    · refine .bind (always_untouched_read _) fun failed => ?_
      split
      · trivial
      · refine .bind (always_untouched_read _) fun low => ?_
        split <;> trivial
    · trivial
  have hcap : refusedByCap.Always Untouched := by
    refine .bind (always_untouched_ask _) fun r => ?_
    obtain ⟨unconfirmed, cap⟩ := r
    simp only
    split
    · exact .modify fun s => .of_eq rfl rfl rfl rfl rfl rfl rfl
    · refine .bind (always_untouched_read _) fun capped => ?_
      split
      · split
        · trivial
        · exact .modify fun s => .of_eq rfl rfl rfl rfl rfl rfl rfl
      · trivial
  have hpipeline : hasPipeline.Always Untouched := by
    refine .bind (always_untouched_ask _) fun r => ?_
    split
    · trivial
    · exact always_untouched_ask _
  simp only [refusal]
  split
  · trivial
  · refine .bind hadmit fun r => ?_
    cases r with
    | Unavailable => trivial
    | Full => trivial
    | Ok =>
      refine .bind hcap fun refused => ?_
      split
      · trivial
      · refine .bind hpipeline fun has => ?_
        split <;> trivial

theorem always_untouched_write (storyIdOf : Bytes → Bytes → StoryId) (client : ClientId)
    (chronicle story : Bytes) (event : LogEvent) :
    (write storyIdOf client chronicle story event).Always Untouched := by
  simp only [write]
  split
  · trivial
  · refine .bind (always_untouched_lookupDurable client _) fun earlier => ?_
    cases earlier with
    | some status => trivial
    | none =>
      refine .bind (always_untouched_refusal event) fun refused => ?_
      cases refused with
      | some status => trivial
      | none =>
        refine .bind (always_untouched_appendDurable client chronicle story event) fun answer => ?_
        obtain ⟨status, wrote⟩ := answer
        simp only
        split
        · exact .bind (.modify fun s => .observe (by simp)) fun _ => trivial
        · trivial

/-- **A client writes to no segment.** -/
theorem always_untouched_client (storyIdOf : Bytes → Bytes → StoryId) (client : ClientId)
    (call : Call) : (body storyIdOf (.client client) call).Always Untouched := by
  have hrequest : ∀ (identity : Identity) {answer : WalProg (Option ErrorCode)},
      answer.Always Untouched → (request client identity answer).Always Untouched := by
    intro identity answer hanswer
    refine .bind (.modify fun s => .observe (by simp)) fun _ => ?_
    refine .bind hanswer fun status => .modify fun s => .observe ?_
    cases status <;> simp
  cases call with
  | lookupDurable identity => exact hrequest _ (always_untouched_lookupDurable client identity)
  | appendDurable chronicle story event =>
    exact hrequest _
      (.bind (always_untouched_appendDurable client chronicle story event) fun _ => trivial)
  | write chronicle story event =>
    exact hrequest _
      (.bind (always_untouched_write storyIdOf client chronicle story event) fun _ => trivial)
  | releaseChunk storyId chunk => exact always_untouched_releaseChunkEvents storyId chunk
  | eventDiscarded storyId event => exact always_untouched_eventDiscarded storyId event
  | storyDropped storyId => exact always_untouched_storyDropped storyId
  | _ => trivial

end KeeperWal

end ChronoLog
