import ChronoLog.Wal.ReleaseCounts
import ChronoLog.Wal.KeeperWal

/-!
# The release of a large chunk in batches

`KeeperWal::releaseChunkEvents` releases a chunk in one hold of the mutex where the smaller
side is at most a batch, and else a batch of the chunk's events per hold.  Between two holds
the committer may add copies and other calls may release events.  Whatever they do, the call
releases events of its chunk only, and each of these is released at some point of the call.

## Main definitions

* `KeeperWal.OnlyReleases` — an action that releases events of the chunk and nothing else.
* `KeeperWal.ReleasedIn` — an event that a run of the call leaves released.

## Main results

* `KeeperWal.released_of_runs` — **every event of the chunk is released at some point of the
  call.**
* `KeeperWal.chunk_release` — the three paths of a chunk's release.
-/

namespace ChronoLog

open Concurrent (Prog)

namespace KeeperWal

variable {storyId : StoryId} {chunk : StoryChunk} {s t u : KeeperWal}

/-- The action releases events of the chunk, each with all its copies, and touches no other
event. -/
def OnlyReleases (storyId : StoryId) (chunk : StoryChunk) (s t : KeeperWal) : Prop :=
  ∀ story event, t.tracker.copies story event = s.tracker.copies story event ∨
    story = storyId ∧ event ∈ chunk.events.map LogEvent.sequence ∧
      t.tracker.copies story event = none

/-- The event is not pending after some step of the run. -/
def ReleasedIn (storyId : StoryId) (event : EventSequence)
    (steps : List (KeeperWal × KeeperWal)) : Prop :=
  ∃ step ∈ steps, step.2.tracker.isPending storyId event = false

theorem tracker_pruneAddOrder (s : KeeperWal) (storyId : StoryId) (budget : ℕ) :
    (s.pruneAddOrder storyId budget).tracker = s.tracker := by
  unfold pruneAddOrder
  split
  · rfl
  · split <;> rfl

/-- With nothing pending for the story, no event of it is. -/
theorem isPending_of_none (h : s.tracker.pendingEventsOf storyId = 0) (event : EventSequence) :
    s.tracker.isPending storyId event = false := by
  unfold WalReleaseTracker.pendingEventsOf at h
  have hempty : s.tracker.eventsOf storyId = ∅ := by
    rw [← Std.ExtTreeMap.isEmpty_iff, Std.ExtTreeMap.isEmpty_eq_size_beq_zero, h]
    rfl
  rw [WalReleaseTracker.isPending, hempty]
  exact Std.ExtTreeMap.contains_empty

theorem isPending_releaseEvents {tracker : WalReleaseTracker} {events : List EventSequence}
    {event : EventSequence} (h : event ∈ events) :
    (tracker.releaseEvents storyId events).isPending storyId event = false := by
  rw [WalReleaseTracker.isPending_eq_isSome, WalReleaseTracker.copies_releaseEvents,
    if_pos ⟨rfl, h⟩]
  rfl

theorem onlyReleases_of_tracker (h : t.tracker = s.tracker) : OnlyReleases storyId chunk s t :=
  fun story event => Or.inl (by rw [h])

theorem onlyReleases_releaseEvents {events : List EventSequence}
    (hevents : ∀ event ∈ events, event ∈ chunk.events.map LogEvent.sequence)
    (h : t.tracker = s.tracker.releaseEvents storyId events) :
    OnlyReleases storyId chunk s t := by
  intro story event
  rw [h, WalReleaseTracker.copies_releaseEvents]
  split
  · next hreleased => exact Or.inr ⟨hreleased.1.symm, hevents event hreleased.2, rfl⟩
  · exact Or.inl rfl

/-! ### The actions -/

/-- A batch releases events of the chunk only. -/
theorem always_releaseBatch {batch : List EventSequence}
    (hbatch : ∀ event ∈ batch, event ∈ chunk.events.map LogEvent.sequence) :
    (releaseBatch storyId batch).Always (OnlyReleases storyId chunk) := by
  refine Prog.Always.modify fun s => ?_
  split
  · exact onlyReleases_of_tracker (tracker_pruneAddOrder s storyId 0)
  · exact onlyReleases_releaseEvents hbatch (tracker_pruneAddOrder _ storyId kLockBatch)

theorem always_releaseBatches (fuel : ℕ) {events : List EventSequence}
    (hevents : ∀ event ∈ events, event ∈ chunk.events.map LogEvent.sequence) :
    (releaseBatches storyId fuel events).Always (OnlyReleases storyId chunk) := by
  induction fuel generalizing events with
  | zero => trivial
  | succ fuel ih =>
    refine .bind (always_releaseBatch fun event he => hevents event (List.mem_of_mem_take he))
      fun more => ?_
    split
    · split
      · trivial
      · exact ih fun event he => hevents event (List.mem_of_mem_drop he)
    · trivial

theorem always_releaseChunkEvents (storyId : StoryId) (chunk : StoryChunk) :
    (releaseChunkEvents storyId chunk).Always (OnlyReleases storyId chunk) := by
  have hkeys : ∀ event ∈ chunk.logEvents.keys, event ∈ chunk.events.map LogEvent.sequence :=
    fun event he => chunk.map_sequence_events.symm ▸ he
  unfold releaseChunkEvents
  split
  · trivial
  · refine .bind (Prog.Always.modify fun s => ?_) fun done => ?_
    · dsimp only
      split
      · exact onlyReleases_of_tracker rfl
      · split
        · refine onlyReleases_releaseEvents hkeys ?_
          exact (tracker_pruneAddOrder _ storyId kLockBatch).trans
            (WalReleaseTracker.releaseChunk_eq _ storyId chunk)
        · exact onlyReleases_of_tracker rfl
    · split
      · trivial
      · exact always_releaseBatches _ hkeys

/-! ### Whole runs -/

variable {Env : KeeperWal → KeeperWal → Prop} {steps : List (KeeperWal × KeeperWal)}

/-- The batches release every event left. -/
theorem released_of_releaseBatches (hrefl : ∀ s, Env s s) {fuel : ℕ}
    {events : List EventSequence} (hfuel : events.length ≤ fuel) {s : KeeperWal}
    (h : (releaseBatches storyId fuel events).Runs Env s steps () u) :
    ∀ event ∈ events, ReleasedIn storyId event steps := by
  induction fuel generalizing events s steps with
  | zero =>
    intro event he
    rw [List.length_eq_zero_iff.mp (Nat.le_zero.mp hfuel)] at he
    cases he
  | succ fuel ih =>
    intro event he
    obtain ⟨before, after, more, t, hbatch, hrest, rfl⟩ := h.of_bind hrefl
    obtain ⟨s', -, rfl, hmore, -⟩ := hbatch.of_modify
    by_cases hnone : s'.tracker.pendingEventsOf storyId = 0
    · -- the story has nothing pending any more
      refine ⟨_, List.mem_append_left _ List.mem_cons_self, ?_⟩
      dsimp only
      rw [if_pos hnone]
      dsimp only
      rw [tracker_pruneAddOrder]
      exact isPending_of_none hnone event
    · rw [if_neg hnone] at hmore
      subst hmore
      rw [← List.take_append_drop kLockBatch events] at he
      rcases List.mem_append.mp he with he | he
      · refine ⟨_, List.mem_append_left _ List.mem_cons_self, ?_⟩
        dsimp only
        rw [if_neg hnone]
        dsimp only
        rw [tracker_pruneAddOrder]
        exact isPending_releaseEvents he
      · rw [if_pos rfl] at hrest
        have hleft : (events.drop kLockBatch).isEmpty = false :=
          List.isEmpty_eq_false_iff.mpr (List.ne_nil_of_mem he)
        rw [hleft, if_neg (by decide)] at hrest
        have hshort : (events.drop kLockBatch).length ≤ fuel := by
          rw [List.length_drop]
          unfold kLockBatch
          omega
        obtain ⟨step, hstep, hreleased⟩ := ih hshort hrest event he
        exact ⟨step, List.mem_append_right _ hstep, hreleased⟩

/-- **Every event of the chunk is released at some point of the call**, whatever the others
do. -/
theorem released_of_runs (hrefl : ∀ s, Env s s)
    (h : (releaseChunkEvents storyId chunk).Runs Env s steps () u) :
    ∀ event ∈ chunk.events.map LogEvent.sequence, ReleasedIn storyId event steps := by
  intro event he
  rw [chunk.map_sequence_events] at he
  unfold releaseChunkEvents at h
  have hsome : chunk.empty = false := by
    rw [← Bool.not_eq_true, StoryChunk.empty, Std.ExtTreeMap.isEmpty_iff]
    intro hempty
    rw [hempty] at he
    cases he
  rw [hsome, if_neg (by decide)] at h
  obtain ⟨before, after, done, t, hfirst, hrest, rfl⟩ := h.of_bind hrefl
  obtain ⟨t, -, rfl, hdone, -⟩ := hfirst.of_modify
  dsimp only at hdone ⊢
  generalize t.observe _ = s' at hdone ⊢
  by_cases hnone : s'.tracker.pendingEventsOf storyId = 0
  · refine ⟨_, List.mem_append_left _ List.mem_cons_self, ?_⟩
    dsimp only
    rw [if_pos hnone]
    exact isPending_of_none hnone event
  · by_cases hsmall : min (s'.tracker.pendingEventsOf storyId) chunk.getEventCount ≤ kLockBatch
    · refine ⟨_, List.mem_append_left _ List.mem_cons_self, ?_⟩
      dsimp only
      rw [if_neg hnone, if_pos hsmall]
      dsimp only
      rw [tracker_pruneAddOrder]
      dsimp only
      rw [WalReleaseTracker.releaseChunk_eq]
      exact isPending_releaseEvents he
    · rw [if_neg hnone, if_neg hsmall] at hdone
      subst hdone
      rw [if_neg Bool.false_ne_true] at hrest
      obtain ⟨step, hstep, hreleased⟩ := released_of_releaseBatches hrefl le_rfl hrest event he
      exact ⟨step, List.mem_append_right _ hstep, hreleased⟩

/-! ### A run alone -/

theorem releaseEvents_of_none (h : s.tracker.pendingEventsOf storyId = 0)
    (events : List EventSequence) : s.tracker.releaseEvents storyId events = s.tracker := by
  induction events with
  | nil => rfl
  | cons event events ih =>
    have hnone : s.tracker.copies storyId event = none := by
      rw [← Option.not_isSome_iff_eq_none, ← WalReleaseTracker.isPending_eq_isSome,
        isPending_of_none h event]
      exact Bool.false_ne_true
    change (s.tracker.releaseEvent storyId event).releaseEvents storyId events = s.tracker
    rw [WalReleaseTracker.releaseEvent_of_none hnone]
    exact ih

/-- Alone, the batches release the events in their order. -/
theorem ensures_releaseBatches {fuel : ℕ} {events : List EventSequence}
    (hfuel : events.length ≤ fuel) (s : KeeperWal) :
    (releaseBatches storyId fuel events).Ensures (fun _ => True) (fun _ => True)
      (fun _ u => u.tracker = s.tracker.releaseEvents storyId events) s := by
  induction fuel generalizing events s with
  | zero =>
    rw [List.length_eq_zero_iff.mp (Nat.le_zero.mp hfuel)]
    exact .ret trivial rfl
  | succ fuel ih =>
    -- the story has nothing pending, or this batch of it is released
    refine .seq (fun more t =>
      if more then t.tracker = s.tracker.releaseEvents storyId (events.take kLockBatch)
      else t.tracker = s.tracker.releaseEvents storyId events) (.modify trivial trivial ?_)
      fun more t hmore => ?_
    · split
      · next hnone =>
        exact (tracker_pruneAddOrder s storyId 0).trans (releaseEvents_of_none hnone events).symm
      · exact tracker_pruneAddOrder _ storyId kLockBatch
    · cases more with
      | false => exact .ret trivial hmore
      | true =>
        have hsplit : t.tracker.releaseEvents storyId (events.drop kLockBatch) =
            s.tracker.releaseEvents storyId events := by
          rw [hmore]
          unfold WalReleaseTracker.releaseEvents
          rw [← List.foldl_append, List.take_append_drop]
        rw [if_pos rfl]
        split
        · next hdone =>
          rw [List.isEmpty_iff.mp hdone] at hsplit
          exact .ret trivial hsplit
        · have hshort : (events.drop kLockBatch).length ≤ fuel := by
            rw [List.length_drop]
            unfold kLockBatch
            omega
          rw [← hsplit]
          exact ih hshort t

/-- **Alone, the call ends with every event of the chunk released**, one after another. -/
theorem ensures_releaseChunkEvents (storyId : StoryId) (chunk : StoryChunk) (s : KeeperWal) :
    (releaseChunkEvents storyId chunk).Ensures (fun _ => True) (fun _ => True)
      (fun _ u => u.tracker = s.tracker.releaseEvents storyId chunk.logEvents.keys) s := by
  unfold releaseChunkEvents
  split
  · next hempty =>
    rw [Std.ExtTreeMap.isEmpty_iff.mp hempty]
    exact .ret trivial rfl
  · refine .seq (fun done t =>
      if done then t.tracker = s.tracker.releaseEvents storyId chunk.logEvents.keys
      else t.tracker = s.tracker) (.modify trivial trivial ?_) fun done t hdone => ?_
    · dsimp only
      generalize hs' : s.observe _ = s'
      have htracker : s'.tracker = s.tracker := by
        rw [← hs']
        rfl
      rw [← htracker]
      by_cases hnone : s'.tracker.pendingEventsOf storyId = 0
      · rw [if_pos hnone]
        exact (releaseEvents_of_none hnone _).symm
      · by_cases hsmall :
            min (s'.tracker.pendingEventsOf storyId) chunk.getEventCount ≤ kLockBatch
        · rw [if_neg hnone, if_pos hsmall]
          exact (tracker_pruneAddOrder _ storyId kLockBatch).trans
            (WalReleaseTracker.releaseChunk_eq _ storyId chunk)
        · rw [if_neg hnone, if_neg hsmall]
          exact rfl
    · cases done with
      | true => exact .ret trivial hdone
      | false =>
        rw [if_neg Bool.false_ne_true]
        rw [if_neg Bool.false_ne_true] at hdone
        rw [← hdone]
        exact ensures_releaseBatches le_rfl t

/-! ### The three paths -/

/-- **A chunk's release is the release of each of its events.**  The tracker's walk of either
side is the events released in any order.  Among any other calls `releaseChunkEvents`
releases events of the chunk only, and each of them at some point; alone it ends as the
events released in any order. -/
theorem chunk_release (ops : List WalReleaseTracker.Op) (storyId : StoryId)
    (chunk : StoryChunk) {order : List EventSequence}
    (horder : order.Perm (chunk.events.map LogEvent.sequence)) :
    (WalReleaseTracker.run ops).releaseChunkWalk storyId chunk =
        (WalReleaseTracker.run ops).releaseEvents storyId order ∧
      (∀ (Env : KeeperWal → KeeperWal → Prop) (s u : KeeperWal)
          (steps : List (KeeperWal × KeeperWal)), (∀ s, Env s s) →
        (releaseChunkEvents storyId chunk).Runs Env s steps () u →
          (∀ step ∈ steps, OnlyReleases storyId chunk step.1 step.2) ∧
            ∀ event ∈ order, ReleasedIn storyId event steps) ∧
      ∀ s : KeeperWal, (releaseChunkEvents storyId chunk).Ensures (fun _ => True)
        (fun _ => True) (fun _ u => u.tracker = s.tracker.releaseEvents storyId order) s := by
  refine ⟨?_, fun Env s u steps hrefl hrun => ⟨?_, ?_⟩, fun s => ?_⟩
  · exact WalReleaseTracker.releaseChunkWalk_eq (WalReleaseTracker.accurate_run ops).stories
      chunk horder
  · exact hrun.always (always_releaseChunkEvents storyId chunk)
  · exact fun event he => released_of_runs hrefl hrun event (horder.mem_iff.mp he)
  · rw [WalReleaseTracker.releaseEvents_perm horder, chunk.map_sequence_events]
    exact ensures_releaseChunkEvents storyId chunk s

/-- Two events of story 7 in a second. -/
def twoEvents : StoryChunk :=
  (((StoryChunk.new 7 0 1000000000).insertEvent ⟨7, 100, 1, 0, [1]⟩).1.insertEvent
    ⟨7, 200, 1, 1, [2]⟩).1

/-- A chunk with one of its two events pending, beside a copy of another event. -/
theorem chunk_release_two :
    (WalReleaseTracker.run [.addCopy 7 ⟨100, 1, 0⟩ 1 10, .addCopy 7 ⟨300, 1, 2⟩ 1 10]
        ).releaseChunkWalk 7 twoEvents =
      (WalReleaseTracker.run [.addCopy 7 ⟨100, 1, 0⟩ 1 10, .addCopy 7 ⟨300, 1, 2⟩ 1 10]
        ).releaseEvents 7 [⟨200, 1, 1⟩, ⟨100, 1, 0⟩] :=
  (chunk_release _ 7 twoEvents (by decide +kernel)).1

end KeeperWal

end ChronoLog
