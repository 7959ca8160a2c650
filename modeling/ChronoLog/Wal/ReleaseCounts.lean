import ChronoLog.Wal.ChunkRelease
import ChronoLog.Lib.OrdMap

/-!
# What the release tracker counts

The tracker keeps, beside the pending copies, how many events and bytes are pending and how
many copies each segment holds.  The counters are updated copy by copy where copies come and
go, and are what they say: sums over what is pending.

## Main definitions

* `WalReleaseTracker.total` — a number for the copies of each pending identity, added up.
* `WalReleaseTracker.Accurate` — the counters are sums, and no entry is empty.
* `WalReleaseTracker.Op` — the operations, with `WalReleaseTracker.run` for a sequence of
  them.

## Main results

* `WalReleaseTracker.Accurate.run` — **every sequence of operations keeps the counters
  accurate.**
* `WalReleaseTracker.Accurate.outstanding_eq_zero_iff` — a segment has no copies outstanding
  exactly when nothing pending has one in it.
-/

namespace ChronoLog

open OrderedMap

namespace WalReleaseTracker

/-- A number for the copies of each identity of a story, added up. -/
def totalOf (f : List Copy → ℕ) (events : OrdMap EventSequence (List Copy)) : ℕ :=
  sumOf (fun entry => f entry.2) events

/-- A number for the copies of each pending identity, added up. -/
def total (f : List Copy → ℕ) (tracker : WalReleaseTracker) : ℕ :=
  sumOf (fun entry => totalOf f entry.2) tracker.pending

/-- The bytes of copies. -/
def bytesOf (copies : List Copy) : ℕ := (copies.map Copy.bytes).sum

/-- The copies in a segment. -/
def copiesIn (segment : ℕ) (copies : List Copy) : ℕ :=
  copies.countP fun copy => copy.segment == segment

/-- **The tracker's counters are accurate**: the events, the bytes and the copies of each
segment are the sums over what is pending, and no segment, story or identity has an empty
entry. -/
structure Accurate (tracker : WalReleaseTracker) : Prop where
  events : tracker.pendingEventCount = tracker.total fun _ => 1
  bytes : tracker.pendingByteCount = tracker.total bytesOf
  copies : ∀ segment, tracker.outstanding segment = tracker.total (copiesIn segment)
  segments : ∀ segment : ℕ, tracker.outstandingCopies[segment]? ≠ some 0
  stories : tracker.NoEmptyStory
  identities : ∀ storyId event, tracker.copies storyId event ≠ some []

variable {tracker : WalReleaseTracker} {storyId : StoryId} {event : EventSequence}
  {f : List Copy → ℕ}

/-! ### Sums -/

theorem totalOf_of_isEmpty {events : OrdMap EventSequence (List Copy)}
    (h : events.isEmpty = true) : totalOf f events = 0 := by
  rw [Std.ExtTreeMap.isEmpty_iff.mp h]
  rfl

/-- The sum with a story's part apart. -/
theorem total_eq (f : List Copy → ℕ) (tracker : WalReleaseTracker) (storyId : StoryId) :
    tracker.total f = totalOf f (tracker.eventsOf storyId) +
      sumOf (fun entry => totalOf f entry.2) (tracker.pending.erase storyId) := by
  have h := sumOf_erase_add (fun entry => totalOf f entry.2) tracker.pending storyId
  rw [total, ← h, Nat.add_comm, eventsOf]
  cases tracker.pending[storyId]? <;> rfl

/-- The sum after a story's entry is written. -/
theorem total_setEvents (f : List Copy → ℕ) (tracker : WalReleaseTracker) (storyId : StoryId)
    (events : OrdMap EventSequence (List Copy)) :
    (tracker.setEvents storyId events).total f + totalOf f (tracker.eventsOf storyId) =
      tracker.total f + totalOf f events := by
  rw [tracker.total_eq f storyId]
  unfold total setEvents
  dsimp only
  split
  · next hempty =>
    rw [totalOf_of_isEmpty hempty]
    omega
  · rw [sumOf_insert]
    dsimp only
    omega

theorem total_forgetCopies (f : List Copy → ℕ) (tracker : WalReleaseTracker)
    (copies : List Copy) : (tracker.forgetCopies copies).total f = tracker.total f := by
  unfold total
  rw [pending_forgetCopies]

/-- The sum after an event is released. -/
theorem total_releaseEvent {copies : List Copy}
    (h : tracker.copies storyId event = some copies) :
    (tracker.releaseEvent storyId event).total f + f copies = tracker.total f := by
  have hset := total_setEvents f (tracker.forgetCopies copies) storyId
    ((tracker.eventsOf storyId).erase event)
  have herase := sumOf_erase_add (fun entry => f entry.2) (tracker.eventsOf storyId) event
  unfold WalReleaseTracker.copies at h
  rw [h, Option.map_some, Option.getD_some] at herase
  dsimp only at herase
  rw [releaseEvent_of_some h]
  rw [total_forgetCopies, eventsOf_forgetCopies] at hset
  unfold totalOf at hset
  omega

/-- The sum after a copy is added. -/
theorem total_addCopy (f : List Copy → ℕ) (tracker : WalReleaseTracker) (storyId : StoryId)
    (event : EventSequence) (segment bytes : ℕ) :
    (tracker.addCopy storyId event segment bytes).total f +
        ((tracker.copies storyId event).map f).getD 0 =
      tracker.total f +
        f (((tracker.copies storyId event).getD []) ++ [⟨segment, bytes⟩]) := by
  have herase := sumOf_erase_add (fun entry => f entry.2) (tracker.eventsOf storyId) event
  rw [tracker.total_eq f storyId]
  unfold total addCopy copies
  dsimp only
  rw [sumOf_insert]
  unfold totalOf
  rw [sumOf_insert]
  change _ + (((tracker.eventsOf storyId)[event]?).map f).getD 0 = _ at herase
  dsimp only
  omega

/-! ### Counters -/

theorem bytesOf_append (a b : List Copy) : bytesOf (a ++ b) = bytesOf a + bytesOf b := by
  rw [bytesOf, List.map_append, List.sum_append]
  rfl

theorem copiesIn_append (segment : ℕ) (a b : List Copy) :
    copiesIn segment (a ++ b) = copiesIn segment a + copiesIn segment b :=
  List.countP_append

theorem outstanding_forgetCopy (tracker : WalReleaseTracker) (copy : Copy) (segment : ℕ) :
    (tracker.forgetCopy copy).outstanding segment =
      tracker.outstanding segment - copiesIn segment [copy] := by
  unfold outstanding copiesIn
  rw [outstandingCopies_forgetCopy, List.countP_singleton]
  by_cases h : copy.segment = segment
  · rw [if_pos h, if_pos (by simpa using h)]
    cases tracker.outstandingCopies[segment]? with
    | none => rfl
    | some count =>
      rw [Option.bind_some]
      split
      · next hzero => exact hzero.symm
      · rfl
  · rw [if_neg h, if_neg (by simpa using h), Nat.sub_zero]

/-- The counters after copies are forgotten. -/
theorem counters_foldl_forgetCopy (copies : List Copy) (tracker : WalReleaseTracker) :
    (∀ segment, (copies.foldl forgetCopy tracker).outstanding segment =
        tracker.outstanding segment - copiesIn segment copies) ∧
      (copies.foldl forgetCopy tracker).pendingByteCount =
        tracker.pendingByteCount - bytesOf copies ∧
      ((∀ segment : ℕ, tracker.outstandingCopies[segment]? ≠ some 0) →
        ∀ segment : ℕ, (copies.foldl forgetCopy tracker).outstandingCopies[segment]? ≠ some 0) := by
  induction copies generalizing tracker with
  | nil => exact ⟨fun _ => rfl, rfl, fun h => h⟩
  | cons copy copies ih =>
    obtain ⟨hcounts, hbytes, hsegments⟩ := ih (tracker.forgetCopy copy)
    refine ⟨fun segment => ?_, ?_, fun h => hsegments fun segment => ?_⟩
    · rw [List.foldl_cons, hcounts, outstanding_forgetCopy, Nat.sub_sub, ← copiesIn_append]
      rfl
    · rw [List.foldl_cons, hbytes]
      exact Nat.sub_sub _ _ _
    · rw [outstandingCopies_forgetCopy]
      split
      · cases tracker.outstandingCopies[segment]? with
        | none => exact fun h => by cases h
        | some count =>
          rw [Option.bind_some]
          split
          · exact fun h => by cases h
          · next hne => exact fun heq => hne (Option.some.inj heq)
      · exact h segment

/-- The counters after the copies of an identity are forgotten. -/
theorem counters_forgetCopies (tracker : WalReleaseTracker) (copies : List Copy) :
    (tracker.forgetCopies copies).pendingEventCount = tracker.pendingEventCount - 1 ∧
      (tracker.forgetCopies copies).pendingByteCount =
        tracker.pendingByteCount - bytesOf copies ∧
      (∀ segment, (tracker.forgetCopies copies).outstanding segment =
        tracker.outstanding segment - copiesIn segment copies) ∧
      ((∀ segment : ℕ, tracker.outstandingCopies[segment]? ≠ some 0) →
        ∀ segment : ℕ, (tracker.forgetCopies copies).outstandingCopies[segment]? ≠ some 0) := by
  obtain ⟨hcounts, hbytes, hsegments⟩ := counters_foldl_forgetCopy copies tracker
  refine ⟨?_, hbytes, hcounts, hsegments⟩
  exact congrArg (· - 1) (pendingEventCount_foldl_forgetCopy copies tracker)

/-- The counters after the copies of several identities are forgotten. -/
theorem counters_foldl_forgetCopies (entries : List (EventSequence × List Copy))
    (tracker : WalReleaseTracker) :
    let after := entries.foldl (fun tracker entry => tracker.forgetCopies entry.2) tracker
    after.pending = tracker.pending ∧
      after.pendingEventCount =
        tracker.pendingEventCount - (entries.map fun _ => 1).sum ∧
      after.pendingByteCount =
        tracker.pendingByteCount - (entries.map fun entry => bytesOf entry.2).sum ∧
      (∀ segment, after.outstanding segment =
        tracker.outstanding segment - (entries.map fun entry => copiesIn segment entry.2).sum) ∧
      ((∀ segment : ℕ, tracker.outstandingCopies[segment]? ≠ some 0) →
        ∀ segment : ℕ, after.outstandingCopies[segment]? ≠ some 0) := by
  induction entries generalizing tracker with
  | nil => exact ⟨rfl, rfl, rfl, fun _ => rfl, fun h => h⟩
  | cons entry entries ih =>
    obtain ⟨hpending, hevents, hbytes, hcounts, hsegments⟩ := ih (tracker.forgetCopies entry.2)
    obtain ⟨hevents', hbytes', hcounts', hsegments'⟩ := counters_forgetCopies tracker entry.2
    refine ⟨hpending.trans (pending_forgetCopies tracker entry.2), ?_, ?_, fun segment => ?_,
      fun h => hsegments (hsegments' h)⟩
    · rw [List.foldl_cons, hevents, hevents', List.map_cons, List.sum_cons, Nat.sub_sub]
    · rw [List.foldl_cons, hbytes, hbytes', List.map_cons, List.sum_cons, Nat.sub_sub]
    · rw [List.foldl_cons, hcounts, hcounts', List.map_cons, List.sum_cons, Nat.sub_sub]

/-! ### The operations -/

/-- Nothing is counted at first. -/
theorem accurate_empty : empty.Accurate where
  events := rfl
  bytes := rfl
  copies segment := by
    change ((∅ : OrdMap ℕ ℕ)[segment]?).getD 0 = 0
    rw [Std.ExtTreeMap.getElem?_empty]
    rfl
  segments segment h := by
    change (∅ : OrdMap ℕ ℕ)[segment]? = some 0 at h
    rw [Std.ExtTreeMap.getElem?_empty] at h
    cases h
  stories storyId events h := by
    change (∅ : OrdMap StoryId (OrdMap EventSequence (List Copy)))[storyId]? = some events at h
    rw [Std.ExtTreeMap.getElem?_empty] at h
    cases h
  identities storyId event h := by
    rw [copies_empty] at h
    cases h

theorem Accurate.addCopy (h : tracker.Accurate) (storyId : StoryId) (event : EventSequence)
    (segment bytes : ℕ) : (tracker.addCopy storyId event segment bytes).Accurate where
  events := by
    have htotal := total_addCopy (fun _ => 1) tracker storyId event segment bytes
    have hevents := h.events
    change (if ((tracker.copies storyId event).getD []).isEmpty then tracker.pendingEventCount + 1
      else tracker.pendingEventCount) = _
    cases hcopies : tracker.copies storyId event with
    | none =>
      rw [hcopies] at htotal
      change total _ _ + 0 = _ at htotal
      change tracker.pendingEventCount + 1 = _
      omega
    | some copies =>
      have hne : copies.isEmpty = false := by
        rw [List.isEmpty_eq_false_iff]
        rintro rfl
        exact h.identities storyId event hcopies
      rw [hcopies] at htotal
      change total _ _ + 1 = _ at htotal
      rw [Option.getD_some, hne, if_neg (by decide)]
      omega
  bytes := by
    have htotal := total_addCopy bytesOf tracker storyId event segment bytes
    have hbytes := h.bytes
    rw [bytesOf_append] at htotal
    change _ = _ + (_ + bytes) at htotal
    change tracker.pendingByteCount + bytes = _
    cases hcopies : tracker.copies storyId event with
    | none =>
      rw [hcopies] at htotal
      change total _ _ + 0 = _ + (0 + bytes) at htotal
      omega
    | some copies =>
      rw [hcopies] at htotal
      change total _ _ + bytesOf copies = _ + (bytesOf copies + bytes) at htotal
      omega
  copies other := by
    have htotal := total_addCopy (copiesIn other) tracker storyId event segment bytes
    have hcopies := h.copies other
    have hafter : (tracker.addCopy storyId event segment bytes).outstanding other =
        tracker.outstanding other + copiesIn other [⟨segment, bytes⟩] := by
      unfold copiesIn
      rw [List.countP_singleton]
      change ((tracker.outstandingCopies.insert segment
        (tracker.outstanding segment + 1))[other]?).getD 0 = _
      rw [Std.ExtTreeMap.getElem?_insert]
      by_cases heq : segment = other
      · subst heq
        simp
      · rw [if_neg (by rwa [Std.compare_eq_iff_eq]), if_neg (by simpa using heq)]
        rfl
    rw [copiesIn_append] at htotal
    cases hold : tracker.copies storyId event with
    | none =>
      rw [hold] at htotal
      change total _ _ + 0 = _ + (0 + _) at htotal
      omega
    | some copies =>
      rw [hold] at htotal
      change total _ _ + copiesIn other copies = _ + (copiesIn other copies + _) at htotal
      omega
  segments other := by
    change (tracker.outstandingCopies.insert segment
      (tracker.outstanding segment + 1))[other]? ≠ some 0
    rw [Std.ExtTreeMap.getElem?_insert]
    split
    · exact fun heq => by cases heq
    · exact h.segments other
  stories story events hentry := by
    change (tracker.pending.insert storyId _)[story]? = some events at hentry
    rw [Std.ExtTreeMap.getElem?_insert] at hentry
    split at hentry
    · cases hentry
      rw [← Bool.not_eq_true, Std.ExtTreeMap.isEmpty_iff]
      exact Std.ExtTreeMap.insert_ne_empty
    · exact h.stories story events hentry
  identities story other := by
    rw [copies_addCopy]
    split
    · exact fun heq => by simp at heq
    · exact h.identities story other

/-- An entry that is written is not empty. -/
theorem NoEmptyStory.setEvents (h : tracker.NoEmptyStory) (storyId : StoryId)
    (events : OrdMap EventSequence (List Copy)) :
    (tracker.setEvents storyId events).NoEmptyStory := by
  intro story entry hentry
  unfold WalReleaseTracker.setEvents at hentry
  dsimp only at hentry
  split at hentry
  · rw [Std.ExtTreeMap.getElem?_erase] at hentry
    split at hentry
    · cases hentry
    · exact h story entry hentry
  · next hne =>
    rw [Std.ExtTreeMap.getElem?_insert] at hentry
    split at hentry
    · cases hentry
      exact Bool.not_eq_true _ ▸ hne
    · exact h story entry hentry

theorem Accurate.releaseEvent (h : tracker.Accurate) (storyId : StoryId)
    (event : EventSequence) : (tracker.releaseEvent storyId event).Accurate := by
  cases hcopies : tracker.copies storyId event with
  | none =>
    rw [releaseEvent_of_none hcopies]
    exact h
  | some copies =>
    have htotal : ∀ f : List Copy → ℕ,
        (tracker.releaseEvent storyId event).total f + f copies = tracker.total f :=
      fun f => total_releaseEvent hcopies
    obtain ⟨hevents, hbytes, hcounts, hsegments⟩ := counters_forgetCopies tracker copies
    have hstories : (tracker.releaseEvent storyId event).NoEmptyStory := by
      rw [releaseEvent_of_some hcopies]
      refine NoEmptyStory.setEvents (fun story entry hentry => ?_) _ _
      rw [pending_forgetCopies] at hentry
      exact h.stories story entry hentry
    refine ⟨?_, ?_, fun segment => ?_, ?_, hstories, fun story other => ?_⟩
    · have hone := htotal fun _ => 1
      have hsum := h.events
      rw [releaseEvent_of_some hcopies] at hone ⊢
      change (tracker.forgetCopies copies).pendingEventCount = _
      omega
    · have hone := htotal bytesOf
      have hsum := h.bytes
      rw [releaseEvent_of_some hcopies] at hone ⊢
      change (tracker.forgetCopies copies).pendingByteCount = _
      omega
    · have hone := htotal (copiesIn segment)
      have hsum := h.copies segment
      have hcount := hcounts segment
      rw [releaseEvent_of_some hcopies] at hone ⊢
      change (tracker.forgetCopies copies).outstanding segment = _
      omega
    · rw [releaseEvent_of_some hcopies]
      exact hsegments h.segments
    · rw [copies_releaseEvent]
      split
      · exact fun heq => by cases heq
      · exact h.identities story other

theorem Accurate.releaseEvents (h : tracker.Accurate) (storyId : StoryId)
    (events : List EventSequence) : (tracker.releaseEvents storyId events).Accurate := by
  induction events generalizing tracker with
  | nil => exact h
  | cons event events ih => exact ih (h.releaseEvent storyId event)

theorem Accurate.releaseChunkWalk (h : tracker.Accurate) (storyId : StoryId)
    (chunk : StoryChunk) : (tracker.releaseChunkWalk storyId chunk).Accurate := by
  rw [releaseChunkWalk_eq h.stories chunk (List.Perm.refl _)]
  exact h.releaseEvents storyId _

theorem Accurate.dropStory (h : tracker.Accurate) (storyId : StoryId) :
    (tracker.dropStory storyId).Accurate := by
  obtain ⟨hpending, hevents, hbytes, hcounts, hsegments⟩ :=
    counters_foldl_forgetCopies (tracker.eventsOf storyId).toList tracker
  have htotal : ∀ f : List Copy → ℕ, (tracker.dropStory storyId).total f +
      ((tracker.eventsOf storyId).toList.map fun entry => f entry.2).sum = tracker.total f := by
    intro f
    rw [tracker.total_eq f storyId, Nat.add_comm]
    unfold total WalReleaseTracker.dropStory
    dsimp only
    rw [hpending]
    rfl
  refine ⟨?_, ?_, fun segment => ?_, hsegments h.segments, fun story entry hentry => ?_,
    fun story other => ?_⟩
  · have hone := htotal fun _ => 1
    have hsum := h.events
    change (List.foldl _ tracker _).pendingEventCount = _
    omega
  · have hone := htotal bytesOf
    have hsum := h.bytes
    change (List.foldl _ tracker _).pendingByteCount = _
    omega
  · have hone := htotal (copiesIn segment)
    have hsum := h.copies segment
    have hcount := hcounts segment
    change (List.foldl _ tracker _).outstanding segment = _
    omega
  · unfold WalReleaseTracker.dropStory at hentry
    dsimp only at hentry
    rw [hpending, Std.ExtTreeMap.getElem?_erase] at hentry
    split at hentry
    · cases hentry
    · exact h.stories story entry hentry
  · rw [copies_dropStory]
    split
    · exact fun heq => by cases heq
    · exact h.identities story other

/-- An operation on the tracker. -/
inductive Op where
  | addCopy (storyId : StoryId) (event : EventSequence) (segment bytes : ℕ)
  | releaseEvent (storyId : StoryId) (event : EventSequence)
  | releaseChunk (storyId : StoryId) (chunk : StoryChunk)
  | dropStory (storyId : StoryId)

/-- The tracker after an operation. -/
def apply (tracker : WalReleaseTracker) : Op → WalReleaseTracker
  | .addCopy storyId event segment bytes => tracker.addCopy storyId event segment bytes
  | .releaseEvent storyId event => tracker.releaseEvent storyId event
  | .releaseChunk storyId chunk => tracker.releaseChunkWalk storyId chunk
  | .dropStory storyId => tracker.dropStory storyId

/-- The tracker after a sequence of operations. -/
def run (ops : List Op) : WalReleaseTracker := ops.foldl apply empty

theorem Accurate.apply (h : tracker.Accurate) (op : Op) : (tracker.apply op).Accurate := by
  cases op with
  | addCopy storyId event segment bytes => exact h.addCopy storyId event segment bytes
  | releaseEvent storyId event => exact h.releaseEvent storyId event
  | releaseChunk storyId chunk => exact h.releaseChunkWalk storyId chunk
  | dropStory storyId => exact h.dropStory storyId

/-- **Every sequence of operations keeps the counters accurate.** -/
theorem accurate_run (ops : List Op) : (run ops).Accurate := by
  unfold run
  induction ops using List.reverseRecOn with
  | nil => exact accurate_empty
  | append_singleton ops op ih =>
    rw [List.foldl_append]
    exact ih.apply op

/-! ### The segments that can be deleted -/

/-- **A segment has no copies outstanding exactly when nothing pending has one in it.** -/
theorem Accurate.outstanding_eq_zero_iff (h : tracker.Accurate) (segment : ℕ) :
    tracker.outstanding segment = 0 ↔ ∀ storyId event copies,
      tracker.copies storyId event = some copies → ∀ copy ∈ copies, copy.segment ≠ segment := by
  rw [h.copies segment, total, sumOf_eq_zero_iff]
  simp only [totalOf, sumOf_eq_zero_iff, copiesIn, List.countP_eq_zero, beq_iff_eq]
  constructor
  · intro hnone storyId event copies hcopies
    unfold WalReleaseTracker.copies eventsOf at hcopies
    cases hentry : tracker.pending[storyId]? with
    | none =>
      rw [hentry] at hcopies
      simp at hcopies
    | some events =>
      rw [hentry] at hcopies
      exact hnone storyId events hentry event copies hcopies
  · intro hnone storyId events hentry event copies hcopies
    refine hnone storyId event copies ?_
    rw [WalReleaseTracker.copies, eventsOf, hentry]
    exact hcopies

/-- **The tracker's counters are the sums over what is pending after every sequence of
operations, and a segment other than the active one is reported deletable exactly when
nothing pending has a copy in it.** -/
theorem release_tracker_invariant (ops : List Op) :
    (run ops).Accurate ∧
      ∀ (segments : List ℕ) (active segment : ℕ),
        segment ∈ (run ops).deletable segments active ↔
          segment ∈ segments ∧ segment ≠ active ∧ ∀ storyId event copies,
            (run ops).copies storyId event = some copies →
              ∀ copy ∈ copies, copy.segment ≠ segment := by
  refine ⟨accurate_run ops, fun segments active segment => ?_⟩
  rw [← (accurate_run ops).outstanding_eq_zero_iff, deletable, List.mem_filter, Bool.and_eq_true,
    decide_eq_true_eq, decide_eq_true_eq]

end WalReleaseTracker

end ChronoLog
