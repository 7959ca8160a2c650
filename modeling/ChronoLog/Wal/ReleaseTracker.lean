import ChronoLog.Event

/-!
# Pending copies of durable events

Which durable events the write-ahead log still holds, and in which segments
(`WalReleaseTracker.cpp`).  A copy is one E record of an event.

## Main definitions

* `WalReleaseTracker` with `addCopy`, `releaseEvent`, `releaseChunk`,
  `dropStory` and `deletable`.
* `WalReleaseTracker.copies` — the pending copies of an identity.

## Main results

* `copies_addCopy`, `copies_releaseEvent`, `copies_releaseChunk`,
  `copies_dropStory` — what each operation leaves pending.
-/

namespace ChronoLog

/-- One E record of a pending event. -/
structure Copy where
  segment : ℕ
  bytes : ℕ
  deriving DecidableEq, Repr

/-- The durable events the log holds and where. -/
structure WalReleaseTracker where
  /-- The pending events of each story and their copies. -/
  pending : OrdMap StoryId (OrdMap EventSequence (List Copy))
  /-- The pending copies in each segment; a segment with none has no entry. -/
  outstandingCopies : OrdMap ℕ ℕ
  pendingEventCount : ℕ
  pendingByteCount : ℕ

namespace WalReleaseTracker

/-- A tracker with nothing pending. -/
def empty : WalReleaseTracker := ⟨∅, ∅, 0, 0⟩

/-- The pending events of a story. -/
def eventsOf (tracker : WalReleaseTracker) (storyId : StoryId) :
    OrdMap EventSequence (List Copy) :=
  tracker.pending[storyId]?.getD ∅

/-- `isPending`. -/
def isPending (tracker : WalReleaseTracker) (storyId : StoryId) (event : EventSequence) : Bool :=
  (tracker.eventsOf storyId).contains event

/-- `pendingEvents(story)`. -/
def pendingEventsOf (tracker : WalReleaseTracker) (storyId : StoryId) : ℕ :=
  (tracker.eventsOf storyId).size

/-- `outstanding`. -/
def outstanding (tracker : WalReleaseTracker) (segment : ℕ) : ℕ :=
  tracker.outstandingCopies[segment]?.getD 0

/-- `addCopy`. -/
def addCopy (tracker : WalReleaseTracker) (storyId : StoryId) (event : EventSequence)
    (segment bytes : ℕ) : WalReleaseTracker :=
  let copies := (tracker.eventsOf storyId)[event]?.getD []
  { pending := tracker.pending.insert storyId
      ((tracker.eventsOf storyId).insert event (copies ++ [⟨segment, bytes⟩]))
    outstandingCopies :=
      tracker.outstandingCopies.insert segment (tracker.outstanding segment + 1)
    pendingEventCount :=
      if copies.isEmpty then tracker.pendingEventCount + 1 else tracker.pendingEventCount
    pendingByteCount := tracker.pendingByteCount + bytes }

/-- One copy taken out of the segment counts and the byte total. -/
def forgetCopy (tracker : WalReleaseTracker) (copy : Copy) : WalReleaseTracker :=
  { tracker with
    outstandingCopies :=
      match tracker.outstandingCopies[copy.segment]? with
      | none => tracker.outstandingCopies
      | some count =>
        if count - 1 = 0 then tracker.outstandingCopies.erase copy.segment
        else tracker.outstandingCopies.insert copy.segment (count - 1)
    pendingByteCount := tracker.pendingByteCount - copy.bytes }

/-- `forgetCopies`. -/
def forgetCopies (tracker : WalReleaseTracker) (copies : List Copy) : WalReleaseTracker :=
  let counted := copies.foldl forgetCopy tracker
  { counted with pendingEventCount := counted.pendingEventCount - 1 }

/-- A story's entry is erased when its last event is released. -/
def setEvents (tracker : WalReleaseTracker) (storyId : StoryId)
    (events : OrdMap EventSequence (List Copy)) : WalReleaseTracker :=
  { tracker with
    pending := if events.isEmpty then tracker.pending.erase storyId
      else tracker.pending.insert storyId events }

/-- `releaseEvent`. -/
def releaseEvent (tracker : WalReleaseTracker) (storyId : StoryId) (event : EventSequence) :
    WalReleaseTracker :=
  match (tracker.eventsOf storyId)[event]? with
  | none => tracker
  | some copies =>
    (tracker.forgetCopies copies).setEvents storyId ((tracker.eventsOf storyId).erase event)

/-- The events one after another, as the loop of `releaseChunk` releases them. -/
def releaseEvents (tracker : WalReleaseTracker) (storyId : StoryId)
    (events : List EventSequence) : WalReleaseTracker :=
  events.foldl (fun tracker event => tracker.releaseEvent storyId event) tracker

/-- The pending events of the story between the first and the last event of the
chunk that the chunk holds. -/
def pendingInChunk (tracker : WalReleaseTracker) (storyId : StoryId) (chunk : StoryChunk) :
    List EventSequence :=
  match chunk.logEvents.keys.head?, chunk.logEvents.keys.getLast? with
  | some first, some last =>
    (tracker.eventsOf storyId).keys.filter fun event =>
      (compare first event).isLE && (compare event last).isLE && chunk.logEvents.contains event
  | _, _ => []

/-- `releaseChunk`: walks the smaller side. -/
def releaseChunk (tracker : WalReleaseTracker) (storyId : StoryId) (chunk : StoryChunk) :
    WalReleaseTracker :=
  if chunk.empty then tracker
  else if tracker.pendingEventsOf storyId ≤ chunk.getEventCount then
    tracker.releaseEvents storyId (tracker.pendingInChunk storyId chunk)
  else tracker.releaseEvents storyId chunk.logEvents.keys

/-- `dropStory`. -/
def dropStory (tracker : WalReleaseTracker) (storyId : StoryId) : WalReleaseTracker :=
  let counted := (tracker.eventsOf storyId).toList.foldl
    (fun tracker event => tracker.forgetCopies event.2) tracker
  { counted with pending := counted.pending.erase storyId }

/-- `deletable`. -/
def deletable (tracker : WalReleaseTracker) (segmentsOldestFirst : List ℕ) (active : ℕ) :
    List ℕ :=
  segmentsOldestFirst.filter fun segment =>
    decide (segment ≠ active) && decide (tracker.outstanding segment = 0)

/-! ### What is pending -/

/-- The pending copies of an identity. -/
def copies (tracker : WalReleaseTracker) (storyId : StoryId) (event : EventSequence) :
    Option (List Copy) :=
  (tracker.eventsOf storyId)[event]?

variable {tracker : WalReleaseTracker} {storyId story : StoryId} {event other : EventSequence}

theorem isPending_eq_isSome (tracker : WalReleaseTracker) (storyId : StoryId)
    (event : EventSequence) :
    tracker.isPending storyId event = (tracker.copies storyId event).isSome := by
  simp only [isPending, copies, Std.ExtTreeMap.isSome_getElem?_eq_contains]

@[simp] theorem copies_empty (storyId : StoryId) (event : EventSequence) :
    empty.copies storyId event = none := by
  simp [copies, eventsOf, empty]

theorem eventsOf_addCopy (tracker : WalReleaseTracker) (storyId story : StoryId)
    (event : EventSequence) (segment bytes : ℕ) :
    (tracker.addCopy storyId event segment bytes).eventsOf story =
      if storyId = story then (tracker.eventsOf storyId).insert event
        ((tracker.copies storyId event).getD [] ++ [⟨segment, bytes⟩])
      else tracker.eventsOf story := by
  simp only [addCopy, eventsOf, copies, Std.ExtTreeMap.getElem?_insert, Std.compare_eq_iff_eq]
  split <;> rfl

theorem copies_addCopy (tracker : WalReleaseTracker) (storyId story : StoryId)
    (event other : EventSequence) (segment bytes : ℕ) :
    (tracker.addCopy storyId event segment bytes).copies story other =
      if storyId = story ∧ event = other then
        some ((tracker.copies storyId event).getD [] ++ [⟨segment, bytes⟩])
      else tracker.copies story other := by
  rw [copies, eventsOf_addCopy]
  by_cases hstory : storyId = story
  · subst hstory
    simp only [if_true, Std.ExtTreeMap.getElem?_insert, Std.compare_eq_iff_eq, true_and]
    rfl
  · simp only [hstory, if_false, false_and]
    rfl

@[simp] theorem pending_forgetCopies (tracker : WalReleaseTracker) (copies : List Copy) :
    (tracker.forgetCopies copies).pending = tracker.pending := by
  have hfold : ∀ (l : List Copy) (t : WalReleaseTracker),
      (l.foldl forgetCopy t).pending = t.pending := by
    intro l
    induction l with
    | nil => exact fun t => rfl
    | cons copy l ih => exact fun t => ih (t.forgetCopy copy)
  exact hfold copies tracker

theorem eventsOf_setEvents (tracker : WalReleaseTracker) (storyId story : StoryId)
    (events : OrdMap EventSequence (List Copy)) :
    (tracker.setEvents storyId events).eventsOf story =
      if storyId = story then events else tracker.eventsOf story := by
  simp only [setEvents, eventsOf]
  split
  · rename_i hempty
    simp only [Std.ExtTreeMap.getElem?_erase, Std.compare_eq_iff_eq]
    split
    · rw [Std.ExtTreeMap.isEmpty_iff.mp hempty]
      rfl
    · rfl
  · simp only [Std.ExtTreeMap.getElem?_insert, Std.compare_eq_iff_eq]
    split <;> rfl

theorem eventsOf_releaseEvent (tracker : WalReleaseTracker) (storyId story : StoryId)
    (event : EventSequence) :
    (tracker.releaseEvent storyId event).eventsOf story =
      if storyId = story then (tracker.eventsOf storyId).erase event
      else tracker.eventsOf story := by
  simp only [releaseEvent]
  split
  · rename_i hnone
    split
    · rename_i hstory
      subst hstory
      refine (Std.ExtTreeMap.ext_getElem? fun other => ?_)
      simp only [Std.ExtTreeMap.getElem?_erase, Std.compare_eq_iff_eq]
      split
      · rename_i hevent
        rw [← hevent, hnone]
      · rfl
    · rfl
  · rw [eventsOf_setEvents]
    simp only [eventsOf, pending_forgetCopies]

theorem copies_releaseEvent (tracker : WalReleaseTracker) (storyId story : StoryId)
    (event other : EventSequence) :
    (tracker.releaseEvent storyId event).copies story other =
      if storyId = story ∧ event = other then none else tracker.copies story other := by
  rw [copies, eventsOf_releaseEvent]
  by_cases hstory : storyId = story
  · subst hstory
    simp only [if_true, Std.ExtTreeMap.getElem?_erase, Std.compare_eq_iff_eq, true_and]
    rfl
  · simp only [hstory, if_false, false_and]
    rfl

theorem copies_releaseEvents (events : List EventSequence) (tracker : WalReleaseTracker)
    (storyId story : StoryId) (other : EventSequence) :
    (tracker.releaseEvents storyId events).copies story other =
      if storyId = story ∧ other ∈ events then none else tracker.copies story other := by
  induction events generalizing tracker with
  | nil => simp [releaseEvents]
  | cons event events ih =>
    have hcons : tracker.releaseEvents storyId (event :: events) =
        (tracker.releaseEvent storyId event).releaseEvents storyId events := rfl
    rw [hcons, ih, copies_releaseEvent]
    simp only [List.mem_cons]
    by_cases hstory : storyId = story <;> by_cases hevent : event = other <;>
      by_cases hmem : other ∈ events <;> simp [hstory, hevent, hmem, Ne.symm]

theorem copies_dropStory (tracker : WalReleaseTracker) (storyId story : StoryId)
    (event : EventSequence) :
    (tracker.dropStory storyId).copies story event =
      if storyId = story then none else tracker.copies story event := by
  have hfold : ∀ (l : List (EventSequence × List Copy)) (t : WalReleaseTracker),
      (l.foldl (fun tracker event => tracker.forgetCopies event.2) t).pending = t.pending := by
    intro l
    induction l with
    | nil => exact fun t => rfl
    | cons entry l ih => exact fun t => (ih _).trans (pending_forgetCopies t entry.2)
  simp only [copies, eventsOf, dropStory, hfold, Std.ExtTreeMap.getElem?_erase,
    Std.compare_eq_iff_eq]
  split
  · rfl
  · rfl

end WalReleaseTracker

end ChronoLog
