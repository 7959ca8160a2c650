import ChronoLog.Wal.ReleaseTracker

/-!
# The two walks of a chunk's release

`WalReleaseTracker::releaseChunk` walks the smaller side: the story's pending events between
the first and the last event of the chunk, erasing as it goes, or the chunk's events, looking
each one up.  Both work on the story's entry in place and erase it at the end if nothing is
left.  Either walk does what the releases of the chunk's events do one after another, in any
order.

## Main definitions

* `WalReleaseTracker.walkPending`, `WalReleaseTracker.walkChunk` — the two loops.
* `WalReleaseTracker.releaseChunkWalk` — `releaseChunk` with them.

## Main results

* `WalReleaseTracker.releaseEvents_perm` — the order of releases does not matter.
* `WalReleaseTracker.releaseChunkWalk_eq` — **a chunk's release is the release of its
  events.**
* `WalReleaseTracker.releaseChunk_eq` — the same of the short form of `releaseChunk`.
-/

namespace ChronoLog

namespace WalReleaseTracker

/-! ### The loops -/

/-- A walk: the tracker's counters and the story's entry. -/
abbrev Walk := WalReleaseTracker × OrdMap EventSequence (List Copy)

/-- An event found on a walk: its copies are forgotten and it leaves the entry. -/
def Walk.take (walk : Walk) (event : EventSequence) (copies : List Copy) : Walk :=
  (walk.1.forgetCopies copies, walk.2.erase event)

/-- The entries between the chunk's first event and its last. -/
def pendingRange (events : OrdMap EventSequence (List Copy)) (chunk : StoryChunk) :
    List (EventSequence × List Copy) :=
  match chunk.logEvents.keys.head?, chunk.logEvents.keys.getLast? with
  | some first, some last =>
    (events.toList.dropWhile fun entry => compare entry.1 first = .lt).takeWhile
      fun entry => (compare entry.1 last).isLE
  | _, _ => []

/-- The walk over the pending events of the story, which erases those the chunk holds. -/
def walkPending (walk : Walk) (chunk : StoryChunk) : Walk :=
  (pendingRange walk.2 chunk).foldl
    (fun walk entry =>
      if chunk.logEvents.contains entry.1 then walk.take entry.1 entry.2 else walk) walk

/-- The walk over the chunk's events, which looks each one up. -/
def walkChunk (walk : Walk) (chunk : StoryChunk) : Walk :=
  chunk.logEvents.keys.foldl
    (fun walk event =>
      match walk.2[event]? with
      | some copies => walk.take event copies
      | none => walk) walk

/-- `getEventCount`, an `int`, as a `size_t`. -/
def eventCount (chunk : StoryChunk) : ℕ :=
  if chunk.getEventCount % 2 ^ 32 < 2 ^ 31 then chunk.getEventCount % 2 ^ 32
  else 2 ^ 64 - 2 ^ 32 + chunk.getEventCount % 2 ^ 32

/-- `releaseChunk`. -/
def releaseChunkWalk (tracker : WalReleaseTracker) (storyId : StoryId) (chunk : StoryChunk) :
    WalReleaseTracker :=
  match tracker.pending[storyId]? with
  | none => tracker
  | some events =>
    if chunk.empty then tracker
    else
      let walk :=
        if events.size ≤ eventCount chunk then walkPending (tracker, events) chunk
        else walkChunk (tracker, events) chunk
      walk.1.setEvents storyId walk.2

/-! ### The order of releases -/

variable {tracker : WalReleaseTracker} {storyId : StoryId} {event other : EventSequence}

/-- The count of a segment after a copy is forgotten. -/
theorem outstandingCopies_forgetCopy (tracker : WalReleaseTracker) (copy : Copy) (segment : ℕ) :
    (tracker.forgetCopy copy).outstandingCopies[segment]? =
      if copy.segment = segment then
        tracker.outstandingCopies[segment]?.bind fun count =>
          if count - 1 = 0 then none else some (count - 1)
      else tracker.outstandingCopies[segment]? := by
  unfold forgetCopy
  dsimp only
  by_cases hsegment : copy.segment = segment
  · subst hsegment
    rw [if_pos rfl]
    cases hcount : tracker.outstandingCopies[copy.segment]? with
    | none => exact hcount
    | some count =>
      dsimp only
      rw [Option.bind_some]
      split
      · exact Std.ExtTreeMap.getElem?_erase_self
      · exact Std.ExtTreeMap.getElem?_insert_self
  · rw [if_neg hsegment]
    split
    · rfl
    · split
      · rw [Std.ExtTreeMap.getElem?_erase, if_neg (by rwa [Std.compare_eq_iff_eq])]
      · rw [Std.ExtTreeMap.getElem?_insert, if_neg (by rwa [Std.compare_eq_iff_eq])]

/-- Two copies are forgotten in either order. -/
theorem forgetCopy_comm (tracker : WalReleaseTracker) (a b : Copy) :
    (tracker.forgetCopy a).forgetCopy b = (tracker.forgetCopy b).forgetCopy a := by
  have hcounts : ((tracker.forgetCopy a).forgetCopy b).outstandingCopies =
      ((tracker.forgetCopy b).forgetCopy a).outstandingCopies := by
    refine Std.ExtTreeMap.ext_getElem? fun segment => ?_
    simp only [outstandingCopies_forgetCopy]
    by_cases ha : a.segment = segment <;> by_cases hb : b.segment = segment <;>
      simp only [ha, hb, if_true, if_false]
  have hbytes : tracker.pendingByteCount - a.bytes - b.bytes =
      tracker.pendingByteCount - b.bytes - a.bytes := Nat.sub_right_comm _ _ _
  calc (tracker.forgetCopy a).forgetCopy b
      = ⟨tracker.pending, ((tracker.forgetCopy a).forgetCopy b).outstandingCopies,
          tracker.pendingEventCount, tracker.pendingByteCount - a.bytes - b.bytes⟩ := rfl
    _ = (tracker.forgetCopy b).forgetCopy a := by rw [hcounts, hbytes]; rfl

instance : RightCommutative forgetCopy := ⟨forgetCopy_comm⟩

/-- The number of pending events plays no part in forgetting copies. -/
theorem foldl_forgetCopy_count (copies : List Copy) (tracker : WalReleaseTracker) (count : ℕ) :
    copies.foldl forgetCopy { tracker with pendingEventCount := count } =
      { copies.foldl forgetCopy tracker with pendingEventCount := count } := by
  induction copies generalizing tracker with
  | nil => rfl
  | cons copy copies ih => exact ih (tracker.forgetCopy copy)

theorem pendingEventCount_foldl_forgetCopy (copies : List Copy) (tracker : WalReleaseTracker) :
    (copies.foldl forgetCopy tracker).pendingEventCount = tracker.pendingEventCount := by
  induction copies generalizing tracker with
  | nil => rfl
  | cons copy copies ih => exact ih (tracker.forgetCopy copy)

/-- The copies of two events are forgotten in either order. -/
theorem forgetCopies_comm (tracker : WalReleaseTracker) (a b : List Copy) :
    (tracker.forgetCopies a).forgetCopies b = (tracker.forgetCopies b).forgetCopies a := by
  have hfold : ∀ l l' : List Copy, (tracker.forgetCopies l).forgetCopies l' =
      { (l ++ l').foldl forgetCopy tracker with
        pendingEventCount := tracker.pendingEventCount - 1 - 1 } := by
    intro l l'
    unfold forgetCopies
    dsimp only
    rw [foldl_forgetCopy_count, List.foldl_append]
    simp only [pendingEventCount_foldl_forgetCopy]
  rw [hfold, hfold, List.perm_append_comm.foldl_eq]

/-- Forgetting copies does not look at the entries. -/
theorem forgetCopies_setEvents (tracker : WalReleaseTracker) (storyId : StoryId)
    (events : OrdMap EventSequence (List Copy)) (copies : List Copy) :
    (tracker.setEvents storyId events).forgetCopies copies =
      (tracker.forgetCopies copies).setEvents storyId events := by
  have hfold : ∀ (l : List Copy) (t : WalReleaseTracker),
      l.foldl forgetCopy (t.setEvents storyId events) =
        (l.foldl forgetCopy t).setEvents storyId events := by
    intro l
    induction l with
    | nil => exact fun t => rfl
    | cons copy l ih => exact fun t => ih (t.forgetCopy copy)
  unfold forgetCopies
  rw [hfold]
  rfl

/-- The last entry written for a story stays. -/
theorem setEvents_setEvents (tracker : WalReleaseTracker) (storyId : StoryId)
    (events events' : OrdMap EventSequence (List Copy)) :
    (tracker.setEvents storyId events).setEvents storyId events' =
      tracker.setEvents storyId events' := by
  have hmap : ((tracker.setEvents storyId events).setEvents storyId events').pending =
      (tracker.setEvents storyId events').pending := by
    refine Std.ExtTreeMap.ext_getElem? fun story => ?_
    unfold setEvents
    dsimp only
    split <;> split <;>
      simp only [Std.ExtTreeMap.getElem?_insert, Std.ExtTreeMap.getElem?_erase,
        Std.compare_eq_iff_eq] <;> split <;> rfl
  calc (tracker.setEvents storyId events).setEvents storyId events'
      = { tracker with pending := ((tracker.setEvents storyId events).setEvents storyId
          events').pending } := rfl
    _ = tracker.setEvents storyId events' := by rw [hmap]; rfl

theorem eventsOf_forgetCopies (tracker : WalReleaseTracker) (copies : List Copy)
    (storyId : StoryId) : (tracker.forgetCopies copies).eventsOf storyId =
      tracker.eventsOf storyId := by
  unfold eventsOf
  rw [pending_forgetCopies]

/-! ### Releases one after another -/

theorem releaseEvent_of_none (h : tracker.copies storyId event = none) :
    tracker.releaseEvent storyId event = tracker := by
  unfold copies at h
  rw [releaseEvent, h]

theorem releaseEvent_of_some {copies : List Copy} (h : tracker.copies storyId event = some copies) :
    tracker.releaseEvent storyId event =
      (tracker.forgetCopies copies).setEvents storyId
        ((tracker.eventsOf storyId).erase event) := by
  unfold WalReleaseTracker.copies at h
  rw [releaseEvent, h]

/-- Two events of a story are released in either order. -/
theorem releaseEvent_comm (tracker : WalReleaseTracker) (storyId : StoryId)
    (a b : EventSequence) :
    (tracker.releaseEvent storyId a).releaseEvent storyId b =
      (tracker.releaseEvent storyId b).releaseEvent storyId a := by
  by_cases hab : a = b
  · rw [hab]
  have hcopies : ∀ {x y : EventSequence}, x ≠ y →
      (tracker.releaseEvent storyId x).copies storyId y = tracker.copies storyId y :=
    fun {x y} hxy => by rw [copies_releaseEvent, if_neg fun h => hxy h.2]
  have hba := hcopies (Ne.symm hab)
  have hab' := hcopies hab
  cases ha : tracker.copies storyId a with
  | none => rw [releaseEvent_of_none ha, releaseEvent_of_none (hba.trans ha)]
  | some ca =>
    cases hb : tracker.copies storyId b with
    | none => rw [releaseEvent_of_none hb, releaseEvent_of_none (hab'.trans hb)]
    | some cb =>
      have herase : ((tracker.eventsOf storyId).erase a).erase b =
          ((tracker.eventsOf storyId).erase b).erase a := by
        refine Std.ExtTreeMap.ext_getElem? fun key => ?_
        simp only [Std.ExtTreeMap.getElem?_erase, Std.compare_eq_iff_eq]
        split <;> split <;> rfl
      rw [releaseEvent_of_some (hab'.trans hb), releaseEvent_of_some (hba.trans ha),
        releaseEvent_of_some ha, releaseEvent_of_some hb]
      simp only [forgetCopies_setEvents, setEvents_setEvents, eventsOf_setEvents, if_true]
      rw [forgetCopies_comm, herase]

/-- **The order of releases does not matter.** -/
theorem releaseEvents_perm {events order : List EventSequence} (h : order.Perm events) :
    tracker.releaseEvents storyId order = tracker.releaseEvents storyId events := by
  have : RightCommutative fun (t : WalReleaseTracker) event => t.releaseEvent storyId event :=
    ⟨fun t => releaseEvent_comm t storyId⟩
  exact h.foldl_eq tracker

/-- Events that are not pending may be left out. -/
theorem releaseEvents_filter {events : List EventSequence} (hnodup : events.Nodup) :
    tracker.releaseEvents storyId (events.filter fun event => tracker.isPending storyId event) =
      tracker.releaseEvents storyId events := by
  induction events generalizing tracker with
  | nil => rfl
  | cons event events ih =>
    obtain ⟨hnot, hnodup⟩ := List.nodup_cons.mp hnodup
    have hsame : events.filter (fun other => tracker.isPending storyId other) =
        events.filter fun other =>
          (tracker.releaseEvent storyId event).isPending storyId other := by
      refine List.filter_congr fun other hother => ?_
      rw [isPending_eq_isSome, isPending_eq_isSome, copies_releaseEvent, if_neg]
      rintro ⟨-, rfl⟩
      exact hnot hother
    have hcons : tracker.releaseEvents storyId (event :: events) =
        (tracker.releaseEvent storyId event).releaseEvents storyId events := rfl
    rw [hcons, ← ih hnodup, ← hsame]
    by_cases hpending : tracker.isPending storyId event = true
    · rw [List.filter_cons_of_pos hpending]
      rfl
    · rw [List.filter_cons_of_neg hpending]
      have hnone : tracker.copies storyId event = none := by
        rw [isPending_eq_isSome, Bool.not_eq_true, Option.isSome_eq_false_iff,
          Option.isNone_iff_eq_none] at hpending
        exact hpending
      rw [releaseEvent_of_none hnone]

/-! ### A walk and the releases -/

/-- A walk with its entry written back. -/
def Walk.written (walk : Walk) (storyId : StoryId) : WalReleaseTracker :=
  walk.1.setEvents storyId walk.2

theorem Walk.copies_written (walk : Walk) (storyId : StoryId) (event : EventSequence) :
    (Walk.written walk storyId).copies storyId event = walk.2[event]? := by
  rw [copies, Walk.written, eventsOf_setEvents, if_pos rfl]

/-- An event found on a walk is released. -/
theorem Walk.written_take {walk : Walk} {copies : List Copy} (h : walk.2[event]? = some copies) :
    Walk.written (Walk.take walk event copies) storyId =
      (Walk.written walk storyId).releaseEvent storyId event := by
  rw [releaseEvent_of_some ((Walk.copies_written walk storyId event).trans h)]
  unfold Walk.take Walk.written
  rw [forgetCopies_setEvents, setEvents_setEvents, eventsOf_setEvents, if_pos rfl]

theorem Walk.releaseEvent_of_none {walk : Walk} (h : walk.2[event]? = none) :
    (Walk.written walk storyId).releaseEvent storyId event = Walk.written walk storyId :=
  WalReleaseTracker.releaseEvent_of_none ((Walk.copies_written walk storyId event).trans h)

/-- The walk over the chunk's events releases each. -/
theorem written_walkChunk (walk : Walk) (chunk : StoryChunk) :
    Walk.written (walkChunk walk chunk) storyId =
      (Walk.written walk storyId).releaseEvents storyId chunk.logEvents.keys := by
  unfold walkChunk releaseEvents
  induction chunk.logEvents.keys generalizing walk with
  | nil => rfl
  | cons event events ih =>
    rw [List.foldl_cons, List.foldl_cons, ih]
    cases h : walk.2[event]? with
    | none => rw [Walk.releaseEvent_of_none h]
    | some copies =>
      dsimp only
      rw [Walk.written_take h]

/-- The walk over entries of the story releases those that the chunk holds. -/
theorem written_foldl_take {chunk : StoryChunk} {entries : List (EventSequence × List Copy)}
    (walk : Walk) (hentries : ∀ entry ∈ entries, walk.2[entry.1]? = some entry.2)
    (hnodup : (entries.map Prod.fst).Nodup) :
    Walk.written (entries.foldl (fun walk entry =>
        if chunk.logEvents.contains entry.1 then Walk.take walk entry.1 entry.2 else walk) walk)
      storyId =
    (Walk.written walk storyId).releaseEvents storyId
      ((entries.map Prod.fst).filter fun event => chunk.logEvents.contains event) := by
  induction entries generalizing walk with
  | nil => rfl
  | cons entry entries ih =>
    rw [List.map_cons, List.nodup_cons] at hnodup
    rw [List.foldl_cons, List.map_cons]
    have hhead := hentries entry List.mem_cons_self
    have htail : ∀ e ∈ entries, walk.2[e.1]? = some e.2 := fun e he =>
      hentries e (List.mem_cons_of_mem entry he)
    by_cases hcontains : chunk.logEvents.contains entry.1 = true
    · rw [if_pos hcontains, List.filter_cons_of_pos hcontains, ih _ _ hnodup.2,
        Walk.written_take hhead]
      · rfl
      · -- the entries left are of other events
        intro e he
        change (walk.2.erase entry.1)[e.1]? = _
        rw [Std.ExtTreeMap.getElem?_erase, if_neg]
        · exact htail e he
        · rw [Std.compare_eq_iff_eq]
          intro heq
          exact hnodup.1 (heq ▸ List.mem_map_of_mem he)
    · rw [if_neg hcontains, List.filter_cons_of_neg hcontains, ih walk htail hnodup.2]

/-- **The entries between the chunk's first event and its last** hold every pending event of
the chunk. -/
theorem filter_pendingRange_perm (events : OrdMap EventSequence (List Copy))
    (chunk : StoryChunk) :
    (((pendingRange events chunk).map Prod.fst).filter
        fun event => chunk.logEvents.contains event).Perm
      (chunk.logEvents.keys.filter fun event => events.contains event) := by
  have hsorted : events.toList.Pairwise fun a b => compare a.1 b.1 = .lt :=
    Std.ExtTreeMap.ordered_keys_toList
  have hkeys : chunk.logEvents.keys.Pairwise fun a b => compare a b = .lt :=
    Std.ExtTreeMap.ordered_keys
  have hsub : (pendingRange events chunk).Sublist events.toList := by
    unfold pendingRange
    split
    · exact (List.takeWhile_sublist _).trans (List.dropWhile_sublist _)
    · exact List.nil_sublist _
  have hnodup : ((pendingRange events chunk).map Prod.fst).Nodup := by
    refine (Std.ExtTreeMap.nodup_keys (t := events)).sublist ?_
    rw [← Std.ExtTreeMap.map_fst_toList_eq_keys]
    exact hsub.map _
  refine (List.perm_ext_iff_of_nodup (hnodup.filter _)
    (Std.ExtTreeMap.nodup_keys.filter _)).mpr fun event => ?_
  rw [List.mem_filter, List.mem_filter, Std.ExtTreeMap.mem_keys, ← Std.ExtTreeMap.contains_iff_mem,
    and_comm, and_congr_right_iff]
  intro hchunk
  rw [Std.ExtTreeMap.contains_iff_mem, ← Std.ExtTreeMap.mem_keys] at hchunk
  constructor
  · intro h
    obtain ⟨entry, hentry, rfl⟩ := List.mem_map.mp h
    rw [Std.ExtTreeMap.contains_iff_mem, ← Std.ExtTreeMap.mem_keys,
      ← Std.ExtTreeMap.map_fst_toList_eq_keys]
    exact List.mem_map_of_mem (hsub.subset hentry)
  · intro hpending
    obtain ⟨copies, hcopies⟩ := Option.isSome_iff_exists.mp
      (Std.ExtTreeMap.contains_eq_isSome_getElem?.symm.trans hpending)
    refine List.mem_map.mpr ⟨(event, copies), ?_, rfl⟩
    have hmem := Std.ExtTreeMap.mem_toList_iff_getElem?_eq_some.mpr hcopies
    unfold pendingRange
    cases hfirst : chunk.logEvents.keys.head? with
    | none =>
      rw [List.head?_eq_none_iff.mp hfirst] at hchunk
      cases hchunk
    | some first =>
      cases hlast : chunk.logEvents.keys.getLast? with
      | none =>
        rw [List.getLast?_eq_none_iff.mp hlast] at hchunk
        cases hchunk
      | some last =>
        have hle := SortedList.isLE_of_head? id hkeys hfirst hchunk
        have hge := SortedList.isLE_of_getLast? id hkeys hlast hchunk
        dsimp only
        rw [SortedList.dropWhile_eq_filter, SortedList.takeWhile_eq_filter]
        · simp only [List.mem_filter, hmem, true_and]
          refine ⟨?_, hge⟩
          rw [Bool.not_eq_true', decide_eq_false_iff_not]
          intro hlt
          rw [id, id, Std.OrientedCmp.gt_of_lt hlt] at hle
          cases hle
        · refine (hsorted.sublist List.filter_sublist).imp fun hlt hbelow => ?_
          exact Std.TransCmp.isLE_trans (Ordering.isLE_of_eq_lt hlt) hbelow
        · refine hsorted.imp fun hlt hbelow => ?_
          rw [decide_eq_true_eq] at hbelow ⊢
          exact Std.TransCmp.lt_trans hlt hbelow

/-- The walk over the pending events releases what the chunk holds. -/
theorem written_walkPending (walk : Walk) (chunk : StoryChunk) :
    Walk.written (walkPending walk chunk) storyId =
      (Walk.written walk storyId).releaseEvents storyId chunk.logEvents.keys := by
  have hsub : (pendingRange walk.2 chunk).Sublist walk.2.toList := by
    unfold pendingRange
    split
    · exact (List.takeWhile_sublist _).trans (List.dropWhile_sublist _)
    · exact List.nil_sublist _
  unfold walkPending
  rw [written_foldl_take walk, releaseEvents_perm (filter_pendingRange_perm walk.2 chunk),
    ← @releaseEvents_filter _ _ chunk.logEvents.keys Std.ExtTreeMap.nodup_keys]
  · congr 1
    refine List.filter_congr fun event _ => ?_
    rw [isPending_eq_isSome, Walk.copies_written, Std.ExtTreeMap.contains_eq_isSome_getElem?]
  · intro entry hentry
    exact Std.ExtTreeMap.mem_toList_iff_getElem?_eq_some.mp (hsub.subset hentry)
  · refine (Std.ExtTreeMap.nodup_keys (t := walk.2)).sublist ?_
    rw [← Std.ExtTreeMap.map_fst_toList_eq_keys]
    exact hsub.map _

/-- No story has an entry with nothing pending. -/
def NoEmptyStory (tracker : WalReleaseTracker) : Prop :=
  ∀ (storyId : StoryId) (events : OrdMap EventSequence (List Copy)),
    tracker.pending[storyId]? = some events → events.isEmpty = false

theorem written_entry {events : OrdMap EventSequence (List Copy)}
    (hentry : tracker.pending[storyId]? = some events) (hne : events.isEmpty = false) :
    Walk.written (tracker, events) storyId = tracker := by
  unfold Walk.written setEvents
  rw [hne, if_neg (by decide)]
  have hsame : tracker.pending.insert storyId events = tracker.pending := by
    refine Std.ExtTreeMap.ext_getElem? fun story => ?_
    rw [Std.ExtTreeMap.getElem?_insert]
    split
    · next heq => rw [← Std.compare_eq_iff_eq.mp heq, hentry]
    · rfl
  rw [hsame]

/-- **A chunk's release is the release of its events**, whichever side it walks and in any
order. -/
theorem releaseChunkWalk_eq (h : tracker.NoEmptyStory) (chunk : StoryChunk)
    {order : List EventSequence} (horder : order.Perm (chunk.events.map LogEvent.sequence)) :
    tracker.releaseChunkWalk storyId chunk = tracker.releaseEvents storyId order := by
  rw [releaseEvents_perm horder, chunk.map_sequence_events]
  unfold releaseChunkWalk
  cases hentry : tracker.pending[storyId]? with
  | none =>
    have hnone : ∀ event, tracker.isPending storyId event = false := fun event => by
      rw [isPending, eventsOf, hentry]
      rfl
    rw [← releaseEvents_filter Std.ExtTreeMap.nodup_keys]
    simp only [hnone, List.filter_false]
    rfl
  | some events =>
    dsimp only
    split
    · next hempty =>
      have hkeys : chunk.logEvents.keys = [] := by
        rw [StoryChunk.empty, Std.ExtTreeMap.isEmpty_iff] at hempty
        rw [hempty]
        rfl
      rw [hkeys]
      rfl
    · have hwritten := written_entry hentry (h storyId events hentry)
      change Walk.written (if _ then _ else _) storyId = _
      split
      · rw [written_walkPending, hwritten]
      · rw [written_walkChunk, hwritten]

/-- The pending events between the chunk's ends that the chunk holds are the chunk's events
that are pending. -/
theorem pendingInChunk_perm (tracker : WalReleaseTracker) (storyId : StoryId)
    (chunk : StoryChunk) :
    (tracker.pendingInChunk storyId chunk).Perm
      (chunk.logEvents.keys.filter fun event => tracker.isPending storyId event) := by
  have hkeys : chunk.logEvents.keys.Pairwise fun a b => compare a b = .lt :=
    Std.ExtTreeMap.ordered_keys
  have hnodup : (tracker.pendingInChunk storyId chunk).Nodup := by
    unfold pendingInChunk
    split
    · exact Std.ExtTreeMap.nodup_keys.filter _
    · exact List.nodup_nil
  refine (List.perm_ext_iff_of_nodup hnodup (Std.ExtTreeMap.nodup_keys.filter _)).mpr
    fun event => ?_
  rw [List.mem_filter, isPending, pendingInChunk]
  cases hfirst : chunk.logEvents.keys.head? with
  | none => simp [List.head?_eq_none_iff.mp hfirst]
  | some first =>
    cases hlast : chunk.logEvents.keys.getLast? with
    | none => simp [List.getLast?_eq_none_iff.mp hlast]
    | some last =>
      simp only [List.mem_filter, Bool.and_eq_true, Std.ExtTreeMap.contains_iff_mem,
        Std.ExtTreeMap.mem_keys]
      constructor
      · rintro ⟨hpending, -, hchunk⟩
        exact ⟨hchunk, hpending⟩
      · rintro ⟨hchunk, hpending⟩
        rw [← Std.ExtTreeMap.mem_keys] at hchunk
        exact ⟨hpending, ⟨SortedList.isLE_of_head? id hkeys hfirst hchunk,
          SortedList.isLE_of_getLast? id hkeys hlast hchunk⟩, Std.ExtTreeMap.mem_keys.mp hchunk⟩

/-- The release of a chunk, in short: its events one after another. -/
theorem releaseChunk_eq (tracker : WalReleaseTracker) (storyId : StoryId) (chunk : StoryChunk) :
    tracker.releaseChunk storyId chunk =
      tracker.releaseEvents storyId chunk.logEvents.keys := by
  unfold releaseChunk
  split
  · next hempty =>
    rw [StoryChunk.empty, Std.ExtTreeMap.isEmpty_iff] at hempty
    rw [hempty]
    rfl
  · split
    · rw [releaseEvents_perm (tracker.pendingInChunk_perm storyId chunk),
        releaseEvents_filter Std.ExtTreeMap.nodup_keys]
    · rfl

end WalReleaseTracker

end ChronoLog
