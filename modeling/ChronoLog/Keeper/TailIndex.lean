import ChronoLog.Keeper.RetentionRuns
import ChronoLog.Lib.OrdMap

/-!
# The tail index and its counts

A chunk carries the number of its events that the story's tail index holds, and
goes only once that number is zero.  The number is set when the chunk is sealed
and lowered when an event is evicted.  The index is a map: an event that is
sealed a second time takes the entry over, and the number of the chunk that had
it stays as it was.

## Main definitions

* `StoryRetention.entriesOf` — the number of index entries that point to a chunk.
* `StoryRetention.IndexedBy` — the invariant of a story's record, for a relation between the
  counts and the entries; `StoryRetention.Indexed` is the equality.
* `TailAccounted` — every count is right, and what can be freed is freed next.
* `SealsNoDuplicate` — the condition on a step.

## Main results

* `tail_accounted_of_sealsNoDuplicate` — **the counts are right** in every run
  that seals no event the index holds.
* `resealed_event_keeps_chunk` — a run of two chunks with one event, after which
  the count of the first chunk stays at one.
-/

namespace ChronoLog

namespace KeeperChunkRetentionStore

open OrderedMap Transition

/-- The number of entries of the tail index that point to the chunk. -/
def StoryRetention.entriesOf (story : StoryRetention) (id : ChunkId) : ℕ :=
  story.index.toList.countP fun entry => entry.2 = id

/-- Every count is the number of index entries, and every index entry points to a
chunk of the story that holds the event. -/
structure StoryRetention.Indexed (story : StoryRetention) : Prop where
  count : ∀ (id : ChunkId) (retained : RetainedChunk), story.chunks[id]? = some retained →
    retained.state.indexedCount = story.entriesOf id
  points : ∀ (sequence : EventSequence) (id : ChunkId), story.index[sequence]? = some id →
    ∃ retained, story.chunks[id]? = some retained ∧
      retained.chunk.logEvents.contains sequence = true

/-- What an eviction keeps between a chunk's count and the number of its index entries. -/
class IndexCount (R : ℕ → ℕ → Prop) : Prop where
  zero : R 0 0
  evict : ∀ {count entries}, R count (entries + 1) → 0 < count ∧ R (count - 1) entries

/-- The count covers the entries; a chunk whose events are sealed again keeps its count. -/
def Covers (count entries : ℕ) : Prop := entries ≤ count

instance : IndexCount Eq where
  zero := rfl
  evict := by
    intro count entries h
    omega

instance : IndexCount Covers where
  zero := Nat.le_refl 0
  evict := by
    intro count entries h
    unfold Covers at h ⊢
    omega

/-- Every count stands in the relation to the number of index entries, and every index entry
points to a chunk of the story that holds the event. -/
structure StoryRetention.IndexedBy (R : ℕ → ℕ → Prop) (story : StoryRetention) : Prop where
  count : ∀ (id : ChunkId) (retained : RetainedChunk), story.chunks[id]? = some retained →
    R retained.state.indexedCount (story.entriesOf id)
  points : ∀ (sequence : EventSequence) (id : ChunkId), story.index[sequence]? = some id →
    ∃ retained, story.chunks[id]? = some retained ∧
      retained.chunk.logEvents.contains sequence = true

variable {R : ℕ → ℕ → Prop} [IndexCount R]

namespace StoryRetention

variable {story : StoryRetention} {id : ChunkId} {retained : RetainedChunk}

theorem indexed_iff : story.Indexed ↔ story.IndexedBy Eq :=
  ⟨fun h => ⟨h.count, h.points⟩, fun h => ⟨h.count, h.points⟩⟩

theorem entriesOf_congr {story' : StoryRetention} (h : story'.index = story.index) :
    story'.entriesOf id = story.entriesOf id := by
  rw [entriesOf, h, entriesOf]

/-- A chunk no entry points to. -/
theorem entriesOf_eq_zero_iff :
    story.entriesOf id = 0 ↔ ∀ sequence : EventSequence, story.index[sequence]? ≠ some id := by
  rw [entriesOf, List.countP_eq_zero]
  constructor
  · intro h sequence hget
    have hmem := Std.ExtTreeMap.mem_toList_iff_getElem?_eq_some.mpr hget
    exact h _ hmem (by simp)
  · rintro h ⟨sequence, id'⟩ hmem heq
    rw [decide_eq_true_eq] at heq
    subst heq
    exact h sequence (Std.ExtTreeMap.mem_toList_iff_getElem?_eq_some.mp hmem)

/-- Taking an entry out of the index. -/
theorem entriesOf_erase {sequence : EventSequence} {id' : ChunkId}
    (h : story.index[sequence]? = some id') :
    story.entriesOf id =
      entriesOf { story with index := story.index.erase sequence } id +
        if id' = id then 1 else 0 := by
  unfold entriesOf
  rw [(perm_toList_of_getElem? h).countP_eq, List.countP_cons]
  simp

/-- Adding an entry for an event the index does not hold. -/
theorem entriesOf_insert {index : OrdMap EventSequence ChunkId} {sequence : EventSequence}
    {id' : ChunkId} (h : index[sequence]? = none) :
    entriesOf { story with index := index.insert sequence id' } id =
      entriesOf { story with index := index } id + if id' = id then 1 else 0 := by
  unfold entriesOf
  rw [(perm_toList_insert index sequence id').countP_eq, List.countP_cons,
    erase_of_getElem?_eq_none h]
  simp

omit [IndexCount R] in
/-- A record with the same index whose chunks are the same up to flags. -/
theorem IndexedBy.of_states {story' : StoryRetention} (h : story.IndexedBy R)
    (hindex : story'.index = story.index)
    (hchunks : ∀ (id : ChunkId) (retained' : RetainedChunk), story'.chunks[id]? = some retained' →
      ∃ retained, story.chunks[id]? = some retained ∧
        retained'.state.indexedCount = retained.state.indexedCount)
    (hkept : ∀ (id : ChunkId) (retained : RetainedChunk), story.chunks[id]? = some retained →
      story.entriesOf id ≠ 0 → ∃ retained', story'.chunks[id]? = some retained' ∧
        retained'.chunk = retained.chunk) : story'.IndexedBy R := by
  refine ⟨fun id retained' hget => ?_, fun sequence id hget => ?_⟩
  · obtain ⟨retained, hretained, hcount⟩ := hchunks id retained' hget
    rw [hcount, entriesOf_congr hindex]
    exact h.count id retained hretained
  · rw [hindex] at hget
    obtain ⟨retained, hretained, hmem⟩ := h.points sequence id hget
    have hne : story.entriesOf id ≠ 0 := fun hz => entriesOf_eq_zero_iff.mp hz sequence hget
    obtain ⟨retained', hretained', hchunk⟩ := hkept id retained hretained hne
    exact ⟨retained', hretained', hchunk ▸ hmem⟩

omit [IndexCount R] in
/-- Changing the flags of one chunk. -/
theorem IndexedBy.setState (h : story.IndexedBy R) (hget : story.chunks[id]? = some retained)
    {state : ChunkState} (hcount : state.indexedCount = retained.state.indexedCount) :
    IndexedBy R { story with chunks := story.chunks.insert id ⟨retained.chunk, state⟩ } := by
  refine h.of_states rfl (fun id' retained' hget' => ?_) fun id' retained' hget' _ => ?_
  · rw [Std.ExtTreeMap.getElem?_insert] at hget'
    by_cases hid : id = id'
    · subst hid
      simp only [Std.ReflCmp.compare_self, if_true, Option.some.injEq] at hget'
      exact ⟨retained, hget, hget' ▸ hcount⟩
    · simp only [Std.LawfulEqOrd.compare_eq_iff_eq, hid, if_false] at hget'
      exact ⟨retained', hget', rfl⟩
  · by_cases hid : id = id'
    · subst hid
      rw [hget, Option.some.injEq] at hget'
      exact ⟨⟨retained.chunk, state⟩, by simp, hget' ▸ rfl⟩
    · exact ⟨retained', by simpa [Std.ExtTreeMap.getElem?_insert, hid] using hget', rfl⟩

/-- Freeing a chunk whose count is zero. -/
theorem IndexedBy.erase (h : story.IndexedBy R) (hget : story.chunks[id]? = some retained)
    (hcount : retained.state.indexedCount = 0) :
    IndexedBy R { story with chunks := story.chunks.erase id } := by
  refine h.of_states rfl (fun id' retained' hget' => ?_) fun id' retained' hget' hne => ?_
  · rw [Std.ExtTreeMap.getElem?_erase] at hget'
    split at hget'
    · cases hget'
    · exact ⟨retained', hget', rfl⟩
  · have hid : id ≠ id' := by
      rintro rfl
      obtain ⟨entries, hentries⟩ := Nat.exists_eq_succ_of_ne_zero hne
      have hpos := IndexCount.evict (hentries ▸ h.count id retained hget)
      omega
    exact ⟨retained', by simpa [Std.ExtTreeMap.getElem?_erase, hid] using hget', rfl⟩

omit [IndexCount R] in
/-- Changing the flags of every chunk. -/
theorem IndexedBy.mapStates (h : story.IndexedBy R) (f : RetainedChunk → ChunkState)
    (hf : ∀ retained, (f retained).indexedCount = retained.state.indexedCount) :
    IndexedBy R
      { story with
        chunks := story.chunks.map fun _ retained => ⟨retained.chunk, f retained⟩ } := by
  refine h.of_states rfl (fun id retained' hget => ?_) fun id retained hget _ => ?_
  · rw [Std.ExtTreeMap.getElem?_map, Option.map_eq_some_iff] at hget
    obtain ⟨retained, hretained, rfl⟩ := hget
    exact ⟨retained, hretained, hf retained⟩
  · exact ⟨⟨retained.chunk, f retained⟩, by simp [Std.ExtTreeMap.getElem?_map, hget], rfl⟩

/-- Dropping the whole index with the counts. -/
theorem indexedBy_clear (story : StoryRetention) :
    IndexedBy R
      { story with
        index := ∅
        chunks := story.chunks.map fun _ retained =>
          { retained with state := { retained.state with indexedCount := 0 } } } := by
  refine ⟨fun id retained hget => ?_, fun sequence id hget => ?_⟩
  · rw [Std.ExtTreeMap.getElem?_map, Option.map_eq_some_iff] at hget
    obtain ⟨-, -, rfl⟩ := hget
    rw [entriesOf_eq_zero_iff.mpr (by simp)]
    exact IndexCount.zero
  · simp at hget

/-- The oldest entry of the index. -/
theorem getElem?_of_head? {oldest : EventSequence}
    (h : story.index.toList.head? = some (oldest, id)) : story.index[oldest]? = some id :=
  Std.ExtTreeMap.mem_toList_iff_getElem?_eq_some.mp (List.mem_of_head? h)

/-- Evicting an entry and lowering the count of its chunk. -/
theorem IndexedBy.evict (h : story.IndexedBy R) {oldest : EventSequence}
    (hindex : story.index[oldest]? = some id) (hget : story.chunks[id]? = some retained) :
    IndexedBy R
      { story with
        index := story.index.erase oldest
        chunks := story.chunks.insert id
          ⟨retained.chunk,
            { retained.state with indexedCount := retained.state.indexedCount - 1 }⟩ } := by
  have hentries := fun id' => @entriesOf_erase story id' oldest id hindex
  refine ⟨fun id' retained' hget' => ?_, fun sequence id' hindex' => ?_⟩
  · change R _ (entriesOf { story with index := story.index.erase oldest } id')
    rw [Std.ExtTreeMap.getElem?_insert] at hget'
    by_cases hid : id = id'
    · subst hid
      simp only [Std.ReflCmp.compare_self, if_true, Option.some.injEq] at hget'
      have hcount := h.count id retained hget
      rw [hentries id, if_pos rfl] at hcount
      rw [← hget']
      exact (IndexCount.evict hcount).2
    · simp only [Std.LawfulEqOrd.compare_eq_iff_eq, hid, if_false] at hget'
      have hcount := h.count id' retained' hget'
      rwa [hentries id', if_neg hid, Nat.add_zero] at hcount
  · rw [Std.ExtTreeMap.getElem?_erase] at hindex'
    split at hindex'
    · cases hindex'
    · obtain ⟨retained', hretained', hmem⟩ := h.points sequence id' hindex'
      by_cases hid : id = id'
      · subst hid
        rw [hget, Option.some.injEq] at hretained'
        subst hretained'
        exact ⟨_, Std.ExtTreeMap.getElem?_insert_self, hmem⟩
      · exact ⟨retained', by simpa [Std.ExtTreeMap.getElem?_insert, hid] using hretained', hmem⟩

/-- What adding the events of a chunk leaves of the index. -/
theorem getElem?_foldl_insert (events : List LogEvent) (index : OrdMap EventSequence ChunkId)
    (id : ChunkId) (sequence : EventSequence) :
    (events.foldl (fun index e => index.insert e.sequence id) index)[sequence]? =
      if ∃ e ∈ events, e.sequence = sequence then some id else index[sequence]? := by
  induction events generalizing index with
  | nil => simp
  | cons e events ih =>
    rw [List.foldl_cons, ih, Std.ExtTreeMap.getElem?_insert]
    by_cases he : e.sequence = sequence
    · simp [he]
    · simp [he]

/-- Adding events that the index does not hold adds one entry for each. -/
theorem entriesOf_foldl_insert {events : List LogEvent} {index : OrdMap EventSequence ChunkId}
    {id' : ChunkId} (hnodup : (events.map LogEvent.sequence).Nodup)
    (hnew : ∀ e ∈ events, index[e.sequence]? = none) :
    entriesOf
        { story with
          index := events.foldl (fun index e => index.insert e.sequence id) index } id' =
      entriesOf { story with index := index } id' + if id = id' then events.length else 0 := by
  induction events generalizing index with
  | nil => simp
  | cons e events ih =>
    rw [List.map_cons, List.nodup_cons] at hnodup
    have hnew' : ∀ e' ∈ events, (index.insert e.sequence id)[e'.sequence]? = none := by
      intro e' he'
      have hne : e.sequence ≠ e'.sequence := by
        intro heq
        exact hnodup.1 (heq ▸ List.mem_map_of_mem he')
      rw [Std.ExtTreeMap.getElem?_insert, if_neg (by simpa using hne)]
      exact hnew e' (List.mem_cons_of_mem _ he')
    rw [List.foldl_cons, ih hnodup.2 hnew', entriesOf_insert (hnew e List.mem_cons_self)]
    by_cases hid : id = id'
    · simp only [hid, if_true, List.length_cons]
      omega
    · simp [hid]

/-- Adding events adds at most one entry for each, and only for the chunk that they are
added for. -/
theorem entriesOf_foldl_insert_le (events : List LogEvent) (index : OrdMap EventSequence ChunkId)
    (id' : ChunkId) :
    entriesOf
        { story with
          index := events.foldl (fun index e => index.insert e.sequence id) index } id' ≤
      entriesOf { story with index := index } id' + if id = id' then events.length else 0 := by
  induction events generalizing index with
  | nil => simp
  | cons e events ih =>
    have hone : entriesOf { story with index := index.insert e.sequence id } id' ≤
        entriesOf { story with index := index } id' + if id = id' then 1 else 0 := by
      unfold entriesOf
      rw [(perm_toList_insert index e.sequence id).countP_eq, List.countP_cons]
      refine Nat.add_le_add ?_ (by simp)
      cases hget : index[e.sequence]? with
      | none => rw [erase_of_getElem?_eq_none hget]
      | some id₁ =>
        rw [(perm_toList_of_getElem? hget).countP_eq, List.countP_cons]
        exact Nat.le_add_right _ _
    refine (ih _).trans ?_
    by_cases hid : id = id'
    · simp only [hid, if_true, List.length_cons] at hone ⊢
      omega
    · simpa only [hid, if_false, Nat.add_zero] using hone

/-- The record's index with the events of a chunk added. -/
def withEvents (story : StoryRetention) (id : ChunkId) (chunk : StoryChunk) : StoryRetention :=
  { story with
    index := chunk.events.foldl (fun index e => index.insert e.sequence id) story.index }

/-- What taking a chunk keeps between the counts and the entries. -/
def Adds (R : ℕ → ℕ → Prop) (story : StoryRetention) (id : ChunkId) (chunk : StoryChunk) : Prop :=
  ∀ id' count, R count (story.entriesOf id') →
    R (count + if id = id' then chunk.getEventCount else 0)
      ((story.withEvents id chunk).entriesOf id')

/-- The counts stay right if the index holds none of the chunk's events. -/
theorem adds_eq {chunk : StoryChunk} (hnew : ∀ e ∈ chunk.events, story.index[e.sequence]? = none) :
    Adds Eq story id chunk := by
  rintro id' count rfl
  rw [← chunk.length_events]
  exact (entriesOf_foldl_insert chunk.nodup_sequences hnew).symm

/-- The counts cover the entries whatever the index holds. -/
theorem adds_covers (chunk : StoryChunk) : Adds Covers story id chunk := by
  intro id' count hcount
  rw [← chunk.length_events]
  exact (entriesOf_foldl_insert_le chunk.events story.index id').trans
    (Nat.add_le_add_right hcount _)

/-- Taking a chunk. -/
theorem IndexedBy.adopt (h : story.IndexedBy R) {chunk : StoryChunk} (now : ℕ)
    (hid : story.chunks[id]? = none) (hadds : Adds R story id chunk) :
    IndexedBy R
      { story with
        chunks := story.chunks.insert id ⟨chunk, sealedState chunk now⟩
        index := chunk.events.foldl (fun index e => index.insert e.sequence id) story.index } := by
  -- nothing points to a chunk that is not there
  have hzero : story.entriesOf id = 0 := by
    rw [entriesOf_eq_zero_iff]
    intro sequence hindex
    obtain ⟨retained', hretained', -⟩ := h.points sequence id hindex
    rw [hid] at hretained'
    cases hretained'
  refine ⟨fun id' retained' hget => ?_, fun sequence id' hget => ?_⟩
  · change R _ ((story.withEvents id chunk).entriesOf id')
    rw [Std.ExtTreeMap.getElem?_insert] at hget
    by_cases heq : id = id'
    · subst heq
      simp only [Std.ReflCmp.compare_self, if_true, Option.some.injEq] at hget
      have hcount := hadds id 0 (hzero.symm ▸ IndexCount.zero)
      rw [if_pos rfl, Nat.zero_add] at hcount
      rw [← hget]
      exact hcount
    · simp only [Std.LawfulEqOrd.compare_eq_iff_eq, heq, if_false] at hget
      have hcount := hadds id' _ (h.count id' retained' hget)
      rwa [if_neg heq] at hcount
  · rw [getElem?_foldl_insert] at hget
    split at hget
    · next hmem =>
      obtain ⟨e, he, rfl⟩ := hmem
      cases hget
      exact ⟨_, Std.ExtTreeMap.getElem?_insert_self, StoryChunk.contains_of_mem he⟩
    · obtain ⟨retained', hretained', hmem⟩ := h.points sequence id' hget
      have hne : id ≠ id' := by
        rintro rfl
        rw [hid] at hretained'
        cases hretained'
      exact ⟨retained', by simpa [Std.ExtTreeMap.getElem?_insert, hne] using hretained', hmem⟩

end StoryRetention

/-! ### The invariant along a run -/

/-- Every record of the store meets the invariant. -/
def AllIndexed (s : KeeperChunkRetentionStore) : Prop :=
  ∀ (storyId : StoryId) (story : StoryRetention),
    s.storyRetention[storyId]? = some story → story.Indexed

/-- Every record of the store is indexed by the relation. -/
def AllIndexedBy (R : ℕ → ℕ → Prop) (s : KeeperChunkRetentionStore) : Prop :=
  ∀ (storyId : StoryId) (story : StoryRetention),
    s.storyRetention[storyId]? = some story → story.IndexedBy R

variable {s : KeeperChunkRetentionStore} {storyId : StoryId} {story : StoryRetention}

theorem allIndexed_iff : s.AllIndexed ↔ AllIndexedBy Eq s :=
  forall₃_congr fun _ _ _ => StoryRetention.indexed_iff

omit [IndexCount R] in
theorem AllIndexedBy.of_eq {s' : KeeperChunkRetentionStore} (h : AllIndexedBy R s)
    (heq : s'.storyRetention = s.storyRetention) : AllIndexedBy R s' :=
  fun id story hget => h id story (heq ▸ hget)

omit [IndexCount R] in
/-- Replacing the record of a story by one that meets the invariant. -/
theorem AllIndexedBy.of_insert {s' : KeeperChunkRetentionStore} (h : AllIndexedBy R s)
    (hstory : story.IndexedBy R)
    (heq : s'.storyRetention = s.storyRetention.insert storyId story) : AllIndexedBy R s' := by
  intro other story' hget
  rw [heq, Std.ExtTreeMap.getElem?_insert] at hget
  split at hget
  · cases hget
    exact hstory
  · exact h other story' hget

omit [IndexCount R] in
theorem AllIndexedBy.setStory (h : AllIndexedBy R s) (storyId : StoryId)
    (hstory : story.IndexedBy R) :
    AllIndexedBy R (s.setStory storyId story) :=
  h.of_insert hstory rfl

omit [IndexCount R] in
theorem AllIndexedBy.storyOf (h : AllIndexedBy R s) (storyId : StoryId) :
    (s.storyOf storyId).IndexedBy R := by
  unfold KeeperChunkRetentionStore.storyOf
  cases hget : s.storyRetention[storyId]? with
  | none =>
    refine ⟨fun id retained hchunk => ?_, fun sequence id hindex => ?_⟩
    · simp at hchunk
    · simp at hindex
  | some story => exact h storyId story hget

theorem AllIndexedBy.maybeFreeChunk (h : AllIndexedBy R s) (storyId : StoryId) (id : ChunkId)
    (now : ℕ) : AllIndexedBy R (s.maybeFreeChunk storyId id now) := by
  rcases maybeFreeChunk_inv s storyId id now with
    ⟨-, heq⟩ | ⟨story, chunk, state, state', hstory, hget, hstate, hcases⟩
  · rw [heq]
    exact h
  · have hindexed := h storyId story hstory
    have hcount : state'.indexedCount = state.indexedCount := by
      rw [hstate, released, sighted]
      split <;> rfl
    rcases hcases with ⟨hfree, -, -, heq⟩ | ⟨-, -, heq⟩
    · have hzero : state.indexedCount = 0 := by
        simp only [freeable, Bool.and_eq_true, beq_iff_eq] at hfree
        omega
      exact h.of_insert (hindexed.erase hget hzero) heq
    · exact h.of_insert (hindexed.setState hget hcount) heq

omit [IndexCount R] in
theorem AllIndexedBy.foldl {α : Type*}
    {f : KeeperChunkRetentionStore → α → KeeperChunkRetentionStore}
    (hf : ∀ s a, AllIndexedBy R s → AllIndexedBy R (f s a)) (l : List α) (h : AllIndexedBy R s) :
    AllIndexedBy R (l.foldl f s) :=
  List.foldlRecOn l f h fun s hs a _ => hf s a hs

theorem AllIndexedBy.maybeFreeChunks (h : AllIndexedBy R s) (storyId : StoryId) (now : ℕ) :
    AllIndexedBy R (s.maybeFreeChunks storyId now) :=
  AllIndexedBy.foldl (fun _ id hs => hs.maybeFreeChunk storyId id now) _ h

theorem AllIndexedBy.updateChunk (h : AllIndexedBy R s) (storyId : StoryId) (id : ChunkId)
    {f : ChunkState → ChunkState} (hf : ∀ state, (f state).indexedCount = state.indexedCount)
    (now : ℕ) : AllIndexedBy R (s.updateChunk storyId id f now) := by
  unfold KeeperChunkRetentionStore.updateChunk
  split
  · exact h.of_eq rfl
  · next story hstory =>
    split
    · exact h.of_eq rfl
    · next chunk state hget =>
      refine AllIndexedBy.maybeFreeChunk ?_ storyId id now
      exact h.of_insert ((h storyId story hstory).setState hget (hf state)) rfl

theorem AllIndexedBy.evicted (h : AllIndexedBy R s) {oldest : EventSequence} {id : ChunkId}
    (now : ℕ)
    (hstory : s.storyRetention[storyId]? = some story)
    (hhead : story.index.toList.head? = some (oldest, id)) :
    AllIndexedBy R (s.evicted storyId story oldest id now) := by
  have hindexed := h storyId story hstory
  have hindex := StoryRetention.getElem?_of_head? hhead
  obtain ⟨⟨chunk, state⟩, hget, -⟩ := hindexed.points oldest id hindex
  have hpos : state.indexedCount > 0 := by
    have hcount := hindexed.count id _ hget
    rw [StoryRetention.entriesOf_erase hindex, if_pos rfl] at hcount
    exact (IndexCount.evict hcount).1
  have hset := h.setStory storyId (hindexed.evict hindex hget)
  unfold KeeperChunkRetentionStore.evicted
  simp only [hget, if_pos hpos]
  split
  · exact hset.maybeFreeChunk storyId id now
  · exact hset

theorem AllIndexedBy.enforceCapacity (fuel : ℕ) (h : AllIndexedBy R s) (storyId : StoryId)
    (now : ℕ) : AllIndexedBy R (enforceCapacity fuel s storyId now) := by
  refine enforceCapacity_induction (R := fun s s' => AllIndexedBy R s → AllIndexedBy R s')
    (fun _ h => h) (fun _ _ _ h h' hs => h' (h hs)) ?_ fuel s h
  exact fun s story oldest id hstory hhead hs => hs.evicted now hstory hhead

theorem AllIndexedBy.ingestSealedChunk (h : AllIndexedBy R s) (hallocated : s.Allocated)
    (storyId : StoryId) (chunk : StoryChunk) (now : ℕ)
    (hadds : (s.pruneDropped now).droppedStories.contains storyId = false →
      StoryRetention.Adds R (s.storyOf storyId) s.nextChunk chunk) :
    AllIndexedBy R (s.ingestSealedChunk storyId chunk now) := by
  unfold KeeperChunkRetentionStore.ingestSealedChunk
  split
  · exact h.of_eq rfl
  · dsimp only
    split
    · exact h.of_eq rfl
    · next hdropped =>
      have hfresh : (s.storyOf storyId).chunks[s.nextChunk]? = none := by
        have hnone := hallocated storyId s.nextChunk le_rfl
        rwa [chunkAt, Option.map_eq_none_iff, retainedAt_eq_storyOf] at hnone
      have hadopt : AllIndexedBy R ((s.pruneDropped now).adopt storyId chunk now) :=
        h.of_insert ((h.storyOf storyId).adopt now hfresh
          (hadds (by rwa [Bool.not_eq_true] at hdropped))) rfl
      exact (hadopt.enforceCapacity _ storyId now).of_eq rfl

omit [IndexCount R] in
theorem AllIndexedBy.dropStory (h : AllIndexedBy R s) (storyId : StoryId) (now : ℕ) :
    AllIndexedBy R (s.dropStory storyId now) := by
  unfold KeeperChunkRetentionStore.dropStory
  dsimp only
  split
  · exact h.of_eq rfl
  · intro other story hget
    dsimp only at hget
    rw [(foldl_dropChunk_frame _ _).1, Std.ExtTreeMap.getElem?_erase] at hget
    split at hget
    · cases hget
    · exact h other story hget

theorem index_reported (story : StoryRetention) (report : StoryWatermarkReport) :
    (reported story report).index = story.index ∧
      (reported story report).chunks = story.chunks := by
  unfold reported mergeReceipts
  dsimp only
  split <;> split <;> (try split) <;> exact ⟨rfl, rfl⟩

theorem AllIndexedBy.applyReport (h : AllIndexedBy R s) (storyId : StoryId)
    (report : StoryWatermarkReport) (now : ℕ) :
    AllIndexedBy R (s.applyReport storyId report now) := by
  by_cases hdrop : report.watermark = kStoryDroppedWatermark
  · rw [show s.applyReport storyId report now = s.dropStory storyId now from if_pos hdrop]
    exact h.dropStory storyId now
  · rw [applyReport_of_ne hdrop]
    refine AllIndexedBy.maybeFreeChunks (h.setStory storyId ?_) storyId now
    obtain ⟨hindex, hchunks⟩ := index_reported (s.storyOf storyId) report
    refine (h.storyOf storyId).of_states hindex (fun id retained hget => ?_) ?_
    · exact ⟨retained, hchunks ▸ hget, rfl⟩
    · exact fun id retained hget _ => ⟨retained, hchunks ▸ hget, rfl⟩

omit [IndexCount R] in
theorem AllIndexedBy.markPicked (h : AllIndexedBy R s) (p : StoryRetention → RetainedChunk → Bool)
    {f : ChunkState → ChunkState} (hf : ∀ state, (f state).indexedCount = state.indexedCount) :
    AllIndexedBy R (s.markPicked p f) := by
  intro storyId story hget
  change (s.storyRetention.map _)[storyId]? = some story at hget
  rw [Std.ExtTreeMap.getElem?_map, Option.map_eq_some_iff] at hget
  obtain ⟨story, hstory, rfl⟩ := hget
  refine (h storyId story hstory).of_states rfl (fun id retained hget => ?_)
    fun id retained hget _ => ?_
  · dsimp only at hget
    rw [Std.ExtTreeMap.getElem?_map, Option.map_eq_some_iff] at hget
    obtain ⟨retained, hretained, rfl⟩ := hget
    refine ⟨retained, hretained, ?_⟩
    split
    · exact hf retained.state
    · rfl
  · refine ⟨_, by rw [Std.ExtTreeMap.getElem?_map, hget]; rfl, ?_⟩
    dsimp only
    split <;> rfl

omit [IndexCount R] in
theorem AllIndexedBy.stash (h : AllIndexedBy R s) (chunks : List (ChunkId × StoryChunk)) :
    AllIndexedBy R (s.stash chunks) :=
  h.of_eq rfl

omit [IndexCount R] in
theorem AllIndexedBy.requeueStalled (h : AllIndexedBy R s) (maxAge now : ℕ) :
    AllIndexedBy R (s.requeueStalled maxAge now) := by
  unfold KeeperChunkRetentionStore.requeueStalled
  refine AllIndexedBy.stash (h.markPicked _ ?_) _
  exact fun _ => rfl

omit [IndexCount R] in
theorem AllIndexedBy.flushUnshippedChunks (h : AllIndexedBy R s) :
    AllIndexedBy R s.flushUnshippedChunks := by
  unfold KeeperChunkRetentionStore.flushUnshippedChunks
  refine AllIndexedBy.stash (h.markPicked _ ?_) _
  exact fun _ => rfl

theorem AllIndexedBy.releaseStoryTail (h : AllIndexedBy R s) (storyId : StoryId) (now : ℕ) :
    AllIndexedBy R (s.releaseStoryTail storyId now) := by
  unfold KeeperChunkRetentionStore.releaseStoryTail
  split
  · exact h
  · next story hstory =>
    exact AllIndexedBy.maybeFreeChunks (h.setStory storyId (StoryRetention.indexedBy_clear story))
      storyId now

omit [IndexCount R] in
theorem AllIndexedBy.afterFetchRange (h : AllIndexedBy R s) (storyId : StoryId) (now : ℕ) :
    AllIndexedBy R (s.afterFetchRange storyId now) := by
  unfold KeeperChunkRetentionStore.afterFetchRange
  split
  · exact h
  · next story hstory =>
    refine h.setStory storyId ?_
    refine (h storyId story hstory).mapStates (fun retained => sighted story retained.state now) ?_
    intro retained
    unfold sighted
    split <;> rfl

/-! ### What can be freed is freed next -/

section Freeing

variable {chunk : StoryChunk} {state : ChunkState} {id : ChunkId} {now : ℕ}

/-- The free condition reads nothing of the record but its view. -/
theorem freeable_congr {story' : StoryRetention} (h : SameView story story') (delay : ℕ) :
    freeable delay story' chunk (released story' chunk (sighted story' state now)) now =
      freeable delay story chunk (released story chunk (sighted story state now)) now := by
  have hsettled : ∀ state, receiptSettled story' state = receiptSettled story state := by
    intro state
    unfold receiptSettled
    rw [h.reportInstance, h.highestReceipt, h.pendingReceipts]
  have hsighted : ∀ state, sighted story' state now = sighted story state now := by
    intro state
    unfold sighted
    rw [hsettled]
  have hconfirmed : ∀ state, confirmedWritten story' chunk state =
      confirmedWritten story chunk state := by
    intro state
    unfold confirmedWritten
    rw [hsettled, h.knownW]
  unfold freeable visibleInArchive released
  simp only [hsettled, hsighted, hconfirmed, h.knownW]

theorem sighted_of_written (h : state.written = true) : sighted story state now = state :=
  if_pos (by simp [h])

theorem receiptSettled_sighted (story : StoryRetention) (state : ChunkState) (now : ℕ) :
    receiptSettled story (sighted story state now) = receiptSettled story state := by
  unfold sighted
  split <;> rfl

theorem written_sighted (hshipped : state.shipped = true)
    (hsettled : receiptSettled story state = true) : (sighted story state now).written = true := by
  unfold sighted
  rw [hshipped, hsettled]
  cases hw : state.written with
  | true => simp [hw]
  | false => simp

/-- The free condition, read on the state before its marks. -/
theorem freeable_of_visible {delay : ℕ}
    (hvisible : visibleInArchive delay story state now = true) (hqueue : state.inQueue = false)
    (hcount : state.indexedCount = 0) (hw : chunk.endTime ≤ story.knownW) :
    freeable delay story chunk (released story chunk (sighted story state now)) now = true := by
  simp only [visibleInArchive, Bool.and_eq_true, decide_eq_true_eq] at hvisible
  obtain ⟨⟨hshipped, hsettled⟩, hdelay⟩ := hvisible
  have hmarks : (sighted story state now).shipped = state.shipped ∧
      (sighted story state now).inQueue = state.inQueue ∧
      (sighted story state now).indexedCount = state.indexedCount := by
    unfold sighted
    split <;> exact ⟨rfl, rfl, rfl⟩
  have hagain : sighted story (released story chunk (sighted story state now)) now =
      released story chunk (sighted story state now) :=
    sighted_of_written (written_sighted hshipped hsettled)
  simp only [freeable, visibleInArchive, hagain, Bool.and_eq_true, decide_eq_true_eq,
    Bool.not_eq_true', beq_iff_eq]
  refine ⟨⟨⟨⟨⟨hmarks.1.trans hshipped, ?_⟩, hdelay⟩, hmarks.2.1.trans hqueue⟩,
    hmarks.2.2.trans hcount⟩, hw⟩
  exact (receiptSettled_sighted story state now).trans hsettled

/-- The chunk meets the free condition, or is gone. -/
def Freeing (s : KeeperChunkRetentionStore) (storyId : StoryId) (id : ChunkId) (now : ℕ) : Prop :=
  ∀ retained, s.retainedAt storyId id = some retained →
    freeable s.archiveVisibilityDelay (s.storyOf storyId) retained.chunk
      (released (s.storyOf storyId) retained.chunk
        (sighted (s.storyOf storyId) retained.state now)) now = true

theorem retainedAt_maybeFreeChunk_self (h : s.Freeing storyId id now) :
    (s.maybeFreeChunk storyId id now).retainedAt storyId id = none := by
  cases hret : s.retainedAt storyId id with
  | none => rw [maybeFreeChunk_of_not_retained hret, hret]
  | some retained =>
    obtain ⟨story, hstory, hget⟩ := Option.bind_eq_some_iff.mp hret
    have hfree := h retained hret
    rw [storyOf_of_getElem? hstory] at hfree
    rw [retainedAt_maybeFreeChunk now hstory hget, if_pos ⟨rfl, rfl⟩]
    exact if_pos hfree

theorem archiveVisibilityDelay_maybeFreeChunk (s : KeeperChunkRetentionStore)
    (storyId : StoryId) (id : ChunkId) (now : ℕ) :
    (s.maybeFreeChunk storyId id now).archiveVisibilityDelay = s.archiveVisibilityDelay := by
  rcases maybeFreeChunk_inv s storyId id now with
    ⟨-, heq⟩ | ⟨story, chunk, state, state', -, -, -, ⟨-, -, heq, -⟩ | ⟨-, heq, -⟩⟩
  · rw [heq]
  · rw [heq]
    exact archiveVisibilityDelay_tellWritten ..
  · rw [heq]
    exact archiveVisibilityDelay_tellWritten ..

/-- A pass over any chunk leaves a chunk that can be freed so. -/
theorem Freeing.maybeFreeChunk (h : s.Freeing storyId id now) (other : StoryId)
    (id' : ChunkId) : (s.maybeFreeChunk other id' now).Freeing storyId id now := by
  intro retained hret
  by_cases heq : other = storyId ∧ id' = id
  · obtain ⟨rfl, rfl⟩ := heq
    rw [retainedAt_maybeFreeChunk_self h] at hret
    cases hret
  · have hsame : s.retainedAt storyId id = some retained := by
      rcases maybeFreeChunk_cases s other id' now with hs | ⟨story, r, hstory, hget⟩
      · rwa [hs] at hret
      · rwa [retainedAt_maybeFreeChunk now hstory hget, if_neg heq] at hret
    rw [freeable_congr (keepsViews_maybeFreeChunk s other id' now storyId),
      archiveVisibilityDelay_maybeFreeChunk]
    exact h retained hsame

/-- A chunk that is gone does not come back. -/
theorem retainedAt_foldl_none {α : Type*}
    {f : KeeperChunkRetentionStore → α → KeeperChunkRetentionStore}
    (hf : ∀ s a, Shrinks s (f s a)) (l : List α) (h : s.retainedAt storyId id = none) :
    (l.foldl f s).retainedAt storyId id = none := by
  induction l generalizing s with
  | nil => exact h
  | cons a l ih =>
    refine ih ?_
    have hchunk : s.chunkAt storyId id = none := by rw [chunkAt, h, Option.map_none]
    rcases (hf s a).chunkAt storyId id with hnone | hsame
    · rwa [chunkAt, Option.map_eq_none_iff] at hnone
    · rw [hchunk] at hsame
      rwa [chunkAt, Option.map_eq_none_iff] at hsame

/-- A pass that comes by the chunk frees it. -/
theorem retainedAt_foldl_of_mem {α : Type*}
    {f : KeeperChunkRetentionStore → α → KeeperChunkRetentionStore} {a : α} {l : List α}
    (hf : ∀ s b, Shrinks s (f s b))
    (hkeep : ∀ s b, s.Freeing storyId id now → (f s b).Freeing storyId id now)
    (hfrees : ∀ s, s.Freeing storyId id now → (f s a).retainedAt storyId id = none)
    (ha : a ∈ l) (h : s.Freeing storyId id now) : (l.foldl f s).retainedAt storyId id = none := by
  induction l generalizing s with
  | nil => cases ha
  | cons b l ih =>
    rcases List.mem_cons.mp ha with rfl | ha
    · exact retainedAt_foldl_none hf l (hfrees s h)
    · exact ih ha (hkeep s b h)

theorem Freeing.maybeFreeChunks (h : s.Freeing storyId id now) (other : StoryId) :
    (s.maybeFreeChunks other now).Freeing storyId id now :=
  List.foldlRecOn (motive := fun s' : KeeperChunkRetentionStore => s'.Freeing storyId id now) _ _ h
    fun _ hs id' _ => hs.maybeFreeChunk other id'

/-- A pass over the chunks of the story frees the chunk. -/
theorem retainedAt_maybeFreeChunks (h : s.Freeing storyId id now) :
    (s.maybeFreeChunks storyId now).retainedAt storyId id = none := by
  unfold KeeperChunkRetentionStore.maybeFreeChunks
  have hshrinks : ∀ (s : KeeperChunkRetentionStore) (id : ChunkId),
      Shrinks s (s.maybeFreeChunk storyId id now) := fun _ _ => (frees_maybeFreeChunk now).toShrinks
  cases hret : s.retainedAt storyId id with
  | none => exact retainedAt_foldl_none hshrinks _ hret
  | some retained =>
    refine retainedAt_foldl_of_mem hshrinks (fun s id' hs => hs.maybeFreeChunk storyId id')
      (fun s hs => retainedAt_maybeFreeChunk_self hs) ?_ h
    rw [retainedAt_eq_storyOf] at hret
    rw [Std.ExtTreeMap.mem_keys, Std.ExtTreeMap.mem_iff_isSome_getElem?, hret]
    rfl

/-- **`freeDurableChunks` frees every chunk that meets the free condition.** -/
theorem retainedAt_freeDurableChunks (h : s.Freeing storyId id now) :
    (s.freeDurableChunks now).retainedAt storyId id = none := by
  unfold KeeperChunkRetentionStore.freeDurableChunks
  have hshrinks : ∀ (s : KeeperChunkRetentionStore) (other : StoryId),
      Shrinks s (s.maybeFreeChunks other now) := fun _ _ => (frees_maybeFreeChunks now).toShrinks
  cases hret : s.retainedAt storyId id with
  | none => exact retainedAt_foldl_none hshrinks _ hret
  | some retained =>
    refine retainedAt_foldl_of_mem hshrinks (fun s other hs => hs.maybeFreeChunks other)
      (fun s hs => retainedAt_maybeFreeChunks hs) ?_ h
    obtain ⟨story, hstory, -⟩ := Option.bind_eq_some_iff.mp hret
    rw [Std.ExtTreeMap.mem_keys, Std.ExtTreeMap.mem_iff_isSome_getElem?, hstory]
    rfl

end Freeing

/-! ### The counts along a run -/

/-- **The tail is accounted for**: every count is the number of index entries,
every index entry points to a chunk of the story that holds the event, and a
chunk that is written, visible, not queued and not pointed to goes with the next
`freeDurableChunks`. -/
structure TailAccounted (s : KeeperChunkRetentionStore) : Prop where
  count : ∀ storyId id retained, s.retainedAt storyId id = some retained →
    retained.state.indexedCount = (s.storyOf storyId).entriesOf id
  points : ∀ (storyId : StoryId) (sequence : EventSequence) (id : ChunkId),
    (s.storyOf storyId).index[sequence]? = some id →
    ∃ retained, s.retainedAt storyId id = some retained ∧
      retained.chunk.logEvents.contains sequence = true
  frees : ∀ storyId id retained now, s.retainedAt storyId id = some retained →
    confirmedWritten (s.storyOf storyId) retained.chunk retained.state = true →
    visibleInArchive s.archiveVisibilityDelay (s.storyOf storyId) retained.state now = true →
    retained.state.inQueue = false → (s.storyOf storyId).entriesOf id = 0 →
    (s.freeDurableChunks now).retainedAt storyId id = none

theorem AllIndexed.tailAccounted (hindexed : s.AllIndexed) : s.TailAccounted := by
  have h := allIndexed_iff.mp hindexed
  have hcount : ∀ storyId id retained, s.retainedAt storyId id = some retained →
      retained.state.indexedCount = (s.storyOf storyId).entriesOf id := by
    intro storyId id retained hret
    rw [retainedAt_eq_storyOf] at hret
    exact (h.storyOf storyId).count id retained hret
  refine ⟨hcount, fun storyId sequence id hindex => ?_, ?_⟩
  · obtain ⟨retained, hget, hmem⟩ := (h.storyOf storyId).points sequence id hindex
    exact ⟨retained, (retainedAt_eq_storyOf s storyId id).trans hget, hmem⟩
  · intro storyId id retained now hret hconfirmed hvisible hqueue hentries
    refine retainedAt_freeDurableChunks fun retained' hret' => ?_
    rw [hret, Option.some.injEq] at hret'
    subst hret'
    have hw : retained.chunk.endTime ≤ (s.storyOf storyId).knownW := by
      simp only [confirmedWritten, Bool.and_eq_true, decide_eq_true_eq] at hconfirmed
      exact hconfirmed.2
    exact freeable_of_visible hvisible hqueue ((hcount storyId id retained hret).trans hentries) hw

/-- The step seals no event that the tail index of its story holds. -/
def SealsNoDuplicate (s : KeeperChunkRetentionStore) : RetentionStep × ℕ → Prop
  | (.sealChunk chunk, now) =>
    (s.pruneDropped now).droppedStories.contains chunk.storyId = false →
      ∀ e ∈ chunk.events, (s.storyOf chunk.storyId).index[e.sequence]? = none
  | _ => True

instance (s : KeeperChunkRetentionStore) : (l : RetentionStep × ℕ) →
    Decidable (SealsNoDuplicate s l)
  | (.sealChunk _, _) => inferInstanceAs (Decidable (_ → ∀ e ∈ _, _))
  | (.discardEvent .., _) | (.call _, _) => inferInstanceAs (Decidable True)

/-- A call keeps the records indexed. -/
theorem AllIndexedBy.call (h : AllIndexedBy R s) (c : StoreCall) (now : ℕ) :
    AllIndexedBy R (c.run s now) := by
  cases c with
  | markShipped storyId id grapherInstance receipt =>
    refine h.updateChunk storyId id ?_ now
    exact fun _ => rfl
  | markSendFailed storyId id =>
    refine h.updateChunk storyId id ?_ now
    exact fun _ => rfl
  | applyReport storyId report => exact h.applyReport storyId report now
  | freeDurableChunks =>
    exact AllIndexedBy.foldl (fun _ storyId hs => hs.maybeFreeChunks storyId now) _ h
  | requeueStalled maxAge => exact h.requeueStalled maxAge now
  | flushUnshippedChunks => exact h.flushUnshippedChunks
  | releaseStoryTail storyId => exact h.releaseStoryTail storyId now
  | clearDroppedStory storyId => exact h.of_eq rfl
  | fetchRange storyId => exact h.afterFetchRange storyId now

/-- One step of a run keeps the records indexed. -/
theorem indexed_step {l : RetentionStep × ℕ} (h : s.AllIndexed ∧ s.Allocated)
    (hseals : SealsNoDuplicate s l) :
    (l.1.run s l.2).AllIndexed ∧ (l.1.run s l.2).Allocated := by
  obtain ⟨x, now⟩ := l
  obtain ⟨hindexed, hallocated⟩ := h
  rw [allIndexed_iff] at hindexed ⊢
  cases x with
  | sealChunk chunk =>
    refine ⟨?_, hallocated.ingestSealedChunk chunk.storyId chunk now⟩
    exact hindexed.ingestSealedChunk hallocated chunk.storyId chunk now fun hdropped =>
      StoryRetention.adds_eq (hseals hdropped)
  | discardEvent storyId event => exact ⟨hindexed.of_eq rfl, hallocated⟩
  | call c => exact ⟨hindexed.call c now, hallocated.of_shrinks (shrinks_run s now c)⟩

/-- **The counts are right** in every state of a run that seals no event which the
tail index of its story holds. -/
theorem tail_accounted_of_sealsNoDuplicate (tailCapacity delay ttl : ℕ)
    (steps : List (RetentionStep × ℕ))
    (hseals : retention.StepsMeet SealsNoDuplicate (fresh tailCapacity delay ttl) steps) :
    ((fresh tailCapacity delay ttl).after steps).TailAccounted := by
  have hrun : retention.run (fresh tailCapacity delay ttl) steps =
      some ((fresh tailCapacity delay ttl).after steps) := run_eq_after _ steps
  have hfresh : (fresh tailCapacity delay ttl).AllIndexed ∧
      (fresh tailCapacity delay ttl).Allocated :=
    ⟨fun _ _ hget => by simp [fresh] at hget, fun _ _ _ => rfl⟩
  have h := System.run_induction_of_stepsMeet
    (P := fun s : KeeperChunkRetentionStore => s.AllIndexed ∧ s.Allocated)
    (fun s l s' hs hl hstep => by cases hstep; exact indexed_step hs hl) hfresh hseals hrun
  exact h.1.tailAccounted

/-- Two chunks with different events. -/
def twoSealed : List (RetentionStep × ℕ) :=
  [(.sealChunk (oneEventChunk 0 15 10), 0), (.sealChunk (oneEventChunk 15 30 20), 1)]

/-- In a tail of one event, sealing the second chunk evicts the event of the
first. -/
theorem tail_accounted_twoSealed :
    retention.StepsMeet SealsNoDuplicate (fresh 1 0 0) twoSealed ∧
      ((fresh 1 0 0).after twoSealed).TailAccounted := by
  have hseals : retention.StepsMeet SealsNoDuplicate (fresh 1 0 0) twoSealed :=
    System.stepsMeet_of_check (by decide +kernel)
  exact ⟨hseals, tail_accounted_of_sealsNoDuplicate 1 0 0 twoSealed hseals⟩

/-- Two chunks with the same event, both shipped and covered by the watermark. -/
def resealed : List (RetentionStep × ℕ) :=
  [(.sealChunk (oneEventChunk 0 15 10), 0), (.sealChunk (oneEventChunk 0 15 10), 1),
    (.call (.markShipped 7 0 0 0), 2), (.call (.markShipped 7 1 0 0), 3),
    (.call (.applyReport 7 { watermark := 15 }), 4)]

/-- **An event that is sealed twice keeps its first chunk for good**: the second
chunk takes the index entry over, and the count of the first one stays at one. -/
theorem resealed_event_keeps_chunk : ¬ ((fresh 10 0 0).after resealed).TailAccounted := by
  intro h
  have hfacts : (((fresh 10 0 0).after resealed).retainedAt 7 0).map
        (fun retained => retained.state.indexedCount) = some 1 ∧
      (((fresh 10 0 0).after resealed).storyOf 7).entriesOf 0 = 0 := by
    decide +kernel
  obtain ⟨retained, hret, hcount⟩ := Option.map_eq_some_iff.mp hfacts.1
  have hright := h.count 7 0 retained hret
  rw [hcount, hfacts.2] at hright
  cases hright

end KeeperChunkRetentionStore

end ChronoLog
