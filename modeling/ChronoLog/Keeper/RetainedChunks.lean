import ChronoLog.Keeper.RetentionStore

/-!
# Which chunks the retention store owns

Every method but `adopt` only takes chunks away: a chunk that stays is the chunk
that was there (`Shrinks`).  The methods that free by the free condition also
keep every queued chunk and remember the same drops (`Frees`).

## Main results

* `retainedAt_maybeFreeChunk` — **a chunk is freed only under the free condition**.
* `ingestSealedChunk_cases` — what sealing a chunk does.
* `shrinks_applyReport` and its neighbours — no other method adds a chunk.
-/

namespace ChronoLog

namespace KeeperChunkRetentionStore

/-- The chunk the store owns for the story under this allocation, with its state. -/
def retainedAt (s : KeeperChunkRetentionStore) (storyId : StoryId) (id : ChunkId) :
    Option RetainedChunk :=
  (s.storyRetention[storyId]?).bind fun story => story.chunks[id]?

/-- The chunk the store owns for the story under this allocation. -/
def chunkAt (s : KeeperChunkRetentionStore) (storyId : StoryId) (id : ChunkId) :
    Option StoryChunk :=
  (s.retainedAt storyId id).map RetainedChunk.chunk

/-- The chunk of this allocation is in the extraction queue. -/
def QueuedAt (s : KeeperChunkRetentionStore) (storyId : StoryId) (id : ChunkId)
    (chunk : StoryChunk) : Prop :=
  ∃ state, s.retainedAt storyId id = some ⟨chunk, state⟩ ∧ state.inQueue = true

/-- `s'` owns no chunk that `s` does not own. -/
structure Shrinks (s s' : KeeperChunkRetentionStore) : Prop where
  nextChunk : s'.nextChunk = s.nextChunk
  chunkAt : ∀ storyId id,
    s'.chunkAt storyId id = none ∨ s'.chunkAt storyId id = s.chunkAt storyId id

/-- `s'` is `s` less some chunks that are not queued. -/
structure Frees (s s' : KeeperChunkRetentionStore) : Prop extends Shrinks s s' where
  droppedStories : s'.droppedStories = s.droppedStories
  queuedAt : ∀ storyId id chunk, s.QueuedAt storyId id chunk → s'.QueuedAt storyId id chunk

theorem Shrinks.refl (s : KeeperChunkRetentionStore) : Shrinks s s := ⟨rfl, fun _ _ => Or.inr rfl⟩

theorem Shrinks.trans {s s' s'' : KeeperChunkRetentionStore} (h : Shrinks s s')
    (h' : Shrinks s' s'') : Shrinks s s'' := by
  refine ⟨h'.nextChunk.trans h.nextChunk, fun storyId id => ?_⟩
  rcases h'.chunkAt storyId id with hn | he
  · exact Or.inl hn
  · rw [he]
    exact h.chunkAt storyId id

theorem Frees.refl (s : KeeperChunkRetentionStore) : Frees s s :=
  ⟨Shrinks.refl s, rfl, fun _ _ _ h => h⟩

theorem Frees.trans {s s' s'' : KeeperChunkRetentionStore} (h : Frees s s') (h' : Frees s' s'') :
    Frees s s'' :=
  ⟨h.toShrinks.trans h'.toShrinks, h'.droppedStories.trans h.droppedStories,
    fun storyId id chunk hq => h'.queuedAt storyId id chunk (h.queuedAt storyId id chunk hq)⟩

/-- Changing only what is not a chunk. -/
theorem Frees.of_retainedAt_eq {s s' : KeeperChunkRetentionStore}
    (hnext : s'.nextChunk = s.nextChunk) (hdropped : s'.droppedStories = s.droppedStories)
    (h : ∀ storyId id, s'.retainedAt storyId id = s.retainedAt storyId id) : Frees s s' := by
  refine ⟨⟨hnext, fun storyId id => Or.inr ?_⟩, hdropped, ?_⟩
  · rw [KeeperChunkRetentionStore.chunkAt, h, KeeperChunkRetentionStore.chunkAt]
  · rintro storyId id chunk ⟨state, hat, hq⟩
    exact ⟨state, (h storyId id).trans hat, hq⟩

theorem frees_foldl {α : Type*} {f : KeeperChunkRetentionStore → α → KeeperChunkRetentionStore}
    (hf : ∀ s a, Frees s (f s a)) (l : List α) (s : KeeperChunkRetentionStore) :
    Frees s (l.foldl f s) := by
  induction l generalizing s with
  | nil => exact Frees.refl s
  | cons a l ih => exact (hf s a).trans (ih (f s a))

variable {s : KeeperChunkRetentionStore} {storyId other : StoryId} {id id' : ChunkId}

theorem retainedAt_congr {s' : KeeperChunkRetentionStore}
    (h : s'.storyRetention = s.storyRetention) :
    s'.retainedAt storyId id = s.retainedAt storyId id := by
  rw [retainedAt, h, retainedAt]

theorem retainedAt_setStory (story : StoryRetention) :
    (s.setStory storyId story).retainedAt other id =
      if storyId = other then story.chunks[id]? else s.retainedAt other id := by
  unfold setStory retainedAt
  dsimp only
  rw [Std.ExtTreeMap.getElem?_insert]
  by_cases ho : storyId = other <;> simp [ho]

@[simp] theorem retainedAt_deleteChunk (s : KeeperChunkRetentionStore) (deleted : ChunkId) :
    (s.deleteChunk deleted).retainedAt storyId id = s.retainedAt storyId id := rfl

theorem retainedAt_of_getElem? {story : StoryRetention}
    (h : s.storyRetention[storyId]? = some story) :
    s.retainedAt storyId id = story.chunks[id]? := by
  rw [retainedAt, h, Option.bind_some]

/-! ### The free condition -/

@[simp] theorem storyRetention_tellWritten (story : StoryRetention) (chunk : StoryChunk)
    (state : ChunkState) :
    (s.tellWritten story id chunk state).storyRetention = s.storyRetention := by
  unfold tellWritten
  split <;> rfl

@[simp] theorem archiveVisibilityDelay_tellWritten (story : StoryRetention) (chunk : StoryChunk)
    (state : ChunkState) :
    (s.tellWritten story id chunk state).archiveVisibilityDelay = s.archiveVisibilityDelay := by
  unfold tellWritten
  split <;> rfl

theorem tellWritten_frame (story : StoryRetention) (chunk : StoryChunk) (state : ChunkState) :
    (s.tellWritten story id chunk state).nextChunk = s.nextChunk ∧
      (s.tellWritten story id chunk state).droppedStories = s.droppedStories := by
  unfold tellWritten
  split <;> exact ⟨rfl, rfl⟩

theorem confirmedWritten_sighted (story : StoryRetention) (chunk : StoryChunk)
    (state : ChunkState) (now : ℕ) :
    confirmedWritten story chunk (sighted story state now) =
      confirmedWritten story chunk state := by
  unfold sighted
  split <;> rfl

/-- A chunk that meets the free condition is confirmed written. -/
theorem confirmedWritten_of_freeable {delay now : ℕ} {story : StoryRetention}
    {chunk : StoryChunk} {state : ChunkState}
    (h : freeable delay story chunk state now = true) :
    confirmedWritten story chunk state = true := by
  simp only [freeable, visibleInArchive, Bool.and_eq_true, decide_eq_true_eq] at h
  simp only [confirmedWritten, Bool.and_eq_true, decide_eq_true_eq]
  exact ⟨h.1.1.1.1, h.2⟩

/-- **Inversion of `maybeFreeChunk`**: it does nothing, or it tells the WAL what
is to tell and frees the chunk, or it tells the WAL and keeps the chunk with its
marks. -/
theorem maybeFreeChunk_inv (s : KeeperChunkRetentionStore) (storyId : StoryId) (id : ChunkId)
    (now : ℕ) :
    (s.retainedAt storyId id = none ∧ s.maybeFreeChunk storyId id now = s) ∨
      ∃ story chunk state state',
        s.storyRetention[storyId]? = some story ∧ story.chunks[id]? = some ⟨chunk, state⟩ ∧
        state' = released story chunk (sighted story state now) ∧
        ((freeable s.archiveVisibilityDelay story chunk state' now = true ∧
            state'.walReleased = true ∧
            s.maybeFreeChunk storyId id now =
              (((s.tellWritten story id chunk (sighted story state now)).forgetRetained
                state').setStory storyId { story with chunks := story.chunks.erase id }).deleteChunk
                  id ∧
            (s.maybeFreeChunk storyId id now).storyRetention =
              s.storyRetention.insert storyId { story with chunks := story.chunks.erase id }) ∨
          (freeable s.archiveVisibilityDelay story chunk state' now = false ∧
            s.maybeFreeChunk storyId id now =
              (s.tellWritten story id chunk (sighted story state now)).setStory storyId
                { story with chunks := story.chunks.insert id ⟨chunk, state'⟩ } ∧
            (s.maybeFreeChunk storyId id now).storyRetention =
              s.storyRetention.insert storyId
                { story with chunks := story.chunks.insert id ⟨chunk, state'⟩ })) := by
  unfold maybeFreeChunk retainedAt
  cases hstory : s.storyRetention[storyId]? with
  | none => exact Or.inl ⟨rfl, rfl⟩
  | some story =>
    cases hget : story.chunks[id]? with
    | none => exact Or.inl ⟨hget, by simp only [hget]⟩
    | some retained =>
      obtain ⟨chunk, state⟩ := retained
      refine Or.inr ⟨story, chunk, state, _, rfl, hget, rfl, ?_⟩
      simp only [hget, archiveVisibilityDelay_tellWritten]
      cases hf : freeable s.archiveVisibilityDelay story chunk
          (released story chunk (sighted story state now)) now with
      | true =>
        have hreleased : (released story chunk (sighted story state now)).walReleased = true := by
          have hc := confirmedWritten_of_freeable hf
          change (_ || confirmedWritten story chunk (sighted story state now)) = true
          rw [show confirmedWritten story chunk (sighted story state now) = true from hc,
            Bool.or_true]
        refine Or.inl ⟨rfl, hreleased, ?_⟩
        rw [if_pos rfl, if_pos hreleased]
        exact ⟨rfl, congrArg (Std.ExtTreeMap.insert · storyId _) (storyRetention_tellWritten ..)⟩
      | false =>
        refine Or.inr ⟨rfl, ?_⟩
        rw [if_neg (by simp)]
        exact ⟨rfl, congrArg (Std.ExtTreeMap.insert · storyId _) (storyRetention_tellWritten ..)⟩

/-- **What `maybeFreeChunk` does to the chunks**: it touches one, which it frees
only if the free condition holds and otherwise keeps with its marks. -/
theorem retainedAt_maybeFreeChunk (now : ℕ) {story : StoryRetention} {retained : RetainedChunk}
    (hstory : s.storyRetention[storyId]? = some story)
    (hretained : story.chunks[id]? = some retained) :
    (s.maybeFreeChunk storyId id now).retainedAt other id' =
      if storyId = other ∧ id = id' then
        let state := released story retained.chunk (sighted story retained.state now)
        if freeable s.archiveVisibilityDelay story retained.chunk state now then none
        else some ⟨retained.chunk, state⟩
      else s.retainedAt other id' := by
  obtain ⟨chunk, state⟩ := retained
  unfold maybeFreeChunk
  simp only [hstory, hretained, archiveVisibilityDelay_tellWritten]
  by_cases hf : freeable s.archiveVisibilityDelay story chunk
      (released story chunk (sighted story state now)) now = true
  · rw [if_pos hf, retainedAt_deleteChunk, retainedAt_setStory]
    by_cases ho : storyId = other
    · subst ho
      rw [if_pos rfl, Std.ExtTreeMap.getElem?_erase]
      by_cases hid : id = id'
      · simp [hid, hf]
      · simp [hid, retainedAt_of_getElem? hstory]
    · rw [if_neg ho]
      refine Eq.trans (retainedAt_congr ?_) (if_neg (fun h => ho h.1)).symm
      split
      · exact storyRetention_tellWritten ..
      · exact storyRetention_tellWritten ..
  · rw [if_neg hf, retainedAt_setStory]
    by_cases ho : storyId = other
    · subst ho
      rw [if_pos rfl, Std.ExtTreeMap.getElem?_insert]
      by_cases hid : id = id'
      · simp [hid, hf]
      · simp [hid, retainedAt_of_getElem? hstory]
    · rw [if_neg ho, if_neg (fun h => ho h.1)]
      exact retainedAt_congr (storyRetention_tellWritten ..)

/-- A chunk that is not there is not freed. -/
theorem maybeFreeChunk_of_not_retained {now : ℕ} (h : s.retainedAt storyId id = none) :
    s.maybeFreeChunk storyId id now = s := by
  unfold retainedAt at h
  unfold maybeFreeChunk
  cases hstory : s.storyRetention[storyId]? with
  | none => rfl
  | some story =>
    rw [hstory, Option.bind_some] at h
    simp only [h]

/-- The two cases of `maybeFreeChunk`. -/
theorem maybeFreeChunk_cases (s : KeeperChunkRetentionStore) (storyId : StoryId) (id : ChunkId)
    (now : ℕ) :
    s.maybeFreeChunk storyId id now = s ∨
      ∃ story retained, s.storyRetention[storyId]? = some story ∧
        story.chunks[id]? = some retained := by
  cases h : s.retainedAt storyId id with
  | none => exact Or.inl (maybeFreeChunk_of_not_retained h)
  | some retained =>
    obtain ⟨story, hstory, hget⟩ := Option.bind_eq_some_iff.mp h
    exact Or.inr ⟨story, retained, hstory, hget⟩

theorem maybeFreeChunk_frame (s : KeeperChunkRetentionStore) (storyId : StoryId) (id : ChunkId)
    (now : ℕ) :
    (s.maybeFreeChunk storyId id now).nextChunk = s.nextChunk ∧
      (s.maybeFreeChunk storyId id now).droppedStories = s.droppedStories := by
  unfold maybeFreeChunk
  split
  · exact ⟨rfl, rfl⟩
  · split
    · exact ⟨rfl, rfl⟩
    · dsimp only
      split
      · split <;> exact tellWritten_frame ..
      · exact tellWritten_frame ..

theorem frees_maybeFreeChunk (now : ℕ) : Frees s (s.maybeFreeChunk storyId id now) := by
  rcases maybeFreeChunk_cases s storyId id now with heq | ⟨story, retained, hstory, hget⟩
  · rw [heq]
    exact Frees.refl s
  · obtain ⟨hnext, hdropped⟩ := maybeFreeChunk_frame s storyId id now
    refine ⟨⟨hnext, fun other id' => ?_⟩, hdropped, ?_⟩
    · unfold KeeperChunkRetentionStore.chunkAt
      rw [retainedAt_maybeFreeChunk now hstory hget]
      split
      · next hif =>
        rw [← hif.1, ← hif.2, retainedAt_of_getElem? hstory, hget]
        dsimp only
        split
        · exact Or.inl rfl
        · exact Or.inr rfl
      · exact Or.inr rfl
    · rintro other id' chunk ⟨state, hat, hq⟩
      unfold QueuedAt
      rw [retainedAt_maybeFreeChunk now hstory hget]
      split
      · next hif =>
        rw [← hif.1, ← hif.2, retainedAt_of_getElem? hstory, hget] at hat
        cases hat
        -- a queued chunk does not meet the free condition
        have hqueued : (released story chunk (sighted story state now)).inQueue = true := by
          unfold released sighted
          split <;> exact hq
        refine ⟨released story chunk (sighted story state now), ?_, hqueued⟩
        dsimp only
        rw [if_neg]
        simp [freeable, hqueued]
      · exact ⟨state, hat, hq⟩

theorem frees_maybeFreeChunks (now : ℕ) : Frees s (s.maybeFreeChunks storyId now) :=
  frees_foldl (fun _ _ => frees_maybeFreeChunk now) _ _

/-! ### Changing the states of chunks -/

/-- Writing back the state of one chunk of the story. -/
theorem chunkAt_setChunk {story : StoryRetention} {retained : RetainedChunk} (state : ChunkState)
    (index : OrdMap EventSequence ChunkId) (hstory : s.storyRetention[storyId]? = some story)
    (hget : story.chunks[id]? = some retained) :
    (s.setStory storyId { story with
      index, chunks := story.chunks.insert id ⟨retained.chunk, state⟩ }).chunkAt other id' =
      s.chunkAt other id' := by
  unfold KeeperChunkRetentionStore.chunkAt
  rw [retainedAt_setStory]
  split
  · next ho =>
    subst ho
    rw [retainedAt_of_getElem? hstory, Std.ExtTreeMap.getElem?_insert]
    by_cases hid : id = id'
    · subst hid
      simp [hget]
    · simp [hid]
  · rfl

theorem frees_setChunk {story : StoryRetention} {retained : RetainedChunk} (state : ChunkState)
    (index : OrdMap EventSequence ChunkId) (hstory : s.storyRetention[storyId]? = some story)
    (hget : story.chunks[id]? = some retained)
    (hqueue : retained.state.inQueue = true → state.inQueue = true) :
    Frees s (s.setStory storyId { story with
      index, chunks := story.chunks.insert id ⟨retained.chunk, state⟩ }) := by
  refine ⟨⟨rfl, fun _ _ => Or.inr (chunkAt_setChunk state index hstory hget)⟩, rfl, ?_⟩
  rintro other id' chunk ⟨st, hat, hq⟩
  unfold QueuedAt
  rw [retainedAt_setStory]
  split
  · next ho =>
    subst ho
    rw [retainedAt_of_getElem? hstory] at hat
    rw [Std.ExtTreeMap.getElem?_insert]
    by_cases hid : id = id'
    · subst hid
      rw [hget, Option.some.injEq] at hat
      subst hat
      exact ⟨state, by simp, hqueue hq⟩
    · exact ⟨st, by simpa [hid] using hat, hq⟩
  · exact ⟨st, hat, hq⟩

/-- Changing the states of a story's chunks, and no chunk. -/
theorem frees_mapStates {story story' : StoryRetention} (f : RetainedChunk → ChunkState)
    (hstory : s.storyRetention[storyId]? = some story)
    (hchunks : story'.chunks = story.chunks.map fun _ retained => ⟨retained.chunk, f retained⟩)
    (hf : ∀ retained, retained.state.inQueue = true → (f retained).inQueue = true) :
    Frees s (s.setStory storyId story') := by
  have hat : ∀ id, (s.setStory storyId story').retainedAt storyId id =
      (s.retainedAt storyId id).map fun retained => ⟨retained.chunk, f retained⟩ := by
    intro id
    rw [retainedAt_setStory, if_pos rfl, hchunks, Std.ExtTreeMap.getElem?_map,
      retainedAt_of_getElem? hstory]
  refine ⟨⟨rfl, fun other id => Or.inr ?_⟩, rfl, ?_⟩
  · unfold KeeperChunkRetentionStore.chunkAt
    by_cases ho : storyId = other
    · rw [← ho, hat, Option.map_map]
      rfl
    · rw [retainedAt_setStory, if_neg ho]
  · rintro other id chunk ⟨state, hst, hq⟩
    unfold QueuedAt
    by_cases ho : storyId = other
    · subst ho
      exact ⟨f ⟨chunk, state⟩, by rw [hat, hst]; rfl, hf ⟨chunk, state⟩ hq⟩
    · exact ⟨state, by rw [retainedAt_setStory, if_neg ho, hst], hq⟩

theorem frees_deleteChunk (s : KeeperChunkRetentionStore) (id : ChunkId) :
    Frees s (s.deleteChunk id) :=
  Frees.of_retainedAt_eq rfl rfl fun _ _ => rfl

theorem shrinks_updateChunk (f : ChunkState → ChunkState) (now : ℕ) :
    Shrinks s (s.updateChunk storyId id f now) := by
  unfold updateChunk
  split
  · exact (frees_deleteChunk s id).toShrinks
  · next story hstory =>
    split
    · exact (frees_deleteChunk s id).toShrinks
    · next chunk state hget =>
      have hset : Shrinks s (s.setStory storyId
          { story with chunks := story.chunks.insert id ⟨chunk, f state⟩ }) := by
        have hat := fun other id' =>
          @chunkAt_setChunk s storyId other id id' story ⟨chunk, state⟩ (f state) story.index
            hstory hget
        exact ⟨rfl, fun other id' => Or.inr (hat other id')⟩
      exact hset.trans (frees_maybeFreeChunk now).toShrinks

theorem storyOf_of_getElem? {story : StoryRetention}
    (h : s.storyRetention[storyId]? = some story) : s.storyOf storyId = story := by
  rw [storyOf, h, Option.getD_some]

theorem retainedAt_eq_storyOf (s : KeeperChunkRetentionStore) (storyId : StoryId)
    (id : ChunkId) : s.retainedAt storyId id = (s.storyOf storyId).chunks[id]? := by
  unfold retainedAt storyOf
  cases s.storyRetention[storyId]? with
  | none => simp
  | some story => rfl

/-- Replacing what is not a chunk in a story's record. -/
theorem retainedAt_setStory_of_chunks_eq {story : StoryRetention}
    (h : story.chunks = (s.storyOf storyId).chunks) :
    (s.setStory storyId story).retainedAt other id = s.retainedAt other id := by
  rw [retainedAt_setStory]
  split
  · next ho => rw [h, ← ho, retainedAt_eq_storyOf]
  · rfl

/-! ### Sealing -/

theorem frees_stash (s : KeeperChunkRetentionStore) (chunks : List (ChunkId × StoryChunk)) :
    Frees s (s.stash chunks) :=
  Frees.of_retainedAt_eq rfl rfl fun _ _ => rfl

/-- The eviction of one event of the tail from the story's record. -/
def evicted (s : KeeperChunkRetentionStore) (storyId : StoryId) (story : StoryRetention)
    (oldest : EventSequence) (id : ChunkId) (now : ℕ) : KeeperChunkRetentionStore :=
  match story.chunks[id]? with
  | some ⟨chunk, state⟩ =>
    if state.indexedCount > 0 then
      let s := s.setStory storyId
        { story with
          index := story.index.erase oldest
          chunks := story.chunks.insert id
            ⟨chunk, { state with indexedCount := state.indexedCount - 1 }⟩ }
      if state.indexedCount - 1 == 0 then s.maybeFreeChunk storyId id now else s
    else s.setStory storyId { story with index := story.index.erase oldest }
  | none => s.setStory storyId { story with index := story.index.erase oldest }

/-- **One round of `enforceCapacity`** evicts the oldest event of the story's
record. -/
theorem enforceCapacity_succ (fuel : ℕ) (s : KeeperChunkRetentionStore) (storyId : StoryId)
    (now : ℕ) :
    ((s.storyOf storyId).index.toList.head? = none ∧
        enforceCapacity (fuel + 1) s storyId now = s) ∨
      ∃ story oldest id, s.storyRetention[storyId]? = some story ∧
        story.index.toList.head? = some (oldest, id) ∧
        enforceCapacity (fuel + 1) s storyId now =
          enforceCapacity fuel (s.evicted storyId story oldest id now) storyId now := by
  cases hs : s.storyRetention[storyId]? with
  | none =>
    have hempty : (s.storyOf storyId).index.toList.head? = none := by
      rw [storyOf, hs]
      rfl
    refine Or.inl ⟨hempty, ?_⟩
    rw [enforceCapacity]
    simp only [hempty]
  | some story =>
    cases hhead : story.index.toList.head? with
    | none =>
      refine Or.inl ⟨storyOf_of_getElem? hs ▸ hhead, ?_⟩
      rw [enforceCapacity]
      simp only [storyOf_of_getElem? hs, hhead]
    | some entry =>
      refine Or.inr ⟨story, entry.1, entry.2, rfl, hhead, ?_⟩
      rw [enforceCapacity]
      simp only [storyOf_of_getElem? hs, hhead]
      rfl

/-- What every eviction does, every run of `enforceCapacity` does. -/
theorem enforceCapacity_induction {R : KeeperChunkRetentionStore → KeeperChunkRetentionStore → Prop}
    {storyId : StoryId} {now : ℕ} (hrefl : ∀ s, R s s)
    (htrans : ∀ s s' s'', R s s' → R s' s'' → R s s'')
    (hevict : ∀ s story oldest id, s.storyRetention[storyId]? = some story →
      story.index.toList.head? = some (oldest, id) → R s (s.evicted storyId story oldest id now))
    (fuel : ℕ) (s : KeeperChunkRetentionStore) : R s (enforceCapacity fuel s storyId now) := by
  induction fuel generalizing s with
  | zero => exact hrefl s
  | succ fuel ih =>
    rcases enforceCapacity_succ fuel s storyId now with
      ⟨-, heq⟩ | ⟨story, oldest, id, hs, hhead, heq⟩
    · rw [heq]
      exact hrefl s
    · rw [heq]
      exact htrans _ _ _ (hevict s story oldest id hs hhead) (ih _)

theorem frees_evicted {story : StoryRetention} {oldest : EventSequence} (now : ℕ)
    (hstory : s.storyRetention[storyId]? = some story) :
    Frees s (s.evicted storyId story oldest id now) := by
  have hkept : ∀ story' : StoryRetention, story'.chunks = story.chunks →
      Frees s (s.setStory storyId story') := by
    intro story' hchunks
    refine Frees.of_retainedAt_eq rfl rfl fun _ _ => retainedAt_setStory_of_chunks_eq ?_
    rw [hchunks, storyOf_of_getElem? hstory]
  unfold evicted
  split
  · next chunk state hget =>
    split
    · have hset := frees_setChunk { state with indexedCount := state.indexedCount - 1 }
        (story.index.erase oldest) hstory hget fun hq => hq
      dsimp only
      split
      · exact hset.trans (frees_maybeFreeChunk now)
      · exact hset
    · exact hkept _ rfl
  · exact hkept _ rfl

theorem frees_enforceCapacity (fuel : ℕ) (s : KeeperChunkRetentionStore) (storyId : StoryId)
    (now : ℕ) : Frees s (enforceCapacity fuel s storyId now) :=
  enforceCapacity_induction Frees.refl (fun _ _ _ => Frees.trans)
    (fun _ _ _ _ hs _ => frees_evicted now hs) fuel s

/-- The sealed chunk is taken under the next allocation. -/
theorem retainedAt_adopt (chunk : StoryChunk) (now : ℕ) :
    (s.adopt storyId chunk now).retainedAt other id =
      if storyId = other ∧ s.nextChunk = id then some ⟨chunk, sealedState chunk now⟩
      else s.retainedAt other id := by
  have hset : (s.adopt storyId chunk now).retainedAt other id =
      (s.setStory storyId
        { s.storyOf storyId with
          chunks := (s.storyOf storyId).chunks.insert s.nextChunk
            ⟨chunk, sealedState chunk now⟩ }).retainedAt other id := by
    unfold adopt setStory retainedAt
    dsimp only
    rw [Std.ExtTreeMap.getElem?_insert, Std.ExtTreeMap.getElem?_insert]
    split <;> rfl
  rw [hset, retainedAt_setStory]
  by_cases ho : storyId = other
  · subst ho
    rw [if_pos rfl, Std.ExtTreeMap.getElem?_insert]
    by_cases hid : s.nextChunk = id
    · simp [hid]
    · simp [hid, retainedAt_eq_storyOf]
  · rw [if_neg ho, if_neg (fun h => ho h.1)]

/-- **What sealing does**: an empty chunk and a chunk of a destroyed story leave
the chunks alone; any other is taken under the next allocation, and then events
of the tail are evicted. -/
theorem ingestSealedChunk_cases (s : KeeperChunkRetentionStore) (storyId : StoryId)
    (chunk : StoryChunk) (now : ℕ) :
    (chunk.empty = true ∧ s.ingestSealedChunk storyId chunk now = s.refuse) ∨
      ((s.pruneDropped now).droppedStories.contains storyId = true ∧
        s.ingestSealedChunk storyId chunk now =
          { (s.pruneDropped now).refuse with
            walCalls := s.walCalls ++ [.chunkDiscarded storyId chunk] }) ∨
      (chunk.empty = false ∧
        Frees ((s.pruneDropped now).adopt storyId chunk now)
          (s.ingestSealedChunk storyId chunk now)) := by
  unfold ingestSealedChunk
  by_cases hempty : chunk.empty = true
  · exact Or.inl ⟨hempty, if_pos hempty⟩
  · rw [if_neg hempty]
    dsimp only
    by_cases hdrop : (s.pruneDropped now).droppedStories.contains storyId = true
    · exact Or.inr (Or.inl ⟨hdrop, if_pos hdrop⟩)
    · rw [if_neg hdrop]
      refine Or.inr (Or.inr ⟨by simpa using hempty, ?_⟩)
      exact (frees_enforceCapacity ..).trans (frees_stash ..)

/-- The store owns no chunk past its next allocation. -/
def Allocated (s : KeeperChunkRetentionStore) : Prop :=
  ∀ storyId id, s.nextChunk ≤ id → s.chunkAt storyId id = none

theorem Allocated.of_shrinks {s s' : KeeperChunkRetentionStore} (h : s.Allocated)
    (hs : s.Shrinks s') : s'.Allocated := by
  intro storyId id hle
  rcases hs.chunkAt storyId id with hn | he
  · exact hn
  · rw [he]
    exact h storyId id (hs.nextChunk ▸ hle)

theorem Allocated.refuse (h : s.Allocated) : s.refuse.Allocated := by
  intro storyId id hle
  exact h storyId id (Nat.le_of_succ_le hle)

theorem chunkAt_adopt (chunk : StoryChunk) (now : ℕ) :
    (s.adopt storyId chunk now).chunkAt other id =
      if storyId = other ∧ s.nextChunk = id then some chunk else s.chunkAt other id := by
  unfold KeeperChunkRetentionStore.chunkAt
  rw [retainedAt_adopt]
  split <;> rfl

theorem Allocated.adopt (h : s.Allocated) (storyId : StoryId) (chunk : StoryChunk) (now : ℕ) :
    (s.adopt storyId chunk now).Allocated := by
  intro other id hle
  have hlt : s.nextChunk < id := hle
  rw [chunkAt_adopt, if_neg (fun hif => Nat.ne_of_lt hlt hif.2)]
  exact h other id (Nat.le_of_lt hlt)

theorem Allocated.ingestSealedChunk (h : s.Allocated) (storyId : StoryId) (chunk : StoryChunk)
    (now : ℕ) : (s.ingestSealedChunk storyId chunk now).Allocated := by
  rcases ingestSealedChunk_cases s storyId chunk now with ⟨-, heq⟩ | ⟨-, heq⟩ | ⟨-, hfrees⟩
  · rw [heq]
    exact h.refuse
  · rw [heq]
    exact h.refuse
  · have hpruned : (s.pruneDropped now).Allocated := h
    exact (hpruned.adopt storyId chunk now).of_shrinks hfrees.toShrinks

/-! ### The other methods -/

theorem dropChunk_frame (s : KeeperChunkRetentionStore) (entry : ChunkId × RetainedChunk) :
    (s.dropChunk entry).storyRetention = s.storyRetention ∧
      (s.dropChunk entry).nextChunk = s.nextChunk := by
  unfold dropChunk
  dsimp only
  split <;> split <;> exact ⟨rfl, rfl⟩

theorem foldl_dropChunk_frame (l : List (ChunkId × RetainedChunk))
    (s : KeeperChunkRetentionStore) :
    (l.foldl dropChunk s).storyRetention = s.storyRetention ∧
      (l.foldl dropChunk s).nextChunk = s.nextChunk := by
  induction l generalizing s with
  | nil => exact ⟨rfl, rfl⟩
  | cons entry l ih =>
    rw [List.foldl_cons, (ih _).1, (ih _).2]
    exact dropChunk_frame s entry

theorem shrinks_dropStory (now : ℕ) : Shrinks s (s.dropStory storyId now) := by
  unfold dropStory
  dsimp only
  split
  · exact ⟨rfl, fun _ _ => Or.inr rfl⟩
  · refine ⟨(foldl_dropChunk_frame _ _).2, fun other id => ?_⟩
    unfold KeeperChunkRetentionStore.chunkAt retainedAt
    dsimp only
    rw [(foldl_dropChunk_frame _ _).1, Std.ExtTreeMap.getElem?_erase]
    by_cases ho : storyId = other
    · simp [ho]
    · simp [ho]

theorem shrinks_applyReport (report : StoryWatermarkReport) (now : ℕ) :
    Shrinks s (s.applyReport storyId report now) := by
  unfold applyReport
  split
  · exact shrinks_dropStory now
  · refine Frees.toShrinks (Frees.trans ?_ (frees_maybeFreeChunks now))
    refine Frees.of_retainedAt_eq rfl rfl fun _ _ => retainedAt_setStory_of_chunks_eq ?_
    unfold mergeReceipts
    split <;> split <;> (try split) <;> rfl

theorem frees_freeDurableChunks (now : ℕ) : Frees s (s.freeDurableChunks now) :=
  frees_foldl (fun _ _ => frees_maybeFreeChunks now) _ _

theorem frees_releaseStoryTail (now : ℕ) : Frees s (s.releaseStoryTail storyId now) := by
  unfold releaseStoryTail
  split
  · exact Frees.refl s
  · next story hstory =>
    refine (frees_mapStates (fun retained => { retained.state with indexedCount := 0 }) hstory
      rfl ?_).trans (frees_maybeFreeChunks now)
    exact fun _ hq => hq

theorem frees_afterFetchRange (now : ℕ) : Frees s (s.afterFetchRange storyId now) := by
  unfold afterFetchRange
  split
  · exact Frees.refl s
  · next story hstory =>
    refine frees_mapStates (fun retained => sighted story retained.state now) hstory rfl ?_
    intro retained hq
    unfold sighted
    split <;> exact hq

theorem shrinks_markPicked (p : StoryRetention → RetainedChunk → Bool)
    (f : ChunkState → ChunkState) : Shrinks s (s.markPicked p f) := by
  refine ⟨rfl, fun storyId id => Or.inr ?_⟩
  unfold markPicked KeeperChunkRetentionStore.chunkAt retainedAt
  dsimp only
  rw [Std.ExtTreeMap.getElem?_map]
  cases s.storyRetention[storyId]? with
  | none => rfl
  | some story =>
    simp only [Option.map_some, Option.bind_some, Std.ExtTreeMap.getElem?_map, Option.map_map]
    congr 1
    funext retained
    simp only [Function.comp_apply]
    split <;> rfl

theorem shrinks_requeueStalled (maxAge now : ℕ) : Shrinks s (s.requeueStalled maxAge now) := by
  unfold requeueStalled
  exact (shrinks_markPicked _ _).trans (frees_stash _ _).toShrinks

theorem shrinks_flushUnshippedChunks : Shrinks s s.flushUnshippedChunks := by
  unfold flushUnshippedChunks
  exact (shrinks_markPicked _ _).trans (frees_stash _ _).toShrinks

end KeeperChunkRetentionStore

end ChronoLog
