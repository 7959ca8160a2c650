import ChronoLog.Keeper.RetentionRuns

/-!
# Sweeps of the retention store

What the store's methods do to the chunks is a sequence of two things: they
rewrite counts and sightings, and they call `maybeFreeChunk`.  A method that does
nothing else is a sweep.  The methods that do more (seal, deliver, report, drop,
queue) do one thing first and sweep then.

## Main definitions

* `Remarks` — counts, sightings and the tail index changed, and nothing else.
* `Sweeps` — a sequence of `Remarks` and `maybeFreeChunk`.

## Main results

* `sweeps_enforceCapacity` and its neighbours — the methods that sweep.
* `updateChunk_cases` — a drain callback, as a change of one state and a sweep.
-/

namespace ChronoLog

namespace KeeperChunkRetentionStore

/-- The two states agree in the marks of delivery, of the queue and of the WAL. -/
structure SameMarks (state state' : ChunkState) : Prop where
  shipped : state'.shipped = state.shipped
  inQueue : state'.inQueue = state.inQueue
  approxBytes : state'.approxBytes = state.approxBytes
  receiptInstance : state'.receiptInstance = state.receiptInstance
  receipt : state'.receipt = state.receipt
  walReleased : state'.walReleased = state.walReleased

theorem SameMarks.refl (state : ChunkState) : SameMarks state state :=
  ⟨rfl, rfl, rfl, rfl, rfl, rfl⟩

theorem sameMarks_sighted (story : StoryRetention) (state : ChunkState) (now : ℕ) :
    SameMarks state (sighted story state now) := by
  unfold sighted
  split <;> exact ⟨rfl, rfl, rfl, rfl, rfl, rfl⟩

/-- `s'` differs from `s` in the tail indexes, the counts and the sightings. -/
structure Remarks (s s' : KeeperChunkRetentionStore) : Prop where
  frame : s' = { s with storyRetention := s'.storyRetention }
  views : KeepsViews s s'
  untracked : ∀ storyId id, s.retainedAt storyId id = none → s'.retainedAt storyId id = none
  tracked : ∀ storyId id retained, s.retainedAt storyId id = some retained →
    ∃ state, s'.retainedAt storyId id = some ⟨retained.chunk, state⟩ ∧
      SameMarks retained.state state

/-- One round of a sweep. -/
inductive SweepStep : KeeperChunkRetentionStore → KeeperChunkRetentionStore → Prop where
  | remark {s s' : KeeperChunkRetentionStore} (h : Remarks s s') : SweepStep s s'
  | free (s : KeeperChunkRetentionStore) (storyId : StoryId) (id : ChunkId) (now : ℕ) :
    SweepStep s (s.maybeFreeChunk storyId id now)

/-- A sequence of `Remarks` and `maybeFreeChunk`. -/
def Sweeps : KeeperChunkRetentionStore → KeeperChunkRetentionStore → Prop :=
  Relation.ReflTransGen SweepStep

variable {s s' s'' : KeeperChunkRetentionStore} {storyId other : StoryId} {id id' : ChunkId}
  {story : StoryRetention}

theorem Sweeps.refl (s : KeeperChunkRetentionStore) : Sweeps s s := Relation.ReflTransGen.refl

theorem Sweeps.trans (h : Sweeps s s') (h' : Sweeps s' s'') : Sweeps s s'' :=
  Relation.ReflTransGen.trans h h'

theorem sweeps_maybeFreeChunk (s : KeeperChunkRetentionStore) (storyId : StoryId) (id : ChunkId)
    (now : ℕ) : Sweeps s (s.maybeFreeChunk storyId id now) :=
  Relation.ReflTransGen.single (.free s storyId id now)

theorem Remarks.sweeps (h : Remarks s s') : Sweeps s s' :=
  Relation.ReflTransGen.single (.remark h)

/-- **What every round of a sweep does, a sweep does.** -/
theorem Sweeps.induction {R : KeeperChunkRetentionStore → KeeperChunkRetentionStore → Prop}
    (hrefl : ∀ s, R s s) (htrans : ∀ s s' s'', R s s' → R s' s'' → R s s'')
    (hremark : ∀ s s', Remarks s s' → R s s')
    (hfree : ∀ s storyId id now, R s (s.maybeFreeChunk storyId id now)) (h : Sweeps s s') :
    R s s' := by
  induction h with
  | refl => exact hrefl s
  | tail _ hstep ih =>
    refine htrans _ _ _ ih ?_
    cases hstep with
    | remark h => exact hremark _ _ h
    | free storyId id now => exact hfree _ storyId id now

theorem sweeps_foldl {α : Type*}
    {f : KeeperChunkRetentionStore → α → KeeperChunkRetentionStore}
    (hf : ∀ s a, Sweeps s (f s a)) (l : List α) (s : KeeperChunkRetentionStore) :
    Sweeps s (l.foldl f s) := by
  induction l generalizing s with
  | nil => exact Sweeps.refl s
  | cons a l ih => exact (hf s a).trans (ih (f s a))

/-! ### The methods that sweep -/

/-- Rewriting one record with the same view, and its chunks with the same marks. -/
theorem remarks_setStory {story' : StoryRetention}
    (hstory : s.storyRetention[storyId]? = some story) (hview : SameView story story')
    (hnone : ∀ id : ChunkId, story.chunks[id]? = none → story'.chunks[id]? = none)
    (hsome : ∀ (id : ChunkId) (retained : RetainedChunk), story.chunks[id]? = some retained →
      ∃ state, story'.chunks[id]? = some ⟨retained.chunk, state⟩ ∧
        SameMarks retained.state state) :
    Remarks s (s.setStory storyId story') := by
  refine ⟨rfl, keepsViews_setStory (storyOf_of_getElem? hstory ▸ hview), ?_, ?_⟩
  · intro other id hat
    rw [retainedAt_setStory]
    split
    · next ho =>
      rw [← ho, retainedAt_of_getElem? hstory] at hat
      exact hnone id hat
    · exact hat
  · intro other id retained hat
    rw [retainedAt_setStory]
    split
    · next ho =>
      rw [← ho, retainedAt_of_getElem? hstory] at hat
      exact hsome id retained hat
    · exact ⟨retained.state, hat, SameMarks.refl _⟩

/-- Rewriting the states of all chunks of one record. -/
theorem remarks_mapStates {story' : StoryRetention} (f : RetainedChunk → ChunkState)
    (hstory : s.storyRetention[storyId]? = some story) (hview : SameView story story')
    (hchunks : story'.chunks = story.chunks.map fun _ retained => ⟨retained.chunk, f retained⟩)
    (hf : ∀ retained, SameMarks retained.state (f retained)) :
    Remarks s (s.setStory storyId story') := by
  refine remarks_setStory hstory hview (fun id hget => ?_) fun id retained hget => ?_
  · rw [hchunks, Std.ExtTreeMap.getElem?_map, hget]
    rfl
  · refine ⟨f retained, ?_, hf retained⟩
    rw [hchunks, Std.ExtTreeMap.getElem?_map, hget]
    rfl

theorem sweeps_maybeFreeChunks (s : KeeperChunkRetentionStore) (storyId : StoryId) (now : ℕ) :
    Sweeps s (s.maybeFreeChunks storyId now) :=
  sweeps_foldl (fun s id => sweeps_maybeFreeChunk s storyId id now) _ s

theorem sweeps_freeDurableChunks (s : KeeperChunkRetentionStore) (now : ℕ) :
    Sweeps s (s.freeDurableChunks now) :=
  sweeps_foldl (fun s storyId => sweeps_maybeFreeChunks s storyId now) _ s

theorem sweeps_evicted {oldest : EventSequence} (id : ChunkId) (now : ℕ)
    (hstory : s.storyRetention[storyId]? = some story) :
    Sweeps s (s.evicted storyId story oldest id now) := by
  have hindex : Remarks s
      (s.setStory storyId { story with index := story.index.erase oldest }) :=
    remarks_setStory hstory ⟨rfl, rfl, rfl, rfl⟩ (fun _ hget => hget)
      fun _ retained hget => ⟨retained.state, hget, SameMarks.refl _⟩
  unfold evicted
  split
  · next chunk state hget =>
    split
    · have hcount : Remarks s (s.setStory storyId
          { story with
            index := story.index.erase oldest
            chunks := story.chunks.insert id
              ⟨chunk, { state with indexedCount := state.indexedCount - 1 }⟩ }) := by
        refine remarks_setStory hstory ⟨rfl, rfl, rfl, rfl⟩ (fun id' hget' => ?_)
          fun id' retained hget' => ?_
        · rw [Std.ExtTreeMap.getElem?_insert]
          by_cases hid : id = id'
          · rw [← hid, hget] at hget'
            cases hget'
          · simpa [hid] using hget'
        · rw [Std.ExtTreeMap.getElem?_insert]
          by_cases hid : id = id'
          · rw [← hid, hget, Option.some.injEq] at hget'
            subst hget'
            exact ⟨{ state with indexedCount := state.indexedCount - 1 }, by simp [hid],
              ⟨rfl, rfl, rfl, rfl, rfl, rfl⟩⟩
          · exact ⟨retained.state, by simpa [hid] using hget', SameMarks.refl _⟩
      dsimp only
      split
      · exact hcount.sweeps.trans (sweeps_maybeFreeChunk _ _ _ now)
      · exact hcount.sweeps
    · exact hindex.sweeps
  · exact hindex.sweeps

theorem sweeps_enforceCapacity (fuel : ℕ) (s : KeeperChunkRetentionStore) (storyId : StoryId)
    (now : ℕ) : Sweeps s (enforceCapacity fuel s storyId now) :=
  enforceCapacity_induction Sweeps.refl (fun _ _ _ => Sweeps.trans)
    (fun _ _ _ id hs _ => sweeps_evicted id now hs) fuel s

theorem sweeps_releaseStoryTail (s : KeeperChunkRetentionStore) (storyId : StoryId) (now : ℕ) :
    Sweeps s (s.releaseStoryTail storyId now) := by
  unfold releaseStoryTail
  split
  · exact Sweeps.refl s
  · next story hstory =>
    refine Sweeps.trans (Remarks.sweeps ?_) (sweeps_maybeFreeChunks _ storyId now)
    exact remarks_mapStates (fun retained => { retained.state with indexedCount := 0 }) hstory
      ⟨rfl, rfl, rfl, rfl⟩ rfl fun _ => ⟨rfl, rfl, rfl, rfl, rfl, rfl⟩

theorem sweeps_afterFetchRange (s : KeeperChunkRetentionStore) (storyId : StoryId) (now : ℕ) :
    Sweeps s (s.afterFetchRange storyId now) := by
  unfold afterFetchRange
  split
  · exact Sweeps.refl s
  · next story hstory =>
    refine Remarks.sweeps ?_
    exact remarks_mapStates (fun retained => sighted story retained.state now) hstory
      ⟨rfl, rfl, rfl, rfl⟩ rfl fun retained => sameMarks_sighted story retained.state now

/-! ### The other methods -/

/-- The store with the state of one tracked chunk changed. -/
def setState (s : KeeperChunkRetentionStore) (storyId : StoryId) (id : ChunkId)
    (f : ChunkState → ChunkState) : KeeperChunkRetentionStore :=
  match s.storyRetention[storyId]? with
  | none => s
  | some story =>
    match story.chunks[id]? with
    | none => s
    | some ⟨chunk, state⟩ =>
      s.setStory storyId { story with chunks := story.chunks.insert id ⟨chunk, f state⟩ }

theorem setState_of_getElem? {chunk : StoryChunk} {state : ChunkState}
    (hstory : s.storyRetention[storyId]? = some story)
    (hget : story.chunks[id]? = some ⟨chunk, state⟩) (f : ChunkState → ChunkState) :
    s.setState storyId id f =
      s.setStory storyId { story with chunks := story.chunks.insert id ⟨chunk, f state⟩ } := by
  unfold setState
  simp only [hstory, hget]

/-- **A drain callback** deletes a chunk that is not tracked; it changes the state
of a tracked one and sweeps it. -/
theorem updateChunk_cases (s : KeeperChunkRetentionStore) (storyId : StoryId) (id : ChunkId)
    (f : ChunkState → ChunkState) (now : ℕ) :
    (s.retainedAt storyId id = none ∧ s.updateChunk storyId id f now = s.deleteChunk id) ∨
      ((s.retainedAt storyId id).isSome = true ∧
        s.updateChunk storyId id f now =
          (s.setState storyId id f).maybeFreeChunk storyId id now) := by
  unfold updateChunk setState retainedAt
  cases hstory : s.storyRetention[storyId]? with
  | none => exact Or.inl ⟨rfl, rfl⟩
  | some story =>
    rw [Option.bind_some]
    cases hget : story.chunks[id]? with
    | none => exact Or.inl ⟨rfl, by simp only [hget]⟩
    | some retained => exact Or.inr ⟨rfl, by simp only [hget]⟩

theorem setState_frame (s : KeeperChunkRetentionStore) (storyId : StoryId) (id : ChunkId)
    (f : ChunkState → ChunkState) :
    s.setState storyId id f =
      { s with storyRetention := (s.setState storyId id f).storyRetention } := by
  unfold setState
  split
  · rfl
  · split <;> rfl

theorem retainedAt_setState (f : ChunkState → ChunkState) :
    (s.setState storyId id f).retainedAt other id' =
      if storyId = other ∧ id = id' then
        (s.retainedAt storyId id).map fun retained => ⟨retained.chunk, f retained.state⟩
      else s.retainedAt other id' := by
  cases hat : s.retainedAt storyId id with
  | none =>
    have hsame : s.setState storyId id f = s := by
      unfold retainedAt at hat
      unfold setState
      cases hstory : s.storyRetention[storyId]? with
      | none => rfl
      | some story =>
        rw [hstory, Option.bind_some] at hat
        simp only [hat]
    rw [hsame]
    split
    · next hif => rw [← hif.1, ← hif.2, hat, Option.map_none]
    · rfl
  | some retained =>
    obtain ⟨story, hstory, hget⟩ := Option.bind_eq_some_iff.mp hat
    rw [setState_of_getElem? hstory hget, retainedAt_setStory]
    by_cases ho : storyId = other
    · subst ho
      rw [if_pos rfl, Std.ExtTreeMap.getElem?_insert]
      by_cases hid : id = id'
      · simp [hid]
      · simp [hid, retainedAt_of_getElem? hstory]
    · rw [if_neg ho, if_neg (fun hif => ho hif.1)]

theorem keepsViews_setState (s : KeeperChunkRetentionStore) (storyId : StoryId) (id : ChunkId)
    (f : ChunkState → ChunkState) : KeepsViews s (s.setState storyId id f) := by
  unfold setState
  split
  · exact KeepsViews.refl s
  · next story hstory =>
    split
    · exact KeepsViews.refl s
    · refine keepsViews_setStory ?_
      rw [storyOf_of_getElem? hstory]
      exact ⟨rfl, rfl, rfl, rfl⟩

theorem retainedAt_markPicked (p : StoryRetention → RetainedChunk → Bool)
    (f : ChunkState → ChunkState) :
    (s.markPicked p f).retainedAt storyId id =
      (s.retainedAt storyId id).map fun retained =>
        if p (s.storyOf storyId) retained then { retained with state := f retained.state }
        else retained := by
  unfold markPicked retainedAt
  dsimp only
  rw [Std.ExtTreeMap.getElem?_map]
  cases hstory : s.storyRetention[storyId]? with
  | none => rfl
  | some story =>
    simp only [Option.map_some, Option.bind_some, Std.ExtTreeMap.getElem?_map,
      storyOf_of_getElem? hstory]

/-- Setting a record with the chunks of the old one. -/
theorem retainedAt_reported (report : StoryWatermarkReport) :
    (s.setStory storyId (reported (s.storyOf storyId) report)).retainedAt other id =
      s.retainedAt other id := by
  refine retainedAt_setStory_of_chunks_eq ?_
  unfold reported mergeReceipts
  dsimp only
  split <;> split <;> (try split) <;> rfl

theorem retainedAt_dropStory (s : KeeperChunkRetentionStore) (storyId : StoryId) (now : ℕ) :
    (s.dropStory storyId now).retainedAt other id =
      if storyId = other then none else s.retainedAt other id := by
  rw [retainedAt_eq_storyOf, storyOf_dropStory, retainedAt_eq_storyOf]
  split
  · simp
  · rfl

end KeeperChunkRetentionStore

end ChronoLog
