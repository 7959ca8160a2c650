import ChronoLog.Keeper.Sweeps
import ChronoLog.Lib.Custody
import ChronoLog.Lib.OrdMap

/-!
# Who owns a sealed chunk

The retention store owns the chunks it tracks.  A pointer goes out to the
extraction queue, where a drain thread takes it and gives it back through one of
two callbacks.  The flag `inQueue` is set under the store's mutex and the pointer
is stashed after the mutex is released, so between the two the pointer is in
nobody's queue: the store's own `extractionQueue` holds the stashes that are still
to run, and the threads run them in any order.

A story that is dropped strikes its chunks from the store while their pointers are
out.  The callback then finds the chunk untracked and deletes it.

## Main definitions

* `ChunkFlow`, `chunkFlow` — the store, the queue and the drain threads.
* `ChunkOwnership` — nothing is deleted twice or in flight, and the flags are right.

## Main results

* `owned_step` — every step keeps custody of the chunks.
* `chunk_ownership` — **`ChunkOwnership` holds in every reachable state**.
-/

namespace ChronoLog

open Transition Custody KeeperChunkRetentionStore
open scoped List

/-! ### The store, the queue and the drain threads -/

namespace RetentionStep

/-- The callbacks of the drain threads. -/
def isDrainCallback : RetentionStep → Bool
  | call (.markShipped ..) => true
  | call (.markSendFailed ..) => true
  | _ => false

end RetentionStep

/-- The store with the extraction queue and the drain threads. -/
structure ChunkFlow where
  store : KeeperChunkRetentionStore
  /-- `StoryChunkExtractionQueue::extractionDeque`. -/
  queue : List (ChunkId × StoryChunk) := []
  /-- The chunks the drain threads took and did not give back. -/
  hands : List (ChunkId × StoryChunk) := []
  /-- The store's destructor ran. -/
  destructed : Bool := false
  /-- The chunks the queue deleted when it shut down. -/
  freed : List ChunkId := []

/-- A step of one of the threads. -/
inductive FlowStep where
  /-- A method of the store other than a callback. -/
  | call (x : RetentionStep) (now : ℕ)
  /-- `stashStoryChunk`, for one of the pointers that are still to be stashed. -/
  | stash (i : ℕ)
  | ejectStoryChunk
  /-- `dispose_chunk` of a chunk that every extractor accepted. -/
  | markShipped (i grapherInstance receipt now : ℕ)
  /-- `dispose_chunk` of a chunk whose transfer failed. -/
  | markSendFailed (i now : ℕ)
  | destructor
  /-- `StoryChunkExtractionQueue::shutDown`, which the queue's destructor runs. -/
  | shutDown

namespace ChunkFlow

/-- The state after a step.  Nothing calls a store whose destructor ran, and the
queue outlives the store. -/
def step (c : ChunkFlow) : FlowStep → Option ChunkFlow
  | .call x now =>
    if c.destructed || x.isDrainCallback then none
    else some { c with store := x.run c.store now }
  | .stash i =>
    (c.store.extractionQueue[i]?).map fun y =>
      { c with
        store := { c.store with extractionQueue := c.store.extractionQueue.eraseIdx i }
        queue := c.queue ++ [y] }
  | .ejectStoryChunk =>
    match c.queue with
    | [] => none
    | y :: rest => some { c with queue := rest, hands := c.hands ++ [y] }
  | .markShipped i grapherInstance receipt now =>
    if c.destructed then none
    else
      (c.hands[i]?).map fun y =>
        { c with
          store := c.store.markShipped y.2.storyId y.1 grapherInstance receipt now
          hands := c.hands.eraseIdx i }
  | .markSendFailed i now =>
    if c.destructed then none
    else
      (c.hands[i]?).map fun y =>
        { c with
          store := c.store.markSendFailed y.2.storyId y.1 now
          hands := c.hands.eraseIdx i }
  | .destructor =>
    if c.destructed then none else some { c with store := c.store.destructor, destructed := true }
  | .shutDown =>
    if c.destructed then some { c with queue := [], freed := c.freed ++ c.queue.map Prod.fst }
    else none

/-- The chunks that were deleted, by the store or by the queue. -/
def deleted (c : ChunkFlow) : List ChunkId := c.freed ++ c.store.deleted

end ChunkFlow

/-- The store of a keeper with its extraction. -/
def chunkFlow : System ChunkFlow FlowStep where
  Initial c := ∃ tailCapacity delay ttl, c = { store := fresh tailCapacity delay ttl }
  step := ChunkFlow.step

/-- **The chunks are in good hands**: none is deleted twice, or deleted while its
pointer is queued or being drained, or deleted and still tracked; no pointer is
out twice; the flag of a tracked chunk says whether its pointer is out; and every
chunk that was not deleted is tracked or out. -/
structure ChunkOwnership (c : ChunkFlow) : Prop where
  deleted_once : c.deleted.Nodup
  deleted_out : ∀ id ∈ c.deleted, id ∉ c.queue.map Prod.fst ∧ id ∉ c.hands.map Prod.fst
  deleted_tracked : ∀ id ∈ c.deleted, ∀ storyId, c.store.retainedAt storyId id = none
  out_once : ((c.queue ++ c.hands).map Prod.fst).Nodup
  to_stash : ∀ id ∈ c.store.extractionQueue.map Prod.fst,
    id ∉ (c.queue ++ c.hands).map Prod.fst ∧
    ∀ storyId retained, c.store.retainedAt storyId id = some retained →
      retained.state.inQueue = true
  inQueue : ∀ storyId id retained, c.store.retainedAt storyId id = some retained →
    id ∉ c.store.extractionQueue.map Prod.fst →
    (retained.state.inQueue = true ↔ id ∈ c.queue.map Prod.fst ∨ id ∈ c.hands.map Prod.fst)
  not_lost : ∀ id < c.store.nextChunk, id ∉ c.deleted →
    (∃ storyId, (c.store.retainedAt storyId id).isSome = true) ∨
      id ∈ (c.queue ++ c.hands ++ c.store.extractionQueue).map Prod.fst

/-! ### The store's part -/

namespace KeeperChunkRetentionStore

/-- The store's books: the tracked chunks with the flag that says they are lent. -/
def trackedBooks (s : KeeperChunkRetentionStore) (storyId : StoryId) (id : ChunkId) :
    Option (StoryChunk × Bool) :=
  (s.retainedAt storyId id).map fun retained => (retained.chunk, retained.state.inQueue)

/-- Custody of the chunks, with the pointers `Q` held outside the store and the
chunks `F` deleted outside it. -/
def OwnedWith (Q : List (ChunkId × StoryChunk)) (F : List ChunkId)
    (s : KeeperChunkRetentionStore) : Prop :=
  Owned StoryChunk.storyId s.trackedBooks (Q ++ s.extractionQueue) (F ++ s.deleted) s.nextChunk

variable {s s' : KeeperChunkRetentionStore} {storyId other : StoryId} {id id' : ChunkId}
  {Q : List (ChunkId × StoryChunk)} {F : List ChunkId} {story : StoryRetention}

theorem OwnedWith.of_eq (h : s.OwnedWith Q F) (htracked : s'.trackedBooks = s.trackedBooks)
    (hqueue : s'.extractionQueue = s.extractionQueue) (hdeleted : s'.deleted = s.deleted)
    (hnext : s'.nextChunk = s.nextChunk) : s'.OwnedWith Q F := by
  unfold OwnedWith
  rw [htracked, hqueue, hdeleted, hnext]
  exact h

theorem tracked_congr (h : s'.storyRetention = s.storyRetention) :
    s'.trackedBooks = s.trackedBooks := by
  funext storyId id
  rw [trackedBooks, retainedAt_congr h, trackedBooks]

/-- Pointers that the store hands over. -/
theorem OwnedWith.stash {l : List (ChunkId × StoryChunk)} (h : s.OwnedWith (Q ++ l) F) :
    (s.stash l).OwnedWith Q F := by
  refine Owned.perm h ?_
  rw [List.append_assoc]
  exact List.Perm.append_left Q List.perm_append_comm

theorem ownedWith_of_remarks (h : Remarks s s') (ho : s.OwnedWith Q F) : s'.OwnedWith Q F := by
  have hframe := h.frame
  refine ho.of_eq ?_ (by rw [hframe]) (by rw [hframe]) (by rw [hframe])
  funext storyId id
  unfold trackedBooks
  cases hat : s.retainedAt storyId id with
  | none => rw [h.untracked storyId id hat]
  | some retained =>
    obtain ⟨state, hat', hmarks⟩ := h.tracked storyId id retained hat
    rw [hat', Option.map_some, Option.map_some, hmarks.inQueue]

theorem tracked_setState_eq_file (f : ChunkState → ChunkState) {retained : RetainedChunk}
    (hat : s.retainedAt storyId id = some retained) :
    (s.setState storyId id f).trackedBooks =
      file s.trackedBooks storyId id (some (retained.chunk, (f retained.state).inQueue)) := by
  funext other id'
  unfold trackedBooks file
  rw [retainedAt_setState]
  split
  · rw [hat]
    rfl
  · rfl

theorem tellWritten_custody (s : KeeperChunkRetentionStore) (story : StoryRetention)
    (id : ChunkId) (chunk : StoryChunk) (state : ChunkState) :
    (s.tellWritten story id chunk state).extractionQueue = s.extractionQueue ∧
      (s.tellWritten story id chunk state).deleted = s.deleted := by
  unfold tellWritten
  split <;> exact ⟨rfl, rfl⟩

theorem OwnedWith.maybeFreeChunk (h : s.OwnedWith Q F) (storyId : StoryId) (id : ChunkId)
    (now : ℕ) : (s.maybeFreeChunk storyId id now).OwnedWith Q F := by
  rcases maybeFreeChunk_inv s storyId id now with
    ⟨-, heq⟩ | ⟨story, chunk, state, state', hstory, hget, hstate', hcases⟩
  · rw [heq]
    exact h
  have hat : s.trackedBooks storyId id = some (chunk, state.inQueue) := by
    rw [trackedBooks, retainedAt_of_getElem? hstory, hget]
    rfl
  have hqueue : state'.inQueue = state.inQueue := by
    rw [hstate']
    exact (sameMarks_sighted story state now).inQueue
  have hafter : ∀ other id', (s.maybeFreeChunk storyId id now).trackedBooks other id' =
      if storyId = other ∧ id = id' then
        if freeable s.archiveVisibilityDelay story chunk state' now then none
        else some (chunk, state.inQueue)
      else s.trackedBooks other id' := by
    intro other id'
    rw [trackedBooks,
      @retainedAt_maybeFreeChunk s storyId other id id' now story ⟨chunk, state⟩ hstory hget]
    dsimp only
    rw [← hstate']
    split
    · split
      · rfl
      · rw [Option.map_some, hqueue]
    · rfl
  rcases hcases with ⟨hfree, -, heq, -⟩ | ⟨hkeep, heq, -⟩
  · have hnot : state.inQueue = false := by
      simp only [freeable, Bool.and_eq_true, Bool.not_eq_true'] at hfree
      rw [← hqueue]
      exact hfree.1.1.2
    have hreleased : Owned StoryChunk.storyId (s.maybeFreeChunk storyId id now).trackedBooks
        (Q ++ s.extractionQueue ++ []) (F ++ s.deleted ++ [id]) s.nextChunk := by
      refine Owned.release (S := fun other id' => storyId = other ∧ id = id') h ?_ ?_ ?_ ?_ ?_
      · intro other id' x
        rw [hafter]
        by_cases hkey : storyId = other ∧ id = id' <;> simp [hkey, hfree]
      · intro y hy
        cases hy
      · intro id' hid'
        rw [List.mem_singleton] at hid'
        subst hid'
        exact ⟨storyId, chunk, ⟨rfl, rfl⟩, by rw [hat, hnot]⟩
      · exact List.nodup_singleton id
      · rintro other id' a ⟨-, rfl⟩ -
        exact List.mem_singleton_self id
    have hframe := tellWritten_custody s story id chunk (sighted story state now)
    have hqueue' : (s.maybeFreeChunk storyId id now).extractionQueue = s.extractionQueue := by
      rw [heq]
      exact hframe.1
    have hdeleted : (s.maybeFreeChunk storyId id now).deleted = s.deleted ++ [id] := by
      rw [heq]
      exact congrArg (· ++ [id]) hframe.2
    unfold OwnedWith
    rw [hqueue', hdeleted, (maybeFreeChunk_frame s storyId id now).1, ← List.append_assoc]
    rwa [List.append_nil] at hreleased
  · have hframe := tellWritten_custody s story id chunk (sighted story state now)
    refine h.of_eq ?_ ?_ ?_ (maybeFreeChunk_frame s storyId id now).1
    · funext other id'
      rw [hafter]
      split
      · next hkey =>
        rw [if_neg (by rw [hkeep]; exact Bool.false_ne_true), ← hkey.1, ← hkey.2, hat]
      · rfl
    · rw [heq]
      exact hframe.1
    · rw [heq]
      exact hframe.2

/-- **A sweep keeps custody.** -/
theorem OwnedWith.sweeps (h : s.OwnedWith Q F) (hs : Sweeps s s') : s'.OwnedWith Q F := by
  refine Sweeps.induction (R := fun s s' => s.OwnedWith Q F → s'.OwnedWith Q F) ?_ ?_ ?_ ?_ hs h
  · exact fun _ ho => ho
  · exact fun _ _ _ h h' ho => h' (h ho)
  · exact fun _ _ hr ho => ownedWith_of_remarks hr ho
  · exact fun _ storyId id now ho => ho.maybeFreeChunk storyId id now

/-! ### The methods that move pointers -/

theorem OwnedWith.refuse (h : s.OwnedWith Q F) : s.refuse.OwnedWith Q F := by
  have hrefuse := Owned.refuse h
  rwa [List.append_assoc] at hrefuse

theorem tracked_adopt (s : KeeperChunkRetentionStore) (storyId : StoryId) (chunk : StoryChunk)
    (now : ℕ) :
    (s.adopt storyId chunk now).trackedBooks =
      file s.trackedBooks storyId s.nextChunk (some (chunk, true)) := by
  funext other id'
  unfold trackedBooks file
  rw [retainedAt_adopt]
  split <;> rfl

theorem OwnedWith.ingestSealedChunk (h : s.OwnedWith Q F) (chunk : StoryChunk) (now : ℕ) :
    (s.ingestSealedChunk chunk.storyId chunk now).OwnedWith Q F := by
  unfold KeeperChunkRetentionStore.ingestSealedChunk
  split
  · exact h.refuse
  · dsimp only
    split
    · exact h.refuse
    · refine OwnedWith.stash (OwnedWith.sweeps ?_ (sweeps_enforceCapacity ..))
      have hpruned : (s.pruneDropped now).OwnedWith Q F := h
      have htake := Owned.take hpruned (rfl : chunk.storyId = chunk.storyId)
      unfold OwnedWith
      rw [tracked_adopt]
      refine Owned.perm htake ?_
      rw [List.append_assoc, List.append_assoc]
      exact List.Perm.append_left Q List.perm_append_comm

/-- A drain callback: the pointer comes back, to a chunk that is tracked or not. -/
theorem OwnedWith.updateChunk {chunk : StoryChunk} (h : s.OwnedWith ((id, chunk) :: Q) F)
    {f : ChunkState → ChunkState} (hf : ∀ state, (f state).inQueue = false) (now : ℕ) :
    (s.updateChunk chunk.storyId id f now).OwnedWith Q F := by
  rcases updateChunk_cases s chunk.storyId id f now with ⟨hnone, heq⟩ | ⟨hsome, heq⟩
  · have hdiscard := Owned.discard (P := Q ++ s.extractionQueue) h
      (by rw [trackedBooks, hnone, Option.map_none])
    rw [heq]
    unfold OwnedWith
    rwa [List.append_assoc] at hdiscard
  · rw [heq]
    refine OwnedWith.maybeFreeChunk ?_ chunk.storyId id now
    obtain ⟨retained, hat⟩ := Option.isSome_iff_exists.mp hsome
    have htracked : s.trackedBooks chunk.storyId id =
        some (retained.chunk, retained.state.inQueue) := by
      rw [trackedBooks, hat]
      rfl
    have hsame : chunk = retained.chunk :=
      h.object chunk.storyId id _ chunk htracked List.mem_cons_self
    have hback := Owned.giveBack (P := Q ++ s.extractionQueue) h (by rw [htracked, hsame])
    have hframe := setState_frame s chunk.storyId id f
    unfold OwnedWith
    rw [tracked_setState_eq_file f hat, hf, ← hsame, hframe]
    exact hback

/-! ### Picking chunks -/

variable {p : StoryRetention → RetainedChunk → Bool}

theorem mem_pickChunks {x : StoryId × ChunkId × StoryChunk} :
    x ∈ s.pickChunks p ↔ ∃ retained, s.retainedAt x.1 x.2.1 = some retained ∧
      retained.chunk = x.2.2 ∧ p (s.storyOf x.1) retained = true := by
  unfold pickChunks
  rw [List.mem_flatMap]
  constructor
  · rintro ⟨⟨storyId, story⟩, hstory, hx⟩
    obtain ⟨⟨id, retained⟩, hmem, rfl⟩ := List.mem_map.mp hx
    obtain ⟨hget, hp⟩ := List.mem_filter.mp hmem
    rw [Std.ExtTreeMap.mem_toList_iff_getElem?_eq_some] at hstory hget
    refine ⟨retained, ?_, rfl, ?_⟩
    · exact (retainedAt_of_getElem? hstory).trans hget
    · rw [storyOf_of_getElem? hstory]
      exact hp
  · rintro ⟨retained, hat, hchunk, hp⟩
    obtain ⟨story, hstory, hget⟩ := Option.bind_eq_some_iff.mp hat
    rw [storyOf_of_getElem? hstory] at hp
    refine ⟨(x.1, story), Std.ExtTreeMap.mem_toList_iff_getElem?_eq_some.mpr hstory, ?_⟩
    refine List.mem_map.mpr ⟨(x.2.1, retained), List.mem_filter.mpr ⟨?_, hp⟩, ?_⟩
    · exact Std.ExtTreeMap.mem_toList_iff_getElem?_eq_some.mpr hget
    · rw [hchunk]

theorem nodup_pickChunks (s : KeeperChunkRetentionStore)
    (p : StoryRetention → RetainedChunk → Bool) : (s.pickChunks p).Nodup := by
  refine OrderedMap.nodup_flatMap_toList Prod.fst (fun entry => ?_) ?_
  · refine List.Nodup.sublist (List.filter_sublist.map _) ?_
    exact OrderedMap.nodup_map_toList _ (fun x => x.2.1) fun _ => rfl
  · intro entry x hx
    obtain ⟨_, -, rfl⟩ := List.mem_map.mp hx
    rfl

/-- The allocations of the chunks that `p` picks. -/
theorem mem_pickIds :
    id ∈ (s.pickChunks p).map (fun x => x.2.1) ↔
      ∃ storyId retained, s.retainedAt storyId id = some retained ∧
        p (s.storyOf storyId) retained = true := by
  constructor
  · intro hid
    obtain ⟨x, hx, rfl⟩ := List.mem_map.mp hid
    obtain ⟨retained, hat, -, hp⟩ := mem_pickChunks.mp hx
    exact ⟨x.1, retained, hat, hp⟩
  · rintro ⟨storyId, retained, hat, hp⟩
    refine List.mem_map.mpr ⟨(storyId, id, retained.chunk), ?_, rfl⟩
    exact mem_pickChunks.mpr ⟨retained, hat, rfl, hp⟩

theorem tracked_of_retainedAt {retained : RetainedChunk}
    (hat : s.retainedAt storyId id = some retained) :
    s.trackedBooks storyId id = some (retained.chunk, retained.state.inQueue) := by
  rw [trackedBooks, hat]
  rfl

theorem nodup_pickIds (h : s.OwnedWith Q F) (p : StoryRetention → RetainedChunk → Bool) :
    ((s.pickChunks p).map fun x => x.2.1).Nodup := by
  refine List.Nodup.map_on ?_ (nodup_pickChunks s p)
  rintro ⟨storyId, id, chunk⟩ hx ⟨storyId', id', chunk'⟩ hx' hid
  obtain ⟨retained, hat, hchunk, -⟩ := mem_pickChunks.mp hx
  obtain ⟨retained', hat', hchunk', -⟩ := mem_pickChunks.mp hx'
  dsimp only at hid hat hat' hchunk hchunk'
  subst hid
  obtain rfl := h.unique _ _ id _ _ (tracked_of_retainedAt hat) (tracked_of_retainedAt hat')
  rw [hat, Option.some.injEq] at hat'
  rw [← hchunk, ← hchunk', hat']

/-- The chunks that `p` picks go out, if it picks no chunk that is out. -/
theorem OwnedWith.lendPicked (h : s.OwnedWith Q F) {f : ChunkState → ChunkState}
    (hp : ∀ story retained, p story retained = true → retained.state.inQueue = false)
    (hf : ∀ state, (f state).inQueue = true) :
    ((s.markPicked p f).stash ((s.pickChunks p).map Prod.snd)).OwnedWith Q F := by
  refine OwnedWith.stash ?_
  have hids : ((s.pickChunks p).map Prod.snd).map Prod.fst = (s.pickChunks p).map fun x => x.2.1 :=
    List.map_map
  have hlend : Owned StoryChunk.storyId (s.markPicked p f).trackedBooks
      (Q ++ s.extractionQueue ++ (s.pickChunks p).map Prod.snd) (F ++ s.deleted) s.nextChunk := by
    refine Owned.lend h ?_ ?_ ?_
    · rw [hids]
      exact nodup_pickIds h p
    · intro y hy
      obtain ⟨x, hx, rfl⟩ := List.mem_map.mp hy
      obtain ⟨retained, hat, hchunk, hpick⟩ := mem_pickChunks.mp hx
      refine ⟨x.1, ?_⟩
      rw [tracked_of_retainedAt hat, hchunk, hp _ _ hpick]
    · intro storyId id x'
      rw [hids, trackedBooks, retainedAt_markPicked]
      cases hat : s.retainedAt storyId id with
      | none => simp [trackedBooks, hat]
      | some retained =>
        have hpicked : id ∈ (s.pickChunks p).map (fun x => x.2.1) ↔
            p (s.storyOf storyId) retained = true := by
          rw [mem_pickIds]
          refine ⟨?_, fun hpick => ⟨storyId, retained, hat, hpick⟩⟩
          rintro ⟨other, retained', hat', hpick⟩
          obtain rfl := h.unique _ _ id _ _ (tracked_of_retainedAt hat) (tracked_of_retainedAt hat')
          rw [hat, Option.some.injEq] at hat'
          rwa [hat']
        rw [hpicked, tracked_of_retainedAt hat]
        rw [Option.map_some, Option.map_some]
        obtain ⟨chunk', out⟩ := x'
        by_cases hpick : p (s.storyOf storyId) retained = true
        · rw [if_pos hpick]
          cases out <;> simp [hpick, hf, @eq_comm _ chunk']
        · rw [if_neg hpick]
          cases out <;> simp [hpick, @eq_comm _ chunk']
  refine Owned.perm hlend ?_
  rw [List.append_assoc, List.append_assoc]
  exact List.Perm.append_left Q List.perm_append_comm

/-! ### Dropping a story, and the destructor -/

theorem foldl_dropChunk_custody (l : List (ChunkId × RetainedChunk))
    (s : KeeperChunkRetentionStore) :
    (l.foldl dropChunk s).extractionQueue = s.extractionQueue ∧
      (l.foldl dropChunk s).deleted =
        s.deleted ++ (l.filter fun entry => !entry.2.state.inQueue).map Prod.fst := by
  induction l generalizing s with
  | nil => exact ⟨rfl, (List.append_nil _).symm⟩
  | cons entry l ih =>
    have hone : (s.dropChunk entry).extractionQueue = s.extractionQueue ∧
        (s.dropChunk entry).deleted =
          if entry.2.state.inQueue then s.deleted else s.deleted ++ [entry.1] := by
      unfold dropChunk
      dsimp only
      split <;> split <;> exact ⟨rfl, rfl⟩
    rw [List.foldl_cons, (ih _).1, (ih _).2, hone.1, hone.2]
    refine ⟨rfl, ?_⟩
    cases hq : entry.2.state.inQueue with
    | true => simp [hq]
    | false => simp [hq]

theorem OwnedWith.dropStory (h : s.OwnedWith Q F) (storyId : StoryId) (now : ℕ) :
    (s.dropStory storyId now).OwnedWith Q F := by
  have hnext : (s.dropStory storyId now).nextChunk = s.nextChunk :=
    (shrinks_dropStory now).nextChunk
  have hafter : ∀ other id, (s.dropStory storyId now).trackedBooks other id =
      if storyId = other then none else s.trackedBooks other id := by
    intro other id
    rw [trackedBooks, retainedAt_dropStory]
    split <;> rfl
  cases hstory : s.storyRetention[storyId]? with
  | none =>
    have hsame : s.dropStory storyId now =
        { s with
          droppedStories := s.droppedStories.insert storyId now
          walCalls := s.walCalls ++ [.storyDropped storyId] } := by
      unfold KeeperChunkRetentionStore.dropStory
      simp only [hstory]
    exact h.of_eq (tracked_congr (by rw [hsame])) (by rw [hsame]) (by rw [hsame]) hnext
  | some story =>
    have hat : ∀ id, s.trackedBooks storyId id =
        (story.chunks[id]?).map fun retained => (retained.chunk, retained.state.inQueue) :=
      fun id => by rw [trackedBooks, retainedAt_of_getElem? hstory]
    have hfold := foldl_dropChunk_custody story.chunks.toList
      { s with
        droppedStories := s.droppedStories.insert storyId now
        walCalls := s.walCalls ++ [.storyDropped storyId] }
    have heq : (s.dropStory storyId now).extractionQueue = s.extractionQueue ∧
        (s.dropStory storyId now).deleted = s.deleted ++
          (story.chunks.toList.filter fun entry => !entry.2.state.inQueue).map Prod.fst := by
      unfold KeeperChunkRetentionStore.dropStory
      simp only [hstory]
      exact hfold
    unfold OwnedWith
    rw [heq.1, heq.2, hnext, ← List.append_assoc, ← List.append_nil (Q ++ s.extractionQueue)]
    refine Owned.release (S := fun other _ => storyId = other) h ?_ ?_ ?_ ?_ ?_
    · intro other id x
      rw [hafter]
      by_cases ho : storyId = other <;> simp [ho]
    · intro y hy
      cases hy
    · intro id hid
      obtain ⟨⟨id', retained⟩, hmem, rfl⟩ := List.mem_map.mp hid
      obtain ⟨hget, hq⟩ := List.mem_filter.mp hmem
      rw [Std.ExtTreeMap.mem_toList_iff_getElem?_eq_some] at hget
      refine ⟨storyId, retained.chunk, rfl, ?_⟩
      rw [hat]
      dsimp only
      rw [hget, Option.map_some, show retained.state.inQueue = false by simpa using hq]
    · refine List.Nodup.sublist (List.filter_sublist.map Prod.fst) ?_
      exact OrderedMap.nodup_map_toList _ (fun id : ChunkId => id) fun _ => rfl
    · rintro other id a rfl hx
      rw [hat] at hx
      obtain ⟨retained, hget, hretained⟩ := Option.map_eq_some_iff.mp hx
      refine List.mem_map.mpr ⟨(id, retained), List.mem_filter.mpr ⟨?_, ?_⟩, rfl⟩
      · exact Std.ExtTreeMap.mem_toList_iff_getElem?_eq_some.mpr hget
      · rw [show retained.state.inQueue = false from congrArg Prod.snd hretained]
        rfl

/-- The chunks the destructor hands to the queue. -/
def lastChance (_ : StoryRetention) (retained : RetainedChunk) : Bool :=
  !retained.state.inQueue && !retained.state.shipped

/-- The chunks the destructor deletes. -/
def acknowledged (_ : StoryRetention) (retained : RetainedChunk) : Bool :=
  !retained.state.inQueue && retained.state.shipped

theorem foldl_destructChunk (story : StoryRetention) (l : List (ChunkId × RetainedChunk))
    (s : KeeperChunkRetentionStore) :
    l.foldl destructChunk s =
      { s with
        extractionQueue := s.extractionQueue ++
          (l.filter fun entry => lastChance story entry.2).map fun entry =>
            (entry.1, entry.2.chunk)
        deleted := s.deleted ++
          (l.filter fun entry => acknowledged story entry.2).map Prod.fst } := by
  induction l generalizing s with
  | nil => simp
  | cons entry l ih =>
    rw [List.foldl_cons, ih]
    unfold destructChunk lastChance acknowledged stash deleteChunk
    cases hq : entry.2.state.inQueue <;> cases hs : entry.2.state.shipped <;> simp [hq, hs]

theorem foldl_destructStory (l : List (StoryId × StoryRetention)) (s : KeeperChunkRetentionStore) :
    l.foldl (fun s entry => entry.2.chunks.toList.foldl destructChunk s) s =
      { s with
        extractionQueue := s.extractionQueue ++
          (l.flatMap fun entry =>
            (entry.2.chunks.toList.filter fun chunk => lastChance entry.2 chunk.2).map fun chunk =>
              (chunk.1, chunk.2.chunk))
        deleted := s.deleted ++
          (l.flatMap fun entry =>
            (entry.2.chunks.toList.filter fun chunk => acknowledged entry.2 chunk.2).map
              Prod.fst) } := by
  induction l generalizing s with
  | nil => simp
  | cons entry l ih =>
    rw [List.foldl_cons, ih, foldl_destructChunk entry.2]
    simp

theorem destructor_custody (s : KeeperChunkRetentionStore) :
    s.destructor.extractionQueue =
        s.extractionQueue ++ (s.pickChunks lastChance).map Prod.snd ∧
      s.destructor.deleted =
        s.deleted ++ (s.pickChunks acknowledged).map (fun x => x.2.1) ∧
      s.destructor.nextChunk = s.nextChunk := by
  unfold KeeperChunkRetentionStore.destructor pickChunks
  rw [foldl_destructStory]
  refine ⟨?_, ?_, rfl⟩
  · rw [List.map_flatMap]
    simp [Function.comp_def]
  · rw [List.map_flatMap]
    simp [Function.comp_def]

theorem tracked_destructor (s : KeeperChunkRetentionStore) (storyId : StoryId) (id : ChunkId) :
    s.destructor.trackedBooks storyId id = none := by
  unfold KeeperChunkRetentionStore.destructor trackedBooks retainedAt
  dsimp only
  rw [Std.ExtTreeMap.getElem?_map]
  cases (List.foldl _ s _).storyRetention[storyId]? with
  | none => rfl
  | some story => simp

theorem OwnedWith.destructor (h : s.OwnedWith Q F) : s.destructor.OwnedWith Q F := by
  obtain ⟨hqueue, hdeleted, hnext⟩ := destructor_custody s
  have hids : ((s.pickChunks lastChance).map Prod.snd).map Prod.fst =
      (s.pickChunks lastChance).map fun x => x.2.1 := List.map_map
  unfold OwnedWith
  rw [hqueue, hdeleted, hnext, ← List.append_assoc, ← List.append_assoc]
  refine Owned.release (S := fun _ _ => True) h ?_ ?_ ?_ ?_ ?_
  · intro storyId id x
    rw [tracked_destructor]
    simp
  · intro y hy
    obtain ⟨x, hx, rfl⟩ := List.mem_map.mp hy
    obtain ⟨retained, hat, hchunk, hp⟩ := mem_pickChunks.mp hx
    simp only [lastChance, Bool.and_eq_true, Bool.not_eq_true'] at hp
    exact ⟨x.1, trivial, by rw [tracked_of_retainedAt hat, hchunk, hp.1]⟩
  · intro id hid
    obtain ⟨storyId, retained, hat, hp⟩ := mem_pickIds.mp hid
    simp only [acknowledged, Bool.and_eq_true, Bool.not_eq_true'] at hp
    exact ⟨storyId, retained.chunk, trivial, by rw [tracked_of_retainedAt hat, hp.1]⟩
  · rw [hids]
    refine (nodup_pickIds h lastChance).append (nodup_pickIds h acknowledged) ?_
    intro id hlast hack
    obtain ⟨storyId, retained, hat, hp⟩ := mem_pickIds.mp hlast
    obtain ⟨other, retained', hat', hp'⟩ := mem_pickIds.mp hack
    obtain rfl := h.unique _ _ id _ _ (tracked_of_retainedAt hat) (tracked_of_retainedAt hat')
    rw [hat, Option.some.injEq] at hat'
    subst hat'
    simp only [lastChance, acknowledged, Bool.and_eq_true, Bool.not_eq_true'] at hp hp'
    rw [hp.2] at hp'
    cases hp'.2
  · intro storyId id a _ hx
    obtain ⟨retained, hat, hretained⟩ := Option.map_eq_some_iff.mp hx
    have hq : retained.state.inQueue = false := congrArg Prod.snd hretained
    rw [hids, List.mem_append, mem_pickIds, mem_pickIds]
    cases hs : retained.state.shipped with
    | true => exact Or.inr ⟨storyId, retained, hat, by simp [acknowledged, hq, hs]⟩
    | false => exact Or.inl ⟨storyId, retained, hat, by simp [lastChance, hq, hs]⟩

/-- **Every method but the callbacks keeps custody**, and hands over what it lends. -/
theorem OwnedWith.run (h : s.OwnedWith Q F) {x : RetentionStep} (hx : x.isDrainCallback = false)
    (now : ℕ) : (x.run s now).OwnedWith Q F := by
  cases x with
  | sealChunk chunk => exact h.ingestSealedChunk chunk now
  | discardEvent storyId event => exact h
  | call c =>
    cases c with
    | markShipped storyId id grapherInstance receipt => cases hx
    | markSendFailed storyId id => cases hx
    | applyReport storyId report =>
      change (s.applyReport storyId report now).OwnedWith Q F
      by_cases hw : report.watermark = kStoryDroppedWatermark
      · rw [show s.applyReport storyId report now = s.dropStory storyId now from if_pos hw]
        exact h.dropStory storyId now
      · rw [applyReport_of_ne hw]
        refine OwnedWith.sweeps ?_ (sweeps_maybeFreeChunks _ storyId now)
        refine h.of_eq ?_ rfl rfl rfl
        funext other id
        rw [trackedBooks, retainedAt_reported, trackedBooks]
    | freeDurableChunks => exact h.sweeps (sweeps_freeDurableChunks s now)
    | requeueStalled maxAge =>
      refine h.lendPicked (fun story retained hp => ?_) fun _ => rfl
      simp only [stalled, Bool.and_eq_true, Bool.not_eq_true', Bool.or_eq_false_iff] at hp
      exact hp.1.1.1
    | flushUnshippedChunks =>
      refine h.lendPicked (fun story retained hp => ?_) fun _ => rfl
      simp only [Bool.not_eq_true', Bool.or_eq_false_iff] at hp
      exact hp.1
    | releaseStoryTail storyId => exact h.sweeps (sweeps_releaseStoryTail s storyId now)
    | clearDroppedStory storyId => exact h
    | fetchRange storyId => exact h.sweeps (sweeps_afterFetchRange s storyId now)

end KeeperChunkRetentionStore

/-! ### Whole runs -/

namespace ChunkFlow

/-- Custody of the chunks, with the queue and the drain threads. -/
def InCustody (c : ChunkFlow) : Prop :=
  c.store.OwnedWith (c.queue ++ c.hands) c.freed ∧
    (c.destructed = true → ∀ storyId id, c.store.trackedBooks storyId id = none)

variable {c c' : ChunkFlow}

theorem perm_eraseIdx {α : Type*} {l : List α} {i : ℕ} {y : α} (h : l[i]? = some y) :
    l.Perm (y :: l.eraseIdx i) := by
  obtain ⟨hi, rfl⟩ := List.getElem?_eq_some_iff.mp h
  exact (List.getElem_cons_eraseIdx_perm hi).symm

/-- A callback takes the pointer out of a drain thread's hands. -/
theorem inCustody_callback (h : c.InCustody) (hlive : c.destructed = false) {i : ℕ}
    {y : ChunkId × StoryChunk} (hy : c.hands[i]? = some y) {f : ChunkState → ChunkState}
    (hf : ∀ state, (f state).inQueue = false) (now : ℕ) :
    InCustody
      { c with
        store := c.store.updateChunk y.2.storyId y.1 f now
        hands := c.hands.eraseIdx i } := by
  refine ⟨?_, fun hd => ?_⟩
  · refine OwnedWith.updateChunk ?_ hf now
    refine Owned.perm h.1 (List.Perm.append_right _ ?_)
    exact (List.Perm.append_left _ (perm_eraseIdx hy)).trans List.perm_middle
  · rw [show c.destructed = true from hd] at hlive
    cases hlive

/-- **Every step keeps custody of the chunks.** -/
theorem owned_step {l : FlowStep} (h : c.InCustody) (hstep : c.step l = some c') :
    c'.InCustody := by
  cases l with
  | call x now =>
    simp only [step] at hstep
    split at hstep
    · cases hstep
    · next hx =>
      rw [Bool.or_eq_true, not_or, Bool.not_eq_true, Bool.not_eq_true] at hx
      cases hstep
      refine ⟨h.1.run hx.2 now, fun hd => ?_⟩
      rw [show c.destructed = true from hd] at hx
      cases hx.1
  | stash i =>
    obtain ⟨y, hy, heq⟩ := Option.map_eq_some_iff.mp hstep
    cases heq
    refine ⟨Owned.perm h.1 ?_, h.2⟩
    calc c.queue ++ c.hands ++ c.store.extractionQueue
        = c.queue ++ (c.hands ++ c.store.extractionQueue) := List.append_assoc ..
      _ ~ c.queue ++ (c.hands ++ y :: c.store.extractionQueue.eraseIdx i) :=
        ((perm_eraseIdx hy).append_left _).append_left _
      _ ~ c.queue ++ y :: (c.hands ++ c.store.extractionQueue.eraseIdx i) :=
        List.perm_middle.append_left _
      _ = c.queue ++ [y] ++ c.hands ++ c.store.extractionQueue.eraseIdx i := by simp
  | ejectStoryChunk =>
    simp only [step] at hstep
    split at hstep
    · cases hstep
    · next y rest hqueue =>
      cases hstep
      refine ⟨Owned.perm h.1 (List.Perm.append_right _ ?_), h.2⟩
      rw [hqueue, ← List.append_assoc]
      exact (List.perm_append_singleton y (rest ++ c.hands)).symm
  | markShipped i grapherInstance receipt now =>
    simp only [step] at hstep
    split at hstep
    · cases hstep
    · next hd =>
      obtain ⟨y, hy, heq⟩ := Option.map_eq_some_iff.mp hstep
      cases heq
      exact inCustody_callback h (by simpa using hd) hy (fun _ => rfl) now
  | markSendFailed i now =>
    simp only [step] at hstep
    split at hstep
    · cases hstep
    · next hd =>
      obtain ⟨y, hy, heq⟩ := Option.map_eq_some_iff.mp hstep
      cases heq
      exact inCustody_callback h (by simpa using hd) hy (fun _ => rfl) now
  | destructor =>
    simp only [step] at hstep
    split at hstep
    · cases hstep
    · cases hstep
      exact ⟨h.1.destructor, fun _ => tracked_destructor c.store⟩
  | shutDown =>
    simp only [step] at hstep
    split at hstep
    · next hd =>
      cases hstep
      refine ⟨?_, h.2⟩
      have hown : Owned StoryChunk.storyId c.store.trackedBooks
          (c.queue ++ (c.hands ++ c.store.extractionQueue)) (c.freed ++ c.store.deleted)
          c.store.nextChunk := by
        rw [← List.append_assoc]
        exact h.1
      -- the store tracks nothing any more, so the queue may delete what it holds
      have hfreed := hown.discardAll fun y _ => h.2 hd y.2.storyId y.1
      refine hfreed.permDeleted ?_
      rw [List.append_assoc, List.append_assoc]
      exact List.Perm.append_left _ List.perm_append_comm
    · cases hstep

theorem chunkOwnership_of_inCustody (h : c.InCustody) : ChunkOwnership c := by
  have hown := h.1
  have hids : (c.queue ++ c.hands ++ c.store.extractionQueue).map Prod.fst =
      (c.queue ++ c.hands).map Prod.fst ++ c.store.extractionQueue.map Prod.fst := List.map_append
  have honce := hown.once
  rw [hids, List.nodup_append] at honce
  have hout : ∀ id, id ∈ (c.queue ++ c.hands).map Prod.fst ↔
      id ∈ c.queue.map Prod.fst ∨ id ∈ c.hands.map Prod.fst := by
    intro id
    rw [List.map_append, List.mem_append]
  refine ⟨hown.deleted_once, fun id hid => ?_, fun id hid storyId => ?_, honce.1, fun id hid => ?_,
    fun storyId id retained hat hstashed => ?_, fun id hlt hid => ?_⟩
  · have hnot := hown.deleted_lent id hid
    rw [hids, List.mem_append, hout] at hnot
    exact ⟨fun hq => hnot (Or.inl (Or.inl hq)), fun hh => hnot (Or.inl (Or.inr hh))⟩
  · cases hat : c.store.retainedAt storyId id with
    | none => rfl
    | some retained =>
      exact absurd hid (hown.deleted_tracked storyId id _ (tracked_of_retainedAt hat))
  · refine ⟨fun hmem => honce.2.2 id hmem id hid rfl, fun storyId retained hat => ?_⟩
    refine (hown.lent storyId id _ (tracked_of_retainedAt hat)).mpr ?_
    rw [hids]
    exact List.mem_append_right _ hid
  · have hlent := hown.lent storyId id _ (tracked_of_retainedAt hat)
    rw [hids, List.mem_append, hout, or_iff_left hstashed] at hlent
    exact hlent
  · rcases hown.whole id hlt with hmem | hd | ⟨storyId, hsome⟩
    · exact Or.inr hmem
    · exact absurd hd hid
    · refine Or.inl ⟨storyId, ?_⟩
      rwa [trackedBooks, Option.isSome_map] at hsome

end ChunkFlow

theorem inCustody_fresh (tailCapacity delay ttl : ℕ) :
    ChunkFlow.InCustody { store := fresh tailCapacity delay ttl } := by
  have hat : ∀ storyId id, (fresh tailCapacity delay ttl).trackedBooks storyId id = none := by
    intro storyId id
    simp [fresh, trackedBooks, retainedAt]
  refine ⟨⟨List.nodup_nil, List.nodup_nil, ?_, ?_, ?_, ?_, ?_, ?_, ?_, ?_, ?_, ?_⟩, ?_⟩
  · exact fun _ h => by cases h
  · exact fun k id x h => by rw [hat] at h; cases h
  · exact fun k id x h => by rw [hat] at h; cases h
  · exact fun k k' id x x' h => by rw [hat] at h; cases h
  · exact fun k id x h => by rw [hat] at h; cases h
  · exact fun k id x a h => by rw [hat] at h; cases h
  · exact fun _ h => by cases h
  · exact fun _ h => by cases h
  · exact fun k id x h => by rw [hat] at h; cases h
  · exact fun _ h => by cases h
  · exact fun h => by cases h

/-- **The chunks are in good hands in every reachable state**, whatever the order
in which the threads seal, stash, drain, report, drop, free and destruct. -/
theorem chunk_ownership {c : ChunkFlow} (h : chunkFlow.Reachable c) : ChunkOwnership c := by
  refine ChunkFlow.chunkOwnership_of_inCustody (System.Reachable.induction ?_ ?_ h)
  · rintro c ⟨tailCapacity, delay, ttl, rfl⟩
    exact inCustody_fresh tailCapacity delay ttl
  · exact fun c l c' hc hstep => ChunkFlow.owned_step hc hstep

/-- A chunk of story 7 is sealed, stashed and taken by a drain thread; the story is
destroyed; the thread gives the chunk back. -/
def droppedInHands : List FlowStep :=
  [.call (.sealChunk (oneEventChunk 0 10 5)) 0, .stash 0, .ejectStoryChunk,
    .call (.call (.applyReport 7 { watermark := kStoryDroppedWatermark })) 1,
    .markSendFailed 0 2]

/-- The chunk of a destroyed story that a drain thread had is deleted once. -/
theorem chunk_ownership_droppedInHands :
    ∃ c, chunkFlow.run { store := fresh 1 0 0 } droppedInHands = some c ∧ c.deleted = [0] ∧
      ChunkOwnership c := by
  have hrun : (chunkFlow.run { store := fresh 1 0 0 } droppedInHands).map ChunkFlow.deleted =
      some [0] := by
    decide +kernel
  obtain ⟨c, hc, hdeleted⟩ := Option.map_eq_some_iff.mp hrun
  exact ⟨c, hc, hdeleted, chunk_ownership ⟨_, _, ⟨1, 0, 0, rfl⟩, hc⟩⟩

end ChronoLog
