import ChronoLog.Keeper.FetchRange
import ChronoLog.Keeper.RecoveredState
import ChronoLog.Keeper.RetentionRuns
import ChronoLog.Lib.Transition
import ChronoLog.Player.HotRangeSplit

/-!
# When a replay is complete

A deployment is a set of keepers over one archive.  Its keepers seal chunks, ship
them, apply reports, free chunks and restart from their logs, in any order; a
restarted keeper knows no watermark.  Beside its store every keeper carries the
events it sealed and whose story was not destroyed since: those are the events a
replay owes.  It also carries those of them that it lost: to a restart whose log did
not hold them, as `record_event` writes none, or to the drop report of a destroy that
came before they were recorded.

The player splits a replay at the highest watermark its keepers know.  What a
keeper freed lies below the watermark that keeper knew when it freed it, so while
keepers only run, nothing freed lies above the boundary.  A restart forgets the
watermark and not the frees.

## Main definitions

* `Deployment`, `deployment` — the keepers and the archive, as a transition system.
* `Deployment.Assumed` — what is assumed of the archive and the log: a freed chunk
  is in the archive, and what a restart recovers can be placed.
* `Deployment.FreedBelowKnown` — the condition.
* `Deployment.ReplayComplete` — the reply to a replay holds every owed event of
  the range exactly once and in order.

## Main results

* `replay_complete_iff` — **exactly when a replay is complete**, in every reachable
  deployment.
* `restarted_keeper_hides_freed_event` — a run whose replay misses an event.
-/

namespace ChronoLog

open KeeperChunkRetentionStore KeeperDataStore Transition

/-- The events that a store retains. -/
def KeeperChunkRetentionStore.storedEvents (s : KeeperChunkRetentionStore) :
    List (StoryId × EventSequence) :=
  s.storyRetention.toList.flatMap fun entry =>
    entry.2.chunks.toList.flatMap fun owned =>
      owned.2.chunk.events.map fun e => (entry.1, e.sequence)

/-- A keeper's store beside the events it sealed and whose story was not destroyed
since. -/
structure RecordingKeeper where
  store : KeeperChunkRetentionStore
  owed : List (StoryId × EventSequence) := []
  /-- Events that a restart, a drop report or its tombstone took from the store. -/
  lost : List (StoryId × EventSequence) := []

namespace RecordingKeeper

/-- The keeper's store retains the event. -/
def Retains (keeper : RecordingKeeper) (storyId : StoryId) (sequence : EventSequence) : Prop :=
  ∃ id chunk, keeper.store.chunkAt storyId id = some chunk ∧
    ∃ e ∈ chunk.events, e.sequence = sequence

/-- Sealing a chunk of its story; `destroyed` where the story was destroyed after the
chunk's events were recorded.  The tombstone of a drop report discards the chunk. -/
def sealChunk (keeper : RecordingKeeper) (chunk : StoryChunk) (destroyed : Bool) (now : ℕ) :
    RecordingKeeper :=
  let sealed := if destroyed then [] else chunk.events.map fun e => (chunk.storyId, e.sequence)
  { store := keeper.store.ingestSealedChunk chunk.storyId chunk now
    owed := keeper.owed ++ sealed
    lost := keeper.lost ++
      if (keeper.store.pruneDropped now).droppedStories.contains chunk.storyId then sealed else [] }

/-- A call on the store.  A drop report takes what the keeper retains of its story. -/
def call (keeper : RecordingKeeper) (c : StoreCall) (now : ℕ) : RecordingKeeper where
  store := c.run keeper.store now
  owed := keeper.owed
  lost := keeper.lost ++ keeper.store.storedEvents.filter fun p => c.destroys = some p.1

/-- The recovered events with their ids, as the replay seals them. -/
def recoveredEvents (storyIdOf : List UInt8 → List UInt8 → StoryId)
    (stories : OrdMap StoryId RecoveredStory) : List (StoryId × EventSequence) :=
  (stories.toList.filter fun entry => entry.2.hasNames).flatMap fun entry =>
    entry.2.events.toList.map fun e => (recoveredStoryId storyIdOf entry.2, e.1)

/-- A restart: a new store, filled by the replay of what the log gave back. -/
def restart (storyIdOf : List UInt8 → List UInt8 → StoryId) (storyChunkDurationSecs : ℕ)
    (keeper : RecordingKeeper) (stories : OrdMap StoryId RecoveredStory) (now : ℕ) :
    RecordingKeeper where
  store := replayRecoveredEvents storyIdOf storyChunkDurationSecs stories now
    (.fresh keeper.store.tailCapacity keeper.store.archiveVisibilityDelay
      keeper.store.droppedStoryTtl)
  owed := keeper.owed ++ recoveredEvents storyIdOf stories
  lost := keeper.lost ++
    keeper.store.storedEvents.filter fun p => p ∉ recoveredEvents storyIdOf stories

end RecordingKeeper

/-- The keepers of a group over one archive. -/
structure Deployment where
  keepers : List RecordingKeeper
  archive : List LogEvent := []
  now : ℕ := 0

/-- What a deployment can do next. -/
inductive DeploymentStep where
  | sealChunk (k : ℕ) (chunk : StoryChunk) (destroyed : Bool)
  | call (k : ℕ) (c : StoreCall)
  | restart (k : ℕ) (stories : OrdMap StoryId RecoveredStory)
  /-- The grapher writes events to the archive. -/
  | archive (events : List LogEvent)
  /-- The grapher destroys a story: its archive files are deleted. -/
  | destroy (storyId : StoryId)
  | tick (elapsed : ℕ)

namespace Deployment

/-- The archive holds the event. -/
def Archived (d : Deployment) (storyId : StoryId) (sequence : EventSequence) : Prop :=
  ∃ e ∈ d.archive, e.storyId = storyId ∧ e.sequence = sequence

/-- A keeper sealed the event, and its story was not destroyed since. -/
def Owed (d : Deployment) (storyId : StoryId) (sequence : EventSequence) : Prop :=
  ∃ keeper ∈ d.keepers, (storyId, sequence) ∈ keeper.owed

/-- A keeper lost the event. -/
def Lost (d : Deployment) (storyId : StoryId) (sequence : EventSequence) : Prop :=
  ∃ keeper ∈ d.keepers, (storyId, sequence) ∈ keeper.lost

/-- A keeper retains the event. -/
def Retained (d : Deployment) (storyId : StoryId) (sequence : EventSequence) : Prop :=
  ∃ keeper ∈ d.keepers, keeper.Retains storyId sequence

/-- Replace a keeper. -/
def setKeeper (d : Deployment) (k : ℕ) (keeper : RecordingKeeper) : Deployment :=
  { d with keepers := d.keepers.set k keeper }

variable (storyIdOf : List UInt8 → List UInt8 → StoryId) (storyChunkDurationSecs : ℕ)

/-- The deployment after a step. -/
def step (d : Deployment) : DeploymentStep → Option Deployment
  | .sealChunk k chunk destroyed =>
    d.keepers[k]?.map fun keeper => d.setKeeper k (keeper.sealChunk chunk destroyed d.now)
  | .call k c => d.keepers[k]?.map fun keeper => d.setKeeper k (keeper.call c d.now)
  | .restart k stories =>
    d.keepers[k]?.map fun keeper =>
      d.setKeeper k (keeper.restart storyIdOf storyChunkDurationSecs stories d.now)
  | .archive events => some { d with archive := d.archive ++ events }
  | .destroy storyId =>
    some
      { d with
        archive := d.archive.filter fun e => e.storyId ≠ storyId
        keepers := d.keepers.map fun keeper =>
          { keeper with
            owed := keeper.owed.filter fun p => p.1 ≠ storyId
            lost := keeper.lost.filter fun p => p.1 ≠ storyId } }
  | .tick elapsed => some { d with now := d.now + elapsed }

/-- A chunk that the keeper owned and `store` does not own is in the archive, as
far as its events are owed and its story was not dropped. -/
def FreedArchived (d : Deployment) (keeper : RecordingKeeper)
    (store : KeeperChunkRetentionStore) (dropped : Option StoryId) : Prop :=
  ∀ entry ∈ keeper.store.storyRetention.toList, dropped ≠ some entry.1 →
    ∀ owned ∈ entry.2.chunks.toList,
      (store.chunkAt entry.1 owned.1).isNone = true →
      ∀ e ∈ owned.2.chunk.events, (entry.1, e.sequence) ∈ keeper.owed →
        d.Archived entry.1 e.sequence

/-- What is assumed of a step: a chunk that a keeper frees is in the archive, and a
restart recovers events in a form the replay can place. -/
def Assumed (d : Deployment) : DeploymentStep → Prop
  | .sealChunk k chunk destroyed => ∀ keeper ∈ d.keepers[k]?,
    d.FreedArchived keeper (keeper.sealChunk chunk destroyed d.now).store none
  | .call k c => ∀ keeper ∈ d.keepers[k]?,
    d.FreedArchived keeper (keeper.call c d.now).store c.destroys
  | .restart _ stories => ∀ entry ∈ stories.toList, ∀ e ∈ entry.2.events.toList,
    Placeable (max storyChunkDurationSecs 1 * 1000000000) e
  | _ => True

instance (d : Deployment) (storyId : StoryId) (sequence : EventSequence) :
    Decidable (d.Archived storyId sequence) :=
  inferInstanceAs (Decidable (∃ e ∈ d.archive, _))

instance (d : Deployment) (storyId : StoryId) (sequence : EventSequence) :
    Decidable (d.Owed storyId sequence) :=
  inferInstanceAs (Decidable (∃ keeper ∈ d.keepers, _))

instance (d : Deployment) (keeper : RecordingKeeper) (store : KeeperChunkRetentionStore)
    (dropped : Option StoryId) : Decidable (d.FreedArchived keeper store dropped) :=
  inferInstanceAs (Decidable (∀ entry ∈ _, _ → ∀ owned ∈ _, _ → ∀ e ∈ _, _ → _))

instance (d : Deployment) :
    (l : DeploymentStep) → Decidable (d.Assumed storyChunkDurationSecs l)
  | .sealChunk .. => inferInstanceAs (Decidable (∀ keeper ∈ _, _))
  | .call .. => inferInstanceAs (Decidable (∀ keeper ∈ _, _))
  | .restart .. => inferInstanceAs (Decidable (∀ entry ∈ _, ∀ e ∈ _, _ ∧ _))
  | .archive _ | .destroy _ | .tick _ => inferInstanceAs (Decidable True)

end Deployment

/-- Keepers that start empty, over an empty archive. -/
def deployment (storyIdOf : List UInt8 → List UInt8 → StoryId) (storyChunkDurationSecs : ℕ) :
    System Deployment DeploymentStep where
  Initial d := d.archive = [] ∧ ∀ keeper ∈ d.keepers, keeper.owed = [] ∧ keeper.lost = [] ∧
    ∃ tailCapacity delay ttl, keeper.store = .fresh tailCapacity delay ttl
  step := Deployment.step storyIdOf storyChunkDurationSecs

/-- A replay of `[startTime, endTime)` of a story. -/
structure ReplayQuery where
  storyId : StoryId
  startTime : UInt64
  endTime : UInt64
  maxEvents : ℕ := 262144

namespace Deployment

variable (d : Deployment) (q : ReplayQuery)

/-- The keepers' answers. -/
def responses : List HotRangeResponse :=
  d.keepers.map fun keeper =>
    keeper.store.fetchRange q.storyId q.startTime.toNat q.endTime.toNat q.maxEvents d.now

/-- The player's plan and reply. -/
def replay : ReplayPlan × List LogEvent :=
  replayRange q.storyId d.archive (d.responses q) q.startTime.toNat q.endTime.toNat

/-- The event lies in the range of the replay. -/
def InQuery (sequence : EventSequence) : Prop :=
  q.startTime.toNat ≤ sequence.time.toNat ∧ sequence.time.toNat < q.endTime.toNat

instance (sequence : EventSequence) : Decidable (InQuery q sequence) :=
  inferInstanceAs (Decidable (_ ∧ _))

/-- **The reply holds every owed event of the range, each exactly once and in the
order of the sequences.** -/
def ReplayComplete : Prop :=
  (∀ sequence, d.Owed q.storyId sequence → InQuery q sequence →
    sequence ∈ (d.replay q).2.map LogEvent.sequence) ∧
  (d.replay q).2.Pairwise fun a b => compare a.sequence b.sequence = .lt

/-- What a keeper judges visible in the archive is in the archive, as far as it is
owed. -/
def VisibleArchived : Prop :=
  ∀ keeper ∈ d.keepers, ∀ story ∈ keeper.store.storyRetention[q.storyId]?,
    ∀ owned ∈ story.chunks.toList,
      visibleInArchive keeper.store.archiveVisibilityDelay story owned.2.state d.now = true →
      ∀ e ∈ owned.2.chunk.events, d.Owed q.storyId e.sequence →
        d.Archived q.storyId e.sequence

instance : Decidable (d.VisibleArchived q) :=
  inferInstanceAs (Decidable (∀ keeper ∈ _, ∀ story ∈ _, ∀ owned ∈ _, _ → ∀ e ∈ _, _ → _))

/-- **The condition**: every owed event of the range that no keeper retains was written
to the archive where a keeper lost it, and lies below a watermark that some keeper knows,
or no keeper knows a watermark and the event is older than everything the keepers retain
of the story. -/
def FreedBelowKnown : Prop :=
  ∀ sequence, d.Owed q.storyId sequence → InQuery q sequence → ¬ d.Retained q.storyId sequence →
    (d.Lost q.storyId sequence → d.Archived q.storyId sequence) ∧
    ((∃ keeper ∈ d.keepers, sequence.time.toNat < keeper.store.knownPersisted q.storyId) ∨
      (∀ keeper ∈ d.keepers, keeper.store.knownPersisted q.storyId = 0) ∧
        ∀ keeper ∈ d.keepers, ∀ id chunk, keeper.store.chunkAt q.storyId id = some chunk →
          ∀ e ∈ chunk.events, sequence.time.toNat < e.time)

/-! ### What is owed is retained, archived or lost -/

/-- The keeper retains the event or lost it, or the archive holds it. -/
def Known (d : Deployment) (keeper : RecordingKeeper) (p : StoryId × EventSequence) : Prop :=
  keeper.Retains p.1 p.2 ∨ p ∈ keeper.lost ∨ d.Archived p.1 p.2

/-- Every owed event is retained by its keeper, lost or in the archive. -/
structure Accounted (d : Deployment) : Prop where
  allocated : ∀ keeper ∈ d.keepers, keeper.store.Allocated
  owed : ∀ keeper ∈ d.keepers, ∀ p ∈ keeper.owed, d.Known keeper p

variable {d q} {storyIdOf : List UInt8 → List UInt8 → StoryId} {storyChunkDurationSecs : ℕ}

theorem accounted_setKeeper (h : d.Accounted) {k : ℕ} {keeper : RecordingKeeper}
    (halloc : keeper.store.Allocated) (howed : ∀ p ∈ keeper.owed, d.Known keeper p) :
    (d.setKeeper k keeper).Accounted := by
  constructor
  · intro other hother
    rcases List.mem_or_eq_of_mem_set hother with hmem | rfl
    · exact h.allocated other hmem
    · exact halloc
  · intro other hother p hp
    rcases List.mem_or_eq_of_mem_set hother with hmem | rfl
    · exact h.owed other hmem p hp
    · exact howed p hp

theorem mem_toList_of_retainedAt {store : KeeperChunkRetentionStore} {storyId : StoryId}
    {id : ChunkId} {retained : RetainedChunk} (h : store.retainedAt storyId id = some retained) :
    ∃ story, (storyId, story) ∈ store.storyRetention.toList ∧
      (id, retained) ∈ story.chunks.toList := by
  obtain ⟨story, hstory, hget⟩ := Option.bind_eq_some_iff.mp h
  exact ⟨story, Std.ExtTreeMap.mem_toList_iff_getElem?_eq_some.mpr hstory,
    Std.ExtTreeMap.mem_toList_iff_getElem?_eq_some.mpr hget⟩

theorem mem_storedEvents {store : KeeperChunkRetentionStore} {storyId : StoryId} {id : ChunkId}
    {chunk : StoryChunk} (hat : store.chunkAt storyId id = some chunk) {e : LogEvent}
    (he : e ∈ chunk.events) : (storyId, e.sequence) ∈ store.storedEvents := by
  obtain ⟨retained, hret, rfl⟩ := Option.map_eq_some_iff.mp hat
  obtain ⟨story, hstory, hchunk⟩ := mem_toList_of_retainedAt hret
  exact List.mem_flatMap.mpr ⟨_, hstory, List.mem_flatMap.mpr ⟨_, hchunk,
    List.mem_map.mpr ⟨e, he, rfl⟩⟩⟩

theorem FreedArchived.of_chunkAt {keeper : RecordingKeeper} {store : KeeperChunkRetentionStore}
    {dropped : Option StoryId} (h : d.FreedArchived keeper store dropped) {storyId : StoryId}
    (hdropped : dropped ≠ some storyId) {id : ChunkId} {chunk : StoryChunk}
    (hat : keeper.store.chunkAt storyId id = some chunk)
    (hnone : store.chunkAt storyId id = none) {e : LogEvent} (he : e ∈ chunk.events)
    (howed : (storyId, e.sequence) ∈ keeper.owed) : d.Archived storyId e.sequence := by
  obtain ⟨retained, hret, rfl⟩ := Option.map_eq_some_iff.mp hat
  obtain ⟨story, hstory, hchunk⟩ := mem_toList_of_retainedAt hret
  exact h (storyId, story) hstory hdropped (id, retained) hchunk (by rw [hnone]; rfl) e he howed

/-- A keeper whose store only gives up archived chunks, and those of a dropped story,
still accounts for what it owes. -/
theorem accounted_call (h : d.Accounted) {k : ℕ} {keeper : RecordingKeeper} {c : StoreCall}
    (hk : d.keepers[k]? = some keeper) (ha : d.Assumed storyChunkDurationSecs (.call k c)) :
    (d.setKeeper k (keeper.call c d.now)).Accounted := by
  have hmem := List.mem_of_getElem? hk
  have hs := shrinks_run keeper.store d.now c
  have hfreed := ha keeper hk
  refine accounted_setKeeper h ((h.allocated keeper hmem).of_shrinks hs) fun p hp => ?_
  rcases h.owed keeper hmem p hp with ⟨id, chunk, hat, e, he, hseq⟩ | hlost | harch
  · rcases hs.chunkAt p.1 id with hnone | hsame
    · by_cases hdropped : c.destroys = some p.1
      · -- the drop report took it
        refine .inr (.inl (List.mem_append_right _ (List.mem_filter.mpr ⟨?_, by simpa⟩)))
        have hstored := mem_storedEvents hat he
        rwa [hseq] at hstored
      · have harch := hfreed.of_chunkAt hdropped hat hnone he (by rw [hseq]; exact hp)
        rw [hseq] at harch
        exact .inr (.inr harch)
    · exact .inl ⟨id, chunk, hsame.trans hat, e, he, hseq⟩
  · exact .inr (.inl (List.mem_append_left _ hlost))
  · exact .inr (.inr harch)

/-- What a keeper accounted for it accounts for after a seal that leaves its store alone. -/
theorem known_of_refused {keeper : RecordingKeeper} {chunk : StoryChunk} {destroyed : Bool}
    {now : ℕ} (hread : ∀ storyId id,
      (keeper.store.ingestSealedChunk chunk.storyId chunk now).chunkAt storyId id =
        keeper.store.chunkAt storyId id)
    {p : StoryId × EventSequence} (h : d.Known keeper p) :
    d.Known (keeper.sealChunk chunk destroyed now) p := by
  rcases h with ⟨id, c, hat, hc⟩ | hlost | harch
  · exact .inl ⟨id, c, (hread p.1 id).trans hat, hc⟩
  · exact .inr (.inl (List.mem_append_left _ hlost))
  · exact .inr (.inr harch)

theorem accounted_sealChunk (h : d.Accounted) {k : ℕ} {keeper : RecordingKeeper}
    {chunk : StoryChunk} {destroyed : Bool} (hk : d.keepers[k]? = some keeper)
    (ha : d.Assumed storyChunkDurationSecs (.sealChunk k chunk destroyed)) :
    (d.setKeeper k (keeper.sealChunk chunk destroyed d.now)).Accounted := by
  have hmem := List.mem_of_getElem? hk
  have halloc := h.allocated keeper hmem
  have hfreed := ha keeper hk
  have hsealed : ∀ p ∈ (if destroyed then [] else
      chunk.events.map fun e => (chunk.storyId, e.sequence)),
      ∃ e ∈ chunk.events, (chunk.storyId, e.sequence) = p := by
    intro p hp
    split at hp
    · cases hp
    · exact List.mem_map.mp hp
  rcases ingestSealedChunk_cases keeper.store chunk.storyId chunk d.now with
    ⟨hempty, heq⟩ | ⟨hdrop, heq⟩ | ⟨-, hfrees⟩
  · -- an empty chunk is deleted
    refine accounted_setKeeper h ?_ fun p hp => ?_
    · change (keeper.store.ingestSealedChunk _ _ _).Allocated
      rw [heq]
      exact halloc.refuse
    · rcases List.mem_append.mp hp with hp | hp
      · exact known_of_refused (fun _ _ => by rw [heq]; rfl) (h.owed keeper hmem p hp)
      · obtain ⟨e, he, -⟩ := hsealed p hp
        rw [StoryChunk.empty_eq_false_of_mem he] at hempty
        cases hempty
  · -- the tombstone discards the chunk
    refine accounted_setKeeper h ?_ fun p hp => ?_
    · change (keeper.store.ingestSealedChunk _ _ _).Allocated
      rw [heq]
      exact halloc.refuse
    · rcases List.mem_append.mp hp with hp | hp
      · exact known_of_refused (fun _ _ => by rw [heq]; rfl) (h.owed keeper hmem p hp)
      · refine .inr (.inl (List.mem_append_right _ ?_))
        rw [if_pos hdrop]
        exact hp
  · have hpruned : (keeper.store.pruneDropped d.now).Allocated := halloc
    have hadopt := hpruned.adopt chunk.storyId chunk d.now
    refine accounted_setKeeper h (Allocated.of_shrinks hadopt hfrees.toShrinks) fun p hp => ?_
    rcases List.mem_append.mp hp with hp | hp
    · -- a chunk owned before is owned by the same allocation after, unless it is freed
      rcases h.owed keeper hmem p hp with ⟨id, c, hat, e, he, hseq⟩ | hlost | harch
      · rcases hfrees.chunkAt p.1 id with hnone | hsame
        · have harch := hfreed.of_chunkAt (by simp) hat hnone he (by rw [hseq]; exact hp)
          rw [hseq] at harch
          exact .inr (.inr harch)
        · refine .inl ⟨id, c, hsame.trans ?_, e, he, hseq⟩
          rw [chunkAt_adopt, if_neg]
          · exact hat
          · rintro ⟨-, hid⟩
            have hnone := halloc p.1 id (Nat.le_of_eq hid)
            rw [hat] at hnone
            cases hnone
      · exact .inr (.inl (List.mem_append_left _ hlost))
      · exact .inr (.inr harch)
    · -- the sealed chunk is queued, so it stays
      obtain ⟨e, he, rfl⟩ := hsealed p hp
      obtain ⟨state, hat, -⟩ := hfrees.queuedAt chunk.storyId keeper.store.nextChunk chunk
        ⟨sealedState chunk d.now, by rw [retainedAt_adopt, if_pos ⟨rfl, rfl⟩], rfl⟩
      refine .inl ⟨keeper.store.nextChunk, chunk, ?_, e, he, rfl⟩
      unfold chunkAt RecordingKeeper.sealChunk
      dsimp only
      rw [hat]
      rfl

theorem ready_fresh (tailCapacity delay ttl : ℕ) : Ready (.fresh tailCapacity delay ttl) where
  allocated storyId id _ := by simp [chunkAt, retainedAt, fresh]
  droppedStories := rfl

theorem accounted_restart (h : d.Accounted) {k : ℕ} {keeper : RecordingKeeper}
    {stories : OrdMap StoryId RecoveredStory} (hk : d.keepers[k]? = some keeper)
    (ha : d.Assumed storyChunkDurationSecs (.restart k stories)) :
    (d.setKeeper k
      (keeper.restart storyIdOf storyChunkDurationSecs stories d.now)).Accounted := by
  have hmem := List.mem_of_getElem? hk
  obtain ⟨hready, hqueued⟩ := queued_replayRecoveredEvents storyIdOf storyChunkDurationSecs stories
    d.now _ (ready_fresh keeper.store.tailCapacity keeper.store.archiveVisibilityDelay
      keeper.store.droppedStoryTtl) ha
  -- every recovered event is in a chunk of the new store
  have hretained : ∀ p ∈ RecordingKeeper.recoveredEvents storyIdOf stories,
      (keeper.restart storyIdOf storyChunkDurationSecs stories d.now).Retains p.1 p.2 := by
    intro p hp
    obtain ⟨entry, hentry, hp⟩ := List.mem_flatMap.mp hp
    obtain ⟨hentry, hnames⟩ := List.mem_filter.mp hentry
    obtain ⟨e, he, rfl⟩ := List.mem_map.mp hp
    obtain ⟨id, chunk, ⟨state, hat, -⟩, x, hx, hseq⟩ := hqueued entry hentry hnames e he
    exact ⟨id, chunk, by rw [chunkAt, RecordingKeeper.restart, hat]; rfl, x, hx, hseq⟩
  refine accounted_setKeeper h hready.allocated fun p hp => ?_
  by_cases hin : p ∈ RecordingKeeper.recoveredEvents storyIdOf stories
  · exact .inl (hretained p hin)
  -- what was retained and does not come back is lost
  rcases h.owed keeper hmem p ((List.mem_append.mp hp).resolve_right hin) with
    ⟨id, chunk, hat, e, he, hseq⟩ | hlost | harch
  · refine .inr (.inl (List.mem_append_right _ (List.mem_filter.mpr ⟨?_, by simpa⟩)))
    have hstored := mem_storedEvents hat he
    rwa [hseq] at hstored
  · exact .inr (.inl (List.mem_append_left _ hlost))
  · exact .inr (.inr harch)

/-- **What is owed stays accounted for** under every step that meets the
assumptions. -/
theorem accounted_step {d' : Deployment} {l : DeploymentStep} (h : d.Accounted)
    (ha : d.Assumed storyChunkDurationSecs l)
    (hstep : d.step storyIdOf storyChunkDurationSecs l = some d') : d'.Accounted := by
  cases l with
  | sealChunk k chunk destroyed =>
    obtain ⟨keeper, hk, rfl⟩ := Option.map_eq_some_iff.mp hstep
    exact accounted_sealChunk h hk ha
  | call k c =>
    obtain ⟨keeper, hk, rfl⟩ := Option.map_eq_some_iff.mp hstep
    exact accounted_call h hk ha
  | restart k stories =>
    obtain ⟨keeper, hk, rfl⟩ := Option.map_eq_some_iff.mp hstep
    exact accounted_restart h hk ha
  | archive events =>
    cases hstep
    refine ⟨h.allocated, fun keeper hmem p hp => ?_⟩
    refine (h.owed keeper hmem p hp).imp_right (Or.imp_right fun harch => ?_)
    obtain ⟨e, he, heq⟩ := harch
    exact ⟨e, List.mem_append_left events he, heq⟩
  | destroy storyId =>
    cases hstep
    constructor
    · intro keeper hmem
      obtain ⟨keeper', hmem', rfl⟩ := List.mem_map.mp hmem
      exact h.allocated keeper' hmem'
    · intro keeper hmem p hp
      obtain ⟨keeper', hmem', rfl⟩ := List.mem_map.mp hmem
      obtain ⟨hp, hne⟩ := List.mem_filter.mp hp
      rcases h.owed keeper' hmem' p hp with hr | hlost | harch
      · exact .inl hr
      · exact .inr (.inl (List.mem_filter.mpr ⟨hlost, hne⟩))
      · obtain ⟨e, he, hid, hseq⟩ := harch
        refine .inr (.inr ⟨e, List.mem_filter.mpr ⟨he, ?_⟩, hid, hseq⟩)
        rw [hid]
        exact hne
  | tick elapsed =>
    cases hstep
    exact ⟨h.allocated, h.owed⟩

theorem accounted_initial {d : Deployment}
    (h : (deployment storyIdOf storyChunkDurationSecs).Initial d) : d.Accounted := by
  refine ⟨fun keeper hmem => ?_, fun keeper hmem p hp => ?_⟩
  · obtain ⟨tailCapacity, delay, ttl, hs⟩ := (h.2 keeper hmem).2.2
    rw [hs]
    exact (ready_fresh tailCapacity delay ttl).allocated
  · rw [(h.2 keeper hmem).1] at hp
    cases hp

/-! ### The boundary of a replay -/

/-- Below the boundary lies what is below a known watermark, or, where none is
known, what is older than everything retained. -/
theorem lt_boundary_iff {t : ℕ} (ht : t < q.endTime.toNat) :
    t < boundaryOf (d.responses q) q.endTime.toNat ↔
      (∃ keeper ∈ d.keepers, t < keeper.store.knownPersisted q.storyId) ∨
        (∀ keeper ∈ d.keepers, keeper.store.knownPersisted q.storyId = 0) ∧
          ∀ keeper ∈ d.keepers, ∀ id chunk, keeper.store.chunkAt q.storyId id = some chunk →
            ∀ e ∈ chunk.events, t < e.time := by
  have hmax : t < 2 ^ 64 - 1 := by
    have := q.endTime.toNat_lt
    omega
  rw [lt_boundaryOf_iff ht hmax]
  simp only [responses, List.mem_map, exists_exists_and_eq_and, forall_exists_index, and_imp,
    forall_apply_eq_imp_iff₂, knownW_fetchRange, lt_hotFloor_fetchRange_iff hmax]

theorem mem_replay_iff {sequence : EventSequence} :
    sequence ∈ (d.replay q).2.map LogEvent.sequence ↔
      (∃ e ∈ d.archive, e.storyId = q.storyId ∧ q.startTime.toNat ≤ e.time ∧
        e.time < boundaryOf (d.responses q) q.endTime.toNat ∧ e.sequence = sequence) ∨
      ∃ response ∈ d.responses q, (∃ e ∈ response.unconfirmedEvents, e.sequence = sequence) ∨
        ∃ e ∈ response.events,
          boundaryOf (d.responses q) q.endTime.toNat ≤ e.time ∧ e.sequence = sequence := by
  refine mem_replayRange_iff ?_
  simp only [responses, List.all_map, List.all_eq_true, Function.comp_apply, answered_fetchRange,
    implies_true]

theorem retains_iff {keeper : RecordingKeeper} {storyId : StoryId} {story : StoryRetention}
    (hstory : keeper.store.storyRetention[storyId]? = some story) {sequence : EventSequence} :
    keeper.Retains storyId sequence ↔
      ∃ (id : ChunkId) (retained : RetainedChunk), story.chunks[id]? = some retained ∧
        ∃ e ∈ retained.chunk.events, e.sequence = sequence := by
  unfold RecordingKeeper.Retains chunkAt
  simp only [retainedAt_of_getElem? hstory, Option.map_eq_some_iff]
  constructor
  · rintro ⟨id, -, ⟨retained, hget, rfl⟩, h⟩
    exact ⟨id, retained, hget, h⟩
  · rintro ⟨id, retained, hget, h⟩
    exact ⟨id, retained.chunk, ⟨retained, hget, rfl⟩, h⟩

/-- What the keepers serve, they retain. -/
theorem retained_of_served {response : HotRangeResponse} (hr : response ∈ d.responses q)
    {e : LogEvent} (he : e ∈ response.events ∨ e ∈ response.unconfirmedEvents) :
    d.Retained q.storyId e.sequence := by
  obtain ⟨keeper, hmem, rfl⟩ := List.mem_map.mp hr
  cases hstory : keeper.store.storyRetention[q.storyId]? with
  | none =>
    unfold fetchRange at he
    simp [hstory] at he
  | some story =>
    obtain ⟨id, retained, hget, -, x, hx, hseq, -⟩ := inRange_of_mem_fetchRange hstory he
    exact ⟨keeper, hmem, (retains_iff hstory).mpr ⟨id, retained, hget, x, hx, hseq⟩⟩

/-- **A retained event of the range is in the reply**, wherever the boundary is. -/
theorem mem_replay_of_retained (hplan : (d.replay q).1.complete = true)
    (hvisible : d.VisibleArchived q) {sequence : EventSequence}
    (howed : d.Owed q.storyId sequence) (hin : InQuery q sequence)
    (h : d.Retained q.storyId sequence) :
    sequence ∈ (d.replay q).2.map LogEvent.sequence := by
  obtain ⟨keeper, hmem, hretains⟩ := h
  have hresponse : keeper.store.fetchRange q.storyId q.startTime.toNat q.endTime.toNat q.maxEvents
      d.now ∈ d.responses q := List.mem_map_of_mem hmem
  have htrunc : (keeper.store.fetchRange q.storyId q.startTime.toNat q.endTime.toNat q.maxEvents
      d.now).truncated = false := by
    have hanswered : (d.responses q).all (·.answered) = true := by
      simp only [responses, List.all_map, List.all_eq_true, Function.comp_apply,
        answered_fetchRange, implies_true]
    simp only [replay, replayRange, planReplay, hanswered, Bool.not_true, Bool.false_eq_true,
      if_false, Bool.not_eq_true', List.any_eq_false, Bool.not_eq_true] at hplan
    exact hplan _ hresponse
  obtain ⟨story, hstory⟩ : ∃ story, keeper.store.storyRetention[q.storyId]? = some story := by
    cases hs : keeper.store.storyRetention[q.storyId]? with
    | none =>
      obtain ⟨id, chunk, hat, -⟩ := hretains
      simp [chunkAt, retainedAt, hs] at hat
    | some story => exact ⟨story, rfl⟩
  obtain ⟨id, retained, hget, e, he, hseq⟩ := (retains_iff hstory).mp hretains
  have htime : e.time = sequence.time.toNat := by rw [← hseq, LogEvent.time_sequence]
  have hrange : KeeperChunkRetentionStore.InRange story q.startTime.toNat q.endTime.toNat
      (fun _ => True) sequence :=
    ⟨id, retained, hget, trivial, e, he, hseq, htime ▸ hin.1, htime ▸ hin.2⟩
  rw [mem_replay_iff]
  rcases fetchRange_spec hstory htrunc hrange with
    hun | ⟨⟨id', r', hget', hvis, x, hx, hxs, -⟩, hev⟩
  · exact Or.inr ⟨_, hresponse, Or.inl hun⟩
  · by_cases hb : sequence.time.toNat < boundaryOf (d.responses q) q.endTime.toNat
    · -- below the boundary the archive has it
      left
      obtain ⟨a, ha, haid, haseq⟩ := hvisible keeper hmem story hstory (id', r')
        (Std.ExtTreeMap.mem_toList_iff_getElem?_eq_some.mpr hget') hvis x hx (hxs ▸ howed)
      have hatime : a.time = sequence.time.toNat := by rw [← LogEvent.time_sequence, haseq, hxs]
      exact ⟨a, ha, haid, hatime ▸ hin.1, hatime ▸ hb, haseq.trans hxs⟩
    · right
      refine ⟨_, hresponse, Or.inr ?_⟩
      rcases hev with hlt | ⟨y, hy, hys⟩
      · -- a keeper's own watermark is not above the boundary
        refine absurd ((lt_boundary_iff hin.2).mpr (Or.inl ⟨keeper, hmem, ?_⟩)) hb
        rw [knownPersisted, storyOf_of_getElem? hstory]
        exact hlt
      · have hytime : y.time = sequence.time.toNat := by rw [← hys, LogEvent.time_sequence]
        exact ⟨y, hy, by omega, hys⟩

end Deployment

open Deployment

/-- **Exactly when a replay is complete.**  In every deployment that a run under the
assumptions reaches, a replay whose plan says it is complete holds every owed
event of the range exactly once and in order if and only if every owed event of
the range that no keeper retains is in the archive where a keeper lost it, and lies below
a watermark some keeper knows, or no keeper knows one and the event is older than all
that is retained. -/
theorem replay_complete_iff {storyIdOf : List UInt8 → List UInt8 → StoryId}
    {storyChunkDurationSecs : ℕ} {d₀ d : Deployment} {steps : List DeploymentStep}
    (hinit : (deployment storyIdOf storyChunkDurationSecs).Initial d₀)
    (hassumed : (deployment storyIdOf storyChunkDurationSecs).StepsMeet
      (Deployment.Assumed storyChunkDurationSecs) d₀ steps)
    (hrun : (deployment storyIdOf storyChunkDurationSecs).run d₀ steps = some d)
    {q : ReplayQuery} (hvisible : d.VisibleArchived q)
    (hplan : (d.replay q).1.complete = true) :
    d.ReplayComplete q ↔ d.FreedBelowKnown q := by
  have haccounted : d.Accounted := by
    refine System.run_induction_of_stepsMeet ?_ (accounted_initial hinit) hassumed hrun
    intro s l s' hs ha hstep
    exact accounted_step hs ha hstep
  constructor
  · rintro ⟨hall, -⟩ sequence howed hin hnot
    rw [← lt_boundary_iff hin.2]
    rcases mem_replay_iff.mp (hall sequence howed hin) with
      ⟨e, he, hid, -, hlt, hseq⟩ | ⟨response, hr, ⟨e, he, hseq⟩ | ⟨e, he, -, hseq⟩⟩
    · refine ⟨fun _ => ⟨e, he, hid, hseq⟩, ?_⟩
      rwa [← hseq, LogEvent.time_sequence]
    · exact absurd (hseq ▸ retained_of_served hr (Or.inr he)) hnot
    · exact absurd (hseq ▸ retained_of_served hr (Or.inl he)) hnot
  · intro hcond
    refine ⟨fun sequence howed hin => ?_, pairwise_mergeReplayEvents _ _⟩
    by_cases hret : d.Retained q.storyId sequence
    · exact mem_replay_of_retained hplan hvisible howed hin hret
    · -- what nobody retains is in the archive, and the condition puts it below the boundary
      obtain ⟨hlost, hbelow⟩ := hcond sequence howed hin hret
      have hlt := (lt_boundary_iff hin.2).mpr hbelow
      have harch : d.Archived q.storyId sequence := by
        obtain ⟨keeper, hmem, hp⟩ := howed
        rcases haccounted.owed keeper hmem _ hp with hr | hl | harch
        · exact absurd ⟨keeper, hmem, hr⟩ hret
        · exact hlost ⟨keeper, hmem, hl⟩
        · exact harch
      obtain ⟨e, he, hid, hseq⟩ := harch
      have htime : e.time = sequence.time.toNat := by
        rw [← LogEvent.time_sequence, hseq]
      exact mem_replay_iff.mpr
        (Or.inl ⟨e, he, hid, htime ▸ hin.1, htime ▸ hlt, hseq⟩)

/-! ### A restart that hides a freed event

One keeper seals an event at 10 and one at 20, in two chunks.  The grapher writes
the second, the keeper frees it under the watermark 30 and then restarts: its log
gives back the event at 10, which was never confirmed, and no watermark.  The
split puts the boundary at 10, and nobody supplies the event at 20. -/

/-- The keeper, which keeps no tail. -/
def oneKeeper : Deployment := { keepers := [{ store := .fresh 0 0 600000 }] }

/-- The run up to the restart: the second chunk is written and freed. -/
def freeSecondChunk : List DeploymentStep :=
  [.sealChunk 0 (oneEventChunk 0 15 10) false, .sealChunk 0 (oneEventChunk 15 30 20) false,
    .call 0 (.markShipped 7 1 1 2), .archive [eventAt 20],
    .call 0 (.applyReport 7
      { watermark := 30, grapherInstance := 1, highestReceipt := 2, pendingReceipts := [1] })]

/-- What the log gives back of the story: the event at 10. -/
def recoveredFirst : RecoveredStory where
  walStoryId := 7
  hasNames := true
  events := Std.ExtTreeMap.ofList [((eventAt 10).sequence, eventAt 10)]

/-- The restart. -/
def recoverFirst : DeploymentStep :=
  .restart 0 (Std.ExtTreeMap.ofList [((7 : StoryId), recoveredFirst)])

/-- The replay of `[0, 100)` of story 7. -/
def firstHundred : ReplayQuery := { storyId := 7, startTime := 0, endTime := 100 }

/-- The names of the story hash to its id. -/
def seven : List UInt8 → List UInt8 → StoryId := fun _ _ => 7

/-- The deployment a run of `oneKeeper` reaches. -/
def reached (steps : List DeploymentStep) : Deployment :=
  ((deployment seven 1).run oneKeeper steps).getD oneKeeper

theorem run_reached {steps : List DeploymentStep}
    (h : ((deployment seven 1).run oneKeeper steps).isSome = true) :
    (deployment seven 1).run oneKeeper steps = some (reached steps) := by
  unfold reached
  obtain ⟨d, hd⟩ := Option.isSome_iff_exists.mp h
  rw [hd, Option.getD_some]

theorem initial_oneKeeper : (deployment seven 1).Initial oneKeeper := by
  refine ⟨rfl, fun keeper hmem => ?_⟩
  rw [List.mem_singleton.mp hmem]
  exact ⟨rfl, rfl, 0, 0, 600000, rfl⟩

/-- While the keeper runs, its watermark covers what it freed. -/
theorem replay_complete_freeSecondChunk :
    (reached freeSecondChunk).ReplayComplete firstHundred := by
  refine (replay_complete_iff initial_oneKeeper ?_ (run_reached (by decide +kernel))
    (by decide +kernel) (by decide +kernel)).mpr ?_
  · exact System.stepsMeet_of_check (by decide +kernel)
  · intro sequence howed _ _
    obtain ⟨keeper, hmem, hp⟩ := howed
    have hknown : ∀ keeper ∈ (reached freeSecondChunk).keepers, keeper.lost = [] ∧
        ∀ p ∈ keeper.owed, p.2.time.toNat < keeper.store.knownPersisted firstHundred.storyId := by
      decide +kernel
    refine ⟨fun hlost => ?_, Or.inl ⟨keeper, hmem, (hknown keeper hmem).2 _ hp⟩⟩
    obtain ⟨other, hother, hlost⟩ := hlost
    rw [(hknown other hother).1] at hlost
    cases hlost

/-- **A restarted keeper hides an event it freed**: the replay of the reply that
claims to be complete misses the event at 20. -/
theorem restarted_keeper_hides_freed_event :
    ¬ ∀ (storyIdOf : List UInt8 → List UInt8 → StoryId) (storyChunkDurationSecs : ℕ)
      (d₀ d : Deployment) (steps : List DeploymentStep) (q : ReplayQuery),
      (deployment storyIdOf storyChunkDurationSecs).Initial d₀ →
      (deployment storyIdOf storyChunkDurationSecs).StepsMeet
        (Deployment.Assumed storyChunkDurationSecs) d₀ steps →
      (deployment storyIdOf storyChunkDurationSecs).run d₀ steps = some d →
      d.VisibleArchived q → (d.replay q).1.complete = true → d.ReplayComplete q := by
  intro hall
  have hcomplete := hall seven 1 oneKeeper (reached (freeSecondChunk ++ [recoverFirst]))
    (freeSecondChunk ++ [recoverFirst]) firstHundred initial_oneKeeper
    (System.stepsMeet_of_check (by decide +kernel)) (run_reached (by decide +kernel))
    (by decide +kernel) (by decide +kernel)
  have hmissing := hcomplete.1 (eventAt 20).sequence (by decide +kernel) (by decide)
  exact absurd hmissing (by decide +kernel)

end ChronoLog
