import ChronoLog.Keeper.RetainedChunks

/-!
# What recovery hands to the keeper, and its replay into sealed chunks

`recoverWal` returns the events still pending in the log; at startup
`replayRecoveredEvents` puts them into sealed chunks of one chunk duration each
and hands those to the retention store.

## Main definitions

* `RecoveredStory`, `RecoveredState` — the result of a recovery.
* `KeeperDataStore.replayRecoveredEvents` — the replay into the retention store.

## Main results

* `queued_replayRecoveredEvents` — **every recovered event is retained again**,
  in a chunk that is queued for the grapher.
-/

namespace ChronoLog

open KeeperChunkRetentionStore

/-- What recovery read back of one story. -/
structure RecoveredStory where
  walStoryId : StoryId
  hasNames : Bool := false
  chronicle : List UInt8 := []
  story : List UInt8 := []
  /-- The pending events, after the drop records are applied. -/
  events : OrdMap EventSequence LogEvent := ∅
  /-- The segment and the frame bytes of each copy of an event. -/
  copies : OrdMap EventSequence (List (ℕ × ℕ)) := ∅

/-- What recovery read back from the log. -/
structure RecoveredState where
  /-- The segments, oldest first. -/
  segments : List ℕ := []
  /-- The stories, keyed by the id in the log. -/
  stories : OrdMap StoryId RecoveredStory := ∅
  /-- The stories each segment holds a drop record for, in the order read. -/
  droppedIn : OrdMap ℕ (List StoryId) := ∅
  /-- The newest segment, if it holds only its header record. -/
  reusableSpare : Option ℕ := none
  bytesRead : ℕ := 0

namespace KeeperDataStore

section

variable (storyIdOf : List UInt8 → List UInt8 → StoryId)

/-- `recoveredStoryId`: the id the names hash to, or the one in the log. -/
def recoveredStoryId (story : RecoveredStory) : StoryId :=
  if story.hasNames then storyIdOf story.chronicle story.story else story.walStoryId

end

/-- Hand a chunk of the replay over to the store. -/
def handOver (s : KeeperChunkRetentionStore) (storyId : StoryId) (chunk : StoryChunk) (now : ℕ) :
    KeeperChunkRetentionStore :=
  if chunk.empty then s else s.ingestSealedChunk storyId chunk now

/-- The chunk a replayed event opens. -/
def chunkOf (duration : ℕ) (storyId : StoryId) (t : ℕ) : StoryChunk :=
  .new storyId (t - t % duration) ((t - t % duration + duration) % 2 ^ 64)

/-- The chunk an event at `t` goes into: the open one, unless the event falls past
its end, when that one is handed over and a new one opened. -/
def chunkFor (duration : ℕ) (storyId : StoryId) (now : ℕ)
    (acc : KeeperChunkRetentionStore × Option StoryChunk) (t : ℕ) :
    KeeperChunkRetentionStore × StoryChunk :=
  match acc.2 with
  | some chunk =>
    if chunk.endTime ≤ t then (handOver acc.1 storyId chunk now, chunkOf duration storyId t)
    else (acc.1, chunk)
  | none => (acc.1, chunkOf duration storyId t)

/-- One event of the replay; one that cannot be placed is reported as discarded. -/
def replayEvent (duration : ℕ) (storyId : StoryId) (now : ℕ)
    (acc : KeeperChunkRetentionStore × Option StoryChunk) (entry : EventSequence × LogEvent) :
    KeeperChunkRetentionStore × Option StoryChunk :=
  let (s, chunk) := chunkFor duration storyId now acc entry.2.time
  let (chunk, accepted) := chunk.insertEvent { entry.2 with storyId := storyId }
  (if accepted = 0 then s.eventDiscarded storyId entry.1 else s, some chunk)

/-- The replay of one story. -/
def replayStory (duration : ℕ) (storyId : StoryId) (events : List (EventSequence × LogEvent))
    (now : ℕ) (s : KeeperChunkRetentionStore) : KeeperChunkRetentionStore :=
  let (s, chunk) := events.foldl (replayEvent duration storyId now) (s, none)
  let s := match chunk with
    | some chunk => handOver s storyId chunk now
    | none => s
  s.releaseStoryTail storyId now

/-- `replayRecoveredEvents`.  The events of a story whose names were not recovered
have no archive to go to and are left in the log. -/
def replayRecoveredEvents (storyIdOf : List UInt8 → List UInt8 → StoryId)
    (storyChunkDurationSecs : ℕ) (stories : OrdMap StoryId RecoveredStory) (now : ℕ)
    (s : KeeperChunkRetentionStore) : KeeperChunkRetentionStore :=
  let duration := max storyChunkDurationSecs 1 * 1000000000
  stories.toList.foldl
    (fun s entry =>
      if entry.2.events.isEmpty || !entry.2.hasNames then s
      else
        replayStory duration (recoveredStoryId storyIdOf entry.2) entry.2.events.toList now s)
    s

/-! ### Every recovered event is retained again -/

/-- The store retains the sequence in a queued chunk of the story. -/
def KeptQueued (s : KeeperChunkRetentionStore) (storyId : StoryId) (sequence : EventSequence) :
    Prop :=
  ∃ id chunk, s.QueuedAt storyId id chunk ∧ ∃ e ∈ chunk.events, e.sequence = sequence

/-- A store without drops that owns no chunk past its next allocation. -/
structure Ready (s : KeeperChunkRetentionStore) : Prop where
  allocated : s.Allocated
  droppedStories : s.droppedStories = ∅

/-- A store that is ready stays so, and what is queued there stays queued. -/
structure Keeps (s s' : KeeperChunkRetentionStore) : Prop where
  ready : Ready s → Ready s'
  kept : Ready s → ∀ storyId sequence, KeptQueued s storyId sequence →
    KeptQueued s' storyId sequence

theorem Keeps.refl (s : KeeperChunkRetentionStore) : Keeps s s := ⟨id, fun _ _ _ h => h⟩

theorem Keeps.trans {s s' s'' : KeeperChunkRetentionStore} (h : Keeps s s') (h' : Keeps s' s'') :
    Keeps s s'' :=
  ⟨fun hr => h'.ready (h.ready hr),
    fun hr storyId sequence hk => h'.kept (h.ready hr) storyId sequence
      (h.kept hr storyId sequence hk)⟩

theorem Keeps.of_frees {s s' : KeeperChunkRetentionStore} (h : s.Frees s') : Keeps s s' := by
  refine ⟨fun hr => ⟨hr.allocated.of_shrinks h.toShrinks, ?_⟩, ?_⟩
  · rw [h.droppedStories, hr.droppedStories]
  · rintro - storyId sequence ⟨id, chunk, hq, he⟩
    exact ⟨id, chunk, h.queuedAt storyId id chunk hq, he⟩

/-- Sealing a chunk in a store without drops queues it. -/
theorem keeps_ingestSealedChunk (s : KeeperChunkRetentionStore) (storyId : StoryId)
    (chunk : StoryChunk) (now : ℕ) :
    Keeps s (s.ingestSealedChunk storyId chunk now) ∧
      (Ready s → ∀ e ∈ chunk.events,
        KeptQueued (s.ingestSealedChunk storyId chunk now) storyId e.sequence) := by
  rcases ingestSealedChunk_cases s storyId chunk now with
    ⟨hempty, heq⟩ | ⟨hdrop, -⟩ | ⟨-, hfrees⟩
  · rw [heq]
    refine ⟨⟨fun hr => ⟨hr.allocated.refuse, hr.droppedStories⟩, fun _ _ _ hk => hk⟩,
      fun _ e he => ?_⟩
    rw [StoryChunk.empty_eq_false_of_mem he] at hempty
    cases hempty
  · -- a ready store remembers no drop
    have hnot : ¬ Ready s := by
      intro hr
      rw [pruneDropped, hr.droppedStories] at hdrop
      cases hdrop
    exact ⟨⟨fun hr => absurd hr hnot, fun hr => absurd hr hnot⟩, fun hr => absurd hr hnot⟩
  · have hadopt : Keeps s ((s.pruneDropped now).adopt storyId chunk now) := by
      refine ⟨fun hr => ⟨hr.allocated.adopt storyId chunk now, ?_⟩, ?_⟩
      · change s.droppedStories.filter _ = ∅
        rw [hr.droppedStories]
        rfl
      · rintro hr other sequence ⟨id, c, ⟨state, hat, hq⟩, he⟩
        refine ⟨id, c, ⟨state, ?_, hq⟩, he⟩
        rw [retainedAt_adopt, if_neg]
        · exact hat
        · rintro ⟨-, hid⟩
          have hnone := hr.allocated other id (Nat.le_of_eq hid)
          rw [chunkAt, hat] at hnone
          cases hnone
    refine ⟨hadopt.trans (Keeps.of_frees hfrees), fun hr e he => ?_⟩
    refine ⟨s.nextChunk, chunk, hfrees.queuedAt _ _ _ ⟨sealedState chunk now, ?_, rfl⟩, e, he, rfl⟩
    rw [retainedAt_adopt, if_pos ⟨rfl, rfl⟩]

theorem keeps_handOver (s : KeeperChunkRetentionStore) (storyId : StoryId) (chunk : StoryChunk)
    (now : ℕ) :
    Keeps s (handOver s storyId chunk now) ∧
      (Ready s → ∀ e ∈ chunk.events,
        KeptQueued (handOver s storyId chunk now) storyId e.sequence) := by
  unfold handOver
  split
  · next hempty =>
    refine ⟨Keeps.refl s, fun _ e he => ?_⟩
    rw [StoryChunk.empty_eq_false_of_mem he] at hempty
    cases hempty
  · exact keeps_ingestSealedChunk s storyId chunk now

/-- The recovered event can be placed: it is stored under its sequence, has a
record, and lies a chunk duration or more below the end of time. -/
def Placeable (duration : ℕ) (entry : EventSequence × LogEvent) : Prop :=
  entry.2.sequence = entry.1 ∧ entry.2.logRecord ≠ [] ∧ entry.2.time + duration < 2 ^ 64

/-- A chunk of the replay: of the story, and of a whole duration. -/
def OpenChunk (storyId : StoryId) (t : ℕ) (chunk : StoryChunk) : Prop :=
  chunk.storyId = storyId ∧ chunk.startTime ≤ t

/-- What the replay keeps of an event it has passed. -/
def Replayed (acc : KeeperChunkRetentionStore × Option StoryChunk) (storyId : StoryId)
    (sequence : EventSequence) : Prop :=
  KeptQueued acc.1 storyId sequence ∨
    ∃ chunk, acc.2 = some chunk ∧ ∃ e ∈ chunk.events, e.sequence = sequence

theorem chunkOf_spec {duration t : ℕ} (hd : 0 < duration) (ht : t + duration < 2 ^ 64)
    (storyId : StoryId) :
    (chunkOf duration storyId t).storyId = storyId ∧
      (chunkOf duration storyId t).startTime ≤ t ∧ t < (chunkOf duration storyId t).endTime := by
  have hmod : t % duration < duration := Nat.mod_lt t hd
  have hle : t % duration ≤ t := Nat.mod_le t duration
  have hlt : t - t % duration + duration < 2 ^ 64 := by omega
  refine ⟨rfl, Nat.sub_le t _, ?_⟩
  unfold chunkOf StoryChunk.new
  dsimp only
  rw [Nat.mod_eq_of_lt hlt, if_neg (by omega)]
  omega

/-- The chunk an event goes into has room for its time, and handing the old chunk
over loses nothing. -/
theorem chunkFor_spec {duration : ℕ} (hd : 0 < duration) {storyId : StoryId} (now : ℕ)
    (acc : KeeperChunkRetentionStore × Option StoryChunk) {t : ℕ} (ht : t + duration < 2 ^ 64)
    (hready : Ready acc.1) (hopen : ∀ chunk, acc.2 = some chunk → OpenChunk storyId t chunk) :
    let next := chunkFor duration storyId now acc t
    Keeps acc.1 next.1 ∧ OpenChunk storyId t next.2 ∧ t < next.2.endTime ∧
      ∀ sequence, Replayed acc storyId sequence →
        Replayed (next.1, some next.2) storyId sequence := by
  obtain ⟨s, chunk?⟩ := acc
  obtain ⟨hid, hstart, hend⟩ := chunkOf_spec hd ht storyId
  cases chunk? with
  | none =>
    refine ⟨Keeps.refl s, ⟨hid, hstart⟩, hend, ?_⟩
    rintro sequence (hk | ⟨c, hc, -⟩)
    · exact Or.inl hk
    · cases hc
  | some chunk =>
    unfold chunkFor
    by_cases hpast : chunk.endTime ≤ t
    · simp only [hpast, if_true]
      obtain ⟨hkeep, hnew⟩ := keeps_handOver s storyId chunk now
      refine ⟨hkeep, ⟨hid, hstart⟩, hend, ?_⟩
      rintro sequence (hk | ⟨c, hc, e, he, rfl⟩)
      · exact Or.inl (hkeep.kept hready storyId sequence hk)
      · cases hc
        exact Or.inl (hnew hready e he)
    · simp only [hpast, if_false]
      exact ⟨Keeps.refl s, hopen chunk rfl, by omega, fun _ h => h⟩

/-- **One event of the replay**: it is placed, and nothing placed before is lost. -/
theorem replayEvent_spec {duration : ℕ} (hd : 0 < duration) {storyId : StoryId} (now : ℕ)
    (acc : KeeperChunkRetentionStore × Option StoryChunk) {entry : EventSequence × LogEvent}
    (hentry : Placeable duration entry) (hready : Ready acc.1)
    (hopen : ∀ chunk, acc.2 = some chunk → OpenChunk storyId entry.2.time chunk) :
    Keeps acc.1 (replayEvent duration storyId now acc entry).1 ∧
      (∃ chunk, (replayEvent duration storyId now acc entry).2 = some chunk ∧
        OpenChunk storyId entry.2.time chunk) ∧
      (∀ sequence, Replayed acc storyId sequence →
        Replayed (replayEvent duration storyId now acc entry) storyId sequence) ∧
      Replayed (replayEvent duration storyId now acc entry) storyId entry.1 := by
  obtain ⟨hseq, hrec, htime⟩ := hentry
  obtain ⟨hkeeps, ⟨hid, hstart⟩, hend, hprev⟩ := chunkFor_spec hd now acc htime hready hopen
  unfold replayEvent
  generalize chunkFor duration storyId now acc entry.2.time = next at hkeeps hid hstart hend hprev
  obtain ⟨s, chunk⟩ := next
  dsimp only at hkeeps hid hstart hend hprev ⊢
  have haccepts : chunk.Accepts { entry.2 with storyId := storyId } :=
    ⟨hid.symm, hstart, hend, hrec⟩
  obtain ⟨hi, hs, -⟩ := StoryChunk.insertEvent_interval chunk { entry.2 with storyId := storyId }
  rw [(StoryChunk.insertEvent_of_accepts haccepts).1, if_neg (by omega)]
  refine ⟨hkeeps, ⟨_, rfl, hi.trans hid, by rw [hs]; exact hstart⟩, ?_, ?_⟩
  · intro sequence hr
    rcases hprev sequence hr with hk | ⟨c, hc, e, he, heq⟩
    · exact Or.inl hk
    · cases hc
      exact Or.inr ⟨_, rfl, e, StoryChunk.mem_events_insertEvent_of_mem he, heq⟩
  · obtain ⟨e, he, heq⟩ := StoryChunk.exists_mem_events_insertEvent haccepts
    exact Or.inr ⟨_, rfl, e, he, heq.trans hseq⟩

/-- **The events of a story**, in the order of their times, are all placed. -/
theorem foldl_replayEvent_spec {duration : ℕ} (hd : 0 < duration) {storyId : StoryId} (now : ℕ)
    (l : List (EventSequence × LogEvent)) (acc : KeeperChunkRetentionStore × Option StoryChunk)
    (hplace : ∀ entry ∈ l, Placeable duration entry)
    (hsorted : l.Pairwise fun a b => a.2.time ≤ b.2.time) (hready : Ready acc.1)
    (hopen : ∀ chunk, acc.2 = some chunk → ∀ entry ∈ l, OpenChunk storyId entry.2.time chunk) :
    Keeps acc.1 (l.foldl (replayEvent duration storyId now) acc).1 ∧
      (∀ sequence, Replayed acc storyId sequence →
        Replayed (l.foldl (replayEvent duration storyId now) acc) storyId sequence) ∧
      ∀ entry ∈ l, Replayed (l.foldl (replayEvent duration storyId now) acc) storyId entry.1 := by
  induction l generalizing acc with
  | nil => exact ⟨Keeps.refl _, fun _ h => h, fun _ h => by cases h⟩
  | cons entry l ih =>
    obtain ⟨hle, hsorted⟩ := List.pairwise_cons.mp hsorted
    obtain ⟨hkeeps, ⟨chunk, hchunk, hcid, hcst⟩, hprev, hhere⟩ :=
      replayEvent_spec hd now acc (hplace entry List.mem_cons_self) hready
        fun chunk hc => hopen chunk hc entry List.mem_cons_self
    obtain ⟨hkeeps', hprev', hrest⟩ := ih (replayEvent duration storyId now acc entry)
      (fun e he => hplace e (List.mem_cons_of_mem entry he)) hsorted (hkeeps.ready hready)
      (by
        intro c hc e he
        rw [hchunk, Option.some.injEq] at hc
        subst hc
        exact ⟨hcid, Nat.le_trans hcst (hle e he)⟩)
    rw [List.foldl_cons]
    refine ⟨hkeeps.trans hkeeps', fun sequence h => hprev' sequence (hprev sequence h), ?_⟩
    intro e he
    rcases List.mem_cons.mp he with rfl | he
    · exact hprev' _ hhere
    · exact hrest e he

theorem replayStory_spec {duration : ℕ} (hd : 0 < duration) (storyId : StoryId) (now : ℕ)
    (l : List (EventSequence × LogEvent)) (s : KeeperChunkRetentionStore)
    (hplace : ∀ entry ∈ l, Placeable duration entry)
    (hsorted : l.Pairwise fun a b => a.2.time ≤ b.2.time) (hready : Ready s) :
    Keeps s (replayStory duration storyId l now s) ∧
      ∀ entry ∈ l, KeptQueued (replayStory duration storyId l now s) storyId entry.1 := by
  obtain ⟨hkeeps, -, hall⟩ := @foldl_replayEvent_spec _ hd storyId now l (s, none) hplace hsorted
    hready (by intro _ hc; cases hc)
  unfold replayStory
  cases hfold : l.foldl (replayEvent duration storyId now) (s, none) with
  | mk s₁ chunk? =>
    rw [hfold] at hkeeps hall
    have hrelease : ∀ s, Keeps s (s.releaseStoryTail storyId now) := fun s =>
      Keeps.of_frees (frees_releaseStoryTail now)
    cases chunk? with
    | none =>
      refine ⟨hkeeps.trans (hrelease s₁), fun entry he => ?_⟩
      rcases hall entry he with hk | ⟨c, hc, -⟩
      · exact (hrelease s₁).kept (hkeeps.ready hready) _ _ hk
      · cases hc
    | some chunk =>
      obtain ⟨hhand, hnew⟩ := keeps_handOver s₁ storyId chunk now
      have hready₁ := hkeeps.ready hready
      refine ⟨(hkeeps.trans hhand).trans (hrelease _), fun entry he => ?_⟩
      refine (hrelease _).kept (hhand.ready hready₁) _ _ ?_
      rcases hall entry he with hk | ⟨c, hc, e, hmem, heq⟩
      · exact hhand.kept hready₁ _ _ hk
      · cases hc
        rw [← heq]
        exact hnew hready₁ e hmem

/-- **Every recovered event is retained again**: once its story's names were
recovered and the event can be placed, the replay leaves it in a queued chunk. -/
theorem queued_replayRecoveredEvents (storyIdOf : List UInt8 → List UInt8 → StoryId)
    (storyChunkDurationSecs : ℕ) (stories : OrdMap StoryId RecoveredStory) (now : ℕ)
    (s : KeeperChunkRetentionStore) (hready : Ready s)
    (hplace : ∀ entry ∈ stories.toList, ∀ e ∈ entry.2.events.toList,
      Placeable (max storyChunkDurationSecs 1 * 1000000000) e) :
    Ready (replayRecoveredEvents storyIdOf storyChunkDurationSecs stories now s) ∧
      ∀ entry ∈ stories.toList, entry.2.hasNames = true → ∀ e ∈ entry.2.events.toList,
        KeptQueued (replayRecoveredEvents storyIdOf storyChunkDurationSecs stories now s)
          (recoveredStoryId storyIdOf entry.2) e.1 := by
  have hd : 0 < max storyChunkDurationSecs 1 * 1000000000 := by omega
  unfold replayRecoveredEvents
  dsimp only
  generalize max storyChunkDurationSecs 1 * 1000000000 = duration at hplace hd ⊢
  generalize stories.toList = l at hplace ⊢
  -- each story's replay keeps what the earlier ones placed
  have hall : ∀ (l : List (StoryId × RecoveredStory)) (s : KeeperChunkRetentionStore), Ready s →
      (∀ entry ∈ l, ∀ e ∈ entry.2.events.toList, Placeable duration e) →
      Keeps s (l.foldl (fun s entry =>
        if entry.2.events.isEmpty || !entry.2.hasNames then s
        else replayStory duration (recoveredStoryId storyIdOf entry.2) entry.2.events.toList now s)
        s) ∧
      ∀ entry ∈ l, entry.2.hasNames = true → ∀ e ∈ entry.2.events.toList,
        KeptQueued (l.foldl (fun s entry =>
          if entry.2.events.isEmpty || !entry.2.hasNames then s
          else
            replayStory duration (recoveredStoryId storyIdOf entry.2) entry.2.events.toList now s)
          s) (recoveredStoryId storyIdOf entry.2) e.1 := by
    intro l
    induction l with
    | nil => exact fun s _ _ => ⟨Keeps.refl s, fun _ h => by cases h⟩
    | cons entry l ih =>
      intro s hr hp
      rw [List.foldl_cons]
      have hp' := fun e he => hp e (List.mem_cons_of_mem entry he)
      by_cases hskip : (entry.2.events.isEmpty || !entry.2.hasNames) = true
      · rw [if_pos hskip]
        obtain ⟨hk, hrest⟩ := ih s hr hp'
        refine ⟨hk, fun entry' he' hn e he => ?_⟩
        rcases List.mem_cons.mp he' with rfl | he'
        · rw [hn, Bool.not_true, Bool.or_false] at hskip
          have hget := Std.ExtTreeMap.mem_toList_iff_getElem?_eq_some.mp he
          rw [Std.ExtTreeMap.isEmpty_iff.mp hskip] at hget
          simp at hget
        · exact hrest entry' he' hn e he
      · rw [if_neg hskip]
        have hsorted : entry.2.events.toList.Pairwise fun a b => a.2.time ≤ b.2.time := by
          have hord : entry.2.events.toList.Pairwise fun a b => compare a.1 b.1 = .lt :=
            Std.ExtTreeMap.ordered_keys_toList
          refine hord.imp_of_mem ?_
          intro a b ha hb hlt
          have hle := EventSequence.time_le_of_lt hlt
          rw [← (hp entry List.mem_cons_self a ha).1, ← (hp entry List.mem_cons_self b hb).1] at hle
          exact hle
        obtain ⟨hk₁, hhere⟩ := replayStory_spec hd (recoveredStoryId storyIdOf entry.2) now
          entry.2.events.toList s (hp entry List.mem_cons_self) hsorted hr
        obtain ⟨hk₂, hrest⟩ := ih _ (hk₁.ready hr) hp'
        refine ⟨hk₁.trans hk₂, fun entry' he' hn e he => ?_⟩
        rcases List.mem_cons.mp he' with rfl | he'
        · exact hk₂.kept (hk₁.ready hr) _ _ (hhere e he)
        · exact hrest entry' he' hn e he
  obtain ⟨hk, hrest⟩ := hall l s hready hplace
  exact ⟨hk.ready hready, hrest⟩

end KeeperDataStore

end ChronoLog
