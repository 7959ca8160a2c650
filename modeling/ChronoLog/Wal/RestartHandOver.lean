import ChronoLog.Wal.RecoveryRuns
import ChronoLog.Wal.KeeperWal
import ChronoLog.Wal.ReleaseCounts
import ChronoLog.Keeper.RetentionRuns
import ChronoLog.Keeper.RecoveredState
import ChronoLog.Pipeline.ChunkMerge

/-!
# What a restart hands over

Two components walk the state that recovery returns.  The log registers the copies of each story
under the id that the story has now, and the data store rebuilds chunks from the events and hands
them to the retention store under an id of its own choice.  Releasing what was handed over must
leave nothing pending, or a segment of the log is never deleted.

## Main definitions

* `RecoveredState.Matched` — events and copies are of the same sequences.
* `KeeperDataStore.replayCalls` — the replay as the calls it makes on the retention store.
* `KeeperDataStore.Partitions` — what the calls for one story do with its events.
* `KeeperDataStore.HandsOver` — what holds of a restart.

## Main results

* `KeeperDataStore.replayRecoveredEvents_eq` — the replay makes these calls.
* `KeeperDataStore.partitions_storyCalls` — **every recovered event is in one chunk, or reported as
  discarded once.**
* `KeeperDataStore.restart_hands_over` — **what a restart hands over is what is pending.**
-/

namespace ChronoLog

/-! ### What recovery returns -/

/-- Each event is stored under its sequence, and there are copies of just the events. -/
structure RecoveredStory.Matched (story : RecoveredStory) : Prop where
  sequence : ∀ (sequence : EventSequence) (event : LogEvent),
    story.events[sequence]? = some event → event.sequence = sequence
  same : ∀ sequence : EventSequence, story.events.contains sequence = story.copies.contains sequence
  copies : ∀ (sequence : EventSequence) (copies : List (ℕ × ℕ)),
    story.copies[sequence]? = some copies → copies ≠ []

/-- The same of every story. -/
def RecoveredState.Matched (state : RecoveredState) : Prop :=
  ∀ (storyId : StoryId) (story : RecoveredStory), state.stories[storyId]? = some story →
    story.Matched

theorem RecoveredStory.matched_empty {story : RecoveredStory} (hevents : story.events = ∅)
    (hcopies : story.copies = ∅) : story.Matched where
  sequence sequence event h := by simp [hevents] at h
  same sequence := by simp [hevents, hcopies]
  copies sequence copies h := by simp [hcopies] at h

namespace RecoveredState.Matched

variable {state : RecoveredState}

theorem storyOf (h : state.Matched) (storyId : StoryId) : (state.storyOf storyId).Matched := by
  rw [RecoveredState.storyOf]
  cases hstory : state.stories[storyId]? with
  | none => exact RecoveredStory.matched_empty rfl rfl
  | some story => exact h storyId story hstory

theorem setStory (h : state.Matched) {story : RecoveredStory} (hstory : story.Matched)
    (storyId : StoryId) : (state.setStory storyId story).Matched := by
  intro other found hfound
  simp only [RecoveredState.setStory, Std.ExtTreeMap.getElem?_insert,
    Std.compare_eq_iff_eq] at hfound
  split at hfound
  · cases hfound
    exact hstory
  · exact h other found hfound

theorem alter (h : state.Matched) (storyId : StoryId) {f : RecoveredStory → RecoveredStory}
    (hf : ∀ story : RecoveredStory, story.Matched → (f story).Matched) :
    ({ state with stories := state.stories.alter storyId fun story => story.map f } :
      RecoveredState).Matched := by
  intro other found hfound
  simp only [Std.ExtTreeMap.getElem?_alter, Std.compare_eq_iff_eq] at hfound
  split at hfound
  · obtain ⟨story, hstory, rfl⟩ := Option.map_eq_some_iff.mp hfound
    exact hf story (h storyId story hstory)
  · exact h other found hfound

theorem applyNames (h : state.Matched) (names : Wal.NamesRecord) :
    (state.applyNames names).Matched := by
  refine h.setStory ?_ names.storyId
  have hstory := h.storyOf names.storyId
  exact ⟨hstory.sequence, hstory.same, hstory.copies⟩

/-- An E record adds its event and a copy under one sequence. -/
theorem applyEvent (h : state.Matched) (segment : ℕ) (event : LogEvent) (frameBytes : ℕ) :
    (state.applyEvent segment event frameBytes).Matched := by
  have hstory := h.storyOf event.storyId
  refine h.setStory ⟨fun sequence e he => ?_, fun sequence => ?_, fun sequence copies hc => ?_⟩
    event.storyId
  · rw [Std.ExtTreeMap.getElem?_insertIfNew] at he
    split at he
    · next hnew =>
      cases he
      exact Std.LawfulEqOrd.eq_of_compare hnew.1
    · exact hstory.sequence sequence e he
  · simp only [Std.ExtTreeMap.contains_insertIfNew, Std.ExtTreeMap.contains_insert,
      hstory.same sequence]
  · simp only [Std.ExtTreeMap.getElem?_insert, Std.compare_eq_iff_eq] at hc
    split at hc
    · cases hc
      simp
    · exact hstory.copies sequence copies hc

theorem applyDropped (h : state.Matched) (segment : ℕ) (storyId : StoryId) :
    (state.applyDropped segment storyId).Matched :=
  h.alter storyId fun _ _ => RecoveredStory.matched_empty rfl rfl

end RecoveredState.Matched

/-- A line of the file of drops takes the events whose copies it takes. -/
theorem RecoveredStory.Matched.applyDrop {story : RecoveredStory} (h : story.Matched)
    (drop : UnloggedDrop) : (story.applyDrop drop).Matched where
  sequence sequence event he := by
    simp only [RecoveredStory.applyDrop, Std.ExtTreeMap.getElem?_filter',
      Option.filter_eq_some_iff] at he
    exact h.sequence sequence event he.1
  same sequence := by
    have hsame := h.same sequence
    simp only [Std.ExtTreeMap.contains_eq_isSome_getElem?] at hsame
    simp only [RecoveredStory.applyDrop, Std.ExtTreeMap.contains_eq_isSome_getElem?,
      Std.ExtTreeMap.getElem?_filter']
    -- an event is kept just when one of its copies is
    cases he : story.events[sequence]? <;> cases hc : story.copies[sequence]?
    · rfl
    · rw [he, hc] at hsame
      cases hsame
    · rw [he, hc] at hsame
      cases hsame
    · next event copies =>
      simp only [Option.filter, Option.any_some]
      by_cases hdrop : beforeTheDrop drop copies = true <;> simp [hdrop]
  copies sequence copies hc := by
    simp only [RecoveredStory.applyDrop, Std.ExtTreeMap.getElem?_filter',
      Option.filter_eq_some_iff] at hc
    exact h.copies sequence copies hc.1

theorem RecoveredState.Matched.applyDrops {state : RecoveredState} (h : state.Matched)
    (drops : List UnloggedDrop) : (applyDrops drops state).Matched := by
  induction drops generalizing state with
  | nil => exact h
  | cons drop drops ih => exact ih (h.alter drop.storyId fun _ hstory => hstory.applyDrop drop)

/-- **What recovery returns has its events and their copies matched.** -/
theorem matched_recoveredState {files : List (ℕ × Bytes)} {state : RecoveredState}
    {ends : List SegmentEnd} (h : readLog files = .ok (state, ends)) (drops : List UnloggedDrop) :
    (recoveredState state ends drops).Matched := by
  have hread : state.Matched := by
    rcases hsegments : readSegments files { segments := files.map Prod.fst } with
      err | ⟨state', ends'⟩
    · rw [readLog, hsegments] at h
      cases h
    · have hsound : state'.Matched :=
        ReplayInvariant.readSegments (I := RecoveredState.Matched) (P := fun _ => True)
          ⟨fun _ names h => h.applyNames names,
            fun _ segment event bytes _ h => h.applyEvent segment event bytes,
            fun _ segment storyId _ h => h.applyDropped segment storyId, fun _ _ h => h⟩
          (fun _ _ => trivial) (fun storyId story hstory => by simp at hstory) hsegments
      rw [readLog, hsegments] at h
      cases hcheck : checkEnds ends' with
      | error err =>
        simp only [bind, Except.bind, hcheck] at h
        cases h
      | ok _ =>
        simp only [bind, Except.bind, hcheck, pure, Except.pure] at h
        cases h
        exact hsound
  have hspare : ({ state with reusableSpare := reusableSpareOf ends (tornSegment ends) } :
      RecoveredState).Matched := hread
  have hdrops := hspare.applyDrops drops
  intro storyId story hstory
  simp only [recoveredState, withoutEmptyStories, Std.ExtTreeMap.getElem?_filter',
    Option.filter_eq_some_iff] at hstory
  exact hdrops storyId story hstory.1

namespace KeeperDataStore

/-! ### The replay as calls on the store -/

/-- The calls that hand a chunk over. -/
def handOverCalls (chunk : StoryChunk) : List RetentionStep :=
  if chunk.empty then [] else [.sealChunk chunk]

/-- The calls before an event at `t` is inserted, and the chunk it goes into. -/
def openCalls (duration : ℕ) (storyId : StoryId) (chunk? : Option StoryChunk) (t : ℕ) :
    List RetentionStep × StoryChunk :=
  match chunk? with
  | some chunk =>
    if chunk.endTime ≤ t then (handOverCalls chunk, chunkOf duration storyId t) else ([], chunk)
  | none => ([], chunkOf duration storyId t)

/-- The calls for one event, and the chunk that is open after it. -/
def eventCalls (duration : ℕ) (storyId : StoryId) (chunk? : Option StoryChunk)
    (entry : EventSequence × LogEvent) : List RetentionStep × StoryChunk :=
  let opened := openCalls duration storyId chunk? entry.2.time
  let inserted := opened.2.insertEvent { entry.2 with storyId := storyId }
  (if inserted.2 = 0 then opened.1 ++ [.discardEvent storyId entry.1] else opened.1, inserted.1)

/-- The calls for the rest of a story's events, with the open chunk. -/
def storyCalls (duration : ℕ) (storyId : StoryId) (chunk? : Option StoryChunk) :
    List (EventSequence × LogEvent) → List RetentionStep
  | [] => chunk?.toList.flatMap handOverCalls ++ [.call (.releaseStoryTail storyId)]
  | entry :: entries =>
    (eventCalls duration storyId chunk? entry).1 ++
      storyCalls duration storyId (some (eventCalls duration storyId chunk? entry).2) entries

/-- The calls for a recovered story. -/
def recoveredCalls (storyIdOf : List UInt8 → List UInt8 → StoryId) (duration : ℕ)
    (story : RecoveredStory) : List RetentionStep :=
  if story.events.isEmpty || !story.hasNames then []
  else storyCalls duration (recoveredStoryId storyIdOf story) none story.events.toList

/-- `replayRecoveredEvents`, as the calls it makes on the retention store. -/
def replayCalls (storyIdOf : List UInt8 → List UInt8 → StoryId) (storyChunkDurationSecs : ℕ)
    (stories : OrdMap StoryId RecoveredStory) : List RetentionStep :=
  stories.toList.flatMap fun entry =>
    recoveredCalls storyIdOf (max storyChunkDurationSecs 1 * 1000000000) entry.2

/-- The store after calls that are made at one time. -/
def runCalls (now : ℕ) (s : KeeperChunkRetentionStore) (calls : List RetentionStep) :
    KeeperChunkRetentionStore :=
  calls.foldl (fun s call => call.run s now) s

variable {duration : ℕ} {storyId : StoryId} {now : ℕ}

theorem runCalls_append (s : KeeperChunkRetentionStore) (calls calls' : List RetentionStep) :
    runCalls now s (calls ++ calls') = runCalls now (runCalls now s calls) calls' :=
  List.foldl_append

theorem handOver_eq (s : KeeperChunkRetentionStore) {chunk : StoryChunk}
    (h : chunk.storyId = storyId) :
    handOver s storyId chunk now = runCalls now s (handOverCalls chunk) := by
  unfold handOver handOverCalls
  subst h
  split <;> rfl

@[simp] theorem storyId_chunkOf (duration : ℕ) (storyId : StoryId) (t : ℕ) :
    (chunkOf duration storyId t).storyId = storyId := rfl

theorem storyId_openCalls {chunk? : Option StoryChunk}
    (h : ∀ chunk, chunk? = some chunk → chunk.storyId = storyId) (t : ℕ) :
    (openCalls duration storyId chunk? t).2.storyId = storyId := by
  cases chunk? with
  | none => rfl
  | some chunk =>
    unfold openCalls
    dsimp only
    split
    · rfl
    · exact h chunk rfl

theorem storyId_eventCalls {chunk? : Option StoryChunk}
    (h : ∀ chunk, chunk? = some chunk → chunk.storyId = storyId)
    (entry : EventSequence × LogEvent) :
    (eventCalls duration storyId chunk? entry).2.storyId = storyId :=
  (StoryChunk.insertEvent_interval _ _).1.trans (storyId_openCalls h _)

/-- One event of the replay makes its calls. -/
theorem replayEvent_eq (s : KeeperChunkRetentionStore) {chunk? : Option StoryChunk}
    (h : ∀ chunk, chunk? = some chunk → chunk.storyId = storyId)
    (entry : EventSequence × LogEvent) :
    replayEvent duration storyId now (s, chunk?) entry =
      (runCalls now s (eventCalls duration storyId chunk? entry).1,
        some (eventCalls duration storyId chunk? entry).2) := by
  have hopen : chunkFor duration storyId now (s, chunk?) entry.2.time =
      (runCalls now s (openCalls duration storyId chunk? entry.2.time).1,
        (openCalls duration storyId chunk? entry.2.time).2) := by
    cases chunk? with
    | none => rfl
    | some chunk =>
      unfold chunkFor openCalls
      dsimp only
      split
      · rw [handOver_eq s (h chunk rfl)]
      · rfl
  unfold replayEvent eventCalls
  rw [hopen]
  dsimp only
  split
  · rw [runCalls_append]
    rfl
  · rfl

/-- The replay of a story makes its calls. -/
theorem foldl_replayEvent_eq (entries : List (EventSequence × LogEvent))
    (s : KeeperChunkRetentionStore) {chunk? : Option StoryChunk}
    (h : ∀ chunk, chunk? = some chunk → chunk.storyId = storyId) :
    (let after := entries.foldl (replayEvent duration storyId now) (s, chunk?)
     (after.2.toList.foldl (fun s chunk => handOver s storyId chunk now) after.1).releaseStoryTail
       storyId now) = runCalls now s (storyCalls duration storyId chunk? entries) := by
  induction entries generalizing s chunk? with
  | nil =>
    rw [storyCalls, runCalls_append]
    cases chunk? with
    | none => rfl
    | some chunk =>
      have hhand : handOver s storyId chunk now = runCalls now s (handOverCalls chunk) :=
        handOver_eq s (h chunk rfl)
      simp only [Option.toList_some, List.foldl_nil, List.foldl_cons, List.flatMap_cons,
        List.flatMap_nil, List.append_nil, hhand]
      rfl
  | cons entry entries ih =>
    rw [storyCalls, runCalls_append, List.foldl_cons, replayEvent_eq s h]
    refine ih _ ?_
    rintro chunk ⟨⟩
    exact storyId_eventCalls h entry

theorem replayStory_eq (entries : List (EventSequence × LogEvent))
    (s : KeeperChunkRetentionStore) :
    replayStory duration storyId entries now s =
      runCalls now s (storyCalls duration storyId none entries) := by
  rw [← foldl_replayEvent_eq entries s (fun _ h => by cases h)]
  unfold replayStory
  dsimp only
  cases (entries.foldl (replayEvent duration storyId now) (s, none)).2 <;> rfl

/-- **The replay makes its calls on the retention store**, and does nothing else to it. -/
theorem replayRecoveredEvents_eq (storyIdOf : List UInt8 → List UInt8 → StoryId)
    (storyChunkDurationSecs : ℕ) (stories : OrdMap StoryId RecoveredStory) (now : ℕ)
    (s : KeeperChunkRetentionStore) :
    replayRecoveredEvents storyIdOf storyChunkDurationSecs stories now s =
      runCalls now s (replayCalls storyIdOf storyChunkDurationSecs stories) := by
  unfold replayRecoveredEvents replayCalls
  dsimp only
  generalize stories.toList = l
  induction l generalizing s with
  | nil => rfl
  | cons entry l ih =>
    rw [List.foldl_cons, List.flatMap_cons, runCalls_append, ih]
    congr 1
    unfold recoveredCalls
    split
    · rfl
    · exact replayStory_eq _ s

/-! ### The chunk of a time -/

/-- A chunk whose end does not wrap ends a duration after its start. -/
theorem endTime_chunkOf (hd : 0 < duration) {t : ℕ} (h : t - t % duration + duration < 2 ^ 64) :
    (chunkOf duration storyId t).endTime = t - t % duration + duration := by
  unfold chunkOf StoryChunk.new
  dsimp only
  rw [Nat.mod_eq_of_lt h, if_neg (by omega)]

/-- Within the chunk of an earlier time a time has the same chunk. -/
theorem chunkOf_congr (hd : 0 < duration) {t t' : ℕ} (ht' : t' < 2 ^ 64) (hle : t ≤ t')
    (hlt : t' < (chunkOf duration storyId t).endTime) :
    chunkOf duration storyId t' = chunkOf duration storyId t := by
  -- a chunk whose end wraps lies in the last duration of all
  have hend : t' < t - t % duration + duration := by
    by_contra hge
    rw [endTime_chunkOf hd (by omega)] at hlt
    omega
  have hdiv : t' / duration = t / duration := by
    have hstart : duration * (t / duration) = t - t % duration :=
      Nat.mul_div_self_eq_mod_sub_self
    have hbelow := Nat.mod_le t duration
    refine Nat.div_eq_of_lt_le ?_ ?_
    · rw [Nat.mul_comm]
      omega
    · rw [Nat.add_mul, Nat.one_mul, Nat.mul_comm]
      omega
  unfold chunkOf
  rw [← Nat.mul_div_self_eq_mod_sub_self, ← Nat.mul_div_self_eq_mod_sub_self, hdiv]

/-- The chunk of a time that is past the end of an earlier chunk starts there or later. -/
theorem endTime_le_startTime (hd : 0 < duration) {t t' : ℕ} (ht' : t' < 2 ^ 64) (hle : t ≤ t')
    (hpast : (chunkOf duration storyId t).endTime ≤ t')
    (hlt : t' < (chunkOf duration storyId t').endTime) :
    (chunkOf duration storyId t).endTime ≤ (chunkOf duration storyId t').startTime := by
  have hstart : duration * (t / duration) = t - t % duration := Nat.mul_div_self_eq_mod_sub_self
  have hstart' : duration * (t' / duration) = t' - t' % duration :=
    Nat.mul_div_self_eq_mod_sub_self
  rcases Nat.eq_or_lt_of_le (Nat.div_le_div_right (c := duration) hle) with hdiv | hdiv
  · -- in one duration the two chunks are the same
    have hsame : chunkOf duration storyId t' = chunkOf duration storyId t := by
      unfold chunkOf
      rw [← hstart, ← hstart', hdiv]
    rw [hsame] at hlt
    omega
  · have hnext : duration * (t / duration) + duration ≤ duration * (t' / duration) := by
      calc duration * (t / duration) + duration
          = duration * (t / duration + 1) := (Nat.mul_succ _ _).symm
        _ ≤ duration * (t' / duration) := Nat.mul_le_mul_left duration hdiv
    have hle' : t' - t' % duration ≤ t' := Nat.sub_le _ _
    rw [endTime_chunkOf hd (by omega)]
    change _ ≤ t' - t' % duration
    omega

/-! ### What the calls for a story hand over -/

/-- The sequences a call settles: those of a chunk's events, or of the discarded event. -/
def sequencesOf : RetentionStep → List EventSequence
  | .sealChunk chunk => chunk.events.map LogEvent.sequence
  | .discardEvent _ event => [event]
  | .call _ => []

/-- The chunk a call seals. -/
def sealed? : RetentionStep → Option StoryChunk
  | .sealChunk chunk => some chunk
  | _ => none

/-- The event a call discards. -/
def discarded? : RetentionStep → Option EventSequence
  | .discardEvent _ event => some event
  | _ => none

/-- A recovered event under the story's id. -/
def live (storyId : StoryId) (entry : EventSequence × LogEvent) : LogEvent :=
  { entry.2 with storyId := storyId }

/-- The event has a record, and its time lies before the end of its chunk; that fails only in the
last duration of all, where the end wraps. -/
def Fits (duration : ℕ) (entry : EventSequence × LogEvent) : Prop :=
  entry.2.logRecord ≠ [] ∧ entry.2.time < (chunkOf duration 0 entry.2.time).endTime

instance (duration : ℕ) : DecidablePred (Fits duration) := fun entry =>
  inferInstanceAs (Decidable (entry.2.logRecord ≠ [] ∧ _))

/-- What the calls for a story do with its events: each is in one chunk or discarded, the chunks
are of whole durations and apart, and those are discarded that do not fit. -/
structure Partitions (duration : ℕ) (storyId : StoryId) (entries : List (EventSequence × LogEvent))
    (calls : List RetentionStep) : Prop where
  once : (calls.flatMap sequencesOf).Perm (entries.map Prod.fst)
  chunks : ∀ chunk ∈ calls.filterMap sealed?, chunk.storyId = storyId ∧ chunk.events ≠ [] ∧
    ∀ e ∈ chunk.events, e ∈ entries.map (live storyId) ∧
      chunk.startTime = e.time - e.time % duration
  apart : (calls.filterMap sealed?).Pairwise fun a b => a.endTime ≤ b.startTime
  discarded : calls.filterMap discarded? =
    (entries.filter fun entry => ¬Fits duration entry).map Prod.fst

/-- The range of the chunk is that of a time up to its events and the events to come. -/
structure Opened (duration : ℕ) (storyId : StoryId) (chunk : StoryChunk)
    (entries : List (EventSequence × LogEvent)) : Prop where
  story : chunk.storyId = storyId
  range : ∃ t, chunk.startTime = (chunkOf duration storyId t).startTime ∧
    chunk.endTime = (chunkOf duration storyId t).endTime ∧ (∀ e ∈ chunk.events, t ≤ e.time) ∧
    ∀ entry ∈ entries, t ≤ entry.2.time
  before : ∀ e ∈ chunk.events, ∀ entry ∈ entries, compare e.sequence entry.1 = .lt

/-- The same as `Partitions`, with a chunk that is open before the calls. -/
structure Splits (duration : ℕ) (storyId : StoryId) (chunk? : Option StoryChunk)
    (entries : List (EventSequence × LogEvent)) (calls : List RetentionStep) : Prop where
  once : (calls.flatMap sequencesOf).Perm
    ((chunk?.toList.flatMap fun chunk => chunk.events.map LogEvent.sequence) ++
      entries.map Prod.fst)
  story : ∀ chunk ∈ calls.filterMap sealed?, chunk.storyId = storyId ∧ chunk.events ≠ []
  events : ∀ chunk ∈ calls.filterMap sealed?, ∀ e ∈ chunk.events,
    (∃ opened, chunk? = some opened ∧ e ∈ opened.events) ∨ e ∈ entries.map (live storyId)
  range : ∀ chunk ∈ calls.filterMap sealed?, ∀ e ∈ chunk.events,
    chunk.startTime = (chunkOf duration storyId e.time).startTime ∧
      chunk.endTime = (chunkOf duration storyId e.time).endTime
  later : (calls.filterMap sealed?).Pairwise fun a b => ∀ e ∈ b.events, a.endTime ≤ e.time
  discarded : calls.filterMap discarded? =
    (entries.filter fun entry => ¬Fits duration entry).map Prod.fst

section

variable {chunk : StoryChunk} {chunk? : Option StoryChunk}
  {entry : EventSequence × LogEvent} {entries : List (EventSequence × LogEvent)}
  {calls : List RetentionStep}

theorem time_lt (e : LogEvent) : e.time < 2 ^ 64 := e.eventTime.toNat_lt

/-- The chunk's events have its range as that of their times. -/
theorem Opened.range_eq (h : Opened duration storyId chunk entries) (hd : 0 < duration)
    {e : LogEvent} (he : e ∈ chunk.events) :
    chunk.startTime = (chunkOf duration storyId e.time).startTime ∧
      chunk.endTime = (chunkOf duration storyId e.time).endTime := by
  obtain ⟨t, hstart, hend, hle, -⟩ := h.range
  have hlt := StoryChunk.time_lt_endTime_of_mem he
  rw [hend] at hlt
  rw [chunkOf_congr hd (time_lt e) (hle e he) hlt]
  exact ⟨hstart, hend⟩

theorem empty_iff : chunk.empty = true ↔ chunk.events = [] := by
  rw [StoryChunk.empty, StoryChunk.events, List.map_eq_nil_iff, Std.ExtTreeMap.toList_eq_nil_iff,
    Std.ExtTreeMap.isEmpty_iff]

/-- **At the end** the open chunk is handed over. -/
theorem splits_nil (hd : 0 < duration)
    (hopen : ∀ chunk, chunk? = some chunk → Opened duration storyId chunk []) :
    Splits duration storyId chunk? [] (storyCalls duration storyId chunk? []) := by
  rw [storyCalls]
  cases chunk? with
  | none =>
    refine ⟨List.Perm.refl _, ?_, ?_, ?_, List.Pairwise.nil, rfl⟩
    all_goals
      intro chunk hchunk
      cases hchunk
  | some chunk =>
    have hopened := hopen chunk rfl
    simp only [Option.toList_some, List.flatMap_cons, List.flatMap_nil, List.append_nil]
    unfold handOverCalls
    split
    · next hempty =>
      refine ⟨?_, ?_, ?_, ?_, List.Pairwise.nil, rfl⟩
      · simp [sequencesOf, empty_iff.mp hempty]
      all_goals
        intro chunk hchunk
        cases hchunk
    · next hsome =>
      refine ⟨by simp [sequencesOf], ?_, ?_, ?_, List.pairwise_singleton _ _, rfl⟩
      all_goals
        intro other hother
        obtain rfl : other = chunk := by simpa [sealed?] using hother
      · exact ⟨hopened.story, fun hnil => hsome (empty_iff.mpr hnil)⟩
      · exact fun e he => Or.inl ⟨_, rfl, he⟩
      · exact fun e he => hopened.range_eq hd he

/-- **A chunk that the next event is past** is handed over, and a new one is opened. -/
theorem Splits.handOver (hd : 0 < duration) {t : ℕ}
    (h : Splits duration storyId (some (chunkOf duration storyId t)) entries calls)
    (hopen : ∀ chunk, chunk? = some chunk → Opened duration storyId chunk entries)
    (hpast : ∀ chunk, chunk? = some chunk → ∀ entry ∈ entries, chunk.endTime ≤ entry.2.time) :
    Splits duration storyId chunk? entries (chunk?.toList.flatMap handOverCalls ++ calls) := by
  have hfresh : (chunkOf duration storyId t).events = [] := StoryChunk.events_new _ _ _
  have honce := h.once
  simp only [Option.toList_some, List.flatMap_cons, List.flatMap_nil, hfresh, List.map_nil,
    List.append_nil, List.nil_append] at honce
  have hevents : ∀ chunk ∈ calls.filterMap sealed?, ∀ e ∈ chunk.events,
      e ∈ entries.map (live storyId) := by
    intro chunk hchunk e he
    rcases h.events chunk hchunk e he with ⟨opened, hopened, hmem⟩ | hmem
    · cases hopened
      rw [hfresh] at hmem
      cases hmem
    · exact hmem
  cases chunk? with
  | none =>
    exact ⟨honce, h.story, fun chunk hchunk e he => Or.inr (hevents chunk hchunk e he), h.range,
      h.later, h.discarded⟩
  | some chunk =>
    have hopened := hopen chunk rfl
    simp only [Option.toList_some, List.flatMap_cons, List.flatMap_nil, List.append_nil]
    unfold handOverCalls
    -- an open chunk without events is dropped, and nothing is lost with it
    split
    · next hempty =>
      refine ⟨?_, h.story, fun other hother e he => Or.inr (hevents other hother e he), h.range,
        h.later, h.discarded⟩
      simpa [empty_iff.mp hempty] using honce
    · next hsome =>
      have hsealed : (([.sealChunk chunk] ++ calls : List RetentionStep)).filterMap sealed? =
          chunk :: calls.filterMap sealed? := rfl
      refine ⟨?_, ?_, ?_, ?_, ?_, h.discarded⟩
      · simpa [sequencesOf] using honce.append_left (chunk.events.map LogEvent.sequence)
      · rw [hsealed, List.forall_mem_cons]
        exact ⟨⟨hopened.story, fun hnil => hsome (empty_iff.mpr hnil)⟩, h.story⟩
      · rw [hsealed, List.forall_mem_cons]
        exact ⟨fun e he => Or.inl ⟨_, rfl, he⟩,
          fun other hother e he => Or.inr (hevents other hother e he)⟩
      · rw [hsealed, List.forall_mem_cons]
        exact ⟨fun e he => hopened.range_eq hd he, h.range⟩
      · rw [hsealed, List.pairwise_cons]
        refine ⟨fun other hother e he => ?_, h.later⟩
        obtain ⟨entry, hentry, rfl⟩ := List.mem_map.mp (hevents other hother e he)
        exact hpast chunk rfl entry hentry

/-- An event whose sequence the chunk does not hold adds its sequence. -/
theorem perm_sequences_insertEvent {event : LogEvent} (ha : chunk.Accepts event)
    (hnew : event.sequence ∉ chunk.logEvents) :
    ((chunk.insertEvent event).1.events.map LogEvent.sequence).Perm
      (event.sequence :: chunk.events.map LogEvent.sequence) := by
  have hnot : event.sequence ∉ chunk.events.map LogEvent.sequence := by
    rwa [chunk.map_sequence_events, Std.ExtTreeMap.mem_keys]
  refine (List.perm_ext_iff_of_nodup (StoryChunk.nodup_sequences _)
    (List.nodup_cons.mpr ⟨hnot, chunk.nodup_sequences⟩)).mpr fun sequence => ?_
  rw [List.mem_cons, StoryChunk.map_sequence_events, StoryChunk.map_sequence_events,
    Std.ExtTreeMap.mem_keys, Std.ExtTreeMap.mem_keys, StoryChunk.mem_logEvents_insertEvent]
  simp only [ha, true_and, eq_comm]

/-- **An event that is inserted** is in the open chunk, or is discarded. -/
theorem Splits.insert (hkey : entry.2.sequence = entry.1)
    (hfits : chunk.Accepts (live storyId entry) ↔ Fits duration entry)
    (hnew : ∀ e ∈ chunk.events, compare e.sequence entry.1 = .lt)
    (h : Splits duration storyId (some (chunk.insertEvent (live storyId entry)).1) entries calls) :
    Splits duration storyId (some chunk) (entry :: entries)
      ((if (chunk.insertEvent (live storyId entry)).2 = 0 then
        [.discardEvent storyId entry.1] else []) ++ calls) := by
  by_cases ha : chunk.Accepts (live storyId entry)
  · -- the chunk does not hold the sequence yet, since the events come in order
    have hnot : (live storyId entry).sequence ∉ chunk.logEvents := by
      intro hheld
      obtain ⟨e, he, hseq⟩ := List.mem_map.mp
        ((chunk.map_sequence_events ▸ Std.ExtTreeMap.mem_keys.mpr hheld :
          (live storyId entry).sequence ∈ chunk.events.map LogEvent.sequence))
      have hlt := hnew e he
      rw [hseq] at hlt
      change compare entry.2.sequence entry.1 = .lt at hlt
      rw [hkey, (Std.ReflCmp.compare_self : compare entry.1 entry.1 = .eq)] at hlt
      cases hlt
    have hperm := perm_sequences_insertEvent ha hnot
    rw [if_neg (by rw [(StoryChunk.insertEvent_of_accepts ha).1]; decide), List.nil_append]
    refine ⟨?_, h.story, fun other hother e he => ?_, h.range, h.later, ?_⟩
    · have honce := h.once
      simp only [Option.toList_some, List.flatMap_cons, List.flatMap_nil, List.append_nil,
        List.map_cons] at honce ⊢
      refine honce.trans ((hperm.append_right _).trans ?_)
      change ((entry.2.sequence :: _) ++ _).Perm _
      rw [hkey, List.cons_append]
      exact List.perm_middle.symm
    · rcases h.events other hother e he with ⟨opened, hopened, hmem⟩ | hmem
      · cases hopened
        rcases StoryChunk.mem_events_insertEvent.mp hmem with ⟨-, -, rfl⟩ | hmem
        · exact Or.inr List.mem_cons_self
        · exact Or.inl ⟨chunk, rfl, hmem⟩
      · exact Or.inr (List.mem_cons_of_mem _ hmem)
    · rw [h.discarded, List.filter_cons_of_neg (by simpa using hfits.mp ha)]
  · -- the chunk is as it was
    rw [StoryChunk.insertEvent_of_not_accepts ha] at h ⊢
    rw [if_pos rfl]
    refine ⟨?_, h.story, fun other hother e he => ?_, h.range, h.later, ?_⟩
    · have honce := h.once
      simp only [Option.toList_some, List.flatMap_cons, List.flatMap_nil, List.append_nil,
        List.map_cons, sequencesOf, List.singleton_append] at honce ⊢
      exact (honce.cons entry.1).trans List.perm_middle.symm
    · rcases h.events other hother e he with hopened | hmem
      · exact Or.inl hopened
      · exact Or.inr (List.mem_cons_of_mem _ hmem)
    · have hcons : ([.discardEvent storyId entry.1] ++ calls : List RetentionStep).filterMap
          discarded? = entry.1 :: calls.filterMap discarded? := rfl
      rw [hcons, h.discarded,
        List.filter_cons_of_pos (by simpa using fun hf => ha (hfits.mpr hf)), List.map_cons]

/-- The chunk an event is offered to, and the calls before that. -/
theorem openCalls_cases (chunk? : Option StoryChunk) (t : ℕ) :
    (openCalls duration storyId chunk? t =
        (chunk?.toList.flatMap handOverCalls, chunkOf duration storyId t) ∧
      ∀ chunk, chunk? = some chunk → chunk.endTime ≤ t) ∨
    ∃ chunk, chunk? = some chunk ∧ t < chunk.endTime ∧
      openCalls duration storyId chunk? t = ([], chunk) := by
  cases chunk? with
  | none => exact Or.inl ⟨rfl, fun _ h => by cases h⟩
  | some chunk =>
    unfold openCalls
    dsimp only
    split
    · next hpast =>
      refine Or.inl ⟨?_, ?_⟩
      · simp
      · rintro other ⟨⟩
        exact hpast
    · next hbefore => exact Or.inr ⟨chunk, rfl, by omega, rfl⟩

theorem eventCalls_eq (chunk? : Option StoryChunk) (entry : EventSequence × LogEvent) :
    eventCalls duration storyId chunk? entry =
      let opened := openCalls duration storyId chunk? entry.2.time
      let inserted := opened.2.insertEvent (live storyId entry)
      (opened.1 ++ (if inserted.2 = 0 then [.discardEvent storyId entry.1] else []),
        inserted.1) := by
  unfold eventCalls live
  dsimp only
  split
  · rfl
  · rw [List.append_nil]

/-- A chunk with the range of the event's time accepts the event just when it fits. -/
theorem accepts_live_iff (hstory : chunk.storyId = storyId)
    (hstart : chunk.startTime = (chunkOf duration storyId entry.2.time).startTime)
    (hend : chunk.endTime = (chunkOf duration storyId entry.2.time).endTime) :
    chunk.Accepts (live storyId entry) ↔ Fits duration entry := by
  have htime : (live storyId entry).time = entry.2.time := rfl
  have hle : entry.2.time - entry.2.time % duration ≤ entry.2.time := Nat.sub_le _ _
  unfold StoryChunk.Accepts Fits
  rw [hstart, hend, hstory, htime]
  constructor
  · rintro ⟨-, -, hlt, hrec⟩
    exact ⟨hrec, hlt⟩
  · rintro ⟨hrec, hlt⟩
    exact ⟨rfl, hle, hlt, hrec⟩

/-- The chunk is open still after the event is inserted. -/
theorem Opened.insert (h : Opened duration storyId chunk (entry :: entries))
    (hkey : entry.2.sequence = entry.1)
    (hlater : ∀ other ∈ entries, compare entry.1 other.1 = .lt) :
    Opened duration storyId (chunk.insertEvent (live storyId entry)).1 entries := by
  obtain ⟨hstory, hstart, hend⟩ := StoryChunk.insertEvent_interval chunk (live storyId entry)
  obtain ⟨t, hs, he, hle, hcome⟩ := h.range
  refine ⟨hstory.trans h.story, ⟨t, hstart.trans hs, hend.trans he, fun e hmem => ?_,
    fun other hother => hcome other (List.mem_cons_of_mem _ hother)⟩, fun e hmem other hother => ?_⟩
  · rcases StoryChunk.mem_events_insertEvent.mp hmem with ⟨-, -, rfl⟩ | hmem
    · exact hcome entry List.mem_cons_self
    · exact hle e hmem
  · rcases StoryChunk.mem_events_insertEvent.mp hmem with ⟨-, -, rfl⟩ | hmem
    · change compare entry.2.sequence other.1 = .lt
      rw [hkey]
      exact hlater other hother
    · exact h.before e hmem other (List.mem_cons_of_mem _ hother)

/-- **The calls for a story's events**, from any open chunk on. -/
theorem splits_storyCalls (hd : 0 < duration)
    (hkeys : ∀ entry ∈ entries, entry.2.sequence = entry.1)
    (hsorted : entries.Pairwise fun a b => compare a.1 b.1 = .lt)
    (hopen : ∀ chunk, chunk? = some chunk → Opened duration storyId chunk entries) :
    Splits duration storyId chunk? entries (storyCalls duration storyId chunk? entries) := by
  induction entries generalizing chunk? with
  | nil => exact splits_nil hd hopen
  | cons entry entries ih =>
    obtain ⟨hlater, hsorted⟩ := List.pairwise_cons.mp hsorted
    have hkey := hkeys entry List.mem_cons_self
    have htimes : ∀ other ∈ entry :: entries, entry.2.time ≤ other.2.time := by
      intro other hother
      rcases List.mem_cons.mp hother with rfl | hother
      · exact Nat.le_refl _
      · have hle := EventSequence.time_le_of_lt (hlater other hother)
        rw [← hkey, ← hkeys other (List.mem_cons_of_mem _ hother)] at hle
        exact hle
    -- whatever chunk the event is offered to, it is inserted there and the rest follows
    have hinsert : ∀ chunk, Opened duration storyId chunk (entry :: entries) →
        chunk.startTime = (chunkOf duration storyId entry.2.time).startTime →
        chunk.endTime = (chunkOf duration storyId entry.2.time).endTime →
        Splits duration storyId (some chunk) (entry :: entries)
          ((if (chunk.insertEvent (live storyId entry)).2 = 0 then
            [.discardEvent storyId entry.1] else []) ++
            storyCalls duration storyId (some (chunk.insertEvent (live storyId entry)).1)
              entries) := by
      intro chunk hopened hstart hend
      refine Splits.insert hkey (accepts_live_iff hopened.story hstart hend)
        (fun e he => hopened.before e he entry List.mem_cons_self)
        (ih (fun other hother => hkeys other (List.mem_cons_of_mem _ hother)) hsorted ?_)
      rintro opened ⟨⟩
      exact hopened.insert hkey hlater
    rw [storyCalls, eventCalls_eq]
    rcases openCalls_cases chunk? entry.2.time with ⟨hcalls, hpast⟩ | ⟨chunk, rfl, hlt, hcalls⟩
    · -- a new chunk
      have hfresh : Opened duration storyId (chunkOf duration storyId entry.2.time)
          (entry :: entries) := by
        refine ⟨rfl, ⟨entry.2.time, rfl, rfl, fun e he => ?_, htimes⟩, fun e he => ?_⟩
        all_goals
          change e ∈ (StoryChunk.new _ _ _).events at he
          rw [StoryChunk.events_new] at he
          cases he
      have hsplit := (hinsert _ hfresh rfl rfl).handOver hd hopen fun chunk hchunk other hother =>
        (hpast chunk hchunk).trans (htimes other hother)
      rw [hcalls]
      dsimp only
      rw [List.append_assoc]
      exact hsplit
    · -- the chunk that is open
      have hopened := hopen chunk rfl
      obtain ⟨t, hstart, hend, -, hcome⟩ := hopened.range
      have hle := hcome entry List.mem_cons_self
      rw [hend] at hlt
      have hsame := chunkOf_congr hd (time_lt entry.2) hle hlt
      have hsplit := hinsert chunk hopened (by rw [hsame, hstart]) (by rw [hsame, hend])
      rw [hcalls]
      exact hsplit

/-- **Every recovered event of a story is in one chunk or discarded once**, and the chunks are
apart. -/
theorem partitions_storyCalls (hd : 0 < duration)
    (hkeys : ∀ entry ∈ entries, entry.2.sequence = entry.1)
    (hsorted : entries.Pairwise fun a b => compare a.1 b.1 = .lt) :
    Partitions duration storyId entries (storyCalls duration storyId none entries) := by
  have h : Splits duration storyId none entries (storyCalls duration storyId none entries) :=
    splits_storyCalls hd hkeys hsorted fun _ h => by cases h
  refine ⟨h.once, fun chunk hchunk => ?_, ?_, h.discarded⟩
  · obtain ⟨hstory, hsome⟩ := h.story chunk hchunk
    refine ⟨hstory, hsome, fun e he => ⟨?_, (h.range chunk hchunk e he).1⟩⟩
    rcases h.events chunk hchunk e he with ⟨opened, hopened, -⟩ | hmem
    · cases hopened
    · exact hmem
  · -- an event of each chunk has the chunk's range as that of its time
    refine h.later.imp_of_mem fun {a b} ha hb hlater => ?_
    obtain ⟨e, he⟩ := List.exists_mem_of_ne_nil _ (h.story a ha).2
    obtain ⟨e', he'⟩ := List.exists_mem_of_ne_nil _ (h.story b hb).2
    have hpast := hlater e' he'
    have hlt := StoryChunk.time_lt_endTime_of_mem he
    have hlt' := StoryChunk.time_lt_endTime_of_mem he'
    rw [(h.range b hb e' he').2] at hlt'
    rw [(h.range a ha e he).2] at hlt hpast ⊢
    rw [(h.range b hb e' he').1]
    exact endTime_le_startTime hd (time_lt e') (by omega) hpast hlt'

end

end KeeperDataStore

/-! ### What is registered and released -/

namespace WalReleaseTracker

variable {tracker : WalReleaseTracker}

/-- The operation adds a copy of the event. -/
def Op.Adds (op : Op) (storyId : StoryId) (sequence : EventSequence) : Prop :=
  ∃ segment bytes, op = .addCopy storyId sequence segment bytes

/-- The operation releases the event. -/
def Op.Releases (op : Op) (storyId : StoryId) (sequence : EventSequence) : Prop :=
  op = .releaseEvent storyId sequence ∨
    ∃ chunk, op = .releaseChunk storyId chunk ∧ sequence ∈ chunk.events.map LogEvent.sequence

theorem Accurate.foldl (h : tracker.Accurate) (ops : List Op) :
    (ops.foldl WalReleaseTracker.apply tracker).Accurate := by
  induction ops generalizing tracker with
  | nil => exact h
  | cons op ops ih => exact ih (h.apply op)

/-- **After copies were added** the events pending are those from before and those added. -/
theorem isPending_foldl_adds {ops : List Op}
    (hadds : ∀ op ∈ ops, ∃ storyId sequence, op.Adds storyId sequence) (storyId : StoryId)
    (sequence : EventSequence) :
    (ops.foldl WalReleaseTracker.apply tracker).isPending storyId sequence = true ↔
      tracker.isPending storyId sequence = true ∨ ∃ op ∈ ops, op.Adds storyId sequence := by
  induction ops generalizing tracker with
  | nil => simp
  | cons op ops ih =>
    obtain ⟨story, event, segment, bytes, rfl⟩ := hadds op List.mem_cons_self
    rw [List.foldl_cons, ih fun op hop => hadds op (List.mem_cons_of_mem _ hop)]
    have hadd : (tracker.apply (.addCopy story event segment bytes)).isPending storyId sequence =
        true ↔ tracker.isPending storyId sequence = true ∨
          (Op.addCopy story event segment bytes).Adds storyId sequence := by
      change (tracker.addCopy story event segment bytes).isPending storyId sequence = true ↔ _
      rw [isPending_eq_isSome, isPending_eq_isSome, copies_addCopy]
      split
      · next heq =>
        obtain ⟨rfl, rfl⟩ := heq
        exact ⟨fun _ => Or.inr ⟨segment, bytes, rfl⟩, fun _ => rfl⟩
      · next hne =>
        refine ⟨Or.inl, ?_⟩
        rintro (h | ⟨segment', bytes', heq⟩)
        · exact h
        · cases heq
          exact absurd ⟨rfl, rfl⟩ hne
    rw [hadd, List.exists_mem_cons_iff, or_assoc]

/-- An operation that adds no copy leaves nothing pending that was not, nor what it releases. -/
theorem copies_apply_eq_none (h : tracker.Accurate) {op : Op} {storyId : StoryId}
    {sequence : EventSequence} (hop : ∀ story event, ¬op.Adds story event)
    (hnone : tracker.copies storyId sequence = none ∨ op.Releases storyId sequence) :
    (tracker.apply op).copies storyId sequence = none := by
  cases op with
  | addCopy story event segment bytes => exact absurd ⟨segment, bytes, rfl⟩ (hop story event)
  | releaseEvent story event =>
    change (tracker.releaseEvent story event).copies storyId sequence = none
    rw [copies_releaseEvent]
    split
    · rfl
    · next hne =>
      rcases hnone with hnone | hreleases | ⟨chunk, hreleases, -⟩
      · exact hnone
      · cases hreleases
        exact absurd ⟨rfl, rfl⟩ hne
      · cases hreleases
  | releaseChunk story chunk =>
    change (tracker.releaseChunkWalk story chunk).copies storyId sequence = none
    rw [releaseChunkWalk_eq h.stories chunk (List.Perm.refl _), copies_releaseEvents]
    split
    · rfl
    · next hne =>
      rcases hnone with hnone | hreleases | ⟨other, hreleases, hmem⟩
      · exact hnone
      · cases hreleases
      · cases hreleases
        exact absurd ⟨rfl, hmem⟩ hne
  | dropStory story =>
    change (tracker.dropStory story).copies storyId sequence = none
    rw [copies_dropStory]
    split
    · rfl
    · rcases hnone with hnone | hreleases | ⟨other, hreleases, -⟩
      · exact hnone
      · cases hreleases
      · cases hreleases

/-- **What is released is not pending afterwards**, whatever else is released. -/
theorem copies_foldl_releases (h : tracker.Accurate) {ops : List Op} {storyId : StoryId}
    {sequence : EventSequence} (hops : ∀ op ∈ ops, ∀ story event, ¬op.Adds story event)
    (hnone : tracker.copies storyId sequence = none ∨ ∃ op ∈ ops, op.Releases storyId sequence) :
    (ops.foldl WalReleaseTracker.apply tracker).copies storyId sequence = none := by
  induction ops generalizing tracker with
  | nil =>
    rcases hnone with hnone | ⟨op, hop, -⟩
    · exact hnone
    · cases hop
  | cons op ops ih =>
    have hhead := hops op List.mem_cons_self
    refine ih (h.apply op) (fun other hother => hops other (List.mem_cons_of_mem _ hother)) ?_
    rcases hnone with hnone | ⟨other, hother, hreleases⟩
    · exact Or.inl (copies_apply_eq_none h hhead (Or.inl hnone))
    · rcases List.mem_cons.mp hother with rfl | hother
      · exact Or.inl (copies_apply_eq_none h hhead (Or.inr hreleases))
      · exact Or.inr ⟨other, hother, hreleases⟩

/-- **A tracker with nothing pending is an empty one**, its counters too. -/
theorem Accurate.eq_empty (h : tracker.Accurate)
    (hnone : ∀ storyId sequence, tracker.copies storyId sequence = none) :
    tracker = empty := by
  have hpending : tracker.pending = ∅ := by
    refine Std.ExtTreeMap.ext_getElem? fun storyId => ?_
    rw [Std.ExtTreeMap.getElem?_empty]
    cases hstory : tracker.pending[storyId]? with
    | none => rfl
    | some events =>
      -- a story's entry holds an event, which would be pending
      refine absurd (Std.ExtTreeMap.isEmpty_iff.mpr ?_)
        (Bool.eq_false_iff.mp (h.stories storyId events hstory))
      refine Std.ExtTreeMap.ext_getElem? fun sequence => ?_
      rw [Std.ExtTreeMap.getElem?_empty, ← hnone storyId sequence, WalReleaseTracker.copies,
        eventsOf, hstory, Option.getD_some]
  have htotal : ∀ f : List Copy → ℕ, tracker.total f = 0 := by
    intro f
    rw [total, hpending]
    rfl
  have hcopies : tracker.outstandingCopies = ∅ := by
    refine Std.ExtTreeMap.ext_getElem? fun segment => ?_
    rw [Std.ExtTreeMap.getElem?_empty]
    cases hcount : tracker.outstandingCopies[segment]? with
    | none => rfl
    | some count =>
      have hzero := h.copies segment
      rw [outstanding, hcount, htotal, Option.getD_some] at hzero
      exact absurd (hzero ▸ hcount) (h.segments segment)
  obtain ⟨pending, outstandingCopies, events, bytes⟩ := tracker
  have hevents : events = 0 := h.events.trans (htotal _)
  have hbytes : bytes = 0 := h.bytes.trans (htotal _)
  subst hevents hbytes
  rw [show pending = ∅ from hpending, show outstandingCopies = ∅ from hcopies]
  rfl

end WalReleaseTracker

namespace KeeperWal

open WalReleaseTracker (Op)

/-- The copies a start registers for a story. -/
def registerOps (storyId : StoryId) (story : RecoveredStory) : List Op :=
  story.copies.toList.flatMap fun entry =>
    entry.2.map fun copy => .addCopy storyId entry.1 copy.1 copy.2

/-- The copies a start registers. -/
def recoveredOps (recovered : RecoveredState) (idOf : RecoveredStory → StoryId) : List Op :=
  recovered.stories.toList.flatMap fun entry =>
    if entry.2.hasNames then registerOps (idOf entry.2) entry.2 else []

theorem tracker_registerStory (s : KeeperWal) (storyId : StoryId) (story : RecoveredStory) :
    (s.registerStory storyId story).tracker =
      (registerOps storyId story).foldl WalReleaseTracker.apply s.tracker := by
  unfold registerStory registerOps
  generalize story.copies.toList = l
  induction l generalizing s with
  | nil => rfl
  | cons entry l ih =>
    rw [List.foldl_cons, ih, List.flatMap_cons, List.foldl_append, List.foldl_map]
    rfl

/-- **A start registers the copies of the stories with names**, and changes the tracker in no
other way. -/
theorem tracker_registerRecovered (s : KeeperWal) (recovered : RecoveredState)
    (idOf : RecoveredStory → StoryId) :
    (s.registerRecovered recovered (some idOf)).tracker =
      (recoveredOps recovered idOf).foldl WalReleaseTracker.apply s.tracker := by
  unfold registerRecovered recoveredOps
  generalize recovered.stories.toList = l
  induction l generalizing s with
  | nil => rfl
  | cons entry l ih =>
    rw [List.foldl_cons, ih, List.flatMap_cons, List.foldl_append]
    congr 1
    dsimp only
    split
    · exact tracker_registerStory s _ _
    · rfl

theorem adds_recoveredOps {recovered : RecoveredState} {idOf : RecoveredStory → StoryId}
    (hmatched : recovered.Matched) (storyId : StoryId) (sequence : EventSequence) :
    (∃ op ∈ recoveredOps recovered idOf, op.Adds storyId sequence) ↔
      ∃ entry ∈ recovered.stories.toList, entry.2.hasNames = true ∧ idOf entry.2 = storyId ∧
        entry.2.events.contains sequence = true := by
  have hcontains : ∀ entry ∈ recovered.stories.toList,
      entry.2.events.contains sequence = entry.2.copies.contains sequence := fun entry hentry =>
    (hmatched entry.1 entry.2
      (Std.ExtTreeMap.mem_toList_iff_getElem?_eq_some.mp hentry)).same sequence
  constructor
  · rintro ⟨op, hop, segment, bytes, rfl⟩
    obtain ⟨entry, hentry, hop⟩ := List.mem_flatMap.mp hop
    split at hop
    · next hnames =>
      obtain ⟨⟨event, copies⟩, hcopies, hop⟩ := List.mem_flatMap.mp hop
      obtain ⟨copy, -, heq⟩ := List.mem_map.mp hop
      cases heq
      refine ⟨entry, hentry, hnames, rfl, ?_⟩
      rw [hcontains entry hentry, Std.ExtTreeMap.contains_eq_isSome_getElem?,
        Std.ExtTreeMap.mem_toList_iff_getElem?_eq_some.mp hcopies]
      rfl
    · cases hop
  · rintro ⟨entry, hentry, hnames, rfl, hsome⟩
    rw [hcontains entry hentry, Std.ExtTreeMap.contains_eq_isSome_getElem?,
      Option.isSome_iff_exists] at hsome
    obtain ⟨copies, hcopies⟩ := hsome
    have hne := (hmatched entry.1 entry.2
      (Std.ExtTreeMap.mem_toList_iff_getElem?_eq_some.mp hentry)).copies sequence copies hcopies
    obtain ⟨copy, hcopy⟩ := List.exists_mem_of_ne_nil copies hne
    refine ⟨.addCopy (idOf entry.2) sequence copy.1 copy.2,
      List.mem_flatMap.mpr ⟨entry, hentry, ?_⟩, copy.1, copy.2, rfl⟩
    rw [if_pos hnames]
    exact List.mem_flatMap.mpr ⟨(sequence, copies),
      Std.ExtTreeMap.mem_toList_iff_getElem?_eq_some.mpr hcopies, List.mem_map_of_mem hcopy⟩

end KeeperWal

namespace KeeperDataStore

open WalReleaseTracker (Op)

/-- What the log is told when what a call handed over is released. -/
def releaseOps : RetentionStep → List Op
  | .sealChunk chunk => [.releaseChunk chunk.storyId chunk]
  | .discardEvent storyId event => [.releaseEvent storyId event]
  | .call _ => []

/-- A story's replay chunk duration, in nanoseconds. -/
def replayDuration (storyChunkDurationSecs : ℕ) : ℕ := max storyChunkDurationSecs 1 * 1000000000

/-- **What holds of a restart**: the replay makes the calls `replayCalls` on the retention store,
which partition each named story's events, the log has pending just what the calls seal or discard,
and it has nothing left once all of that is released, in whatever order. -/
structure HandsOver (storyIdOf : List UInt8 → List UInt8 → StoryId) (storyChunkDurationSecs : ℕ)
    (recovered : RecoveredState) (wal : KeeperWal) : Prop where
  replayed : ∀ (now : ℕ) (s : KeeperChunkRetentionStore),
    replayRecoveredEvents storyIdOf storyChunkDurationSecs recovered.stories now s =
      runCalls now s (replayCalls storyIdOf storyChunkDurationSecs recovered.stories)
  partition : ∀ entry ∈ recovered.stories.toList, entry.2.hasNames = true →
    Partitions (replayDuration storyChunkDurationSecs) (recoveredStoryId storyIdOf entry.2)
      entry.2.events.toList
      (recoveredCalls storyIdOf (replayDuration storyChunkDurationSecs) entry.2)
  pending : ∀ (storyId : StoryId) (sequence : EventSequence),
    (wal.registerRecovered recovered (some (recoveredStoryId storyIdOf))).tracker.isPending
        storyId sequence = true ↔
      ∃ call ∈ replayCalls storyIdOf storyChunkDurationSecs recovered.stories,
        ∃ op ∈ releaseOps call, op.Releases storyId sequence
  released : ∀ order : List RetentionStep,
    order.Perm (replayCalls storyIdOf storyChunkDurationSecs recovered.stories) →
      (order.flatMap releaseOps).foldl WalReleaseTracker.apply
        (wal.registerRecovered recovered (some (recoveredStoryId storyIdOf))).tracker = .empty

theorem not_adds_releaseOps {call : RetentionStep} {op : Op} (h : op ∈ releaseOps call)
    (storyId : StoryId) (sequence : EventSequence) : ¬op.Adds storyId sequence := by
  rintro ⟨segment, bytes, rfl⟩
  cases call with
  | sealChunk chunk => simp [releaseOps] at h
  | discardEvent storyId event => simp [releaseOps] at h
  | call c => cases h

theorem partitions_recoveredCalls (storyIdOf : List UInt8 → List UInt8 → StoryId)
    {storyChunkDurationSecs : ℕ} {story : RecoveredStory} (hmatched : story.Matched)
    (hnames : story.hasNames = true) :
    Partitions (replayDuration storyChunkDurationSecs) (recoveredStoryId storyIdOf story)
      story.events.toList
      (recoveredCalls storyIdOf (replayDuration storyChunkDurationSecs) story) := by
  unfold recoveredCalls
  split
  · next hskip =>
    have hnil : story.events.toList = [] := by
      rw [hnames, Bool.not_true, Bool.or_false] at hskip
      rw [Std.ExtTreeMap.isEmpty_iff.mp hskip]
      rfl
    rw [hnil]
    exact ⟨List.Perm.refl _, fun _ h => (by cases h), List.Pairwise.nil, rfl⟩
  · refine partitions_storyCalls (by unfold replayDuration; omega) ?_
      Std.ExtTreeMap.ordered_keys_toList
    rintro ⟨sequence, event⟩ hentry
    exact hmatched.sequence sequence event
      (Std.ExtTreeMap.mem_toList_iff_getElem?_eq_some.mp hentry)

/-- What a story's calls release are the sequences they settle, under the story's id. -/
theorem releases_recoveredCalls {duration : ℕ} {storyId : StoryId}
    {entries : List (EventSequence × LogEvent)} {calls : List RetentionStep}
    (h : Partitions duration storyId entries calls)
    (hdiscards : ∀ story event, .discardEvent story event ∈ calls → story = storyId)
    (other : StoryId) (sequence : EventSequence) :
    (∃ call ∈ calls, ∃ op ∈ releaseOps call, op.Releases other sequence) ↔
      storyId = other ∧ sequence ∈ entries.map Prod.fst := by
  rw [← h.once.mem_iff, List.mem_flatMap]
  constructor
  · rintro ⟨call, hcall, op, hop, hreleases⟩
    cases call with
    | sealChunk chunk =>
      rw [releaseOps, List.mem_singleton] at hop
      subst hop
      rcases hreleases with heq | ⟨other', heq, hmem⟩
      · cases heq
      · cases heq
        have hstory := (h.chunks chunk (List.mem_filterMap.mpr ⟨_, hcall, rfl⟩)).1
        exact ⟨hstory.symm, _, hcall, hmem⟩
    | discardEvent story event =>
      rw [releaseOps, List.mem_singleton] at hop
      subst hop
      rcases hreleases with heq | ⟨other', heq, -⟩
      · cases heq
        exact ⟨(hdiscards _ _ hcall).symm, _, hcall, List.mem_singleton_self _⟩
      · cases heq
    | call c => cases hop
  · rintro ⟨rfl, call, hcall, hmem⟩
    refine ⟨call, hcall, ?_⟩
    cases call with
    | sealChunk chunk =>
      have hstory := (h.chunks chunk (List.mem_filterMap.mpr ⟨_, hcall, rfl⟩)).1
      exact ⟨_, List.mem_singleton_self _, Or.inr ⟨chunk, by rw [hstory], hmem⟩⟩
    | discardEvent story event =>
      obtain rfl := List.mem_singleton.mp hmem
      obtain rfl := hdiscards _ _ hcall
      exact ⟨_, List.mem_singleton_self _, Or.inl rfl⟩
    | call c => cases hmem

/-- The calls for a story discard under the story's id. -/
theorem story_of_discardEvent {duration : ℕ} {storyId : StoryId} {chunk? : Option StoryChunk}
    {entries : List (EventSequence × LogEvent)} {story : StoryId} {event : EventSequence}
    (h : .discardEvent story event ∈ storyCalls duration storyId chunk? entries) :
    story = storyId := by
  have hhand : ∀ chunk, .discardEvent story event ∉ handOverCalls chunk := by
    intro chunk hmem
    unfold handOverCalls at hmem
    split at hmem <;> simp at hmem
  induction entries generalizing chunk? with
  | nil =>
    rw [storyCalls, List.mem_append, List.mem_flatMap] at h
    rcases h with ⟨chunk, -, hmem⟩ | h
    · exact absurd hmem (hhand chunk)
    · simp at h
  | cons entry entries ih =>
    rw [storyCalls, eventCalls_eq, List.mem_append] at h
    rcases h with h | h
    · rcases List.mem_append.mp h with h | h
      · rcases @openCalls_cases duration storyId chunk? entry.2.time with
          ⟨hcalls, -⟩ | ⟨chunk, -, -, hcalls⟩
        · rw [hcalls] at h
          obtain ⟨chunk, -, hmem⟩ := List.mem_flatMap.mp h
          exact absurd hmem (hhand chunk)
        · rw [hcalls] at h
          cases h
      · split at h
        · rw [List.mem_singleton, RetentionStep.discardEvent.injEq] at h
          exact h.1
        · cases h
    · exact ih h

/-- **What the replay's calls release** are the events of the stories with names. -/
theorem releases_replayCalls (storyIdOf : List UInt8 → List UInt8 → StoryId)
    (storyChunkDurationSecs : ℕ) {recovered : RecoveredState} (hmatched : recovered.Matched)
    (storyId : StoryId) (sequence : EventSequence) :
    (∃ call ∈ replayCalls storyIdOf storyChunkDurationSecs recovered.stories,
        ∃ op ∈ releaseOps call, op.Releases storyId sequence) ↔
      ∃ entry ∈ recovered.stories.toList, entry.2.hasNames = true ∧
        recoveredStoryId storyIdOf entry.2 = storyId ∧
        entry.2.events.contains sequence = true := by
  have hstory : ∀ entry ∈ recovered.stories.toList, entry.2.hasNames = true →
      ((∃ call ∈ recoveredCalls storyIdOf (replayDuration storyChunkDurationSecs) entry.2,
          ∃ op ∈ releaseOps call, op.Releases storyId sequence) ↔
        recoveredStoryId storyIdOf entry.2 = storyId ∧
          entry.2.events.contains sequence = true) := by
    intro entry hentry hnames
    have hmatchedStory : entry.2.Matched :=
      hmatched entry.1 entry.2 (Std.ExtTreeMap.mem_toList_iff_getElem?_eq_some.mp hentry)
    have hparts : Partitions (replayDuration storyChunkDurationSecs)
        (recoveredStoryId storyIdOf entry.2) entry.2.events.toList
        (recoveredCalls storyIdOf (replayDuration storyChunkDurationSecs) entry.2) :=
      partitions_recoveredCalls storyIdOf hmatchedStory hnames
    rw [releases_recoveredCalls hparts, Std.ExtTreeMap.map_fst_toList_eq_keys,
      Std.ExtTreeMap.mem_keys, Std.ExtTreeMap.contains_iff_mem]
    intro story event hmem
    unfold recoveredCalls at hmem
    split at hmem
    · cases hmem
    · exact story_of_discardEvent hmem
  constructor
  · rintro ⟨call, hcall, hreleases⟩
    obtain ⟨entry, hentry, hcall⟩ := List.mem_flatMap.mp hcall
    have hnames : entry.2.hasNames = true := by
      by_contra hnot
      unfold recoveredCalls at hcall
      rw [Bool.not_eq_true] at hnot
      simp [hnot] at hcall
    exact ⟨entry, hentry, hnames, (hstory entry hentry hnames).mp ⟨call, hcall, hreleases⟩⟩
  · rintro ⟨entry, hentry, hnames, hid, hmem⟩
    obtain ⟨call, hcall, hreleases⟩ := (hstory entry hentry hnames).mpr ⟨hid, hmem⟩
    exact ⟨call, List.mem_flatMap.mpr ⟨entry, hentry, hcall⟩, hreleases⟩

/-- **What a restart hands over is what is pending.**  Of whatever recovery returns for a log, the
replay seals or discards each event of a story with names just once, under the id that its copies
are registered under, so that releasing it leaves nothing pending. -/
theorem restart_hands_over (storyIdOf : List UInt8 → List UInt8 → StoryId)
    (storyChunkDurationSecs : ℕ) (files : List (ℕ × Bytes)) (state : RecoveredState)
    (ends : List SegmentEnd) (drops : List UnloggedDrop) (wal : KeeperWal)
    (hread : readLog files = .ok (state, ends)) (hstart : wal.tracker = .empty) :
    HandsOver storyIdOf storyChunkDurationSecs (recoveredState state ends drops) wal := by
  have hmatched := matched_recoveredState hread drops
  have hpending : ∀ (storyId : StoryId) (sequence : EventSequence),
      (wal.registerRecovered (recoveredState state ends drops)
          (some (recoveredStoryId storyIdOf))).tracker.isPending storyId sequence = true ↔
        ∃ call ∈ replayCalls storyIdOf storyChunkDurationSecs
            (recoveredState state ends drops).stories,
          ∃ op ∈ releaseOps call, op.Releases storyId sequence := by
    intro storyId sequence
    rw [releases_replayCalls storyIdOf storyChunkDurationSecs hmatched,
      KeeperWal.tracker_registerRecovered, hstart, WalReleaseTracker.isPending_foldl_adds,
      KeeperWal.adds_recoveredOps hmatched, WalReleaseTracker.isPending_eq_isSome,
      WalReleaseTracker.copies_empty]
    · simp
    · intro op hop
      obtain ⟨entry, -, hop⟩ := List.mem_flatMap.mp hop
      split at hop
      · obtain ⟨⟨event, copies⟩, -, hop⟩ := List.mem_flatMap.mp hop
        obtain ⟨copy, -, rfl⟩ := List.mem_map.mp hop
        exact ⟨_, _, copy.1, copy.2, rfl⟩
      · cases hop
  refine ⟨fun now s => replayRecoveredEvents_eq _ _ _ now s, fun entry hentry hnames => ?_,
    hpending, fun order horder => ?_⟩
  · exact partitions_recoveredCalls storyIdOf
      (hmatched entry.1 entry.2 (Std.ExtTreeMap.mem_toList_iff_getElem?_eq_some.mp hentry)) hnames
  · have haccurate : (wal.registerRecovered (recoveredState state ends drops)
        (some (recoveredStoryId storyIdOf))).tracker.Accurate := by
      rw [KeeperWal.tracker_registerRecovered, hstart]
      exact WalReleaseTracker.accurate_empty.foldl _
    refine (haccurate.foldl _).eq_empty fun storyId sequence => ?_
    refine WalReleaseTracker.copies_foldl_releases haccurate (fun op hop => ?_) ?_
    · obtain ⟨call, -, hop⟩ := List.mem_flatMap.mp hop
      exact not_adds_releaseOps hop
    · -- what is pending is released by one of the calls
      by_cases hsome : (wal.registerRecovered (recoveredState state ends drops)
          (some (recoveredStoryId storyIdOf))).tracker.isPending storyId sequence = true
      · obtain ⟨call, hcall, op, hop, hreleases⟩ := (hpending storyId sequence).mp hsome
        exact Or.inr ⟨op, List.mem_flatMap.mpr ⟨call, horder.mem_iff.mpr hcall, hop⟩, hreleases⟩
      · rw [WalReleaseTracker.isPending_eq_isSome, Option.isSome_iff_ne_none, not_not] at hsome
        exact Or.inl hsome

/-- A segment with the names of a story and two of its events, one without a record. -/
def namedLog : List (ℕ × Bytes) :=
  let event := fun record => (((Wal.encodeEvent ⟨7, 10, 1, 0, record⟩ []).map
    Wal.EventFrame.bytes).getD [])
  let later := fun record => (((Wal.encodeEvent ⟨7, 20, 1, 1, record⟩ []).map
    Wal.EventFrame.bytes).getD [])
  let records := Wal.frame (Wal.NamesRecord.body ⟨7, [67], [83]⟩) ++ event [65] ++ later []
  [(1, Wal.frame (Wal.HeaderRecord.body ⟨1, 1, 0, []⟩) ++
    Wal.encodeGroup (Wal.kGroupFrameBytes + records.length) ++ records)]

/-- One event of that log is sealed and the other discarded, and nothing is left pending. -/
theorem restart_hands_over_namedLog : ∃ state ends, readLog namedLog = .ok (state, ends) ∧
    (replayCalls (fun _ _ => 9) 30 (recoveredState state ends []).stories).flatMap sequencesOf =
      [⟨20, 1, 1⟩, ⟨10, 1, 0⟩] ∧
    HandsOver (fun _ _ => 9) 30 (recoveredState state ends []) (KeeperWal.logOver namedLog) := by
  have hcalls : (readLog namedLog).toOption.map (fun read =>
      (replayCalls (fun _ _ => 9) 30 (recoveredState read.1 read.2 []).stories).flatMap
        sequencesOf) = some [⟨20, 1, 1⟩, ⟨10, 1, 0⟩] := by
    decide +kernel
  cases hread : readLog namedLog with
  | error err =>
    rw [hread] at hcalls
    cases hcalls
  | ok read =>
    rw [hread] at hcalls
    exact ⟨read.1, read.2, rfl, Option.some.inj hcalls,
      restart_hands_over (fun _ _ => 9) 30 namedLog read.1 read.2 [] (KeeperWal.logOver namedLog)
        hread rfl⟩

end KeeperDataStore

end ChronoLog
