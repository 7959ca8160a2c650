import ChronoLog.Keeper.TailIndex
import ChronoLog.Lib.Greatest
import ChronoLog.Pipeline.KeeperMerge
import ChronoLog.Pipeline.RangeReads

/-!
# Reads of a story's tail

A keeper answers with a story's most recent events in two phases: their sequences, and then
the payloads of those the player picks.  The sealed half comes from the tail index, which
forgets its oldest events on every seal; with `live_tail_read` the timeline that is not
sealed yet is walked from its end, and the two halves are merged.

## Main definitions

* `KeeperStoryPipeline.activeTailSequences` — the walk over the timeline.
* `KeeperChunkRetentionStore.getTailSequences`, `getTailEvents` — the two phases.
* `KeeperChunkRetentionStore.tailHistory` — the events sealed into a story's tail in a run.

## Main results

* `KeeperChunkRetentionStore.tail_reads` — **a read is the true end of the tail**, whatever
  was evicted, and in whatever order the chunks were sealed.
* `KeeperChunkRetentionStore.destroyed_story_has_no_tail` — the chunks of a destroyed story
  are in no tail.
-/

namespace ChronoLog

open Greatest (IsLast Keeps)

/-! ### The walk over the timeline -/

namespace KeeperStoryPipeline

/-- The inner loop of `activeTailSequences`, over the events of a window from its end. -/
def collectEvents (n : ℕ) : List EventSequence → List EventSequence → List EventSequence
  | [], collected => collected
  | seq :: rest, collected =>
    if collected.length < n then collectEvents n rest (collected ++ [seq]) else collected

/-- The outer loop, over the windows from the last one. -/
def collectWindows (n : ℕ) : List TimelineChunk → List EventSequence → List EventSequence
  | [], collected => collected
  | window :: windows, collected =>
    if collected.length < n then
      if window.empty then collectWindows n windows collected
      else collectWindows n windows (collectEvents n window.logEvents.keys.reverse collected)
    else collected

/-- `activeTailSequences`. -/
def activeTailSequences (p : StoryTimeline) (n : ℕ) : List EventSequence :=
  if n = 0 then [] else (collectWindows n p.windows.reverse []).reverse

theorem collectEvents_eq (n : ℕ) (events collected : List EventSequence) :
    collectEvents n events collected = collected ++ events.take (n - collected.length) := by
  induction events generalizing collected with
  | nil => simp [collectEvents]
  | cons seq rest ih =>
    unfold collectEvents
    split
    · next hlt =>
      obtain ⟨m, hm⟩ : ∃ m, n - collected.length = m + 1 := ⟨n - collected.length - 1, by omega⟩
      have hleft : n - (collected ++ [seq]).length = m := by
        rw [List.length_append, List.length_singleton]
        omega
      rw [ih, hleft, hm, List.take_succ_cons, List.append_assoc, List.singleton_append]
    · next hfull =>
      rw [Nat.sub_eq_zero_of_le (not_lt.mp hfull), List.take_zero, List.append_nil]

theorem collectWindows_eq (n : ℕ) (windows : List TimelineChunk) (collected : List EventSequence) :
    collectWindows n windows collected = collected ++
      (windows.flatMap fun window =>
        window.logEvents.keys.reverse).take (n - collected.length) := by
  induction windows generalizing collected with
  | nil => simp [collectWindows]
  | cons window windows ih =>
    unfold collectWindows
    split
    · rw [List.flatMap_cons]
      split
      · next hempty =>
        have hnone : window.logEvents.keys = [] := by
          rw [Std.ExtTreeMap.isEmpty_iff.mp hempty]
          rfl
        rw [ih, hnone, List.reverse_nil, List.nil_append]
      · rw [ih, collectEvents_eq, List.append_assoc, List.append_cancel_left_eq, List.take_append,
          List.length_append, List.length_take]
        congr 2
        omega
    · next hfull =>
      rw [Nat.sub_eq_zero_of_le (not_lt.mp hfull), List.take_zero, List.append_nil]

/-- **The walk collects the end of the timeline's events.** -/
theorem activeTailSequences_eq (p : StoryTimeline) (n : ℕ) :
    activeTailSequences p n =
      ((StoryPipeline.timelineEvents p).map LogEvent.sequence).drop
        (((StoryPipeline.timelineEvents p).map LogEvent.sequence).length - n) := by
  have hkeys : (StoryPipeline.timelineEvents p).map LogEvent.sequence =
      p.windows.flatMap fun window => window.logEvents.keys := by
    rw [StoryPipeline.timelineEvents, List.flatMap_map, List.map_flatMap]
    exact List.flatMap_congr fun window _ => window.map_sequence_events
  have hwalk : (p.windows.reverse.flatMap fun window => window.logEvents.keys.reverse) =
      (p.windows.flatMap fun window => window.logEvents.keys).reverse :=
    List.reverse_flatMap.symm
  unfold activeTailSequences
  rw [hkeys]
  split
  · next hzero => rw [hzero, Nat.sub_zero, List.drop_length]
  · rw [collectWindows_eq, hwalk, List.nil_append, List.length_nil, Nat.sub_zero,
      List.take_reverse, List.reverse_reverse]

/-- **The search finds every event of the timeline.** -/
theorem findActiveEvent_of_mem {p : StoryTimeline} (h : p.Invariant) {e : LogEvent}
    (he : e ∈ StoryPipeline.timelineEvents p) : findActiveEvent p e.sequence = some e := by
  obtain ⟨chunk, hchunk, he⟩ := List.mem_flatMap.mp he
  obtain ⟨w, hw, rfl⟩ := List.mem_map.mp hchunk
  obtain ⟨⟨k, w⟩, hentry, rfl⟩ := List.mem_map.mp hw
  have hw : p.storyTimelineMap[k]? = some w :=
    Std.ExtTreeMap.mem_toList_iff_getElem?_eq_some.mp hentry
  obtain ⟨hstart, hend⟩ := h.events k w hw e he
  rw [h.keyed k w hw] at hstart
  rw [h.long k w hw, h.keyed k w hw] at hend
  -- the windows start a granularity apart, so none starts between this one and the event
  have hmax : ∀ k' ∈ p.storyTimelineMap, k' ≤ e.time → k' ≤ k := by
    intro k' hk' hle
    obtain ⟨w', hw'⟩ := StoryTimeline.exists_window hk'
    obtain ⟨i, hi⟩ := h.aligned k w hw
    obtain ⟨j, hj⟩ := h.aligned k' w' hw'
    rw [h.keyed k w hw] at hi
    rw [h.keyed k' w' hw'] at hj
    by_contra hgt
    have hij : p.chunkGranularity * i < p.chunkGranularity * j := by omega
    have hnext := Nat.mul_le_mul_left p.chunkGranularity (Nat.lt_of_mul_lt_mul_left hij)
    rw [Nat.mul_succ, ← hi, ← hj] at hnext
    omega
  obtain ⟨hne, hprev⟩ :=
    OrderedMap.prev_upperBound (StoryTimeline.mem_of_window hw) hstart hmax
  unfold findActiveEvent
  rw [LogEvent.time_sequence, if_neg hne, hprev, StoryTimeline.deref, Option.bind_some, hw,
    Option.bind_some]
  exact StoryChunk.mem_events.mp he

end KeeperStoryPipeline

namespace KeeperChunkRetentionStore

open OrderedMap

/-! ### The two phases -/

/-- `getSealedTailSequences`: the last entries of the tail index. -/
def getSealedTailSequences (s : KeeperChunkRetentionStore) (storyId : StoryId) (n : ℕ) :
    List EventSequence :=
  match s.storyRetention[storyId]? with
  | none => []
  | some story => story.index.keys.drop (story.index.size - min n story.index.size)

/-- `getActiveTailSequences`: from the story's pipeline, if it is registered. -/
def getActiveTailSequences (active : Option StoryTimeline) (n : ℕ) : List EventSequence :=
  match active with
  | none => []
  | some p => KeeperStoryPipeline.activeTailSequences p n

/-- `getTailSequences`: the sealed half, and with `live_tail_read` its union with the active
one. -/
def getTailSequences (s : KeeperChunkRetentionStore) (liveTailRead : Bool)
    (active : Option StoryTimeline) (storyId : StoryId) (n : ℕ) : List EventSequence :=
  let sealedHalf := s.getSealedTailSequences storyId n
  if !liveTailRead then sealedHalf
  else
    let activeHalf := getActiveTailSequences active n
    if activeHalf.isEmpty then sealedHalf
    else
      let merged : OrdSet EventSequence := Std.ExtTreeSet.ofList (sealedHalf ++ activeHalf)
      merged.toList.drop (merged.size - min n merged.size)

/-- The payload that the tail index finds. -/
def sealedTailEvent (s : KeeperChunkRetentionStore) (storyId : StoryId) (seq : EventSequence) :
    Option LogEvent :=
  (s.storyRetention[storyId]?).bind fun story =>
    (story.index[seq]?).bind fun id =>
      (story.chunks[id]?).bind fun retained => retained.chunk.logEvents[seq]?

/-- The payload that the story's pipeline finds, if it is registered. -/
def activeTailEvent (active : Option StoryTimeline) (seq : EventSequence) : Option LogEvent :=
  active.bind fun p => KeeperStoryPipeline.findActiveEvent p seq

/-- `getTailEvents`: what the index finds, then what the active timeline has of the rest. -/
def getTailEvents (s : KeeperChunkRetentionStore) (liveTailRead : Bool)
    (active : Option StoryTimeline) (storyId : StoryId) (seqs : List EventSequence) :
    List LogEvent :=
  let misses := seqs.filter fun seq => (s.sealedTailEvent storyId seq).isNone
  seqs.filterMap (s.sealedTailEvent storyId) ++
    if liveTailRead then misses.filterMap (activeTailEvent active) else []

/-! ### What the calls leave of the tails -/

variable {s s' : KeeperChunkRetentionStore} {storyId other : StoryId} {story : StoryRetention}

/-- The tails are as they were. -/
structure KeepsTails (s s' : KeeperChunkRetentionStore) : Prop where
  tailCapacity : s'.tailCapacity = s.tailCapacity
  index : ∀ storyId, (s'.storyOf storyId).index = (s.storyOf storyId).index

namespace KeepsTails

theorem refl (s : KeeperChunkRetentionStore) : KeepsTails s s := ⟨rfl, fun _ => rfl⟩

theorem trans {s'' : KeeperChunkRetentionStore} (h : KeepsTails s s') (h' : KeepsTails s' s'') :
    KeepsTails s s'' :=
  ⟨h'.tailCapacity.trans h.tailCapacity, fun storyId => (h'.index storyId).trans (h.index storyId)⟩

/-- A record replaced by one with the same index. -/
theorem of_insert (hcapacity : s'.tailCapacity = s.tailCapacity)
    (h : s'.storyRetention = s.storyRetention.insert storyId story)
    (hindex : story.index = (s.storyOf storyId).index) : KeepsTails s s' := by
  refine ⟨hcapacity, fun other => ?_⟩
  have hof : s'.storyOf other = (s.setStory storyId story).storyOf other := by
    rw [storyOf, h]
    rfl
  rw [hof, storyOf_setStory]
  split
  · next ho => rw [hindex, ho]
  · rfl

theorem foldl {α : Type*} {f : KeeperChunkRetentionStore → α → KeeperChunkRetentionStore}
    (hf : ∀ s a, KeepsTails s (f s a)) (l : List α) (s : KeeperChunkRetentionStore) :
    KeepsTails s (l.foldl f s) :=
  List.foldlRecOn (motive := fun s' => KeepsTails s s') l f (refl s)
    fun _ hs a _ => hs.trans (hf _ a)

end KeepsTails

theorem tailCapacity_tellWritten (id : ChunkId) (chunk : StoryChunk) (state : ChunkState) :
    (s.tellWritten story id chunk state).tailCapacity = s.tailCapacity := by
  unfold tellWritten
  split <;> rfl

theorem keepsTails_maybeFreeChunk (s : KeeperChunkRetentionStore) (storyId : StoryId)
    (id : ChunkId) (now : ℕ) : KeepsTails s (s.maybeFreeChunk storyId id now) := by
  rcases maybeFreeChunk_inv s storyId id now with
    ⟨-, heq⟩ | ⟨story, chunk, state, state', hstory, -, -, hcases⟩
  · rw [heq]
    exact KeepsTails.refl s
  · have hindex : story.index = (s.storyOf storyId).index := by rw [storyOf_of_getElem? hstory]
    rcases hcases with ⟨-, -, heq, hmap⟩ | ⟨-, heq, hmap⟩
    · refine KeepsTails.of_insert ?_ hmap hindex
      rw [heq]
      exact tailCapacity_tellWritten id chunk _
    · refine KeepsTails.of_insert ?_ hmap hindex
      rw [heq]
      exact tailCapacity_tellWritten id chunk _

theorem keepsTails_maybeFreeChunks (s : KeeperChunkRetentionStore) (storyId : StoryId) (now : ℕ) :
    KeepsTails s (s.maybeFreeChunks storyId now) :=
  KeepsTails.foldl (fun s id => keepsTails_maybeFreeChunk s storyId id now) _ s

theorem keepsTails_updateChunk (s : KeeperChunkRetentionStore) (storyId : StoryId) (id : ChunkId)
    (f : ChunkState → ChunkState) (now : ℕ) : KeepsTails s (s.updateChunk storyId id f now) := by
  unfold updateChunk
  split
  · exact ⟨rfl, fun _ => rfl⟩
  · next story hstory =>
    split
    · exact ⟨rfl, fun _ => rfl⟩
    · refine KeepsTails.trans ?_ (keepsTails_maybeFreeChunk _ storyId id now)
      exact KeepsTails.of_insert rfl rfl (by rw [storyOf_of_getElem? hstory])

theorem keepsTails_markPicked (s : KeeperChunkRetentionStore)
    (p : StoryRetention → RetainedChunk → Bool) (f : ChunkState → ChunkState) :
    KeepsTails s (s.markPicked p f) := by
  refine ⟨rfl, fun storyId => ?_⟩
  unfold markPicked storyOf
  dsimp only
  rw [Std.ExtTreeMap.getElem?_map]
  cases s.storyRetention[storyId]? <;> rfl

theorem keepsTails_stash (s : KeeperChunkRetentionStore) (chunks : List (ChunkId × StoryChunk)) :
    KeepsTails s (s.stash chunks) :=
  ⟨rfl, fun _ => rfl⟩

theorem keepsTails_afterFetchRange (s : KeeperChunkRetentionStore) (storyId : StoryId) (now : ℕ) :
    KeepsTails s (s.afterFetchRange storyId now) := by
  unfold afterFetchRange
  split
  · exact KeepsTails.refl s
  · next story hstory =>
    exact KeepsTails.of_insert rfl rfl (by rw [storyOf_of_getElem? hstory])

end KeeperChunkRetentionStore

/-- The call starts the story's tail over: it releases the tail, or reports the story
destroyed. -/
def StoreCall.clears (storyId : StoryId) : StoreCall → Bool
  | releaseStoryTail id => id = storyId
  | applyReport id report => id = storyId ∧ report.watermark = kStoryDroppedWatermark
  | _ => false

namespace KeeperChunkRetentionStore

open OrderedMap

variable {s s' : KeeperChunkRetentionStore} {storyId other : StoryId} {story : StoryRetention}

theorem tailCapacity_dropStory (s : KeeperChunkRetentionStore) (storyId : StoryId) (now : ℕ) :
    (s.dropStory storyId now).tailCapacity = s.tailCapacity := by
  have hfold : ∀ (l : List (ChunkId × RetainedChunk)) (s : KeeperChunkRetentionStore),
      (l.foldl dropChunk s).tailCapacity = s.tailCapacity := by
    intro l s
    refine List.foldlRecOn (motive := fun s' : KeeperChunkRetentionStore =>
      s'.tailCapacity = s.tailCapacity) l dropChunk rfl fun s' hs entry _ => ?_
    rw [← hs]
    unfold dropChunk
    dsimp only
    split <;> split <;> rfl
  unfold dropStory
  dsimp only
  split
  · rfl
  · exact hfold _ _

/-- **What a call leaves of a tail**: nothing of one it starts over, and the others as they
were. -/
theorem index_call (s : KeeperChunkRetentionStore) (now : ℕ) (c : StoreCall) (storyId : StoryId) :
    (c.run s now).tailCapacity = s.tailCapacity ∧
      ((c.run s now).storyOf storyId).index =
        if c.clears storyId then ∅ else (s.storyOf storyId).index := by
  have hkeeps : KeepsTails s (c.run s now) → c.clears storyId = false →
      (c.run s now).tailCapacity = s.tailCapacity ∧
        ((c.run s now).storyOf storyId).index =
          if c.clears storyId then ∅ else (s.storyOf storyId).index := by
    intro h hc
    rw [hc, if_neg Bool.false_ne_true]
    exact ⟨h.tailCapacity, h.index storyId⟩
  cases c with
  | markShipped id chunk grapherInstance receipt =>
    exact hkeeps (keepsTails_updateChunk s id chunk _ now) rfl
  | markSendFailed id chunk => exact hkeeps (keepsTails_updateChunk s id chunk _ now) rfl
  | freeDurableChunks =>
    exact hkeeps (KeepsTails.foldl (fun s id => keepsTails_maybeFreeChunks s id now) _ s) rfl
  | requeueStalled maxAge =>
    exact hkeeps ((keepsTails_markPicked s _ _).trans (keepsTails_stash _ _)) rfl
  | flushUnshippedChunks =>
    exact hkeeps ((keepsTails_markPicked s _ _).trans (keepsTails_stash _ _)) rfl
  | clearDroppedStory id => exact hkeeps ⟨rfl, fun _ => rfl⟩ rfl
  | fetchRange id => exact hkeeps (keepsTails_afterFetchRange s id now) rfl
  | releaseStoryTail id =>
    change (s.releaseStoryTail id now).tailCapacity = _ ∧
      ((s.releaseStoryTail id now).storyOf storyId).index = _
    simp only [StoreCall.clears, decide_eq_true_eq]
    unfold releaseStoryTail
    split
    · next hnone =>
      refine ⟨rfl, ?_⟩
      split
      · next hid =>
        rw [storyOf, ← hid, hnone]
        rfl
      · rfl
    · have hfrees := fun s => keepsTails_maybeFreeChunks s id now
      rw [(hfrees _).tailCapacity, (hfrees _).index, storyOf_setStory]
      refine ⟨rfl, ?_⟩
      split <;> rfl
  | applyReport id report =>
    change (s.applyReport id report now).tailCapacity = _ ∧
      ((s.applyReport id report now).storyOf storyId).index = _
    by_cases hdrop : report.watermark = kStoryDroppedWatermark
    · rw [show s.applyReport id report now = s.dropStory id now from if_pos hdrop,
        storyOf_dropStory]
      refine ⟨tailCapacity_dropStory s id now, ?_⟩
      simp only [StoreCall.clears, hdrop, and_true, decide_eq_true_eq]
      split <;> rfl
    · have hkept : KeepsTails s (s.applyReport id report now) := by
        rw [applyReport_of_ne hdrop]
        refine KeepsTails.trans ?_ (keepsTails_maybeFreeChunks _ id now)
        exact KeepsTails.of_insert rfl rfl (index_reported _ report).1
      refine hkeeps hkept ?_
      simp only [StoreCall.clears, hdrop, and_false, decide_false]

/-! ### What a seal leaves of the tails -/

/-- The first `count` entries of the story's tail are gone, and nothing else of any tail. -/
structure Evicts (storyId : StoryId) (count : ℕ) (s s' : KeeperChunkRetentionStore) : Prop where
  tailCapacity : s'.tailCapacity = s.tailCapacity
  index : (s'.storyOf storyId).index.toList = (s.storyOf storyId).index.toList.drop count
  others : ∀ other, storyId ≠ other → (s'.storyOf other).index = (s.storyOf other).index

theorem Evicts.keeps {s'' : KeeperChunkRetentionStore} {count : ℕ}
    (h : Evicts storyId count s s') (h' : KeepsTails s' s'') : Evicts storyId count s s'' :=
  ⟨h'.tailCapacity.trans h.tailCapacity, (congrArg _ (h'.index storyId)).trans h.index,
    fun other ho => (h'.index other).trans (h.others other ho)⟩

theorem evicts_evicted {oldest : EventSequence} {id : ChunkId} (now : ℕ)
    (hstory : s.storyRetention[storyId]? = some story)
    (hhead : story.index.toList.head? = some (oldest, id)) :
    Evicts storyId 1 s (s.evicted storyId story oldest id now) := by
  have hset : ∀ story' : StoryRetention, story'.index = story.index.erase oldest →
      Evicts storyId 1 s (s.setStory storyId story') := by
    intro story' hindex
    refine ⟨rfl, ?_, fun other ho => ?_⟩
    · rw [storyOf_setStory, if_pos rfl, hindex, toList_erase_of_head? hhead,
        storyOf_of_getElem? hstory, List.drop_one]
    · rw [storyOf_setStory, if_neg ho]
  unfold evicted
  split
  · split
    · dsimp only
      split
      · refine Evicts.keeps (hset _ ?_) (keepsTails_maybeFreeChunk _ storyId id now)
        rfl
      · exact hset _ rfl
    · exact hset _ rfl
  · exact hset _ rfl

/-- **`enforceCapacity` takes the oldest events out.** -/
theorem evicts_enforceCapacity (fuel : ℕ) (s : KeeperChunkRetentionStore) (storyId : StoryId)
    (now : ℕ) (hfuel : fuel ≤ (s.storyOf storyId).index.toList.length) :
    Evicts storyId fuel s (enforceCapacity fuel s storyId now) := by
  induction fuel generalizing s with
  | zero => exact ⟨rfl, rfl, fun _ _ => rfl⟩
  | succ fuel ih =>
    rcases enforceCapacity_succ fuel s storyId now with
      ⟨hempty, -⟩ | ⟨story, oldest, id, hs, hhead, heq⟩
    · rw [List.head?_eq_none_iff.mp hempty] at hfuel
      cases hfuel
    · have hone := evicts_evicted now hs hhead
      have hrest := ih (s.evicted storyId story oldest id now) (by
        rw [hone.index, List.length_drop]
        omega)
      rw [heq]
      refine ⟨hrest.tailCapacity.trans hone.tailCapacity, ?_,
        fun other ho => (hrest.others other ho).trans (hone.others other ho)⟩
      rw [hrest.index, hone.index, List.drop_drop, Nat.add_comm]

/-! ### A tail along a run -/

/-- The events of the story's tail after a step, evicted ones included.  A chunk of a story
that is remembered as destroyed is not taken. -/
def tailStep (storyId : StoryId) (s : KeeperChunkRetentionStore) (history : List LogEvent) :
    RetentionStep × ℕ → List LogEvent
  | (.sealChunk chunk, now) =>
    if chunk.storyId = storyId ∧ (s.pruneDropped now).droppedStories.contains storyId = false then
      history ++ chunk.events
    else history
  | (.discardEvent .., _) => history
  | (.call c, _) => if c.clears storyId then [] else history

/-- The store and the events of the story's tail after the steps. -/
def tailRun (storyId : StoryId) (s : KeeperChunkRetentionStore) (steps : List (RetentionStep × ℕ)) :
    KeeperChunkRetentionStore × List LogEvent :=
  steps.foldl (fun r l => (l.1.run r.1 l.2, tailStep storyId r.1 r.2 l)) (s, [])

/-- The events sealed into the story's tail since it was last started over. -/
def tailHistory (storyId : StoryId) (s : KeeperChunkRetentionStore)
    (steps : List (RetentionStep × ℕ)) : List LogEvent :=
  (tailRun storyId s steps).2

/-- One of the events has the sequence. -/
def HasSequence (events : List LogEvent) (seq : EventSequence) : Prop :=
  ∃ e ∈ events, e.sequence = seq

/-- **What a tail index is to its history**: above each event that it lacks it has as many
greater ones as the capacity, and it finds a payload of the history for each that it has. -/
structure HoldsTail (capacity : ℕ) (storyId : StoryId) (history : List LogEvent)
    (s : KeeperChunkRetentionStore) : Prop where
  tailCapacity : s.tailCapacity = capacity
  keeps : Keeps capacity (HasSequence history) (s.storyOf storyId).index.keys
  payload : ∀ (seq : EventSequence) (id : ChunkId), (s.storyOf storyId).index[seq]? = some id →
    ∃ chunk e, s.chunkAt storyId id = some chunk ∧ chunk.logEvents[seq]? = some e ∧ e ∈ history

variable {capacity : ℕ} {history : List LogEvent}

namespace HoldsTail

/-- Chunks may go that the index does not point to. -/
theorem of_shrinks (h : HoldsTail capacity storyId history s) (hs : Shrinks s s')
    (hindexed : AllIndexedBy Covers s') (hcapacity : s'.tailCapacity = s.tailCapacity)
    (hkeeps : Keeps capacity (HasSequence history) (s'.storyOf storyId).index.keys)
    (hindex : ∀ (seq : EventSequence) (id : ChunkId),
      (s'.storyOf storyId).index[seq]? = some id → (s.storyOf storyId).index[seq]? = some id) :
    HoldsTail capacity storyId history s' := by
  refine ⟨hcapacity.trans h.tailCapacity, hkeeps, fun seq id hget => ?_⟩
  obtain ⟨chunk, e, hchunk, hfind, he⟩ := h.payload seq id (hindex seq id hget)
  refine ⟨chunk, e, ?_, hfind, he⟩
  obtain ⟨retained, hretained, -⟩ := (hindexed.storyOf storyId).points seq id hget
  have hsome : s'.chunkAt storyId id = some retained.chunk := by
    rw [chunkAt, retainedAt_eq_storyOf, hretained, Option.map_some]
  rcases hs.chunkAt storyId id with hnone | hsame
  · rw [hsome] at hnone
    cases hnone
  · rw [hsame, hchunk]

/-- Evictions keep what a tail index is to its history. -/
theorem evict (h : HoldsTail capacity storyId history s) (hs : Shrinks s s')
    (hindexed : AllIndexedBy Covers s')
    (hevicts : Evicts storyId ((s.storyOf storyId).index.size - capacity) s s') :
    HoldsTail capacity storyId history s' := by
  refine h.of_shrinks hs hindexed hevicts.tailCapacity ?_ fun seq id hget => ?_
  · rw [← Std.ExtTreeMap.map_fst_toList_eq_keys, hevicts.index, List.map_drop,
      Std.ExtTreeMap.map_fst_toList_eq_keys, ← Std.ExtTreeMap.length_keys]
    exact h.keeps.drop Std.ExtTreeMap.ordered_keys
  · have hmem := Std.ExtTreeMap.mem_toList_iff_getElem?_eq_some.mpr hget
    rw [hevicts.index] at hmem
    exact Std.ExtTreeMap.mem_toList_iff_getElem?_eq_some.mp (List.mem_of_mem_drop hmem)

/-- A chunk of the story is taken. -/
theorem adopt (h : HoldsTail capacity storyId history s) (hallocated : s.Allocated)
    (chunk : StoryChunk) (now : ℕ) :
    HoldsTail capacity storyId (history ++ chunk.events) (s.adopt storyId chunk now) := by
  have hindex : ∀ seq : EventSequence,
      ((s.adopt storyId chunk now).storyOf storyId).index[seq]? =
        if ∃ e ∈ chunk.events, e.sequence = seq then some s.nextChunk
        else (s.storyOf storyId).index[seq]? := by
    intro seq
    rw [← StoryRetention.getElem?_foldl_insert, storyOf]
    unfold KeeperChunkRetentionStore.adopt
    dsimp only
    rw [Std.ExtTreeMap.getElem?_insert_self, Option.getD_some]
  refine ⟨h.tailCapacity, ?_, fun seq id hget => ?_⟩
  · have hchunk : Keeps capacity (HasSequence chunk.events) chunk.logEvents.keys := by
      refine Keeps.of_mem_iff fun seq => ?_
      rw [← chunk.map_sequence_events, List.mem_map]
      rfl
    have hboth := h.keeps.union hchunk Std.ExtTreeMap.nodup_keys Std.ExtTreeMap.nodup_keys
      (u := ((s.adopt storyId chunk now).storyOf storyId).index.keys) fun seq => by
        rw [← chunk.map_sequence_events, List.mem_map, Std.ExtTreeMap.mem_keys,
          Std.ExtTreeMap.mem_keys, Std.ExtTreeMap.mem_iff_isSome_getElem?,
          Std.ExtTreeMap.mem_iff_isSome_getElem?, hindex]
        by_cases hmem : ∃ e ∈ chunk.events, e.sequence = seq
        · simp [hmem]
        · simp [hmem]
    refine hboth.congr fun seq => ?_
    simp only [HasSequence, List.mem_append, or_and_right, exists_or]
  · rw [hindex] at hget
    split at hget
    · next hmem =>
      obtain ⟨e, he, rfl⟩ := hmem
      cases hget
      refine ⟨chunk, e, ?_, StoryChunk.mem_events.mp he, List.mem_append_right _ he⟩
      rw [chunkAt_adopt, if_pos ⟨rfl, rfl⟩]
    · obtain ⟨old, e, hchunk, hfind, he⟩ := h.payload seq id hget
      refine ⟨old, e, ?_, hfind, List.mem_append_left _ he⟩
      rw [chunkAt_adopt, if_neg, hchunk]
      rintro ⟨-, hid⟩
      rw [hallocated storyId id hid.le] at hchunk
      cases hchunk

/-- A chunk of another story is taken. -/
theorem adopt_of_ne (h : HoldsTail capacity storyId history s) (hne : other ≠ storyId)
    (chunk : StoryChunk) (now : ℕ) :
    HoldsTail capacity storyId history (s.adopt other chunk now) := by
  have hindex : ((s.adopt other chunk now).storyOf storyId).index =
      (s.storyOf storyId).index := by
    unfold KeeperChunkRetentionStore.adopt storyOf
    dsimp only
    rw [Std.ExtTreeMap.getElem?_insert, if_neg (by simpa using hne)]
  refine ⟨h.tailCapacity, hindex ▸ h.keeps, fun seq id hget => ?_⟩
  obtain ⟨old, e, hchunk, hfind⟩ := h.payload seq id (hindex ▸ hget)
  exact ⟨old, e, by rw [chunkAt_adopt, if_neg fun hif => hne hif.1, hchunk], hfind⟩

/-- The tails do not see what is outside the records. -/
theorem of_eq (h : HoldsTail capacity storyId history s)
    (hcapacity : s'.tailCapacity = s.tailCapacity)
    (hrecords : s'.storyRetention = s.storyRetention) :
    HoldsTail capacity storyId history s' := by
  have hstory : s'.storyOf storyId = s.storyOf storyId := by rw [storyOf, hrecords, storyOf]
  refine ⟨hcapacity.trans h.tailCapacity, hstory ▸ h.keeps, fun seq id hget => ?_⟩
  obtain ⟨chunk, e, hchunk, hfind⟩ := h.payload seq id (hstory ▸ hget)
  exact ⟨chunk, e, by rw [chunkAt, retainedAt_congr hrecords]; exact hchunk, hfind⟩

end HoldsTail

/-- A chunk that is taken. -/
theorem ingestSealedChunk_of_taken {chunk : StoryChunk} {now : ℕ} (hne : chunk.empty = false)
    (htaken : (s.pruneDropped now).droppedStories.contains storyId = false) :
    s.ingestSealedChunk storyId chunk now =
      (enforceCapacity
        ((((s.pruneDropped now).adopt storyId chunk now).storyOf storyId).index.size -
          s.tailCapacity)
        ((s.pruneDropped now).adopt storyId chunk now) storyId now).stash
          [(s.nextChunk, chunk)] := by
  unfold ingestSealedChunk
  rw [hne, if_neg Bool.false_ne_true]
  dsimp only
  rw [htaken, if_neg Bool.false_ne_true]
  rfl

/-- **A seal keeps what a tail index is to its history.** -/
theorem HoldsTail.ingestSealedChunk (h : HoldsTail capacity storyId history s)
    (hallocated : s.Allocated) (hindexed : AllIndexedBy Covers s) (chunk : StoryChunk) (now : ℕ) :
    HoldsTail capacity storyId (tailStep storyId s history (.sealChunk chunk, now))
      (s.ingestSealedChunk chunk.storyId chunk now) := by
  have hafter : AllIndexedBy Covers (s.ingestSealedChunk chunk.storyId chunk now) :=
    hindexed.ingestSealedChunk hallocated chunk.storyId chunk now fun _ =>
      StoryRetention.adds_covers chunk
  have hpruned : HoldsTail capacity storyId history (s.pruneDropped now) := h.of_eq rfl rfl
  change HoldsTail capacity storyId
    (if chunk.storyId = storyId ∧ (s.pruneDropped now).droppedStories.contains storyId = false then
      history ++ chunk.events else history) _
  cases hempty : chunk.empty with
  | true =>
    -- the chunk adds nothing to the history either
    have hevents : chunk.events = [] := by
      unfold StoryChunk.events
      rw [Std.ExtTreeMap.isEmpty_iff.mp hempty]
      rfl
    have hsame : s.ingestSealedChunk chunk.storyId chunk now = s.refuse := by
      rw [KeeperChunkRetentionStore.ingestSealedChunk, hempty, if_pos rfl]
    rw [hevents, List.append_nil, ite_self, hsame]
    exact h.of_eq rfl rfl
  | false =>
    cases hdropped : (s.pruneDropped now).droppedStories.contains chunk.storyId with
    | true =>
      have hrefused : s.ingestSealedChunk chunk.storyId chunk now =
          { (s.pruneDropped now).refuse with
            walCalls := s.walCalls ++ [.chunkDiscarded chunk.storyId chunk] } := by
        rw [KeeperChunkRetentionStore.ingestSealedChunk, hempty, if_neg Bool.false_ne_true]
        dsimp only
        rw [hdropped, if_pos rfl]
        rfl
      have hnot : ¬(chunk.storyId = storyId ∧
          (s.pruneDropped now).droppedStories.contains storyId = false) := by
        rintro ⟨hstory, hnone⟩
        rw [← hstory, hdropped] at hnone
        cases hnone
      rw [if_neg hnot, hrefused]
      exact h.of_eq rfl rfl
    | false =>
      rw [ingestSealedChunk_of_taken hempty hdropped] at hafter ⊢
      generalize ht : (s.pruneDropped now).adopt chunk.storyId chunk now = t at hafter ⊢
      have hcapacity : t.tailCapacity = s.tailCapacity := by rw [← ht]; rfl
      have hshrinks := fun fuel => ((frees_enforceCapacity fuel t chunk.storyId now).trans
        (frees_stash _ [(s.nextChunk, chunk)])).toShrinks
      have hevicts := (evicts_enforceCapacity
        ((t.storyOf chunk.storyId).index.size - s.tailCapacity) t chunk.storyId now (by
          rw [Std.ExtTreeMap.length_toList]
          exact Nat.sub_le _ _)).keeps (keepsTails_stash _ [(s.nextChunk, chunk)])
      by_cases hstory : chunk.storyId = storyId
      · rw [hstory] at hdropped ht hevicts hshrinks hafter ⊢
        rw [if_pos ⟨rfl, hdropped⟩]
        have htaken := hpruned.adopt hallocated chunk now
        rw [ht] at htaken
        rw [h.tailCapacity] at hevicts hafter ⊢
        exact htaken.evict (hshrinks _) hafter hevicts
      · rw [if_neg fun hif => hstory hif.1]
        have htaken := hpruned.adopt_of_ne hstory chunk now
        rw [ht] at htaken
        have hindex := hevicts.others storyId hstory
        exact htaken.of_shrinks (hshrinks _) hafter hevicts.tailCapacity
          (hindex ▸ htaken.keeps) fun seq id hget => hindex ▸ hget

/-- What holds of a store in every run: the tail of the story is its history's. -/
structure TailInvariant (capacity : ℕ) (storyId : StoryId) (history : List LogEvent)
    (s : KeeperChunkRetentionStore) : Prop where
  allocated : s.Allocated
  indexed : AllIndexedBy Covers s
  holds : HoldsTail capacity storyId history s

theorem TailInvariant.step (h : TailInvariant capacity storyId history s)
    (l : RetentionStep × ℕ) :
    TailInvariant capacity storyId (tailStep storyId s history l) (l.1.run s l.2) := by
  obtain ⟨x, now⟩ := l
  cases x with
  | sealChunk chunk =>
    refine ⟨h.allocated.ingestSealedChunk chunk.storyId chunk now, ?_,
      h.holds.ingestSealedChunk h.allocated h.indexed chunk now⟩
    exact h.indexed.ingestSealedChunk h.allocated chunk.storyId chunk now fun _ =>
      StoryRetention.adds_covers chunk
  | discardEvent id event => exact ⟨h.allocated, h.indexed.of_eq rfl, h.holds.of_eq rfl rfl⟩
  | call c =>
    have hindexed := h.indexed.call c now
    have hshrinks := shrinks_run s now c
    obtain ⟨hcapacity, hindex⟩ := index_call s now c storyId
    refine ⟨h.allocated.of_shrinks hshrinks, hindexed, ?_⟩
    change HoldsTail capacity storyId (if c.clears storyId then [] else history) (c.run s now)
    by_cases hclears : c.clears storyId = true
    · rw [if_pos hclears] at hindex ⊢
      refine ⟨hcapacity.trans h.holds.tailCapacity, Keeps.of_mem_iff fun seq => ?_,
        fun seq id hget => ?_⟩
      · rw [hindex]
        simp [HasSequence]
      · rw [hindex] at hget
        simp at hget
    · rw [if_neg hclears] at hindex ⊢
      exact h.holds.of_shrinks hshrinks hindexed hcapacity (hindex ▸ h.holds.keeps)
        fun seq id hget => hindex ▸ hget

/-- **The tail index is its history's in every run.** -/
theorem tailInvariant_after (tailCapacity delay ttl : ℕ) (storyId : StoryId)
    (steps : List (RetentionStep × ℕ)) :
    TailInvariant tailCapacity storyId
      (tailHistory storyId (fresh tailCapacity delay ttl) steps)
      ((fresh tailCapacity delay ttl).after steps) := by
  have hrun : (tailRun storyId (fresh tailCapacity delay ttl) steps).1 =
        (fresh tailCapacity delay ttl).after steps ∧
      TailInvariant tailCapacity storyId
        (tailRun storyId (fresh tailCapacity delay ttl) steps).2
        (tailRun storyId (fresh tailCapacity delay ttl) steps).1 := by
    induction steps using List.reverseRecOn with
    | nil =>
      refine ⟨rfl, fun _ _ _ => rfl, fun _ _ hget => by simp [tailRun, fresh] at hget, rfl, ?_, ?_⟩
      · exact Keeps.of_mem_iff fun seq => by simp [tailRun, fresh, storyOf, HasSequence]
      · exact fun seq id hget => by simp [tailRun, fresh, storyOf] at hget
    | append_singleton steps l ih =>
      obtain ⟨hafter, hinv⟩ := ih
      rw [tailRun, after, List.foldl_append, List.foldl_append]
      exact ⟨congrArg (fun s => l.1.run s l.2) hafter, hinv.step l⟩
  rw [← hrun.1]
  exact hrun.2

/-! ### The reads -/

/-- The events that a read finds outside the store. -/
def unsealed (liveTailRead : Bool) (active : Option StoryTimeline) : List LogEvent :=
  if liveTailRead then (active.map StoryPipeline.timelineEvents).getD [] else []

variable {liveTailRead : Bool} {active : Option StoryTimeline} {n : ℕ} {seq : EventSequence}

theorem getSealedTailSequences_eq (s : KeeperChunkRetentionStore) (storyId : StoryId) (n : ℕ) :
    s.getSealedTailSequences storyId n = (s.storyOf storyId).index.keys.drop
      ((s.storyOf storyId).index.keys.length - n) := by
  unfold getSealedTailSequences
  split
  · next hnone =>
    rw [storyOf, hnone]
    exact (List.drop_nil).symm
  · next story hstory =>
    rw [storyOf_of_getElem? hstory, Std.ExtTreeMap.length_keys]
    congr 1
    omega

/-- The sealed half is the end of the history. -/
theorem HoldsTail.isLast (h : HoldsTail capacity storyId history s) (hn : n ≤ capacity) :
    IsLast n (HasSequence history) (s.getSealedTailSequences storyId n) := by
  rw [getSealedTailSequences_eq]
  exact h.keeps.isLast Std.ExtTreeMap.ordered_keys hn

/-- The active half is the end of the timeline. -/
theorem isLast_getActiveTailSequences (hactive : ∀ p ∈ active, p.Invariant) (n : ℕ) :
    IsLast n (HasSequence ((active.map StoryPipeline.timelineEvents).getD []))
      (getActiveTailSequences active n) := by
  cases active with
  | none =>
    refine ⟨List.Pairwise.nil, Nat.zero_le n, fun x hx => (by cases hx), fun x hx => ?_⟩
    obtain ⟨e, he, -⟩ := hx
    cases he
  | some p =>
    change IsLast n (HasSequence (StoryPipeline.timelineEvents p))
      (KeeperStoryPipeline.activeTailSequences p n)
    rw [KeeperStoryPipeline.activeTailSequences_eq]
    have hall : Keeps n (HasSequence (StoryPipeline.timelineEvents p))
        ((StoryPipeline.timelineEvents p).map LogEvent.sequence) :=
      Keeps.of_mem_iff fun seq => by rw [List.mem_map]; rfl
    exact hall.isLast
      (List.pairwise_map.mpr (StoryPipeline.sorted_timelineEvents (hactive p rfl))) le_rfl

/-- **A read of sequences is the end of everything sealed and unsealed.** -/
theorem HoldsTail.isLast_getTailSequences (h : HoldsTail capacity storyId history s)
    (hactive : liveTailRead = true → ∀ p ∈ active, p.Invariant) (hn : n ≤ capacity) :
    IsLast n (HasSequence (history ++ unsealed liveTailRead active))
      (s.getTailSequences liveTailRead active storyId n) := by
  have hsealed := h.isLast hn
  cases liveTailRead with
  | false =>
    rw [unsealed, if_neg Bool.false_ne_true, List.append_nil]
    exact hsealed
  | true =>
    have hunsealed := isLast_getActiveTailSequences (hactive rfl) n
    have hboth : ∀ x, HasSequence history x ∨
        HasSequence ((active.map StoryPipeline.timelineEvents).getD []) x ↔
          HasSequence (history ++ unsealed true active) x := by
      intro x
      simp only [unsealed, if_true, HasSequence, List.mem_append, or_and_right, exists_or]
    have hunion : ∀ u, (∀ x, x ∈ u ↔ x ∈ s.getSealedTailSequences storyId n ∨
        x ∈ getActiveTailSequences active n) → Keeps n (fun x => HasSequence history x ∨
          HasSequence ((active.map StoryPipeline.timelineEvents).getD []) x) u :=
      fun u hu => hsealed.keeps.union hunsealed.keeps (Greatest.nodup_of_sorted hsealed.sorted)
        (Greatest.nodup_of_sorted hunsealed.sorted) hu
    refine IsLast.congr ?_ hboth
    unfold getTailSequences
    dsimp only
    rw [Bool.not_true, if_neg Bool.false_ne_true]
    split
    · next hnone =>
      have hkept := hunion (s.getSealedTailSequences storyId n) fun x => by
        rw [List.isEmpty_iff.mp hnone]
        simp
      have hlast := hkept.isLast hsealed.sorted (le_refl n)
      rwa [Nat.sub_eq_zero_of_le hsealed.length_le, List.drop_zero] at hlast
    · generalize hmerged : (Std.ExtTreeSet.ofList (s.getSealedTailSequences storyId n ++
        getActiveTailSequences active n) compare : OrdSet EventSequence) = merged
      have hkept := hunion merged.toList fun x => by
        rw [Std.ExtTreeSet.mem_toList, ← hmerged, Std.ExtTreeSet.mem_ofList,
          List.contains_iff_mem, List.mem_append]
      have hlast := hkept.isLast Std.ExtTreeSet.ordered_toList (le_refl n)
      rw [Std.ExtTreeSet.length_toList] at hlast
      have hdrop : merged.size - min n merged.size = merged.size - n := by omega
      rwa [hdrop]

/-! ### The payloads -/

/-- The index finds a payload of the history for each event it holds, and no other. -/
theorem HoldsTail.sealedTailEvent_eq (h : HoldsTail capacity storyId history s)
    (seq : EventSequence) :
    (seq ∉ (s.storyOf storyId).index ∧ s.sealedTailEvent storyId seq = none) ∨
      ∃ e ∈ history, e.sequence = seq ∧ s.sealedTailEvent storyId seq = some e := by
  have hfind : s.sealedTailEvent storyId seq = ((s.storyOf storyId).index[seq]?).bind fun id =>
      (s.chunkAt storyId id).bind fun chunk => chunk.logEvents[seq]? := by
    unfold sealedTailEvent chunkAt
    simp only [retainedAt_eq_storyOf, Option.bind_map, Function.comp_def]
    cases hstory : s.storyRetention[storyId]? with
    | none => simp [storyOf, hstory]
    | some story => simp [storyOf_of_getElem? hstory]
  rw [hfind]
  cases hget : (s.storyOf storyId).index[seq]? with
  | none =>
    refine Or.inl ⟨fun hmem => ?_, rfl⟩
    rw [Std.ExtTreeMap.mem_iff_isSome_getElem?, hget] at hmem
    cases hmem
  | some id =>
    obtain ⟨chunk, e, hchunk, hevent, he⟩ := h.payload seq id hget
    refine Or.inr ⟨e, he, (chunk.held seq e hevent).1, ?_⟩
    rw [Option.bind_some, hchunk, Option.bind_some, hevent]

/-- What a search returns for some sequences has those it finds something for. -/
theorem map_sequence_filterMap {f : EventSequence → Option LogEvent}
    (hf : ∀ seq e, f seq = some e → e.sequence = seq) (seqs : List EventSequence) :
    (seqs.filterMap f).map LogEvent.sequence = seqs.filter fun seq => (f seq).isSome := by
  induction seqs with
  | nil => rfl
  | cons seq seqs ih =>
    cases hseq : f seq with
    | none => rw [List.filterMap_cons_none hseq, List.filter_cons_of_neg (by simp [hseq]), ih]
    | some e =>
      rw [List.filterMap_cons_some hseq, List.filter_cons_of_pos (by simp [hseq]), List.map_cons,
        ih, hf seq e hseq]

/-- A sequence that is read is in one of the halves. -/
theorem mem_getTailSequences (hseq : seq ∈ s.getTailSequences liveTailRead active storyId n) :
    seq ∈ s.getSealedTailSequences storyId n ∨
      liveTailRead = true ∧ seq ∈ getActiveTailSequences active n := by
  unfold getTailSequences at hseq
  dsimp only at hseq
  split at hseq
  · exact Or.inl hseq
  · next hlive =>
    split at hseq
    · exact Or.inl hseq
    · have hmem := List.mem_of_mem_drop hseq
      rw [Std.ExtTreeSet.mem_toList, Std.ExtTreeSet.mem_ofList, List.contains_iff_mem,
        List.mem_append] at hmem
      exact hmem.imp id fun hactive => ⟨by simpa using hlive, hactive⟩

/-- A sequence of the second half that the index does not hold is in the timeline. -/
theorem mem_timeline (hactive : liveTailRead = true → ∀ p ∈ active, p.Invariant)
    (hseq : seq ∈ s.getTailSequences liveTailRead active storyId n)
    (hmiss : seq ∉ (s.storyOf storyId).index) :
    ∃ e ∈ unsealed liveTailRead active, e.sequence = seq ∧ liveTailRead = true ∧
      activeTailEvent active seq = some e := by
  have hnot : seq ∉ s.getSealedTailSequences storyId n := by
    rw [getSealedTailSequences_eq]
    exact fun hmem => hmiss (Std.ExtTreeMap.mem_keys.mp (List.mem_of_mem_drop hmem))
  obtain ⟨rfl, hhalf⟩ := (mem_getTailSequences hseq).resolve_left hnot
  cases active with
  | none => cases hhalf
  | some p =>
    obtain ⟨e, he, rfl⟩ := (isLast_getActiveTailSequences (hactive rfl) n).mem seq hhalf
    exact ⟨e, he, rfl, rfl, KeeperStoryPipeline.findActiveEvent_of_mem (hactive rfl p rfl) he⟩

/-- **The payloads of a read**: one for each sequence, of an event sealed or unsealed. -/
theorem HoldsTail.payloads (h : HoldsTail capacity storyId history s)
    (hactive : liveTailRead = true → ∀ p ∈ active, p.Invariant) (n : ℕ) :
    ((s.getTailEvents liveTailRead active storyId
        (s.getTailSequences liveTailRead active storyId n)).map LogEvent.sequence).Perm
      (s.getTailSequences liveTailRead active storyId n) ∧
      ∀ e ∈ s.getTailEvents liveTailRead active storyId
        (s.getTailSequences liveTailRead active storyId n),
        e ∈ history ++ unsealed liveTailRead active := by
  have hindexed : ∀ seq e, s.sealedTailEvent storyId seq = some e →
      e.sequence = seq ∧ e ∈ history := by
    intro seq e hfind
    rcases h.sealedTailEvent_eq seq with ⟨-, hnone⟩ | ⟨e', he', hseq, hsome⟩
    · rw [hnone] at hfind
      cases hfind
    · rw [hsome, Option.some.injEq] at hfind
      exact hfind ▸ ⟨hseq, he'⟩
  have hmissed : ∀ seq ∈ s.getTailSequences liveTailRead active storyId n,
      s.sealedTailEvent storyId seq = none →
      ∃ e ∈ unsealed liveTailRead active, e.sequence = seq ∧ liveTailRead = true ∧
        activeTailEvent active seq = some e := by
    intro seq hseq hnone
    rcases h.sealedTailEvent_eq seq with ⟨hmiss, -⟩ | ⟨e, -, -, hsome⟩
    · exact mem_timeline hactive hseq hmiss
    · rw [hsome] at hnone
      cases hnone
  generalize s.getTailSequences liveTailRead active storyId n = seqs at hmissed ⊢
  have hfound := map_sequence_filterMap (fun seq e he => (hindexed seq e he).1) seqs
  unfold getTailEvents
  dsimp only
  generalize hmisses : seqs.filter (fun seq => (s.sealedTailEvent storyId seq).isNone) = misses
  have hmiss : ∀ seq ∈ misses, ∃ e ∈ unsealed liveTailRead active, e.sequence = seq ∧
      liveTailRead = true ∧ activeTailEvent active seq = some e := by
    intro seq hseq
    rw [← hmisses, List.mem_filter, Option.isNone_iff_eq_none] at hseq
    exact hmissed seq hseq.1 hseq.2
  -- every miss is found in the timeline
  have hrest : (if liveTailRead then misses.filterMap (activeTailEvent active) else []).map
        LogEvent.sequence = misses ∧
      ∀ e ∈ (if liveTailRead then misses.filterMap (activeTailEvent active) else []),
        e ∈ unsealed liveTailRead active := by
    clear hmisses
    induction misses with
    | nil => simp
    | cons seq misses ih =>
      obtain ⟨e, he, hseq, rfl, hfind⟩ := hmiss seq List.mem_cons_self
      have hih := ih fun seq' hseq' => hmiss seq' (List.mem_cons_of_mem _ hseq')
      rw [if_pos rfl] at hih ⊢
      rw [List.filterMap_cons_some hfind, List.map_cons, hih.1, hseq]
      refine ⟨rfl, fun e' he' => ?_⟩
      rcases List.mem_cons.mp he' with rfl | he'
      · exact he
      · exact hih.2 e' he'
  refine ⟨?_, fun e he => ?_⟩
  · rw [List.map_append, hfound, hrest.1, ← hmisses]
    simp only [← Option.not_isSome]
    exact List.filter_append_perm _ seqs
  · rcases List.mem_append.mp he with he | he
    · obtain ⟨seq, -, hfind⟩ := List.mem_filterMap.mp he
      exact List.mem_append_left _ (hindexed seq e hfind).2
    · exact List.mem_append_right _ (hrest.2 e he)

/-! ### Tail reads -/

/-- **A read of a story's tail is its true end.**  In every run, for at most as many events as
the tail may hold, the first phase returns the greatest sequences of all events sealed since
the tail was started over and, with `live_tail_read`, of those in the timeline, in ascending
order; which they are depends on the sealed sequences only, not on the order of the seals or
on what was evicted meanwhile; and the second phase returns a payload for each. -/
theorem tail_reads (tailCapacity delay ttl : ℕ) (steps : List (RetentionStep × ℕ))
    (storyId : StoryId) (liveTailRead : Bool) (active : Option StoryTimeline)
    (hactive : liveTailRead = true → ∀ p ∈ active, p.Invariant) {n : ℕ} (hn : n ≤ tailCapacity) :
    let start := fresh tailCapacity delay ttl
    let events := tailHistory storyId start steps ++ unsealed liveTailRead active
    let seqs := (start.after steps).getTailSequences liveTailRead active storyId n
    let payloads := (start.after steps).getTailEvents liveTailRead active storyId seqs
    IsLast n (HasSequence events) seqs ∧
      ((payloads.map LogEvent.sequence).Perm seqs ∧ ∀ e ∈ payloads, e ∈ events) ∧
      ∀ steps', (∀ seq, HasSequence (tailHistory storyId start steps') seq ↔
          HasSequence (tailHistory storyId start steps) seq) →
        (start.after steps').getTailSequences liveTailRead active storyId n = seqs := by
  have h := fun steps => (tailInvariant_after tailCapacity delay ttl storyId steps).holds
  have hlast := fun steps => (h steps).isLast_getTailSequences hactive hn
  refine ⟨hlast steps, (h steps).payloads hactive n, fun steps' hsame => ?_⟩
  refine ((hlast steps').congr fun seq => ?_).eq (hlast steps)
  simp only [HasSequence, List.mem_append, or_and_right, exists_or] at hsame ⊢
  exact or_congr_left (hsame seq)

/-- Three chunks of story 7 out of order, the last one with an event of the first. -/
def outOfOrder : List (RetentionStep × ℕ) :=
  [(.sealChunk (oneEventChunk 15 30 20), 0), (.sealChunk (oneEventChunk 0 15 10), 1),
    (.sealChunk (oneEventChunk 10 25 20), 2)]

/-- The two events of the three chunks, read in both ways. -/
theorem tail_reads_outOfOrder :
    IsLast 2 (HasSequence (tailHistory 7 (fresh 2 0 0) outOfOrder ++
        unsealed true (some StoryTimeline.secondWindows)))
      (((fresh 2 0 0).after outOfOrder).getTailSequences true
        (some StoryTimeline.secondWindows) 7 2) :=
  (tail_reads 2 0 0 outOfOrder 7 true (some StoryTimeline.secondWindows)
    (fun _ p hp => Option.mem_some.mp hp ▸ StoryTimeline.invariant_secondWindows) (by decide)).1

/-- A destroy of story 7, and a chunk of it that is sealed behind. -/
def destroyedThenSealed : List (RetentionStep × ℕ) :=
  [(.call (.applyReport 7 { watermark := kStoryDroppedWatermark }), 0),
    (.sealChunk (oneEventChunk 0 15 10), 1)]

/-- **A destroyed story has no tail**: while the drop is remembered the chunks that are sealed
are discarded, so a read does not find their events. -/
theorem destroyed_story_has_no_tail :
    ¬IsLast 1 (HasSequence (oneEventChunk 0 15 10).events)
      (((fresh 1 0 600000).after destroyedThenSealed).getTailSequences false none 7 1) := by
  intro h
  have hnone :
      ((fresh 1 0 600000).after destroyedThenSealed).getTailSequences false none 7 1 = [] := by
    decide +kernel
  rw [hnone] at h
  have hfull := (h.top (eventAt 10).sequence ⟨eventAt 10, by decide +kernel, rfl⟩ (by simp)).1
  cases hfull

end KeeperChunkRetentionStore

end ChronoLog
