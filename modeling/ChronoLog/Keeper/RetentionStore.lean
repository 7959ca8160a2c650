import ChronoLog.Event
import ChronoLog.Grapher.WatermarkRegistry

/-!
# The keeper's chunk retention store

`KeeperChunkRetentionStore` owns every sealed chunk of a keeper from the moment
the pipeline seals it until its events are confirmed durable.  A chunk is freed
when the grapher acknowledged it, settled its receipt and reported a watermark
past its end, the tail index holds none of its events and it is not queued.

Every method runs under the store's one mutex, so a method is one step here.
The clock is an argument of the methods that read it.  A chunk on the heap is
named by the number of its allocation.  What the source only logs, and the cap
that only warns, is left out.

## Main definitions

* `KeeperChunkRetentionStore` — the state, with one definition per method of the
  source under the source's name.
* `WalCall` — what the store tells its `WalObserver`.
* `HotRangeResponse`, `KeeperChunkRetentionStore.fetchRange` — a keeper's answer
  to a replay.
-/

namespace ChronoLog

/-- A chunk on the keeper's heap (`StoryChunk*`). -/
abbrev ChunkId := ℕ

/-- The calls of `WalObserver`. -/
inductive WalCall where
  | chunkWritten (storyId : StoryId) (id : ChunkId) (chunk : StoryChunk)
  | chunkDiscarded (storyId : StoryId) (chunk : StoryChunk)
  | eventDiscarded (storyId : StoryId) (event : EventSequence)
  | storyDropped (storyId : StoryId)

/-- A keeper's answer to a replay of a range. -/
structure HotRangeResponse where
  events : List LogEvent := []
  unconfirmedEvents : List LogEvent := []
  /-- Oldest retained tick; the largest 64-bit number if none is retained. -/
  hotFloor : ℕ := 2 ^ 64 - 1
  knownW : ℕ := 0
  truncated : Bool := false
  answered : Bool := true
  deriving DecidableEq, Repr

namespace KeeperChunkRetentionStore

/-- What the store knows about a chunk. -/
structure ChunkState where
  /-- Number of the chunk's events still in the tail index. -/
  indexedCount : ℕ := 0
  /-- The grapher acknowledged a transfer of the chunk at least once. -/
  shipped : Bool := false
  /-- The chunk sits in the extraction queue. -/
  inQueue : Bool := false
  approxBytes : ℕ := 0
  lastActivity : ℕ := 0
  /-- The receipt of the last successful delivery, `0` if there is none. -/
  receiptInstance : ℕ := 0
  receipt : ℕ := 0
  /-- The keeper has seen the chunk shipped under a settled receipt, and when. -/
  written : Bool := false
  writtenAt : ℕ := 0
  /-- The WAL was told that the chunk is confirmed written. -/
  walReleased : Bool := false
  deriving DecidableEq, Repr

/-- A chunk with what the store knows about it. -/
structure RetainedChunk where
  chunk : StoryChunk
  state : ChunkState

/-- What the store holds of one story. -/
structure StoryRetention where
  /-- The sorted last-N tail. -/
  index : OrdMap EventSequence ChunkId := ∅
  chunks : OrdMap ChunkId RetainedChunk := ∅
  /-- Highest persisted watermark the grapher reported for the story. -/
  knownW : ℕ := 0
  /-- The receipt view of the reports: the receipts of `reportInstance` up to
  `highestReceipt` are written, except `pendingReceipts`. -/
  reportInstance : ℕ := 0
  highestReceipt : ℕ := 0
  pendingReceipts : OrdSet ℕ := ∅

end KeeperChunkRetentionStore

open KeeperChunkRetentionStore

/-- The store's state. -/
structure KeeperChunkRetentionStore where
  tailCapacity : ℕ
  archiveVisibilityDelay : ℕ := 0
  droppedStoryTtl : ℕ := 600000
  retainedBytes : ℕ := 0
  /-- The part of `retainedBytes` of chunks the WAL was not told about. -/
  unconfirmedBytes : ℕ := 0
  /-- When the grapher reported each destroyed story. -/
  droppedStories : OrdMap StoryId ℕ := ∅
  storyRetention : OrdMap StoryId StoryRetention := ∅
  /-- The next allocation of a chunk. -/
  nextChunk : ChunkId := 0
  /-- The extraction queue. -/
  extractionQueue : List (ChunkId × StoryChunk) := []
  /-- What the WAL observer was told, in order. -/
  walCalls : List WalCall := []
  /-- The chunks the store deleted, in order. -/
  deleted : List ChunkId := []

namespace KeeperChunkRetentionStore

/-- The store of a keeper that starts. -/
def fresh (tailCapacity archiveVisibilityDelay droppedStoryTtl : ℕ) :
    KeeperChunkRetentionStore :=
  { tailCapacity, archiveVisibilityDelay, droppedStoryTtl }

/-- `approxChunkBytes`: the payload and an estimate of the bookkeeping. -/
def approxChunkBytes (chunk : StoryChunk) : ℕ :=
  (chunk.events.map fun e => e.logRecord.length + 64).sum

/-- `receiptSettled`: the story's receipt view says the chunk's last delivery is
written, or there was no grapher on its path. -/
def receiptSettled (story : StoryRetention) (state : ChunkState) : Bool :=
  state.receipt == 0 ||
    (state.receiptInstance == story.reportInstance &&
      decide (state.receipt ≤ story.highestReceipt) &&
      !story.pendingReceipts.contains state.receipt)

/-- `confirmedWritten`: acknowledged, settled, and covered by W. -/
def confirmedWritten (story : StoryRetention) (chunk : StoryChunk) (state : ChunkState) : Bool :=
  state.shipped && receiptSettled story state && decide (chunk.endTime ≤ story.knownW)

/-- The state with the first sighting that `visibleInArchive` records. -/
def sighted (story : StoryRetention) (state : ChunkState) (now : ℕ) : ChunkState :=
  if !state.shipped || !receiptSettled story state || state.written then state
  else { state with written := true, writtenAt := now }

/-- `visibleInArchive`, on the state with the sighting recorded. -/
def visibleInArchive (delay : ℕ) (story : StoryRetention) (state : ChunkState) (now : ℕ) :
    Bool :=
  state.shipped && receiptSettled story state &&
    decide (delay ≤ now - (sighted story state now).writtenAt)

/-- `mergeReceipts`: folds a report into the story's receipt view.  Reports of one
grapher instance combine in any order; another instance replaces the view. -/
def mergeReceipts (story : StoryRetention) (report : StoryWatermarkReport) : StoryRetention :=
  let reportedPending : OrdSet ℕ := Std.ExtTreeSet.ofList report.pendingReceipts
  if report.grapherInstance ≠ story.reportInstance then
    { story with
      reportInstance := report.grapherInstance
      highestReceipt := report.highestReceipt
      pendingReceipts := reportedPending }
  else
    { story with
      highestReceipt := max story.highestReceipt report.highestReceipt
      pendingReceipts := Std.ExtTreeSet.ofList
        ((story.pendingReceipts.toList.filter fun receipt =>
            decide (receipt > report.highestReceipt) || reportedPending.contains receipt) ++
          reportedPending.toList.filter fun receipt => receipt > story.highestReceipt) }

/-- The retention record of a story, empty for a story that has none. -/
def storyOf (s : KeeperChunkRetentionStore) (storyId : StoryId) : StoryRetention :=
  s.storyRetention[storyId]?.getD {}

/-- Replace the retention record of a story. -/
def setStory (s : KeeperChunkRetentionStore) (storyId : StoryId) (story : StoryRetention) :
    KeeperChunkRetentionStore :=
  { s with storyRetention := s.storyRetention.insert storyId story }

/-- `forgetUnconfirmed`. -/
def forgetUnconfirmed (s : KeeperChunkRetentionStore) (state : ChunkState) :
    KeeperChunkRetentionStore :=
  { s with unconfirmedBytes := s.unconfirmedBytes - min state.approxBytes s.unconfirmedBytes }

/-- Take a chunk that goes out of `retainedBytes`. -/
def forgetRetained (s : KeeperChunkRetentionStore) (state : ChunkState) :
    KeeperChunkRetentionStore :=
  { s with retainedBytes := s.retainedBytes - min state.approxBytes s.retainedBytes }

/-- `delete` of a chunk. -/
def deleteChunk (s : KeeperChunkRetentionStore) (id : ChunkId) : KeeperChunkRetentionStore :=
  { s with deleted := s.deleted ++ [id] }

/-- The part of `maybeFreeChunk` that tells the WAL, the first time the chunk is
confirmed written. -/
def tellWritten (s : KeeperChunkRetentionStore) (story : StoryRetention) (id : ChunkId)
    (chunk : StoryChunk) (state : ChunkState) : KeeperChunkRetentionStore :=
  if !state.walReleased && confirmedWritten story chunk state then
    { s.forgetUnconfirmed state with
      walCalls := s.walCalls ++ [.chunkWritten chunk.storyId id chunk] }
  else s

/-- The state with the mark that `tellWritten` leaves. -/
def released (story : StoryRetention) (chunk : StoryChunk) (state : ChunkState) : ChunkState :=
  { state with walReleased := state.walReleased || confirmedWritten story chunk state }

/-- The free condition: visible in the archive, not queued, not indexed, and
covered by the known watermark. -/
def freeable (delay : ℕ) (story : StoryRetention) (chunk : StoryChunk) (state : ChunkState)
    (now : ℕ) : Bool :=
  visibleInArchive delay story state now && !state.inQueue && state.indexedCount == 0 &&
    decide (chunk.endTime ≤ story.knownW)

/-- `maybeFreeChunk`: records the sighting, tells the WAL, and frees the chunk if
the free condition allows it. -/
def maybeFreeChunk (s : KeeperChunkRetentionStore) (storyId : StoryId) (id : ChunkId)
    (now : ℕ) : KeeperChunkRetentionStore :=
  match s.storyRetention[storyId]? with
  | none => s
  | some story =>
    match story.chunks[id]? with
    | none => s
    | some ⟨chunk, state⟩ =>
      let state := sighted story state now
      let s := s.tellWritten story id chunk state
      let state := released story chunk state
      if freeable s.archiveVisibilityDelay story chunk state now then
        let s := s.forgetRetained state
        let s := if state.walReleased then s else s.forgetUnconfirmed state
        (s.setStory storyId { story with chunks := story.chunks.erase id }).deleteChunk id
      else
        s.setStory storyId { story with chunks := story.chunks.insert id ⟨chunk, state⟩ }

/-- `maybeFreeChunk` for every chunk of the story. -/
def maybeFreeChunks (s : KeeperChunkRetentionStore) (storyId : StoryId) (now : ℕ) :
    KeeperChunkRetentionStore :=
  (s.storyOf storyId).chunks.keys.foldl (fun s id => s.maybeFreeChunk storyId id now) s

/-- `enforceCapacity`: evicts the oldest events of the tail; `fuel` counts the
events over the capacity. -/
def enforceCapacity : ℕ → KeeperChunkRetentionStore → StoryId → ℕ → KeeperChunkRetentionStore
  | 0, s, _, _ => s
  | fuel + 1, s, storyId, now =>
    let story := s.storyOf storyId
    match story.index.toList.head? with
    | none => s
    | some (oldest, id) =>
      let story : StoryRetention := { story with index := story.index.erase oldest }
      let s := match story.chunks[id]? with
        | some ⟨chunk, state⟩ =>
          if state.indexedCount > 0 then
            let state := { state with indexedCount := state.indexedCount - 1 }
            let s := s.setStory storyId
              { story with chunks := story.chunks.insert id ⟨chunk, state⟩ }
            if state.indexedCount == 0 then s.maybeFreeChunk storyId id now else s
          else s.setStory storyId story
        | none => s.setStory storyId story
      enforceCapacity fuel s storyId now

/-- The prune of `storyWasDropped`: forgets the drops older than the TTL. -/
def pruneDropped (s : KeeperChunkRetentionStore) (now : ℕ) : KeeperChunkRetentionStore :=
  { s with
    droppedStories := s.droppedStories.filter fun _ at_ => decide (now - at_ < s.droppedStoryTtl) }

/-- `stashStoryChunk` on the extraction queue. -/
def stash (s : KeeperChunkRetentionStore) (chunks : List (ChunkId × StoryChunk)) :
    KeeperChunkRetentionStore :=
  { s with extractionQueue := s.extractionQueue ++ chunks }

/-- The state of a chunk that was just sealed. -/
def sealedState (chunk : StoryChunk) (now : ℕ) : ChunkState where
  indexedCount := chunk.getEventCount
  approxBytes := approxChunkBytes chunk
  inQueue := true
  lastActivity := now

/-- The part of `ingestSealedChunk` that takes the chunk into the story. -/
def adopt (s : KeeperChunkRetentionStore) (storyId : StoryId) (chunk : StoryChunk) (now : ℕ) :
    KeeperChunkRetentionStore :=
  let story := s.storyOf storyId
  let state := sealedState chunk now
  let id := s.nextChunk
  { s with
    nextChunk := id + 1
    retainedBytes := s.retainedBytes + state.approxBytes
    unconfirmedBytes := s.unconfirmedBytes + state.approxBytes
    storyRetention := s.storyRetention.insert storyId
      { story with
        chunks := story.chunks.insert id ⟨chunk, state⟩
        index := chunk.events.foldl (fun index e => index.insert e.sequence id) story.index } }

/-- A sealed chunk is deleted as it arrives. -/
def refuse (s : KeeperChunkRetentionStore) : KeeperChunkRetentionStore :=
  { s.deleteChunk s.nextChunk with nextChunk := s.nextChunk + 1 }

/-- `ingestSealedChunk`: takes a sealed chunk, or discards it if its story was
destroyed. -/
def ingestSealedChunk (s : KeeperChunkRetentionStore) (storyId : StoryId) (chunk : StoryChunk)
    (now : ℕ) : KeeperChunkRetentionStore :=
  if chunk.empty then s.refuse
  else
    let s := s.pruneDropped now
    if s.droppedStories.contains storyId then
      { s.refuse with walCalls := s.walCalls ++ [.chunkDiscarded storyId chunk] }
    else
      let id := s.nextChunk
      let s := s.adopt storyId chunk now
      let excess := (s.storyOf storyId).index.size - s.tailCapacity
      (enforceCapacity excess s storyId now).stash [(id, chunk)]

/-- Change the state of a tracked chunk, then check the free condition.  A chunk
that is not tracked any more is deleted. -/
def updateChunk (s : KeeperChunkRetentionStore) (storyId : StoryId) (id : ChunkId)
    (f : ChunkState → ChunkState) (now : ℕ) : KeeperChunkRetentionStore :=
  match s.storyRetention[storyId]? with
  | none => s.deleteChunk id
  | some story =>
    match story.chunks[id]? with
    | none => s.deleteChunk id
    | some ⟨chunk, state⟩ =>
      (s.setStory storyId { story with chunks := story.chunks.insert id ⟨chunk, f state⟩ })
        |>.maybeFreeChunk storyId id now

/-- `markShipped`: the grapher acknowledged the chunk with this receipt. -/
def markShipped (s : KeeperChunkRetentionStore) (storyId : StoryId) (id : ChunkId)
    (grapherInstance receipt : ℕ) (now : ℕ) : KeeperChunkRetentionStore :=
  s.updateChunk storyId id
    (fun state =>
      { state with
        shipped := true
        inQueue := false
        lastActivity := now
        receiptInstance := grapherInstance
        receipt := receipt })
    now

/-- `markSendFailed`: the transfer failed; the chunk stays retained. -/
def markSendFailed (s : KeeperChunkRetentionStore) (storyId : StoryId) (id : ChunkId)
    (now : ℕ) : KeeperChunkRetentionStore :=
  s.updateChunk storyId id (fun state => { state with inQueue := false, lastActivity := now }) now

/-- What `dropStory` does with one chunk of the story.  A queued chunk is left to
the drain callback, which finds it untracked. -/
def dropChunk (s : KeeperChunkRetentionStore) (entry : ChunkId × RetainedChunk) :
    KeeperChunkRetentionStore :=
  let s := s.forgetRetained entry.2.state
  let s := if entry.2.state.walReleased then s else s.forgetUnconfirmed entry.2.state
  if entry.2.state.inQueue then s else s.deleteChunk entry.1

/-- `dropStory`: the grapher destroyed the story.  Its chunks go, written or not. -/
def dropStory (s : KeeperChunkRetentionStore) (storyId : StoryId) (now : ℕ) :
    KeeperChunkRetentionStore :=
  let s :=
    { s with
      droppedStories := s.droppedStories.insert storyId now
      walCalls := s.walCalls ++ [.storyDropped storyId] }
  match s.storyRetention[storyId]? with
  | none => s
  | some story =>
    let s := story.chunks.toList.foldl dropChunk s
    { s with storyRetention := s.storyRetention.erase storyId }

/-- `applyReport`: the grapher's report for one story. -/
def applyReport (s : KeeperChunkRetentionStore) (storyId : StoryId)
    (report : StoryWatermarkReport) (now : ℕ) : KeeperChunkRetentionStore :=
  if report.watermark = kStoryDroppedWatermark then s.dropStory storyId now
  else
    let story := s.storyOf storyId
    let story :=
      if report.watermark < story.knownW then story else { story with knownW := report.watermark }
    let story := if report.grapherInstance ≠ 0 then mergeReceipts story report else story
    (s.setStory storyId story).maybeFreeChunks storyId now

/-- `confirmPersisted`: a watermark without receipt information. -/
def confirmPersisted (s : KeeperChunkRetentionStore) (storyId : StoryId) (w now : ℕ) :
    KeeperChunkRetentionStore :=
  s.applyReport storyId { watermark := w } now

/-- `freeDurableChunks`: frees every chunk the free condition allows now. -/
def freeDurableChunks (s : KeeperChunkRetentionStore) (now : ℕ) : KeeperChunkRetentionStore :=
  s.storyRetention.keys.foldl (fun s storyId => s.maybeFreeChunks storyId now) s

/-- Whether `requeueStalled` sends the chunk again. -/
def stalled (story : StoryRetention) (retained : RetainedChunk) (maxAge now : ℕ) : Bool :=
  !(retained.state.inQueue || confirmedWritten story retained.chunk retained.state) &&
    !(retained.state.shipped && retained.state.receipt ≠ 0 &&
      receiptSettled story retained.state) &&
    decide (maxAge ≤ now - retained.state.lastActivity)

/-- The chunks of every story that `p` picks. -/
def pickChunks (s : KeeperChunkRetentionStore) (p : StoryRetention → RetainedChunk → Bool) :
    List (StoryId × ChunkId × StoryChunk) :=
  s.storyRetention.toList.flatMap fun entry =>
    (entry.2.chunks.toList.filter fun chunk => p entry.2 chunk.2).map fun chunk =>
      (entry.1, chunk.1, chunk.2.chunk)

/-- Change the state of every chunk that `p` picks. -/
def markPicked (s : KeeperChunkRetentionStore) (p : StoryRetention → RetainedChunk → Bool)
    (f : ChunkState → ChunkState) : KeeperChunkRetentionStore :=
  { s with
    storyRetention := s.storyRetention.map fun _ story =>
      { story with
        chunks := story.chunks.map fun _ retained =>
          if p story retained then { retained with state := f retained.state } else retained } }

/-- `requeueStalled`: sends again what is neither queued nor confirmed and has
seen no activity for `maxAge`. -/
def requeueStalled (s : KeeperChunkRetentionStore) (maxAge now : ℕ) : KeeperChunkRetentionStore :=
  let p := fun story retained => stalled story retained maxAge now
  (s.markPicked p fun state => { state with inQueue := true, lastActivity := now }).stash
    ((s.pickChunks p).map Prod.snd)

/-- `flushUnshippedChunks`: hands every chunk that is not shipped to the queue. -/
def flushUnshippedChunks (s : KeeperChunkRetentionStore) : KeeperChunkRetentionStore :=
  let p := fun (_ : StoryRetention) (retained : RetainedChunk) =>
    !(retained.state.inQueue || retained.state.shipped)
  (s.markPicked p fun state => { state with inQueue := true }).stash
    ((s.pickChunks p).map Prod.snd)

/-- `releaseStoryTail`: the story is no longer recorded here, so its tail goes. -/
def releaseStoryTail (s : KeeperChunkRetentionStore) (storyId : StoryId) (now : ℕ) :
    KeeperChunkRetentionStore :=
  match s.storyRetention[storyId]? with
  | none => s
  | some story =>
    (s.setStory storyId
      { story with
        index := ∅
        chunks := story.chunks.map fun _ retained =>
          { retained with state := { retained.state with indexedCount := 0 } } })
      |>.maybeFreeChunks storyId now

/-- `clearDroppedStory`: the keeper is recording this story again. -/
def clearDroppedStory (s : KeeperChunkRetentionStore) (storyId : StoryId) :
    KeeperChunkRetentionStore :=
  { s with droppedStories := s.droppedStories.erase storyId }

/-- What the destructor does with one chunk.  The queue frees the pointers it
holds, and a chunk that was never shipped is handed to it. -/
def destructChunk (s : KeeperChunkRetentionStore) (entry : ChunkId × RetainedChunk) :
    KeeperChunkRetentionStore :=
  if entry.2.state.inQueue then s
  else if !entry.2.state.shipped then s.stash [(entry.1, entry.2.chunk)]
  else s.deleteChunk entry.1

/-- `~KeeperChunkRetentionStore`. -/
def destructor (s : KeeperChunkRetentionStore) : KeeperChunkRetentionStore :=
  let s := s.storyRetention.toList.foldl
    (fun s entry => entry.2.chunks.toList.foldl destructChunk s) s
  { s with
    storyRetention := s.storyRetention.map fun _ story => { story with chunks := ∅, index := ∅ } }

/-- `eventDiscarded`: the pipeline dropped an event it could not place. -/
def eventDiscarded (s : KeeperChunkRetentionStore) (storyId : StoryId) (event : EventSequence) :
    KeeperChunkRetentionStore :=
  { s with walCalls := s.walCalls ++ [.eventDiscarded storyId event] }

/-- `knownPersisted`: the story's watermark here, `0` if it is unknown. -/
def knownPersisted (s : KeeperChunkRetentionStore) (storyId : StoryId) : ℕ :=
  (s.storyOf storyId).knownW

/-! ### A keeper's answer to a replay -/

/-- Add the events of one chunk to the merged range; a copy in any chunk visible
in the archive is enough for the archive to have it. -/
def mergeRange (acknowledged : Bool) (merged : OrdMap EventSequence (LogEvent × Bool)) :
    List LogEvent → OrdMap EventSequence (LogEvent × Bool)
  | [] => merged
  | e :: es =>
    let entry := (merged[e.sequence]?).getD (e, acknowledged)
    mergeRange acknowledged (merged.insert e.sequence (entry.1, entry.2 || acknowledged)) es

/-- The loop that serves the merged range, up to `maxEvents` events. -/
def serve (knownW maxEvents : ℕ) :
    List (LogEvent × Bool) → ℕ → HotRangeResponse → HotRangeResponse
  | [], _, response => response
  | (e, acknowledged) :: rest, served, response =>
    if acknowledged && decide (e.time < knownW) then serve knownW maxEvents rest served response
    else if served ≥ maxEvents then { response with truncated := true }
    else if acknowledged then
      serve knownW maxEvents rest (served + 1) { response with events := response.events ++ [e] }
    else
      serve knownW maxEvents rest (served + 1)
        { response with unconfirmedEvents := response.unconfirmedEvents ++ [e] }

/-- The oldest tick of the chunks, the largest 64-bit number if there is none. -/
def hotFloor : List StoryChunk → ℕ
  | [] => 2 ^ 64 - 1
  | chunk :: chunks =>
    if !chunk.empty && decide (chunk.firstEventTime < hotFloor chunks) then chunk.firstEventTime
    else hotFloor chunks

/-- The events of the range in the story's chunks, with whether a chunk visible in
the archive holds them. -/
def mergedRange (delay : ℕ) (story : StoryRetention) (start stop now : ℕ) :
    OrdMap EventSequence (LogEvent × Bool) :=
  story.chunks.toList.foldl
    (fun merged entry =>
      mergeRange (visibleInArchive delay story entry.2.state now) merged
        (entry.2.chunk.eventsFrom start stop))
    ∅

/-- `fetchRange`: the retained events of the range, and what the player needs to
split its replay. -/
def fetchRange (s : KeeperChunkRetentionStore) (storyId : StoryId) (start stop maxEvents now : ℕ) :
    HotRangeResponse :=
  match s.storyRetention[storyId]? with
  | none => {}
  | some story =>
    serve story.knownW maxEvents
      ((mergedRange s.archiveVisibilityDelay story start stop now).toList.map Prod.snd) 0
      { knownW := story.knownW
        hotFloor := hotFloor (story.chunks.toList.map fun entry => entry.2.chunk) }

/-- What `fetchRange` leaves behind: the first sightings of written chunks. -/
def afterFetchRange (s : KeeperChunkRetentionStore) (storyId : StoryId) (now : ℕ) :
    KeeperChunkRetentionStore :=
  match s.storyRetention[storyId]? with
  | none => s
  | some story =>
    s.setStory storyId
      { story with
        chunks := story.chunks.map fun _ retained =>
          { retained with state := sighted story retained.state now } }

end KeeperChunkRetentionStore

end ChronoLog
