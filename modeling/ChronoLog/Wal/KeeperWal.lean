import ChronoLog.Wal.SegmentManager

/-!
# The write-ahead log

The requests of the durable write path, the committer that writes them in groups
and the releases that let it delete segments (`KeeperWal.cpp`).  Each section
under the WAL's mutex is one action of its thread, each file operation another;
between any two of them every other thread may act.

## Main definitions

* `lookupDurable`, `appendDurable`, `storyDropped`, `releaseChunkEvents`,
  `eventDiscarded` — the calls.
* `commitGroup`, `failGroup`, `finishGroup`, `recordUnloggedDrops`,
  `deleteReleasedSegments`, `periodicWork`, `committerTurn` — the committer.
* `start`, `abandonStart`, `stop` — the owner.
-/

namespace ChronoLog

/-- `kLockBatch`: the most entries one hold of the mutex handles. -/
def kLockBatch : ℕ := 1024

/-- `kPruneOnAdd`: released identities pruned for each one added. -/
def kPruneOnAdd : ℕ := 2

namespace KeeperWal

open Concurrent (Prog)

/-! ### Requests -/

/-- `findIdentity`: the attempt in flight, or the event durable and pending. -/
def findIdentity (s : KeeperWal) (identity : Identity) : Option Settled :=
  match s.inFlight[identity]? with
  | some completion => some (.joined completion)
  | none =>
    if s.tracker.isPending identity.storyId identity.sequence then some .durable else none

/-- `settled`, with the mutex held: the request needs no write of its own. -/
def settled (s : KeeperWal) (identity : Identity) : Option Settled :=
  match s.findIdentity identity with
  | some why => some why
  | none => if s.state ≠ .Running ∨ s.failed then some .refused else none

/-- What a lookup that found this is seen to do. -/
def outcomeOf : Option Settled → Outcome
  | some why => .settled why
  | none => .proceeds

/-- The wait for a completion. -/
def await (completion : CompletionId) : WalProg ErrorCode :=
  .atomically fun s _ => s.results[completion]?.map fun status => (status, s)

/-- The answer to a request that needs no write of its own. -/
def answerSettled : Settled → WalProg ErrorCode
  | .joined completion => await completion
  | .durable => return .CL_SUCCESS
  | .refused => return .CL_ERR_DURABILITY_UNAVAILABLE

/-- `lookupDurable`: `none` when the log holds neither the event nor an attempt at it. -/
def lookupDurable (client : ClientId) (identity : Identity) : WalProg (Option ErrorCode) := do
  let found ← .modify fun s =>
    (s.findIdentity identity,
      s.observe [.attempt client identity (outcomeOf (s.findIdentity identity))])
  match found with
  | some why => return some (← answerSettled why)
  | none => return none

/-- The first section of `appendDurable` under the mutex. -/
def appendLookup (client : ClientId) (identity : Identity) : WalProg (Option Settled) :=
  .modify fun s =>
    (s.settled identity, s.observe [.attempt client identity (outcomeOf (s.settled identity))])

/-- A record of the event at the end of the queue. -/
def enqueue (s : KeeperWal) (client : ClientId) (identity : Identity) (frame : Wal.EventFrame)
    (namesFrame : Bytes) : KeeperWal :=
  let record : QueuedEvent := ⟨identity, frame, namesFrame, s.nextCompletion⟩
  { s with
    inFlight := s.inFlight.insert identity s.nextCompletion
    queuedBytes := s.queuedBytes + frame.size
    queue := s.queue ++ [.event record]
    nextCompletion := s.nextCompletion + 1
    trace := .attempt client identity (.queued record) :: s.trace }

/-- The second section of `appendDurable`: the identity is looked up again, and an
attempt that still has to write is queued. -/
def appendEnqueue (client : ClientId) (identity : Identity) (frame : Wal.EventFrame)
    (namesFrame : Bytes) : WalProg (Settled ⊕ CompletionId) :=
  .modify fun s =>
    match s.settled identity with
    | some why => (.inl why, s.observe [.attempt client identity (.settled why)])
    | none => (.inr s.nextCompletion, s.enqueue client identity frame namesFrame)

/-- `appendDurable`: the status and whether this call wrote the record. -/
def appendDurable (client : ClientId) (chronicle story : Bytes) (event : LogEvent) :
    WalProg (ErrorCode × Bool) := do
  let identity := Identity.ofEvent event
  match ← appendLookup client identity with
  | some why => return (← answerSettled why, false)
  | none =>
    -- encoded without the mutex
    match Wal.encodeEvent event [], Wal.encodeNames ⟨event.storyId, chronicle, story⟩ with
    | some frame, some namesFrame =>
      match ← appendEnqueue client identity frame namesFrame with
      | .inl why => return (← answerSettled why, false)
      | .inr completion => return (← await completion, true)
    | _, _ => return (.CL_ERR_INVALID_ARG, false)

/-- `storyDropped`: a failed log still takes the destroy, a stopped one does not. -/
def storyDropped (storyId : StoryId) : WalProg Unit :=
  .modify fun s =>
    let s := s.observe [.storyDropped storyId]
    if s.state ≠ .Running then ((), s)
    else ((), { s with
      queuedBytes := s.queuedBytes + (Queued.drop storyId).bytes
      queue := s.queue ++ [.drop storyId] })

/-! ### Releases -/

/-- Released identities at the front of the order, at most `budget` of them. -/
def pruned (s : KeeperWal) (storyId : StoryId) : ℕ → List EventSequence → List EventSequence
  | 0, order => order
  | _ + 1, [] => []
  | budget + 1, event :: order =>
    if s.tracker.isPending storyId event then event :: order else pruned s storyId budget order

/-- `noteAdded`, with the mutex held. -/
def noteAdded (s : KeeperWal) (storyId : StoryId) (event : EventSequence) : KeeperWal :=
  { s with
    addOrder := s.addOrder.insert storyId
      (s.pruned storyId kPruneOnAdd ((s.addOrder[storyId]?.getD []) ++ [event])) }

/-- `pruneAddOrder`, with the mutex held. -/
def pruneAddOrder (s : KeeperWal) (storyId : StoryId) (budget : ℕ) : KeeperWal :=
  match s.addOrder[storyId]? with
  | none => s
  | some order =>
    if s.tracker.pendingEventsOf storyId = 0 then
      { s with addOrder := s.addOrder.erase storyId }
    else { s with addOrder := s.addOrder.insert storyId (s.pruned storyId budget order) }

/-- `eventDiscarded`. -/
def eventDiscarded (storyId : StoryId) (event : EventSequence) : WalProg Unit :=
  .modify fun s =>
    let s := s.observe [.released ⟨storyId, event⟩]
    ((), { s with tracker := s.tracker.releaseEvent storyId event }.pruneAddOrder storyId
      kLockBatch)

/-- A batch of a large chunk's events released in one hold, while the story has any
pending: whether there was one. -/
def releaseBatch (storyId : StoryId) (batch : List EventSequence) : WalProg Bool :=
  .modify fun s =>
    if s.tracker.pendingEventsOf storyId = 0 then (false, s.pruneAddOrder storyId 0)
    else (true, { s with tracker := s.tracker.releaseEvents storyId batch }.pruneAddOrder storyId
      kLockBatch)

/-- The batches of `releaseChunkEvents`, for at most `fuel` of them. -/
def releaseBatches (storyId : StoryId) : ℕ → List EventSequence → WalProg Unit
  | 0, _ => return ()
  | fuel + 1, events => do
    if ← releaseBatch storyId (events.take kLockBatch) then
      if (events.drop kLockBatch).isEmpty then return ()
      else releaseBatches storyId fuel (events.drop kLockBatch)
    else return ()

/-- `releaseChunkEvents`, for `chunkWritten` and `chunkDiscarded`: at once where the
smaller side is at most a batch, else a batch of the chunk's events at a time. -/
def releaseChunkEvents (storyId : StoryId) (chunk : StoryChunk) : WalProg Unit := do
  if chunk.empty then return ()
  else
    let done ← .modify fun s =>
      let s := s.observe (chunk.logEvents.keys.map fun event => .released ⟨storyId, event⟩)
      if s.tracker.pendingEventsOf storyId = 0 then (true, s)
      else if min (s.tracker.pendingEventsOf storyId) chunk.getEventCount ≤ kLockBatch then
        (true, { s with tracker := s.tracker.releaseChunk storyId chunk }.pruneAddOrder storyId
          kLockBatch)
      else (false, s)
    if done then return ()
    else releaseBatches storyId chunk.logEvents.keys.length chunk.logEvents.keys

/-! ### The committer: registering and dropping -/

/-- One hold of `dropStoryCopies`: a batch of the story's order released, or, with none
left, whatever the order missed; whether the story is done. -/
def dropBatch (storyId : StoryId) : WalProg Bool :=
  .modify fun s =>
    match s.addOrder[storyId]?.getD [] with
    | [] => (true, { s with
        addOrder := s.addOrder.erase storyId
        tracker := s.tracker.dropStory storyId })
    | order => (false, { s with
        tracker := s.tracker.releaseEvents storyId (order.take kLockBatch)
        addOrder := s.addOrder.insert storyId (order.drop kLockBatch) })

/-- The batches of `dropStoryCopies`, for at most `fuel` of them. -/
def dropBatches (storyId : StoryId) : ℕ → WalProg Unit
  | 0 => return ()
  | fuel + 1 => do
    if ← dropBatch storyId then return () else dropBatches storyId fuel

/-- `dropStoryCopies`.  Only the committer adds to the order, and it is here, so the
order as it is found bounds the batches. -/
def dropStoryCopies (storyId : StoryId) : WalProg Unit := do
  let batches ← .modify fun s => ((s.addOrder[storyId]?.getD []).length + 1, s)
  dropBatches storyId batches

/-- An E record that leaves `inFlight`, registered with the tracker on success. -/
def registerEvent (s : KeeperWal) (status : ErrorCode) (segment : ℕ) (event : QueuedEvent) :
    KeeperWal :=
  let identity := event.identity
  let s :=
    if status = .CL_SUCCESS then
      { s with
        tracker := s.tracker.addCopy identity.storyId identity.sequence segment event.frame.size
        }.noteAdded identity.storyId identity.sequence
    else s
  if s.inFlight[identity]? = some event.completion then
    { s with inFlight := s.inFlight.erase identity }
  else s

/-- One hold of `finishGroup`: at most `budget` entries, up to the first D record of a
synced group; the story that one drops and the entries left. -/
def registerBatch (status : ErrorCode) (segment : ℕ) :
    ℕ → List Queued → KeeperWal → Option StoryId × List Queued × KeeperWal
  | 0, entries, s => (none, entries, s)
  | _ + 1, [], s => (none, [], s)
  | budget + 1, .event event :: entries, s =>
    registerBatch status segment budget entries (s.registerEvent status segment event)
  | budget + 1, .drop storyId :: entries, s =>
    if status = .CL_SUCCESS then
      (some storyId, entries, { s with
        dropsBySegment := s.dropsBySegment.insert segment
          ((s.dropsBySegment[segment]?.getD []) ++ [storyId]) })
    else registerBatch status segment budget entries s

/-- A hold over the committer's group: the story it drops, and whether the group is
through. -/
def registerHold (s : KeeperWal) (status : ErrorCode) (segment : ℕ) :
    (Option StoryId × Bool) × KeeperWal :=
  let r := registerBatch status segment kLockBatch s.unregistered s
  ((r.1, r.2.1.isEmpty), { r.2.2 with unregistered := r.2.1 })

/-- The registering loop of `finishGroup`, for at most `fuel` holds. -/
def registerGroup (status : ErrorCode) (segment : ℕ) : ℕ → WalProg Unit
  | 0 => return ()
  | fuel + 1 => do
    let (dropped, finished) ← .modify fun s => s.registerHold status segment
    if let some storyId := dropped then dropStoryCopies storyId
    if finished then return () else registerGroup status segment fuel

/-- The completion of a record set; a D record has none. -/
def setAnswer (s : KeeperWal) (status : ErrorCode) : Queued → KeeperWal
  | .drop _ => s
  | .event event =>
    { s with
      results := s.results.insert event.completion status
      trace := .answered event.completion status :: s.trace }

/-- The answer to the next record of the committer's group. -/
def answerEntry (status : ErrorCode) (entry : Queued) : WalProg Unit :=
  .modify fun s => ((), { s.setAnswer status entry with group := s.group.tail })

/-- The completions of the entries set one after another. -/
def answerEntries (status : ErrorCode) : List Queued → WalProg Unit
  | [] => return ()
  | entry :: entries => do
    answerEntry status entry
    answerEntries status entries

/-- `finishGroup`: registers the group, or drops it, and answers every record of it. -/
def finishGroup (group : List Queued) (status : ErrorCode) (segment : ℕ) : WalProg Unit := do
  registerGroup status segment group.length
  answerEntries status group

/-- The copies of several stories dropped one story after another. -/
def dropStories : List StoryId → WalProg Unit
  | [] => return ()
  | storyId :: stories => do
    dropStoryCopies storyId
    dropStories stories

/-- `recordUnloggedDrops`: the destroys of a group that is not written go to the file
of unlogged drops, and the copies of their stories are dropped either way. -/
def recordUnloggedDrops (group : List Queued) : WalProg Unit := do
  let stories := group.filterMap Queued.dropped?
  if stories.isEmpty then return ()
  else
    if let .ok drops ← readUnloggedDrops then
      let active ← .modify fun s => (s.activeSegment, s)
      let added := stories.map fun storyId => UnloggedDrop.mk storyId active
      if (← writeUnloggedDrops (drops ++ added)).isNone then
        .modify fun s => ((), s.observe [.dropsRecorded added])
    dropStories stories

/-! ### The committer: groups -/

/-- The names frames a group writes: each story's before its first E record, for the
stories not in `named`; the stories named so. -/
def namesToWrite : OrdSet StoryId → List Queued → List Bytes × OrdSet StoryId
  | named, [] => ([], named)
  | named, .drop _ :: group => namesToWrite named group
  | named, .event event :: group =>
    if named.contains event.identity.storyId then namesToWrite named group
    else
      let (frames, named) := namesToWrite (named.insert event.identity.storyId) group
      (event.namesFrame :: frames, named)

/-- `groupBytes`: the G record, the records and the names frames of the group. -/
def groupBytes (group : List Queued) (named : OrdSet StoryId) : ℕ :=
  Wal.kGroupFrameBytes + (group.map Queued.bytes).sum +
    ((namesToWrite named group).1.map List.length).sum

/-- The frames of a group after its G record, and the stories named by then. -/
def groupFrames : OrdSet StoryId → List Queued → Bytes × OrdSet StoryId
  | named, [] => ([], named)
  | named, .drop storyId :: group =>
    let (frames, named) := groupFrames named group
    (Wal.encodeDropped storyId ++ frames, named)
  | named, .event event :: group =>
    if named.contains event.identity.storyId then
      let (frames, named) := groupFrames named group
      (event.frame.bytes ++ frames, named)
    else
      let (frames, named) := groupFrames (named.insert event.identity.storyId) group
      (event.namesFrame ++ (event.frame.bytes ++ frames), named)

/-- `switchToSpare`: a spare of at least `minSegmentBytes` becomes the active segment. -/
def switchToSpare (minSegmentBytes : ℕ) : WalProg (Option Errno) := do
  match ← takeSpare minSegmentBytes with
  | .error err => return some err
  | .ok spare =>
    .modify fun s => (none, { s with
      activeSegment := spare.segment
      activeSize := spare.sizeBytes
      activeDataStart := spare.dataOffset
      writeOffset := spare.dataOffset
      namedInActive := ∅ })

/-- `rotate`: the active segment synced once more, then the switch. -/
def rotate (minSegmentBytes : ℕ) : WalProg (Option Errno) := do
  let active ← .modify fun s => (s.activeSegment, s)
  match ← syncData active with
  | some err => return some err
  | none => switchToSpare minSegmentBytes

/-- `eraseRange`: zeros over a range of the active segment, and a data sync. -/
def eraseRange (offset bytes : ℕ) : WalProg (Option Errno) := do
  let active ← .modify fun s => (s.activeSegment, s)
  match ← writeZeros active offset bytes with
  | some err => return some err
  | none => syncData active

/-- `failGroup`: latches the failure, records the destroys of the group, erases what
its write started on and answers it. -/
def failGroup (group : List Queued) (written : ℕ) : WalProg Unit := do
  let offset ← .modify fun s => (s.writeOffset, { s with failed := true })
  recordUnloggedDrops group
  if written = 0 then finishGroup group .CL_ERR_DURABILITY_UNAVAILABLE 0
  else
    match ← eraseRange offset written with
    | none => finishGroup group .CL_ERR_DURABILITY_UNAVAILABLE 0
    | some _ => finishGroup group .CL_ERR_DURABILITY_UNKNOWN 0

/-- The write of a group into the active segment, its data sync and its answers. -/
def writeGroup (group : List Queued) : WalProg Unit := do
  let (active, offset, named) ← .modify fun s =>
    ((s.activeSegment, s.writeOffset, s.namedInActive), s)
  let bytes := groupBytes group named
  let (frames, namedNow) := groupFrames named group
  match ← writeAt active offset (Wal.encodeGroup bytes ++ frames) with
  | some _ => failGroup group bytes
  | none =>
    let synced ← .atomically fun s c =>
      if c.fails then some (some Errno.failed, s)
      else some (none, { s with
        disk := s.disk.syncData active
        writeOffset := s.writeOffset + bytes
        namedInActive := namedNow
        trace := .synced active group
          ((s.disk.syncData active).readRange active offset bytes) :: s.trace })
    match synced with
    | some _ => failGroup group bytes
    | none => finishGroup group .CL_SUCCESS active

/-- `commitGroup`: a group that does not fit goes whole into a new segment. -/
def commitGroup (group : List Queued) : WalProg Unit := do
  let rotateTo ← .modify fun s =>
    (if s.writeOffset + groupBytes group s.namedInActive > s.activeSize then
      some (max s.conf.segmentBytes (s.conf.headerBytes + groupBytes group ∅))
    else none, s)
  match rotateTo with
  | none => writeGroup group
  | some needed =>
    match ← rotate needed with
    | some _ => failGroup group 0
    | none => writeGroup group

/-! ### The committer: deleting segments -/

/-- The destroys of released segments that go before an older segment that stays. -/
def dropsAhead (s : KeeperWal) (released : List ℕ) : List UnloggedDrop :=
  match s.segmentFiles.segmentList.find? fun segment => segment ∉ released with
  | none => []
  | some oldestKept =>
    released.flatMap fun segment =>
      if segment < oldestKept then []
      else (s.dropsBySegment[segment]?.getD []).map fun storyId => ⟨storyId, segment⟩

/-- The lines of the file with the carried ones added, those of segments that are all
gone left out. -/
def withCarried (lines : List UnloggedDrop) (oldestListed : ℕ) (carried : List UnloggedDrop) :
    List UnloggedDrop :=
  carried.foldl (fun lines drop => if drop ∈ lines then lines else lines ++ [drop])
    (lines.filter fun line => decide (oldestListed ≤ line.lastSegment))

/-- `keepDropsOfSegmentsDeletedAhead`: the segments that may be deleted. -/
def keepDropsOfSegmentsDeletedAhead (released : List ℕ) : WalProg (List ℕ) := do
  let (carried, oldestListed) ← .modify fun s =>
    ((s.dropsAhead released, s.segmentFiles.segmentList.headD 0), s)
  if carried.isEmpty then return released
  else
    let kept := released.filter fun segment => segment ∉ carried.map UnloggedDrop.lastSegment
    match ← readUnloggedDrops with
    | .error _ => return kept
    | .ok lines =>
      match ← writeUnloggedDrops (withCarried lines oldestListed carried) with
      | some _ => return kept
      | none => do
        .modify fun s => ((), s.observe [.dropsRecorded carried])
        return released

/-- The deletions of `deleteReleasedSegments`, oldest first, up to the first that
fails. -/
def deleteSegments : List ℕ → WalProg Unit
  | [] => return ()
  | segment :: released => do
    match ← deleteSegment segment with
    | some _ =>
      -- removed, but the removal may not survive a crash
      .modify fun s =>
        if segment ∈ s.segmentFiles.segmentList then ((), s)
        else ((), { s with
          dropsBySegment := s.dropsBySegment.erase segment
          directorySyncOwed := true })
    | none => do
      .modify fun s => ((), { s with dropsBySegment := s.dropsBySegment.erase segment })
      deleteSegments released

/-- The directory sync that an earlier removal still waits for. -/
def syncOwed (owed : Bool) : WalProg (Option Errno) :=
  if owed then syncDirectory else return none

/-- `deleteReleasedSegments`. -/
def deleteReleasedSegments : WalProg Unit := do
  let owed ← .modify fun s => (s.directorySyncOwed, s)
  match ← syncOwed owed with
  | some _ => return ()
  | none => do
    let released ← .modify fun s =>
      (s.tracker.deletable s.segmentFiles.segmentList s.activeSegment,
        { s with directorySyncOwed := false })
    if released.isEmpty then return ()
    else deleteSegments (← keepDropsOfSegmentsDeletedAhead released)

/-- `sampleFreeSpace`. -/
def sampleFreeSpace : WalProg Unit :=
  .atomically fun s c =>
    if c.fails then some ((), s)
    else some ((), { s with
      belowReserve := decide (c.freeBytes <
        walReserveBytes c.totalBytes s.conf.reserveMinBytes s.conf.reservePercent) })

/-- `periodicWork`: a released active segment is replaced once its interval passed
(`flag`), so that it can be deleted. -/
def periodicWork : WalProg Unit := do
  sampleFreeSpace
  deleteReleasedSegments
  let due ← .atomically fun s c =>
    some (decide (¬s.failed ∧ s.activeDataStart < s.writeOffset ∧ c.flag), s)
  if due then
    let (idle, active, segmentBytes) ← .modify fun s =>
      ((decide (s.queue = [] ∧ s.tracker.outstanding s.activeSegment = 0), s.activeSegment,
        s.conf.segmentBytes), s)
    if idle then
      match ← syncData active with
      | some _ => .modify fun s => ((), { s with failed := true })
      | none =>
        match ← switchToSpare segmentBytes with
        | some _ => return ()
        | none => deleteReleasedSegments

/-- The records of the queue that go into one group: everything up to the group size;
a larger record goes alone. -/
def takeGroup (maxBytes : ℕ) : ℕ → List Queued → List Queued → List Queued × List Queued
  | _, group, [] => (group, [])
  | bytes, group, entry :: queue =>
    if group.isEmpty ∨ bytes + entry.bytes ≤ maxBytes then
      takeGroup maxBytes (bytes + entry.bytes) (group ++ [entry]) queue
    else (group, entry :: queue)

/-- What the committer finds when it looks for work. -/
inductive CommitterWork where
  /-- Stopping, and everything queued is answered. -/
  | exit
  | idle
  | group (entries : List Queued) (latched : Bool)

/-- The section of `committerLoop` under the mutex. -/
def findWork : WalProg CommitterWork :=
  .modify fun s =>
    if s.queue.isEmpty then
      if s.state ≠ .Running then (.exit, { s with committerAlive := false })
      else (.idle, s)
    else
      let (entries, queue) := takeGroup s.conf.groupCommitMaxBytes 0 [] s.queue
      (.group entries s.failed, { s with
        queue := queue
        queuedBytes := s.queuedBytes - (entries.map Queued.bytes).sum
        group := entries
        unregistered := entries })

/-- One turn of `committerLoop`; after a group the periodic work is done where it is
due (`flag`). -/
def committerTurn : WalProg Unit := do
  match ← findWork with
  | .exit => return ()
  | .idle => periodicWork
  | .group entries latched => do
    if latched then
      recordUnloggedDrops entries
      finishGroup entries .CL_ERR_DURABILITY_UNAVAILABLE 0
    else commitGroup entries
    deleteReleasedSegments
    let due ← .atomically fun s c => some (c.flag, s)
    if due then periodicWork

/-! ### The owner -/

/-- The answers of an abandoned start to the requests queued meanwhile. -/
def refuseEntries : List Queued → WalProg Unit
  | [] => return ()
  | entry :: entries => do
    .modify fun s => ((),
      { s.setAnswer .CL_ERR_DURABILITY_UNAVAILABLE entry with refused := s.refused.tail })
    refuseEntries entries

/-- `abandonStart`: back to before the start, with every request queued meanwhile
refused. -/
def abandonStart : WalProg Unit := do
  let refused ← .modify fun s => (s.queue, { s with
    state := .Created
    queue := []
    queuedBytes := 0
    inFlight := ∅
    tracker := .empty
    addOrder := ∅
    refused := s.queue })
  refuseEntries refused
  stopPreparer
  .modify fun s => ((), { s with namedInActive := ∅, dropsBySegment := ∅ })

/-- The recovered copies of a story registered under its live id. -/
def registerStory (s : KeeperWal) (storyId : StoryId) (story : RecoveredStory) : KeeperWal :=
  story.copies.toList.foldl (fun s (event, copies) =>
    let tracker := copies.foldl
      (fun tracker (copy : ℕ × ℕ) => tracker.addCopy storyId event copy.1 copy.2) s.tracker
    ({ s with tracker := tracker }.noteAdded storyId event).observe
      [.recovered ⟨storyId, event⟩]) s

/-- The recovered stories with names registered; `idOf` gives a story's live id. -/
def registerRecovered (s : KeeperWal) (recovered : RecoveredState)
    (idOf : Option (RecoveredStory → StoryId)) : KeeperWal :=
  recovered.stories.toList.foldl (fun s (walStoryId, story) =>
    if story.hasNames then
      s.registerStory (match idOf with | some f => f story | none => walStoryId) story
    else s) s

/-- The segment a start writes to: the recovered one that holds only its header, where
it can be adopted, or a new spare. -/
def firstSegment (reusableSpare : Option ℕ) : WalProg (Except Errno Spare) := do
  let segmentBytes ← .modify fun s => (s.conf.segmentBytes, s)
  match reusableSpare with
  | none => takeSpare segmentBytes
  | some segment =>
    match ← adoptExisting segment with
    | .ok spare => return .ok spare
    | .error _ => takeSpare segmentBytes

/-- `start`. -/
def start (recovered : RecoveredState) (idOf : Option (RecoveredStory → StoryId)) :
    WalProg ErrorCode := do
  let created ← .modify fun s => (decide (s.state = .Created), s)
  if ¬created then return .CL_ERR_UNKNOWN
  else
    match ← openSegments with
    | some _ => return .CL_ERR_UNKNOWN
    | none =>
      match ← firstSegment recovered.reusableSpare with
      | .error _ => return .CL_ERR_UNKNOWN
      | .ok spare => do
        .modify fun s => ((), { s with
          activeSegment := spare.segment
          activeSize := spare.sizeBytes
          activeDataStart := spare.dataOffset
          writeOffset := spare.dataOffset
          namedInActive := ∅
          dropsBySegment := recovered.droppedIn })
        sampleFreeSpace
        .modify fun s => ((), { s.registerRecovered recovered idOf with state := .Running })
        startPreparer
        let started ← .atomically fun s c =>
          if c.fails then some (false, s) else some (true, { s with committerAlive := true })
        if started then
          .modify fun s => (.CL_SUCCESS, { s with running := true })
        else
          abandonStart
          return .CL_ERR_UNKNOWN

/-- `stop`: refuses new requests, waits for the committer to drain the queue and for
the preparer. -/
def stop : WalProg Unit := do
  let stopping ← .modify fun s =>
    match s.state with
    | .Created => (false, { s with state := .Stopped })
    | .Running => (true, { s with state := .Stopping })
    | _ => (false, s)
  if stopping then
    .modify fun s => ((), { s with running := false })
    .atomically fun s _ => if s.committerAlive then none else some ((), s)
    stopPreparer
    .modify fun s => ((), { s with state := .Stopped })

end KeeperWal

end ChronoLog
