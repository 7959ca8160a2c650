import ChronoLog.Wal.KeeperWal

/-!
# The threads of a keeper's durable write path

The durable writer (`KeeperDurableWriter.cpp`) and the threads that share a
write-ahead log: its owner, the committer, the preparer and the clients.

## Main definitions

* `walAdmit`, `write` — a durable write, from the checks that may refuse it to the
  hand-over to the ingestion queue.
* `ThreadId`, `Call`, `body`, `may` — what each thread runs.
* `walSystem`, `writerSystem` — the interleavings of every call, and those in
  which events are appended by the durable writer only.
-/

namespace ChronoLog

namespace KeeperWal

open Concurrent (Prog Pool)

/-- Whether the log takes a new durable write now. -/
inductive WalAdmit where
  | Ok
  | Unavailable
  | Full
  deriving DecidableEq

/-- `KeeperWal::admit`: three loads, each on its own. -/
def walAdmit : WalProg WalAdmit := do
  if ← .modify fun s => (s.running, s) then
    if ← .modify fun s => (s.failed, s) then return .Unavailable
    else if ← .modify fun s => (s.belowReserve, s) then return .Full
    else return .Ok
  else return .Unavailable

/-- The retention store holds more than the cap of what the grapher has not confirmed,
or was above it and is not yet at the resume level. -/
def refusedByCap : WalProg Bool := do
  let (unconfirmed, cap) ← .atomically fun s c =>
    some ((c.unconfirmedBytes, s.conf.durableCapBytes), s)
  if unconfirmed > cap then
    .modify fun s => (true, { s with overCap := true })
  else if ← .modify fun s => (s.overCap, s) then
    if unconfirmed > cap / 4 * 3 then return true
    else .modify fun s => (false, { s with overCap := false })
  else return false

/-- The story has an ingestion handle (`flag`), or a pipeline could be started for it. -/
def hasPipeline : WalProg Bool := do
  if ← .atomically fun s c => some (c.flag, s) then return true
  else .atomically fun s c => some (!c.fails, s)

/-- The checks of a write that the log holds no attempt at: the refusal, if there is
one. -/
def refusal (event : LogEvent) : WalProg (Option ErrorCode) := do
  if event.logRecord.isEmpty then return some .CL_ERR_INVALID_ARG
  else
    match ← walAdmit with
    | .Unavailable => return some .CL_ERR_DURABILITY_UNAVAILABLE
    | .Full => return some .CL_ERR_DURABILITY_FULL
    | .Ok =>
      if ← refusedByCap then return some .CL_ERR_DURABILITY_FULL
      else if ← hasPipeline then return none
      else return some .CL_ERR_DURABILITY_UNAVAILABLE

/-- `ingestLogEvent`: the event handed to the ingestion queue. -/
def ingestLogEvent (client : ClientId) (event : LogEvent) : WalProg Unit :=
  .modify fun s => ((), s.observe [.ingested client event])

/-- `KeeperDurableWriter::write`: only the call that queued the record ingests the
event. -/
def write (storyIdOf : Bytes → Bytes → StoryId) (client : ClientId) (chronicle story : Bytes)
    (event : LogEvent) : WalProg ErrorCode := do
  if event.storyId ≠ storyIdOf chronicle story then return .CL_ERR_INVALID_ARG
  else
    match ← lookupDurable client (.ofEvent event) with
    | some earlier => return earlier
    | none =>
      match ← refusal event with
      | some status => return status
      | none => do
        let (status, wrote) ← appendDurable client chronicle story event
        if status = .CL_SUCCESS ∧ wrote then ingestLogEvent client event
        return status

/-! ### Threads -/

/-- The threads that share a log. -/
inductive ThreadId where
  /-- Starts and stops the log. -/
  | owner
  | committer
  | preparer
  | client (id : ClientId)
  deriving DecidableEq

/-- What a thread runs. -/
inductive Call where
  | start (recovered : RecoveredState) (idOf : Option (RecoveredStory → StoryId))
  | stop
  /-- A turn of the committer. -/
  | commit
  /-- A turn of the preparer. -/
  | prepare
  | lookupDurable (identity : Identity)
  | appendDurable (chronicle story : Bytes) (event : LogEvent)
  | write (chronicle story : Bytes) (event : LogEvent)
  /-- `chunkWritten` and `chunkDiscarded`. -/
  | releaseChunk (storyId : StoryId) (chunk : StoryChunk)
  | eventDiscarded (storyId : StoryId) (event : EventSequence)
  | storyDropped (storyId : StoryId)

/-- A request of a client from its first action to its return. -/
def request (client : ClientId) (identity : Identity) (answer : WalProg (Option ErrorCode)) :
    WalProg Unit := do
  .modify fun s => ((), s.observe [.called client])
  let status ← answer
  .modify fun s => ((), s.observe
    (status.map fun status => Observation.returned client identity status).toList)

/-- The program of a call. -/
def body (storyIdOf : Bytes → Bytes → StoryId) : ThreadId → Call → WalProg Unit
  | .owner, .start recovered idOf => do
    let _ ← start recovered idOf
  | .owner, .stop => stop
  | .committer, .commit => committerTurn
  | .preparer, .prepare => preparerTurn
  | .client id, .lookupDurable identity => request id identity (lookupDurable id identity)
  | .client id, .appendDurable chronicle story event =>
    request id (.ofEvent event) do
      return some (← appendDurable id chronicle story event).1
  | .client id, .write chronicle story event =>
    request id (.ofEvent event) do
      return some (← write storyIdOf id chronicle story event)
  | .client _, .releaseChunk storyId chunk => releaseChunkEvents storyId chunk
  | .client _, .eventDiscarded storyId event => eventDiscarded storyId event
  | .client _, .storyDropped storyId => storyDropped storyId
  | _, _ => return ()

/-- The calls a thread may begin: the committer and the preparer turn while their
threads run. -/
def may (s : KeeperWal) : ThreadId → Call → Bool
  | .owner, .start _ _ => true
  | .owner, .stop => true
  | .committer, .commit => s.committerAlive
  | .preparer, .prepare => s.segmentFiles.preparerAlive
  | .client _, .lookupDurable _ => true
  | .client _, .appendDurable _ _ _ => true
  | .client _, .write _ _ _ => true
  | .client _, .releaseChunk _ _ => true
  | .client _, .eventDiscarded _ _ => true
  | .client _, .storyDropped _ => true
  | _, _ => false

/-- The calls of a keeper: events are appended by the durable writer only. -/
def mayWrite (s : KeeperWal) : ThreadId → Call → Bool
  | .client _, .appendDurable _ _ _ => false
  | thread, call => s.may thread call

/-- A log that was just constructed, over any directory. -/
def Constructed (s : KeeperWal) : Prop :=
  s = { conf := s.conf, disk := s.disk }

/-- Every interleaving of the calls of a log. -/
def walSystem (storyIdOf : Bytes → Bytes → StoryId) :
    Transition.System (Pool KeeperWal Choice ThreadId Call)
      (Concurrent.Move Choice ThreadId Call) :=
  Pool.System Constructed (body storyIdOf) may

/-- Every interleaving of the calls of a keeper. -/
def writerSystem (storyIdOf : Bytes → Bytes → StoryId) :
    Transition.System (Pool KeeperWal Choice ThreadId Call)
      (Concurrent.Move Choice ThreadId Call) :=
  Pool.System Constructed (body storyIdOf) mayWrite

end KeeperWal

end ChronoLog
