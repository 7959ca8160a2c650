import ChronoLog.Keeper.RecoveredState
import ChronoLog.Wal.FileSink
import ChronoLog.Wal.ReleaseTracker

/-!
# The state of a keeper's write-ahead log

What `KeeperWal` and its segment manager hold, the directory they write to, and
the observations its callers make.  The committer's group and the requests an
abandoned start refuses are local variables in the source; they are fields here
because they are part of what is queued and in flight.

## Main definitions

* `ErrorCode`, `Identity`, `Queued` — answers, identities and queued records.
* `Observation` — what callers and the device see happen.
* `WalSegmentManager`, `KeeperWal` — the state.
-/

namespace ChronoLog

/-- The status codes of the durable write path. -/
inductive ErrorCode where
  | CL_SUCCESS
  | CL_ERR_UNKNOWN
  | CL_ERR_INVALID_ARG
  | CL_ERR_DURABILITY_UNAVAILABLE
  | CL_ERR_DURABILITY_FULL
  | CL_ERR_DURABILITY_UNKNOWN
  deriving DecidableEq, Repr

/-- What makes two requests attempts at the same event. -/
structure Identity where
  storyId : StoryId
  sequence : EventSequence
  deriving DecidableEq, Repr

namespace Identity

/-- The order of `std::pair`. -/
instance : Ord Identity where
  compare := compareLex (compareOn Identity.storyId) (compareOn Identity.sequence)

instance : Std.TransOrd Identity :=
  inferInstanceAs (Std.TransCmp (compareLex (compareOn Identity.storyId)
    (compareOn Identity.sequence)))

instance : Std.LawfulEqOrd Identity where
  eq_of_compare {a b} h := by
    change compareLex _ _ a b = .eq at h
    simp only [compareLex, compareOn, Ordering.then_eq_eq] at h
    obtain ⟨hstory, hsequence⟩ := h
    cases a
    cases b
    simp only [Identity.mk.injEq]
    exact ⟨Std.LawfulEqOrd.eq_of_compare hstory, Std.LawfulEqOrd.eq_of_compare hsequence⟩

/-- The identity of an event. -/
def ofEvent (event : LogEvent) : Identity := ⟨event.storyId, event.sequence⟩

end Identity

/-- The answer shared by a request and every retry that joined it. -/
abbrev CompletionId := ℕ

/-- A queued E record, with the names frame of its story and the answer its caller
awaits. -/
structure QueuedEvent where
  identity : Identity
  frame : Wal.EventFrame
  namesFrame : Bytes
  completion : CompletionId
  deriving DecidableEq

/-- A queued E or D record. -/
inductive Queued where
  | event (event : QueuedEvent)
  /-- A destroyed story. -/
  | drop (storyId : StoryId)
  deriving DecidableEq

namespace Queued

/-- `Queued::bytes`: the size of the record's frame. -/
def bytes : Queued → ℕ
  | event e => e.frame.size
  | drop storyId => (Wal.encodeDropped storyId).length

/-- The E record. -/
def event? : Queued → Option QueuedEvent
  | event e => some e
  | drop _ => none

/-- The story of a D record. -/
def dropped? : Queued → Option StoryId
  | event _ => none
  | drop storyId => some storyId

end Queued

/-- The E records among queued ones. -/
def eventsOf (entries : List Queued) : List QueuedEvent := entries.filterMap Queued.event?

/-- A caller's thread. -/
abbrev ClientId := ℕ

/-- Why an attempt at an event needs no write of its own. -/
inductive Settled where
  /-- An attempt with the identity is in flight: wait for its answer. -/
  | joined (completion : CompletionId)
  /-- The event is durable and pending. -/
  | durable
  /-- The log is stopped or failed. -/
  | refused
  deriving DecidableEq

/-- What an attempt at an event finds where it looks its identity up. -/
inductive Outcome where
  | settled (why : Settled)
  /-- Nothing: the caller goes on. -/
  | proceeds
  /-- Nothing: the attempt queues this record. -/
  | queued (record : QueuedEvent)
  deriving DecidableEq

/-- What callers and the device see happen. -/
inductive Observation where
  /-- A thread begins a request. -/
  | called (client : ClientId)
  /-- A request looks its identity up. -/
  | attempt (client : ClientId) (identity : Identity) (outcome : Outcome)
  /-- A release of an event is reported. -/
  | released (identity : Identity)
  /-- A destroy of a story is reported. -/
  | storyDropped (storyId : StoryId)
  /-- A recovered copy is registered at the start. -/
  | recovered (identity : Identity)
  /-- The data sync of a group returned, with these bytes in the group's range. -/
  | synced (segment : ℕ) (group : List Queued) (image : Bytes)
  /-- Destroys were recorded in the file of unlogged drops. -/
  | dropsRecorded (drops : List UnloggedDrop)
  /-- A completion is set. -/
  | answered (completion : CompletionId) (status : ErrorCode)
  /-- An event is handed to the ingestion queue. -/
  | ingested (client : ClientId) (event : LogEvent)
  /-- A request returns. -/
  | returned (client : ClientId) (identity : Identity) (status : ErrorCode)
  deriving DecidableEq

/-- The configuration of the log. -/
structure WalConf where
  segmentBytes : ℕ
  groupCommitMaxBytes : ℕ
  reserveMinBytes : ℕ
  reservePercent : ℕ
  durableCapBytes : ℕ
  keeperEndpoint : Bytes
  /-- The constructor encodes an H record, so its body is within the limit. -/
  endpoint_fits : keeperEndpoint.length + 28 ≤ Wal.kMaxBodyBytes

/-- No endpoint is within the limit. -/
theorem endpoint_fits_nil : ([] : Bytes).length + 28 ≤ Wal.kMaxBodyBytes := by decide

/-- `walReserveBytes`. -/
def walReserveBytes (totalBytes reserveMinBytes reservePercent : ℕ) : ℕ :=
  max (totalBytes / 100 * reservePercent + totalBytes % 100 * reservePercent / 100)
    reserveMinBytes

/-- The header of a segment created at `createdNs`. -/
def WalConf.header (conf : WalConf) (segment createdNs : ℕ) : Bytes :=
  Wal.frame (Wal.HeaderRecord.body ⟨Wal.kFormatVersion, segment, createdNs, conf.keeperEndpoint⟩)

/-- `headerBytes`: the size of a segment's H record. -/
def WalConf.headerBytes (conf : WalConf) : ℕ := (conf.header 0 0).length

/-- A segment prepared for the next rotation. -/
structure Spare where
  segment : ℕ
  dataOffset : ℕ
  sizeBytes : ℕ
  deriving DecidableEq, Repr

/-- What the segment manager holds. -/
structure WalSegmentManager where
  opened : Bool := false
  /-- A segment was taken or adopted since the directory was opened. -/
  segmentHandedOut : Bool := false
  /-- Oldest first: those found at the opening and those handed out since. -/
  segmentList : List ℕ := []
  nextSegment : ℕ := 1
  spare : Option Spare := none
  /-- A spare is being prepared. -/
  preparing : Bool := false
  /-- The last preparation failed. -/
  preparerFailed : Bool := false
  /-- The preparer was started and not yet asked to stop. -/
  preparerActive : Bool := false
  /-- The preparer's thread runs. -/
  preparerAlive : Bool := false

/-- The life of a log. -/
inductive WalState where
  | Created
  | Running
  | Stopping
  | Stopped
  deriving DecidableEq, Repr

/-- A keeper's write-ahead log and the directory it writes to. -/
structure KeeperWal where
  conf : WalConf
  disk : Disk := .empty
  segmentFiles : WalSegmentManager := {}
  running : Bool := false
  failed : Bool := false
  belowReserve : Bool := false
  /-- The durable writer refuses until the store is below its resume level. -/
  overCap : Bool := false
  state : WalState := .Created
  queue : List Queued := []
  queuedBytes : ℕ := 0
  /-- Every queued E record, and those of the group being committed. -/
  inFlight : OrdMap Identity CompletionId := ∅
  tracker : WalReleaseTracker := .empty
  /-- The identities added to the tracker, by story, in log order. -/
  addOrder : OrdMap StoryId (List EventSequence) := ∅
  activeSegment : ℕ := 0
  activeSize : ℕ := 0
  activeDataStart : ℕ := 0
  writeOffset : ℕ := 0
  /-- The stories with an N record in the active segment. -/
  namedInActive : OrdSet StoryId := ∅
  /-- The stories each segment holds a D record for. -/
  dropsBySegment : OrdMap ℕ (List StoryId) := ∅
  /-- A segment was removed and the directory sync after it failed. -/
  directorySyncOwed : Bool := false
  /-- The committer's thread runs. -/
  committerAlive : Bool := false
  /-- The records of the committer's group that are not answered yet. -/
  group : List Queued := []
  /-- The records of that group that are not registered yet. -/
  unregistered : List Queued := []
  /-- The requests an abandoned start refuses and has not answered yet. -/
  refused : List Queued := []
  /-- The completions that are set. -/
  results : OrdMap CompletionId ErrorCode := ∅
  nextCompletion : CompletionId := 0
  /-- What happened, newest first. -/
  trace : List Observation := []

/-- A program of a thread of the keeper. -/
abbrev WalProg (α : Type) := Concurrent.Prog KeeperWal Choice α

namespace KeeperWal

/-- A file operation that changes the directory as `f` does, or fails and changes
nothing. -/
def fileOp (f : Disk → Disk) : WalProg (Option Errno) :=
  .atomically fun s c =>
    if c.fails then some (some .failed, s) else some (none, { s with disk := f s.disk })

/-- An operation on a file that is never read. -/
def partialOp : WalProg (Option Errno) := fileOp id

/-- Operations on a file that is never read, up to the first that fails. -/
def partialOps : ℕ → WalProg (Option Errno)
  | 0 => return none
  | n + 1 => do
    match ← partialOp with
    | some err => return some err
    | none => partialOps n

/-- A write to a segment; one that fails leaves some of its first bytes. -/
def writeAt (segment offset : ℕ) (data : Bytes) : WalProg (Option Errno) :=
  .atomically fun s c =>
    if c.fails then
      some (some .failed, { s with disk := s.disk.writeAt segment offset (data.take c.written) })
    else some (none, { s with disk := s.disk.writeAt segment offset data })

/-- `writeZeros`: the zeros are written in pieces, so a failure leaves the first of
them. -/
def writeZeros (segment offset bytes : ℕ) : WalProg (Option Errno) :=
  writeAt segment offset (List.replicate bytes 0)

/-- `syncData`. -/
def syncData (segment : ℕ) : WalProg (Option Errno) := fileOp fun disk => disk.syncData segment

/-- `syncDirectory`. -/
def syncDirectory : WalProg (Option Errno) := fileOp Disk.syncDirectory

/-- `readUnloggedDrops`: a missing file is no drops. -/
def readUnloggedDrops : WalProg (Except Errno (List UnloggedDrop)) :=
  .atomically fun s c =>
    some (if c.fails then .error .failed else .ok (s.disk.drops.getD []), s)

/-- `writeUnloggedDrops`: the file replaced whole (created, opened, written, synced
and closed under another name, then renamed), or removed when there are no drops. -/
def writeUnloggedDrops (drops : List UnloggedDrop) : WalProg (Option Errno) := do
  if drops.isEmpty then
    let removed ← .atomically fun s c =>
      if c.fails then some (some Errno.failed, s)
      else if s.disk.drops.isNone then some (some .ENOENT, s)
      else some (none, { s with disk := s.disk.removeDrops })
    match removed with
    | some .ENOENT => return none
    | some err => return some err
    | none => syncDirectory
  else
    match ← partialOps 5 with
    | some err => return some err
    | none =>
      match ← fileOp fun disk => disk.renameDrops drops with
      | some err => return some err
      | none => syncDirectory

/-- Observations added to the trace. -/
def observe (s : KeeperWal) (observations : List Observation) : KeeperWal :=
  { s with trace := observations ++ s.trace }

end KeeperWal

end ChronoLog
