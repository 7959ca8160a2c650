import ChronoLog.Wal.State

/-!
# The segment files

The preparation of spare segments, their hand-over to the committer and the
deletion of released ones (`WalSegmentManager.cpp`).  Sections under the
manager's mutex are single actions; the file operations between them are actions
of their own.

## Main definitions

* `prepare`, `extend`, `takeSpare`, `adoptExisting`, `deleteSegment`.
* `openSegments`, `startPreparer`, `stopPreparer`, `preparerTurn`.
-/

namespace ChronoLog

namespace KeeperWal

open Concurrent (Prog)

/-- `WalSegmentManager::open`: removes every `.partial`, with a directory sync where
there was one (`flag`), and lists the segments. -/
def openSegments : WalProg (Option Errno) :=
  .atomically fun s c =>
    if s.segmentFiles.opened then some (none, s)
    else if c.fails then some (some .failed, s)
    else
      let segments := s.disk.list
      some (none, { s with
        disk := if c.flag then s.disk.syncDirectory else s.disk
        segmentFiles := { s.segmentFiles with
          opened := true
          segmentList := segments
          nextSegment := match segments.getLast? with
            | none => 1
            | some last => last + 1 } })

/-- The H record of a new segment. -/
def newHeader (segment : ℕ) : WalProg Bytes :=
  .atomically fun s c => some (s.conf.header segment c.nowNs, s)

/-- `prepare`: zeros over the whole segment under another name, the H record, a data
sync, the rename and a directory sync; what a failed preparation made is removed. -/
def prepare (segment bytes : ℕ) : WalProg (Except Errno Spare) := do
  let header ← newHeader segment
  let bytes := max bytes header.length
  match ← partialOps 4 with
  | some err => do
    let _ ← partialOp
    return .error err
  | none =>
    match ← fileOp fun disk =>
        disk.link segment (header ++ List.replicate (bytes - header.length) 0) with
    | some err => do
      let _ ← partialOp
      return .error err
    | none =>
      match ← syncDirectory with
      | some err => do
        let _ ← fileOp fun disk => disk.remove segment
        return .error err
      | none => return .ok ⟨segment, header.length, bytes⟩

/-- The zeros past the end of a spare that is too small. -/
def growSpare (target : Spare) (bytes : ℕ) : WalProg (Option Errno) :=
  if target.sizeBytes < bytes then
    writeZeros target.segment target.sizeBytes (bytes - target.sizeBytes)
  else return none

/-- `extend`: zeros past the end of a spare, and a data sync. -/
def extend (target : Spare) (bytes : ℕ) : WalProg (Option Errno) := do
  match ← growSpare target bytes with
  | some err => return some err
  | none => syncData target.segment

/-- A ready spare, taken or to be grown first. -/
inductive ReadySpare where
  | taken (spare : Spare)
  | grow (spare : Spare)

/-- What the wait of `takeSpare` ends in. -/
inductive SpareWait where
  | notOpen
  | ready (spare : ReadySpare)
  /-- No preparer will make one: prepare this number. -/
  | make (segment : ℕ)

/-- The spare leaves the manager. -/
def handOut (s : KeeperWal) (spare : Spare) : KeeperWal :=
  { s with
    segmentFiles := { s.segmentFiles with
      spare := none
      preparerFailed := false
      segmentList := s.segmentFiles.segmentList ++ [spare.segment]
      segmentHandedOut := true } }

/-- With a ready spare and the mutex held: take it, unless it is too small. -/
def takeReady (s : KeeperWal) (spare : Spare) (minBytes : ℕ) : ReadySpare × KeeperWal :=
  if spare.sizeBytes < minBytes then (.grow spare, s) else (.taken spare, handOut s spare)

/-- The wait of `takeSpare`: for a spare while a preparer is at work. -/
def waitForSpare (minBytes : ℕ) : WalProg SpareWait :=
  .atomically fun s _ =>
    if ¬s.segmentFiles.opened then some (.notOpen, s)
    else match s.segmentFiles.spare with
      | some spare =>
        let (ready, s) := takeReady s spare minBytes
        some (.ready ready, s)
      | none =>
        if ¬s.segmentFiles.preparing ∧
            (¬s.segmentFiles.preparerActive ∨ s.segmentFiles.preparerFailed) then
          some (.make s.segmentFiles.nextSegment, { s with
            segmentFiles := { s.segmentFiles with
              preparing := true
              nextSegment := s.segmentFiles.nextSegment + 1 } })
        else none

/-- The section of `takeSpare` after a preparation of its own. -/
def afterPrepare (made : Except Errno Spare) (minBytes : ℕ) :
    WalProg (Except Errno ReadySpare) :=
  .modify fun s =>
    match made with
    | .error err => (.error err, { s with
        segmentFiles := { s.segmentFiles with preparing := false, preparerFailed := true } })
    | .ok spare =>
      let (ready, s) := takeReady
        { s with segmentFiles := { s.segmentFiles with preparing := false, spare := some spare } }
        spare minBytes
      (.ok ready, s)

/-- The last part of `takeSpare`: a spare that is too small is grown in place. -/
def finishTake (minBytes : ℕ) : ReadySpare → WalProg (Except Errno Spare)
  | .taken spare => return .ok spare
  | .grow spare => do
    match ← extend spare minBytes with
    | some err => return .error err
    | none =>
      let grown : Spare := { spare with sizeBytes := minBytes }
      .modify fun s => (.ok grown, handOut s grown)

/-- `takeSpare`. -/
def takeSpare (minBytes : ℕ) : WalProg (Except Errno Spare) := do
  match ← waitForSpare minBytes with
  | .notOpen => return .error .EBADF
  | .ready ready => finishTake minBytes ready
  | .make segment => do
    let segmentBytes ← .modify fun s => (s.conf.segmentBytes, s)
    let made ← prepare segment (max segmentBytes minBytes)
    match ← afterPrepare made minBytes with
    | .error err => return .error err
    | .ok ready => finishTake minBytes ready

/-- The segment holds only its header: where its data starts. -/
def headerOnly (segment : ℕ) (bytes : Bytes) : Option ℕ :=
  let scan := Wal.scanSegment bytes
  match scan.records with
  | [record] =>
    match (Wal.decodeHeader record.body).2 with
    | some header =>
      if scan.badFrame.isNone ∧ header.segmentNumber = segment ∧
          Wal.allZero (bytes.drop scan.endOffset) then some scan.endOffset
      else none
    | none => none
  | _ => none

/-- `adoptExisting`: the newest segment found, when it holds only its header. -/
def adoptExisting (segment : ℕ) : WalProg (Except Errno Spare) := do
  let content ← .atomically fun s c =>
    some (if ¬s.segmentFiles.opened then Except.error Errno.EBADF
      else if s.segmentFiles.segmentHandedOut ∨
          s.segmentFiles.segmentList.getLast? ≠ some segment then .error .EINVAL
      else if c.fails then .error .failed
      else match s.disk.readFile segment with
        | none => .error .ENOENT
        | some bytes => .ok bytes, s)
  match content with
  | .error err => return .error err
  | .ok bytes =>
    match headerOnly segment bytes with
    | none => return .error .EINVAL
    | some dataOffset =>
      .atomically fun s c =>
        if c.fails then some (.error .failed, s)
        else some (.ok ⟨segment, dataOffset, bytes.length⟩,
          { s with segmentFiles := { s.segmentFiles with segmentHandedOut := true } })

/-- `deleteSegment`. -/
def deleteSegment (segment : ℕ) : WalProg (Option Errno) := do
  let removed ← .atomically fun s c =>
    if segment ∉ s.segmentFiles.segmentList then some (some Errno.ENOENT, s)
    else if c.fails then some (some .failed, s)
    else some (none, { s with
      disk := s.disk.remove segment
      segmentFiles := { s.segmentFiles with
        segmentList := s.segmentFiles.segmentList.erase segment } })
  match removed with
  | some err => return some err
  | none => syncDirectory

/-! ### The preparer -/

/-- `startPreparer`: where its thread cannot be created, spares are prepared by the
thread that takes them. -/
def startPreparer : WalProg Unit :=
  .atomically fun s c =>
    if s.segmentFiles.preparerAlive ∨ ¬s.segmentFiles.opened ∨ c.fails then some ((), s)
    else some ((), { s with
      segmentFiles := { s.segmentFiles with preparerActive := true, preparerAlive := true } })

/-- `stopPreparer`: a preparation under way finishes first. -/
def stopPreparer : WalProg Unit := do
  let _ ← .modify fun s => ((), { s with
    segmentFiles := { s.segmentFiles with preparerActive := false } })
  .atomically fun s _ => if s.segmentFiles.preparerAlive then none else some ((), s)

/-- One turn of `preparerLoop`. -/
def preparerTurn : WalProg Unit := do
  let next ← .atomically fun s _ =>
    if ¬s.segmentFiles.preparerActive then
      some (none, { s with segmentFiles := { s.segmentFiles with preparerAlive := false } })
    else if s.segmentFiles.spare.isNone ∧ ¬s.segmentFiles.preparing ∧
        ¬s.segmentFiles.preparerFailed then
      some (some (s.segmentFiles.nextSegment, s.conf.segmentBytes), { s with
        segmentFiles := { s.segmentFiles with
          preparing := true
          nextSegment := s.segmentFiles.nextSegment + 1 } })
    else none
  match next with
  | none => return ()
  | some (segment, segmentBytes) => do
    let made ← prepare segment segmentBytes
    .modify fun s => ((), { s with
      segmentFiles :=
        match made with
        | .error _ => { s.segmentFiles with preparing := false, preparerFailed := true }
        | .ok spare => { s.segmentFiles with preparing := false, spare := some spare } })

end KeeperWal

end ChronoLog
