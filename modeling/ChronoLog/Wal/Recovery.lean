import ChronoLog.Wal.SegmentManager

/-!
# Recovery of a write-ahead log

The read of a log directory at startup (`WalRecovery.cpp`): every segment is read
and checked before anything is synced or written, the tail of the last group is
zeroed where it is torn, and the destroys a failed log could not take are applied.

## Main definitions

* `RecoveryError` — what a refusal names.
* `applyRecord`, `readSegment`, `readSegments` — the replay of the records.
* `newestWithData`, `checkOlder`, `checkNewest`, `checkEnds` — the rule for torn
  tails.
* `readLog` — everything that happens before the first file effect.
* `applyDrops` — the file of unlogged drops.
* `recoverWal` — the recovery as a program of file operations.
-/

namespace ChronoLog

open Wal (ScannedRecord BadFrame)

/-- Why an event does not decode, in the words of the message. -/
inductive Undecoded where
  | cutShort
  | lengthOverLimit
  deriving DecidableEq, Repr

/-- What a refusal names: the segment, the offset and the reason. -/
inductive RecoveryError where
  | cannotOpen (err : Errno)
  | cannotRead (segment : ℕ) (err : Errno)
  /-- The segment does not start with an H record: the type of its first record, or the
  bad frame it starts with. -/
  | noHeader (segment : ℕ) (firstType : Option UInt8) (bad : Option BadFrame)
  | formatVersion (segment version : ℕ)
  | unreadableHeader (segment : ℕ)
  | headerOf (segment other : ℕ)
  | undecodedNames (segment offset : ℕ)
  | codecVersion (segment offset : ℕ) (version : ℕ)
  | undecodedEvent (segment offset : ℕ) (why : Undecoded)
  | undecodedDrop (segment offset : ℕ)
  | undecodedGroup (segment offset : ℕ)
  | secondHeader (segment offset : ℕ)
  | unknownType (segment offset : ℕ) (type : UInt8)
  /-- A bad frame in a segment that is not the newest with data. -/
  | badRecord (segment : ℕ) (reason : BadFrame)
  /-- Data after the end of the records of such a segment. -/
  | dataAfterEnd (segment offset dataEnd : ℕ)
  /-- Records after the last group without a G record, then a torn tail. -/
  | recordsAfterGroup (segment groupEnd dataEnd : ℕ) (reason : Option BadFrame)
  /-- A torn tail inside a group that data follows. -/
  | dataAfterGroup (segment groupEnd offset : ℕ) (reason : Option BadFrame)
  | cannotSync (segment : ℕ) (err : Errno)
  | cannotZero (segment offset : ℕ) (err : Errno)
  | cannotSyncDirectory (err : Errno)
  | cannotReadDrops (err : Errno)
  deriving DecidableEq, Repr

/-! ### Records -/

namespace RecoveredState

/-- `storyOf`: the story, added where it is new. -/
def storyOf (state : RecoveredState) (storyId : StoryId) : RecoveredStory :=
  state.stories[storyId]?.getD { walStoryId := storyId }

/-- The state with a story replaced. -/
def setStory (state : RecoveredState) (storyId : StoryId) (story : RecoveredStory) :
    RecoveredState :=
  { state with stories := state.stories.insert storyId story }

/-- An N record: the later names stay. -/
def applyNames (state : RecoveredState) (names : Wal.NamesRecord) : RecoveredState :=
  state.setStory names.storyId { state.storyOf names.storyId with
    hasNames := true
    chronicle := names.chronicle
    story := names.story }

/-- An E record: copies of one identity collapse, and the first one is replayed. -/
def applyEvent (state : RecoveredState) (segment : ℕ) (event : LogEvent) (frameBytes : ℕ) :
    RecoveredState :=
  let story := state.storyOf event.storyId
  state.setStory event.storyId { story with
    events := story.events.insertIfNew event.sequence event
    copies := story.copies.insert event.sequence
      ((story.copies[event.sequence]?.getD []) ++ [(segment, frameBytes)]) }

/-- A D record: the story's events so far go, its names stay. -/
def applyDropped (state : RecoveredState) (segment : ℕ) (storyId : StoryId) : RecoveredState :=
  { state with
    stories := state.stories.alter storyId fun story => story.map fun story =>
      { story with events := ∅, copies := ∅ }
    droppedIn := state.droppedIn.insert segment
      ((state.droppedIn[segment]?.getD []) ++ [storyId]) }

end RecoveredState

/-- `applyRecord`: one record after the H, in log order. -/
def applyRecord (record : ScannedRecord) (segment : ℕ) (state : RecoveredState) :
    Except RecoveryError RecoveredState :=
  if record.type = Wal.RecordType.Names.byte then
    match Wal.decodeNames record.body with
    | none => .error (.undecodedNames segment record.offset)
    | some names => .ok (state.applyNames names)
  else if record.type = Wal.RecordType.Event.byte then
    match decodeLogEvent (record.body.drop 1) with
    | .error .UnsupportedVersion =>
      .error (.codecVersion segment record.offset ((record.body.drop 1).headD 0).toNat)
    | .error .Truncated => .error (.undecodedEvent segment record.offset .cutShort)
    | .error .TooLarge => .error (.undecodedEvent segment record.offset .lengthOverLimit)
    | .ok (event, _) =>
      .ok (state.applyEvent segment event (Wal.kFrameHeaderBytes + record.body.length))
  else if record.type = Wal.RecordType.Dropped.byte then
    match Wal.decodeDropped record.body with
    | none => .error (.undecodedDrop segment record.offset)
    | some storyId => .ok (state.applyDropped segment storyId)
  else if record.type = Wal.RecordType.Group.byte then
    match Wal.decodeGroup record.body with
    | none => .error (.undecodedGroup segment record.offset)
    | some bytes =>
      if bytes < Wal.kGroupFrameBytes then .error (.undecodedGroup segment record.offset)
      else .ok state
  else if record.type = Wal.RecordType.Header.byte then
    .error (.secondHeader segment record.offset)
  else .error (.unknownType segment record.offset record.type)

/-- The records of a segment after its H, in log order. -/
def applyRecords (segment : ℕ) : List ScannedRecord → RecoveredState →
    Except RecoveryError RecoveredState
  | [], state => .ok state
  | record :: records, state => do
    applyRecords segment records (← applyRecord record segment state)

/-! ### Segments -/

/-- `firstNonZero`: the first byte at or after `start` that is not zero. -/
def firstNonZero (bytes : Bytes) (start : ℕ) : Option ℕ :=
  ((bytes.drop start).findIdx? fun b => b ≠ 0).map fun i => start + i

/-- `SegmentEnd`: where the records of a segment end. -/
structure SegmentEnd where
  segment : ℕ
  size : ℕ
  /-- The end of the H frame. -/
  headerEnd : ℕ
  /-- The zero length, the bad frame, or the end of the file. -/
  dataEnd : ℕ
  badFrame : Option BadFrame
  /-- The first nonzero byte at or after `dataEnd`. -/
  afterEnd : Option ℕ
  /-- The end of the group that the last whole G record starts. -/
  groupEnd : Option ℕ
  /-- The first nonzero byte at or after that, when the data ends inside the group. -/
  afterGroup : Option ℕ
  deriving DecidableEq, Repr

namespace SegmentEnd

/-- `dataAfterHeader`. -/
def dataAfterHeader (ends : SegmentEnd) : Bool :=
  decide (ends.headerEnd < ends.dataEnd) || ends.afterEnd.isSome

/-- The segment ends in a bad frame, or bytes follow its data. -/
def tornTail (ends : SegmentEnd) : Bool := ends.badFrame.isSome || ends.afterEnd.isSome

end SegmentEnd

/-- The end of the group of a G record that decodes. -/
def groupEndOf (record : ScannedRecord) : Option ℕ :=
  if record.type = Wal.RecordType.Group.byte then
    (Wal.decodeGroup record.body).map fun bytes => record.offset + bytes
  else none

/-- The end of the group that the last G record starts. -/
def lastGroupEnd (records : List ScannedRecord) : Option ℕ :=
  records.reverse.findSome? groupEndOf

/-- The end of a segment with the given scan. -/
def segmentEnd (segment : ℕ) (bytes : Bytes) (header : ScannedRecord)
    (records : List ScannedRecord) (endOffset : ℕ) (bad : Option BadFrame) : SegmentEnd where
  segment := segment
  size := bytes.length
  headerEnd := Wal.kFrameHeaderBytes + header.body.length
  dataEnd := endOffset
  badFrame := bad
  afterEnd := firstNonZero bytes endOffset
  groupEnd := lastGroupEnd records
  afterGroup := (lastGroupEnd records).bind fun groupEnd =>
    if endOffset < groupEnd ∧ groupEnd < bytes.length then firstNonZero bytes groupEnd else none

/-- `readSegment` on the bytes of a segment. -/
def readSegment (segment : ℕ) (bytes : Bytes) (state : RecoveredState) :
    Except RecoveryError (RecoveredState × SegmentEnd) := do
  let state := { state with bytesRead := state.bytesRead + bytes.length }
  let scan := Wal.scanSegment bytes
  match scan.records with
  | [] => .error (.noHeader segment none scan.badFrame)
  | header :: records =>
    if header.type ≠ Wal.RecordType.Header.byte then
      .error (.noHeader segment (some header.type) none)
    else
      match Wal.decodeHeader header.body with
      | (version, none) =>
        if version ≠ 0 ∧ version ≠ Wal.kFormatVersion then .error (.formatVersion segment version)
        else .error (.unreadableHeader segment)
      | (_, some fields) =>
        if fields.segmentNumber ≠ segment then .error (.headerOf segment fields.segmentNumber)
        else do
          let state ← applyRecords segment records state
          return (state, segmentEnd segment bytes header records scan.endOffset scan.badFrame)

/-- Every segment read, oldest first. -/
def readSegments : List (ℕ × Bytes) → RecoveredState →
    Except RecoveryError (RecoveredState × List SegmentEnd)
  | [], state => .ok (state, [])
  | (segment, bytes) :: segments, state => do
    let (state, ends) ← readSegment segment bytes state
    let (state, rest) ← readSegments segments state
    return (state, ends :: rest)

/-! ### Torn tails -/

/-- The segments up to the newest one with data after its H: those before it, and it. -/
def newestWithData : List SegmentEnd → Option (List SegmentEnd × SegmentEnd)
  | [] => none
  | ends :: rest =>
    match newestWithData rest with
    | some (older, newest) => some (ends :: older, newest)
    | none => if ends.dataAfterHeader then some ([], ends) else none

/-- A segment that is not the newest with data must end in zeros. -/
def checkOlder (ends : SegmentEnd) : Except RecoveryError Unit :=
  match ends.badFrame with
  | some reason => .error (.badRecord ends.segment reason)
  | none =>
    match ends.afterEnd with
    | some offset => .error (.dataAfterEnd ends.segment offset ends.dataEnd)
    | none => .ok ()

/-- The checks of the older segments, oldest first. -/
def checkAllOlder : List SegmentEnd → Except RecoveryError Unit
  | [] => .ok ()
  | ends :: rest => do
    checkOlder ends
    checkAllOlder rest

/-- In the newest segment with data a torn tail must lie in the last group. -/
def checkNewest (ends : SegmentEnd) : Except RecoveryError Unit :=
  if ends.tornTail then
    match ends.groupEnd with
    | none => .ok ()
    | some groupEnd =>
      if groupEnd < ends.dataEnd then
        .error (.recordsAfterGroup ends.segment groupEnd ends.dataEnd ends.badFrame)
      else
        match ends.afterGroup with
        | some offset => .error (.dataAfterGroup ends.segment groupEnd offset ends.badFrame)
        | none => .ok ()
  else .ok ()

/-- What the checks leave to do: the segment whose tail is to be zeroed. -/
def tornSegment (ends : List SegmentEnd) : Option SegmentEnd :=
  (newestWithData ends).bind fun (_, newest) =>
    if newest.afterEnd.isSome then some newest else none

/-- The checks of every segment end. -/
def checkEnds (ends : List SegmentEnd) : Except RecoveryError Unit :=
  match newestWithData ends with
  | none => .ok ()
  | some (older, newest) => do
    checkAllOlder older
    checkNewest newest

/-- Everything recovery does before its first file effect: what the records say, and
where each segment ends. -/
def readLog (segments : List (ℕ × Bytes)) :
    Except RecoveryError (RecoveredState × List SegmentEnd) := do
  let (state, ends) ← readSegments segments { segments := segments.map Prod.fst }
  checkEnds ends
  return (state, ends)

/-! ### Drops the log could not take -/

/-- Every copy lies in a segment up to the one the line names. -/
def beforeTheDrop (drop : UnloggedDrop) (copies : List (ℕ × ℕ)) : Bool :=
  copies.all fun copy => copy.1 ≤ drop.lastSegment

/-- The story without the events the line drops. -/
def RecoveredStory.applyDrop (story : RecoveredStory) (drop : UnloggedDrop) : RecoveredStory :=
  { story with
    events := story.events.filter fun event _ =>
      !(story.copies[event]?.any (beforeTheDrop drop))
    copies := story.copies.filter fun _ copies => !beforeTheDrop drop copies }

/-- One line of the file of unlogged drops. -/
def RecoveredState.applyDrop (state : RecoveredState) (drop : UnloggedDrop) : RecoveredState :=
  { state with
    stories := state.stories.alter drop.storyId fun story =>
      story.map fun story => story.applyDrop drop }

/-- The lines of the file of unlogged drops. -/
def applyDrops (drops : List UnloggedDrop) (state : RecoveredState) : RecoveredState :=
  drops.foldl RecoveredState.applyDrop state

/-- The lines that still have segments to drop events from. -/
def stillNeeded (segments : List ℕ) (drops : List UnloggedDrop) : List UnloggedDrop :=
  match segments with
  | [] => []
  | oldest :: _ => drops.filter fun drop => oldest ≤ drop.lastSegment

/-- Stories left with no events are not returned. -/
def withoutEmptyStories (state : RecoveredState) : RecoveredState :=
  { state with stories := state.stories.filter fun _ story => !story.events.isEmpty }

/-- The newest segment, where it holds only its H record once a torn tail is gone. -/
def reusableSpareOf (ends : List SegmentEnd) (torn : Option SegmentEnd) : Option ℕ :=
  ends.getLast?.bind fun last =>
    let last := if torn = some last then { last with afterEnd := none } else last
    if last.dataAfterHeader then none else some last.segment

/-- What recovery returns for the segments and drops it read. -/
def recoveredState (state : RecoveredState) (ends : List SegmentEnd)
    (drops : List UnloggedDrop) : RecoveredState :=
  withoutEmptyStories (applyDrops drops
    { state with reusableSpare := reusableSpareOf ends (tornSegment ends) })

/-! ### The program -/

namespace KeeperWal

open Concurrent (Prog)

/-- `readFile` on a segment. -/
def readFile (segment : ℕ) : WalProg (Except Errno Bytes) :=
  .atomically fun s c =>
    some (if c.fails then .error .failed
      else match s.disk.readFile segment with
        | none => .error .ENOENT
        | some bytes => .ok bytes, s)

/-- Every segment read from its file, oldest first, with `readSegment` after each. -/
def readFiles : List ℕ → RecoveredState →
    WalProg (Except RecoveryError (RecoveredState × List SegmentEnd))
  | [], state => return .ok (state, [])
  | segment :: segments, state => do
    match ← readFile segment with
    | .error err => return .error (.cannotRead segment err)
    | .ok bytes =>
      match readSegment segment bytes state with
      | .error err => return .error err
      | .ok (state, ends) =>
        match ← readFiles segments state with
        | .error err => return .error err
        | .ok (state, rest) => return .ok (state, ends :: rest)

/-- The data syncs of the segments that are not torn. -/
def syncSegments (torn : Option ℕ) : List ℕ → WalProg (Option RecoveryError)
  | [] => return none
  | segment :: segments => do
    if torn = some segment then syncSegments torn segments
    else
      match ← syncData segment with
      | some err => return some (.cannotSync segment err)
      | none => syncSegments torn segments

/-- `zeroTail`: zeros from the end of the data, and a data sync. -/
def zeroTail (ends : SegmentEnd) : WalProg (Option Errno) := do
  match ← partialOp with
  | some err => return some err
  | none =>
    match ← writeZeros ends.segment ends.dataEnd (ends.size - ends.dataEnd) with
    | some err => return some err
    | none => syncData ends.segment

/-- The torn tail is copied to a file that is never read, whose failure does not matter,
and zeroed. -/
def eraseTornTail : Option SegmentEnd → WalProg (Option RecoveryError)
  | none => return none
  | some ends => do
    let _ ← partialOps 6
    match ← zeroTail ends with
    | some err => return some (.cannotZero ends.segment ends.dataEnd err)
    | none => return none

/-- The directory sync of a log with segments. -/
def syncLogDirectory (ends : List SegmentEnd) : WalProg (Option Errno) :=
  if ends.isEmpty then return none else syncDirectory

/-- The file of unlogged drops read and pruned. -/
def recoverDrops (segments : List ℕ) : WalProg (Except Errno (List UnloggedDrop)) := do
  match ← readUnloggedDrops with
  | .error err => return .error err
  | .ok drops =>
    if (stillNeeded segments drops).length ≠ drops.length then
      -- the stale lines only drop events from segments that are gone
      let _ ← writeUnloggedDrops (stillNeeded segments drops)
      return .ok drops
    else return .ok drops

/-- What follows once every segment is read. -/
def finishRecovery (state : RecoveredState) (ends : List SegmentEnd) :
    WalProg (Except RecoveryError RecoveredState) := do
  match ← syncSegments ((tornSegment ends).map SegmentEnd.segment) state.segments with
  | some err => return .error err
  | none =>
    match ← eraseTornTail (tornSegment ends) with
    | some err => return .error err
    | none =>
      match ← syncLogDirectory ends with
      | some err => return .error (.cannotSyncDirectory err)
      | none =>
        match ← recoverDrops state.segments with
        | .error err => return .error (.cannotReadDrops err)
        | .ok drops => return .ok (recoveredState state ends drops)

/-- `recoverWal`. -/
def recoverWal : WalProg (Except RecoveryError RecoveredState) := do
  match ← openSegments with
  | some err => return .error (.cannotOpen err)
  | none =>
    let segments ← .modify fun s => (s.segmentFiles.segmentList, s)
    match ← readFiles segments { segments := segments } with
    | .error err => return .error err
    | .ok (state, ends) =>
      match checkEnds ends with
      | .error err => return .error err
      | .ok () => finishRecovery state ends

end KeeperWal

end ChronoLog
