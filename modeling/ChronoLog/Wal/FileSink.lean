import ChronoLog.Lib.Prog
import ChronoLog.Wal.Format

/-!
# The directory of the write-ahead log

The files the log is kept in, as the operations of `WalFileSink.cpp` change them,
with what a crash may leave of them.  A segment file keeps the contents it had
since its last successful data sync, since each byte may survive from any of
them; a link made or removed since the last successful directory sync may be
there or not.  Files that end in `.partial` and the copies of torn tails are
never read, so they are not part of the directory.

## Main definitions

* `SegmentFile`, `Disk` — the files and what is not yet durable about them.
* `Choice` — what the environment decides at an atomic action.
* `Disk.writeAt`, `Disk.syncData`, `Disk.link`, `Disk.remove`,
  `Disk.syncDirectory`, `Disk.renameDrops` — the operations that succeed.
* `UnloggedDrop` — a line of the file of drops the log could not take.
-/

namespace ChronoLog

/-- The error values the code tells apart; `failed` stands for those the device and
the kernel return. -/
inductive Errno where
  | ENOENT
  | EINVAL
  | EBADF
  | failed
  deriving DecidableEq, Repr

/-- What the environment decides at an atomic action. -/
structure Choice where
  /-- A file operation fails. -/
  fails : Bool := false
  /-- How many bytes of a failed write reached the file. -/
  written : ℕ := 0
  /-- What a clock or a thread creation answers where the code asks one. -/
  flag : Bool := false
  /-- The time in nanoseconds. -/
  nowNs : ℕ := 0
  /-- The free and total bytes of the file system. -/
  freeBytes : ℕ := 0
  totalBytes : ℕ := 0
  /-- The bytes of the retention store that the grapher has not confirmed. -/
  unconfirmedBytes : ℕ := 0

/-- A destroy kept outside the segments: the story's events whose copies all lie
in segments up to `lastSegment` belong to the destroyed story. -/
structure UnloggedDrop where
  storyId : StoryId
  lastSegment : ℕ
  deriving DecidableEq, Repr

/-- A segment file. -/
structure SegmentFile where
  /-- What a read returns. -/
  content : Bytes
  /-- The contents since the last successful data sync that were overwritten. -/
  unsynced : List Bytes := []
  /-- A listing of the directory names the file. -/
  linked : Bool := true
  /-- The link was made or removed since the last successful directory sync. -/
  linkUnsynced : Bool := true
  deriving DecidableEq

/-- The directory of the log: its segment files by number, and the file of unlogged
drops with the versions it had since the last successful directory sync. -/
structure Disk where
  segments : OrdMap ℕ SegmentFile
  drops : Option (List UnloggedDrop)
  olderDrops : List (Option (List UnloggedDrop))

namespace Disk

/-- An empty directory. -/
def empty : Disk := ⟨∅, none, []⟩

/-- What a read of a segment returns. -/
def readFile (disk : Disk) (segment : ℕ) : Option Bytes :=
  (disk.segments[segment]?.filter SegmentFile.linked).map SegmentFile.content

/-- What a read of a range of a segment returns. -/
def readRange (disk : Disk) (segment offset bytes : ℕ) : Bytes :=
  (((disk.readFile segment).getD []).drop offset).take bytes

/-- The segments a listing names, oldest first. -/
def list (disk : Disk) : List ℕ :=
  (disk.segments.toList.filter fun entry => entry.2.linked).map Prod.fst

/-- The segments a listing names with what a read of each returns, oldest first. -/
def image (disk : Disk) : List (ℕ × Bytes) :=
  (disk.segments.toList.filter fun entry => entry.2.linked).map fun entry =>
    (entry.1, entry.2.content)

/-- The bytes with `data` written at `offset`; a gap before it reads as zeros. -/
def overwrite (content : Bytes) (offset : ℕ) (data : Bytes) : Bytes :=
  (content ++ List.replicate (offset - content.length) 0).take offset ++ data ++
    content.drop (offset + data.length)

/-- Bytes written to a segment and not yet synced. -/
def writeAt (disk : Disk) (segment offset : ℕ) (data : Bytes) : Disk :=
  { disk with
    segments := disk.segments.alter segment fun file => file.map fun file =>
      { file with
        content := overwrite file.content offset data
        unsynced := file.content :: file.unsynced } }

/-- A successful data sync: what a read returns is what survives. -/
def syncData (disk : Disk) (segment : ℕ) : Disk :=
  { disk with
    segments := disk.segments.alter segment fun file => file.map fun file =>
      { file with unsynced := [] } }

/-- A prepared and synced file renamed into place as a segment. -/
def link (disk : Disk) (segment : ℕ) (content : Bytes) : Disk :=
  { disk with segments := disk.segments.insert segment { content := content } }

/-- A segment removed from the directory. -/
def remove (disk : Disk) (segment : ℕ) : Disk :=
  { disk with
    segments := disk.segments.alter segment fun file => file.map fun file =>
      { file with linked := false, linkUnsynced := true } }

/-- A successful directory sync: the links are as a listing shows them, and so is
the file of drops. -/
def syncDirectory (disk : Disk) : Disk where
  segments := (disk.segments.filter fun _ file => file.linked).map fun _ file =>
    { file with linkUnsynced := false }
  drops := disk.drops
  olderDrops := []

/-- A prepared and synced file of drops renamed into place. -/
def renameDrops (disk : Disk) (drops : List UnloggedDrop) : Disk :=
  { disk with drops := some drops, olderDrops := disk.drops :: disk.olderDrops }

/-- The file of drops removed. -/
def removeDrops (disk : Disk) : Disk :=
  { disk with drops := none, olderDrops := disk.drops :: disk.olderDrops }

end Disk

end ChronoLog
