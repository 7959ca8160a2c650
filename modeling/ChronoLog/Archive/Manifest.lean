import ChronoLog.Archive.Layout

/-!
# The records of the archive manifest

Every grapher keeps a log of what it published to the archive and what it deleted from
it; players read the logs to find the files of a story.  A record is one line of JSON
text in the source, whose numbers are stored as `int64`; here a log is the list of its
records, and a record that would not read back is refused, as it is in the source.

## Main definitions

* `ArchivePath` — the path of a file, relative to the archive's root.
* `ArchiveManifestRecord` — a record of the log.
* `ArchiveManifestRecord.storable` — what `append` checks before it writes.
-/

namespace ChronoLog.Archive

def UINT64_MAX : ℕ := 2 ^ 64 - 1

def INT64_MAX : ℕ := 2 ^ 63 - 1

/-- A file's path relative to the archive's root: the directories of its chronicle and its
story, and its name. -/
structure ArchivePath where
  chronicleDir : String
  storyDir : String
  filename : String
  deriving DecidableEq, Repr

/-- `storyArchiveDirectory` and a file name in it. -/
def storyArchivePath (chronicle : ChronicleName) (story : StoryName) (filename : String) :
    ArchivePath where
  chronicleDir := encodeArchiveName chronicle
  storyDir := encodeArchiveName story
  filename := filename

/-- A record.  The header of a log, which a reader never returns, is left out. -/
inductive ArchiveManifestRecord where
  /-- A file was published; it covers the times from `start` up to `stop`. -/
  | publish (chronicle : ChronicleName) (story : StoryName) (file : ArchivePath)
      (start stop events : ℕ)
  /-- The files of a story were deleted, or those of every story of the chronicle when
  no story is given. -/
  | delete (chronicle : ChronicleName) (story : Option StoryName)
      (writer_start incarnation_bound : ℕ)
  deriving DecidableEq, Repr

/-- The numbers of a record are stored as `int64`, and a bound of `UINT64_MAX` is not
stored at all. -/
def ArchiveManifestRecord.storable : ArchiveManifestRecord → Bool
  | .publish _ _ _ start stop events =>
    start ≤ INT64_MAX && stop ≤ INT64_MAX && events ≤ INT64_MAX
  | .delete _ _ writer_start incarnation_bound =>
    incarnation_bound = UINT64_MAX ||
      (incarnation_bound ≤ INT64_MAX && writer_start ≤ INT64_MAX)

end ChronoLog.Archive
