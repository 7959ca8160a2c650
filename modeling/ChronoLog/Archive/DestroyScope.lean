import ChronoLog.Archive.Manifest
import ChronoLog.Player.ArchiveIndex
import ChronoLog.Lib.Transition

/-!
# What a destroy deletes and what a player forgets

A destroy is requested at once and carried out later, when the story may have been
created again and the new story's files are in the same directory.  The grapher decides
by the name of a file whether the destroy covers it: a file of its own process if the
number of the pipeline is not above the one that was current at the request, and every
file of an earlier process of its group.  It then appends a deletion to its log, and a
player decides by the record which of the files in its index it drops.

This module follows one recording group: its grapher processes, one after another, the
files of the archive and the group's log.  Other graphers may put files into the archive
and remove theirs.  A publish is the file and its record; a window whose record is refused
has its file removed.

## Main definitions

* `coveredByDestroy`, `deleteStoryFiles`, `deleteChronicleFiles` — the grapher's side.
* `GroupArchive`, `groupArchive` — the histories of one group.
* `deletedBy`, `droppedBy` — the files that go from the archive and from a player's index.

## Main results

* `destroy_scopes_agree` — both sides let go of the same files of the group, and of none
  that belongs to a pipeline created after the request.
-/

namespace ChronoLog.Archive

open Transition

/-- A file of the archive and the time it was last modified. -/
structure ArchiveFile where
  path : ArchivePath
  modified : ℕ
  deriving DecidableEq, Repr

/-- `StoryChunkWriter::writerTag`, read back: the recording group and the start time of the
process. -/
structure WriterTag where
  recording_group : ℕ
  process_start : ℕ
  deriving DecidableEq, Repr

/-- `ArchiveDestroyScope`; no `requested_at` is the default, the largest time. -/
structure DestroyScope where
  incarnation_bound : ℕ := UINT64_MAX
  requested_at : Option ℕ := none
  deriving DecidableEq, Repr

/-- 120 s in nanoseconds. -/
def kForeignFileMargin : ℕ := 120000000000

/-- `coveredByDestroy`. -/
def coveredByDestroy (tag : WriterTag) (scope : DestroyScope) (file : ArchiveFile) : Bool :=
  -- another grapher's file, or one named before writer tags: by its age
  let byAge := scope.requested_at.all fun at_ => file.modified + kForeignFileMargin < at_
  match parseWindowFileName file.path.filename with
  | none => byAge
  | some parsed =>
    if parsed.recording_group = tag.recording_group then
      if parsed.writer_start = tag.process_start then
        parsed.incarnation ≤ scope.incarnation_bound
      else true
    else byAge

/-- What `deleteStoryDirectory` deletes in a directory. -/
def deletable (tag : WriterTag) (scope : DestroyScope) (file : ArchiveFile) : Bool :=
  isWindowFileName file.path.filename && coveredByDestroy tag scope file

/-- `delete_story_files`, or `delete_chronicle_files` when no story is given: every story
directory of the chronicle's. -/
def deleteFiles (tag : WriterTag) (disk : List ArchiveFile) (chronicle : ChronicleName)
    (story : Option StoryName) (scope : DestroyScope) : List ArchiveFile :=
  disk.filter fun file =>
    !(file.path.chronicleDir = encodeArchiveName chronicle &&
      story.all (fun s => file.path.storyDir = encodeArchiveName s) && deletable tag scope file)

/-- The record `recordDeletion` appends. -/
def deletionRecord (tag : WriterTag) (chronicle : ChronicleName) (story : Option StoryName)
    (scope : DestroyScope) : ArchiveManifestRecord :=
  if scope.incarnation_bound ≠ UINT64_MAX then
    .delete chronicle story tag.process_start scope.incarnation_bound
  else .delete chronicle story 0 UINT64_MAX

/-- A pipeline, with the number its process gave it. -/
structure Pipeline where
  chronicle : ChronicleName
  story : StoryName
  incarnation : ℕ
  deriving DecidableEq, Repr

/-- A destroy that waits for the worker.  `known` is not in the source: the pipelines the
process had created when the destroy was requested. -/
structure DestroyTask where
  chronicle : ChronicleName
  story : Option StoryName
  scope : DestroyScope
  known : List Pipeline
  deriving DecidableEq, Repr

/-- The archive and one group's grapher process and log. -/
structure GroupArchive where
  process_start : ℕ
  latestIncarnation : ℕ := 0
  sequence : ℕ := 0
  /-- The pipelines this process has created; a window of any of them may still be
  published. -/
  pipelines : List Pipeline := []
  destroyQueue : List DestroyTask := []
  disk : List ArchiveFile := []
  log : List ArchiveManifestRecord := []
  deriving DecidableEq, Repr

/-- The names tried for a window: the first that no file has. -/
def firstFreeName (disk : List ArchiveFile) (chronicle : ChronicleName) (story : StoryName)
    (base_file_name : String) : ℕ → ℕ → Option ArchivePath
  | 0, _ => none
  | tries + 1, n =>
    let path := storyArchivePath chronicle story (numberedFileName base_file_name n)
    if disk.any fun file => file.path = path then
      firstFreeName disk chronicle story base_file_name tries (n + 1)
    else some path

/-- What can happen in a history of the group. -/
inductive ArchiveStep where
  /-- The process ends, and another one starts at the given time. -/
  | restart (process_start : ℕ)
  | createPipeline (chronicle : ChronicleName) (story : StoryName)
  /-- A window of a pipeline is written and recorded at the given time. -/
  | publish (pipeline : Pipeline) (start stop events now : ℕ)
  /-- A destroy of a story, or of a chronicle, arrives at the given time. -/
  | destroy (chronicle : ChronicleName) (story : Option StoryName) (now : ℕ)
  /-- The worker carries out the oldest destroy. -/
  | processDestroy
  /-- Other graphers put a file into the archive or remove one of theirs. -/
  | foreignFile (file : ArchiveFile)
  | foreignRemoval (path : ArchivePath)
  deriving DecidableEq, Repr

/-- The file is named as a window file of the group. -/
def ofGroup (group : ℕ) (path : ArchivePath) : Bool :=
  (parseWindowFileName path.filename).any fun parsed => parsed.recording_group = group

namespace GroupArchive

variable (group : ℕ)

def tag (a : GroupArchive) : WriterTag := ⟨group, a.process_start⟩

/-- `process_chunk` for a window of the pipeline. -/
def publish (a : GroupArchive) (p : Pipeline) (start stop events now : ℕ) :
    Option GroupArchive := do
  let base := windowFileName start group a.process_start p.incarnation a.sequence
  let path ← firstFreeName a.disk p.chronicle p.story base kMaxFilesPerWindow 0
  let record := ArchiveManifestRecord.publish p.chronicle p.story path start stop events
  if record.storable then
    return { a with sequence := a.sequence + 1
                    disk := a.disk ++ [⟨path, now⟩]
                    log := a.log ++ [record] }
  else
    -- the record is refused, and the file removed again
    return { a with sequence := a.sequence + 1 }

/-- `destroyStory` and `destroyChronicle`: the bound is fixed when the destroy arrives. -/
def destroy (a : GroupArchive) (chronicle : ChronicleName) (story : Option StoryName) (now : ℕ) :
    GroupArchive :=
  let task : DestroyTask :=
    { chronicle := chronicle, story := story, known := a.pipelines
      scope := { incarnation_bound := a.latestIncarnation, requested_at := some now } }
  { a with destroyQueue := a.destroyQueue ++ [task] }

/-- The worker's part; the destroy counts as processed when its record is appended. -/
def processDestroy (a : GroupArchive) : Option GroupArchive :=
  match a.destroyQueue with
  | [] => none
  | task :: rest =>
    let record := deletionRecord (a.tag group) task.chronicle task.story task.scope
    if record.storable then
      some { a with destroyQueue := rest
                    disk := deleteFiles (a.tag group) a.disk task.chronicle task.story task.scope
                    log := a.log ++ [record] }
    else none

/-- A step of the history.  The numbers the steps choose fit their types; a process that
has used up the numbers of its pipelines or of its files takes no further step. -/
def step (a : GroupArchive) : ArchiveStep → Option GroupArchive
  | .restart process_start =>
    if process_start < 2 ^ 64 then
      some { process_start := process_start, disk := a.disk, log := a.log }
    else none
  | .createPipeline chronicle story =>
    if a.latestIncarnation + 1 < 2 ^ 64 then
      let p : Pipeline := ⟨chronicle, story, a.latestIncarnation + 1⟩
      some { a with latestIncarnation := a.latestIncarnation + 1, pipelines := a.pipelines ++ [p] }
    else none
  | .publish p start stop events now =>
    if p ∈ a.pipelines ∧ start < 2 ^ 64 ∧ a.sequence < 2 ^ 64 then
      a.publish group p start stop events now
    else none
  | .destroy chronicle story now => some (a.destroy chronicle story now)
  | .processDestroy => a.processDestroy group
  | .foreignFile file =>
    if ofGroup group file.path then none else some { a with disk := a.disk ++ [file] }
  | .foreignRemoval path =>
    if ofGroup group path then none
    else some { a with disk := a.disk.filter fun file => file.path ≠ path }

end GroupArchive

/-- The histories of the recording group. -/
def groupArchive (group : ℕ) : System GroupArchive ArchiveStep where
  Initial a := ∃ process_start < 2 ^ 64, a = { process_start := process_start }
  step a l := a.step group l

/-- The files of the group that are in the archive before and not after. -/
def deletedBy (group : ℕ) (a a' : GroupArchive) : Set ArchivePath :=
  { path | ofGroup group path = true ∧ path ∈ a.disk.map ArchiveFile.path ∧
      path ∉ a'.disk.map ArchiveFile.path }

/-- The files a player drops from its index when it goes on from the log before to the log
after. -/
def droppedBy (log : ℕ) (a a' : GroupArchive) : Set ArchivePath :=
  { path | Names (readLog log a.log) path ∧ ¬Names (readLog log a'.log) path }

/-! ### The two decisions -/

theorem incarnation_lt_of_parse {name : String} {parsed : WindowFileName}
    (h : parseWindowFileName name = some parsed) : parsed.incarnation < 2 ^ 64 := by
  have hstoull : ∀ {digits : List Char} {n : ℕ}, stoull digits = some n → n < 2 ^ 64 := by
    intro digits n hn
    simp only [stoull] at hn
    split at hn
    · next hlt =>
      injection hn with hn
      rwa [hn] at hlt
    · cases hn
  unfold parseWindowFileName at h
  split at h
  · split at h
    · simp only [bind, pure, Option.bind_eq_some_iff] at h
      obtain ⟨_, -, _, -, _, -, incarnation, hincarnation, _, -, heq⟩ := h
      injection heq with heq
      rw [← heq]
      exact hstoull hincarnation
    · cases h
  · cases h

/-- **The record covers the files of the group that the destroy covers.** -/
theorem covers_deletionRecord (tag : WriterTag) (chronicle : ChronicleName)
    (story : Option StoryName) (scope : DestroyScope) :
    ∃ writer_start bound,
      deletionRecord tag chronicle story scope = .delete chronicle story writer_start bound ∧
      ∀ file : ArchiveFile, ofGroup tag.recording_group file.path = true →
        covers writer_start bound file.path.filename = coveredByDestroy tag scope file := by
  have hparse : ∀ file : ArchiveFile, ofGroup tag.recording_group file.path = true →
      ∃ parsed, parseWindowFileName file.path.filename = some parsed ∧
        parsed.recording_group = tag.recording_group := by
    intro file hgroup
    obtain ⟨parsed, hparsed, hg⟩ := (Option.any_eq_true _ _).mp hgroup
    exact ⟨parsed, hparsed, of_decide_eq_true hg⟩
  by_cases hbound : scope.incarnation_bound = UINT64_MAX
  · refine ⟨0, UINT64_MAX, by simp [deletionRecord, hbound], fun file hgroup => ?_⟩
    obtain ⟨parsed, hparsed, hg⟩ := hparse file hgroup
    have hlt := incarnation_lt_of_parse hparsed
    have hle : parsed.incarnation ≤ UINT64_MAX := by
      unfold UINT64_MAX
      omega
    simp [covers, coveredByDestroy, hparsed, hg, hbound, hle]
  · refine ⟨tag.process_start, scope.incarnation_bound, by simp [deletionRecord, hbound],
      fun file hgroup => ?_⟩
    obtain ⟨parsed, hparsed, hg⟩ := hparse file hgroup
    simp only [covers, hbound, if_false, hparsed, coveredByDestroy, hg, if_true]
    by_cases hstart : parsed.writer_start = tag.process_start
    · simp [hstart]
    · simp [hstart]

/-- The directory of the file is one the destroy looks into. -/
def InScope (chronicle : ChronicleName) (story : Option StoryName) (path : ArchivePath) : Prop :=
  path.chronicleDir = encodeArchiveName chronicle ∧
    ∀ s ∈ story, path.storyDir = encodeArchiveName s

theorem mem_deleteFiles {tag : WriterTag} {disk : List ArchiveFile} {chronicle : ChronicleName}
    {story : Option StoryName} {scope : DestroyScope} {file : ArchiveFile} :
    file ∈ deleteFiles tag disk chronicle story scope ↔
      file ∈ disk ∧ ¬(InScope chronicle story file.path ∧ deletable tag scope file = true) := by
  rw [deleteFiles, List.mem_filter]
  refine and_congr_right fun _ => ?_
  rw [Bool.not_eq_true', ← Bool.not_eq_true, not_iff_not]
  cases story <;> simp [InScope, and_assoc]

/-! ### The invariant of a history -/

/-- The files of the group in the archive are those a player's index of the log names, and
the bound of a destroy is below the number of every pipeline created after it. -/
structure Agree (group log : ℕ) (a : GroupArchive) : Prop where
  names : ∀ path, ofGroup group path = true →
    (path ∈ a.disk.map ArchiveFile.path ↔ Names (readLog log a.log) path)
  logs : ∀ key t, ∀ file ∈ filesAt (readLog log a.log) key t, file.logs = [log]
  dirs : ∀ key t, ∀ file ∈ filesAt (readLog log a.log) key t,
    file.path.chronicleDir = encodeArchiveName key.1 ∧
      file.path.storyDir = encodeArchiveName key.2
  named : ∀ key t, ∀ file ∈ filesAt (readLog log a.log) key t,
    ofGroup group file.path = true ∧ isWindowFileName file.path.filename = true
  pipelines : ∀ p ∈ a.pipelines, p.incarnation ≤ a.latestIncarnation
  latest : a.latestIncarnation < 2 ^ 64
  start : a.process_start < 2 ^ 64
  tasks : ∀ task ∈ a.destroyQueue, task.scope.incarnation_bound ≤ a.latestIncarnation ∧
    ∀ p ∈ a.pipelines, p ∉ task.known → task.scope.incarnation_bound < p.incarnation

section

variable {group log : ℕ} {a a' : GroupArchive}

theorem readLog_append (records : List ArchiveManifestRecord) (record : ArchiveManifestRecord) :
    readLog log (records ++ [record]) = applyRecord log (readLog log records) record := by
  rw [readLog, List.foldl_append]
  rfl

theorem firstFreeName_spec {disk : List ArchiveFile} {chronicle : ChronicleName}
    {story : StoryName} {base : String} {tries n : ℕ} {path : ArchivePath}
    (h : firstFreeName disk chronicle story base tries n = some path) :
    ∃ m, path = storyArchivePath chronicle story (numberedFileName base m) := by
  induction tries generalizing n with
  | zero => cases h
  | succ tries ih =>
    rw [firstFreeName] at h
    split at h
    · exact ih h
    · exact ⟨n, (Option.some.inj h).symm⟩

theorem agree_initial (h : (groupArchive group).Initial a) : Agree group log a := by
  obtain ⟨process_start, hstart, rfl⟩ := h
  refine { names := ?_, logs := ?_, dirs := ?_, named := ?_, pipelines := ?_,
           latest := Nat.two_pow_pos 64, start := hstart, tasks := ?_ }
  · intro path _
    simp [readLog, Names]
  all_goals simp [readLog]

/-- A new process keeps what is in the archive and in the log. -/
theorem Agree.restart (h : Agree group log a) {process_start : ℕ}
    (hstart : process_start < 2 ^ 64) :
    Agree group log { process_start := process_start, disk := a.disk, log := a.log } where
  names := h.names
  logs := h.logs
  dirs := h.dirs
  named := h.named
  pipelines := by simp
  latest := Nat.two_pow_pos 64
  start := hstart
  tasks := by simp

theorem Agree.createPipeline (h : Agree group log a) (hlatest : a.latestIncarnation + 1 < 2 ^ 64)
    (chronicle : ChronicleName) (story : StoryName) :
    Agree group log { a with
      latestIncarnation := a.latestIncarnation + 1
      pipelines := a.pipelines ++ [⟨chronicle, story, a.latestIncarnation + 1⟩] } where
  names := h.names
  logs := h.logs
  dirs := h.dirs
  named := h.named
  pipelines := by
    intro p hp
    rcases List.mem_append.mp hp with hp | hp
    · exact Nat.le_succ_of_le (h.pipelines p hp)
    · rw [List.mem_singleton.mp hp]
  latest := hlatest
  start := h.start
  tasks := by
    intro task htask
    obtain ⟨hbound, hknown⟩ := h.tasks task htask
    refine ⟨Nat.le_succ_of_le hbound, fun p hp hnew => ?_⟩
    rcases List.mem_append.mp hp with hp | hp
    · exact hknown p hp hnew
    · rw [List.mem_singleton.mp hp]
      exact Nat.lt_succ_of_le hbound

theorem Agree.destroy (h : Agree group log a) (chronicle : ChronicleName)
    (story : Option StoryName) (now : ℕ) : Agree group log (a.destroy chronicle story now) where
  names := h.names
  logs := h.logs
  dirs := h.dirs
  named := h.named
  pipelines := h.pipelines
  latest := h.latest
  start := h.start
  tasks := by
    intro task htask
    rcases List.mem_append.mp htask with htask | htask
    · exact h.tasks task htask
    · rw [List.mem_singleton.mp htask]
      exact ⟨Nat.le_refl _, fun p hp hnew => absurd hp hnew⟩

/-- The archive changes only in files that are not the group's. -/
theorem Agree.foreign (h : Agree group log a) {disk : List ArchiveFile}
    (hdisk : ∀ path, ofGroup group path = true →
      (path ∈ disk.map ArchiveFile.path ↔ path ∈ a.disk.map ArchiveFile.path)) :
    Agree group log { a with disk := disk } where
  names := fun path hpath => (hdisk path hpath).trans (h.names path hpath)
  logs := h.logs
  dirs := h.dirs
  named := h.named
  pipelines := h.pipelines
  latest := h.latest
  start := h.start
  tasks := h.tasks

/-- The files of the index after a publish. -/
theorem Agree.mem_filesAt_publish (h : Agree group log a) {chronicle : ChronicleName}
    {story : StoryName} {path : ArchivePath} {start stop events : ℕ}
    {key : ChronicleName × StoryName} {t : ℕ} {file : RecordedFile} :
    file ∈ filesAt (readLog log (a.log ++ [.publish chronicle story path start stop events]))
        key t ↔
      file ∈ filesAt (readLog log a.log) key t ∨
        (key = (chronicle, story) ∧ t = start ∧ file = ⟨path, [log]⟩) := by
  rw [readLog_append, filesAt_publish]
  split
  · next hat =>
    rw [mem_recordFile fun g hg => h.logs key t g hg]
    simp [hat]
  · next hat =>
    constructor
    · exact Or.inl
    · rintro (hmem | ⟨hkey, ht, -⟩)
      · exact hmem
      · exact absurd ⟨hkey, ht⟩ hat

theorem Agree.publish (h : Agree group log a) {p : Pipeline} {start stop events now sequence : ℕ}
    {path : ArchivePath} (hdirs : path.chronicleDir = encodeArchiveName p.chronicle ∧
      path.storyDir = encodeArchiveName p.story)
    (hnamed : ofGroup group path = true ∧ isWindowFileName path.filename = true) :
    Agree group log { a with
      sequence := sequence
      disk := a.disk ++ [⟨path, now⟩]
      log := a.log ++ [.publish p.chronicle p.story path start stop events] } where
  names := by
    intro path' hpath'
    have hnames := h.names path' hpath'
    simp only [List.map_append, List.map_cons, List.map_nil, List.mem_append, List.mem_singleton,
      hnames, Names, h.mem_filesAt_publish]
    constructor
    · rintro (⟨key, t, file, hmem, heq⟩ | rfl)
      · exact ⟨key, t, file, Or.inl hmem, heq⟩
      · exact ⟨_, _, _, Or.inr ⟨rfl, rfl, rfl⟩, rfl⟩
    · rintro ⟨key, t, file, hmem | ⟨-, -, hfile⟩, heq⟩
      · exact Or.inl ⟨key, t, file, hmem, heq⟩
      · rw [hfile] at heq
        exact Or.inr heq.symm
  logs := by
    intro key t file hmem
    rcases h.mem_filesAt_publish.mp hmem with hmem | ⟨-, -, rfl⟩
    · exact h.logs key t file hmem
    · rfl
  dirs := by
    intro key t file hmem
    rcases h.mem_filesAt_publish.mp hmem with hmem | ⟨rfl, -, rfl⟩
    · exact h.dirs key t file hmem
    · exact hdirs
  named := by
    intro key t file hmem
    rcases h.mem_filesAt_publish.mp hmem with hmem | ⟨-, -, rfl⟩
    · exact h.named key t file hmem
    · exact hnamed
  pipelines := h.pipelines
  latest := h.latest
  start := h.start
  tasks := h.tasks

/-- The files of the index after the deletion of a destroy. -/
theorem Agree.mem_filesAt_deletion (h : Agree group log a) (chronicle : ChronicleName)
    (story : Option StoryName) (scope : DestroyScope) {key : ChronicleName × StoryName} {t : ℕ}
    {file : RecordedFile} (modified : ℕ) :
    file ∈ filesAt (readLog log (a.log ++ [deletionRecord (a.tag group) chronicle story scope]))
        key t ↔
      file ∈ filesAt (readLog log a.log) key t ∧
        ¬(InScope chronicle story file.path ∧
          deletable (a.tag group) scope ⟨file.path, modified⟩ = true) := by
  obtain ⟨writer_start, bound, hrecord, hcovers⟩ :=
    covers_deletionRecord (a.tag group) chronicle story scope
  rw [readLog_append, hrecord]
  simp only [applyRecord]
  rw [filesAt_applyDeletion]
  -- a file of the index is in the directories of its key
  have hscope : file ∈ filesAt (readLog log a.log) key t →
      ((key.1 = chronicle ∧ ∀ s ∈ story, key.2 = s) ↔ InScope chronicle story file.path) := by
    intro hmem
    obtain ⟨hchronicle, hstory⟩ := h.dirs key t file hmem
    unfold InScope
    rw [hchronicle, hstory]
    refine and_congr ⟨congrArg _, encodeArchiveName_injective⟩
      (forall₂_congr fun s _ => ⟨congrArg _, encodeArchiveName_injective⟩)
  have hdeletable : file ∈ filesAt (readLog log a.log) key t →
      deletable (a.tag group) scope ⟨file.path, modified⟩ =
        covers writer_start bound file.path.filename := by
    intro hmem
    obtain ⟨hgroup, hwindow⟩ := h.named key t file hmem
    rw [deletable, ← hcovers ⟨file.path, modified⟩ hgroup, hwindow, Bool.true_and]
  split
  · next hkey =>
    rw [mem_releaseFiles fun g hg => h.logs key t g hg]
    refine and_congr_right fun hmem => ?_
    rw [hdeletable hmem, ← hscope hmem, and_iff_right hkey, Bool.not_eq_true]
  · next hkey =>
    refine ⟨fun hmem => ⟨hmem, fun hin => hkey ((hscope hmem).mpr hin.1)⟩, And.left⟩

/-- A file of the group that a destroy deletes is judged by its name alone. -/
theorem deletable_modified {tag : WriterTag} {scope : DestroyScope} {path : ArchivePath}
    (h : ofGroup tag.recording_group path = true) (m m' : ℕ) :
    deletable tag scope ⟨path, m⟩ = deletable tag scope ⟨path, m'⟩ := by
  obtain ⟨writer_start, bound, -, hcovers⟩ := covers_deletionRecord tag "" none scope
  rw [deletable, deletable, ← hcovers ⟨path, m⟩ h, ← hcovers ⟨path, m'⟩ h]

/-- The files of the group in the archive after a destroy. -/
theorem mem_paths_deleteFiles {tag : WriterTag} {disk : List ArchiveFile}
    {chronicle : ChronicleName} {story : Option StoryName} {scope : DestroyScope}
    {path : ArchivePath} (h : ofGroup tag.recording_group path = true) (modified : ℕ) :
    path ∈ (deleteFiles tag disk chronicle story scope).map ArchiveFile.path ↔
      path ∈ disk.map ArchiveFile.path ∧
        ¬(InScope chronicle story path ∧ deletable tag scope ⟨path, modified⟩ = true) := by
  simp only [List.mem_map, mem_deleteFiles]
  constructor
  · rintro ⟨⟨path', m⟩, ⟨hmem, hnot⟩, rfl⟩
    refine ⟨⟨_, hmem, rfl⟩, ?_⟩
    rwa [deletable_modified h modified m]
  · rintro ⟨⟨⟨path', m⟩, hmem, rfl⟩, hnot⟩
    refine ⟨_, ⟨hmem, ?_⟩, rfl⟩
    rwa [deletable_modified h modified m] at hnot

theorem processDestroy_eq_some (h : a.processDestroy group = some a') :
    ∃ task rest, a.destroyQueue = task :: rest ∧
      a' = { a with
        destroyQueue := rest
        disk := deleteFiles (a.tag group) a.disk task.chronicle task.story task.scope
        log := a.log ++ [deletionRecord (a.tag group) task.chronicle task.story task.scope] } := by
  unfold GroupArchive.processDestroy at h
  split at h
  · cases h
  · next task rest hqueue =>
    simp only at h
    split at h
    · exact ⟨task, rest, hqueue, (Option.some.inj h).symm⟩
    · cases h

theorem Agree.processDestroy (h : Agree group log a) (hstep : a.processDestroy group = some a') :
    Agree group log a' := by
  obtain ⟨task, rest, hqueue, rfl⟩ := processDestroy_eq_some hstep
  have hmem := fun {key t file} =>
    @Agree.mem_filesAt_deletion _ _ _ h task.chronicle task.story task.scope key t file 0
  refine { names := ?_, logs := ?_, dirs := ?_, named := ?_, pipelines := h.pipelines,
           latest := h.latest, start := h.start, tasks := ?_ }
  · intro path hpath
    rw [mem_paths_deleteFiles hpath 0, h.names path hpath]
    simp only [Names, hmem]
    constructor
    · rintro ⟨⟨key, t, file, hfile, rfl⟩, hnot⟩
      exact ⟨key, t, file, ⟨hfile, hnot⟩, rfl⟩
    · rintro ⟨key, t, file, ⟨hfile, hnot⟩, rfl⟩
      exact ⟨⟨key, t, file, hfile, rfl⟩, hnot⟩
  · exact fun key t file hfile => h.logs key t file (hmem.mp hfile).1
  · exact fun key t file hfile => h.dirs key t file (hmem.mp hfile).1
  · exact fun key t file hfile => h.named key t file (hmem.mp hfile).1
  · exact fun task' htask' => h.tasks task' (hqueue ▸ List.mem_cons_of_mem _ htask')

/-- A window file of the group, as a process of the group names it. -/
theorem named_windowFile (hgroup : group < 2 ^ 64) {start process_start incarnation sequence : ℕ}
    (hstart : start < 2 ^ 64) (hprocess : process_start < 2 ^ 64) (hinc : incarnation < 2 ^ 64)
    (hseq : sequence < 2 ^ 64) (n : ℕ) {path : ArchivePath}
    (hpath : path.filename = numberedFileName
      (windowFileName start group process_start incarnation sequence) n) :
    ofGroup group path = true ∧ isWindowFileName path.filename = true := by
  rw [ofGroup, hpath, parseWindowFileName_numberedFileName _ _ _ _ _ n hstart hgroup hprocess
    hinc hseq]
  exact ⟨by simp, isWindowFileName_numberedFileName _ _ _ _ _ n⟩

theorem agree_step (hgroup : group < 2 ^ 64) (h : Agree group log a) {l : ArchiveStep}
    (hstep : (groupArchive group).step a l = some a') : Agree group log a' := by
  cases l with
  | restart process_start =>
    obtain ⟨hstart, ⟨rfl⟩⟩ := Option.ite_none_right_eq_some.mp hstep
    exact h.restart hstart
  | createPipeline chronicle story =>
    obtain ⟨hlatest, ⟨rfl⟩⟩ := Option.ite_none_right_eq_some.mp hstep
    exact h.createPipeline hlatest chronicle story
  | publish p start stop events now =>
    obtain ⟨⟨hp, hstart, hseq⟩, hpublish⟩ := Option.ite_none_right_eq_some.mp hstep
    obtain ⟨path, hpath, hrest⟩ := Option.bind_eq_some_iff.mp hpublish
    obtain ⟨n, hname⟩ := firstFreeName_spec hpath
    have hinc : p.incarnation < 2 ^ 64 := Nat.lt_of_le_of_lt (h.pipelines p hp) h.latest
    have hnamed := named_windowFile hgroup hstart h.start hinc hseq n
      (show path.filename = _ by rw [hname]; rfl)
    simp only at hrest
    split at hrest
    · injection hrest with hrest
      rw [← hrest]
      exact h.publish (by rw [hname]; exact ⟨rfl, rfl⟩) hnamed
    · injection hrest with hrest
      rw [← hrest]
      exact { h with }
  | destroy chronicle story now =>
    injection hstep with hstep
    rw [← hstep]
    exact h.destroy chronicle story now
  | processDestroy => exact h.processDestroy hstep
  | foreignFile file =>
    obtain ⟨hforeign, ⟨rfl⟩⟩ := Option.ite_none_left_eq_some.mp hstep
    refine h.foreign fun path hpath => ?_
    simp only [List.map_append, List.map_cons, List.map_nil, List.mem_append, List.mem_singleton]
    refine ⟨fun hmem => hmem.resolve_right ?_, Or.inl⟩
    rintro rfl
    exact hforeign hpath
  | foreignRemoval path =>
    obtain ⟨hforeign, ⟨rfl⟩⟩ := Option.ite_none_left_eq_some.mp hstep
    refine h.foreign fun path' hpath' => ?_
    have hne : path' ≠ path := by
      rintro rfl
      exact hforeign hpath'
    simp only [List.mem_map, List.mem_filter, decide_eq_true_eq]
    constructor
    · rintro ⟨file, ⟨hmem, -⟩, heq⟩
      exact ⟨file, hmem, heq⟩
    · rintro ⟨file, hmem, rfl⟩
      exact ⟨file, ⟨hmem, hne⟩, rfl⟩

/-- **A destroy and its record have the same scope.**  When a destroy is processed, the
files of the group that go from the archive are those a player drops from its index when it
applies the deletion, and no file that this process can write for a pipeline created after
the destroy was requested is among either. -/
theorem destroy_scopes_agree (hgroup : group < 2 ^ 64) (h : (groupArchive group).Reachable a)
    {task : DestroyTask} {rest : List DestroyTask} (hqueue : a.destroyQueue = task :: rest)
    (hstep : (groupArchive group).step a .processDestroy = some a') (log : ℕ) :
    deletedBy group a a' = droppedBy log a a' ∧
      ∀ p ∈ a.pipelines, p ∉ task.known → ∀ path : ArchivePath, ∀ start sequence n,
        start < 2 ^ 64 → sequence < 2 ^ 64 →
        path.filename = numberedFileName
          (windowFileName start group a.process_start p.incarnation sequence) n →
        path ∉ deletedBy group a a' ∧ path ∉ droppedBy log a a' := by
  have hagree : Agree group log a :=
    h.induction (fun _ hinit => agree_initial hinit) fun _ _ _ hs => agree_step hgroup hs
  have hagree' : Agree group log a' := hagree.processDestroy hstep
  have hsame : deletedBy group a a' = droppedBy log a a' := by
    ext path
    simp only [deletedBy, droppedBy, Set.mem_ofPred_eq]
    constructor
    · rintro ⟨hpath, hbefore, hafter⟩
      exact ⟨(hagree.names path hpath).mp hbefore, fun hnames =>
        hafter ((hagree'.names path hpath).mpr hnames)⟩
    · rintro ⟨hbefore, hafter⟩
      obtain ⟨key, t, file, hfile, rfl⟩ := hbefore
      have hpath := (hagree.named key t file hfile).1
      exact ⟨hpath, (hagree.names _ hpath).mpr ⟨key, t, file, hfile, rfl⟩, fun hdisk =>
        hafter ((hagree'.names _ hpath).mp hdisk)⟩
  refine ⟨hsame, fun p hp hnew path start sequence n hstart hseq hname => ?_⟩
  rw [← hsame, and_self]
  rintro ⟨hpath, hbefore, hafter⟩
  obtain ⟨task', rest', hqueue', rfl⟩ := processDestroy_eq_some hstep
  obtain ⟨rfl, rfl⟩ := List.cons_eq_cons.mp (hqueue.symm.trans hqueue')
  refine hafter ((mem_paths_deleteFiles hpath 0).mpr ⟨hbefore, fun hdeleted => ?_⟩)
  -- the name reads back as the process's own, with a number above the bound
  have hinc : p.incarnation < 2 ^ 64 :=
    Nat.lt_of_le_of_lt (hagree.pipelines p hp) hagree.latest
  have hbound : task.scope.incarnation_bound < p.incarnation :=
    (hagree.tasks task (hqueue ▸ List.mem_cons_self)).2 p hp hnew
  have hcovered : coveredByDestroy (a.tag group) task.scope ⟨path, 0⟩ = true :=
    (Bool.and_eq_true_iff.mp hdeleted.2).2
  simp only [coveredByDestroy, hname, GroupArchive.tag, parseWindowFileName_numberedFileName _ _ _ _
    _ n hstart hgroup hagree.start hinc hseq, if_true, decide_eq_true_eq] at hcovered
  omega

/-- Two processes of group `7` publish a window of the same story each; the story is
destroyed, created again and published again before the worker runs. -/
def recreatedStory : List ArchiveStep :=
  [.createPipeline "sea" "tide", .publish ⟨"sea", "tide", 1⟩ 10 20 3 1000, .restart 200,
    .createPipeline "sea" "tide", .publish ⟨"sea", "tide", 1⟩ 20 30 4 2000,
    .destroy "sea" (some "tide") 2500, .createPipeline "sea" "tide",
    .publish ⟨"sea", "tide", 2⟩ 40 50 5 3000]

/-- The destroy takes the files of the first two pipelines and leaves the third's. -/
theorem destroy_scopes_agree_recreated :
    ∃ a a', (groupArchive 7).run { process_start := 100 } recreatedStory = some a ∧
      (groupArchive 7).step a .processDestroy = some a' ∧
      a.disk.length = 3 ∧ a'.disk.length = 1 ∧ deletedBy 7 a a' = droppedBy 0 a a' ∧
      ⟨"sea", "tide", windowFileName 40 7 200 2 1⟩ ∉ droppedBy 0 a a' := by
  have hend : ((groupArchive 7).run { process_start := 100 } recreatedStory).any (fun a =>
      (a.step 7 .processDestroy).any fun a' =>
        decide (a.disk.length = 3 ∧ a'.disk.length = 1 ∧ a.process_start = 200 ∧
          (⟨"sea", "tide", 2⟩ : Pipeline) ∈ a.pipelines ∧ a.destroyQueue.length = 1 ∧
          a.destroyQueue.head?.all fun task =>
            decide ((⟨"sea", "tide", 2⟩ : Pipeline) ∉ task.known))) = true := by
    decide +kernel
  obtain ⟨a, hrun, ha⟩ := (Option.any_eq_true _ _).mp hend
  obtain ⟨a', hstep, ha'⟩ := (Option.any_eq_true _ _).mp ha
  obtain ⟨hdisk, hdisk', hstart, hp, hlength, hknown⟩ := of_decide_eq_true ha'
  obtain ⟨task, hqueue⟩ := List.length_eq_one_iff.mp hlength
  have hnew : (⟨"sea", "tide", 2⟩ : Pipeline) ∉ task.known := by simpa [hqueue] using hknown
  have hreachable : (groupArchive 7).Reachable a :=
    ⟨{ process_start := 100 }, recreatedStory, ⟨100, by omega, rfl⟩, hrun⟩
  obtain ⟨hsame, hlater⟩ := destroy_scopes_agree (by omega) hreachable hqueue hstep 0
  refine ⟨a, a', hrun, hstep, hdisk, hdisk', hsame, ?_⟩
  exact (hlater _ hp hnew _ 40 1 0 (by omega) (by omega) (by rw [hstart]; rfl)).2

end

end ChronoLog.Archive
