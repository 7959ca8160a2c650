import ChronoLog.Archive.Manifest
import ChronoLog.Lib.OrdMap

/-!
# A player's index of the archive

A player follows the log of every grapher and keeps, for every story, the files the logs
name, by the time at which they start, each with the logs that name it.  A deletion in a
log takes that log off the files it covers, and a file that no log names any more goes.

## Main definitions

* `RecordedFiles` — `recorded_files_`.
* `applyRecord`, `applyDeletion` — the index after a record of a log.
* `filesAt`, `Names` — the files the index holds.

## Main results

* `filesAt_publish`, `filesAt_applyDeletion` — the files of a story after a record.
* `mem_recordFile`, `mem_releaseFiles` — the same for a player that follows one log.
-/

namespace ChronoLog.Archive

/-- A file, and the logs that name it. -/
structure RecordedFile where
  path : ArchivePath
  logs : List ℕ
  deriving DecidableEq, Repr

/-- The files that start at one time. -/
structure RecordedRange where
  stop : ℕ := 0
  files : List RecordedFile := []
  deriving DecidableEq, Repr

/-- The files of a story. -/
structure RecordedStory where
  ranges : OrdMap ℕ RecordedRange := ∅
  max_span : ℕ := 0

/-- The order of the keys of a story: the chronicle's name first. -/
instance : Ord (ChronicleName × StoryName) := lexOrd

/-- `recorded_files_`. -/
abbrev RecordedFiles := OrdMap (ChronicleName × StoryName) RecordedStory

/-- Whether a deletion covers a file: a deletion without a bound covers every file, one
with a bound those of another process of the writer, and those of the process that
started at `writer_start` with an incarnation up to the bound. -/
def covers (writer_start incarnation_bound : ℕ) (filename : String) : Bool :=
  if incarnation_bound = UINT64_MAX then true
  else
    match parseWindowFileName filename with
    | none => true
    | some parsed =>
      parsed.writer_start != writer_start || decide (parsed.incarnation ≤ incarnation_bound)

/-- The log comes off the files that are covered, and the files that no log names any
more are dropped. -/
def releaseFiles (covered : String → Bool) (log : ℕ) (files : List RecordedFile) :
    List RecordedFile :=
  (files.map fun file =>
    if covered file.path.filename then { file with logs := file.logs.filter (· ≠ log) }
    else file).filter fun file => file.logs ≠ []

/-- `release_story`; `none` where nothing is left in the story's entry. -/
def releaseStory (covered : String → Bool) (log : ℕ) (story : RecordedStory) :
    Option RecordedStory :=
  let ranges := story.ranges.filterMap fun _ range =>
    let files := releaseFiles covered log range.files
    if files = [] then none else some { range with files := files }
  if ranges.isEmpty then none else some { story with ranges := ranges }

/-- `applyDeletion`. -/
def applyDeletion (index : RecordedFiles) (chronicle : ChronicleName) (story : Option StoryName)
    (writer_start incarnation_bound log : ℕ) : RecordedFiles :=
  let release := releaseStory (covers writer_start incarnation_bound) log
  match story with
  | none =>
    index.filterMap fun key recorded =>
      if key.1 = chronicle then release recorded else some recorded
  | some story => index.alter (chronicle, story) fun recorded => recorded.bind release

/-- The files of a range with a path that a log names. -/
def recordFile (path : ArchivePath) (log : ℕ) : List RecordedFile → List RecordedFile
  | [] => [{ path := path, logs := [log] }]
  | file :: files =>
    if file.path = path then
      (if log ∈ file.logs then file else { file with logs := file.logs ++ [log] }) :: files
    else file :: recordFile path log files

/-- `applyRecord`. -/
def applyRecord (log : ℕ) (index : RecordedFiles) : ArchiveManifestRecord → RecordedFiles
  | .delete chronicle story writer_start incarnation_bound =>
    applyDeletion index chronicle story writer_start incarnation_bound log
  | .publish chronicle story file start stop _ =>
    let recorded := index[(chronicle, story)]?.getD {}
    let range := recorded.ranges[start]?.getD {}
    index.insert (chronicle, story)
      { ranges := recorded.ranges.insert start
          { stop := max range.stop stop, files := recordFile file log range.files }
        max_span :=
          if stop > start then max recorded.max_span (stop - start) else recorded.max_span }

/-- The index of a player that has read the log. -/
def readLog (log : ℕ) (records : List ArchiveManifestRecord) : RecordedFiles :=
  records.foldl (applyRecord log) ∅

/-- The files of a story that start at a time. -/
def filesAt (index : RecordedFiles) (key : ChronicleName × StoryName) (start : ℕ) :
    List RecordedFile :=
  ((index[key]?.getD {}).ranges[start]?.getD {}).files

/-- The index names the file. -/
def Names (index : RecordedFiles) (path : ArchivePath) : Prop :=
  ∃ key start, ∃ file ∈ filesAt index key start, file.path = path

section

variable {log : ℕ} {index : RecordedFiles} {key : ChronicleName × StoryName} {t : ℕ}
  {file : RecordedFile}

@[simp] theorem filesAt_empty (key : ChronicleName × StoryName) (t : ℕ) : filesAt ∅ key t = [] := by
  simp [filesAt]

theorem filesAt_releaseStory (covered : String → Bool) (log : ℕ) (recorded : Option RecordedStory)
    (t : ℕ) :
    ((((recorded.bind (releaseStory covered log)).getD {}).ranges[t]?).getD {}).files =
      releaseFiles covered log ((((recorded.getD {}).ranges[t]?).getD {}).files) := by
  cases recorded with
  | none => simp [releaseFiles]
  | some story =>
    have hranges : ((releaseStory covered log story).getD {}).ranges =
        story.ranges.filterMap fun _ range =>
          if releaseFiles covered log range.files = [] then none
          else some { range with files := releaseFiles covered log range.files } := by
      simp only [releaseStory]
      split
      · next h => exact (Std.ExtTreeMap.isEmpty_iff.mp h).symm
      · rfl
    rw [Option.bind_some, hranges, Std.ExtTreeMap.getElem?_filterMap', Option.getD_some]
    cases story.ranges[t]? with
    | none => simp [releaseFiles]
    | some range =>
      rw [Option.bind_some]
      split
      · next h => exact h.symm
      · rfl

/-- **The files of a story after a file was published.** -/
theorem filesAt_publish (chronicle : ChronicleName) (story : StoryName) (path : ArchivePath)
    (start stop events : ℕ) :
    filesAt (applyRecord log index (.publish chronicle story path start stop events)) key t =
      if key = (chronicle, story) ∧ t = start then recordFile path log (filesAt index key t)
      else filesAt index key t := by
  unfold filesAt
  simp only [applyRecord, Std.ExtTreeMap.getElem?_insert]
  by_cases hkey : (chronicle, story) = key
  · subst hkey
    by_cases ht : start = t
    · subst ht
      simp
    · simp [Std.ExtTreeMap.getElem?_insert, ht, Ne.symm ht]
  · simp [hkey, Ne.symm hkey]

/-- The entry of a story after a deletion. -/
theorem getElem?_applyDeletion (chronicle : ChronicleName) (story : Option StoryName)
    (writer_start incarnation_bound : ℕ) :
    (applyDeletion index chronicle story writer_start incarnation_bound log)[key]? =
      if key.1 = chronicle ∧ (∀ s ∈ story, key.2 = s) then
        index[key]?.bind (releaseStory (covers writer_start incarnation_bound) log)
      else index[key]? := by
  cases story with
  | none =>
    simp only [applyDeletion, Std.ExtTreeMap.getElem?_filterMap', Option.not_mem_none,
      false_implies, implies_true, and_true]
    split
    · rfl
    · simp
  | some s =>
    simp only [applyDeletion, Std.ExtTreeMap.getElem?_alter, Option.mem_some_iff, forall_eq']
    by_cases hkey : (chronicle, s) = key
    · subst hkey
      simp only [Std.ReflCmp.compare_self, if_true, and_self]
    · have hne : ¬(key.1 = chronicle ∧ key.2 = s) := by
        rintro ⟨rfl, rfl⟩
        exact hkey rfl
      simp [hkey, hne]

/-- **The files of a story after a deletion.** -/
theorem filesAt_applyDeletion (chronicle : ChronicleName) (story : Option StoryName)
    (writer_start incarnation_bound : ℕ) :
    filesAt (applyDeletion index chronicle story writer_start incarnation_bound log) key t =
      if key.1 = chronicle ∧ (∀ s ∈ story, key.2 = s) then
        releaseFiles (covers writer_start incarnation_bound) log (filesAt index key t)
      else filesAt index key t := by
  rw [filesAt, getElem?_applyDeletion]
  split
  · exact filesAt_releaseStory _ _ _ _
  · rfl

/-! ### A player that follows one log -/

theorem mem_recordFile {path : ArchivePath} {files : List RecordedFile}
    (h : ∀ g ∈ files, g.logs = [log]) :
    file ∈ recordFile path log files ↔ file ∈ files ∨ file = ⟨path, [log]⟩ := by
  induction files with
  | nil => simp [recordFile]
  | cons g files ih =>
    have hg : g.logs = [log] := h g List.mem_cons_self
    rw [recordFile]
    split
    · next hpath =>
      have hg' : g = ⟨path, [log]⟩ := by
        cases g
        simp_all
      rw [if_pos (by rw [hg]; exact List.mem_singleton_self log)]
      constructor
      · exact Or.inl
      · rintro (hmem | heq)
        · exact hmem
        · rw [heq, ← hg']
          exact List.mem_cons_self
    · rw [List.mem_cons, ih fun g hg => h g (List.mem_cons_of_mem _ hg), List.mem_cons, or_assoc]

/-- What a deletion leaves of the files that only its own log names. -/
theorem mem_releaseFiles {covered : String → Bool} {files : List RecordedFile}
    (h : ∀ g ∈ files, g.logs = [log]) :
    file ∈ releaseFiles covered log files ↔
      file ∈ files ∧ covered file.path.filename = false := by
  rw [releaseFiles, List.mem_filter, List.mem_map]
  constructor
  · rintro ⟨⟨g, hg, rfl⟩, hlogs⟩
    split at hlogs
    · simp [h g hg] at hlogs
    · next hc =>
      rw [if_neg hc]
      exact ⟨hg, by simpa using hc⟩
  · rintro ⟨hmem, hc⟩
    refine ⟨⟨file, hmem, if_neg (by simp [hc])⟩, ?_⟩
    simp [h file hmem]

end

end ChronoLog.Archive
