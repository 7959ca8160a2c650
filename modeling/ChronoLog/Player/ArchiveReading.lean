import ChronoLog.Lib.MapWalk
import ChronoLog.Lib.SortedList
import ChronoLog.Player.ArchiveIndex

/-!
# A player that follows many logs

A player reads the logs in pieces, in any order and as often as it is asked, and applies
the records to its index.  What a log claims depends on that log's records alone, so the
index holds what the logs hold together however they were interleaved.  A log that is read
again from its start claims in the end what it claims without that.

A replay looks the index up by a time from which on a range can reach into its own, which
it has from the longest range that was ever recorded for the story.

## Main definitions

* `releaseChronicle` — the walk of a deletion of a whole chronicle.
* `Live` — a log recorded a file and did not delete it later.
* `ArchiveReadingAgent`, `refreshFromManifest` — the index and the logs it was read from.
* `filesToRead` — the lookup of `readArchivedStory`.

## Main results

* `applyDeletion_none` — the walk releases every story of the chronicle.
* `live_reread` — a log that is read again from its start.
* `Reflects.after_record`, `Follows.refreshFromManifest` — what one record, and one piece of
  a log, does to the index.
* `archive_index` — **the index holds the files that a log holds, and a replay of a range
  finds every one of them that meets it.**
-/

namespace ChronoLog.Archive

/-! ### The deletion of a chronicle -/

/-- `applyDeletion` for a whole chronicle: from the chronicle's empty story name on, each
story is released and the loop goes to the next one. -/
def releaseChronicle (covered : String → Bool) (log : ℕ) (index : RecordedFiles)
    (chronicle : ChronicleName) : RecordedFiles :=
  MapWalk.walk (fun key => key.1 = chronicle) (releaseStory covered log) index.size index
    (MapWalk.lowerBound index (chronicle, ""))

theorem compare_key (a b : ChronicleName × StoryName) :
    compare a b = (compare a.1 b.1).then (compare a.2 b.2) := rfl

theorem isLE_compare_iff (s t : String) : (compare s t).isLE = true ↔ s ≤ t :=
  isLE_compareOfLessAndEq String.le_antisymm String.not_le String.le_total

/-- The empty story name sorts before every other. -/
theorem compare_empty (s : String) : (compare "" s).isLE = true := by
  rw [isLE_compare_iff]
  exact String.not_lt.mp fun h => List.not_lt_nil _ (String.lt_iff_toList_lt.mp h)

/-- The stories of a chronicle stand together. -/
theorem eq_of_between {chronicle : ChronicleName} {key key' : ChronicleName × StoryName}
    (hle : (compare (chronicle, "") key).isLE = true) (hlt : compare key key' = .lt)
    (hkey' : key'.1 = chronicle) : key.1 = chronicle := by
  have hlow : (compare chronicle key.1).isLE = true := by
    rw [compare_key, Ordering.isLE_then_iff_and] at hle
    exact hle.1
  have hhigh : (compare key.1 chronicle).isLE = true := by
    rw [compare_key, hkey'] at hlt
    rcases Ordering.then_eq_lt.mp hlt with h | ⟨h, -⟩ <;> rw [h] <;> rfl
  rw [isLE_compare_iff] at hlow hhigh
  exact String.le_antisymm hhigh hlow

/-- **The walk releases every story of the chronicle.** -/
theorem applyDeletion_none (index : RecordedFiles) (chronicle : ChronicleName)
    (writer_start incarnation_bound log : ℕ) :
    applyDeletion index chronicle none writer_start incarnation_bound log =
      releaseChronicle (covers writer_start incarnation_bound) log index chronicle := by
  rw [releaseChronicle, MapWalk.walk_lowerBound]
  · simp only [applyDeletion, decide_eq_true_eq]
  · intro key hkey
    rw [decide_eq_true_eq] at hkey
    rw [compare_key, hkey, (Std.ReflCmp.compare_self : compare chronicle chronicle = .eq)]
    exact compare_empty key.2
  · intro key key' hle hlt hkey'
    rw [decide_eq_true_eq] at hkey' ⊢
    exact eq_of_between hle hlt hkey'

/-! ### What a log recorded -/

/-- The deletion takes a file of the story with that name off its log. -/
def ArchiveManifestRecord.deletes (key : ChronicleName × StoryName) (filename : String) :
    ArchiveManifestRecord → Prop
  | .publish .. => False
  | .delete chronicle story writer_start incarnation_bound =>
    (key.1 = chronicle ∧ ∀ s ∈ story, key.2 = s) ∧
      covers writer_start incarnation_bound filename = true

/-- The log recorded the file with the range from `start` to `stop` and did not delete it
later. -/
def Live (key : ChronicleName × StoryName) (start : ℕ) (path : ArchivePath) (stop : ℕ)
    (records : List ArchiveManifestRecord) : Prop :=
  ∃ before events after,
    records = before ++ .publish key.1 key.2 path start stop events :: after ∧
      ∀ record ∈ after, ¬record.deletes key path.filename

/-- The index holds the file under its story and start. -/
def Indexed (index : RecordedFiles) (key : ChronicleName × StoryName) (start : ℕ)
    (path : ArchivePath) : Prop :=
  ∃ file ∈ filesAt index key start, file.path = path

/-- The log is one of those the index has for the file. -/
def Claims (index : RecordedFiles) (key : ChronicleName × StoryName) (start : ℕ)
    (path : ArchivePath) (log : ℕ) : Prop :=
  ∃ file ∈ filesAt index key start, file.path = path ∧ log ∈ file.logs

/-- The range the index has for the file reaches as far as `stop`, and the longest range of
the story is as long as this one. -/
def Reaches (index : RecordedFiles) (key : ChronicleName × StoryName) (start stop : ℕ) : Prop :=
  ∃ story, index[key]? = some story ∧ stop - start ≤ story.max_span ∧
    ∃ range, story.ranges[start]? = some range ∧ stop ≤ range.stop

section

variable {index : RecordedFiles} {key : ChronicleName × StoryName} {start stop log : ℕ}
  {path : ArchivePath} {records : List ArchiveManifestRecord} {record : ArchiveManifestRecord}
  {files : List RecordedFile}

/-- **What a log holds after one more record.** -/
theorem live_concat :
    Live key start path stop (records ++ [record]) ↔
      (∃ events, record = .publish key.1 key.2 path start stop events) ∨
        Live key start path stop records ∧ ¬record.deletes key path.filename := by
  constructor
  · rintro ⟨before, events, after, heq, hafter⟩
    rcases List.eq_nil_or_concat after with rfl | ⟨after, last, rfl⟩
    · obtain ⟨-, hrecord⟩ := List.append_inj' heq rfl
      exact Or.inl ⟨events, List.singleton_inj.mp hrecord⟩
    · rw [List.concat_eq_append] at heq hafter
      rw [← List.cons_append, ← List.append_assoc] at heq
      obtain ⟨hrecords, hlast⟩ := List.append_inj' heq rfl
      rw [List.singleton_inj.mp hlast]
      exact Or.inr ⟨⟨before, events, after, hrecords, fun r hr =>
        hafter r (List.mem_append_left _ hr)⟩, hafter last (by simp)⟩
  · rintro (⟨events, rfl⟩ | ⟨⟨before, events, after, rfl, hafter⟩, hrecord⟩)
    · exact ⟨records, events, [], rfl, by simp⟩
    · refine ⟨before, events, after ++ [record], by simp, fun r hr => ?_⟩
      rcases List.mem_append.mp hr with hr | hr
      · exact hafter r hr
      · rwa [List.mem_singleton.mp hr]

theorem Live.ne_nil (h : Live key start path stop records) : records ≠ [] := by
  obtain ⟨before, events, after, rfl, -⟩ := h
  simp

/-- Records that came before do not undo what the log holds. -/
theorem Live.append_left (h : Live key start path stop records)
    (earlier : List ArchiveManifestRecord) : Live key start path stop (earlier ++ records) := by
  obtain ⟨before, events, after, rfl, hafter⟩ := h
  exact ⟨earlier ++ before, events, after, by simp, hafter⟩

/-- **A log that is read again from its start** holds in the end what it holds without the
earlier reads. -/
theorem live_reread {reads : List (List ArchiveManifestRecord)} {whole : List ArchiveManifestRecord}
    (hreads : ∀ read ∈ reads, read <+: whole) :
    Live key start path stop (reads.flatten ++ whole) ↔ Live key start path stop whole := by
  constructor
  · rintro ⟨before, events, after, heq, hafter⟩
    rcases List.append_eq_append_iff.mp heq with ⟨more, hbefore, hwhole⟩ | ⟨more, hflat, hrest⟩
    · exact ⟨more, events, after, hwhole, hafter⟩
    · -- the record is one of an earlier read, and the whole log comes after it
      rcases more with - | ⟨first, more⟩
      · exact ⟨[], events, after, by simpa using hrest.symm, hafter⟩
      · rw [List.cons_append, List.cons.injEq] at hrest
        obtain ⟨rfl, hrest⟩ := hrest
        have hmem : ArchiveManifestRecord.publish key.1 key.2 path start stop events ∈
            reads.flatten := by
          rw [hflat]
          exact List.mem_append_right _ List.mem_cons_self
        obtain ⟨read, hread, hin⟩ := List.mem_flatten.mp hmem
        obtain ⟨front, rear, hwhole⟩ := List.append_of_mem ((hreads read hread).subset hin)
        refine ⟨front, events, rear, hwhole, fun r hr => hafter r ?_⟩
        rw [hrest, hwhole]
        exact List.mem_append_right _ (List.mem_append_right _ (List.mem_cons_of_mem _ hr))
  · exact fun h => h.append_left _

/-! ### One record -/

theorem claims_recordFile {p : ArchivePath} {l : ℕ} :
    (∃ file ∈ recordFile p l files, file.path = path ∧ log ∈ file.logs) ↔
      (path = p ∧ log = l) ∨ ∃ file ∈ files, file.path = path ∧ log ∈ file.logs := by
  induction files with
  | nil => simp [recordFile, eq_comm]
  | cons g files ih =>
    rw [recordFile]
    split
    · next hpath =>
      simp only [List.mem_cons, exists_eq_or_imp]
      split
      · next hlog => grind
      · simp only [List.mem_append, List.mem_singleton]
        grind
    · simp only [List.mem_cons, exists_eq_or_imp]
      rw [ih]
      grind

theorem claims_releaseFiles {covered : String → Bool} {l : ℕ} :
    (∃ file ∈ releaseFiles covered l files, file.path = path ∧ log ∈ file.logs) ↔
      (∃ file ∈ files, file.path = path ∧ log ∈ file.logs) ∧
        ¬(log = l ∧ covered path.filename = true) := by
  simp only [releaseFiles, List.mem_filter, List.mem_map]
  constructor
  · rintro ⟨file, ⟨⟨g, hg, rfl⟩, -⟩, rfl, hlog⟩
    split at hlog
    · next hc =>
      rw [if_pos hc]
      obtain ⟨hin, hne⟩ := List.mem_filter.mp hlog
      exact ⟨⟨g, hg, rfl, hin⟩, fun h => (of_decide_eq_true hne) h.1⟩
    · next hc =>
      rw [if_neg hc]
      exact ⟨⟨g, hg, rfl, hlog⟩, fun h => hc h.2⟩
  · rintro ⟨⟨g, hg, rfl, hlog⟩, hout⟩
    by_cases hc : covered g.path.filename = true
    · have hne : log ≠ l := fun h => hout ⟨h, hc⟩
      have hin : log ∈ g.logs.filter (· ≠ l) := List.mem_filter.mpr ⟨hlog, by simpa using hne⟩
      refine ⟨_, ⟨⟨g, hg, rfl⟩, ?_⟩, ?_⟩
      · rw [if_pos hc]
        exact decide_eq_true (List.ne_nil_of_mem hin)
      · rw [if_pos hc]
        exact ⟨rfl, hin⟩
    · refine ⟨_, ⟨⟨g, hg, rfl⟩, ?_⟩, ?_⟩
      · rw [if_neg hc]
        exact decide_eq_true (List.ne_nil_of_mem hlog)
      · rw [if_neg hc]
        exact ⟨rfl, hlog⟩

/-- **The logs of a file after a record of a log.** -/
theorem claims_applyRecord {l : ℕ} :
    Claims (applyRecord l index record) key start path log ↔
      (log = l ∧ ∃ stop events, record = .publish key.1 key.2 path start stop events) ∨
        Claims index key start path log ∧ ¬(log = l ∧ record.deletes key path.filename) := by
  cases record with
  | publish chronicle story p start' stop events =>
    rw [Claims, filesAt_publish]
    simp only [ArchiveManifestRecord.deletes, and_false, not_false_eq_true, and_true]
    split
    · next h =>
      obtain ⟨rfl, rfl⟩ := h
      rw [claims_recordFile]
      simp only [ArchiveManifestRecord.publish.injEq, true_and]
      grind [Claims]
    · next h =>
      simp only [ArchiveManifestRecord.publish.injEq]
      grind [Claims]
  | delete chronicle story writer_start incarnation_bound =>
    simp only [applyRecord, Claims, filesAt_applyDeletion, reduceCtorEq, exists_const, and_false,
      false_or, ArchiveManifestRecord.deletes]
    split
    · next h =>
      rw [claims_releaseFiles]
      simp only [h, true_and]
      grind
    · next h => simp only [h, false_and, and_false, not_false_eq_true, and_true]

theorem logs_ne_nil_recordFile {p : ArchivePath} (h : ∀ file ∈ files, file.logs ≠ []) :
    ∀ file ∈ recordFile p log files, file.logs ≠ [] := by
  induction files with
  | nil =>
    intro file hfile
    rw [List.mem_singleton.mp hfile]
    simp
  | cons g files ih =>
    obtain ⟨hg, hfiles⟩ := List.forall_mem_cons.mp h
    rw [recordFile]
    split
    · refine List.forall_mem_cons.mpr ⟨?_, hfiles⟩
      split
      · exact hg
      · simp
    · exact List.forall_mem_cons.mpr ⟨hg, ih hfiles⟩

/-- No file is kept that no log names. -/
theorem logs_ne_nil_applyRecord {l : ℕ}
    (h : ∀ key start, ∀ file ∈ filesAt index key start, file.logs ≠ []) :
    ∀ key start, ∀ file ∈ filesAt (applyRecord l index record) key start, file.logs ≠ [] := by
  intro key start file hfile
  cases record with
  | publish chronicle story p start' stop events =>
    rw [filesAt_publish] at hfile
    split at hfile
    · exact logs_ne_nil_recordFile (h key start) file hfile
    · exact h key start file hfile
  | delete chronicle story writer_start incarnation_bound =>
    rw [applyRecord, filesAt_applyDeletion] at hfile
    split at hfile
    · exact of_decide_eq_true (List.mem_filter.mp hfile).2
    · exact h key start file hfile

theorem reaches_publish {l events : ℕ} :
    Reaches (applyRecord l index (.publish key.1 key.2 path start stop events)) key start stop := by
  refine ⟨_, Std.ExtTreeMap.getElem?_insert_self, ?_, _, Std.ExtTreeMap.getElem?_insert_self,
    le_max_right _ _⟩
  simp only
  split
  · exact le_max_right _ _
  · omega

/-- What remains of a story after a deletion keeps its longest range, and what remains of a
range its end. -/
theorem reaches_releaseStory {covered : String → Bool} {l : ℕ} {story : RecordedStory}
    {range : RecordedRange} (hrange : story.ranges[start]? = some range)
    (hfiles : ((((releaseStory covered l story).getD {}).ranges[start]?).getD {}).files ≠ []) :
    ∃ story', releaseStory covered l story = some story' ∧ story'.max_span = story.max_span ∧
      ∃ range', story'.ranges[start]? = some range' ∧ range'.stop = range.stop := by
  rw [releaseStory] at hfiles ⊢
  dsimp only at hfiles ⊢
  split
  · next hempty =>
    rw [if_pos hempty] at hfiles
    exact absurd (by simp) hfiles
  · next hempty =>
    rw [if_neg hempty, Option.getD_some] at hfiles
    refine ⟨_, rfl, rfl, ?_⟩
    dsimp only at hfiles ⊢
    rw [Std.ExtTreeMap.getElem?_filterMap', hrange, Option.bind_some] at hfiles ⊢
    split
    · next hnil =>
      rw [if_pos hnil] at hfiles
      exact absurd rfl hfiles
    · exact ⟨_, rfl, rfl⟩

/-- A record keeps the end of a range that it leaves files in. -/
theorem reaches_applyRecord {l : ℕ} (h : Reaches index key start stop)
    (hfiles : filesAt (applyRecord l index record) key start ≠ []) :
    Reaches (applyRecord l index record) key start stop := by
  obtain ⟨story, hstory, hspan, range, hrange, hstop⟩ := h
  cases record with
  | publish chronicle story' p start' stop' events =>
    by_cases hkey : (chronicle, story') = key
    · refine ⟨_, by rw [applyRecord, ← hkey]; exact Std.ExtTreeMap.getElem?_insert_self, ?_, ?_⟩
      · rw [hkey, hstory]
        simp only [Option.getD_some]
        split
        · exact le_max_of_le_left hspan
        · exact hspan
      · rw [hkey, hstory]
        simp only [Option.getD_some]
        by_cases hstart : start' = start
        · subst hstart
          refine ⟨_, Std.ExtTreeMap.getElem?_insert_self, ?_⟩
          rw [hrange]
          exact le_max_of_le_left hstop
        · refine ⟨range, ?_, hstop⟩
          rw [Std.ExtTreeMap.getElem?_insert, if_neg (by simpa using hstart), hrange]
    · refine ⟨story, ?_, hspan, range, hrange, hstop⟩
      rw [applyRecord, Std.ExtTreeMap.getElem?_insert, if_neg (by simpa using hkey), hstory]
  | delete chronicle story' writer_start incarnation_bound =>
    rw [filesAt, applyRecord, getElem?_applyDeletion] at hfiles
    rw [Reaches, applyRecord, getElem?_applyDeletion]
    split
    · next hkey =>
      rw [if_pos hkey, hstory, Option.bind_some] at hfiles
      obtain ⟨left, hleft, hspan', range', hrange', hstop'⟩ := reaches_releaseStory hrange hfiles
      refine ⟨left, ?_, hspan' ▸ hspan, range', hrange', hstop' ▸ hstop⟩
      rw [hstory, Option.bind_some, hleft]
    · exact ⟨story, hstory, hspan, range, hrange, hstop⟩

end

/-! ### Many logs -/

/-- `HDF5ArchiveReadingAgent`: the logs it follows, by their places in `manifest_tails_`, and
the index. -/
structure ArchiveReadingAgent where
  log_ids : OrdMap String ℕ := ∅
  manifest_tails : List String := []
  recorded_files : RecordedFiles := ∅

/-- A round of `refreshFromManifest`: a log that is new gets the next place, and what its
tail read is applied. -/
def ArchiveReadingAgent.refreshFromManifest (agent : ArchiveReadingAgent)
    (piece : String × List ArchiveManifestRecord) : ArchiveReadingAgent :=
  match agent.log_ids[piece.1]? with
  | some id =>
    { agent with recorded_files := piece.2.foldl (applyRecord id) agent.recorded_files }
  | none =>
    let id := agent.manifest_tails.length
    { log_ids := agent.log_ids.insert piece.1 id
      manifest_tails := agent.manifest_tails ++ [piece.1]
      recorded_files := piece.2.foldl (applyRecord id) agent.recorded_files }

/-- The agent after the pieces its tails read, each of one log. -/
def refreshed (pieces : List (String × List ArchiveManifestRecord)) : ArchiveReadingAgent :=
  pieces.foldl ArchiveReadingAgent.refreshFromManifest {}

/-- What was read of a log. -/
def recordsOf (log : String) (pieces : List (String × List ArchiveManifestRecord)) :
    List ArchiveManifestRecord :=
  (pieces.filter fun piece => piece.1 = log).flatMap fun piece => piece.2

theorem recordsOf_concat (log : String) (pieces : List (String × List ArchiveManifestRecord))
    (piece : String × List ArchiveManifestRecord) :
    recordsOf log (pieces ++ [piece]) =
      recordsOf log pieces ++ if piece.1 = log then piece.2 else [] := by
  rw [recordsOf, recordsOf, List.filter_append, List.flatMap_append]
  by_cases h : piece.1 = log <;> simp [h]

/-- What the index says of the logs, whose places are `place`. -/
structure Reflects (index : RecordedFiles) (place : ℕ → List ArchiveManifestRecord) : Prop where
  claims_iff : ∀ key start path log,
    Claims index key start path log ↔ ∃ stop, Live key start path stop (place log)
  logs_ne_nil : ∀ key start, ∀ file ∈ filesAt index key start, file.logs ≠ []
  reaches : ∀ key start path stop log, Live key start path stop (place log) →
    Reaches index key start stop

section

variable {index : RecordedFiles} {place : ℕ → List ArchiveManifestRecord} {log : ℕ}
  {key : ChronicleName × StoryName} {start stop : ℕ} {path : ArchivePath}

theorem reflects_empty : Reflects ∅ fun _ => [] where
  claims_iff := by simp [Claims, Live]
  logs_ne_nil := by simp
  reaches := by simp [Live]

theorem Claims.filesAt_ne_nil (h : Claims index key start path log) :
    filesAt index key start ≠ [] := by
  obtain ⟨file, hfile, -⟩ := h
  exact List.ne_nil_of_mem hfile

/-- **One more record of a log.** -/
theorem Reflects.after_record (h : Reflects index place) (record : ArchiveManifestRecord) :
    Reflects (applyRecord log index record)
      (Function.update place log (place log ++ [record])) := by
  have hclaims : ∀ key start path l, Claims (applyRecord log index record) key start path l ↔
      ∃ stop, Live key start path stop
        (Function.update place log (place log ++ [record]) l) := by
    intro key start path l
    rw [claims_applyRecord, h.claims_iff]
    by_cases hl : l = log
    · subst hl
      simp only [Function.update_self, live_concat, true_and]
      rw [exists_or, exists_and_right]
    · simp [hl]
  refine ⟨hclaims, logs_ne_nil_applyRecord h.logs_ne_nil, ?_⟩
  intro key start path stop l hlive
  by_cases hnew : l = log ∧ ∃ events, record = .publish key.1 key.2 path start stop events
  · obtain ⟨-, events, rfl⟩ := hnew
    exact reaches_publish
  · refine reaches_applyRecord ?_ ((hclaims key start path l).mpr ⟨stop, hlive⟩).filesAt_ne_nil
    refine h.reaches key start path stop l ?_
    by_cases hl : l = log
    · subst hl
      rw [Function.update_self, live_concat] at hlive
      rcases hlive with hpublish | ⟨hlive, -⟩
      · exact absurd ⟨rfl, hpublish⟩ hnew
      · exact hlive
    · rwa [Function.update_of_ne hl] at hlive

/-- More records of a log. -/
theorem Reflects.after_records (h : Reflects index place) (records : List ArchiveManifestRecord) :
    Reflects (records.foldl (applyRecord log) index)
      (Function.update place log (place log ++ records)) := by
  induction records generalizing index place with
  | nil => simpa using h
  | cons record records ih =>
    have hrest := ih (@Reflects.after_record _ _ log h record)
    rw [Function.update_self, Function.update_idem, List.append_assoc] at hrest
    exact hrest

end

/-- The agent after the pieces: its logs have a place each, and its index says of them what
was read of them. -/
structure Follows (agent : ArchiveReadingAgent)
    (pieces : List (String × List ArchiveManifestRecord)) : Prop where
  places : ∀ (log : String) (id : ℕ),
    agent.log_ids[log]? = some id ↔ agent.manifest_tails[id]? = some log
  known : ∀ log, recordsOf log pieces ≠ [] → ∃ id : ℕ, agent.manifest_tails[id]? = some log
  reflects : Reflects agent.recorded_files fun id =>
    agent.manifest_tails[id]?.elim [] fun log => recordsOf log pieces

section

variable {agent : ArchiveReadingAgent} {pieces : List (String × List ArchiveManifestRecord)}

theorem follows_empty : Follows {} [] where
  places := by simp
  known := by simp [recordsOf]
  reflects := by simpa using reflects_empty

/-- **One more piece of a log.** -/
theorem Follows.refreshFromManifest (h : Follows agent pieces)
    (piece : String × List ArchiveManifestRecord) :
    Follows (agent.refreshFromManifest piece) (pieces ++ [piece]) := by
  rw [ArchiveReadingAgent.refreshFromManifest]
  split
  · next id hid =>
    have htail := (h.places piece.1 id).mp hid
    refine ⟨h.places, fun log hlog => ?_, ?_⟩
    · by_cases hsame : piece.1 = log
      · exact ⟨id, hsame ▸ htail⟩
      · rw [recordsOf_concat, if_neg hsame, List.append_nil] at hlog
        exact h.known log hlog
    · convert @Reflects.after_records _ _ id h.reflects piece.2 using 1
      funext id'
      by_cases hsame : id' = id
      · subst hsame
        rw [Function.update_self, htail, Option.elim_some, Option.elim_some, recordsOf_concat,
          if_pos rfl]
      · rw [Function.update_of_ne hsame]
        cases hother : agent.manifest_tails[id']? with
        | none => rfl
        | some log =>
          have hne : piece.1 ≠ log := by
            rintro rfl
            rw [← h.places, hid, Option.some.injEq] at hother
            exact hsame hother.symm
          rw [Option.elim_some, Option.elim_some, recordsOf_concat, if_neg hne, List.append_nil]
  · next hnew =>
    have hfresh : ∀ id : ℕ, agent.manifest_tails[id]? ≠ some piece.1 := by
      intro id hid
      rw [← h.places, hnew] at hid
      cases hid
    have hnothing : recordsOf piece.1 pieces = [] := by
      by_contra hne
      obtain ⟨id, hid⟩ := h.known piece.1 hne
      exact hfresh id hid
    have hlength : ∀ {log : String} {id : ℕ}, agent.manifest_tails[id]? = some log →
        id < agent.manifest_tails.length := fun h => (List.getElem?_eq_some_iff.mp h).1
    refine ⟨fun log id => ?_, fun log hlog => ?_, ?_⟩
    · rw [Std.ExtTreeMap.getElem?_insert, List.getElem?_append]
      split
      · next hsame =>
        obtain rfl := compare_eq_iff_eq.mp hsame
        rw [Option.some.injEq]
        constructor
        · rintro rfl
          rw [if_neg (lt_irrefl _), Nat.sub_self, List.getElem?_cons_zero]
        · intro hid
          split at hid
          · exact absurd hid (hfresh id)
          · have := (List.getElem?_eq_some_iff.mp hid).1
            rw [List.length_singleton] at this
            omega
      · next hother =>
        rw [h.places]
        split
        · rfl
        · next hge =>
          refine iff_of_false (fun hid => hge (hlength hid)) fun hid => hother ?_
          rw [List.getElem?_singleton, Option.ite_none_right_eq_some, Option.some.injEq] at hid
          exact compare_eq_iff_eq.mpr hid.2
    · by_cases hsame : piece.1 = log
      · exact ⟨agent.manifest_tails.length, by simp [hsame]⟩
      · rw [recordsOf_concat, if_neg hsame, List.append_nil] at hlog
        obtain ⟨id, hid⟩ := h.known log hlog
        exact ⟨id, by rw [List.getElem?_append_left (hlength hid), hid]⟩
    · convert @Reflects.after_records _ _ agent.manifest_tails.length h.reflects piece.2 using 1
      funext id'
      rcases Nat.lt_trichotomy id' agent.manifest_tails.length with hlt | rfl | hgt
      · rw [Function.update_of_ne (Nat.ne_of_lt hlt), List.getElem?_append_left hlt]
        cases hother : agent.manifest_tails[id']? with
        | none => rfl
        | some log =>
          have hne : piece.1 ≠ log := fun heq => hfresh id' (heq ▸ hother)
          rw [Option.elim_some, Option.elim_some, recordsOf_concat, if_neg hne, List.append_nil]
      · rw [Function.update_self, List.getElem?_concat_length, List.getElem?_eq_none (le_refl _),
          Option.elim_some, Option.elim_none, recordsOf_concat, if_pos rfl, hnothing]
      · rw [Function.update_of_ne (Nat.ne_of_gt hgt), List.getElem?_eq_none (by simpa using hgt),
          List.getElem?_eq_none (by omega), Option.elim_none, Option.elim_none]

/-- **The agent after any pieces.** -/
theorem follows_refreshed (pieces : List (String × List ArchiveManifestRecord)) :
    Follows (refreshed pieces) pieces := by
  induction pieces using List.reverseRecOn with
  | nil => exact follows_empty
  | append_singleton pieces piece ih =>
    rw [refreshed, List.foldl_concat]
    exact ih.refreshFromManifest piece

/-- What a log holds it holds at its place. -/
theorem Follows.exists_place (h : Follows agent pieces) {key : ChronicleName × StoryName}
    {start stop : ℕ} {path : ArchivePath} {log : String}
    (hlive : Live key start path stop (recordsOf log pieces)) :
    ∃ id : ℕ, Live key start path stop
      (agent.manifest_tails[id]?.elim [] fun log => recordsOf log pieces) := by
  obtain ⟨id, hid⟩ := h.known log hlive.ne_nil
  exact ⟨id, by rwa [hid]⟩

/-- **The index holds what some log holds.** -/
theorem Follows.indexed_iff (h : Follows agent pieces) {key : ChronicleName × StoryName}
    {start : ℕ} {path : ArchivePath} :
    Indexed agent.recorded_files key start path ↔
      ∃ log stop, Live key start path stop (recordsOf log pieces) := by
  constructor
  · rintro ⟨file, hfile, rfl⟩
    obtain ⟨id, hid⟩ := List.exists_mem_of_ne_nil _ (h.reflects.logs_ne_nil key start file hfile)
    obtain ⟨stop, hlive⟩ :=
      (h.reflects.claims_iff key start file.path id).mp ⟨file, hfile, rfl, hid⟩
    cases htail : agent.manifest_tails[id]? with
    | none =>
      rw [htail] at hlive
      exact absurd rfl hlive.ne_nil
    | some log =>
      rw [htail] at hlive
      exact ⟨log, stop, hlive⟩
  · rintro ⟨log, stop, hlive⟩
    obtain ⟨id, hid⟩ := h.exists_place hlive
    obtain ⟨file, hfile, hpath, -⟩ := (h.reflects.claims_iff key start path id).mpr ⟨stop, hid⟩
    exact ⟨file, hfile, hpath⟩

end

/-! ### The lookup of a replay -/

/-- The files that `readArchivedStory` reads for the times from `startTime` up to `endTime`:
the ranges are looked up from the longest range's length before `startTime` on. -/
def filesToRead (index : RecordedFiles) (key : ChronicleName × StoryName)
    (startTime endTime : ℕ) : List ArchivePath :=
  match index[key]? with
  | none => []
  | some story =>
    let first_start := if startTime > story.max_span then startTime - story.max_span else 0
    let ranges := (story.ranges.toList.dropWhile fun entry => entry.1 < first_start).takeWhile
      fun entry => entry.1 < endTime
    (ranges.filter fun entry => entry.2.stop > startTime).flatMap fun entry =>
      entry.2.files.map RecordedFile.path

/-- **The lookup misses no range that meets the times of the replay.** -/
theorem mem_filesToRead {index : RecordedFiles} {key : ChronicleName × StoryName}
    {start stop startTime endTime : ℕ} {path : ArchivePath}
    (hreaches : Reaches index key start stop) (hindexed : Indexed index key start path)
    (hstart : start < endTime) (hstop : startTime < stop) :
    path ∈ filesToRead index key startTime endTime := by
  obtain ⟨story, hstory, hspan, range, hrange, hlate⟩ := hreaches
  obtain ⟨file, hfile, rfl⟩ := hindexed
  rw [filesAt, hstory, Option.getD_some, hrange, Option.getD_some] at hfile
  rw [filesToRead, hstory]
  have hsorted : story.ranges.toList.Pairwise fun a b => a.1 ≤ b.1 := by
    refine Std.ExtTreeMap.ordered_keys_toList.imp fun h => ?_
    exact le_of_lt (compare_lt_iff_lt.mp h)
  dsimp only
  refine List.mem_flatMap.mpr ⟨(start, range), List.mem_filter.mpr ⟨?_, ?_⟩,
    List.mem_map_of_mem hfile⟩
  · rw [SortedList.mem_takeWhile_lt Prod.fst (SortedList.pairwise_dropWhile hsorted _),
      SortedList.mem_dropWhile_lt Prod.fst hsorted]
    refine ⟨⟨?_, ?_⟩, hstart⟩
    · rwa [Std.ExtTreeMap.mem_toList_iff_getElem?_eq_some]
    · -- the range starts at most its length before its end
      split <;> omega
  · exact decide_eq_true (lt_of_lt_of_le hstop hlate)

/-- **The archive's index.**  However the pieces of the logs are interleaved, the index holds
under each story and start the files that some log holds; logs that were read again from
their start count as if they had been read once; and a replay reads every file whose recorded
range meets its own. -/
theorem archive_index (pieces : List (String × List ArchiveManifestRecord)) :
    (∀ key start path, Indexed (refreshed pieces).recorded_files key start path ↔
      ∃ log stop, Live key start path stop (recordsOf log pieces)) ∧
    (∀ whole : String → List ArchiveManifestRecord,
      (∀ log, ∃ reads : List (List ArchiveManifestRecord),
        (∀ read ∈ reads, read <+: whole log) ∧
          recordsOf log pieces = reads.flatten ++ whole log) →
      ∀ key start path, Indexed (refreshed pieces).recorded_files key start path ↔
        ∃ log stop, Live key start path stop (whole log)) ∧
    ∀ log key start stop path startTime endTime,
      Live key start path stop (recordsOf log pieces) → start < endTime → startTime < stop →
        path ∈ filesToRead (refreshed pieces).recorded_files key startTime endTime := by
  have h := follows_refreshed pieces
  refine ⟨fun key start path => h.indexed_iff, fun whole hwhole key start path => ?_, ?_⟩
  · rw [h.indexed_iff]
    refine exists_congr fun log => exists_congr fun stop => ?_
    obtain ⟨reads, hreads, heq⟩ := hwhole log
    rw [heq, live_reread hreads]
  · intro log key start stop path startTime endTime hlive hstart hstop
    obtain ⟨id, hid⟩ := h.exists_place hlive
    exact mem_filesToRead (h.reflects.reaches key start path stop id hid)
      (h.indexed_iff.mpr ⟨log, stop, hlive⟩) hstart hstop

end ChronoLog.Archive
