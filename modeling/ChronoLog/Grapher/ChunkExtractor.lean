import ChronoLog.Archive.DestroyScope
import ChronoLog.Grapher.WatermarkRegistry

/-!
# Publishing a window before it is reported

The extraction streams of a grapher write windows to the archive, append a record for each
file to the manifest, and only then report the window to the registry, on which keepers
free their copies.  All streams share one manifest: the record is written under its mutex
and synced without it, and the first sync that fails latches the manifest for good, also
between another stream's append and its report.

A call of `process_chunk` is followed action by action; every action of a call may come
after any actions of the others, and every system call may fail.  Removing a file
succeeds.

## Main definitions

* `Phase`, `Extraction` — where a call is, and what it has done.
* `Extractor`, `extractor` — the calls, the manifest, the archive and the registry.
* `PublishedBeforeReport` — what a call may have reported.

## Main results

* `publish_before_report` — in every run, a call that moved the watermark or a receipt had
  an empty window, or a file with a synced record, and found the manifest not latched at
  its last look.
* `report_after_unlatched_failure` — another stream's sync may already have failed then.
-/

namespace ChronoLog.Archive

open Transition

/-- What `process_chunk` reads of a chunk. -/
structure Chunk where
  storyId : StoryId
  chronicle : ChronicleName
  story : StoryName
  startTime : ℕ
  endTime : ℕ
  incarnation : ℕ := 1
  eventCount : ℕ
  watermarkExempt : Bool := false
  carriedReceipts : List ℕ := []
  deriving DecidableEq, Repr

def Chunk.empty (chunk : Chunk) : Bool := chunk.eventCount = 0

/-- Where a call of `process_chunk` is. -/
inductive Phase where
  /-- About to look at the manifest for the first time. -/
  | start
  /-- About to write the file and give it its name. -/
  | write
  /-- The file has its name; the directories are about to be synced. -/
  | syncFile (path : ArchivePath)
  /-- The file is written; its record is about to be appended. -/
  | append (path : ArchivePath)
  /-- The record is written; it is about to be synced. -/
  | syncRecord (path : ArchivePath) (created : Bool)
  /-- The sync of the record returned; the log is about to be closed. -/
  | close (path : ArchivePath) (created : Bool)
  /-- The log was created again; so many of its directories are to be synced. -/
  | syncDirectories (path : ArchivePath) (left : ℕ)
  /-- A sync of the manifest failed; the latch is about to be set. -/
  | latch (path : ArchivePath)
  /-- The append returned; the manifest is about to be looked at again. -/
  | appended
  /-- The append failed; the file is about to be removed. -/
  | remove (path : ArchivePath)
  /-- Nothing is written; the failure is about to be recorded. -/
  | failed
  /-- The manifest is latched; the failure is about to be recorded. -/
  | hold
  /-- The watermark is about to be advanced. -/
  | advance
  /-- These receipts are about to be released. -/
  | release (receipts : List ℕ)
  | returned (success : Bool)
  deriving DecidableEq, Repr

/-- A call of `process_chunk` and what it has done so far. -/
structure Extraction where
  chunk : Chunk
  phase : Phase := .start
  /-- The file, once it is written and synced. -/
  written : Option ArchivePath := none
  /-- The record of the file was synced. -/
  synced : Bool := false
  /-- The file or its record failed. -/
  unpublished : Bool := false
  /-- What `manifestFailed` returned last. -/
  failedAtCheck : Option Bool := none
  /-- Whether a sync of the manifest had failed at that time. -/
  syncFailedAtCheck : Bool := false
  advanced : Bool := false
  released : List ℕ := []
  markedFailed : Bool := false
  deriving DecidableEq, Repr

/-- The extraction streams of a grapher and what they share.  `syncFailures` counts the
syncs of the manifest that failed; the source only knows the latch. -/
structure Extractor where
  tag : WriterTag
  /-- Whether the extractor has an archive manifest. -/
  manifestOpen : Bool
  theFailed : Bool := false
  syncFailures : ℕ := 0
  sequence : ℕ := 0
  disk : List ArchiveFile := []
  log : List ArchiveManifestRecord := []
  registry : StoryWatermarkRegistry
  calls : List Extraction := []

/-- How a system call ends; `created` says that the log was found empty. -/
inductive Outcome where
  | ok (created : Bool)
  | fails
  deriving DecidableEq, Repr

/-- A record names the file. -/
def ArchiveManifestRecord.Names (path : ArchivePath) : ArchiveManifestRecord → Prop
  | .publish _ _ file _ _ _ => file = path
  | .delete _ _ _ _ => False

namespace Extractor

/-- `manifestFailed`. -/
def manifestFailed (w : Extractor) : Bool := w.manifestOpen && w.theFailed

/-- The call after it looked at the manifest. -/
def checked (w : Extractor) (e : Extraction) (phase : Phase) : Extraction :=
  { e with
    failedAtCheck := some w.manifestFailed
    syncFailedAtCheck := 0 < w.syncFailures
    phase := if w.manifestFailed then .hold else phase }

/-- The record of a file. -/
def publishRecord (chunk : Chunk) (path : ArchivePath) : ArchiveManifestRecord :=
  .publish chunk.chronicle chunk.story path chunk.startTime chunk.endTime chunk.eventCount

/-- `publishFile`: the file under the first free name. -/
def publishFile (w : Extractor) (chunk : Chunk) : Option ArchivePath :=
  firstFreeName w.disk chunk.chronicle chunk.story
    (windowFileName chunk.startTime w.tag.recording_group w.tag.process_start chunk.incarnation
      w.sequence) kMaxFilesPerWindow 0

/-- The next action of a call. -/
def act (w : Extractor) (e : Extraction) (now : ℕ) (outcome : Outcome) :
    Option (Extraction × Extractor) :=
  match e.phase with
  | .start => some (w.checked e (if e.chunk.empty then .advance else .write), w)
  | .write =>
    let w' := { w with sequence := w.sequence + 1 }
    match outcome, w.publishFile e.chunk with
    | .ok _, some path =>
      some ({ e with phase := .syncFile path }, { w' with disk := w.disk ++ [⟨path, now⟩] })
    | _, _ => some ({ e with phase := .failed, unpublished := true }, w')
  | .syncFile path =>
    match outcome with
    | .ok _ =>
      some ({ e with phase := if w.manifestOpen then .append path else .appended
                     written := some path }, w)
    | .fails =>
      some ({ e with phase := .failed, unpublished := true },
        { w with disk := w.disk.filter fun file => file.path ≠ path })
  | .append path =>
    -- numbers that do not fit, a latched manifest, and a log that cannot be opened or written
    if (publishRecord e.chunk path).storable && !w.theFailed then
      match outcome with
      | .ok created =>
        some ({ e with phase := .syncRecord path created },
          { w with log := w.log ++ [publishRecord e.chunk path] })
      | .fails => some ({ e with phase := .remove path, unpublished := true }, w)
    else some ({ e with phase := .remove path, unpublished := true }, w)
  | .syncRecord path created =>
    match outcome with
    | .ok _ => some ({ e with phase := .close path created, synced := true }, w)
    | .fails =>
      some ({ e with phase := .latch path, unpublished := true },
        { w with syncFailures := w.syncFailures + 1 })
  | .close path created =>
    match outcome with
    | .ok _ => some ({ e with phase := if created then .syncDirectories path 2 else .appended }, w)
    | .fails => some ({ e with phase := .remove path, unpublished := true }, w)
  | .syncDirectories _ 0 => some ({ e with phase := .appended }, w)
  | .syncDirectories path (left + 1) =>
    match outcome with
    | .ok _ => some ({ e with phase := .syncDirectories path left }, w)
    | .fails =>
      some ({ e with phase := .latch path, unpublished := true },
        { w with syncFailures := w.syncFailures + 1 })
  | .latch path => some ({ e with phase := .remove path }, { w with theFailed := true })
  | .appended => some (w.checked e .advance, w)
  | .remove path =>
    some ({ e with phase := .failed },
      { w with disk := w.disk.filter fun file => file.path ≠ path })
  | .failed | .hold =>
    if e.chunk.watermarkExempt then some ({ e with phase := .returned false }, w)
    else
      some ({ e with phase := .returned false, markedFailed := true },
        { w with registry := w.registry.persistFailed e.chunk.storyId })
  | .advance =>
    let e' := { e with phase := .release e.chunk.carriedReceipts }
    let chunk := e.chunk
    if chunk.watermarkExempt then some (e', w)
    else
      let registry := w.registry.advancePersisted chunk.storyId chunk.startTime chunk.endTime
      some ({ e' with advanced := true }, { w with registry := registry })
  | .release [] => some ({ e with phase := .returned true }, w)
  | .release (receipt :: receipts) =>
    some ({ e with phase := .release receipts, released := e.released ++ [receipt] },
      { w with registry := w.registry.releaseReceipt e.chunk.storyId receipt })
  | .returned _ => none

end Extractor

/-- What can happen to the streams of a grapher. -/
inductive ExtractorStep where
  /-- A stream calls `process_chunk`. -/
  | processChunk (chunk : Chunk)
  /-- A call makes its next action. -/
  | act (i : ℕ) (now : ℕ) (outcome : Outcome)
  /-- Another part of the grapher calls the registry. -/
  | registryCall (call : StoryWatermarkRegistry.Call)

/-- The calls of the registry that only `process_chunk` makes. -/
def ofProcessChunk : StoryWatermarkRegistry.Call → Bool
  | .advancePersisted _ _ _ | .releaseReceipt _ _ | .persistFailed _ => true
  | _ => false

/-- A step of the streams. -/
def Extractor.step (w : Extractor) : ExtractorStep → Option Extractor
  | .processChunk chunk => some { w with calls := w.calls ++ [{ chunk := chunk }] }
  | .act i now outcome => do
    let e ← w.calls[i]?
    let (e', w') ← w.act e now outcome
    return { w' with calls := w.calls.set i e' }
  | .registryCall call =>
    if ofProcessChunk call then none else some { w with registry := w.registry.call call }

/-- The streams of a grapher, with or without an archive manifest. -/
def extractor (manifestOpen : Bool) : System Extractor ExtractorStep where
  Initial w := ∃ tag instanceId, w =
    { tag := tag, manifestOpen := manifestOpen, registry := .fresh instanceId }
  step := Extractor.step

/-! ### What a call knows in each phase -/

/-- Neither the watermark nor a receipt was moved. -/
def Extraction.Quiet (e : Extraction) : Prop := e.advanced = false ∧ e.released = []

/-- A record of the log names the file. -/
def Named (log : List ArchiveManifestRecord) (path : ArchivePath) : Prop :=
  ∃ record ∈ log, record.Names path

/-- The file is written, and with a manifest its record is in the log and synced. -/
def Extraction.Published (manifestOpen : Bool) (log : List ArchiveManifestRecord)
    (e : Extraction) : Prop :=
  ∃ path, e.written = some path ∧ (manifestOpen = true → e.synced = true ∧ Named log path)

/-- The call may report its window. -/
def Extraction.MayReport (manifestOpen : Bool) (log : List ArchiveManifestRecord)
    (e : Extraction) : Prop :=
  (e.chunk.empty = true ∨ e.Published manifestOpen log) ∧ e.failedAtCheck = some false ∧
    e.unpublished = false

/-- What holds of a call in its phase. -/
def Extraction.Sound (manifestOpen : Bool) (log : List ArchiveManifestRecord)
    (e : Extraction) : Prop :=
  match e.phase with
  | .start | .write | .syncFile _ => e.Quiet ∧ e.unpublished = false
  | .append path =>
    e.Quiet ∧ e.unpublished = false ∧ e.written = some path ∧ manifestOpen = true
  | .syncRecord path _ =>
    e.Quiet ∧ e.unpublished = false ∧ e.written = some path ∧ manifestOpen = true ∧ Named log path
  | .close path _ | .syncDirectories path _ =>
    e.Quiet ∧ e.unpublished = false ∧ e.written = some path ∧ e.synced = true ∧ Named log path
  | .appended => e.Quiet ∧ e.unpublished = false ∧ e.Published manifestOpen log
  | .latch _ | .remove _ | .failed | .hold => e.Quiet
  | .advance => e.Quiet ∧ e.MayReport manifestOpen log
  | .release _ | .returned true => e.MayReport manifestOpen log
  | .returned false => e.Quiet ∧ (e.chunk.watermarkExempt = true ∨ e.markedFailed = true)

/-- The file a call has put into the archive, while no record names it or the record may
fail. -/
def Phase.file : Phase → Option ArchivePath
  | .syncFile path | .append path | .syncRecord path _ | .close path _
  | .syncDirectories path _ | .latch path | .remove path => some path
  | _ => none

section

variable {manifestOpen : Bool} {log log' : List ArchiveManifestRecord} {w w' : Extractor}
  {e e' : Extraction}

theorem Named.mono {path : ArchivePath} (h : Named log path) (hlog : log ⊆ log') :
    Named log' path := by
  obtain ⟨record, hmem, hnames⟩ := h
  exact ⟨record, hlog hmem, hnames⟩

theorem Extraction.Published.mono (h : e.Published manifestOpen log) (hlog : log ⊆ log') :
    e.Published manifestOpen log' := by
  obtain ⟨path, hwritten, hopen⟩ := h
  exact ⟨path, hwritten, fun ho => ⟨(hopen ho).1, (hopen ho).2.mono hlog⟩⟩

theorem Extraction.MayReport.mono (h : e.MayReport manifestOpen log) (hlog : log ⊆ log') :
    e.MayReport manifestOpen log' :=
  ⟨h.1.imp_right fun hp => hp.mono hlog, h.2⟩

/-- Records are only added, so what a call knows stays true. -/
theorem Extraction.Sound.mono (h : e.Sound manifestOpen log) (hlog : log ⊆ log') :
    e.Sound manifestOpen log' := by
  unfold Extraction.Sound at h ⊢
  split at h
  all_goals first
    | exact h
    | exact h.mono hlog
    | exact ⟨h.1, h.2.mono hlog⟩
    | exact ⟨h.1, h.2.1, h.2.2.mono hlog⟩
    | exact ⟨h.1, h.2.1, h.2.2.1, h.2.2.2.1, h.2.2.2.2.mono hlog⟩

/-- What an action of a call does. -/
structure Acted (w : Extractor) (e e' : Extraction) (w' : Extractor) : Prop where
  manifestOpen : w'.manifestOpen = w.manifestOpen
  calls : w'.calls = w.calls
  log : w.log ⊆ w'.log
  sound : e'.Sound w.manifestOpen w'.log
  /-- A file in the archive was there before, and the call still has it if it had it and no
  record names it; or the call has just put it there. -/
  disk : w.manifestOpen = true → ∀ file ∈ w'.disk,
    (file ∈ w.disk ∧ (e.phase.file = some file.path →
      e'.phase.file = some file.path ∨ Named w'.log file.path)) ∨
    e'.phase.file = some file.path

/-- An action that changes nothing but the call and the registry. -/
theorem Acted.of_same {registry : StoryWatermarkRegistry} {failed : Bool} {failures : ℕ}
    (hsound : e'.Sound w.manifestOpen w.log)
    (hfile : ∀ path, e.phase.file = some path → e'.phase.file = some path ∨ Named w.log path) :
    Acted w e e'
      { w with registry := registry, theFailed := failed, syncFailures := failures } where
  manifestOpen := rfl
  calls := rfl
  log := List.Subset.refl _
  sound := hsound
  disk := fun _ file hmem => Or.inl ⟨hmem, hfile file.path⟩

/-- An action that removes the call's file from the archive. -/
theorem Acted.of_removed {path : ArchivePath} (hfile : e.phase.file = some path)
    (hsound : e'.Sound w.manifestOpen w.log) :
    Acted w e e' { w with disk := w.disk.filter fun file => file.path ≠ path } where
  manifestOpen := rfl
  calls := rfl
  log := List.Subset.refl _
  sound := hsound
  disk := by
    intro _ file hmem
    obtain ⟨hmem, hne⟩ := List.mem_filter.mp hmem
    refine Or.inl ⟨hmem, fun heq => ?_⟩
    rw [hfile, Option.some.injEq] at heq
    simp [heq] at hne

theorem sound_checked {phase : Phase} (hquiet : e.Quiet)
    (hphase : w.manifestFailed = false → (w.checked e phase).Sound w.manifestOpen log) :
    (w.checked e phase).Sound w.manifestOpen log := by
  cases hfailed : w.manifestFailed with
  | false => exact hphase hfailed
  | true =>
    simp only [Extractor.checked, hfailed, if_true, Extraction.Sound]
    exact hquiet

/-- The last action of a call that failed. -/
theorem acted_recordFailure (hquiet : e.Quiet) (hfile : e.phase.file = none)
    (h : (if e.chunk.watermarkExempt then some ({ e with phase := .returned false }, w)
      else some ({ e with phase := .returned false, markedFailed := true },
        { w with registry := w.registry.persistFailed e.chunk.storyId })) = some (e', w')) :
    Acted w e e' w' := by
  have hkept : ∀ p, e.phase.file = some p → (none : Option ArchivePath) = some p ∨ Named w.log p :=
    fun p hp => absurd hp (by simp [hfile])
  split at h
  · next hexempt =>
    simp only [Option.some.injEq, Prod.mk.injEq] at h
    obtain ⟨rfl, rfl⟩ := h
    exact Acted.of_same ⟨hquiet, Or.inl hexempt⟩ hkept
  · simp only [Option.some.injEq, Prod.mk.injEq] at h
    obtain ⟨rfl, rfl⟩ := h
    exact Acted.of_same ⟨hquiet, Or.inr rfl⟩ hkept

/-- **What every action of a call does.** -/
theorem acted_of_act {now : ℕ} {outcome : Outcome} (hs : e.Sound w.manifestOpen w.log)
    (h : w.act e now outcome = some (e', w')) : Acted w e e' w' := by
  unfold Extraction.Sound at hs
  unfold Extractor.act at h
  cases hphase : e.phase with
  | start =>
    simp only [hphase, Option.some.injEq, Prod.mk.injEq] at hs h
    obtain ⟨rfl, rfl⟩ := h
    refine Acted.of_same (sound_checked hs.1 fun hopen => ?_) (by simp [hphase, Phase.file])
    simp only [Extractor.checked, hopen, Bool.false_eq_true, if_false]
    split
    · next hempty => exact ⟨hs.1, Or.inl hempty, rfl, hs.2⟩
    · exact hs
  | write =>
    simp only [hphase] at hs h
    split at h
    · next path _ =>
      simp only [Option.some.injEq, Prod.mk.injEq] at h
      obtain ⟨rfl, rfl⟩ := h
      refine { manifestOpen := rfl, calls := rfl, log := List.Subset.refl _, sound := hs,
               disk := fun _ file hmem => ?_ }
      rcases List.mem_append.mp hmem with hmem | hmem
      · exact Or.inl ⟨hmem, by simp [hphase, Phase.file]⟩
      · rw [List.mem_singleton.mp hmem]
        exact Or.inr rfl
    · simp only [Option.some.injEq, Prod.mk.injEq] at h
      obtain ⟨rfl, rfl⟩ := h
      exact { manifestOpen := rfl, calls := rfl, log := List.Subset.refl _, sound := hs.1,
              disk := fun _ file hmem => Or.inl ⟨hmem, by simp [hphase, Phase.file]⟩ }
  | syncFile path =>
    simp only [hphase] at hs h
    cases outcome with
    | ok created =>
      simp only [Option.some.injEq, Prod.mk.injEq] at h
      obtain ⟨rfl, rfl⟩ := h
      cases hopen : w.manifestOpen with
      | true =>
        refine Acted.of_same ⟨hs.1, hs.2, rfl, hopen⟩ fun p hp => Or.inl ?_
        rwa [hphase] at hp
      | false =>
        refine { manifestOpen := rfl, calls := rfl, log := List.Subset.refl _, sound := ?_,
                 disk := fun ho => absurd ho (by simp [hopen]) }
        exact ⟨hs.1, hs.2, path, rfl, fun ho => absurd ho (by simp [hopen])⟩
    | fails =>
      simp only [Option.some.injEq, Prod.mk.injEq] at h
      obtain ⟨rfl, rfl⟩ := h
      exact Acted.of_removed (by simp [hphase, Phase.file]) hs.1
  | append path =>
    simp only [hphase] at hs h
    have hkept : ∀ p, e.phase.file = some p → some path = some p ∨ Named w.log p :=
      fun p hp => Or.inl (by rwa [hphase] at hp)
    split at h
    · cases outcome with
      | ok created =>
        simp only [Option.some.injEq, Prod.mk.injEq] at h
        obtain ⟨rfl, rfl⟩ := h
        have hnamed : Named (w.log ++ [Extractor.publishRecord e.chunk path]) path :=
          ⟨_, List.mem_append_right _ (List.mem_singleton_self _), rfl⟩
        exact { manifestOpen := rfl, calls := rfl, log := List.subset_append_left _ _,
                sound := ⟨hs.1, hs.2.1, hs.2.2.1, hs.2.2.2, hnamed⟩
                disk := fun _ file hmem =>
                  Or.inl ⟨hmem, fun hp => (hkept _ hp).imp_right fun hn =>
                    hn.mono (List.subset_append_left _ _)⟩ }
      | fails =>
        simp only [Option.some.injEq, Prod.mk.injEq] at h
        obtain ⟨rfl, rfl⟩ := h
        exact Acted.of_same hs.1 hkept
    · simp only [Option.some.injEq, Prod.mk.injEq] at h
      obtain ⟨rfl, rfl⟩ := h
      exact Acted.of_same hs.1 hkept
  | syncRecord path created =>
    simp only [hphase] at hs h
    have hkept : ∀ p, e.phase.file = some p → some path = some p ∨ Named w.log p :=
      fun p hp => Or.inl (by rwa [hphase] at hp)
    cases outcome with
    | ok _ =>
      simp only [Option.some.injEq, Prod.mk.injEq] at h
      obtain ⟨rfl, rfl⟩ := h
      exact Acted.of_same ⟨hs.1, hs.2.1, hs.2.2.1, rfl, hs.2.2.2.2⟩ hkept
    | fails =>
      simp only [Option.some.injEq, Prod.mk.injEq] at h
      obtain ⟨rfl, rfl⟩ := h
      exact Acted.of_same hs.1 hkept
  | close path created =>
    simp only [hphase] at hs h
    have hkept : ∀ p, e.phase.file = some p → some path = some p ∨ Named w.log p :=
      fun p hp => Or.inl (by rwa [hphase] at hp)
    cases outcome with
    | ok _ =>
      simp only [Option.some.injEq, Prod.mk.injEq] at h
      obtain ⟨rfl, rfl⟩ := h
      cases created with
      | true => exact Acted.of_same hs hkept
      | false =>
        refine Acted.of_same ⟨hs.1, hs.2.1, path, hs.2.2.1, fun _ => hs.2.2.2⟩ fun p hp => ?_
        rw [hphase, Phase.file, Option.some.injEq] at hp
        exact Or.inr (hp ▸ hs.2.2.2.2)
    | fails =>
      simp only [Option.some.injEq, Prod.mk.injEq] at h
      obtain ⟨rfl, rfl⟩ := h
      exact Acted.of_same hs.1 hkept
  | syncDirectories path left =>
    simp only [hphase] at hs
    have hkept : ∀ p, e.phase.file = some p → some path = some p ∨ Named w.log p :=
      fun p hp => Or.inl (by rwa [hphase] at hp)
    cases left with
    | zero =>
      simp only [hphase, Option.some.injEq, Prod.mk.injEq] at h
      obtain ⟨rfl, rfl⟩ := h
      refine Acted.of_same ⟨hs.1, hs.2.1, path, hs.2.2.1, fun _ => hs.2.2.2⟩ fun p hp => ?_
      rw [hphase, Phase.file, Option.some.injEq] at hp
      exact Or.inr (hp ▸ hs.2.2.2.2)
    | succ left =>
      simp only [hphase] at h
      cases outcome with
      | ok _ =>
        simp only [Option.some.injEq, Prod.mk.injEq] at h
        obtain ⟨rfl, rfl⟩ := h
        exact Acted.of_same hs hkept
      | fails =>
        simp only [Option.some.injEq, Prod.mk.injEq] at h
        obtain ⟨rfl, rfl⟩ := h
        exact Acted.of_same hs.1 hkept
  | latch path =>
    simp only [hphase, Option.some.injEq, Prod.mk.injEq] at hs h
    obtain ⟨rfl, rfl⟩ := h
    exact Acted.of_same hs fun p hp => Or.inl (by rwa [hphase] at hp)
  | appended =>
    simp only [hphase, Option.some.injEq, Prod.mk.injEq] at hs h
    obtain ⟨rfl, rfl⟩ := h
    refine Acted.of_same (sound_checked hs.1 fun hopen => ?_) (by simp [hphase, Phase.file])
    simp only [Extractor.checked, hopen, Bool.false_eq_true, if_false]
    exact ⟨hs.1, Or.inr hs.2.2, rfl, hs.2.1⟩
  | remove path =>
    simp only [hphase, Option.some.injEq, Prod.mk.injEq] at hs h
    obtain ⟨rfl, rfl⟩ := h
    exact Acted.of_removed (by simp [hphase, Phase.file]) hs
  | failed =>
    simp only [hphase] at hs h
    exact acted_recordFailure hs (by simp [hphase, Phase.file]) h
  | hold =>
    simp only [hphase] at hs h
    exact acted_recordFailure hs (by simp [hphase, Phase.file]) h
  | advance =>
    simp only [hphase] at hs h
    split at h
    all_goals
      simp only [Option.some.injEq, Prod.mk.injEq] at h
      obtain ⟨rfl, rfl⟩ := h
      exact Acted.of_same hs.2 (by simp [hphase, Phase.file])
  | release receipts =>
    cases receipts with
    | nil =>
      simp only [hphase, Option.some.injEq, Prod.mk.injEq] at hs h
      obtain ⟨rfl, rfl⟩ := h
      exact Acted.of_same hs (by simp [hphase, Phase.file])
    | cons receipt receipts =>
      simp only [hphase, Option.some.injEq, Prod.mk.injEq] at hs h
      obtain ⟨rfl, rfl⟩ := h
      exact Acted.of_same hs (by simp [hphase, Phase.file])
  | returned success => simp [hphase] at h

/-! ### Runs -/

/-- The window of the call was empty, or its file was written and, with a manifest, a synced
record names it. -/
def Extraction.WindowSafe (w : Extractor) (e : Extraction) : Prop :=
  e.chunk.empty = true ∨ e.Published w.manifestOpen w.log

/-- The call moved the watermark or a receipt. -/
def Extraction.Reported (e : Extraction) : Prop := e.advanced = true ∨ e.released ≠ []

/-- What a call may have reported, and what it leaves behind if its file or its record
failed. -/
structure PublishedBeforeReport (w : Extractor) (e : Extraction) : Prop where
  reported : e.Reported → e.WindowSafe w ∧ e.failedAtCheck = some false
  unpublished : e.unpublished = true → ¬e.Reported ∧
    ∀ success, e.phase = .returned success →
      e.chunk.watermarkExempt = true ∨ e.markedFailed = true

/-- Every file in the archive is named by a record, or a call that has not returned still
has it in its hands. -/
def NoStrayFile (w : Extractor) : Prop :=
  w.manifestOpen = true → ∀ file ∈ w.disk,
    Named w.log file.path ∨ ∃ e ∈ w.calls, e.phase.file = some file.path

theorem Extraction.Quiet.not_reported (h : e.Quiet) : ¬e.Reported := by
  rintro (hadvanced | hreleased)
  · exact absurd (h.1.symm.trans hadvanced) (by decide)
  · exact hreleased h.2

theorem Extraction.Sound.quiet_or_mayReport (h : e.Sound w.manifestOpen w.log) :
    e.Quiet ∨ e.MayReport w.manifestOpen w.log := by
  unfold Extraction.Sound at h
  split at h
  all_goals first
    | exact Or.inr h
    | exact Or.inl h
    | exact Or.inl h.1

theorem Extraction.Sound.publishedBeforeReport (h : e.Sound w.manifestOpen w.log) :
    PublishedBeforeReport w e where
  reported := by
    intro hreported
    rcases h.quiet_or_mayReport with hquiet | hmay
    · exact absurd hreported hquiet.not_reported
    · exact ⟨hmay.1, hmay.2.1⟩
  unpublished := by
    intro hunpublished
    have hquiet : e.Quiet := by
      rcases h.quiet_or_mayReport with hquiet | hmay
      · exact hquiet
      · exact absurd (hmay.2.2.symm.trans hunpublished) (by decide)
    refine ⟨hquiet.not_reported, fun success hphase => ?_⟩
    simp only [Extraction.Sound, hphase] at h
    cases success with
    | false => exact h.2
    | true => exact absurd (h.2.2.symm.trans hunpublished) (by decide)

/-- Every call knows what its phase says, and no file is stray. -/
structure AllSound (w : Extractor) : Prop where
  calls : ∀ e ∈ w.calls, e.Sound w.manifestOpen w.log
  disk : NoStrayFile w

theorem AllSound.act (h : AllSound w) {i : ℕ} (hi : w.calls[i]? = some e)
    (hacted : Acted w e e' w') : AllSound { w' with calls := w.calls.set i e' } where
  calls := by
    intro d hd
    rw [hacted.manifestOpen]
    rcases List.mem_or_eq_of_mem_set hd with hd | rfl
    · exact (h.calls d hd).mono hacted.log
    · exact hacted.sound
  disk := by
    intro hopen file hfile
    have hopen' : w.manifestOpen = true := hacted.manifestOpen ▸ hopen
    have hlt : i < w.calls.length := (List.getElem?_eq_some_iff.mp hi).1
    have he' : e' ∈ w.calls.set i e' := List.mem_set hlt e'
    rcases hacted.disk hopen' file hfile with ⟨hbefore, hkept⟩ | hnew
    · rcases h.disk hopen' file hbefore with hnamed | ⟨d, hd, hdfile⟩
      · exact Or.inl (hnamed.mono hacted.log)
      · obtain ⟨j, hj⟩ := List.mem_iff_getElem?.mp hd
        by_cases hij : i = j
        · subst hij
          rw [hi, Option.some.injEq] at hj
          subst hj
          rcases hkept hdfile with hstill | hnamed
          · exact Or.inr ⟨e', he', hstill⟩
          · exact Or.inl hnamed
        · refine Or.inr ⟨d, List.mem_iff_getElem?.mpr ⟨j, ?_⟩, hdfile⟩
          rw [List.getElem?_set_ne hij, hj]
    · exact Or.inr ⟨e', he', hnew⟩

theorem allSound_step {l : ExtractorStep} (h : AllSound w)
    (hstep : (extractor manifestOpen).step w l = some w') : AllSound w' := by
  cases l with
  | processChunk chunk =>
    injection hstep with hstep
    subst hstep
    refine ⟨fun e he => ?_, fun hopen file hfile => ?_⟩
    · rcases List.mem_append.mp he with he | he
      · exact h.calls e he
      · rw [List.mem_singleton.mp he]
        exact ⟨⟨rfl, rfl⟩, rfl⟩
    · rcases h.disk hopen file hfile with hnamed | ⟨d, hd, hdfile⟩
      · exact Or.inl hnamed
      · exact Or.inr ⟨d, List.mem_append_left _ hd, hdfile⟩
  | act i now outcome =>
    obtain ⟨e, he, hrest⟩ := Option.bind_eq_some_iff.mp hstep
    obtain ⟨⟨e', w₁⟩, hact, hw'⟩ := Option.bind_eq_some_iff.mp hrest
    injection hw' with hw'
    subst hw'
    exact h.act he (acted_of_act (h.calls e (List.mem_of_getElem? he)) hact)
  | registryCall call =>
    obtain ⟨-, ⟨rfl⟩⟩ := Option.ite_none_left_eq_some.mp hstep
    exact ⟨h.calls, h.disk⟩

/-- **A window is published before it is reported.**  In every run of the streams, every
call that moved the watermark or a receipt had an empty window, or a written file with a
synced record, and found the manifest not latched when it last looked; a call whose file or
record failed has moved neither and has marked its story when it returns; and no file is
left in the archive that no record names. -/
theorem publish_before_report (h : (extractor manifestOpen).Reachable w) :
    (∀ e ∈ w.calls, PublishedBeforeReport w e) ∧ NoStrayFile w := by
  have hsound : AllSound w := by
    refine h.induction ?_ fun s l s' hs hstep => allSound_step hs hstep
    rintro s ⟨tag, instanceId, rfl⟩
    exact ⟨by simp, by simp [NoStrayFile]⟩
  exact ⟨fun e he => (hsound.calls e he).publishedBeforeReport, hsound.disk⟩

/-- The streams of group `7` before their first call. -/
def idleStreams : Extractor :=
  { tag := ⟨7, 100⟩, manifestOpen := true, registry := .fresh 1 }

/-- The next actions of a call, all of which succeed. -/
def succeeds (i n : ℕ) : List ExtractorStep := List.replicate n (.act i 1000 (.ok false))

/-- Two streams publish a window each.  The sync of the first one's record fails, and before
that stream gets to set the latch the second one, whose record is synced, looks at the
manifest and reports its window. -/
def failureBeforeLatch : List ExtractorStep :=
  [.processChunk { storyId := 1, chronicle := "sea", story := "tide", startTime := 10,
                   endTime := 20, eventCount := 3 },
    .processChunk { storyId := 2, chronicle := "sea", story := "wind", startTime := 10,
                    endTime := 20, eventCount := 4, carriedReceipts := [5] }] ++
    succeeds 0 4 ++ succeeds 1 6 ++ [.act 0 1000 .fails] ++ succeeds 1 3

theorem failureBeforeLatch_reports :
    ∃ w e, (extractor true).Reachable w ∧ e ∈ w.calls ∧ e.advanced = true ∧ e.released = [5] ∧
      e.syncFailedAtCheck = true := by
  have hend : ((extractor true).run idleStreams failureBeforeLatch).any (fun w =>
      w.calls[1]?.any fun e => decide (e.advanced = true ∧ e.released = [5] ∧
        e.syncFailedAtCheck = true)) = true := by
    decide +kernel
  obtain ⟨w, hrun, hw⟩ := (Option.any_eq_true _ _).mp hend
  obtain ⟨e, he, hfacts⟩ := (Option.any_eq_true _ _).mp hw
  obtain ⟨hadvanced, hreleased, hfailed⟩ := of_decide_eq_true hfacts
  exact ⟨w, e, ⟨idleStreams, failureBeforeLatch, ⟨_, _, rfl⟩, hrun⟩, List.mem_of_getElem? he,
    hadvanced, hreleased, hfailed⟩

/-- The report of a call whose record is synced. -/
theorem publish_before_report_synced :
    ∃ w e, (extractor true).Reachable w ∧ e ∈ w.calls ∧ e.Reported ∧
      (∀ e ∈ w.calls, PublishedBeforeReport w e) ∧ NoStrayFile w := by
  obtain ⟨w, e, hreachable, he, hadvanced, -, -⟩ := failureBeforeLatch_reports
  obtain ⟨hcalls, hdisk⟩ := publish_before_report hreachable
  exact ⟨w, e, hreachable, he, Or.inl hadvanced, hcalls, hdisk⟩

/-- **A sync may have failed when the manifest was last looked at**: the latch is set only
after the failed sync has returned and the log is closed. -/
theorem report_after_unlatched_failure :
    ¬∀ w, (extractor true).Reachable w → ∀ e ∈ w.calls, e.Reported →
      e.WindowSafe w ∧ e.syncFailedAtCheck = false := by
  intro hclaim
  obtain ⟨w, e, hreachable, he, hadvanced, -, hfailed⟩ := failureBeforeLatch_reports
  have hno := (hclaim w hreachable e he (Or.inl hadvanced)).2
  exact absurd (hno.symm.trans hfailed) (by decide)

end

end ChronoLog.Archive
