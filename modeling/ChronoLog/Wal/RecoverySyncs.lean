import ChronoLog.Wal.RecoveryRuns

/-!
# What a recovery syncs

A recovery may find a log of which not everything is on disk: the keeper that wrote it may have
died before a sync returned, and what it wrote is then read from the page cache.  Before it
returns, the recovery syncs every segment it has read, the torn one with its zeros, and the
directory.

## Main definitions

* `Disk.DataSynced`, `Disk.LinksSynced` — nothing of a segment, or of the listing, is left to
  sync.
* `SyncedFrom` — what has been read from a directory is synced.

## Main results

* `ensures_finishRecovery_synced` — a recovery that succeeds has synced what it read.
-/

namespace ChronoLog

namespace Disk

/-- The contents of the segment are synced. -/
def DataSynced (disk : Disk) (segment : ℕ) : Prop :=
  ∀ file : SegmentFile, disk.segments[segment]? = some file → file.unsynced = []

/-- The listing is synced: every file there is stays there. -/
def LinksSynced (disk : Disk) : Prop :=
  ∀ (segment : ℕ) (file : SegmentFile), disk.segments[segment]? = some file →
    file.linked = true ∧ file.linkUnsynced = false

variable {disk : Disk} {segment : ℕ}

theorem dataSynced_syncData (disk : Disk) (segment : ℕ) :
    (disk.syncData segment).DataSynced segment := by
  intro file hfile
  simp only [syncData, Std.ExtTreeMap.getElem?_alter_self, Option.map_eq_some_iff] at hfile
  obtain ⟨before, -, rfl⟩ := hfile
  rfl

theorem DataSynced.syncData (h : disk.DataSynced segment) (other : ℕ) :
    (disk.syncData other).DataSynced segment := by
  by_cases heq : other = segment
  · rw [heq]
    exact dataSynced_syncData disk segment
  · intro file hfile
    rw [Disk.syncData, Std.ExtTreeMap.getElem?_alter, if_neg (by simpa using heq)] at hfile
    exact h file hfile

theorem DataSynced.writeAt (h : disk.DataSynced segment) {other : ℕ} (hne : other ≠ segment)
    (offset : ℕ) (data : Bytes) : (disk.writeAt other offset data).DataSynced segment := by
  intro file hfile
  rw [Disk.writeAt, Std.ExtTreeMap.getElem?_alter, if_neg (by simpa using hne)] at hfile
  exact h file hfile

theorem DataSynced.syncDirectory (h : disk.DataSynced segment) :
    disk.syncDirectory.DataSynced segment := by
  intro file hfile
  simp only [Disk.syncDirectory, Std.ExtTreeMap.getElem?_map,
    Std.ExtTreeMap.getElem?_filter', Option.map_eq_some_iff, Option.filter_eq_some_iff] at hfile
  -- a file that stays keeps its contents
  obtain ⟨before, ⟨hbefore, -⟩, rfl⟩ := hfile
  exact h before hbefore

theorem linksSynced_syncDirectory (disk : Disk) : disk.syncDirectory.LinksSynced := by
  intro segment file hfile
  simp only [Disk.syncDirectory, Std.ExtTreeMap.getElem?_map,
    Std.ExtTreeMap.getElem?_filter', Option.map_eq_some_iff, Option.filter_eq_some_iff] at hfile
  obtain ⟨before, ⟨-, hlinked⟩, rfl⟩ := hfile
  exact ⟨hlinked, rfl⟩

theorem LinksSynced.syncData (h : disk.LinksSynced) (other : ℕ) :
    (disk.syncData other).LinksSynced := by
  intro segment file hfile
  rw [Disk.syncData, Std.ExtTreeMap.getElem?_alter] at hfile
  split at hfile
  · obtain ⟨before, hbefore, rfl⟩ := Option.map_eq_some_iff.mp hfile
    exact h other before hbefore
  · exact h segment file hfile

end Disk

namespace KeeperWal

open Concurrent (Prog)

/-- What has been read from a directory is synced: the segments it listed, and the listing.
The file of drops is as it was read, or pruned. -/
structure SyncedFrom (start : Disk) (disk : Disk) : Prop where
  data : ∀ segment ∈ start.list, disk.DataSynced segment
  links : disk.LinksSynced
  drops : ∀ drops ∈ disk.drops :: disk.olderDrops,
    drops = start.drops ∨ drops.getD [] = neededDrops start.list start

/-- What the pruning of the file of drops leaves. -/
theorem SyncedFrom.changeDrops {start disk : Disk} (h : SyncedFrom start disk)
    {drops : Option (List UnloggedDrop)} (hdrops : drops.getD [] = neededDrops start.list start) :
    SyncedFrom start { disk with drops := drops, olderDrops := disk.drops :: disk.olderDrops } := by
  refine ⟨h.data, h.links, fun other hother => ?_⟩
  rcases List.mem_cons.mp hother with rfl | hother
  · exact .inr hdrops
  · exact h.drops other hother

/-- No effect after the last sync of the directory takes it back. -/
theorem keptByRecovery_syncedFrom (start : Disk) :
    KeptByRecovery (SyncedFrom start) none (neededDrops start.list start) where
  syncData disk other h :=
    ⟨fun segment hmem => (h.data segment hmem).syncData other, h.links.syncData other, h.drops⟩
  syncDirectory disk h := by
    refine ⟨fun segment hmem => (h.data segment hmem).syncDirectory,
      Disk.linksSynced_syncDirectory disk, fun drops hdrops => ?_⟩
    rw [List.mem_singleton.mp hdrops]
    exact h.drops _ List.mem_cons_self
  zero ends hnone := by cases hnone
  prune _ h := h.changeDrops rfl
  pruneAll hnone _ h := h.changeDrops hnone.symm

/-- The rule for an effect when only its outcome matters. -/
theorem ensures_outcome {f : Disk → Disk} {s : KeeperWal}
    {Post : Option Errno → KeeperWal → Prop} (hok : Post none { s with disk := f s.disk })
    (hfail : ∀ err, Post (some err) s) :
    (fileOp f).Ensures (Choices true) (fun _ => True) Post s :=
  ensures_fileOp (P := fun _ => True) trivial trivial hok fun _ => hfail

/-- What the syncs of the segments keep, and what they bring about if none fails. -/
theorem ensures_syncSegments_synced (skip : Option ℕ) (segments : List ℕ) (s : KeeperWal) :
    (syncSegments skip segments).Ensures (Choices true) (fun _ => True)
      (fun err t => t.disk.drops = s.disk.drops ∧
        (∀ segment, s.disk.DataSynced segment → t.disk.DataSynced segment) ∧
        (err = none → ∀ segment ∈ segments, skip ≠ some segment → t.disk.DataSynced segment))
      s := by
  induction segments generalizing s with
  | nil => exact .ret trivial ⟨rfl, fun _ h => h, fun _ segment hmem => by cases hmem⟩
  | cons first segments ih =>
    rw [syncSegments]
    split
    · -- the torn segment is left to its zeros
      next hskip =>
      refine (ih s).mono (fun _ _ => trivial) fun err t ht => ?_
      obtain ⟨hdrops, hkept, hsynced⟩ := ht
      refine ⟨hdrops, hkept, fun hnone segment hmem hne => ?_⟩
      rcases List.mem_cons.mp hmem with rfl | hmem
      · exact absurd hskip hne
      · exact hsynced hnone segment hmem hne
    · refine Prog.Ensures.seq (fun err t => t.disk.drops = s.disk.drops ∧
          (∀ segment, s.disk.DataSynced segment → t.disk.DataSynced segment) ∧
          (err = none → t.disk.DataSynced first))
        (ensures_outcome ⟨rfl, fun _ h => h.syncData first,
            fun _ => Disk.dataSynced_syncData _ _⟩
          fun err => ⟨rfl, fun _ h => h, fun hnone => by cases hnone⟩)
        fun err t ht => ?_
      obtain ⟨hdrops, hkept, hfirst⟩ := ht
      cases err with
      | some err => exact .ret trivial ⟨hdrops, hkept, fun hnone => by cases hnone⟩
      | none =>
        -- what the first sync brought about is kept by the others
        refine (ih t).mono (fun _ _ => trivial) fun err u hu => ?_
        obtain ⟨hudrops, hukept, husynced⟩ := hu
        refine ⟨hudrops.trans hdrops, fun segment h => hukept segment (hkept segment h),
          fun hnone segment hmem hne => ?_⟩
        rcases List.mem_cons.mp hmem with rfl | hmem
        · exact hukept _ (hfirst rfl)
        · exact husynced hnone segment hmem hne

/-- What `zeroTail` keeps of the other segments; if it does not fail, its own is synced. -/
theorem ensures_zeroTail_synced (ends : SegmentEnd) (s : KeeperWal) :
    (zeroTail ends).Ensures (Choices true) (fun _ => True)
      (fun err t => t.disk.drops = s.disk.drops ∧
        (∀ segment, ends.segment ≠ segment → s.disk.DataSynced segment →
          t.disk.DataSynced segment) ∧
        (err = none → t.disk.DataSynced ends.segment)) s := by
  refine Prog.Ensures.seq (fun _ t => t = s) (ensures_outcome rfl fun _ => rfl) ?_
  rintro err s rfl
  cases err with
  | some err => exact .ret trivial ⟨rfl, fun _ _ h => h, fun hnone => by cases hnone⟩
  | none =>
    refine Prog.Ensures.seq (fun _ t => t.disk.drops = s.disk.drops ∧
        ∀ segment, ends.segment ≠ segment → s.disk.DataSynced segment →
          t.disk.DataSynced segment)
      (Prog.Ensures.atomically trivial fun c _ => ?_) fun err t ht => ?_
    · -- a write that fails has changed the segment too, at most that one
      by_cases hfails : c.fails = true
      · exact ⟨_, _, if_pos hfails, trivial, rfl, fun _ hne h => h.writeAt hne _ _⟩
      · exact ⟨_, _, if_neg hfails, trivial, rfl, fun _ hne h => h.writeAt hne _ _⟩
    · obtain ⟨hdrops, hkept⟩ := ht
      cases err with
      | some err => exact .ret trivial ⟨hdrops, hkept, fun hnone => by cases hnone⟩
      | none =>
        exact ensures_outcome
          ⟨hdrops, fun segment hne h => (hkept segment hne h).syncData _,
            fun _ => Disk.dataSynced_syncData _ _⟩
          fun err => ⟨hdrops, hkept, fun hnone => by cases hnone⟩

theorem ensures_eraseTornTail_synced (torn : Option SegmentEnd) (s : KeeperWal) :
    (eraseTornTail torn).Ensures (Choices true) (fun _ => True)
      (fun err t => t.disk.drops = s.disk.drops ∧ (err = none →
        ∀ segment, torn.map SegmentEnd.segment = some segment ∨ s.disk.DataSynced segment →
          t.disk.DataSynced segment)) s := by
  rcases torn with - | ends
  · refine .ret trivial ⟨rfl, fun _ segment h => ?_⟩
    exact h.resolve_left (by simp)
  · refine Prog.Ensures.seq (fun _ t => t = s)
      ((ensures_partialOps (P := fun _ => True) 6 trivial).mono (fun _ _ => trivial)
        fun _ _ h => h.1) ?_
    rintro err s rfl
    refine Prog.Ensures.bind (ensures_zeroTail_synced ends s) fun err u hu => ?_
    obtain ⟨hdrops, hkept, hown⟩ := hu
    cases err with
    | some err => exact .ret trivial ⟨hdrops, fun hnone => by cases hnone⟩
    | none =>
      refine .ret trivial ⟨hdrops, fun _ segment h => ?_⟩
      by_cases heq : ends.segment = segment
      · exact heq ▸ hown rfl
      · exact hkept segment heq (h.resolve_left (by simpa using heq))

/-- **A recovery that succeeds has synced what it read**, of a log with segments. -/
theorem ensures_finishRecovery_synced {state : RecoveredState} {ends : List SegmentEnd}
    (hends : ends ≠ []) {start : Disk} (hsegments : state.segments = start.list) {s : KeeperWal}
    (hdrops : s.disk.drops = start.drops) :
    (finishRecovery state ends).Ensures (Choices true) (fun _ => True)
      (fun r t => (∃ out, r = .ok out) → SyncedFrom start t.disk) s := by
  have hfailed : ∀ (err : RecoveryError) (disk : Disk),
      (∃ out, (Except.error err : Except RecoveryError RecoveredState) = .ok out) →
        SyncedFrom start disk := by
    rintro err disk ⟨out, hout⟩
    cases hout
  refine Prog.Ensures.bind (ensures_syncSegments_synced _ _ s) fun err t ht => ?_
  obtain ⟨htdrops, -, hdata⟩ := ht
  cases err with
  | some err => exact .ret trivial (hfailed err _)
  | none =>
    refine Prog.Ensures.bind (ensures_eraseTornTail_synced _ t) fun err u hu => ?_
    obtain ⟨hudrops, hudata⟩ := hu
    cases err with
    | some err => exact .ret trivial (hfailed err _)
    | none =>
      -- the torn segment was synced with its zeros, every other one by itself
      have hlisted : ∀ segment ∈ start.list, u.disk.DataSynced segment := by
        intro segment hmem
        refine hudata rfl segment (or_iff_not_imp_left.mpr fun hne => ?_)
        exact hdata rfl segment (hsegments ▸ hmem) hne
      have hsync : u.disk.syncDirectory.drops = start.drops :=
        hudrops.trans (htdrops.trans hdrops)
      rw [syncLogDirectory, if_neg (by simpa using hends)]
      refine Prog.Ensures.seq
        (fun err v => err = none → SyncedFrom start v.disk ∧ v.disk.drops = start.drops)
        (ensures_outcome (fun _ => ⟨?_, hsync⟩) fun err hnone => by cases hnone) fun err v hv => ?_
      · refine ⟨fun segment hmem => (hlisted segment hmem).syncDirectory,
          Disk.linksSynced_syncDirectory _, fun drops hmem => .inl ?_⟩
        rw [List.mem_singleton.mp hmem]
        exact hsync
      cases err with
      | some err => exact .ret trivial (hfailed (.cannotSyncDirectory err) _)
      | none =>
        obtain ⟨hv, hvdrops⟩ := hv rfl
        have hkept := keptByRecovery_syncedFrom start
        -- the drops that are needed are those of the log as it was read
        have hneeded : neededDrops start.list start = neededDrops state.segments v.disk := by
          rw [neededDrops, neededDrops, hsegments, hvdrops]
        rw [hneeded] at hkept
        refine Prog.Ensures.bind ((ensures_recoverDrops hkept hv).mono (fun _ _ => trivial)
          fun _ _ h => h.1) fun r w hw => ?_
        cases r with
        | error err => exact .ret trivial (hfailed (.cannotReadDrops err) _)
        | ok drops => exact .ret trivial fun _ => hw

end KeeperWal

end ChronoLog
