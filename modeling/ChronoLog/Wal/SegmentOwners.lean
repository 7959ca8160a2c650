import ChronoLog.Wal.Identity
import ChronoLog.Wal.SegmentSteps

/-!
# Who writes to which segment

The committer writes to the active segment, and whoever prepares a spare writes to
that one; nobody else writes to either.

## Main definitions

* `Filed` — the invariant of the segment manager and the segments it knows.
* `Handled`, `Prepared` — what a thread leaves alone that is not the one that takes
  spares, or not the preparer.
* `FileStep` — what each action of a thread keeps.
* `Stable` — a condition that the other threads keep.

## Main results

* `prepare_triple` — a preparation writes to the segment it prepares only.
* `preparerTurn_triple` — the turns of the preparer keep the invariant.
-/

namespace ChronoLog

/-- A write that succeeds is what a read of its range returns. -/
theorem Disk.readRange_writeAt {disk : Disk} {segment : ℕ}
    (h : (disk.readFile segment).isSome) (offset : ℕ) (data : Bytes) :
    (disk.writeAt segment offset data).readRange segment offset data.length = data := by
  obtain ⟨content, hcontent⟩ := Option.isSome_iff_exists.mp h
  -- a gap before the offset is filled with zeros
  have hlength : ((content ++ List.replicate (offset - content.length) 0).take offset).length =
      offset := by
    rw [List.length_take, List.length_append, List.length_replicate]
    omega
  rw [readRange, readFile_writeAt, hcontent, Option.map_some, if_pos rfl, Option.getD_some,
    overwrite, List.append_assoc, List.drop_left' hlength, List.take_left' rfl]

theorem Disk.readRange_congr {disk disk' : Disk} {segment : ℕ}
    (h : disk'.readFile segment = disk.readFile segment) (offset bytes : ℕ) :
    disk'.readRange segment offset bytes = disk.readRange segment offset bytes := by
  rw [readRange, readRange, h]

theorem Disk.readFile_link (disk : Disk) (segment : ℕ) (content : Bytes) (other : ℕ) :
    (disk.link segment content).readFile other =
      if segment = other then some content else disk.readFile other := by
  simp only [readFile, link, Std.ExtTreeMap.getElem?_insert, Std.compare_eq_iff_eq]
  split <;> rfl

theorem Disk.readFile_remove_of_ne (disk : Disk) {segment other : ℕ} (h : other ≠ segment) :
    (disk.remove segment).readFile other = disk.readFile other := by
  simp only [readFile, remove, Std.ExtTreeMap.getElem?_alter, Std.compare_eq_iff_eq,
    if_neg (Ne.symm h)]

theorem Disk.readFile_writeAt_of_ne (disk : Disk) {segment other : ℕ} (h : other ≠ segment)
    (offset : ℕ) (data : Bytes) :
    (disk.writeAt segment offset data).readFile other = disk.readFile other := by
  rw [readFile_writeAt]
  simp only [if_neg (Ne.symm h), Option.map_id']

theorem Disk.isSome_readFile_writeAt (disk : Disk) (segment other offset : ℕ) (data : Bytes) :
    ((disk.writeAt segment offset data).readFile other).isSome =
      (disk.readFile other).isSome := by
  rw [readFile_writeAt, Option.isSome_map]

/-- A listing names the segments that can be read, oldest first. -/
theorem Disk.mem_list {disk : Disk} {segment : ℕ} :
    segment ∈ disk.list ↔ (disk.readFile segment).isSome := by
  rw [list_eq, List.mem_map, Option.isSome_iff_exists]
  constructor
  · rintro ⟨⟨_, bytes⟩, hmem, rfl⟩
    exact ⟨bytes, mem_image.mp hmem⟩
  · rintro ⟨bytes, h⟩
    exact ⟨(segment, bytes), mem_image.mpr h, rfl⟩

theorem Disk.pairwise_list (disk : Disk) : disk.list.Pairwise (· < ·) := by
  rw [list_eq, List.pairwise_map]
  exact disk.pairwise_image

/-- The last segment a listing names is its newest. -/
theorem Disk.le_getLast {disk : Disk} {segment last : ℕ} (h : segment ∈ disk.list)
    (hlast : disk.list.getLast? = some last) : segment ≤ last := by
  obtain ⟨before, hlist⟩ := List.getLast?_eq_some_iff.mp hlast
  have hpairwise := disk.pairwise_list
  rw [hlist] at h hpairwise
  rcases List.mem_append.mp h with h | h
  · exact ((List.pairwise_append.mp hpairwise).2.2 segment h last (List.mem_singleton_self _)).le
  · exact (List.mem_singleton.mp h).le

namespace KeeperWal

open Concurrent (Prog Rely Pool Discipline)

/-! ### What the threads share -/

/-- The thread that takes spares and writes to them: the committer while it runs, and
else the owner. -/
def handler (s : KeeperWal) : ThreadId := if s.committerAlive then .committer else .owner

/-- The preparer prepares a spare. -/
def PreparerAtWork (files : WalSegmentManager) : Prop :=
  files.preparing ∧ files.preparerAlive ∧ files.preparerFailed = false

/-- The thread that takes spares prepares one. -/
def HandlerAtWork (files : WalSegmentManager) : Prop :=
  files.preparing ∧ (files.preparerAlive → files.preparerFailed)

theorem HandlerAtWork.not_preparer {files : WalSegmentManager} (h : HandlerAtWork files) :
    ¬PreparerAtWork files := fun hp => by
  have hfailed := h.2 hp.2.1
  rw [hp.2.2] at hfailed
  cases hfailed

/-- **The invariant of the segments**: those that were handed out and the ready spare can be
read, and have numbers of their own; the committer's is one of them; what is queued is
encoded, and what was synced holds the E records of its group. -/
structure Filed (s : KeeperWal) : Prop where
  listed : ∀ n ∈ s.segmentFiles.segmentList,
    (s.disk.readFile n).isSome ∧ n < s.segmentFiles.nextSegment
  nodup : s.segmentFiles.segmentList.Nodup
  spare : ∀ spare, s.segmentFiles.spare = some spare →
    ((s.disk.readFile spare.segment).isSome ∧ spare.segment < s.segmentFiles.nextSegment) ∧
      spare.segment ∉ s.segmentFiles.segmentList ∧ s.segmentFiles.preparing = false
  active : s.committerAlive → s.activeSegment ∈ s.segmentFiles.segmentList ∧
    (s.segmentFiles.preparerAlive → s.segmentFiles.preparerActive)
  closed : s.segmentFiles.opened = false →
    s.segmentFiles.spare = none ∧ s.segmentFiles.preparerAlive = false
  queued : ∀ entry ∈ s.queue, entry.Encoded
  imaged : ∀ segment group image, .synced segment group image ∈ s.trace →
    EventsOf (Wal.eventsIn image) (eventsOf group)

/-- What a thread leaves alone that is not the one that takes spares. -/
structure Handled (s t : KeeperWal) : Prop where
  activeSegment : t.activeSegment = s.activeSegment
  opened : t.segmentFiles.opened = s.segmentFiles.opened
  listed : t.segmentFiles.segmentList = s.segmentFiles.segmentList
  readFile : ∀ n ∈ s.segmentFiles.segmentList, t.disk.readFile n = s.disk.readFile n
  spare : ∀ spare, s.segmentFiles.spare = some spare → t.segmentFiles.spare = some spare ∧
    t.disk.readFile spare.segment = s.disk.readFile spare.segment
  atWork : HandlerAtWork s.segmentFiles → HandlerAtWork t.segmentFiles ∧
    t.segmentFiles.spare = s.segmentFiles.spare ∧
    t.segmentFiles.nextSegment = s.segmentFiles.nextSegment ∧
    ∀ n, t.disk.readFile n = s.disk.readFile n
  preparer : t.segmentFiles.preparerActive = s.segmentFiles.preparerActive ∧
    (t.segmentFiles.preparerAlive → s.segmentFiles.preparerAlive)

/-- What the others leave alone while the preparer prepares a spare. -/
structure Prepared (s t : KeeperWal) : Prop where
  atWork : PreparerAtWork t.segmentFiles
  spare : t.segmentFiles.spare = s.segmentFiles.spare
  nextSegment : t.segmentFiles.nextSegment = s.segmentFiles.nextSegment
  readFile : ∀ n, n ∉ s.segmentFiles.segmentList →
    n ∉ t.segmentFiles.segmentList ∧ t.disk.readFile n = s.disk.readFile n

/-- What each action of a thread keeps of the segments. -/
structure FileStep (i : ThreadId) (s t : KeeperWal) : Prop where
  filed : Filed s → Filed t
  handled : i ≠ s.handler → Handled s t
  prepared : i ≠ .preparer → PreparerAtWork s.segmentFiles → Prepared s t
  /-- Only the committer ends its thread, and only the owner starts it. -/
  committer : (i ≠ .committer → s.committerAlive → t.committerAlive) ∧
    (i ≠ .owner → t.committerAlive → s.committerAlive)
  /-- Only the preparer ends its thread. -/
  preparer : i ≠ .preparer → s.segmentFiles.preparerAlive → t.segmentFiles.preparerAlive
  state : i ≠ .owner → t.state = s.state

/-! ### Actions that leave the segments alone -/

theorem Untouched.handled {s t : KeeperWal} (h : Untouched s t) : Handled s t := by
  have hfiles := h.segmentFiles
  refine ⟨h.activeSegment, by rw [hfiles], by rw [hfiles], fun n _ => h.readFile n, ?_, ?_, ?_⟩
  · exact fun spare hspare => ⟨by rw [hfiles]; exact hspare, h.readFile _⟩
  · exact fun hwork => ⟨by rw [hfiles]; exact hwork, by rw [hfiles], by rw [hfiles], h.readFile⟩
  · exact ⟨by rw [hfiles], fun halive => by rwa [hfiles] at halive⟩

theorem Untouched.filed {s t : KeeperWal} (h : Untouched s t) (hs : Filed s) : Filed t where
  listed n hn := by
    rw [h.segmentFiles] at hn ⊢
    rw [h.readFile]
    exact hs.listed n hn
  nodup := by
    rw [h.segmentFiles]
    exact hs.nodup
  spare spare hspare := by
    rw [h.segmentFiles] at hspare ⊢
    rw [h.readFile]
    exact hs.spare spare hspare
  active halive := by
    rw [h.segmentFiles, h.activeSegment]
    exact hs.active (h.committerAlive ▸ halive)
  closed hopened := by
    rw [h.segmentFiles] at hopened ⊢
    exact hs.closed hopened
  queued entry hentry := (h.queue entry hentry).elim (hs.queued entry) id
  imaged segment group image hmem := hs.imaged segment group image (h.trace _ _ _ hmem)

/-- They keep what every thread keeps. -/
theorem Untouched.fileStep {s t : KeeperWal} (h : Untouched s t) {i : ThreadId} :
    FileStep i s t where
  filed := h.filed
  handled _ := h.handled
  prepared _ hwork := by
    have hfiles := h.segmentFiles
    exact ⟨by rw [hfiles]; exact hwork, by rw [hfiles], by rw [hfiles],
      fun n hn => ⟨by rw [hfiles]; exact hn, h.readFile n⟩⟩
  committer := by
    rw [h.committerAlive]
    exact ⟨fun _ => id, fun _ => id⟩
  preparer _ halive := by
    rw [h.segmentFiles]
    exact halive
  state _ := h.state

/-- A triple of a thread. -/
abbrev FileTriple {α : Type} (i : ThreadId) (Pre : KeeperWal → Prop) (p : WalProg α)
    (Post : α → KeeperWal → Prop) : Prop :=
  Prog.Triple (Rely FileStep i) (FileStep i) Pre p Post

/-- A condition that the others keep, and the actions of the thread that leave the segments
alone. -/
structure Stable (i : ThreadId) (P : KeeperWal → Prop) : Prop where
  others : ∀ s t, P s → Rely FileStep i s t → P t
  own : ∀ s t, P s → Untouched s t → P t

theorem Stable.and {i : ThreadId} {P Q : KeeperWal → Prop} (hP : Stable i P) (hQ : Stable i Q) :
    Stable i fun s => P s ∧ Q s :=
  ⟨fun s t hs hst => ⟨hP.others s t hs.1 hst, hQ.others s t hs.2 hst⟩,
    fun s t hs hst => ⟨hP.own s t hs.1 hst, hQ.own s t hs.2 hst⟩⟩

/-- What says nothing about the state. -/
theorem stable_const (i : ThreadId) (p : Prop) : Stable i fun _ => p :=
  ⟨fun _ _ h _ => h, fun _ _ h _ => h⟩

theorem Stable.untouched {i : ThreadId} {P : KeeperWal → Prop} (hP : Stable i P) {α : Type}
    {p : WalProg α} (h : p.Always Untouched) : FileTriple i P p fun _ => P :=
  .of_always h hP.others fun s t hs hq => ⟨hq.fileStep, hP.own s t hs hq⟩

/-- The rule for an action that fails or changes the directory. -/
theorem fileOp_triple {i : ThreadId} {f : Disk → Disk} {Pre : KeeperWal → Prop}
    {Post : Option Errno → KeeperWal → Prop} (hpre : Stable i Pre)
    (hpost : ∀ r, Stable i (Post r))
    (hok : ∀ s, Pre s → FileStep i s { s with disk := f s.disk } ∧
      Post none { s with disk := f s.disk })
    (hfail : ∀ s, Pre s → Post (some .failed) s) : FileTriple i Pre (fileOp f) Post := by
  refine .atomically hpre.others (fun r => (hpost r).others) fun s c r s' hs h => ?_
  split at h <;> cases h
  · exact ⟨(Untouched.refl s).fileStep, hfail s hs⟩
  · exact hok s hs

/-- The rule for an action of the thread itself. -/
theorem action_triple {i : ThreadId} {α : Type} {f : KeeperWal → α × KeeperWal}
    {Pre : KeeperWal → Prop} {Post : α → KeeperWal → Prop} (hpre : Stable i Pre)
    (hpost : ∀ a, Stable i (Post a))
    (h : ∀ s, Pre s → FileStep i s (f s).2 ∧ Post (f s).1 (f s).2) :
    FileTriple i Pre (.modify f) Post :=
  .modify hpre.others (fun a => (hpost a).others) h

/-! ### Preparations -/

/-- What is known after the rename of a prepared segment, which may have failed. -/
def Linked (P : KeeperWal → Prop) (n : ℕ) (content : Bytes) : Option Errno → KeeperWal → Prop
  | none => fun s => P s ∧ s.disk.readFile n = some content
  | some _ => P

/-- A preparation writes to the segment it prepares only. -/
theorem prepare_triple {i : ThreadId} {n : ℕ} {P : KeeperWal → Prop} (hP : Stable i P)
    (hread : ∀ bytes, Stable i fun s => P s ∧ s.disk.readFile n = some bytes)
    (hwrite : ∀ s (disk : Disk), P s →
      (∀ other, other ≠ n → disk.readFile other = s.disk.readFile other) →
        FileStep i s { s with disk := disk } ∧ P { s with disk := disk }) (bytes : ℕ) :
    FileTriple i P (prepare n bytes) fun made s =>
      P s ∧ ∀ spare, made = .ok spare → spare.segment = n ∧ (s.disk.readFile n).isSome := by
  -- a preparation that fails takes its temporary file away
  have hfailed : ∀ err : Errno, FileTriple i P
      (do let _ ← partialOp; return .error err : WalProg (Except Errno Spare)) fun made s =>
        P s ∧ ∀ spare, made = .ok spare → spare.segment = n ∧ (s.disk.readFile n).isSome :=
    fun err => .bind (fun _ => .refl) (hP.untouched (always_untouched_fileOp fun _ _ => rfl))
      fun _ => .ret hP.others fun s hs => ⟨hs, fun spare h => by cases h⟩
  refine .bind (fun _ => .refl) (hP.untouched (always_untouched_ask _)) fun header => ?_
  refine .bind (fun _ => .refl) (hP.untouched (always_untouched_partialOps 4)) fun r => ?_
  cases r with
  | some err => exact hfailed err
  | none =>
    -- the file is there once it is renamed into place
    let content := header ++ List.replicate (max bytes header.length - header.length) 0
    refine .seq (Linked P n content) (fun _ => .refl)
      (fileOp_triple hP (fun r => ?_) (fun s hs => ?_) fun s hs => hs) fun r => ?_
    · cases r with
      | none => exact hread content
      | some err => exact hP
    · obtain ⟨hstep, hafter⟩ := hwrite s (s.disk.link n content) hs fun other hne => by
        rw [Disk.readFile_link, if_neg (Ne.symm hne)]
      exact ⟨hstep, hafter, by rw [Disk.readFile_link, if_pos rfl]⟩
    cases r with
    | some err => exact hfailed err
    | none =>
      refine .bind (fun _ => .refl)
        ((hread content).untouched always_untouched_syncDirectory) fun r => ?_
      cases r with
      | some err =>
        -- the sync of the directory failed: the segment is taken away again
        refine .seq (fun _ => P) (fun _ => .refl) (fileOp_triple (hread content)
          (fun _ => hP) (fun s hs => ?_) fun s hs => hs.1) fun _ => ?_
        · exact hwrite s _ hs.1 fun other hne => s.disk.readFile_remove_of_ne hne
        · exact .ret hP.others fun s hs => ⟨hs, fun spare h => by cases h⟩
      | none =>
        refine .ret (hread content).others fun s hs => ⟨hs.1, fun spare h => ?_⟩
        cases h
        exact ⟨rfl, by rw [hs.2]; rfl⟩

/-- The preparer with a spare to prepare. -/
structure Preparing (n : ℕ) (s : KeeperWal) : Prop where
  filed : Filed s
  atWork : PreparerAtWork s.segmentFiles
  spare : s.segmentFiles.spare = none
  lt : n < s.segmentFiles.nextSegment
  notMem : n ∉ s.segmentFiles.segmentList

theorem Preparing.of_prepared {n : ℕ} {s t : KeeperWal} (hs : Preparing n s) (hfiled : Filed t)
    (h : Prepared s t) : Preparing n t :=
  ⟨hfiled, h.atWork, h.spare.trans hs.spare, h.nextSegment ▸ hs.lt, (h.readFile n hs.notMem).1⟩

theorem Preparing.step {n : ℕ} {i : ThreadId} {s t : KeeperWal} (hi : i ≠ .preparer)
    (h : FileStep i s t) (hs : Preparing n s) : Preparing n t :=
  hs.of_prepared (h.filed hs.filed) (h.prepared hi hs.atWork)

theorem Preparing.untouched {n : ℕ} {s t : KeeperWal} (hs : Preparing n s)
    (h : Untouched s t) : Preparing n t :=
  hs.step (i := .owner) (by decide) h.fileStep

theorem stable_preparing (n : ℕ) : Stable .preparer (Preparing n) :=
  ⟨Rely.stable fun _ _ _ hi h hs => hs.step hi h, fun _ _ hs h => hs.untouched h⟩

theorem stable_preparing_read (n : ℕ) (bytes : Bytes) :
    Stable .preparer fun s => Preparing n s ∧ s.disk.readFile n = some bytes := by
  refine ⟨Rely.stable fun i s t hi h hs => ⟨hs.1.step hi h, ?_⟩,
    fun s t hs h => ⟨hs.1.untouched h, (h.readFile n).trans hs.2⟩⟩
  exact ((h.prepared hi hs.1.atWork).readFile n hs.1.notMem).2.trans hs.2

/-- What is written to a segment that is neither listed nor the ready spare. -/
theorem Filed.write {s : KeeperWal} (hs : Filed s) {n : ℕ} {disk : Disk}
    (hspare : s.segmentFiles.spare = none) (hn : n ∉ s.segmentFiles.segmentList)
    (hdisk : ∀ other, other ≠ n → disk.readFile other = s.disk.readFile other) :
    Filed { s with disk := disk } where
  listed other hother := by
    show (disk.readFile other).isSome ∧ _
    rw [hdisk other fun heq => hn (heq ▸ hother)]
    exact hs.listed other hother
  nodup := hs.nodup
  spare spare h := by
    rw [show s.segmentFiles.spare = some spare from h] at hspare
    cases hspare
  active := hs.active
  closed := hs.closed
  queued := hs.queued
  imaged := hs.imaged

theorem Preparing.write {n : ℕ} {s : KeeperWal} (hs : Preparing n s) {disk : Disk}
    (hdisk : ∀ other, other ≠ n → disk.readFile other = s.disk.readFile other) :
    FileStep .preparer s { s with disk := disk } ∧ Preparing n { s with disk := disk } := by
  have hfiled : Filed { s with disk := disk } := hs.filed.write hs.spare hs.notMem hdisk
  -- the segment is in no list, and while it is prepared there is no ready spare
  refine ⟨⟨fun _ => hfiled, fun _ => ⟨rfl, rfl, rfl, fun other hother => ?_, fun spare h => ?_,
      fun hwork => absurd hs.atWork hwork.not_preparer, rfl, id⟩, fun h => absurd rfl h,
      ⟨fun _ => id, fun _ => id⟩, fun h => absurd rfl h, fun _ => rfl⟩,
    hfiled, hs.atWork, hs.spare, hs.lt, hs.notMem⟩
  · exact hdisk other fun heq => hs.notMem (heq ▸ hother)
  · rw [hs.spare] at h
    cases h

/-- What the preparer leaves alone when its preparation ends. -/
theorem Preparing.handled {n : ℕ} {s : KeeperWal} (hs : Preparing n s)
    {files : WalSegmentManager} (hopened : files.opened = s.segmentFiles.opened)
    (hlist : files.segmentList = s.segmentFiles.segmentList)
    (hactive : files.preparerActive = s.segmentFiles.preparerActive)
    (halive : files.preparerAlive = s.segmentFiles.preparerAlive) :
    Handled s { s with segmentFiles := files } := by
  refine ⟨rfl, hopened, hlist, fun _ _ => rfl, fun spare h => ?_,
    fun hwork => absurd hs.atWork hwork.not_preparer, hactive, fun h => halive ▸ h⟩
  rw [hs.spare] at h
  cases h

theorem Preparing.fail {n : ℕ} {s : KeeperWal} (hs : Preparing n s) :
    let t := { s with
      segmentFiles := { s.segmentFiles with preparing := false, preparerFailed := true } }
    FileStep .preparer s t ∧ Filed t := by
  have hfiled : Filed { s with
      segmentFiles := { s.segmentFiles with preparing := false, preparerFailed := true } } :=
    { hs.filed with
      spare := fun spare h => ⟨(hs.filed.spare spare h).1, (hs.filed.spare spare h).2.1, rfl⟩ }
  exact ⟨⟨fun _ => hfiled, fun _ => hs.handled rfl rfl rfl rfl, fun h => absurd rfl h,
    ⟨fun _ => id, fun _ => id⟩, fun h => absurd rfl h, fun _ => rfl⟩, hfiled⟩

theorem Preparing.succeed {spare : Spare} {s : KeeperWal} (hs : Preparing spare.segment s)
    (hsome : (s.disk.readFile spare.segment).isSome) :
    let t := { s with
      segmentFiles := { s.segmentFiles with preparing := false, spare := some spare } }
    FileStep .preparer s t ∧ Filed t := by
  have hfiled : Filed { s with
      segmentFiles := { s.segmentFiles with preparing := false, spare := some spare } } := by
    refine { hs.filed with spare := fun spare' h => ?_, closed := fun hopened => ?_ }
    · cases h
      exact ⟨⟨hsome, hs.lt⟩, hs.notMem, rfl⟩
    · have halive := hs.atWork.2.1
      rw [(hs.filed.closed hopened).2] at halive
      cases halive
  exact ⟨⟨fun _ => hfiled, fun _ => hs.handled rfl rfl rfl rfl, fun h => absurd rfl h,
    ⟨fun _ => id, fun _ => id⟩, fun h => absurd rfl h, fun _ => rfl⟩, hfiled⟩

theorem stable_filed (i : ThreadId) : Stable i Filed :=
  ⟨Rely.stable fun _ _ _ _ h => h.filed, fun _ _ hs h => h.filed hs⟩

/-- The preparer's thread runs until it ends itself. -/
theorem stable_preparerAlive : Stable .preparer fun s =>
    Filed s ∧ s.segmentFiles.preparerAlive = true :=
  ⟨Rely.stable fun _ _ _ hi h hs => ⟨h.filed hs.1, h.preparer hi hs.2⟩,
    fun _ _ hs h => ⟨h.filed hs.1, by rw [h.segmentFiles]; exact hs.2⟩⟩

/-- What the preparer found to do. -/
def PreparerFound : Option (ℕ × ℕ) → KeeperWal → Prop
  | none => Filed
  | some next => Preparing next.1

theorem preparerTurn_triple :
    FileTriple .preparer (fun s => Filed s ∧ s.segmentFiles.preparerAlive = true) preparerTurn
      fun _ => Filed := by
  refine .seq PreparerFound (fun _ => .refl)
    (.atomically stable_preparerAlive.others (fun next => ?_) fun s c next s' hs h => ?_)
    fun next => ?_
  · cases next with
    | none => exact (stable_filed _).others
    | some next => exact (stable_preparing next.1).others
  · obtain ⟨hfiled, halive⟩ := hs
    split at h
    · -- asked to stop
      rename_i hactive
      cases h
      have hfiled' : Filed { s with
          segmentFiles := { s.segmentFiles with preparerAlive := false } } :=
        { hfiled with
          active := fun hcommitter => ⟨(hfiled.active hcommitter).1, fun h => by cases h⟩
          closed := fun hopened => ⟨(hfiled.closed hopened).1, rfl⟩ }
      refine ⟨⟨fun _ => hfiled', fun _ => ⟨rfl, rfl, rfl, fun _ _ => rfl, fun _ h => ⟨h, rfl⟩,
        fun hwork => ⟨⟨hwork.1, fun h => by cases h⟩, rfl, rfl, fun _ => rfl⟩, rfl,
        fun h => by cases h⟩, fun h => absurd rfl h, ⟨fun _ => id, fun _ => id⟩,
        fun h => absurd rfl h, fun _ => rfl⟩, hfiled'⟩
    · split at h
      · rename_i hready
        cases h
        obtain ⟨hspare, hidle, hfailed⟩ := hready
        have hspare : s.segmentFiles.spare = none := Option.isNone_iff_eq_none.mp hspare
        have hnone : ∀ spare, s.segmentFiles.spare ≠ some spare := fun spare h => by
          rw [hspare] at h
          cases h
        have hfiled' : Filed { s with segmentFiles := { s.segmentFiles with
            preparing := true
            nextSegment := s.segmentFiles.nextSegment + 1 } } :=
          { hfiled with
            listed := fun n hn =>
              ⟨(hfiled.listed n hn).1, Nat.lt_succ_of_lt (hfiled.listed n hn).2⟩
            spare := fun spare h => absurd h (hnone spare) }
        refine ⟨⟨fun _ => hfiled', fun _ => ⟨rfl, rfl, rfl, fun _ _ => rfl,
          fun spare h => absurd h (hnone spare), fun hwork => absurd hwork.1 hidle, rfl, id⟩,
          fun h => absurd rfl h, ⟨fun _ => id, fun _ => id⟩, fun h => absurd rfl h,
          fun _ => rfl⟩, hfiled', ⟨rfl, halive, by simpa using hfailed⟩, hspare,
          Nat.lt_succ_self _, fun hn => ?_⟩
        exact absurd (hfiled.listed _ hn).2 (Nat.lt_irrefl _)
      · cases h
  · rcases next with - | ⟨n, segmentBytes⟩
    · exact .ret (stable_filed _).others fun s hs => hs
    · refine .bind (fun _ => .refl) (prepare_triple (stable_preparing n)
        (stable_preparing_read n) (fun s disk hs => hs.write) segmentBytes) fun made => ?_
      refine action_triple ?_ (fun _ => stable_filed _) fun s hs => ?_
      · refine ⟨fun s t hs hst => ?_, fun s t hs hst => ⟨hs.1.untouched hst, fun spare h => ?_⟩⟩
        · -- the file that was renamed into place stays there
          refine ⟨(stable_preparing n).others s t hs.1 hst, fun spare h => ?_⟩
          obtain ⟨hsegment, hsome⟩ := hs.2 spare h
          obtain ⟨bytes, hbytes⟩ := Option.isSome_iff_exists.mp hsome
          have hafter := (stable_preparing_read n bytes).others s t ⟨hs.1, hbytes⟩ hst
          exact ⟨hsegment, by rw [hafter.2]; rfl⟩
        · rw [hst.readFile]
          exact hs.2 spare h
      · cases made with
        | error err => exact hs.1.fail
        | ok spare =>
          obtain ⟨rfl, hsome⟩ := hs.2 spare rfl
          exact hs.1.succeed hsome

end KeeperWal

end ChronoLog
