import ChronoLog.Wal.Crash
import ChronoLog.Wal.TornTail

/-!
# Runs of recovery

What the program of `recoverWal` does to the directory and returns, for any answers
of the file system: it reads every segment before its first effect, and where no
operation fails it returns what `readLog` says.

## Main definitions

* `Choices` — the choices under which operations may fail, or may not.
* `KeptByRecovery` — the properties of a directory that no effect of recovery breaks.

## Main results

* `recoverWal_returns` — what a recovery returns and what holds along it.
* `recoverWal_refuses` — a refused log is left as it was.
* `torn_tail_discrimination` — torn tails are told from damage.
-/

namespace ChronoLog

namespace KeeperWal

open Concurrent (Prog)
open Wal

/-- The choices of the environment, with or without failed operations. -/
def Choices (mayFail : Bool) (c : Choice) : Prop := c.fails = true → mayFail = true

variable {mayFail : Bool} {P : Disk → Prop}

/-- The rule for a file operation. -/
theorem ensures_fileOp {f : Disk → Disk} {s : KeeperWal} {Post : Option Errno → KeeperWal → Prop}
    (hs : P s.disk) (hdone : P (f s.disk)) (hok : Post none { s with disk := f s.disk })
    (hfail : mayFail = true → ∀ err, Post (some err) s) :
    (fileOp f).Ensures (Choices mayFail) (fun t => P t.disk) Post s := by
  refine Prog.Ensures.atomically hs fun c hc => ?_
  by_cases hfails : c.fails = true
  · exact ⟨some .failed, s, by rw [if_pos hfails], hs, hfail (hc hfails) _⟩
  · exact ⟨none, { s with disk := f s.disk }, by rw [if_neg hfails], hdone, hok⟩

theorem ensures_partialOps (n : ℕ) {s : KeeperWal} (hs : P s.disk) :
    (partialOps n).Ensures (Choices mayFail) (fun t => P t.disk)
      (fun err t => t = s ∧ (err.isSome → mayFail = true)) s := by
  induction n with
  | zero => exact .ret hs ⟨rfl, by simp⟩
  | succ n ih =>
    refine Prog.Ensures.seq (fun err t => t = s ∧ (err.isSome → mayFail = true))
      (ensures_fileOp hs hs ⟨rfl, by simp⟩ fun hfail _ => ⟨rfl, fun _ => hfail⟩) fun err t ht => ?_
    obtain ⟨rfl, herr⟩ := ht
    cases err with
    | none => exact ih
    | some err => exact .ret hs ⟨rfl, herr⟩

/-! ### Reading -/

theorem ensures_readFile {s : KeeperWal} {segment : ℕ} {bytes : Bytes} (hs : P s.disk)
    (hread : s.disk.readFile segment = some bytes) :
    (readFile segment).Ensures (Choices mayFail) (fun t => P t.disk)
      (fun r t => t = s ∧ (r = .ok bytes ∨ mayFail = true ∧ ∃ err, r = .error err)) s := by
  refine Prog.Ensures.atomically hs fun c hc => ?_
  by_cases hfails : c.fails = true
  · exact ⟨.error .failed, s, by rw [if_pos hfails], hs, rfl, .inr ⟨hc hfails, _, rfl⟩⟩
  · exact ⟨.ok bytes, s, by rw [if_neg hfails, hread], hs, rfl, .inl rfl⟩

/-- The segments are read as `readSegments` reads their bytes. -/
theorem ensures_readFiles {s : KeeperWal} (hs : P s.disk) {files : List (ℕ × Bytes)}
    (hfiles : ∀ file ∈ files, s.disk.readFile file.1 = some file.2) (state : RecoveredState) :
    (readFiles (files.map Prod.fst) state).Ensures (Choices mayFail) (fun t => P t.disk)
      (fun r t => t = s ∧
        (r = readSegments files state ∨ mayFail = true ∧ ∃ err, r = .error err)) s := by
  induction files generalizing state with
  | nil => exact .ret hs ⟨rfl, .inl rfl⟩
  | cons file files ih =>
    rw [List.forall_mem_cons] at hfiles
    refine Prog.Ensures.bind (ensures_readFile hs hfiles.1) fun r t ht => ?_
    obtain ⟨rfl, rfl | ⟨hfail, err, rfl⟩⟩ := ht
    · cases hsegment : readSegment file.1 file.2 state with
      | error err =>
        simp only [hsegment]
        refine .ret hs ⟨rfl, .inl ?_⟩
        rw [readSegments, hsegment]
        rfl
      | ok read =>
        simp only [hsegment]
        refine Prog.Ensures.bind (ih hfiles.2 read.1) fun r u hu => ?_
        have hcons : readSegments (file :: files) state = (readSegments files read.1).map
            fun rest => (rest.1, read.2 :: rest.2) := by
          simp only [readSegments, hsegment, bind, Except.bind]
          cases readSegments files read.1 <;> rfl
        obtain ⟨rfl, rfl | ⟨hfail, err, rfl⟩⟩ := hu
        · rw [hcons]
          cases readSegments files read.1 with
          | error err => exact .ret hs ⟨rfl, .inl rfl⟩
          | ok rest => exact .ret hs ⟨rfl, .inl rfl⟩
        · exact .ret hs ⟨rfl, .inr ⟨hfail, err, rfl⟩⟩
    · exact .ret hs ⟨rfl, .inr ⟨hfail, _, rfl⟩⟩

/-! ### Effects -/

/-- What no effect of a recovery breaks: the syncs, the zeroing of the torn tail and the
pruning of the file of drops. -/
structure KeptByRecovery (P : Disk → Prop) (torn : Option SegmentEnd)
    (needed : List UnloggedDrop) : Prop where
  syncData : ∀ disk segment, P disk → P (disk.syncData segment)
  syncDirectory : ∀ disk, P disk → P disk.syncDirectory
  zero : ∀ ends, torn = some ends → ∀ disk n, n ≤ ends.size - ends.dataEnd → P disk →
    P (disk.writeAt ends.segment ends.dataEnd (List.replicate n 0))
  prune : ∀ disk, P disk → P (disk.renameDrops needed)
  pruneAll : needed = [] → ∀ disk, P disk → P disk.removeDrops

variable {torn : Option SegmentEnd} {needed : List UnloggedDrop}

/-- What an operation of a recovery leaves: the drops are as they were, and an error is
the environment's. -/
def Left (mayFail : Bool) (P : Disk → Prop) (drops : Option (List UnloggedDrop))
    (failed : Prop) (t : KeeperWal) : Prop :=
  P t.disk ∧ t.disk.drops = drops ∧ (failed → mayFail = true)

/-- The rule for an effect of a recovery. -/
theorem ensures_effect {f : Disk → Disk} {s : KeeperWal} (hs : P s.disk) (hdone : P (f s.disk))
    (hdrops : (f s.disk).drops = s.disk.drops) :
    (fileOp f).Ensures (Choices mayFail) (fun t => P t.disk)
      (fun err t => Left mayFail P s.disk.drops err.isSome t) s :=
  ensures_fileOp hs hdone ⟨hdone, hdrops, by simp⟩ fun hfail _ => ⟨hs, rfl, fun _ => hfail⟩

theorem ensures_syncSegments (hkept : KeptByRecovery P torn needed) (skip : Option ℕ)
    (segments : List ℕ) {s : KeeperWal} (hs : P s.disk) :
    (syncSegments skip segments).Ensures (Choices mayFail) (fun t => P t.disk)
      (fun err t => Left mayFail P s.disk.drops err.isSome t) s := by
  induction segments generalizing s with
  | nil => exact .ret hs ⟨hs, rfl, by simp⟩
  | cons segment segments ih =>
    rw [syncSegments]
    split
    · exact ih hs
    · refine Prog.Ensures.bind (ensures_effect hs (hkept.syncData _ _ hs) rfl) fun err t ht => ?_
      obtain ⟨ht, hdrops, herr⟩ := ht
      cases err with
      | none =>
        rw [← hdrops]
        exact ih ht
      | some err => exact .ret ht ⟨ht, hdrops, herr⟩

theorem ensures_zeroTail (hkept : KeptByRecovery P torn needed) {ends : SegmentEnd}
    (htorn : torn = some ends) {s : KeeperWal} (hs : P s.disk) :
    (zeroTail ends).Ensures (Choices mayFail) (fun t => P t.disk)
      (fun err t => Left mayFail P s.disk.drops err.isSome t) s := by
  refine Prog.Ensures.bind (ensures_effect hs hs rfl) fun err t ht => ?_
  obtain ⟨ht, hdrops, herr⟩ := ht
  cases err with
  | some err => exact .ret ht ⟨ht, hdrops, herr⟩
  | none =>
    refine Prog.Ensures.seq (fun err t => Left mayFail P s.disk.drops err.isSome t)
      (Prog.Ensures.atomically ht fun c hc => ?_) fun err u hu => ?_
    · by_cases hfails : c.fails = true
      · -- a failed write leaves the first of the zeros
        have hwritten := hkept.zero ends htorn t.disk (min c.written (ends.size - ends.dataEnd))
          (min_le_right _ _) ht
        rw [← List.take_replicate] at hwritten
        exact ⟨_, _, if_pos hfails, hwritten, hwritten, hdrops, fun _ => hc hfails⟩
      · have hwritten := hkept.zero ends htorn t.disk (ends.size - ends.dataEnd) le_rfl ht
        exact ⟨_, _, if_neg hfails, hwritten, hwritten, hdrops, by simp⟩
    · obtain ⟨hu, hudrops, huerr⟩ := hu
      cases err with
      | some err => exact .ret hu ⟨hu, hudrops, huerr⟩
      | none =>
        rw [← hudrops]
        exact ensures_effect hu (hkept.syncData _ _ hu) rfl

theorem ensures_eraseTornTail (hkept : KeptByRecovery P torn needed) {s : KeeperWal}
    (hs : P s.disk) :
    (eraseTornTail torn).Ensures (Choices mayFail) (fun t => P t.disk)
      (fun err t => Left mayFail P s.disk.drops err.isSome t) s := by
  rcases htorn : torn with - | ends
  · exact .ret hs ⟨hs, rfl, by simp⟩
  · refine Prog.Ensures.bind (ensures_partialOps 6 hs) fun err t ht => ?_
    obtain ⟨rfl, -⟩ := ht
    refine Prog.Ensures.bind (ensures_zeroTail hkept htorn hs) fun err u hu => ?_
    obtain ⟨hu, hdrops, herr⟩ := hu
    cases err with
    | none => exact .ret hu ⟨hu, hdrops, by simp⟩
    | some err => exact .ret hu ⟨hu, hdrops, fun _ => herr rfl⟩

theorem ensures_syncLogDirectory (hkept : KeptByRecovery P torn needed) (ends : List SegmentEnd)
    {s : KeeperWal} (hs : P s.disk) :
    (syncLogDirectory ends).Ensures (Choices mayFail) (fun t => P t.disk)
      (fun err t => Left mayFail P s.disk.drops err.isSome t) s := by
  rw [syncLogDirectory]
  split
  · exact .ret hs ⟨hs, rfl, by simp⟩
  · exact ensures_effect hs (hkept.syncDirectory _ hs) rfl

/-- The file of drops is replaced or removed, or left. -/
theorem ensures_writeUnloggedDrops (hkept : KeptByRecovery P torn needed) {s : KeeperWal}
    (hs : P s.disk) :
    (writeUnloggedDrops needed).Ensures (Choices mayFail) (fun t => P t.disk)
      (fun _ t => P t.disk) s := by
  have hsync : ∀ t : KeeperWal, P t.disk → syncDirectory.Ensures (Choices mayFail)
      (fun t => P t.disk) (fun _ t => P t.disk) t := fun t ht =>
    ensures_fileOp ht (hkept.syncDirectory _ ht) (hkept.syncDirectory _ ht) fun _ _ => ht
  rw [writeUnloggedDrops]
  split
  · rename_i hempty
    refine Prog.Ensures.seq (fun _ t => P t.disk)
      (Prog.Ensures.atomically hs fun c hc => ?_) fun removed t ht => ?_
    · have hall := hkept.pruneAll (List.isEmpty_iff.mp hempty) s.disk hs
      by_cases hfails : c.fails = true
      · exact ⟨_, s, if_pos hfails, hs, hs⟩
      · by_cases hnone : s.disk.drops.isNone
        · exact ⟨_, s, (if_neg hfails).trans (if_pos hnone), hs, hs⟩
        · exact ⟨_, _, (if_neg hfails).trans (if_neg hnone), hall, hall⟩
    · rcases removed with - | err
      · exact hsync t ht
      · cases err <;> exact .ret ht ht
  · refine Prog.Ensures.bind (ensures_partialOps 5 hs) fun err t ht => ?_
    obtain ⟨rfl, -⟩ := ht
    cases err with
    | some err => exact .ret hs hs
    | none =>
      refine Prog.Ensures.seq (fun _ t => P t.disk)
        (ensures_fileOp hs (hkept.prune _ hs) (hkept.prune _ hs) fun _ _ => hs) fun err u hu => ?_
      cases err with
      | some err => exact .ret hu hu
      | none => exact hsync u hu

/-! ### Recovery -/

/-- The lines of the file of drops that a log with these segments still needs. -/
def neededDrops (segments : List ℕ) (disk : Disk) : List UnloggedDrop :=
  stillNeeded segments (disk.drops.getD [])

theorem ensures_recoverDrops {segments : List ℕ} {s : KeeperWal}
    (hkept : KeptByRecovery P torn (neededDrops segments s.disk)) (hs : P s.disk) :
    (recoverDrops segments).Ensures (Choices mayFail) (fun t => P t.disk)
      (fun r t => P t.disk ∧
        (r = .ok (s.disk.drops.getD []) ∨ mayFail = true ∧ ∃ err, r = .error err)) s := by
  refine Prog.Ensures.seq (fun r t => t = s ∧
      (r = .ok (s.disk.drops.getD []) ∨ mayFail = true ∧ ∃ err, r = .error err))
    (Prog.Ensures.atomically hs fun c hc => ?_) fun r t ht => ?_
  · by_cases hfails : c.fails = true
    · exact ⟨.error .failed, s, by rw [if_pos hfails], hs, rfl, .inr ⟨hc hfails, _, rfl⟩⟩
    · exact ⟨.ok (s.disk.drops.getD []), s, by rw [if_neg hfails], hs, rfl, .inl rfl⟩
  · obtain ⟨rfl, rfl | ⟨hfail, err, rfl⟩⟩ := ht
    · simp only
      split
      · refine Prog.Ensures.bind (ensures_writeUnloggedDrops hkept hs) fun err u hu => ?_
        exact .ret hu ⟨hu, .inl rfl⟩
      · exact .ret hs ⟨hs, .inl rfl⟩
    · exact .ret hs ⟨hs, .inr ⟨hfail, err, rfl⟩⟩

theorem ensures_finishRecovery {state : RecoveredState} {ends : List SegmentEnd} {s : KeeperWal}
    (hkept : KeptByRecovery P (tornSegment ends) (neededDrops state.segments s.disk))
    (hs : P s.disk) :
    (finishRecovery state ends).Ensures (Choices mayFail) (fun t => P t.disk)
      (fun r _ => r = .ok (recoveredState state ends (s.disk.drops.getD [])) ∨
        mayFail = true ∧ ∃ err, r = .error err) s := by
  refine Prog.Ensures.bind (ensures_syncSegments hkept _ _ hs) fun err t ht => ?_
  obtain ⟨ht, hdrops, herr⟩ := ht
  cases err with
  | some err => exact .ret ht (.inr ⟨herr rfl, err, rfl⟩)
  | none =>
    refine Prog.Ensures.bind (ensures_eraseTornTail hkept ht) fun err u hu => ?_
    obtain ⟨hu, hudrops, huerr⟩ := hu
    cases err with
    | some err => exact .ret hu (.inr ⟨huerr rfl, err, rfl⟩)
    | none =>
      refine Prog.Ensures.bind (ensures_syncLogDirectory hkept ends hu) fun err v hv => ?_
      obtain ⟨hv, hvdrops, hverr⟩ := hv
      cases err with
      | some err => exact .ret hv (.inr ⟨hverr rfl, _, rfl⟩)
      | none =>
        have hsame : v.disk.drops = s.disk.drops := hvdrops.trans (hudrops.trans hdrops)
        have hneeded : neededDrops state.segments s.disk = neededDrops state.segments v.disk := by
          rw [neededDrops, neededDrops, hsame]
        rw [hneeded] at hkept
        refine Prog.Ensures.bind (ensures_recoverDrops hkept hv) fun r w hw => ?_
        rw [hsame] at hw
        obtain ⟨hw, rfl | ⟨hfail, err, rfl⟩⟩ := hw
        · exact .ret hw (.inl rfl)
        · exact .ret hw (.inr ⟨hfail, _, rfl⟩)

/-- The opening of the directory: what a listing and the reads show stays. -/
theorem ensures_openSegments {s : KeeperWal} (hclosed : s.segmentFiles.opened = false)
    (hs : P s.disk) (hsync : P s.disk.syncDirectory) :
    openSegments.Ensures (Choices mayFail) (fun t => P t.disk)
      (fun err t => P t.disk ∧ t.disk.image = s.disk.image ∧ t.disk.drops = s.disk.drops ∧
        (err.isSome → mayFail = true) ∧
        (err = none → t.segmentFiles.segmentList = s.disk.image.map Prod.fst)) s := by
  refine Prog.Ensures.atomically hs fun c hc => ?_
  simp only [hclosed, Bool.false_eq_true, if_false]
  by_cases hfails : c.fails = true
  · exact ⟨_, _, if_pos hfails, hs, hs, rfl, rfl, fun _ => hc hfails, fun h => by cases h⟩
  · refine ⟨_, _, if_neg hfails, ?_, ?_, ?_, ?_, by simp, fun _ => s.disk.list_eq⟩ <;>
      cases c.flag <;> simp only [Bool.false_eq_true, if_true, if_false]
    all_goals first | exact hs | exact hsync | exact s.disk.image_syncDirectory | rfl

/-- The part of a recovery before its first effect: the segments are read as `readLog`
reads them. -/
theorem ensures_recoverWal {s : KeeperWal} (hclosed : s.segmentFiles.opened = false)
    (hs : P s.disk) (hsync : P s.disk.syncDirectory)
    {Post : Except RecoveryError RecoveredState → KeeperWal → Prop}
    (hfail : mayFail = true → ∀ err t, Post (.error err) t)
    (hrefused : ∀ err, readLog s.disk.image = .error err → ∀ err t, Post (.error err) t)
    (hread : ∀ state ends, readLog s.disk.image = .ok (state, ends) → ∀ t : KeeperWal, P t.disk →
      t.disk.drops = s.disk.drops →
      (finishRecovery state ends).Ensures (Choices mayFail) (fun t => P t.disk) Post t) :
    recoverWal.Ensures (Choices mayFail) (fun t => P t.disk) Post s := by
  refine Prog.Ensures.bind (ensures_openSegments hclosed hs hsync) fun err t ht => ?_
  obtain ⟨ht, himage, hdrops, herr, hlist⟩ := ht
  cases err with
  | some err => exact .ret ht (hfail (herr rfl) _ _)
  | none =>
    refine Prog.Ensures.seq (fun segments u => u = t ∧ segments = s.disk.image.map Prod.fst)
      (.modify ht ht ⟨rfl, hlist rfl⟩) fun segments u hu => ?_
    obtain ⟨rfl, rfl⟩ := hu
    have hfiles : ∀ file ∈ s.disk.image, u.disk.readFile file.1 = some file.2 := by
      intro file hfile
      rw [← himage] at hfile
      exact Disk.mem_image.mp hfile
    refine Prog.Ensures.bind (ensures_readFiles ht hfiles _) fun r v hv => ?_
    obtain ⟨rfl, rfl | ⟨hfails, err, rfl⟩⟩ := hv
    · cases hsegments : readSegments s.disk.image { segments := s.disk.image.map Prod.fst } with
      | error err =>
        refine .ret ht (hrefused err ?_ _ _)
        rw [readLog, hsegments]
        rfl
      | ok read =>
        cases hchecks : checkEnds read.2 with
        | error err =>
          simp only [hchecks]
          refine .ret ht (hrefused err ?_ _ _)
          simp only [readLog, hsegments, bind, Except.bind, hchecks]
        | ok u =>
          simp only [hchecks]
          refine hread read.1 read.2 ?_ _ ht hdrops
          simp only [readLog, hsegments, bind, Except.bind, hchecks]
          rfl
    · exact .ret ht (hfail hfails _ _)

/-- **What a recovery returns** of a log that can be read, and what holds along it. -/
theorem recoverWal_returns {s : KeeperWal} (hclosed : s.segmentFiles.opened = false)
    {state : RecoveredState} {ends : List SegmentEnd}
    (hlog : readLog s.disk.image = .ok (state, ends))
    (hkept : KeptByRecovery P (tornSegment ends) (neededDrops state.segments s.disk))
    (hs : P s.disk) :
    recoverWal.Ensures (Choices mayFail) (fun t => P t.disk)
      (fun r _ => r = .ok (recoveredState state ends (s.disk.drops.getD [])) ∨
        mayFail = true ∧ ∃ err, r = .error err) s := by
  refine ensures_recoverWal hclosed hs (hkept.syncDirectory _ hs)
    (fun hfail err t => .inr ⟨hfail, err, rfl⟩) (fun err h => ?_)
    fun state' ends' h t ht hdrops => ?_
  · rw [hlog] at h
    cases h
  · rw [hlog] at h
    cases h
    rw [neededDrops, ← hdrops] at hkept
    rw [← hdrops]
    exact ensures_finishRecovery hkept ht

/-- **A refused log is left as it was.** -/
theorem recoverWal_refuses {s : KeeperWal} (hclosed : s.segmentFiles.opened = false)
    {err : RecoveryError} (hlog : readLog s.disk.image = .error err) :
    recoverWal.Ensures (Choices mayFail) (fun t => t.disk.image = s.disk.image)
      (fun r _ => ∃ err, r = .error err) s := by
  refine ensures_recoverWal (P := fun disk => disk.image = s.disk.image) hclosed rfl
    s.disk.image_syncDirectory (fun _ err _ => ⟨err, rfl⟩) (fun _ _ err _ => ⟨err, rfl⟩)
    fun state ends h => ?_
  rw [hlog] at h
  cases h

theorem KeptByRecovery.any (torn : Option SegmentEnd) (needed : List UnloggedDrop) :
    KeptByRecovery (fun _ => True) torn needed :=
  ⟨fun _ _ _ => trivial, fun _ _ => trivial, fun _ _ _ _ _ _ => trivial, fun _ _ => trivial,
    fun _ _ _ => trivial⟩

/-- Whatever the file system answers, recovery returns an error, and along the way every
segment stays as it was. -/
def Refuses (s : KeeperWal) : Prop :=
  recoverWal.Ensures (Choices true) (fun t => t.disk.image = s.disk.image)
    (fun r _ => ∃ err, r = .error err) s

/-- Where no operation fails, recovery succeeds with the stories and drops of the replayed
records, less what the file of drops says. -/
def RecoversTo (s : KeeperWal) (replayed : RecoveredState) : Prop :=
  recoverWal.Ensures (Choices false) (fun _ => True) (fun r _ => ∃ out, r = .ok out ∧
    out.stories = (withoutEmptyStories (applyDrops (s.disk.drops.getD []) replayed)).stories ∧
    out.droppedIn = replayed.droppedIn) s

theorem applyDrops_stories {state state' : RecoveredState} (h : state.stories = state'.stories)
    (drops : List UnloggedDrop) :
    (applyDrops drops state).stories = (applyDrops drops state').stories := by
  induction drops generalizing state state' with
  | nil => exact h
  | cons drop drops ih =>
    refine ih ?_
    simp only [RecoveredState.applyDrop, h]

theorem applyDrops_droppedIn (state : RecoveredState) (drops : List UnloggedDrop) :
    (applyDrops drops state).droppedIn = state.droppedIn := by
  induction drops generalizing state with
  | nil => rfl
  | cons drop drops ih => exact ih _

/-- **Torn tails are told from damage.** -/
theorem torn_tail_discrimination (s : KeeperWal) (hclosed : s.segmentFiles.opened = false) :
    -- of a torn last group a prefix is returned, with every record before it
    (∀ (older spares : List LoggedSegment) (segment : LoggedSegment) (torn : LoggedGroup)
      (left : Bytes) (free : ℕ),
      (∀ group ∈ segment.groups, group.Whole) → torn.Whole →
      (∀ spare ∈ spares, spare.groups = []) →
      TornFrom (framed torn.bodies) left →
      Revealed torn.bodies (left ++ List.replicate free 0) →
      s.disk.image = older.map LoggedSegment.file ++
        (segment.number, segment.written ++ (left ++ List.replicate free 0)) ::
        spares.map LoggedSegment.file →
      ∃ kept, kept <+: torn.records ∧
        RecoversTo s (kept.foldl (LoggedRecord.apply segment.number)
          (replay (older ++ [segment])))) ∧
    -- a damaged record in a segment that is not the newest with data is refused
    (∀ (before after : List (ℕ × Bytes)) (segment : LoggedSegment) (bytes : Bytes),
      DamagedRecord segment bytes → (∃ file ∈ after, HoldsData file) →
      s.disk.image = before ++ (segment.number, bytes) :: after → Refuses s) ∧
    -- and so is a damaged group that another one follows
    (∀ (before after : List (ℕ × Bytes)) (segment : LoggedSegment) (bytes : Bytes),
      DamagedGroup segment bytes → s.disk.image = before ++ (segment.number, bytes) :: after →
      Refuses s) := by
  refine ⟨fun older spares segment torn left free hwhole hgroup hspares htorn hrevealed himage =>
      ?_,
    fun before after segment bytes hdamaged hafter himage => ?_,
    fun before after segment bytes hdamaged himage => ?_⟩
  · obtain ⟨kept, hkept, numbers, bytes, ends, hlog⟩ :=
      readLog_torn older spares segment hwhole hgroup htorn hrevealed hspares
    rw [← himage] at hlog
    refine ⟨kept, hkept, (recoverWal_returns hclosed hlog (.any _ _) trivial).mono
      (fun _ _ => trivial) fun r _ hr => ?_⟩
    obtain rfl | ⟨hfalse, -⟩ := hr
    · refine ⟨_, rfl, ?_, ?_⟩
      · simp only [recoveredState, withoutEmptyStories]
        congr 1
        refine applyDrops_stories ?_ _
        rfl
      · simp only [recoveredState, withoutEmptyStories, applyDrops_droppedIn]
    · cases hfalse
  · obtain ⟨err, hlog⟩ := readLog_damagedRecord before hdamaged hafter
    rw [← himage] at hlog
    exact recoverWal_refuses hclosed hlog
  · obtain ⟨err, hlog⟩ := readLog_damagedGroup before after hdamaged
    rw [← himage] at hlog
    exact recoverWal_refuses hclosed hlog

section OneGroup

/-- A record of an event of one byte. -/
def someRecord : LoggedRecord :=
  let parts := (encodeLogEvent ⟨7, 10, 1, 0, [65]⟩ []).get (by decide)
  { record := .event ⟨7, 10, 1, 0, [65]⟩
    body := RecordType.Event.byte :: (parts.head ++ parts.record ++ parts.tail)
    hasBody := ⟨parts, (Option.some_get _).symm, rfl⟩
    fits := by decide }

/-- The group of that record. -/
def someGroup : LoggedGroup where
  records := [someRecord]
  size := kGroupFrameBytes + (framed [someRecord.body]).length
  size_lt := by decide +kernel
  length_le := le_rfl

instance : NeZero 3 := ⟨by decide⟩

/-- A segment with the given groups. -/
def someSegment (number : Fin 3) (groups : List LoggedGroup) : LoggedSegment where
  number := number
  createdNs := 0
  keeperEndpoint := []
  number_lt := by omega
  createdNs_lt := by decide
  endpoint_fits := endpoint_fits_nil
  groups := groups
  free := 4

/-- The group with the byte of its event lost. -/
def someLeft : Bytes := (framed someGroup.bodies).set 59 0

theorem someLeft_torn : TornFrom (framed someGroup.bodies) someLeft := by
  unfold TornFrom
  decide +kernel

theorem someLeft_revealed : Revealed someGroup.bodies (someLeft ++ List.replicate 4 0) := by
  intro kept body later left hbodies hrest hlost
  rcases kept with - | ⟨mark, kept⟩
  · -- the G record is whole
    cases hbodies
    refine absurd ?_ hlost
    rw [framed_nil, List.nil_append] at hrest
    rw [← hrest]
    decide +kernel
  · obtain ⟨rfl, hbodies⟩ := List.cons.inj hbodies
    rcases kept with - | ⟨record, kept⟩
    · have hleft : left = (someLeft ++ List.replicate 4 0).drop 17 := by
        rw [hrest]
        exact (List.drop_left' (by decide +kernel)).symm
      rw [hleft]
      exact noFrame_of_reason (by decide +kernel)
    · have hlength := congrArg List.length hbodies
      simp [LoggedGroup.bodies, someGroup] at hlength

/-- A log over a directory with these files, as a crash leaves it. -/
def logOver (files : List (ℕ × Bytes)) : KeeperWal where
  conf :=
    { segmentBytes := 200
      groupCommitMaxBytes := 1000
      reserveMinBytes := 0
      reservePercent := 0
      durableCapBytes := 1000
      keeperEndpoint := []
      endpoint_fits := endpoint_fits_nil }
  disk := ⟨files.foldl (fun map file => map.insert file.1
    { content := file.2, linkUnsynced := false }) ∅, none, []⟩

theorem segments_logOver_one (bytes : Bytes) (segment : ℕ) :
    (logOver [(1, bytes)]).disk.segments[segment]? =
      if segment = 1 then some ⟨bytes, [], true, false⟩ else none := by
  have hinsert : (logOver [(1, bytes)]).disk.segments[segment]? =
      if compare 1 segment = .eq then some ⟨bytes, [], true, false⟩ else none := by
    simp [logOver, Std.ExtTreeMap.getElem?_insert]
  rw [hinsert]
  simp only [Std.compare_eq_iff_eq]
  exact if_congr eq_comm rfl rfl

theorem image_logOver_one (bytes : Bytes) : (logOver [(1, bytes)]).disk.image = [(1, bytes)] := by
  refine Disk.image_eq_singleton fun segment => ?_
  rw [Disk.readFile, segments_logOver_one]
  split <;> rfl

/-- A segment with a group, and another of which the byte of the event is lost. -/
def tornLog : KeeperWal :=
  logOver [(1, (someSegment 1 [someGroup]).written ++ (someLeft ++ List.replicate 4 0))]

/-- The same damage in a segment that another one with data follows. -/
def damagedLog : KeeperWal :=
  logOver [(1, (someSegment 1 []).written ++ (someLeft ++ List.replicate 4 0)),
    (someSegment 2 [someGroup]).file]

/-- The same damage in a group that another one follows. -/
def overtakenLog : KeeperWal :=
  logOver [(1, (someSegment 1 []).written ++ (someLeft ++ framed someGroup.bodies))]

theorem damagedRecord_someSegment : DamagedRecord (someSegment 1 [someGroup])
    ((someSegment 1 []).written ++ (someLeft ++ List.replicate 4 0)) :=
  ⟨[(someSegment 1 []).header.body, groupBody someGroup.size], someRecord.body, [],
    someLeft.drop 17, List.replicate 4 0, rfl, by decide +kernel, by decide +kernel,
    noFrame_of_reason (by decide +kernel), fun _ => by decide +kernel⟩

theorem damagedGroup_someSegment : DamagedGroup (someSegment 1 [someGroup, someGroup])
    ((someSegment 1 []).written ++ (someLeft ++ framed someGroup.bodies)) :=
  ⟨[], someGroup, someGroup, [], [], [someRecord], someLeft.drop 17, [], rfl, rfl, rfl,
    by decide +kernel, by decide +kernel, noFrame_of_reason (by decide +kernel)⟩

theorem holdsData_someSegment : HoldsData (someSegment 2 [someGroup]).file :=
  ⟨(someSegment 2 []).header.body, framed someGroup.bodies ++ List.replicate 4 0,
    (someSegment 2 []).sized_header, by decide +kernel, by decide +kernel⟩

end OneGroup

/-- The group before a torn one is returned, and the two damaged logs are refused. -/
theorem torn_tail_discrimination_oneGroup :
    (∃ kept, kept <+: [someRecord] ∧ RecoversTo tornLog
      (kept.foldl (LoggedRecord.apply 1) (replay [someSegment 1 [someGroup]]))) ∧
    Refuses damagedLog ∧ Refuses overtakenLog := by
  refine ⟨?_, ?_, ?_⟩
  · have hwhole : ∀ group ∈ (someSegment 1 [someGroup]).groups, group.Whole := by
      intro group hgroup
      rw [List.mem_singleton.mp hgroup]
      rfl
    exact (torn_tail_discrimination tornLog rfl).1 [] [] (someSegment 1 [someGroup]) someGroup
      someLeft 4 hwhole rfl (by simp) someLeft_torn someLeft_revealed (image_logOver_one _)
  · exact (torn_tail_discrimination damagedLog rfl).2.1 [] [(someSegment 2 [someGroup]).file]
      (someSegment 1 [someGroup]) _ damagedRecord_someSegment
      ⟨_, List.mem_singleton_self _, holdsData_someSegment⟩ (by decide +kernel)
  · exact (torn_tail_discrimination overtakenLog rfl).2.2 [] []
      (someSegment 1 [someGroup, someGroup]) _ damagedGroup_someSegment (image_logOver_one _)

end KeeperWal

end ChronoLog
