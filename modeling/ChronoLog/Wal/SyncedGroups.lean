import ChronoLog.Wal.SegmentOwners

/-!
# What a sync makes durable

The thread that takes spares, the owner before the committer runs and the committer
from then on, is the only one that writes to the segments that were handed out.  What
the committer writes for a group is therefore what its range holds at the data sync.

## Main definitions

* `Handling` — what that thread knows between its actions.
* `fileDiscipline` — the rely and guarantee of every call.

## Main results

* `filed_of_reachable` — in every state a run reaches, each synced range holds the E
  records of its group and no others.
-/

namespace ChronoLog

namespace KeeperWal

open Concurrent (Prog Rely Pool Discipline)

/-! ### The thread that takes spares -/

theorem handler_eq_committer {s : KeeperWal} : s.handler = .committer ↔ s.committerAlive := by
  rw [handler]
  split <;> simp_all

theorem handler_eq_owner {s : KeeperWal} : s.handler = .owner ↔ s.committerAlive = false := by
  rw [handler]
  split <;> simp_all

/-- What the thread that takes spares knows: nobody else does. -/
structure Handling (i : ThreadId) (s : KeeperWal) : Prop where
  filed : Filed s
  handler : s.handler = i
  active : s.segmentFiles.preparerAlive → s.segmentFiles.preparerActive

theorem Handling.of_handled {i : ThreadId} {s t : KeeperWal} (hs : Handling i s)
    (hfiled : Filed t) (h : Handled s t)
    (halive : t.committerAlive = s.committerAlive) : Handling i t := by
  refine ⟨hfiled, ?_, fun hpreparer => ?_⟩
  · rw [← hs.handler, KeeperWal.handler, KeeperWal.handler, halive]
  · rw [h.preparer.1]
    exact hs.active (h.preparer.2 hpreparer)

/-- What the others leave alone, and it goes on. -/
theorem Handling.step {i j : ThreadId} {s t : KeeperWal} (hj : j ≠ i) (h : FileStep j s t)
    (hs : Handling i s) : Handling i t ∧ Handled s t := by
  have hhandled := h.handled (hs.handler ▸ hj)
  refine ⟨hs.of_handled (h.filed hs.filed) hhandled ?_, hhandled⟩
  have hhandler := hs.handler
  -- only the owner starts the committer, and only the committer ends itself
  rcases halive : s.committerAlive with - | -
  · obtain rfl : i = .owner := hhandler.symm.trans (handler_eq_owner.mpr halive)
    rcases ht : t.committerAlive with - | -
    · rfl
    · rw [h.committer.2 hj ht] at halive
      cases halive
  · obtain rfl : i = .committer := hhandler.symm.trans (handler_eq_committer.mpr halive)
    exact h.committer.1 hj halive

theorem Handling.untouched {i : ThreadId} {s t : KeeperWal} (hs : Handling i s)
    (h : Untouched s t) : Handling i t :=
  hs.of_handled (h.filed hs.filed) h.handled h.committerAlive

/-- What the others leave alone stays as it is. -/
theorem stable_handling {i : ThreadId} {Q : KeeperWal → Prop}
    (hQ : ∀ s t, Handling i s → Handled s t → Q s → Q t) :
    Stable i fun s => Handling i s ∧ Q s := by
  refine ⟨Rely.stable fun j s t hj h hs => ?_, fun s t hs h =>
    ⟨hs.1.untouched h, hQ s t hs.1 h.handled hs.2⟩⟩
  obtain ⟨hafter, hhandled⟩ := hs.1.step hj h
  exact ⟨hafter, hQ s t hs.1 hhandled hs.2⟩

theorem stable_handling_only (i : ThreadId) : Stable i (Handling i) :=
  ⟨Rely.stable fun _ _ _ hj h hs => (hs.step hj h).1, fun _ _ hs h => hs.untouched h⟩

/-- An action of that thread. -/
theorem Handling.act {i : ThreadId} {s t : KeeperWal} (hs : Handling i s) (hfiled : Filed t)
    (hprepared : PreparerAtWork s.segmentFiles → Prepared s t)
    (halive : t.committerAlive = s.committerAlive)
    (hpreparer : t.segmentFiles.preparerAlive = s.segmentFiles.preparerAlive)
    (hactive : t.segmentFiles.preparerActive = s.segmentFiles.preparerActive)
    (hstate : t.state = s.state) : FileStep i s t ∧ Handling i t := by
  refine ⟨⟨fun _ => hfiled, fun h => absurd hs.handler.symm h, fun _ => hprepared, ?_,
    fun _ h => hpreparer ▸ h, fun _ => hstate⟩, hfiled, ?_, ?_⟩
  · rw [halive]
    exact ⟨fun _ => id, fun _ => id⟩
  · rw [← hs.handler, KeeperWal.handler, KeeperWal.handler, halive]
  · rw [hpreparer, hactive]
    exact hs.active

theorem Prepared.trans {s t u : KeeperWal} (h : Prepared s t) (h' : Prepared t u) :
    Prepared s u where
  atWork := h'.atWork
  spare := h'.spare.trans h.spare
  nextSegment := h'.nextSegment.trans h.nextSegment
  readFile n hn := by
    obtain ⟨hmem, hread⟩ := h.readFile n hn
    obtain ⟨hmem', hread'⟩ := h'.readFile n hmem
    exact ⟨hmem', hread'.trans hread⟩

/-- Two changes of one action. -/
theorem FileStep.trans {i : ThreadId} {s t u : KeeperWal} (hs : s.handler = i)
    (h : FileStep i s t) (h' : FileStep i t u) : FileStep i s u where
  filed := h'.filed ∘ h.filed
  handled hne := absurd hs.symm hne
  prepared hi hwork := (h.prepared hi hwork).trans (h'.prepared hi (h.prepared hi hwork).atWork)
  committer := ⟨fun hi => h'.committer.1 hi ∘ h.committer.1 hi,
    fun hi => h.committer.2 hi ∘ h'.committer.2 hi⟩
  preparer hi := h'.preparer hi ∘ h.preparer hi
  state hi := (h'.state hi).trans (h.state hi)

/-- A directory in which the same segments can be read. -/
theorem Filed.setDisk {s : KeeperWal} (hs : Filed s) {disk : Disk}
    (hdisk : ∀ n, (disk.readFile n).isSome = (s.disk.readFile n).isSome) :
    Filed { s with disk := disk } where
  listed n hn := ⟨(hdisk n).trans (hs.listed n hn).1, (hs.listed n hn).2⟩
  nodup := hs.nodup
  spare spare h := by
    obtain ⟨⟨hsome, hlt⟩, hrest⟩ := hs.spare spare h
    exact ⟨⟨(hdisk _).trans hsome, hlt⟩, hrest⟩
  active := hs.active
  closed := hs.closed
  queued := hs.queued
  imaged := hs.imaged

/-- A write to a segment that was handed out, or to the ready spare. -/
theorem Handling.write {i : ThreadId} {s : KeeperWal} (hs : Handling i s) {segment : ℕ}
    (hsegment : segment ∈ s.segmentFiles.segmentList ∨ s.segmentFiles.preparing = false)
    (offset : ℕ) (data : Bytes) :
    FileStep i s { s with disk := s.disk.writeAt segment offset data } ∧
      Handling i { s with disk := s.disk.writeAt segment offset data } := by
  refine hs.act (hs.filed.setDisk fun n => s.disk.isSome_readFile_writeAt segment n offset data)
    (fun hwork => ⟨hwork, rfl, rfl, fun n hn => ⟨hn, ?_⟩⟩) rfl rfl rfl rfl
  refine s.disk.readFile_writeAt_of_ne (fun heq => ?_) offset data
  -- the preparer writes neither to a segment that was handed out nor beside a ready spare
  rcases hsegment with hmem | hidle
  · exact hn (heq ▸ hmem)
  · rw [hwork.1] at hidle
    cases hidle

/-! ### Taking a spare -/

/-- What that thread knows of a ready spare. -/
def Ready (i : ThreadId) : ReadySpare → KeeperWal → Prop
  | .taken spare => fun s => Handling i s ∧ spare.segment ∈ s.segmentFiles.segmentList
  | .grow spare => fun s => Handling i s ∧ s.segmentFiles.spare = some spare

theorem stable_ready (i : ThreadId) (ready : ReadySpare) : Stable i (Ready i ready) := by
  cases ready with
  | taken spare => exact stable_handling fun _ _ _ h hmem => h.listed ▸ hmem
  | grow spare => exact stable_handling fun _ _ _ h hspare => (h.spare spare hspare).1

/-- The ready spare, perhaps grown, leaves the manager. -/
theorem Handling.handOut {i : ThreadId} {s : KeeperWal} (hs : Handling i s) {spare grown : Spare}
    (hspare : s.segmentFiles.spare = some spare) (hgrown : grown.segment = spare.segment) :
    FileStep i s (s.handOut grown) ∧ Ready i (.taken grown) (s.handOut grown) := by
  obtain ⟨⟨hsome, hlt⟩, hnotMem, hidle⟩ := hs.filed.spare spare hspare
  rw [← hgrown] at hsome hlt hnotMem
  have hfiled : Filed (s.handOut grown) := by
    refine ⟨fun n hn => ?_, ?_, (fun _ h => by cases h), fun halive => ?_,
      fun hopened => ⟨rfl, (hs.filed.closed hopened).2⟩, hs.filed.queued, hs.filed.imaged⟩
    · rcases List.mem_append.mp hn with hn | hn
      · exact hs.filed.listed n hn
      · rw [List.mem_singleton.mp hn]
        exact ⟨hsome, hlt⟩
    · refine List.nodup_append.mpr ⟨hs.filed.nodup, List.nodup_singleton _, ?_⟩
      intro n hn m hm heq
      exact hnotMem (List.mem_singleton.mp hm ▸ heq ▸ hn)
    · obtain ⟨hmem, hactive⟩ := hs.filed.active halive
      exact ⟨List.mem_append_left _ hmem, hactive⟩
  -- a ready spare means that the preparer is not at work
  have hprepared : PreparerAtWork s.segmentFiles → Prepared s (s.handOut grown) := by
    intro hwork
    rw [hwork.1] at hidle
    cases hidle
  obtain ⟨hstep, hafter⟩ := hs.act (t := s.handOut grown) hfiled hprepared rfl rfl rfl rfl
  exact ⟨hstep, hafter, List.mem_append_right _ (List.mem_singleton_self _)⟩

theorem Handling.takeReady {i : ThreadId} {s : KeeperWal} (hs : Handling i s) {spare : Spare}
    (hspare : s.segmentFiles.spare = some spare) (minBytes : ℕ) :
    FileStep i s (s.takeReady spare minBytes).2 ∧
      Ready i (s.takeReady spare minBytes).1 (s.takeReady spare minBytes).2 := by
  rw [KeeperWal.takeReady]
  split
  · exact ⟨(Untouched.refl s).fileStep, hs, hspare⟩
  · exact hs.handOut hspare rfl

/-- That thread prepares this segment itself. -/
structure Making (n : ℕ) (s : KeeperWal) : Prop where
  atWork : HandlerAtWork s.segmentFiles
  opened : s.segmentFiles.opened = true
  spare : s.segmentFiles.spare = none
  lt : n < s.segmentFiles.nextSegment
  notMem : n ∉ s.segmentFiles.segmentList

theorem Making.of_handled {n : ℕ} {s t : KeeperWal} (h : Handled s t) (hs : Making n s) :
    Making n t := by
  obtain ⟨hwork, hspare, hnext, -⟩ := h.atWork hs.atWork
  exact ⟨hwork, h.opened.trans hs.opened, hspare.trans hs.spare, hnext ▸ hs.lt,
    h.listed ▸ hs.notMem⟩

theorem stable_making (i : ThreadId) (n : ℕ) : Stable i fun s => Handling i s ∧ Making n s :=
  stable_handling fun _ _ _ h hs => hs.of_handled h

theorem stable_making_read (i : ThreadId) (n : ℕ) (bytes : Bytes) :
    Stable i fun s => (Handling i s ∧ Making n s) ∧ s.disk.readFile n = some bytes := by
  have h := stable_handling (i := i)
    (Q := fun s => Making n s ∧ s.disk.readFile n = some bytes) fun s t _ h hs =>
      ⟨hs.1.of_handled h, ((h.atWork hs.1.atWork).2.2.2 n).trans hs.2⟩
  simpa only [and_assoc] using h

theorem Making.write {i : ThreadId} {n : ℕ} {s : KeeperWal} (hs : Handling i s ∧ Making n s)
    {disk : Disk} (hdisk : ∀ other, other ≠ n → disk.readFile other = s.disk.readFile other) :
    FileStep i s { s with disk := disk } ∧
      Handling i { s with disk := disk } ∧ Making n { s with disk := disk } := by
  obtain ⟨hhandling, hmaking⟩ := hs
  obtain ⟨hstep, hafter⟩ := hhandling.act (t := { s with disk := disk })
    (hhandling.filed.write hmaking.spare hmaking.notMem hdisk)
    (fun hwork => absurd hwork hmaking.atWork.not_preparer) rfl rfl rfl rfl
  exact ⟨hstep, hafter, hmaking.atWork, hmaking.opened, hmaking.spare, hmaking.lt,
    hmaking.notMem⟩

/-- What the wait of `takeSpare` ends in. -/
def Waited (i : ThreadId) : SpareWait → KeeperWal → Prop
  | .notOpen => Handling i
  | .ready ready => Ready i ready
  | .make n => fun s => Handling i s ∧ Making n s

theorem waitForSpare_triple (i : ThreadId) (minBytes : ℕ) :
    FileTriple i (Handling i) (waitForSpare minBytes) (Waited i) := by
  refine .atomically (stable_handling_only i).others (fun wait => ?_) fun s c wait s' hs h => ?_
  · cases wait with
    | notOpen => exact (stable_handling_only i).others
    | ready ready => exact (stable_ready i ready).others
    | make n => exact (stable_making i n).others
  · split at h
    · cases h
      exact ⟨(Untouched.refl s).fileStep, hs⟩
    · rename_i hopened
      split at h
      · rename_i spare hspare
        cases h
        exact hs.takeReady hspare minBytes
      · rename_i hspare
        split at h <;> cases h
        rename_i hready
        have hnone : ∀ spare, s.segmentFiles.spare ≠ some spare := fun spare h => by
          rw [hspare] at h
          cases h
        -- the preparer is at rest: it was not started, or its last preparation failed
        have hwork : s.segmentFiles.preparerAlive → s.segmentFiles.preparerFailed := by
          intro halive
          refine hready.2.resolve_left fun hactive => ?_
          exact hactive (hs.active halive)
        obtain ⟨hstep, hafter⟩ := hs.act (t := { s with segmentFiles := { s.segmentFiles with
            preparing := true
            nextSegment := s.segmentFiles.nextSegment + 1 } })
          { hs.filed with
            listed := fun n hn =>
              ⟨(hs.filed.listed n hn).1, Nat.lt_succ_of_lt (hs.filed.listed n hn).2⟩
            spare := fun spare h => absurd h (hnone spare) }
          (fun hpreparer => absurd hpreparer.1 hready.1) rfl rfl rfl rfl
        refine ⟨hstep, hafter, ⟨rfl, hwork⟩, not_not.mp hopened, hspare,
          Nat.lt_succ_self _, fun hn => ?_⟩
        -- every segment in the list has a smaller number
        exact absurd (hs.filed.listed _ hn).2 (Nat.lt_irrefl _)

/-- What is known after a preparation of its own. -/
def Made (i : ThreadId) : Except Errno ReadySpare → KeeperWal → Prop
  | .error _ => Handling i
  | .ok ready => Ready i ready

theorem stable_made (i : ThreadId) (r : Except Errno ReadySpare) : Stable i (Made i r) := by
  cases r with
  | error err => exact stable_handling_only i
  | ok ready => exact stable_ready i ready

theorem afterPrepare_triple (i : ThreadId) (n minBytes : ℕ) (made : Except Errno Spare) :
    FileTriple i (fun s => (Handling i s ∧ Making n s) ∧ ∀ spare, made = .ok spare →
        spare.segment = n ∧ (s.disk.readFile n).isSome)
      (afterPrepare made minBytes) (Made i) := by
  refine action_triple ?_ (stable_made i) fun s h => ?_
  · have h := stable_handling (i := i) (Q := fun s => Making n s ∧ ∀ spare, made = .ok spare →
        spare.segment = n ∧ (s.disk.readFile n).isSome) fun s t _ h hs => by
      refine ⟨hs.1.of_handled h, fun spare heq => ?_⟩
      rw [(h.atWork hs.1.atWork).2.2.2]
      exact hs.2 spare heq
    simpa only [and_assoc] using h
  · obtain ⟨⟨hs, hmaking⟩, hmade⟩ := h
    cases made with
    | error err =>
      exact hs.act { hs.filed with
          spare := fun spare h => ⟨(hs.filed.spare spare h).1, (hs.filed.spare spare h).2.1, rfl⟩ }
        (fun hwork => absurd hwork hmaking.atWork.not_preparer) rfl rfl rfl rfl
    | ok spare =>
      obtain ⟨rfl, hsome⟩ := hmade spare rfl
      -- the new segment becomes the ready spare before it is taken
      have hfound : ∀ spare', some spare = some spare' →
          ((s.disk.readFile spare'.segment).isSome ∧
            spare'.segment < s.segmentFiles.nextSegment) ∧
          spare'.segment ∉ s.segmentFiles.segmentList ∧ false = false := by
        intro spare' h
        cases h
        exact ⟨⟨hsome, hmaking.lt⟩, hmaking.notMem, rfl⟩
      obtain ⟨hstep, hafter⟩ := hs.act (t := { s with
          segmentFiles := { s.segmentFiles with preparing := false, spare := some spare } })
        { hs.filed with
          spare := hfound
          closed := fun hopened => absurd (hmaking.opened.symm.trans hopened) (by decide) }
        (fun hwork => absurd hwork hmaking.atWork.not_preparer) rfl rfl rfl rfl
      obtain ⟨hstep', hready⟩ := hafter.takeReady (rfl : _ = some spare) minBytes
      exact ⟨hstep.trans hs.handler hstep', hready⟩

/-- What that thread knows of the spare it took. -/
def Took (i : ThreadId) (r : Except Errno Spare) (s : KeeperWal) : Prop :=
  Handling i s ∧ ∀ spare, r = .ok spare → spare.segment ∈ s.segmentFiles.segmentList

theorem stable_took (i : ThreadId) (r : Except Errno Spare) : Stable i (Took i r) :=
  stable_handling fun _ _ _ h hs spare heq => h.listed ▸ hs spare heq

theorem stable_failed (i : ThreadId) (err : Errno) {s : KeeperWal} (hs : Handling i s) :
    Took i (.error err) s :=
  ⟨hs, fun _ h => by cases h⟩

theorem finishTake_triple (i : ThreadId) (minBytes : ℕ) (ready : ReadySpare) :
    FileTriple i (Ready i ready) (finishTake minBytes ready) (Took i) := by
  cases ready with
  | taken spare =>
    refine .ret (stable_ready i (.taken spare)).others fun s hs => ⟨hs.1, fun spare' h => ?_⟩
    cases h
    exact hs.2
  | grow spare =>
    have hstable := stable_ready i (.grow spare)
    -- the zeros go to the ready spare, which is in no list yet
    have hgrow : FileTriple i (Ready i (.grow spare)) (growSpare spare minBytes)
        fun _ => Ready i (.grow spare) := by
      rw [growSpare]
      split
      · refine .atomically hstable.others (fun _ => hstable.others) fun s c r s' hs h => ?_
        obtain ⟨hhandling, hspare⟩ := hs
        have hidle := (hhandling.filed.spare spare hspare).2.2
        split at h <;> cases h
        · obtain ⟨hstep, hafter⟩ := hhandling.write (.inr hidle) _ _
          exact ⟨hstep, hafter, hspare⟩
        · obtain ⟨hstep, hafter⟩ := hhandling.write (.inr hidle) _ _
          exact ⟨hstep, hafter, hspare⟩
      · exact .ret hstable.others fun _ hs => hs
    have hextend : FileTriple i (Ready i (.grow spare)) (extend spare minBytes)
        fun _ => Ready i (.grow spare) := by
      refine .bind (fun _ => .refl) hgrow fun r => ?_
      cases r with
      | some err => exact .ret hstable.others fun _ hs => hs
      | none => exact hstable.untouched (always_untouched_syncData _)
    refine .bind (fun _ => .refl) hextend fun r => ?_
    cases r with
    | some err => exact .ret hstable.others fun s hs => stable_failed i err hs.1
    | none =>
      refine action_triple hstable (stable_took i) fun s hs => ?_
      obtain ⟨hstep, hafter, hmem⟩ := hs.1.handOut hs.2
        (rfl : ({ spare with sizeBytes := minBytes } : Spare).segment = spare.segment)
      refine ⟨hstep, hafter, fun spare' h => ?_⟩
      cases h
      exact hmem

theorem takeSpare_triple (i : ThreadId) (minBytes : ℕ) :
    FileTriple i (Handling i) (takeSpare minBytes) (Took i) := by
  refine .bind (fun _ => .refl) (waitForSpare_triple i minBytes) fun wait => ?_
  cases wait with
  | notOpen =>
    exact .ret (stable_handling_only i).others fun s hs => stable_failed i _ hs
  | ready ready => exact finishTake_triple i minBytes ready
  | make n =>
    refine .bind (fun _ => .refl) ((stable_making i n).untouched (always_untouched_read _))
      fun segmentBytes => ?_
    refine .bind (fun _ => .refl) (prepare_triple (stable_making i n) (stable_making_read i n)
      (fun s disk hs => Making.write hs) _) fun made => ?_
    refine .bind (fun _ => .refl) (afterPrepare_triple i n minBytes made) fun r => ?_
    cases r with
    | error err =>
      exact .ret (stable_handling_only i).others fun s hs => stable_failed i err hs
    | ok ready => exact finishTake_triple i minBytes ready

/-! ### Deleting -/

/-- What is deleted is not the active segment. -/
def Spares (released : List ℕ) (s : KeeperWal) : Prop :=
  Handling .committer s ∧ ∀ n ∈ released, n ≠ s.activeSegment

theorem stable_spares (released : List ℕ) : Stable .committer (Spares released) :=
  stable_handling fun _ _ _ h hs n hn => h.activeSegment ▸ hs n hn

theorem deleteSegment_triple (n : ℕ) (released : List ℕ) :
    FileTriple .committer (Spares (n :: released)) (deleteSegment n) fun _ => Spares released := by
  have hrest : ∀ s, Spares (n :: released) s → Spares released s :=
    fun s hs => ⟨hs.1, fun m hm => hs.2 m (List.mem_cons_of_mem _ hm)⟩
  refine .seq (fun _ => Spares released) (fun _ => .refl)
    (.atomically (stable_spares _).others (fun _ => (stable_spares _).others)
      fun s c r s' hs h => ?_) fun r => ?_
  · split at h
    · cases h
      exact ⟨(Untouched.refl s).fileStep, hrest s hs⟩
    · rename_i hmem
      have hmem : n ∈ s.segmentFiles.segmentList := not_not.mp hmem
      split at h <;> cases h
      · exact ⟨(Untouched.refl s).fileStep, hrest s hs⟩
      · obtain ⟨hhandling, hne⟩ := hs
        have hfiled := hhandling.filed
        -- every other segment stays readable, the spare and the active one among them
        have hother : ∀ m ∈ s.segmentFiles.segmentList.erase n,
            m ≠ n ∧ m ∈ s.segmentFiles.segmentList :=
          fun m hm => (hfiled.nodup.mem_erase_iff).mp hm
        obtain ⟨hstep, hafter⟩ := hhandling.act (t := { s with
            disk := s.disk.remove n
            segmentFiles := { s.segmentFiles with
              segmentList := s.segmentFiles.segmentList.erase n } })
          { listed := fun m hm => by
              show ((s.disk.remove n).readFile m).isSome ∧ _
              rw [s.disk.readFile_remove_of_ne (hother m hm).1]
              exact hfiled.listed m (hother m hm).2
            nodup := hfiled.nodup.erase n
            spare := fun spare h => by
              obtain ⟨hfile, hnotMem, hidle⟩ := hfiled.spare spare h
              have hnotN : spare.segment ≠ n := fun heq => hnotMem (heq ▸ hmem)
              refine ⟨?_, fun hm => hnotMem (hother _ hm).2, hidle⟩
              show ((s.disk.remove n).readFile spare.segment).isSome ∧ _
              rw [s.disk.readFile_remove_of_ne hnotN]
              exact hfile
            active := fun halive => by
              obtain ⟨hactive, hpreparer⟩ := hfiled.active halive
              refine ⟨(hfiled.nodup.mem_erase_iff).mpr ⟨?_, hactive⟩, hpreparer⟩
              exact (hne n List.mem_cons_self).symm
            closed := hfiled.closed
            queued := hfiled.queued
            imaged := hfiled.imaged }
          (fun hwork => ⟨hwork, rfl, rfl, fun m hm => ⟨fun h => hm (hother m h).2,
            s.disk.readFile_remove_of_ne fun heq => hm (heq ▸ hmem)⟩⟩) rfl rfl rfl rfl
        exact ⟨hstep, hafter, fun m hm => hne m (List.mem_cons_of_mem _ hm)⟩
  · cases r with
    | some err => exact .ret (stable_spares _).others fun _ hs => hs
    | none => exact (stable_spares _).untouched always_untouched_syncDirectory

theorem deleteSegments_triple (released : List ℕ) :
    FileTriple .committer (Spares released) (deleteSegments released)
      fun _ => Handling .committer := by
  induction released with
  | nil => exact .ret (stable_spares _).others fun _ hs => hs.1
  | cons n released ih =>
    refine .bind (fun _ => .refl) (deleteSegment_triple n released) fun r => ?_
    cases r with
    | some err =>
      refine ((stable_spares released).untouched (.modify fun s => ?_)).conseq (fun _ h => h)
        fun _ _ h => h.1
      split
      · exact .refl s
      · exact .of_eq rfl rfl rfl rfl rfl rfl rfl
    | none =>
      refine .bind (fun _ => .refl) ((stable_spares released).untouched (.modify fun s => ?_))
        fun _ => ih
      exact .of_eq rfl rfl rfl rfl rfl rfl rfl

/-- The segments that may be deleted are among those released. -/
theorem returns_keepDrops (released : List ℕ) :
    (keepDropsOfSegmentsDeletedAhead released).Returns fun kept => ∀ n ∈ kept, n ∈ released := by
  refine .bind (.any _) fun ahead _ => ?_
  simp only
  split
  · exact fun n hn => hn
  · refine .bind (.any _) fun r _ => ?_
    cases r with
    | error err => exact fun n hn => (List.mem_filter.mp hn).1
    | ok lines =>
      refine .bind (.any _) fun r _ => ?_
      cases r with
      | some err => exact fun n hn => (List.mem_filter.mp hn).1
      | none => exact .bind (.any _) fun _ _ n hn => hn

theorem deleteReleasedSegments_triple :
    FileTriple .committer (Handling .committer) deleteReleasedSegments
      fun _ => Handling .committer := by
  have hstable := stable_handling_only .committer
  have hsync : ∀ owed, (syncOwed owed).Always Untouched := by
    intro owed
    simp only [syncOwed]
    split
    · exact always_untouched_syncDirectory
    · trivial
  refine .bind (fun _ => .refl) (hstable.untouched (always_untouched_read _)) fun owed => ?_
  refine .bind (fun _ => .refl) (hstable.untouched (hsync owed)) fun synced => ?_
  cases synced with
  | some err => exact .ret hstable.others fun _ hs => hs
  | none =>
    refine .seq Spares (fun _ => .refl)
      (action_triple hstable stable_spares fun s hs => ?_) fun released => ?_
    · have huntouched : Untouched s { s with directorySyncOwed := false } :=
        .of_eq rfl rfl rfl rfl rfl rfl rfl
      refine ⟨huntouched.fileStep, hs.untouched huntouched, fun n hn => ?_⟩
      -- the filter leaves the active segment out
      have hfilter := (List.mem_filter.mp hn).2
      rw [Bool.and_eq_true, decide_eq_true_eq] at hfilter
      exact hfilter.1
    · split
      · exact .ret (stable_spares released).others fun _ hs => hs.1
      · refine .bind (fun _ => .refl) (((stable_spares released).untouched
          (always_untouched_keepDrops released)).and_returns (returns_keepDrops released))
            fun kept => ?_
        refine (deleteSegments_triple kept).conseq (fun s hs => ?_) fun _ _ h => h
        exact ⟨hs.2.1, fun n hn => hs.2.2 n (hs.1 n hn)⟩

/-! ### Groups -/

/-- The committer writes to this segment. -/
theorem stable_activeSegment (active : ℕ) :
    Stable .committer fun s => Handling .committer s ∧ s.activeSegment = active :=
  stable_handling fun _ _ _ h hs => h.activeSegment.trans hs

theorem Handling.active_mem {s : KeeperWal} (hs : Handling .committer s) :
    s.activeSegment ∈ s.segmentFiles.segmentList :=
  (hs.filed.active (handler_eq_committer.mp hs.handler)).1

/-- The active segment holds these bytes at this offset. -/
def Holds (active offset : ℕ) (data : Bytes) (s : KeeperWal) : Prop :=
  s.activeSegment = active ∧ s.disk.readRange active offset data.length = data

theorem stable_holds (active offset : ℕ) (data : Bytes) :
    Stable .committer fun s => Handling .committer s ∧ Holds active offset data s := by
  refine stable_handling fun s t hs h hholds => ⟨h.activeSegment.trans hholds.1, ?_⟩
  obtain ⟨rfl, hread⟩ := hholds
  rw [Disk.readRange_congr (h.readFile _ hs.active_mem)]
  exact hread

/-- What the committer knows after a write to the active segment. -/
def AfterWrite (active offset : ℕ) (data : Bytes) : Option Errno → KeeperWal → Prop
  | none => fun s => Handling .committer s ∧ Holds active offset data s
  | some _ => Handling .committer

theorem writeActive_triple (active offset : ℕ) (data : Bytes) :
    FileTriple .committer (fun s => Handling .committer s ∧ s.activeSegment = active)
      (KeeperWal.writeAt active offset data) (AfterWrite active offset data) := by
  refine .atomically (stable_activeSegment active).others (fun r => ?_) fun s c r s' hs h => ?_
  · cases r with
    | none => exact (stable_holds active offset data).others
    | some err => exact (stable_handling_only _).others
  · obtain ⟨hhandling, rfl⟩ := hs
    have hmem := hhandling.active_mem
    split at h <;> cases h
    · exact hhandling.write (.inl hmem) _ _
    · obtain ⟨hstep, hafter⟩ := hhandling.write (.inl hmem) _ _
      exact ⟨hstep, hafter, rfl,
        Disk.readRange_writeAt (hhandling.filed.listed _ hmem).1 offset data⟩

theorem switchToSpare_triple (minBytes : ℕ) :
    FileTriple .committer (Handling .committer) (switchToSpare minBytes)
      fun _ => Handling .committer := by
  have hstable := stable_handling_only .committer
  refine .bind (fun _ => .refl) (takeSpare_triple .committer minBytes) fun r => ?_
  cases r with
  | error err => exact .ret (stable_took _ _).others fun _ hs => hs.1
  | ok spare =>
    refine action_triple (stable_took _ _) (fun _ => hstable) fun s hs => ?_
    obtain ⟨hhandling, hmem⟩ := hs
    have hfiled := hhandling.filed
    exact hhandling.act
      { hfiled with active := fun halive => ⟨hmem spare rfl, (hfiled.active halive).2⟩ }
      (fun hwork => ⟨hwork, rfl, rfl, fun _ hn => ⟨hn, rfl⟩⟩) rfl rfl rfl rfl

theorem rotate_triple (minBytes : ℕ) :
    FileTriple .committer (Handling .committer) (rotate minBytes)
      fun _ => Handling .committer := by
  have hstable := stable_handling_only .committer
  refine .bind (fun _ => .refl) (hstable.untouched (always_untouched_read _)) fun active => ?_
  refine .bind (fun _ => .refl) (hstable.untouched (always_untouched_syncData active)) fun r => ?_
  cases r with
  | some err => exact .ret hstable.others fun _ hs => hs
  | none => exact switchToSpare_triple minBytes

/-- Where the committer writes next. -/
theorem readActive_triple {α : Type} (f : KeeperWal → α) (active : α → ℕ)
    (hf : ∀ s, active (f s) = s.activeSegment) :
    FileTriple .committer (Handling .committer) (.modify fun s => (f s, s))
      fun a s => Handling .committer s ∧ s.activeSegment = active a :=
  action_triple (stable_handling_only _) (fun a => stable_activeSegment (active a)) fun s hs =>
    ⟨(Untouched.refl s).fileStep, hs, (hf s).symm⟩

theorem eraseRange_triple (offset bytes : ℕ) :
    FileTriple .committer (Handling .committer) (eraseRange offset bytes)
      fun _ => Handling .committer := by
  have hstable := stable_handling_only .committer
  refine .bind (fun _ => .refl) (readActive_triple _ id fun _ => rfl) fun active => ?_
  refine .bind (fun _ => .refl) (writeActive_triple active offset _) fun r => ?_
  cases r with
  | some err => exact .ret hstable.others fun _ hs => hs
  | none =>
    exact (hstable.untouched (always_untouched_syncData active)).conseq (fun _ hs => hs.1)
      fun _ _ h => h

theorem failGroup_files (group : List Queued) (written : ℕ) :
    FileTriple .committer (Handling .committer) (failGroup group written)
      fun _ => Handling .committer := by
  have hstable := stable_handling_only .committer
  have hfinish : ∀ status, FileTriple .committer (Handling .committer)
      (finishGroup group status 0) fun _ => Handling .committer :=
    fun status => hstable.untouched (always_untouched_finishGroup group status 0)
  refine .bind (fun _ => .refl) (hstable.untouched (.modify fun s => ?_)) fun offset => ?_
  · exact .of_eq rfl rfl rfl rfl rfl rfl rfl
  refine .bind (fun _ => .refl) (hstable.untouched (always_untouched_recordUnloggedDrops group))
    fun _ => ?_
  split
  · exact hfinish _
  · refine .bind (fun _ => .refl) (eraseRange_triple offset written) fun r => ?_
    cases r with
    | none => exact hfinish _
    | some err => exact hfinish _

/-- **The sync of a group makes its records durable**: its range holds the E records of the
group and no others. -/
theorem writeGroup_files {group : List Queued} (hgroup : ∀ entry ∈ group, entry.Encoded) :
    FileTriple .committer (Handling .committer) (writeGroup group)
      fun _ => Handling .committer := by
  have hstable := stable_handling_only .committer
  refine .bind (fun _ => .refl) (readActive_triple _ Prod.fst fun _ => rfl) fun r => ?_
  obtain ⟨active, offset, named⟩ := r
  let data := Wal.encodeGroup (groupBytes group named) ++ (groupFrames named group).1
  refine .bind (fun _ => .refl) (writeActive_triple active offset data) fun r => ?_
  cases r with
  | some err => exact failGroup_files group _
  | none =>
    refine .seq (fun _ => Handling .committer) (fun _ => .refl)
      (.atomically (stable_holds active offset data).others (fun _ => hstable.others)
        fun s c r s' hs h => ?_) fun r => ?_
    · obtain ⟨hhandling, -, hread⟩ := hs
      have hfiled := hhandling.filed
      split at h <;> cases h
      · exact ⟨(Untouched.refl s).fileStep, hhandling⟩
      · -- the segment still holds what was written, and the sync makes an image of it
        have himage : (s.disk.syncData active).readRange active offset (groupBytes group named) =
            data := by
          rw [Disk.readRange_congr (s.disk.readFile_syncData active active),
            ← length_group (groupBytes group named) group named]
          exact hread
        have hsynced : Filed { s with disk := s.disk.syncData active } :=
          hfiled.setDisk fun n => by rw [s.disk.readFile_syncData]
        refine hhandling.act { hsynced with imaged := fun segment group' image hmem => ?_ }
          (fun hwork => ⟨hwork, rfl, rfl, fun n hn => ⟨hn, s.disk.readFile_syncData active n⟩⟩)
          rfl rfl rfl rfl
        rcases List.mem_cons.mp hmem with heq | hmem
        · cases heq
          rw [himage]
          exact eventsIn_group _ named hgroup
        · exact hfiled.imaged segment group' image hmem
    · cases r with
      | some err => exact failGroup_files group _
      | none => exact hstable.untouched (always_untouched_finishGroup group _ active)

theorem commitGroup_files {group : List Queued} (hgroup : ∀ entry ∈ group, entry.Encoded) :
    FileTriple .committer (Handling .committer) (commitGroup group)
      fun _ => Handling .committer := by
  have hstable := stable_handling_only .committer
  refine .bind (fun _ => .refl) (hstable.untouched (always_untouched_read _)) fun r => ?_
  cases r with
  | none => exact writeGroup_files hgroup
  | some needed =>
    refine .bind (fun _ => .refl) (rotate_triple needed) fun r => ?_
    cases r with
    | some err => exact failGroup_files group 0
    | none => exact writeGroup_files hgroup

/-! ### Turns of the committer -/

theorem periodicWork_files :
    FileTriple .committer (Handling .committer) periodicWork fun _ => Handling .committer := by
  have hstable := stable_handling_only .committer
  refine .bind (fun _ => .refl) (hstable.untouched always_untouched_sampleFreeSpace) fun _ => ?_
  refine .bind (fun _ => .refl) deleteReleasedSegments_triple fun _ => ?_
  refine .bind (fun _ => .refl) (hstable.untouched (always_untouched_ask _)) fun due => ?_
  split
  · refine .bind (fun _ => .refl) (hstable.untouched (always_untouched_read _)) fun r => ?_
    obtain ⟨idle, active, segmentBytes⟩ := r
    simp only
    split
    · refine .bind (fun _ => .refl) (hstable.untouched (always_untouched_syncData active))
        fun r => ?_
      cases r with
      | some err =>
        exact hstable.untouched (.modify fun s => .of_eq rfl rfl rfl rfl rfl rfl rfl)
      | none =>
        refine .bind (fun _ => .refl) (switchToSpare_triple segmentBytes) fun r => ?_
        cases r with
        | some err => exact .ret hstable.others fun _ hs => hs
        | none => exact deleteReleasedSegments_triple
    · exact .ret hstable.others fun _ hs => hs
  · exact .ret hstable.others fun _ hs => hs

/-- What the committer knows of the work it found. -/
def Found : CommitterWork → KeeperWal → Prop
  | .exit => Filed
  | .idle => Handling .committer
  | .group entries _ => fun s => Handling .committer s ∧ ∀ entry ∈ entries, entry.Encoded

theorem findWork_files : FileTriple .committer (Handling .committer) findWork Found := by
  have hstable := stable_handling_only .committer
  refine action_triple hstable (fun work => ?_) fun s hs => ?_
  · cases work with
    | exit => exact stable_filed _
    | idle => exact hstable
    | group entries latched => exact hstable.and (stable_const _ _)
  · have hfiled := hs.filed
    simp only
    split
    · split
      · -- the thread ends
        have hfiled' : Filed { s with committerAlive := false } :=
          { hfiled with active := fun h => by cases h }
        refine ⟨⟨fun _ => hfiled', fun h => absurd hs.handler.symm h,
          fun _ hwork => ⟨hwork, rfl, rfl, fun _ hn => ⟨hn, rfl⟩⟩,
          ⟨fun h => absurd rfl h, fun _ h => by cases h⟩, fun _ => id, fun _ => rfl⟩, hfiled'⟩
      · exact ⟨(Untouched.refl s).fileStep, hs⟩
    · -- the group is the front of the queue
      have hsplit := (takeGroup_append s.conf.groupCommitMaxBytes 0 [] s.queue).trans
        (List.nil_append _)
      have huntouched : Untouched s { s with
          queue := (takeGroup s.conf.groupCommitMaxBytes 0 [] s.queue).2
          queuedBytes := s.queuedBytes -
            ((takeGroup s.conf.groupCommitMaxBytes 0 [] s.queue).1.map Queued.bytes).sum
          group := (takeGroup s.conf.groupCommitMaxBytes 0 [] s.queue).1
          unregistered := (takeGroup s.conf.groupCommitMaxBytes 0 [] s.queue).1 } :=
        ⟨fun _ => rfl, rfl, rfl, rfl, rfl,
          fun entry hentry => .inl (hsplit ▸ List.mem_append_right _ hentry), fun _ _ _ h => h⟩
      refine ⟨huntouched.fileStep, hs.untouched huntouched, fun entry hentry => ?_⟩
      exact hfiled.queued entry (hsplit ▸ List.mem_append_left _ hentry)

theorem committerTurn_files :
    FileTriple .committer (Handling .committer) committerTurn fun _ => Filed := by
  have hstable := stable_handling_only .committer
  refine .bind (fun _ => .refl) findWork_files fun work => ?_
  cases work with
  | exit => exact .ret (stable_filed _).others fun _ hs => hs
  | idle => exact periodicWork_files.conseq (fun _ h => h) fun _ _ h => h.filed
  | group entries latched =>
    have hrest : FileTriple .committer (Handling .committer) (do
        deleteReleasedSegments
        let due ← Prog.atomically fun (s : KeeperWal) (c : Choice) => some (c.flag, s)
        if due = true then periodicWork else pure ()) fun _ => Filed := by
      refine .bind (fun _ => .refl) deleteReleasedSegments_triple fun _ => ?_
      refine .bind (fun _ => .refl) (hstable.untouched (always_untouched_ask _)) fun due => ?_
      split
      · exact periodicWork_files.conseq (fun _ h => h) fun _ _ h => h.filed
      · exact .ret hstable.others fun _ hs => hs.filed
    intro s hs
    obtain ⟨hhandling, hentries⟩ := hs
    refine (show FileTriple .committer (Handling .committer) _ fun _ => Filed from ?_) s hhandling
    simp only
    split
    · refine .bind (fun _ => .refl)
        (hstable.untouched (always_untouched_recordUnloggedDrops entries)) fun _ => ?_
      exact .bind (fun _ => .refl)
        (hstable.untouched (always_untouched_finishGroup entries _ 0)) fun _ => hrest
    · exact .bind (fun _ => .refl) (commitGroup_files hentries) fun _ => hrest

/-! ### The owner -/

/-- What holds of the segments while the owner is idle: a log that is not started has no
committer. -/
structure OwnerFiled (s : KeeperWal) : Prop where
  filed : Filed s
  created : s.state = .Created → Handling .owner s

theorem OwnerFiled.step {i : ThreadId} {s t : KeeperWal} (hi : i ≠ .owner) (h : FileStep i s t)
    (hs : OwnerFiled s) : OwnerFiled t :=
  ⟨h.filed hs.filed, fun hcreated => ((hs.created (h.state hi ▸ hcreated)).step hi h).1⟩

theorem stable_ownerFiled : Stable .owner OwnerFiled :=
  ⟨Rely.stable fun _ _ _ hi h hs => hs.step hi h, fun _ _ hs h =>
    ⟨h.filed hs.filed, fun hcreated => (hs.created (h.state ▸ hcreated)).untouched h⟩⟩

theorem Handling.ownerFiled {s : KeeperWal} (hs : Handling .owner s) : OwnerFiled s :=
  ⟨hs.filed, fun _ => hs⟩

/-- An action of the owner that keeps the segments and the threads. -/
theorem FileStep.ofOwner {s t : KeeperWal} (hfiled : Filed s → Filed t)
    (hdisk : t.disk = s.disk) (hfiles : t.segmentFiles = s.segmentFiles)
    (hactive : t.activeSegment = s.activeSegment)
    (halive : t.committerAlive = s.committerAlive) : FileStep .owner s t where
  filed := hfiled
  handled _ := by
    refine ⟨hactive, by rw [hfiles], by rw [hfiles], fun n _ => by rw [hdisk], fun spare h => ?_,
      fun hwork => ?_, by rw [hfiles], fun h => by rwa [hfiles] at h⟩
    · exact ⟨by rw [hfiles]; exact h, by rw [hdisk]⟩
    · exact ⟨by rw [hfiles]; exact hwork, by rw [hfiles], by rw [hfiles], fun n => by rw [hdisk]⟩
  prepared _ hwork := by
    exact ⟨by rw [hfiles]; exact hwork, by rw [hfiles], by rw [hfiles],
      fun n hn => ⟨by rw [hfiles]; exact hn, by rw [hdisk]⟩⟩
  committer := by
    rw [halive]
    exact ⟨fun _ => id, fun _ => id⟩
  preparer _ h := by
    rw [hfiles]
    exact h
  state h := absurd rfl h

theorem openSegments_files :
    FileTriple .owner (Handling .owner) openSegments fun _ => Handling .owner := by
  have hstable := stable_handling_only .owner
  refine .atomically hstable.others (fun _ => hstable.others) fun s c r s' hs h => ?_
  split at h
  · cases h
    exact ⟨(Untouched.refl s).fileStep, hs⟩
  · rename_i hopened
    split at h <;> cases h
    · exact ⟨(Untouched.refl s).fileStep, hs⟩
    · obtain ⟨hspare, hpreparer⟩ := hs.filed.closed (Bool.eq_false_iff.mpr hopened)
      have hdisk : ∀ n, (if c.flag = true then s.disk.syncDirectory else s.disk).readFile n =
          s.disk.readFile n := by
        intro n
        split
        · exact s.disk.readFile_syncDirectory n
        · rfl
      have hnotAlive : ¬s.committerAlive = true :=
        Bool.eq_false_iff.mp (handler_eq_owner.mp hs.handler)
      refine hs.act ?_ (fun hwork => ?_) rfl rfl rfl rfl
      · refine ⟨fun n hn => ?_, s.disk.pairwise_list.imp Nat.ne_of_lt, fun spare h => ?_,
          fun halive => absurd halive hnotAlive, fun h => (by cases h), hs.filed.queued,
          hs.filed.imaged⟩
        · show (Disk.readFile _ n).isSome ∧ _
          rw [hdisk n]
          refine ⟨Disk.mem_list.mp hn, ?_⟩
          rcases hlast : s.disk.list.getLast? with - | last
          · rw [List.getLast?_eq_none_iff.mp hlast] at hn
            cases hn
          · simp only
            exact Nat.lt_succ_of_le (Disk.le_getLast hn hlast)
        · rw [show s.segmentFiles.spare = some spare from h] at hspare
          cases hspare
      · -- before the open there is no preparer
        have halive := hwork.2.1
        rw [hpreparer] at halive
        cases halive

theorem adoptExisting_files (segment : ℕ) :
    FileTriple .owner (Handling .owner) (adoptExisting segment) (Took .owner) := by
  have hstable := stable_handling_only .owner
  have hlisted : Stable .owner fun s =>
      Handling .owner s ∧ segment ∈ s.segmentFiles.segmentList :=
    stable_handling fun _ _ _ h hmem => h.listed ▸ hmem
  -- what was read is listed
  refine .seq (fun content s => Handling .owner s ∧ ((∃ bytes, content = .ok bytes) →
      segment ∈ s.segmentFiles.segmentList)) (fun _ => .refl)
    (.atomically hstable.others (fun content => ?_) fun s c content s' hs h => ?_)
    fun content => ?_
  · exact (stable_handling fun _ _ _ h hmem hread => h.listed ▸ hmem hread).others
  · cases h
    refine ⟨(Untouched.refl s).fileStep, hs, fun hread => ?_⟩
    obtain ⟨bytes, hread⟩ := hread
    split at hread
    · cases hread
    · split at hread
      · cases hread
      · rename_i hlast
        exact List.mem_of_getLast? (by_contra fun h => hlast (.inr h))
  cases content with
  | error err =>
    exact .ret (stable_handling fun _ _ _ h hmem hread => h.listed ▸ hmem hread).others
      fun s hs => stable_failed _ err hs.1
  | ok bytes =>
    have hpre : ∀ s, (Handling .owner s ∧ ((∃ bytes' : Bytes,
        (Except.ok bytes : Except Errno Bytes) = .ok bytes') →
          segment ∈ s.segmentFiles.segmentList)) →
        Handling .owner s ∧ segment ∈ s.segmentFiles.segmentList :=
      fun s hs => ⟨hs.1, hs.2 ⟨bytes, rfl⟩⟩
    simp only
    split
    · exact Prog.Triple.conseq (.ret hlisted.others fun s hs => stable_failed _ _ hs.1) hpre
        fun _ _ h => h
    · refine Prog.Triple.conseq (.atomically hlisted.others (fun r => (stable_took _ r).others)
        fun s c r s' hs h => ?_) hpre fun _ _ h => h
      obtain ⟨hhandling, hmem⟩ := hs
      have hfiled := hhandling.filed
      split at h <;> cases h
      · exact ⟨(Untouched.refl s).fileStep, stable_failed _ _ hhandling⟩
      · obtain ⟨hstep, hafter⟩ := hhandling.act (t := { s with
            segmentFiles := { s.segmentFiles with segmentHandedOut := true } })
          { hfiled with } (fun hwork => ⟨hwork, rfl, rfl, fun _ hn => ⟨hn, rfl⟩⟩) rfl rfl rfl rfl
        refine ⟨hstep, hafter, fun spare h => ?_⟩
        cases h
        exact hmem

theorem firstSegment_files (reusableSpare : Option ℕ) :
    FileTriple .owner (Handling .owner) (firstSegment reusableSpare) (Took .owner) := by
  have hstable := stable_handling_only .owner
  refine .bind (fun _ => .refl) (hstable.untouched (always_untouched_read _)) fun bytes => ?_
  cases reusableSpare with
  | none => exact takeSpare_triple .owner _
  | some segment =>
    refine .bind (fun _ => .refl) (adoptExisting_files segment) fun r => ?_
    cases r with
    | ok spare => exact .ret (stable_took _ _).others fun _ hs => hs
    | error err => exact (takeSpare_triple .owner _).conseq (fun _ hs => hs.1) fun _ _ h => h

/-- An action of the owner while no committer runs. -/
theorem Handling.ownerAct {s t : KeeperWal} (hs : Handling .owner s) (hfiled : Filed t)
    (hdisk : t.disk = s.disk) (hfiles : t.segmentFiles = s.segmentFiles)
    (hactive : t.activeSegment = s.activeSegment)
    (halive : t.committerAlive = s.committerAlive) :
    FileStep .owner s t ∧ Handling .owner t := by
  refine ⟨.ofOwner (fun _ => hfiled) hdisk hfiles hactive halive, hfiled, ?_, ?_⟩
  · rw [← hs.handler, KeeperWal.handler, KeeperWal.handler, halive]
  · rw [hfiles]
    exact hs.active

/-- The owner with a segment for the committer. -/
def Placed (s : KeeperWal) : Prop :=
  Handling .owner s ∧ s.activeSegment ∈ s.segmentFiles.segmentList

theorem stable_placed : Stable .owner Placed :=
  stable_handling fun _ _ _ h hmem => by
    rw [h.activeSegment, h.listed]
    exact hmem

/-- Nobody but the owner changes the state. -/
theorem stable_state (state : WalState) : Stable .owner fun s => s.state = state :=
  ⟨Rely.stable fun _ _ _ hi h hs => (h.state hi).trans hs, fun _ _ hs h => h.state.trans hs⟩

/-- A log that was started or stopped. -/
def Begun (s : KeeperWal) : Prop := Filed s ∧ s.state ≠ .Created

theorem stable_begun : Stable .owner Begun :=
  ⟨Rely.stable fun _ _ _ hi h hs => ⟨h.filed hs.1, h.state hi ▸ hs.2⟩,
    fun _ _ hs h => ⟨h.filed hs.1, h.state ▸ hs.2⟩⟩

theorem Begun.ownerFiled {s : KeeperWal} (hs : Begun s) : OwnerFiled s :=
  ⟨hs.1, fun hcreated => absurd hcreated hs.2⟩

/-- No committer runs. -/
def Alone (s : KeeperWal) : Prop := Filed s ∧ s.committerAlive = false

theorem stable_alone : Stable .owner Alone := by
  refine ⟨Rely.stable fun _ s t hi h hs => ⟨h.filed hs.1, ?_⟩, fun _ _ hs h =>
    ⟨h.filed hs.1, h.committerAlive.trans hs.2⟩⟩
  refine Bool.eq_false_iff.mpr fun halive => ?_
  exact absurd ((h.committer.2 hi halive).symm.trans hs.2) (by decide)

theorem Handling.alone {s : KeeperWal} (hs : Handling .owner s) : Alone s :=
  ⟨hs.filed, handler_eq_owner.mp hs.handler⟩

/-- No committer and no preparer runs. -/
theorem Alone.handling {s : KeeperWal} (hs : Alone s)
    (hpreparer : s.segmentFiles.preparerAlive = false) : Handling .owner s :=
  ⟨hs.1, handler_eq_owner.mpr hs.2, fun h => by rw [hpreparer] at h; cases h⟩

theorem stopPreparer_files :
    FileTriple .owner Alone stopPreparer fun _ => Handling .owner := by
  refine .seq (fun _ => Alone) (fun _ => .refl)
    (action_triple stable_alone (fun _ => stable_alone) fun s hs => ?_) fun _ => ?_
  · obtain ⟨hfiled, hnone⟩ := hs
    have hfiled' : Filed { s with
        segmentFiles := { s.segmentFiles with preparerActive := false } } :=
      { hfiled with active := fun halive => absurd (hnone.symm.trans halive) (by decide) }
    refine ⟨⟨fun _ => hfiled', fun h => absurd (handler_eq_owner.mpr hnone).symm h,
      fun _ hwork => ⟨hwork, rfl, rfl, fun _ hn => ⟨hn, rfl⟩⟩,
      ⟨fun _ => id, fun _ => id⟩, fun _ => id, fun _ => rfl⟩, hfiled', hnone⟩
  · -- the wait for its thread
    refine .atomically stable_alone.others (fun _ => (stable_handling_only _).others)
      fun s c r s' hs h => ?_
    split at h <;> cases h
    rename_i hpreparer
    exact ⟨(Untouched.refl s).fileStep, hs.handling (Bool.eq_false_iff.mpr hpreparer)⟩

theorem abandonStart_files :
    FileTriple .owner (Handling .owner) abandonStart fun _ => Handling .owner := by
  have hstable := stable_handling_only .owner
  refine .seq (fun _ => Handling .owner) (fun _ => .refl)
    (action_triple hstable (fun _ => hstable) fun s hs => ?_) fun refused => ?_
  · have hfiled := hs.filed
    exact hs.ownerAct { hfiled with queued := fun entry h => by cases h } rfl rfl rfl rfl
  · refine .bind (fun _ => .refl) (hstable.untouched (always_untouched_refuseEntries refused))
      fun _ => ?_
    refine .bind (fun _ => .refl) (stopPreparer_files.conseq (fun _ hs => hs.alone)
      fun _ _ h => h) fun _ => ?_
    exact hstable.untouched (.modify fun s => .of_eq rfl rfl rfl rfl rfl rfl rfl)

theorem startPreparer_files :
    FileTriple .owner (fun s => Placed s ∧ s.state = .Running) startPreparer
      fun _ s => Placed s ∧ s.state = .Running := by
  have hstable := stable_placed.and (stable_state .Running)
  refine .atomically hstable.others (fun _ => hstable.others) fun s c r s' hs h => ?_
  split at h <;> cases h
  · exact ⟨(Untouched.refl s).fileStep, hs⟩
  · rename_i hready
    obtain ⟨⟨hhandling, hmem⟩, hrunning⟩ := hs
    have hfiled := hhandling.filed
    have hnone := handler_eq_owner.mp hhandling.handler
    have hopened : s.segmentFiles.opened = true := by
      by_contra hclosed
      exact hready (.inr (.inl hclosed))
    have hfiled' : Filed { s with segmentFiles := { s.segmentFiles with
        preparerActive := true
        preparerAlive := true } } :=
      { hfiled with
        active := fun halive => absurd (hnone.symm.trans halive) (by decide)
        closed := fun hclosed => absurd (hopened.symm.trans hclosed) (by decide) }
    refine ⟨⟨fun _ => hfiled', fun h => absurd hhandling.handler.symm h,
      fun _ hwork => absurd (Or.inl hwork.2.1) hready, ⟨fun _ => id, fun _ => id⟩,
      fun _ _ => rfl, fun _ => rfl⟩, ⟨⟨hfiled', hhandling.handler, fun _ => rfl⟩, hmem⟩,
      hrunning⟩

/-- What the owner knows after it tried to create the committer's thread. -/
def Launched : Bool → KeeperWal → Prop
  | true => Begun
  | false => Handling .owner

theorem launch_triple :
    FileTriple .owner (fun s => Placed s ∧ s.state = .Running)
      (.atomically fun s c =>
        if c.fails then some (false, s) else some (true, { s with committerAlive := true }))
      Launched := by
  refine .atomically (stable_placed.and (stable_state .Running)).others (fun started => ?_)
    fun s c started s' hs h => ?_
  · cases started with
    | true => exact stable_begun.others
    | false => exact (stable_handling_only _).others
  · obtain ⟨⟨hhandling, hmem⟩, hrunning⟩ := hs
    have hfiled := hhandling.filed
    split at h <;> cases h
    · exact ⟨(Untouched.refl s).fileStep, hhandling⟩
    · -- the committer finds its segment in the list
      have hfiled' : Filed { s with committerAlive := true } :=
        { hfiled with active := fun _ => ⟨hmem, hhandling.active⟩ }
      refine ⟨⟨fun _ => hfiled', fun h => absurd hhandling.handler.symm h,
        fun _ hwork => ⟨hwork, rfl, rfl, fun _ hn => ⟨hn, rfl⟩⟩,
        ⟨fun _ _ => rfl, fun h => absurd rfl h⟩, fun _ => id, fun _ => rfl⟩, hfiled', ?_⟩
      show s.state ≠ .Created
      rw [hrunning]
      decide

theorem start_files (recovered : RecoveredState) (idOf : Option (RecoveredStory → StoryId)) :
    FileTriple .owner OwnerFiled (start recovered idOf) fun _ => OwnerFiled := by
  have hidle := stable_ownerFiled.others
  -- what the first check finds
  refine .seq (fun created s => OwnerFiled s ∧ (created = true → Handling .owner s))
    (fun _ => .refl) ?_ fun created => ?_
  · refine action_triple stable_ownerFiled (fun created => ?_) fun s hs =>
      ⟨(Untouched.refl s).fileStep, hs, fun h => hs.created (of_decide_eq_true h)⟩
    refine ⟨Rely.stable fun i s t hi h hs => ⟨hs.1.step hi h, fun hcreated => ?_⟩,
      fun s t hs h => ⟨stable_ownerFiled.own s t hs.1 h, fun hcreated => ?_⟩⟩
    · exact ((hs.2 hcreated).step hi h).1
    · exact (hs.2 hcreated).untouched h
  have hfailed : FileTriple .owner (Handling .owner) (pure ErrorCode.CL_ERR_UNKNOWN)
      fun _ => OwnerFiled :=
    .ret (stable_handling_only _).others fun _ hs => hs.ownerFiled
  cases created with
  | false =>
    rw [if_pos (by decide)]
    exact Prog.Triple.conseq (.ret hidle fun _ hs => hs) (fun _ hs => hs.1) fun _ _ h => h
  -- while the log is not started the owner is the one that takes spares
  | true =>
    rw [if_neg (by decide)]
    refine Prog.Triple.conseq ?_ (fun s hs => hs.2 rfl) fun _ _ h => h
    refine .bind (fun _ => .refl) openSegments_files fun r => ?_
    cases r with
    | some err => exact hfailed
    | none =>
      refine .bind (fun _ => .refl) (firstSegment_files recovered.reusableSpare) fun r => ?_
      cases r with
      | error err => exact hfailed.conseq (fun _ hs => hs.1) fun _ _ h => h
      | ok spare =>
        refine .seq (fun _ => Placed) (fun _ => .refl)
          (action_triple (stable_took _ _) (fun _ => stable_placed) fun s hs => ?_) fun _ => ?_
        · obtain ⟨hhandling, hmem⟩ := hs
          have hfiled := hhandling.filed
          have hnone := handler_eq_owner.mp hhandling.handler
          obtain ⟨hstep, hafter⟩ := hhandling.act (t := { s with
              activeSegment := spare.segment
              activeSize := spare.sizeBytes
              activeDataStart := spare.dataOffset
              writeOffset := spare.dataOffset
              namedInActive := ∅
              dropsBySegment := recovered.droppedIn })
            { hfiled with active := fun halive => absurd (hnone.symm.trans halive) (by decide) }
            (fun hwork => ⟨hwork, rfl, rfl, fun _ hn => ⟨hn, rfl⟩⟩) rfl rfl rfl rfl
          exact ⟨hstep, hafter, hmem spare rfl⟩
        refine .bind (fun _ => .refl) (stable_placed.untouched always_untouched_sampleFreeSpace)
          fun _ => ?_
        refine .seq (fun _ s => Placed s ∧ s.state = .Running) (fun _ => .refl)
          (action_triple stable_placed (fun _ => stable_placed.and (stable_state _))
            fun s hs => ?_) fun _ => ?_
        · -- what was recovered is registered, and the log runs
          have huntouched := untouched_registerRecovered s recovered idOf
          obtain ⟨hhandling, hmem⟩ := stable_placed.own s _ hs huntouched
          have hfiled := hhandling.filed
          obtain ⟨hstep, hafter⟩ := hhandling.ownerAct
            (t := { s.registerRecovered recovered idOf with state := .Running })
            { hfiled with } rfl rfl rfl rfl
          exact ⟨huntouched.fileStep.trans hs.1.handler hstep, ⟨hafter, hmem⟩, rfl⟩
        refine .bind (fun _ => .refl) startPreparer_files fun _ => ?_
        refine .bind (fun _ => .refl) launch_triple fun started => ?_
        cases started with
        | true =>
          exact (stable_begun.untouched
            (.modify fun s => .of_eq rfl rfl rfl rfl rfl rfl rfl)).conseq
              (fun _ h => h) fun _ _ h => h.ownerFiled
        | false => exact .bind (fun _ => .refl) abandonStart_files fun _ => hfailed

theorem stop_files : FileTriple .owner OwnerFiled stop fun _ => OwnerFiled := by
  refine .seq (fun _ => Begun) (fun _ => .refl)
    (action_triple stable_ownerFiled (fun _ => stable_begun) fun s hs => ?_) fun stopping => ?_
  · have hfiled := hs.filed
    have hstep : ∀ state, FileStep .owner s { s with state := state } ∧
        Filed { s with state := state } := fun state => by
      have hfiled' : Filed { s with state := state } :=
        { hfiled with }
      exact ⟨.ofOwner (fun _ => hfiled') rfl rfl rfl rfl, hfiled'⟩
    split
    · exact ⟨(hstep .Stopped).1, (hstep .Stopped).2, WalState.noConfusion⟩
    · exact ⟨(hstep .Stopping).1, (hstep .Stopping).2, WalState.noConfusion⟩
    · rename_i hcreated hrunning
      exact ⟨(Untouched.refl s).fileStep, hfiled, hcreated⟩
  · split
    · refine .bind (fun _ => .refl) (stable_begun.untouched (.modify fun s =>
        .of_eq rfl rfl rfl rfl rfl rfl rfl)) fun _ => ?_
      -- the wait for the committer
      refine .seq (fun _ => Alone) (fun _ => .refl) (.atomically stable_begun.others
        (fun _ => stable_alone.others) fun s c r s' hs h => ?_) fun _ => ?_
      · split at h <;> cases h
        rename_i halive
        exact ⟨(Untouched.refl s).fileStep, hs.1, Bool.eq_false_iff.mpr halive⟩
      refine .bind (fun _ => .refl) stopPreparer_files fun _ => ?_
      refine action_triple (stable_handling_only _) (fun _ => stable_ownerFiled) fun s hs => ?_
      have hfiled := hs.filed
      obtain ⟨hstep, hafter⟩ := hs.ownerAct (t := { s with state := .Stopped })
        { hfiled with } rfl rfl rfl rfl
      exact ⟨hstep, hafter.ownerFiled⟩
    · exact .ret stable_begun.others fun _ hs => hs.ownerFiled

/-! ### Runs -/

/-- What holds of the segments while a thread is idle. -/
def IdleFiled : ThreadId → KeeperWal → Prop
  | .owner => OwnerFiled
  | _ => Filed

theorem IdleFiled.filed {i : ThreadId} {s : KeeperWal} (hs : IdleFiled i s) : Filed s := by
  cases i with
  | owner => exact OwnerFiled.filed hs
  | committer => exact hs
  | preparer => exact hs
  | client id => exact hs

/-- The rely and guarantee of every call, for the segments. -/
def fileDiscipline (storyIdOf : Bytes → Bytes → StoryId) :
    Discipline (body storyIdOf) may where
  Guar := FileStep
  Idle := IdleFiled
  idle_stable j i s t hij h hs := by
    cases j with
    | owner => exact hs.step hij h
    | committer => exact h.filed hs
    | preparer => exact h.filed hs
    | client id => exact h.filed hs
  body_safe i call := by
    cases i with
    | owner =>
      refine Prog.Triple.conseq ?_ (fun s hs => hs.2) fun _ _ h => h
      cases call with
      | start recovered idOf =>
        exact .bind (fun _ => .refl) (start_files recovered idOf) fun _ =>
          .ret stable_ownerFiled.others fun _ hs => hs
      | stop => exact stop_files
      | _ => exact .ret stable_ownerFiled.others fun _ hs => hs
    | committer =>
      cases call with
      | commit =>
        refine Prog.Triple.conseq committerTurn_files (fun s hs => ?_) fun _ _ h => h
        obtain ⟨halive, hfiled⟩ := hs
        exact ⟨hfiled, handler_eq_committer.mpr halive, (hfiled.active halive).2⟩
      | _ =>
        exact Prog.Triple.conseq (.ret (stable_filed _).others fun _ hs => hs)
          (fun s hs => hs.2) fun _ _ h => h
    | preparer =>
      cases call with
      | prepare =>
        refine Prog.Triple.conseq preparerTurn_triple (fun s hs => ?_) fun _ _ h => h
        exact ⟨hs.2, hs.1⟩
      | _ =>
        exact Prog.Triple.conseq (.ret (stable_filed _).others fun _ hs => hs)
          (fun s hs => hs.2) fun _ _ h => h
    | client id =>
      exact ((stable_filed (.client id)).untouched
        (always_untouched_client storyIdOf id call)).conseq (fun _ hs => hs.2) fun _ _ h => h

theorem Constructed.filed {s : KeeperWal} (h : Constructed s) : Filed s := by
  rw [Constructed] at h
  rw [h]
  exact ⟨fun n h => (by cases h), List.nodup_nil, fun spare h => (by cases h),
    fun h => (by cases h), fun _ => ⟨rfl, rfl⟩, fun entry h => (by cases h),
    fun segment group image h => (by cases h)⟩

theorem Constructed.idleFiled {s : KeeperWal} (h : Constructed s) (i : ThreadId) :
    IdleFiled i s := by
  have hfiled := h.filed
  cases i with
  | owner =>
    refine ⟨hfiled, fun _ => ⟨hfiled, ?_, ?_⟩⟩
    · rw [h]
      rfl
    · rw [h]
      exact fun h => (by cases h)
  | committer => exact hfiled
  | preparer => exact hfiled
  | client id => exact hfiled

/-- **Every synced range holds the E records of its group and no others.** -/
theorem filed_of_reachable {storyIdOf : Bytes → Bytes → StoryId}
    {pool : Pool KeeperWal Choice ThreadId Call} (h : (walSystem storyIdOf).Reachable pool) :
    Filed pool.shared :=
  Discipline.invariant_of_reachable (D := fileDiscipline storyIdOf)
    (fun i _ hs => hs.idleFiled i) Filed (fun _ hs => hs.filed) (fun _ _ _ hguar => hguar.filed) h

/-- The runs of a keeper are runs of its log. -/
theorem reachable_of_writer {storyIdOf : Bytes → Bytes → StoryId}
    {pool : Pool KeeperWal Choice ThreadId Call} (h : (writerSystem storyIdOf).Reachable pool) :
    (walSystem storyIdOf).Reachable pool := by
  refine Pool.reachable_mono (fun s i call hmay => ?_) h
  cases i <;> cases call <;> first | exact hmay | cases hmay

end KeeperWal

end ChronoLog
