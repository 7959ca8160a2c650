import ChronoLog.Wal.Identity

/-!
# The committer and the owner of a log

What the committer knows of its group, from the taking of it to the answers, and
what the owner knows while it starts and stops the log.

## Main definitions

* `Committing` — what the committer knows between its actions.
* `Starting`, `OwnerIdle` — what the owner knows.

## Main results

* `committerTurn_triple`, `start_triple`, `stop_triple` — the turns of the
  committer and the calls of the owner keep the invariant of `Identity.lean`.
-/

namespace ChronoLog

namespace KeeperWal

open Concurrent (Prog Rely Pool Discipline)

/-! ### The committer -/

/-- The status is the right answer to a record: success where it was synced. -/
structure RightStatus (status : ErrorCode) (trace : List Observation) (e : QueuedEvent) :
    Prop where
  synced : status = .CL_SUCCESS → e ∈ syncedRecords trace
  unsynced : status ≠ .CL_SUCCESS →
    e.completion ∉ (syncedRecords trace).map QueuedEvent.completion

theorem RightStatus.iff {status : ErrorCode} {trace : List Observation} {e : QueuedEvent}
    (h : RightStatus status trace e) : status = .CL_SUCCESS ↔ e ∈ syncedRecords trace := by
  refine ⟨h.synced, fun hmem => ?_⟩
  by_contra hne
  exact h.unsynced hne (List.mem_map_of_mem hmem)

theorem RightStatus.congr {status : ErrorCode} {trace trace' : List Observation}
    {e : QueuedEvent} (h : RightStatus status trace e)
    (htrace : syncedRecords trace' = syncedRecords trace) : RightStatus status trace' e :=
  ⟨fun hs => htrace ▸ h.synced hs, fun hs => htrace ▸ h.unsynced hs⟩

/-- What the committer knows: the lists of its group, and that its records were synced
just where the group is to be answered with success. -/
structure Committing (lists : List Queued → List Queued → Prop) (status : ErrorCode)
    (s : KeeperWal) : Prop where
  consistent : Consistent s
  alive : s.committerAlive
  lists : lists s.group s.unregistered
  synced : ∀ e ∈ eventsOf s.group, RightStatus status s.trace e

variable {lists : List Queued → List Queued → Prop} {status : ErrorCode}

theorem Committing.stable :
    ∀ s t, Committing lists status s → Rely Step .committer s t → Committing lists status t := by
  refine Rely.stable fun i s t hi hstep hs => ?_
  obtain ⟨hgroup, hunregistered⟩ := hstep.group hi
  refine ⟨hstep.consistent hs.consistent, hstep.alive.2.1 hi hs.alive, ?_, ?_⟩
  · rw [hgroup, hunregistered]
    exact hs.lists
  · rw [hgroup]
    exact fun e he => (hs.synced e he).congr (hstep.synced hi)

/-- A triple of the committer. -/
abbrev CommitterTriple {α : Type} (Pre : KeeperWal → Prop) (p : WalProg α)
    (Post : α → KeeperWal → Prop) : Prop :=
  Prog.Triple (Rely Step .committer) (Step .committer) Pre p Post

/-- A quiet program of the committer changes nothing it knows. -/
theorem Committing.quiet {α : Type} {p : WalProg α} (h : p.Always Quiet) :
    CommitterTriple (Committing lists status) p fun _ => Committing lists status := by
  refine .of_always h Committing.stable fun s t hs hq => ⟨hq.step fun _ => hs.alive, ?_⟩
  refine ⟨hq.consistent hs.consistent, hq.committerAlive ▸ hs.alive, ?_, ?_⟩
  · rw [hq.group, hq.unregistered]
    exact hs.lists
  · rw [hq.group]
    exact fun e he => (hs.synced e he).congr hq.syncedRecords

theorem Committing.mono {lists' : List Queued → List Queued → Prop} {status' : ErrorCode}
    {s : KeeperWal} (h : Committing lists status s)
    (hlists : ∀ group unregistered, lists group unregistered → lists' group unregistered)
    (hstatus : status' = .CL_SUCCESS ↔ status = .CL_SUCCESS) : Committing lists' status' s :=
  ⟨h.consistent, h.alive, hlists _ _ h.lists, fun e he =>
    ⟨fun hs => (h.synced e he).synced (hstatus.mp hs),
      fun hs => (h.synced e he).unsynced fun hs' => hs (hstatus.mpr hs')⟩⟩

/-- What the committer holds between its groups. -/
def NoGroup (group unregistered : List Queued) : Prop := group = [] ∧ unregistered = []

/-- An action of the committer. -/
theorem Step.ofCommitter {s t : KeeperWal} (halive : s.committerAlive)
    (hconsistent : Consistent t) (htrace : ∃ newer, t.trace = newer ++ s.trace ∧
      ∀ o ∈ newer, o.client? = none) (hrefused : t.refused = s.refused)
    (hstate : t.state = s.state) (hqueue : ∃ dropped, s.queue = dropped ++ t.queue)
    (hends : t.committerAlive = false → s.queue = [] ∧ s.state ≠ .Running) :
    Step .committer s t where
  synced h := absurd rfl h
  consistent _ := hconsistent
  grows := by
    obtain ⟨newer, hnewer, hclient⟩ := htrace
    refine ⟨newer, hnewer, fun o ho client h => ?_, fun client identity outcome h => ?_⟩
    · rw [hclient o ho] at h
      cases h
    · cases hclient _ h
  group h := absurd rfl h
  refused _ := ⟨hrefused, hstate⟩
  alive := ⟨fun _ => halive, fun h => absurd rfl h, fun _ _ => halive⟩
  queue := by
    obtain ⟨dropped, hdropped⟩ := hqueue
    exact ⟨dropped, t.queue, [], hdropped, (List.append_nil _).symm, fun e he => by cases he⟩
  refuses entry hentry := .inl (hrefused ▸ hentry)
  ends _ := hends

/-- An action of the committer that takes nothing from the queue and goes on. -/
theorem Step.ofCommitting {s t : KeeperWal} (halive : s.committerAlive)
    (hconsistent : Consistent t) (htrace : ∃ newer, t.trace = newer ++ s.trace ∧
      ∀ o ∈ newer, o.client? = none) (hrefused : t.refused = s.refused)
    (hstate : t.state = s.state) (hqueue : t.queue = s.queue)
    (halive' : t.committerAlive = s.committerAlive) : Step .committer s t :=
  .ofCommitter halive hconsistent htrace hrefused hstate ⟨[], hqueue.symm⟩ fun h => by
    rw [halive', halive] at h
    cases h

theorem registerGroup_triple (segment fuel : ℕ) (entries : List Queued) :
    CommitterTriple
      (Committing (fun group unregistered => group = entries ∧ unregistered.length ≤ fuel) status)
      (registerGroup status segment fuel)
      fun _ => Committing (fun group unregistered => group = entries ∧ unregistered = [])
        status := by
  induction fuel with
  | zero =>
    refine .ret Committing.stable fun s hs => hs.mono (fun group unregistered h => ?_) .rfl
    exact ⟨h.1, List.length_eq_zero_iff.mp (Nat.le_zero.mp h.2)⟩
  | succ fuel ih =>
    -- a hold registers at least one record, or there was none
    refine .seq (fun r : Option StoryId × Bool => Committing (fun group unregistered =>
        group = entries ∧ unregistered.length ≤ fuel ∧ (r.2 = true → unregistered = [])) status)
      (fun _ => .refl)
      (.modify Committing.stable (fun _ => Committing.stable) fun s hs => ?_) fun r => ?_
    · obtain ⟨h₁, h₂, h₃, identities, h₄⟩ := Consistent.registerBatch (s := s) segment kLockBatch
        s.unregistered hs.consistent (fun h e he => by
          refine .inr (List.mem_map_of_mem ((hs.synced e ?_).synced h))
          rw [mem_eventsOf] at he ⊢
          exact hs.consistent.held _ he)
      refine ⟨.ofCommitting hs.alive h₁ ⟨[], h₄.trace, by simp⟩ h₄.refused h₄.state h₄.queue
          h₄.committerAlive, h₁,
        h₄.committerAlive.trans hs.alive, ⟨h₄.group.trans hs.lists.1, ?_, List.isEmpty_iff.mp⟩,
        fun e he => ?_⟩
      · show (KeeperWal.registerBatch status segment kLockBatch s.unregistered s).2.1.length ≤ fuel
        by_cases hempty : s.unregistered = []
        · have hlength : s.unregistered.length = 0 := by rw [hempty, List.length_nil]
          exact Nat.le_trans (hlength ▸ h₂.length_le) (Nat.zero_le _)
        · exact Nat.lt_succ_iff.mp (Nat.lt_of_lt_of_le (h₃ (by decide) hempty) hs.lists.2)
      · show RightStatus status
          (KeeperWal.registerBatch status segment kLockBatch s.unregistered s).2.2.trace e
        rw [h₄.trace]
        refine hs.synced e ?_
        rw [← h₄.group]
        exact he
    · obtain ⟨dropped, finished⟩ := r
      simp only
      have hrest : CommitterTriple (Committing (fun group unregistered =>
          group = entries ∧ unregistered.length ≤ fuel ∧ (finished = true → unregistered = []))
          status)
          (if finished = true then pure () else registerGroup status segment fuel)
          fun _ => Committing (fun group unregistered => group = entries ∧ unregistered = [])
            status := by
        split
        · rename_i hfinished
          exact .ret Committing.stable fun s hs =>
            hs.mono (fun _ _ h => ⟨h.1, h.2.2 hfinished⟩) .rfl
        · exact ih.conseq (fun s hs => hs.mono (fun _ _ h => ⟨h.1, h.2.1⟩) .rfl) fun _ _ h => h
      cases dropped with
      | none => exact hrest
      | some storyId =>
        exact .bind (fun _ => .refl) (Committing.quiet (always_quiet_dropStoryCopies storyId))
          fun _ => hrest

theorem answerEntries_triple (entries : List Queued) :
    CommitterTriple
      (Committing (fun group unregistered => group = entries ∧ unregistered = []) status)
      (answerEntries status entries) fun _ => Committing NoGroup status := by
  induction entries with
  | nil => exact .ret Committing.stable fun s hs => hs
  | cons entry entries ih =>
    refine .bind (fun _ => .refl)
      (.modify Committing.stable (fun _ => Committing.stable) fun s hs => ?_) fun _ => ih
    have hanswer := hs.consistent.answerEntry hs.lists.1 hs.lists.2
      fun e he => (hs.synced e he).iff
    refine ⟨.ofCommitting hs.alive hanswer ?_ ?_ ?_ ?_ ?_, hanswer, ?_, ?_, ?_⟩
    · cases entry with
      | drop storyId => exact ⟨[], rfl, by simp⟩
      | event e => exact ⟨[_], rfl, by simp [Observation.client?]⟩
    · cases entry <;> rfl
    · cases entry <;> rfl
    · cases entry <;> rfl
    · cases entry <;> rfl
    · cases entry <;> exact hs.alive
    · refine ⟨?_, ?_⟩
      · show s.group.tail = entries
        rw [hs.lists.1, List.tail_cons]
      · cases entry <;> exact hs.lists.2
    · intro e he
      have he' : e ∈ eventsOf s.group := by
        rw [mem_eventsOf] at he ⊢
        exact List.mem_of_mem_tail he
      refine (hs.synced e he').congr ?_
      cases entry <;> rfl

theorem finishGroup_triple (entries : List Queued) (segment : ℕ) :
    CommitterTriple
      (Committing (fun group unregistered => group = entries ∧ unregistered = entries) status)
      (finishGroup entries status segment) fun _ => Committing NoGroup status := by
  refine .bind (fun _ => .refl) ?_ fun _ => answerEntries_triple entries
  refine (registerGroup_triple segment entries.length entries).conseq ?_ fun _ _ h => h
  exact fun s hs => hs.mono (fun _ _ h => ⟨h.1, by rw [h.2]⟩) .rfl

/-- The committer with a group in hand that is not synced. -/
abbrev Holding (entries : List Queued) : KeeperWal → Prop :=
  Committing (fun group unregistered => group = entries ∧ unregistered = entries) .CL_ERR_UNKNOWN

/-- The committer between its groups. -/
abbrev BetweenGroups : KeeperWal → Prop := Committing NoGroup .CL_ERR_UNKNOWN

theorem finishGroup_fail (entries : List Queued) (status : ErrorCode) (segment : ℕ)
    (hstatus : status ≠ .CL_SUCCESS) :
    CommitterTriple (Holding entries) (finishGroup entries status segment)
      fun _ => BetweenGroups :=
  (finishGroup_triple entries segment).conseq
    (fun s hs => hs.mono (fun _ _ h => h) (iff_of_false hstatus (by decide)))
    (fun _ s hs => hs.mono (fun _ _ h => h) (iff_of_false (by decide) hstatus))

theorem failGroup_triple (entries : List Queued) (written : ℕ) :
    CommitterTriple (Holding entries) (failGroup entries written) fun _ => BetweenGroups := by
  have hlatch : (Prog.modify fun s : KeeperWal => (s.writeOffset, { s with failed := true }) :
      WalProg ℕ).Always Quiet :=
    .modify fun s => .of_eq rfl rfl rfl rfl rfl rfl rfl rfl rfl rfl rfl
  refine .bind (fun _ => .refl) (Committing.quiet hlatch) fun offset => ?_
  refine .bind (fun _ => .refl) (Committing.quiet (always_quiet_recordUnloggedDrops entries))
    fun _ => ?_
  split
  · exact finishGroup_fail entries _ 0 (by decide)
  · refine .bind (fun _ => .refl) (Committing.quiet (always_quiet_eraseRange offset written))
      fun r => ?_
    cases r with
    | none => exact finishGroup_fail entries _ 0 (by decide)
    | some err => exact finishGroup_fail entries _ 0 (by decide)

/-- The committer after the sync of a group: it holds the group, whose records are
durable if the sync has not failed. -/
def AfterSync (entries : List Queued) : Option Errno → KeeperWal → Prop
  | some _ => Holding entries
  | none => Committing (fun group unregistered => group = entries ∧ unregistered = entries)
      .CL_SUCCESS

theorem writeGroup_triple (entries : List Queued) :
    CommitterTriple (Holding entries) (writeGroup entries) fun _ => BetweenGroups := by
  have hread : (Prog.modify fun s : KeeperWal =>
      ((s.activeSegment, s.writeOffset, s.namedInActive), s) : WalProg _).Always Quiet :=
    .modify fun s => .refl s
  refine .bind (fun _ => .refl) (Committing.quiet hread) fun r => ?_
  obtain ⟨active, offset, named⟩ := r
  simp only
  refine .bind (fun _ => .refl) (Committing.quiet (always_quiet_writeAt _ _ _)) fun r => ?_
  cases r with
  | some err => exact failGroup_triple entries _
  | none =>
    -- the sync makes the records of the group durable
    refine .seq (AfterSync entries) (fun _ => .refl)
      (.atomically Committing.stable (fun r => ?_) fun s c r s' hs h => ?_) fun r => ?_
    · cases r <;> exact Committing.stable
    · split at h <;> cases h
      · exact ⟨(Quiet.refl s).step fun _ => hs.alive, hs⟩
      · have hgroup : s.group = entries := hs.lists.1
        have hunsynced : ∀ e ∈ eventsOf s.group,
            e.completion ∉ (syncedRecords s.trace).map QueuedEvent.completion :=
          fun e he => (hs.synced e he).unsynced (by decide)
        have hconsistent := (hs.consistent.synced active _ hunsynced).congr
          (t := { s with
            disk := s.disk.syncData active
            writeOffset := s.writeOffset + groupBytes entries named
            namedInActive := (groupFrames named entries).2
            trace := .synced active entries
              ((s.disk.syncData active).readRange active offset (groupBytes entries named)) ::
                s.trace })
          rfl rfl rfl rfl rfl hs.consistent.held rfl hs.consistent.drained rfl
          (by rw [hgroup]; rfl)
        refine ⟨.ofCommitting hs.alive hconsistent ⟨[_], rfl, by simp [Observation.client?]⟩
          rfl rfl rfl rfl, hconsistent, hs.alive, hs.lists, fun e he => ⟨fun _ => ?_, absurd rfl⟩⟩
        rw [show s.group = entries from hs.lists.1] at he
        exact List.mem_append_left _ he
    · cases r with
      | some err => exact failGroup_triple entries _
      | none =>
        exact (finishGroup_triple entries active).conseq (fun _ h => h) fun _ s hs =>
          ⟨hs.consistent, hs.alive, hs.lists, fun e he => by
            rw [hs.lists.1] at he
            cases he⟩

theorem commitGroup_triple (entries : List Queued) :
    CommitterTriple (Holding entries) (commitGroup entries) fun _ => BetweenGroups := by
  refine .bind (fun _ => .refl) (Committing.quiet (.modify fun s => .refl s)) fun r => ?_
  cases r with
  | none => exact writeGroup_triple entries
  | some needed =>
    refine .bind (fun _ => .refl) (Committing.quiet (always_quiet_rotate needed)) fun r => ?_
    cases r with
    | some err => exact failGroup_triple entries 0
    | none => exact writeGroup_triple entries

/-- What holds of the state while the committer is idle. -/
structure CommitterIdle (s : KeeperWal) : Prop where
  consistent : Consistent s
  lists : NoGroup s.group s.unregistered

theorem CommitterIdle.step {i : ThreadId} {s t : KeeperWal} (hi : i ≠ .committer)
    (hstep : Step i s t) (hs : CommitterIdle s) : CommitterIdle t := by
  obtain ⟨hgroup, hunregistered⟩ := hstep.group hi
  exact ⟨hstep.consistent hs.consistent, hgroup.trans hs.lists.1,
    hunregistered.trans hs.lists.2⟩

theorem CommitterIdle.stable :
    ∀ s t, CommitterIdle s → Rely Step .committer s t → CommitterIdle t :=
  Rely.stable fun _ _ _ hi hstep => CommitterIdle.step hi hstep

theorem Committing.idle {s : KeeperWal} (h : BetweenGroups s) : CommitterIdle s :=
  ⟨h.consistent, h.lists⟩

/-- What the committer knows of the work it found. -/
def WorkFound : CommitterWork → KeeperWal → Prop
  | .exit => CommitterIdle
  | .idle => BetweenGroups
  | .group entries _ => Holding entries

theorem findWork_triple : CommitterTriple BetweenGroups findWork WorkFound := by
  refine .modify Committing.stable (fun work => ?_) fun s hs => ?_
  · cases work with
    | exit => exact CommitterIdle.stable
    | idle => exact Committing.stable
    | group entries latched => exact Committing.stable
  · simp only
    split
    · rename_i hempty
      have hqueue : s.queue = [] := List.isEmpty_iff.mp hempty
      split
      · rename_i hstopped
        have hconsistent := hs.consistent.congr (t := { s with committerAlive := false })
          rfl rfl rfl rfl rfl hs.consistent.held rfl (absurd hqueue) rfl rfl
        exact ⟨.ofCommitter hs.alive hconsistent ⟨[], rfl, by simp⟩ rfl rfl ⟨[], rfl⟩
          fun _ => ⟨hqueue, hstopped⟩, ⟨hconsistent, hs.lists⟩⟩
      · exact ⟨(Quiet.refl s).step fun _ => hs.alive, hs⟩
    · have hsplit := (takeGroup_append s.conf.groupCommitMaxBytes 0 [] s.queue).trans
        (List.nil_append _)
      have hconsistent := hs.consistent.takeGroup hs.lists.1 hs.lists.2 hsplit
        (s.queuedBytes - (((takeGroup s.conf.groupCommitMaxBytes 0 [] s.queue).1).map
          Queued.bytes).sum)
      refine ⟨.ofCommitter hs.alive hconsistent ⟨[], rfl, by simp⟩ rfl rfl ⟨_, hsplit.symm⟩
        fun h => ?_, ⟨hconsistent, hs.alive, ⟨rfl, rfl⟩,
          fun e he => ⟨(fun h => by cases h), fun _ => ?_⟩⟩⟩
      · have halive := hs.alive
        rw [show s.committerAlive = false from h] at halive
        cases halive
      · -- what is still queued was not synced
        refine hs.consistent.unsynced e ?_
        rw [mem_eventsOf] at he ⊢
        refine List.mem_append_right _ ?_
        rw [← hsplit]
        exact List.mem_append_left _ he

theorem committerTurn_triple :
    CommitterTriple BetweenGroups committerTurn fun _ => CommitterIdle := by
  refine .bind (fun _ => .refl) findWork_triple fun work => ?_
  cases work with
  | exit => exact .ret CommitterIdle.stable fun _ h => h
  | idle =>
    exact (Committing.quiet always_quiet_periodicWork).conseq (fun _ h => h)
      fun _ s hs => hs.idle
  | group entries latched =>
    -- whatever became of the group, the turn goes on to the segments
    have hrest : CommitterTriple BetweenGroups (do
        deleteReleasedSegments
        let due ← Prog.atomically fun (s : KeeperWal) (c : Choice) => some (c.flag, s)
        if due = true then periodicWork else pure ()) fun _ => CommitterIdle := by
      refine .bind (fun _ => .refl) (Committing.quiet always_quiet_deleteReleasedSegments)
        fun _ => ?_
      refine .bind (fun _ => .refl) (Committing.quiet (.atomically fun s c b s' h => ?_))
        fun due => ?_
      · cases h
        exact .refl s
      · split
        · exact (Committing.quiet always_quiet_periodicWork).conseq (fun _ h => h)
            fun _ s hs => hs.idle
        · exact .ret Committing.stable fun s hs => hs.idle
    simp only
    split
    · refine .bind (fun _ => .refl)
        (Committing.quiet (always_quiet_recordUnloggedDrops entries)) fun _ => ?_
      exact .bind (fun _ => .refl) (finishGroup_fail entries _ 0 (by decide)) fun _ => hrest
    · exact .bind (fun _ => .refl) (commitGroup_triple entries) fun _ => hrest

/-! ### The owner -/

/-- What the owner knows while no committer runs. -/
structure Starting (refused : List Queued) (state : WalState) (s : KeeperWal) : Prop where
  consistent : Consistent s
  refused : s.refused = refused
  state : s.state = state
  stopped : s.committerAlive = false
  lists : NoGroup s.group s.unregistered

/-- What holds of the state while the owner is idle: a log that is not started has no
committer. -/
structure OwnerIdle (s : KeeperWal) : Prop where
  consistent : Consistent s
  refused : s.refused = []
  created : s.state = .Created → s.committerAlive = false ∧ NoGroup s.group s.unregistered
  running : s.state = .Running → s.committerAlive

/-- A triple of the owner. -/
abbrev OwnerTriple {α : Type} (Pre : KeeperWal → Prop) (p : WalProg α)
    (Post : α → KeeperWal → Prop) : Prop :=
  Prog.Triple (Rely Step .owner) (Step .owner) Pre p Post

/-- Without a committer nobody has a group. -/
theorem Step.noGroup {i : ThreadId} {s t : KeeperWal} (h : Step i s t) (hi : i ≠ .owner)
    (hs : s.committerAlive = false ∧ NoGroup s.group s.unregistered) :
    t.committerAlive = false ∧ NoGroup t.group t.unregistered := by
  have hcommitter : i ≠ .committer := by
    intro heq
    rw [h.alive.1 heq] at hs
    cases hs.1
  obtain ⟨hgroup, hunregistered⟩ := h.group hcommitter
  refine ⟨?_, hgroup.trans hs.2.1, hunregistered.trans hs.2.2⟩
  cases ht : t.committerAlive with
  | false => rfl
  | true =>
    rw [h.alive.2.2 hi ht] at hs
    cases hs.1

theorem Starting.stable {refused : List Queued} {state : WalState} :
    ∀ s t, Starting refused state s → Rely Step .owner s t → Starting refused state t := by
  refine Rely.stable fun i s t hi hstep hs => ?_
  obtain ⟨hrefused, hstate⟩ := hstep.refused hi
  obtain ⟨hstopped, hlists⟩ := hstep.noGroup hi ⟨hs.stopped, hs.lists⟩
  exact ⟨hstep.consistent hs.consistent, hrefused.trans hs.refused, hstate.trans hs.state,
    hstopped, hlists⟩

theorem OwnerIdle.step {i : ThreadId} {s t : KeeperWal} (hi : i ≠ .owner) (hstep : Step i s t)
    (hs : OwnerIdle s) : OwnerIdle t := by
  obtain ⟨hrefused, hstate⟩ := hstep.refused hi
  refine ⟨hstep.consistent hs.consistent, hrefused.trans hs.refused,
    fun h => hstep.noGroup hi (hs.created (hstate ▸ h)), fun h => ?_⟩
  have hrunning : s.state = .Running := hstate ▸ h
  rcases ht : t.committerAlive with - | -
  · exact absurd hrunning (hstep.ends (hs.running hrunning) ht).2
  · rfl

theorem OwnerIdle.stable : ∀ s t, OwnerIdle s → Rely Step .owner s t → OwnerIdle t :=
  Rely.stable fun _ _ _ hi hstep => OwnerIdle.step hi hstep

theorem Starting.idle {s : KeeperWal} (h : Starting [] .Created s) : OwnerIdle s := by
  refine ⟨h.consistent, h.refused, fun _ => ⟨h.stopped, h.lists⟩, fun hrunning => ?_⟩
  rw [h.state] at hrunning
  cases hrunning

/-- An action of the owner. -/
theorem Step.ofOwner {s t : KeeperWal} (hconsistent : Consistent t)
    (htrace : ∃ newer, t.trace = newer ++ s.trace ∧
      ∀ o ∈ newer, o.client? = none ∧ o.recordsSynced = [])
    (hgroup : t.group = s.group) (hunregistered : t.unregistered = s.unregistered)
    (halive : s.committerAlive → t.committerAlive)
    (hqueue : ∃ dropped, s.queue = dropped ++ t.queue)
    (hrefused : ∀ entry ∈ t.refused, entry ∈ s.refused ∨ entry ∈ s.queue) :
    Step .owner s t where
  consistent _ := hconsistent
  synced _ := by
    obtain ⟨newer, hnewer, hclient⟩ := htrace
    rw [hnewer]
    exact syncedRecords_append_of_nil (fun o ho => (hclient o ho).2) s.trace
  grows := by
    obtain ⟨newer, hnewer, hclient⟩ := htrace
    refine ⟨newer, hnewer, fun o ho client h => ?_, fun client identity outcome h => ?_⟩
    · rw [(hclient o ho).1] at h
      cases h
    · cases (hclient _ h).1
  group _ := ⟨hgroup, hunregistered⟩
  refused h := absurd rfl h
  alive := ⟨(fun h => by cases h), fun _ => halive, fun h => absurd rfl h⟩
  queue := by
    obtain ⟨dropped, hdropped⟩ := hqueue
    exact ⟨dropped, t.queue, [], hdropped, (List.append_nil _).symm, fun e he => by cases he⟩
  refuses := hrefused
  ends ha ht := by
    rw [halive ha] at ht
    cases ht

/-- A quiet program of the owner changes nothing it knows while it starts the log. -/
theorem Starting.quiet {α : Type} {p : WalProg α} {refused : List Queued} {state : WalState}
    (h : p.Always Quiet) :
    OwnerTriple (Starting refused state) p fun _ => Starting refused state := by
  refine .of_always h Starting.stable fun s t hs hq => ⟨hq.step (fun h => by cases h), ?_⟩
  refine ⟨hq.consistent hs.consistent, hq.refused.trans hs.refused, hq.state.trans hs.state,
    hq.committerAlive.trans hs.stopped, ?_⟩
  rw [hq.group, hq.unregistered]
  exact hs.lists

/-- Nor afterwards. -/
theorem OwnerIdle.quiet {α : Type} {p : WalProg α} (h : p.Always Quiet) :
    OwnerTriple OwnerIdle p fun _ => OwnerIdle := by
  refine .of_always h OwnerIdle.stable fun s t hs hq => ⟨hq.step (fun h => by cases h), ?_⟩
  refine ⟨hq.consistent hs.consistent, hq.refused.trans hs.refused, fun hcreated => ?_,
    fun hrunning => ?_⟩
  · rw [hq.committerAlive, hq.group, hq.unregistered]
    exact hs.created (hq.state ▸ hcreated)
  · rw [hq.committerAlive]
    exact hs.running (hq.state ▸ hrunning)

theorem refuseEntries_triple (entries : List Queued) {state : WalState} :
    OwnerTriple (Starting entries state) (refuseEntries entries)
      fun _ => Starting [] state := by
  induction entries with
  | nil => exact .ret Starting.stable fun s hs => hs
  | cons entry entries ih =>
    refine .bind (fun _ => .refl)
      (.modify Starting.stable (fun _ => Starting.stable) fun s hs => ?_) fun _ => ih
    have hrefuse := hs.consistent.refuseEntry hs.refused
    refine ⟨.ofOwner hrefuse ?_ ?_ ?_ ?_ ?_ ?_, hrefuse, ?_, ?_, ?_, ?_⟩
    · cases entry with
      | drop storyId => exact ⟨[], rfl, by simp⟩
      | event e => exact ⟨[_], rfl, by simp [Observation.client?, Observation.recordsSynced]⟩
    · cases entry <;> rfl
    · cases entry <;> rfl
    · cases entry <;> exact id
    · cases entry <;> exact ⟨[], rfl⟩
    · exact fun entry' hentry' => .inl (List.mem_of_mem_tail hentry')
    · show s.refused.tail = entries
      rw [hs.refused, List.tail_cons]
    · cases entry <;> exact hs.state
    · cases entry <;> exact hs.stopped
    · cases entry <;> exact hs.lists

theorem abandonStart_triple {state : WalState} :
    OwnerTriple (Starting [] state) abandonStart fun _ => OwnerIdle := by
  refine .seq (fun refused : List Queued => Starting refused .Created) (fun _ => .refl)
    (.modify Starting.stable (fun _ => Starting.stable) fun s hs => ?_) fun refused => ?_
  · have habandon := hs.consistent.abandon hs.lists.1 hs.lists.2 hs.refused
    exact ⟨.ofOwner habandon ⟨[], rfl, by simp⟩ rfl rfl id ⟨s.queue, (List.append_nil _).symm⟩
        fun entry hentry => .inr hentry,
      ⟨habandon, rfl, rfl, hs.stopped, hs.lists⟩⟩
  · refine .bind (fun _ => .refl) (refuseEntries_triple refused) fun _ => ?_
    refine .bind (fun _ => .refl) (Starting.quiet always_quiet_stopPreparer) fun _ => ?_
    have hclear : (Prog.modify fun s : KeeperWal =>
        ((), { s with namedInActive := ∅, dropsBySegment := ∅ }) : WalProg Unit).Always Quiet :=
      .modify fun s => .of_eq rfl rfl rfl rfl rfl rfl rfl rfl rfl rfl rfl
    exact (Starting.quiet hclear).conseq (fun _ h => h) fun _ s hs => hs.idle

theorem firstSegment_quiet (reusableSpare : Option ℕ) :
    (firstSegment reusableSpare).Always Quiet := by
  refine .bind (.modify fun s => .refl s) fun segmentBytes => ?_
  cases reusableSpare with
  | none => exact always_quiet_takeSpare _
  | some segment =>
    refine .bind (always_quiet_adoptExisting segment) fun r => ?_
    cases r with
    | ok spare => trivial
    | error err => exact always_quiet_takeSpare _

theorem start_triple (recovered : RecoveredState) (idOf : Option (RecoveredStory → StoryId)) :
    OwnerTriple OwnerIdle (start recovered idOf) fun _ => OwnerIdle := by
  refine .seq (fun created s => OwnerIdle s ∧ (created = true → s.state = .Created))
    (fun _ => .refl) (.modify OwnerIdle.stable (fun created => ?_) fun s hs => ?_)
    fun created => ?_
  · refine Rely.stable fun i s t hi hstep hs => ⟨hs.1.step hi hstep, fun h => ?_⟩
    exact (hstep.refused hi).2.trans (hs.2 h)
  · exact ⟨(Quiet.refl s).step (fun h => by cases h), hs, of_decide_eq_true⟩
  split
  · rename_i hcreated
    exact .ret (Rely.stable fun i s t hi hstep hs =>
      ⟨hs.1.step hi hstep, fun h => (hstep.refused hi).2.trans (hs.2 h)⟩) fun s hs => hs.1
  · rename_i hcreated
    have hstarting : ∀ s, (OwnerIdle s ∧ (created = true → s.state = .Created)) →
        Starting [] .Created s := by
      intro s hs
      have hstate := hs.2 (by simpa using hcreated)
      exact ⟨hs.1.consistent, hs.1.refused, hstate, (hs.1.created hstate).1,
        (hs.1.created hstate).2⟩
    refine .bind (fun _ => .refl)
      ((Starting.quiet always_quiet_openSegments).conseq hstarting fun _ _ h => h) fun r => ?_
    cases r with
    | some err => exact .ret Starting.stable fun s hs => hs.idle
    | none =>
      refine .bind (fun _ => .refl) (Starting.quiet (firstSegment_quiet _)) fun r => ?_
      cases r with
      | error err => exact .ret Starting.stable fun s hs => hs.idle
      | ok spare =>
        refine .bind (fun _ => .refl) (Starting.quiet (.modify fun s => ?_)) fun _ => ?_
        · exact .of_eq rfl rfl rfl rfl rfl rfl rfl rfl rfl rfl rfl
        refine .bind (fun _ => .refl) (Starting.quiet always_quiet_sampleFreeSpace) fun _ => ?_
        refine .seq (fun _ => Starting [] .Running) (fun _ => .refl)
          (.modify Starting.stable (fun _ => Starting.stable) fun s hs => ?_) fun _ => ?_
        · have hrecovers := s.recovers_registerRecovered recovered idOf
          have hconsistent := (hrecovers.consistent hs.consistent).congr
            (t := { s.registerRecovered recovered idOf with state := .Running })
            rfl rfl rfl rfl rfl (hrecovers.consistent hs.consistent).held rfl (fun _ => .inl rfl)
            rfl rfl
          refine ⟨.ofOwner hconsistent ?_ hrecovers.group hrecovers.unregistered ?_
              ⟨[], hrecovers.queue.symm⟩ fun entry hentry => .inl (hrecovers.refused ▸ hentry),
            hconsistent,
            hrecovers.refused.trans hs.refused, rfl, hrecovers.committerAlive.trans hs.stopped,
            hrecovers.group.trans hs.lists.1, hrecovers.unregistered.trans hs.lists.2⟩
          · obtain ⟨newer, hnewer, hrecovered⟩ := hrecovers.trace
            refine ⟨newer, hnewer, fun o ho => ?_⟩
            obtain ⟨identity, rfl⟩ := hrecovered o ho
            exact ⟨rfl, rfl⟩
          · intro h
            rw [hs.stopped] at h
            cases h
        refine .bind (fun _ => .refl) (Starting.quiet always_quiet_startPreparer) fun _ => ?_
        refine .seq (fun started : Bool => if started then OwnerIdle else Starting [] .Running)
          (fun _ => .refl) (.atomically Starting.stable (fun started => ?_)
            fun s c started s' hs h => ?_) fun started => ?_
        · cases started
          · exact Starting.stable
          · exact OwnerIdle.stable
        · split at h <;> cases h
          · exact ⟨(Quiet.refl s).step (fun h => by cases h), hs⟩
          · have hconsistent := hs.consistent.congr (t := { s with committerAlive := true })
              rfl rfl rfl rfl rfl hs.consistent.held rfl (fun _ => .inr rfl) rfl rfl
            refine ⟨.ofOwner hconsistent ⟨[], rfl, by simp⟩ rfl rfl (fun _ => rfl) ⟨[], rfl⟩
              (fun _ => .inl), hconsistent, hs.refused, fun hcreated => ?_, fun _ => rfl⟩
            have hrunning := hs.state
            rw [show s.state = .Created from hcreated] at hrunning
            cases hrunning
        · cases started with
          | false =>
            exact .bind (fun _ => .refl) abandonStart_triple fun _ =>
              .ret OwnerIdle.stable fun _ h => h
          | true =>
            refine (OwnerIdle.quiet (.modify fun s => ?_)).conseq (fun _ h => h) fun _ _ h => h
            exact .of_eq rfl rfl rfl rfl rfl rfl rfl rfl rfl rfl rfl

/-- A state the owner sets on the way down keeps what holds while it is idle. -/
theorem OwnerIdle.setState {s : KeeperWal} (hs : OwnerIdle s) {state : WalState}
    (hcreated : state ≠ .Created) (hrunning : state ≠ .Running) :
    Step .owner s { s with state := state } ∧ OwnerIdle { s with state := state } := by
  have hdrained : s.queue ≠ [] → state = .Running ∨ s.committerAlive := fun h =>
    .inr ((hs.consistent.drained h).elim hs.running id)
  have hconsistent := hs.consistent.congr (t := { s with state := state })
    rfl rfl rfl rfl rfl hs.consistent.held rfl hdrained rfl rfl
  exact ⟨.ofOwner hconsistent ⟨[], rfl, by simp⟩ rfl rfl id ⟨[], rfl⟩ fun _ => .inl,
    hconsistent, hs.refused, fun h => absurd h hcreated, fun h => absurd h hrunning⟩

theorem stop_triple : OwnerTriple OwnerIdle stop fun _ => OwnerIdle := by
  refine .seq (fun _ => OwnerIdle) (fun _ => .refl)
    (.modify OwnerIdle.stable (fun _ => OwnerIdle.stable) fun s hs => ?_) fun stopping => ?_
  · split
    · exact hs.setState (by decide) (by decide)
    · exact hs.setState (by decide) (by decide)
    · exact ⟨(Quiet.refl s).step (fun h => by cases h), hs⟩
  split
  · refine .bind (fun _ => .refl) (OwnerIdle.quiet (.modify fun s => ?_)) fun _ => ?_
    · exact .of_eq rfl rfl rfl rfl rfl rfl rfl rfl rfl rfl rfl
    refine .bind (fun _ => .refl) (OwnerIdle.quiet (.atomically fun s c b s' h => ?_))
      fun _ => ?_
    · split at h <;> cases h
      exact .refl s
    refine .bind (fun _ => .refl) (OwnerIdle.quiet always_quiet_stopPreparer) fun _ => ?_
    exact .modify OwnerIdle.stable (fun _ => OwnerIdle.stable) fun s hs =>
      hs.setState (by decide) (by decide)
  · exact .ret OwnerIdle.stable fun _ h => h

end KeeperWal

end ChronoLog
