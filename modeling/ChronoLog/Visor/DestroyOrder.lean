import ChronoLog.Lib.Trace
import ChronoLog.Visor.Acquisitions
import ChronoLog.Visor.Requests

/-!
# A destroy and the starts of its story

`DestroyStory` removes the story from the directory and then tells every grapher
to destroy it.  The removal is meant to keep other clients out until the graphers
have been told, but acquiring a story that is not in the directory creates it, so
that another client can re-create and start the story in between; the broadcast
then hits the new incarnation.

## Main definitions

* `Stage`, `Thread.stages` — where a thread stands between a grant and the start
  of a grapher, or between a removal and the end of its broadcast.
* `Moves`, `Leads` — what a step of a thread can do to its stage and to the trace.
* `Ordered` — the invariant: the graphers execute a destroy before any of them starts
  an acquisition granted after the removal.

## Main results

* `exec_moves` — what every task does to the stages and to the trace.
* `Ordered.of_leads` — a step keeps the order if it assigns no group to an acquire
  granted after a removal before the end of that removal's broadcast.
-/

namespace ChronoLog.Visor

open Transition

/-- Where a thread stands. -/
inductive Stage where
  /-- It has not been assigned a group for its story yet. -/
  | asking
  /-- It is about to start a grapher. -/
  | starting (storyId : StoryId)
  /-- It has not removed its story yet. -/
  | removing
  /-- It is about to tell the graphers to destroy the story. -/
  | broadcasting (storyId : StoryId)
  deriving DecidableEq

/-- The stage that a task is in. -/
def Task.stage? : Task → Option Stage
  | .checkRegistry => some .asking
  | .acquireStory => some .asking
  | .assignStory _ => some .asking
  | .checkRunning n => if n.startsGrapher then some (.starting n.storyId) else none
  | .findClient n => if n.startsGrapher then some (.starting n.storyId) else none
  | .send n _ => if n.startsGrapher then some (.starting n.storyId) else none
  | .evaluateDestroy => some .removing
  | .destroyStory _ => some .removing
  | .checkBroadcast storyId => some (.broadcasting storyId)
  | .listGraphers storyId => some (.broadcasting storyId)
  | .sendDestroy storyId _ => some (.broadcasting storyId)
  | _ => none

/-- The stages of the tasks of a thread; there is at most one. -/
def Thread.stages (thread : Thread) : List Stage := thread.todo.filterMap Task.stage?

@[simp] theorem stages_first (thread : Thread) (tasks : List Task) :
    (thread.first tasks).stages = tasks.filterMap Task.stage? ++ thread.stages := by
  simp [Thread.stages, Thread.first]

theorem stages_first_one (thread : Thread) {t : Task} {stages : List Stage}
    (h : t.stage?.toList = stages) : (thread.first [t]).stages = stages ++ thread.stages := by
  rw [stages_first, ← h, List.filterMap_cons]
  cases t.stage? <;> rfl

/-- The events whose order is at stake. -/
def Event.counts : Event → Bool
  | .granted _ _ => true
  | .removed _ _ => true
  | .peerRpc _ peer _ _ rpc => peer = .grapher && rpc = .start
  | .destroyRpc _ _ _ => true
  | _ => false

/-- What a step of thread `i` can do: the stage of its task, the events it adds, and
the stages of the tasks it puts before the rest. -/
inductive Moves (v : Portal) (i : ℕ) (task : Task) : List Event → List Stage → Prop where
  /-- Nothing that counts happens, and nothing that counts is left to be done. -/
  | quiet {es} (h : ∀ e ∈ es, e.counts = false) : Moves v i task es []
  | keep {stage} (h : task.stage? = some stage) : Moves v i task [] [stage]
  | grant {storyId} (h : task.stage? = some .asking) :
      Moves v i task [.granted i storyId] [.asking]
  | bind {storyId} (h : task = .assignStory storyId) (hrunning : v.registry.isRunning = true)
      (hfree : v.registry.activeStories[storyId]? = none) :
      Moves v i task [] [.starting storyId]
  | start {storyId service} (h : task.stage? = some (.starting storyId)) :
      Moves v i task [.peerRpc i .grapher service storyId .start] []
  | remove {storyId} (h : task.stage? = some .removing) :
      Moves v i task [.removed i storyId] [.broadcasting storyId]
  | destroy {storyId service stages} (h : task.stage? = some (.broadcasting storyId))
      (hstages : ∀ stage ∈ stages, stage = .broadcasting storyId) (hone : stages.length ≤ 1) :
      Moves v i task [.destroyRpc i service storyId] stages

section Steps

variable {cityHash64 : String → UInt64} {v v' : Portal} {i : ℕ} {thread thread' : Thread}

/-- The tasks that end a failed notification are in no stage. -/
@[simp] theorem stages_afterFailed (n : Notification) :
    (afterFailed n).filterMap Task.stage? = [] := by
  unfold afterFailed
  split <;> rfl

@[simp] theorem stages_afterFailedKeepers (storyId : StoryId) (groupId : RecordingGroupId) :
    (afterFailedKeepers storyId groupId).filterMap Task.stage? = [] := rfl

@[simp] theorem stages_keeperTasks (rpc : Rpc) (storyId : StoryId) (groupId : RecordingGroupId)
    (targets : List (KeeperIdCard × DataStoreAdminClient)) (started : List KeeperIdCard) :
    (keeperTasks rpc storyId groupId targets started).filterMap Task.stage? = [] := by
  unfold keeperTasks
  split
  · rfl
  · rfl
  · split <;> rfl

@[simp] theorem stages_heldTasks (client : DataStoreAdminClient) (stories : List StoryId) :
    (heldTasks client stories).filterMap Task.stage? = [] := by
  unfold heldTasks
  split <;> rfl

theorem stages_map {α : Type*} {f : α → Task} (h : ∀ a, (f a).stage? = none) (l : List α) :
    (l.map f).filterMap Task.stage? = [] := by
  refine List.filterMap_eq_nil_iff.mpr fun t ht => ?_
  obtain ⟨a, -, rfl⟩ := List.mem_map.mp ht
  exact h a

variable (cityHash64) in
theorem trace_release (v : Portal) (i : ℕ) (clientId : ClientId) (names : String × String) :
    ∃ es, (v.release cityHash64 i clientId names).1.trace = v.trace ++ es ∧
      ∀ e ∈ es, e.counts = false := by
  refine ⟨_, rfl, ?_⟩
  intro e he
  split at he
  · rw [List.mem_singleton.mp he]
    rfl
  · cases he

theorem counts_executedEvent {reply : Reply} {event : Event} (h : event.counts = false) :
    ∀ e ∈ executedEvent reply event, e.counts = false := by
  unfold executedEvent
  split <;> simp [h]

variable (cityHash64) in
/-- **What a step can do.** -/
theorem exec_moves (v : Portal) (i : ℕ) (thread : Thread) (now : ℕ) (reply : Reply)
    (task : Task) :
    ∃ es stages, (v.exec cityHash64 i thread now reply task).1.trace = v.trace ++ es ∧
      (v.exec cityHash64 i thread now reply task).2.stages = stages ++ thread.stages ∧
      Moves v i task es stages := by
  cases task with
  | checkRegistry =>
    simp only [Portal.exec]
    split
    · exact ⟨[], [], by simp, rfl, .quiet (by simp)⟩
    · split
      · exact ⟨[], [], by simp, rfl, .quiet (by simp)⟩
      · exact ⟨[], [.asking], by simp, rfl, .keep rfl⟩
  | acquireStory =>
    simp only [Portal.exec]
    split
    · exact ⟨_, [.asking], rfl, rfl, .grant rfl⟩
    · exact ⟨[], [], by simp, rfl, .quiet (by simp)⟩
  | assignStory storyId =>
    obtain hcase | ⟨groupId, -, -, hcase⟩ | ⟨groupId, hrunning, hfree, -, hcase⟩ :=
      v.registry.assignStory_cases storyId thread.request.names now
    · exact ⟨[], [], by simp [Portal.exec, hcase], by simp only [Portal.exec, hcase]; rfl,
        .quiet (by simp)⟩
    · exact ⟨[], [], by simp [Portal.exec, hcase], by simp [Portal.exec, hcase, Thread.stages],
        .quiet (by simp)⟩
    · exact ⟨[], [.starting storyId], by simp [Portal.exec, hcase],
        by simp only [Portal.exec, hcase]; rfl, .bind rfl hrunning hfree⟩
  | listKeepers storyId groupId => exact ⟨[], [], by simp [Portal.exec], rfl, .quiet (by simp)⟩
  | readPlayer storyId groupId keepers =>
    simp only [Portal.exec]
    split <;> exact ⟨[], [], by simp, rfl, .quiet (by simp)⟩
  | forgetStory storyId groupId => exact ⟨[], [], by simp [Portal.exec], rfl, .quiet (by simp)⟩
  | undoAcquire =>
    obtain ⟨es, hes, hquiet⟩ :=
      trace_release cityHash64 v i thread.request.clientId thread.request.names
    exact ⟨es, [], hes, rfl, .quiet hquiet⟩
  | checkRunning n =>
    simp only [Portal.exec]
    split
    · by_cases hn : n.startsGrapher = true
      · exact ⟨[], [.starting n.storyId], by simp,
          stages_first_one thread (congrArg Option.toList (if_pos hn)), .keep (if_pos hn)⟩
      · exact ⟨[], [], by simp, stages_first_one thread (congrArg Option.toList (if_neg hn)),
          .quiet (by simp)⟩
    · exact ⟨[], [], by simp, by simp, .quiet (by simp)⟩
  | findClient n =>
    simp only [Portal.exec]
    split
    · by_cases hn : n.startsGrapher = true
      · exact ⟨[], [.starting n.storyId], by simp,
          stages_first_one thread (congrArg Option.toList (if_pos hn)), .keep (if_pos hn)⟩
      · exact ⟨[], [], by simp, stages_first_one thread (congrArg Option.toList (if_neg hn)),
          .quiet (by simp)⟩
    · exact ⟨[], [], by simp, by simp, .quiet (by simp)⟩
  | send n client =>
    have hstages : (v.exec cityHash64 i thread now reply (.send n client)).2.stages =
        thread.stages := by
      simp only [Portal.exec]
      split
      · rfl
      · split
        · rfl
        · simp
      · split
        · rfl
        · simp
    have htrace : (v.exec cityHash64 i thread now reply (.send n client)).1.trace =
        v.trace ++ executedEvent reply (.peerRpc i n.peer client.service n.storyId n.rpc) := by
      simp only [Portal.exec]
      split
      · rfl
      · split <;> rfl
      · split <;> rfl
    refine ⟨_, [], htrace, hstages, ?_⟩
    by_cases hn : n.startsGrapher = true
    · obtain ⟨hpeer, hrpc⟩ : n.peer = .grapher ∧ n.rpc = .start := by
        simpa [Notification.startsGrapher] using hn
      rw [hpeer, hrpc, executedEvent]
      split
      · exact .start (if_pos hn)
      · exact .quiet (by simp)
    · refine .quiet (counts_executedEvent ?_)
      simpa [Event.counts, Notification.startsGrapher] using hn
  | checkKeepers rpc storyId groupId keepers =>
    simp only [Portal.exec]
    split
    · exact ⟨[], [], by simp, rfl, .quiet (by simp)⟩
    · split <;> exact ⟨[], [], by simp, rfl, .quiet (by simp)⟩
  | copyKeepers rpc storyId groupId keepers =>
    exact ⟨[], [], by simp [Portal.exec], by simp [Portal.exec], .quiet (by simp)⟩
  | sendKeepers rpc storyId groupId targets started =>
    cases targets with
    | nil => exact ⟨[], [], by simp [Portal.exec], rfl, .quiet (by simp)⟩
    | cons card targets =>
      exact ⟨_, [], rfl, by simp [Portal.exec], .quiet (counts_executedEvent rfl)⟩
  | releaseStory =>
    obtain ⟨es, hes, hquiet⟩ :=
      trace_release cityHash64 v i thread.request.clientId thread.request.names
    simp only [Portal.exec]
    split <;> exact ⟨es, [], hes, rfl, .quiet hquiet⟩
  | unassignStory storyId =>
    obtain ⟨hcase, -⟩ | ⟨groupId, -, -, hcase⟩ := v.registry.unassignStory_cases storyId now
    · exact ⟨[], [], by simp [Portal.exec, hcase], by simp [Portal.exec, hcase], .quiet (by simp)⟩
    · exact ⟨[], [], by simp [Portal.exec, hcase],
        by simp only [Portal.exec, hcase]; rfl, .quiet (by simp)⟩
  | listAcquired =>
    refine ⟨[], [], by simp [Portal.exec], ?_, .quiet (by simp)⟩
    simp only [Portal.exec, stages_first, List.filterMap_append,
      stages_map (f := fun entry : StoryId × ChronicleId => Task.nameAcquired entry.1 entry.2)
        fun _ => rfl]
    rfl
  | nameAcquired storyId cid =>
    simp only [Portal.exec]
    split
    · exact ⟨[], [], by simp, rfl, .quiet (by simp)⟩
    · split <;> exact ⟨[], [], by simp, rfl, .quiet (by simp)⟩
  | releaseAcquired chronicleName storyName =>
    obtain ⟨es, hes, hquiet⟩ :=
      trace_release cityHash64 v i thread.request.clientId (chronicleName, storyName)
    simp only [Portal.exec]
    split <;> exact ⟨es, [], hes, rfl, .quiet hquiet⟩
  | stopReleased =>
    refine ⟨[], [], by simp [Portal.exec], ?_, .quiet (by simp)⟩
    simp only [Portal.exec, stages_first, stages_map (f := Task.unassignStory) fun _ => rfl]
  | removeClientRecord => exact ⟨[], [], by simp [Portal.exec], rfl, .quiet (by simp)⟩
  | evaluateDestroy =>
    simp only [Portal.exec]
    split
    · exact ⟨[], [], by simp, rfl, .quiet (by simp)⟩
    · split
      · refine ⟨[], [.removing], by simp, ?_, .keep rfl⟩
        rw [stages_first]
        split <;> rfl
      · exact ⟨[], [], by simp, rfl, .quiet (by simp)⟩
  | autoRelease =>
    obtain ⟨es, hes, hquiet⟩ :=
      trace_release cityHash64 v i thread.request.clientId thread.request.names
    simp only [Portal.exec]
    split <;> exact ⟨es, [], hes, rfl, .quiet hquiet⟩
  | destroyStory storyId =>
    simp only [Portal.exec]
    split
    · exact ⟨_, [.broadcasting storyId], rfl, rfl, .remove rfl⟩
    · exact ⟨[], [], by simp, rfl, .quiet (by simp)⟩
  | checkBroadcast storyId =>
    simp only [Portal.exec]
    split
    · exact ⟨[], [.broadcasting storyId], by simp, rfl, .keep rfl⟩
    · exact ⟨[], [], by simp, rfl, .quiet (by simp)⟩
  | listGraphers storyId =>
    simp only [Portal.exec, destroyTasks]
    split
    · exact ⟨[], [], by simp, rfl, .quiet (by simp)⟩
    · exact ⟨[], [.broadcasting storyId], by simp, rfl, .keep rfl⟩
  | sendDestroy storyId clients =>
    cases clients with
    | nil => exact ⟨[], [], by simp [Portal.exec], rfl, .quiet (by simp)⟩
    | cons client clients =>
      refine ⟨_, (destroyTasks storyId clients).filterMap Task.stage?, rfl,
        by simp [Portal.exec], ?_⟩
      have hrest : (destroyTasks storyId clients).filterMap Task.stage? = [] ∨
          (destroyTasks storyId clients).filterMap Task.stage? = [.broadcasting storyId] := by
        unfold destroyTasks
        split
        · exact .inl rfl
        · exact .inr rfl
      unfold executedEvent
      split
      · refine .destroy rfl ?_ ?_
        · obtain hrest | hrest := hrest <;> simp [hrest]
        · obtain hrest | hrest := hrest <;> simp [hrest]
      · obtain hrest | hrest := hrest
        · rw [hrest]
          exact .quiet (by simp)
        · rw [hrest]
          exact .keep rfl
  | registerKeeper =>
    simp only [Portal.exec]
    split
    · exact ⟨[], [], by simp, rfl, .quiet (by simp)⟩
    · exact ⟨[], [], by simp, by simp, .quiet (by simp)⟩
  | checkHeld client stories =>
    cases stories with
    | nil => exact ⟨[], [], by simp [Portal.exec], rfl, .quiet (by simp)⟩
    | cons storyId stories =>
      simp only [Portal.exec]
      split
      · exact ⟨[], [], by simp, rfl, .quiet (by simp)⟩
      · split
        · exact ⟨[], [], by simp, rfl, .quiet (by simp)⟩
        · exact ⟨[], [], by simp, by simp, .quiet (by simp)⟩
  | startHeld client storyId stories =>
    exact ⟨_, [], rfl, rfl, .quiet (counts_executedEvent rfl)⟩
  | recheckHeld client storyId stories =>
    simp only [Portal.exec]
    split
    · exact ⟨[], [], by simp, by simp, .quiet (by simp)⟩
    · exact ⟨[], [], by simp, rfl, .quiet (by simp)⟩
  | stopHeld client storyId stories =>
    exact ⟨_, [], rfl, by simp [Portal.exec], .quiet (counts_executedEvent rfl)⟩

/-- A thread has a task in that stage. -/
def Portal.In (v : Portal) (i : ℕ) (stage : Stage) : Prop :=
  ∃ thread, v.threads[i]? = some thread ∧ stage ∈ thread.stages

instance (v : Portal) (i : ℕ) (stage : Stage) : Decidable (v.In i stage) :=
  decidable_of_iff ((v.threads[i]?).any fun thread => decide (stage ∈ thread.stages)) (by
    simp [Portal.In, Option.any_eq_true])

theorem Portal.In.of_threads {stage : Stage} {j : ℕ}
    (hthreads : v'.threads = v.threads.set i thread')
    (h : v'.In j stage) : j = i ∧ stage ∈ thread'.stages ∨ j ≠ i ∧ v.In j stage := by
  obtain ⟨t, ht, hstage⟩ := h
  rw [hthreads] at ht
  obtain ⟨hj, rfl⟩ | ⟨hj, ht⟩ := getElem?_set_cases ht
  · exact .inl ⟨hj, hstage⟩
  · exact .inr ⟨hj, t, ht, hstage⟩

/-- The order of what has happened, and of what is about to happen. -/
structure Ordered (v : Portal) : Prop where
  single : ∀ (i : ℕ) (thread : Thread), v.threads[i]? = some thread → thread.stages.length ≤ 1
  /-- A thread removes a story once. -/
  gone : ∀ d storyId, .removed d storyId ∈ v.trace → d < v.threads.length ∧ ¬v.In d .removing
  /-- No acquisition granted after a removal is about to start before its broadcast. -/
  apart : ∀ d a storyId, v.In d (.broadcasting storyId) → v.In a (.starting storyId) →
    ¬[.removed d storyId, .granted a storyId].Sublist v.trace
  /-- None has started. -/
  ahead : ∀ d a service storyId, v.In d (.broadcasting storyId) →
    ¬[.removed d storyId, .granted a storyId,
      .peerRpc a .grapher service storyId .start].Sublist v.trace
  /-- So none has started on any grapher before a grapher executes the destroy. -/
  ordered : ∀ d a service service' storyId,
    ¬[.removed d storyId, .granted a storyId, .peerRpc a .grapher service storyId .start,
      .destroyRpc d service' storyId].Sublist v.trace

theorem ordered_initial : Ordered {} where
  single := by simp
  gone := by simp
  apart := by simp
  ahead := by simp
  ordered := by simp

/-- A step that leaves the threads and the trace alone. -/
theorem Ordered.of_eq (h : Ordered v) (hthreads : v'.threads = v.threads)
    (htrace : v'.trace = v.trace) : Ordered v' := by
  have hin : ∀ j stage, v'.In j stage ↔ v.In j stage := by
    intro j stage
    simp only [Portal.In, hthreads]
  refine { single := ?_, gone := ?_, apart := ?_, ahead := ?_, ordered := ?_ } <;>
    simp only [hthreads, htrace, hin]
  exacts [h.single, h.gone, h.apart, h.ahead, h.ordered]

theorem Ordered.receive (h : Ordered v) (request : Request) :
    Ordered { v with
      threads := v.threads ++ [{ request := request, todo := [request.firstTask] }] } := by
  have hin : ∀ j stage, ({ v with threads := v.threads ++
      [{ request := request, todo := [request.firstTask] }] } : Portal).In j stage →
      v.In j stage ∨ j = v.threads.length ∧ (stage = .asking ∨ stage = .removing) := by
    rintro j stage ⟨t, ht, hstage⟩
    obtain ht | ⟨rfl, rfl⟩ := getElem?_concat_cases ht
    · exact .inl ⟨t, ht, hstage⟩
    · refine .inr ⟨rfl, ?_⟩
      cases request with
      | acquireStory => exact .inl (List.mem_singleton.mp hstage)
      | destroyStory => exact .inr (List.mem_singleton.mp hstage)
      | _ => cases hstage
  refine { single := ?_, gone := ?_, apart := ?_, ahead := ?_, ordered := h.ordered }
  · intro j t ht
    obtain ht | ⟨-, rfl⟩ := getElem?_concat_cases ht
    · exact h.single j t ht
    · exact List.length_filterMap_le _ _
  · intro d storyId hmem
    obtain ⟨hd, hgone⟩ := h.gone d storyId hmem
    refine ⟨by rw [List.length_append]; exact Nat.lt_add_right _ hd, fun hremoving => ?_⟩
    obtain hremoving | ⟨rfl, -⟩ := hin d _ hremoving
    · exact hgone hremoving
    · exact Nat.lt_irrefl _ hd
  · intro d a storyId hd ha
    exact h.apart d a storyId ((hin d _ hd).resolve_right (by simp))
      ((hin a _ ha).resolve_right (by simp))
  · intro d a service storyId hd
    exact h.ahead d a service storyId ((hin d _ hd).resolve_right (by simp))

/-- What a step of thread `i` adds to the trace and what it leads to, as the invariant
needs it: an event that counts comes alone, and belongs to the stage that the thread
was in. -/
structure Leads (v v' : Portal) (i : ℕ) (es : List Event) : Prop where
  alone : ∀ e ∈ es, e.counts = true → es = [e]
  granted : ∀ a storyId, .granted a storyId ∈ es → ∀ sid, ¬v'.In a (.starting sid)
  started : ∀ a service storyId, .peerRpc a .grapher service storyId .start ∈ es →
    v.In a (.starting storyId)
  removed : ∀ d storyId, .removed d storyId ∈ es → d = i ∧ ¬v'.In d .removing
  destroyed : ∀ d service storyId, .destroyRpc d service storyId ∈ es →
    v.In d (.broadcasting storyId)
  removing : ∀ d, v'.In d .removing → v.In d .removing
  starting : ∀ a storyId, v'.In a (.starting storyId) → v.In a (.starting storyId) ∨
    a = i ∧ v.task? i = some (.assignStory storyId) ∧ v.registry.isRunning = true ∧
      v.registry.activeStories[storyId]? = none
  broadcasting : ∀ d storyId, v'.In d (.broadcasting storyId) → v.In d (.broadcasting storyId) ∨
    v.In d .removing

theorem leads_of_moves {task : Task} {rest : List Task} {es : List Event} {stages : List Stage}
    (hthread : v.threads[i]? = some thread) (htodo : thread.todo = task :: rest)
    (hone : thread.stages.length ≤ 1) (htask : v.task? i = some task)
    (hthreads : v'.threads = v.threads.set i thread')
    (hstages : thread'.stages = stages ++ ({ thread with todo := rest } : Thread).stages)
    (hmoves : Moves v i task es stages) : Leads v v' i es ∧ thread'.stages.length ≤ 1 := by
  -- a task that is in a stage is the only one of its thread
  have hold : ∀ stage, task.stage? = some stage →
      thread.stages = [stage] ∧ thread'.stages = stages := by
    intro stage hstage
    have hcons : thread.stages = stage :: ({ thread with todo := rest } : Thread).stages := by
      simp [Thread.stages, htodo, hstage]
    rw [hcons, List.length_cons] at hone
    have hrest : ({ thread with todo := rest } : Thread).stages = [] :=
      List.length_eq_zero_iff.mp (by omega)
    exact ⟨by rw [hcons, hrest], by rw [hstages, hrest, List.append_nil]⟩
  have hin : ∀ stage, task.stage? = some stage → v.In i stage :=
    fun stage hstage => ⟨thread, hthread, by rw [(hold stage hstage).1]; simp⟩
  have hkept : ∀ stage ∈ ({ thread with todo := rest } : Thread).stages, v.In i stage := by
    intro stage hstage
    obtain ⟨t, ht, hstage⟩ := List.mem_filterMap.mp hstage
    refine ⟨thread, hthread, List.mem_filterMap.mpr ⟨t, ?_, hstage⟩⟩
    rw [htodo]
    exact List.mem_cons_of_mem _ ht
  have hrest : ({ thread with todo := rest } : Thread).stages.length ≤ thread.stages.length := by
    simp only [Thread.stages, htodo]
    exact ((List.sublist_cons_self task rest).filterMap _).length_le
  have hself : ∀ stage, v'.In i stage → stage ∈ thread'.stages := by
    intro stage hstage
    obtain ⟨-, hstage⟩ | ⟨hne, -⟩ := hstage.of_threads hthreads
    · exact hstage
    · exact absurd rfl hne
  have hsame : (∀ stage ∈ thread'.stages, v.In i stage) → ∀ j stage, v'.In j stage →
      v.In j stage := by
    intro hall j stage hstage
    obtain ⟨rfl, hstage⟩ | ⟨-, hstage⟩ := hstage.of_threads hthreads
    · exact hall stage hstage
    · exact hstage
  cases hmoves with
  | quiet hquiet =>
    have hback := hsame (by rw [hstages]; exact hkept)
    have hnone : ∀ e ∈ es, e.counts ≠ true := fun e he => by simp [hquiet e he]
    refine ⟨?_, by rw [hstages]; exact Nat.le_trans hrest hone⟩
    exact {
      alone := fun e he hcounts => absurd hcounts (hnone e he)
      granted := fun a storyId he => absurd rfl (hnone _ he)
      started := fun a service storyId he => absurd rfl (hnone _ he)
      removed := fun d storyId he => absurd rfl (hnone _ he)
      destroyed := fun d service storyId he => absurd rfl (hnone _ he)
      removing := fun d hd => hback d _ hd
      starting := fun a storyId ha => .inl (hback a _ ha)
      broadcasting := fun d storyId hd => .inl (hback d _ hd) }
  | @keep stage hstage =>
    obtain ⟨hone', hnew⟩ := hold stage hstage
    have hback := hsame (by rw [hnew]; simpa using hin stage hstage)
    refine ⟨?_, by simp [hnew]⟩
    exact {
      alone := by simp
      granted := by simp
      started := by simp
      removed := by simp
      destroyed := by simp
      removing := fun d hd => hback d _ hd
      starting := fun a storyId ha => .inl (hback a _ ha)
      broadcasting := fun d storyId hd => .inl (hback d _ hd) }
  | grant hstage =>
    obtain ⟨hone', hnew⟩ := hold .asking hstage
    have hback := hsame (by rw [hnew]; simpa using hin .asking hstage)
    refine ⟨?_, by simp [hnew]⟩
    exact {
      alone := by simp
      granted := by
        intro a storyId he sid ha
        cases List.mem_singleton.mp he
        have hmem := hself _ ha
        rw [hnew, List.mem_singleton] at hmem
        cases hmem
      started := by simp
      removed := by simp
      destroyed := by simp
      removing := fun d hd => hback d _ hd
      starting := fun a storyId ha => .inl (hback a _ ha)
      broadcasting := fun d storyId hd => .inl (hback d _ hd) }
  | @bind sid heq hrunning hfree =>
    obtain ⟨hone', hnew⟩ := hold .asking (by rw [heq]; rfl)
    refine ⟨?_, by simp [hnew]⟩
    have hback : ∀ j stage, v'.In j stage → v.In j stage ∨ j = i ∧ stage = .starting sid := by
      intro j stage hj
      obtain ⟨rfl, hmem⟩ | ⟨-, hj⟩ := hj.of_threads hthreads
      · rw [hnew, List.mem_singleton] at hmem
        exact .inr ⟨rfl, hmem⟩
      · exact .inl hj
    exact {
      alone := by simp
      granted := by simp
      started := by simp
      removed := by simp
      destroyed := by simp
      removing := fun d hd => (hback d _ hd).resolve_right (by simp)
      starting := by
        intro a storyId ha
        obtain ha | ⟨rfl, hsid⟩ := hback a _ ha
        · exact .inl ha
        · cases hsid
          exact .inr ⟨rfl, htask.trans (congrArg some heq), hrunning, hfree⟩
      broadcasting := fun d storyId hd => .inl ((hback d _ hd).resolve_right (by simp)) }
  | @start sid service hstage =>
    obtain ⟨hone', hnew⟩ := hold _ hstage
    have hback := hsame (by rw [hnew]; simp)
    refine ⟨?_, by rw [hnew]; simp⟩
    exact {
      alone := by simp
      granted := by simp
      started := by
        intro a service storyId he
        cases List.mem_singleton.mp he
        exact hin _ hstage
      removed := by simp
      destroyed := by simp
      removing := fun d hd => hback d _ hd
      starting := fun a storyId ha => .inl (hback a _ ha)
      broadcasting := fun d storyId hd => .inl (hback d _ hd) }
  | @remove sid hstage =>
    obtain ⟨hone', hnew⟩ := hold .removing hstage
    refine ⟨?_, by simp [hnew]⟩
    have hback : ∀ j stage, v'.In j stage →
        v.In j stage ∨ j = i ∧ stage = .broadcasting sid := by
      intro j stage hj
      obtain ⟨rfl, hmem⟩ | ⟨-, hj⟩ := hj.of_threads hthreads
      · rw [hnew, List.mem_singleton] at hmem
        exact .inr ⟨rfl, hmem⟩
      · exact .inl hj
    exact {
      alone := by simp
      granted := by simp
      started := by simp
      removed := by
        intro d storyId he
        cases List.mem_singleton.mp he
        refine ⟨rfl, fun hd => ?_⟩
        have hmem := hself _ hd
        rw [hnew, List.mem_singleton] at hmem
        cases hmem
      destroyed := by simp
      removing := fun d hd => (hback d _ hd).resolve_right (by simp)
      starting := fun a storyId ha => .inl ((hback a _ ha).resolve_right (by simp))
      broadcasting := by
        intro d storyId hd
        obtain hd | ⟨rfl, -⟩ := hback d _ hd
        · exact .inl hd
        · exact .inr (hin _ hstage) }
  | @destroy sid service stages hstage hall hlen =>
    obtain ⟨hone', hnew⟩ := hold _ hstage
    have hback := hsame (by
      intro stage hmem
      rw [hnew] at hmem
      rw [hall stage hmem]
      exact hin _ hstage)
    refine ⟨?_, by rw [hnew]; exact hlen⟩
    exact {
      alone := by simp
      granted := by simp
      started := by simp
      removed := by simp
      destroyed := by
        intro d service storyId he
        cases List.mem_singleton.mp he
        exact hin _ hstage
      removing := fun d hd => hback d _ hd
      starting := fun a storyId ha => .inl (hback a _ ha)
      broadcasting := fun d storyId hd => .inl (hback d _ hd) }

/-- What a step of the visor leads to keeps the order, if no acquire granted after the
removal of its story is assigned a group before the end of the broadcast. -/
theorem Ordered.of_leads (h : Ordered v) {es : List Event} (hleads : Leads v v' i es)
    (hsingle : ∀ (j : ℕ) (t : Thread), v'.threads[j]? = some t → t.stages.length ≤ 1)
    (hlength : v.threads.length ≤ v'.threads.length) (hi : i < v'.threads.length)
    (htrace : v'.trace = v.trace ++ es)
    (hcond : ∀ storyId, v.task? i = some (.assignStory storyId) → v.registry.isRunning = true →
      v.registry.activeStories[storyId]? = none → ∀ d, v.In d (.broadcasting storyId) →
        ¬[.removed d storyId, .granted i storyId].Sublist v.trace) : Ordered v' := by
  -- events in order of which the last one counts: they were there before, or it is new
  have hsplit : ∀ {l : List Event} {e : Event}, e.counts = true →
      (l ++ [e]).Sublist v'.trace → (l ++ [e]).Sublist v.trace ∨ e ∈ es ∧ l.Sublist v.trace := by
    intro l e he hsub
    rw [htrace] at hsub
    by_cases hmem : e ∈ es
    · rw [hleads.alone e hmem he, Trace.concat_sublist_concat] at hsub
      exact hsub.imp_right fun hsub => ⟨hmem, hsub.2⟩
    · rw [Trace.concat_sublist_append hmem] at hsub
      exact .inl hsub
  -- a thread that has removed its story is past its removal
  have hpast : ∀ d a storyId, v'.In d (.broadcasting storyId) →
      [.removed d storyId, .granted a storyId].Sublist v.trace →
      v.In d (.broadcasting storyId) := by
    intro d a storyId hd hsub
    refine (hleads.broadcasting d storyId hd).resolve_right fun hremoving => ?_
    exact (h.gone d storyId (hsub.subset (by simp))).2 hremoving
  refine { single := hsingle, gone := ?_, apart := ?_, ahead := ?_, ordered := ?_ }
  · intro d storyId hmem
    rw [htrace, List.mem_append] at hmem
    obtain hmem | hmem := hmem
    · obtain ⟨hd, hgone⟩ := h.gone d storyId hmem
      exact ⟨Nat.lt_of_lt_of_le hd hlength, fun hd => hgone (hleads.removing d hd)⟩
    · obtain ⟨rfl, hgone⟩ := hleads.removed d storyId hmem
      exact ⟨hi, hgone⟩
  · intro d a storyId hd ha hsub
    obtain hsub | ⟨hnew, -⟩ := hsplit (l := [_]) rfl hsub
    · have hd' := hpast d a storyId hd hsub
      obtain ha' | ⟨rfl, htask, hrunning, hfree⟩ := hleads.starting a storyId ha
      · exact h.apart d a storyId hd' ha' hsub
      · exact hcond storyId htask hrunning hfree d hd' hsub
    · exact hleads.granted a storyId hnew storyId ha
  · intro d a service storyId hd hsub
    obtain hsub | ⟨hnew, hsub⟩ := hsplit (l := [_, _]) rfl hsub
    · have hd' := hpast d a storyId hd ((List.sublist_append_left [_, _] [_]).trans hsub)
      exact h.ahead d a service storyId hd' hsub
    · exact h.apart d a storyId (hpast d a storyId hd hsub)
        (hleads.started a service storyId hnew) hsub
  · intro d a service service' storyId hsub
    obtain hsub | ⟨hnew, hsub⟩ := hsplit (l := [_, _, _]) rfl hsub
    · exact h.ordered d a service service' storyId hsub
    · exact h.ahead d a service storyId (hleads.destroyed d service' storyId hnew) hsub

end Steps

end ChronoLog.Visor
