import ChronoLog.Visor.Requests

/-!
# No keeper is left recording

A keeper that registers while a story is being recorded by its group is told to
start it.  The starts go out without the registry's lock, so that a story can be
released meanwhile and its stop can reach the keeper before the start.  Whoever
erases a story from the registry sends its stops after the erase, and a
registration checks the story again after each start: a keeper that has executed a
start is either in a group that records the story, or some thread is about to stop
it.

The stops are skipped when the registry is not running at that moment, and a story
can be erased while an acquire of it is still starting its keepers; in both cases a
registered keeper is left recording a story that the registry does not know.

## Main definitions

* `lastRpc` — the last start or stop of a story that a keeper has executed.
* `Covers` — the task stops the story at the keeper, or checks it again.
* `Acts` — what a step of a thread can do to the registry and to the keepers.
* `Accounted` — the invariant.
* `StopsGoOut` — the condition on a step.

## Main results

* `no_keeper_left_recording` — the result for the runs whose steps meet the condition.
* `skipped_stop_leaves_keeper_recording` — what happens in others.
-/

namespace ChronoLog.Visor

open Transition

/-- The start or stop that an event is, of that story at that keeper. -/
def Event.rpcAt? (card : KeeperIdCard) (client : DataStoreAdminClient) (storyId : StoryId) :
    Event → Option Rpc
  | .keeperRpc card' client' storyId' rpc =>
    if card' = card ∧ client' = client ∧ storyId' = storyId then some rpc else none
  | _ => none

/-- The last start or stop of the story that the keeper has executed. -/
def lastRpc (trace : List Event) (card : KeeperIdCard) (client : DataStoreAdminClient)
    (storyId : StoryId) : Option Rpc :=
  (trace.filterMap (Event.rpcAt? card client storyId)).getLast?

/-- The event is not the doing of a keeper. -/
def Event.spares : Event → Bool
  | .keeperRpc _ _ _ _ => false
  | _ => true

/-- The story and the group whose keepers the task is going to start. -/
def Task.starts? : Task → Option (StoryId × RecordingGroupId)
  | .checkRunning n => if n.startsGrapher then some (n.storyId, n.groupId) else none
  | .findClient n => if n.startsGrapher then some (n.storyId, n.groupId) else none
  | .send n _ => if n.startsGrapher then some (n.storyId, n.groupId) else none
  | .listKeepers storyId groupId => some (storyId, groupId)
  | .checkKeepers .start storyId groupId _ => some (storyId, groupId)
  | .copyKeepers .start storyId groupId _ => some (storyId, groupId)
  | .sendKeepers .start storyId groupId _ _ => some (storyId, groupId)
  | _ => none

/-- The task of such a request stops the story at the keeper, or checks it again. -/
def Covers (card : KeeperIdCard) (client : DataStoreAdminClient) (storyId : StoryId)
    (request : Request) : Task → Prop
  | .checkKeepers .stop storyId' _ keepers => storyId' = storyId ∧ card ∈ keepers
  | .copyKeepers .stop storyId' _ keepers => storyId' = storyId ∧ card ∈ keepers
  | .sendKeepers .stop storyId' _ targets _ => storyId' = storyId ∧ (card, client) ∈ targets
  | .recheckHeld client' storyId' _ =>
    storyId' = storyId ∧ client' = client ∧ request.card = card
  | .stopHeld client' storyId' _ => storyId' = storyId ∧ client' = client ∧ request.card = card
  | _ => False

/-- The keepers of a task are those of its group, and its clients exist. -/
def Task.Fits (nextClient : ℕ) : Task → Prop
  | .checkKeepers _ _ groupId keepers => ∀ card ∈ keepers, card.groupId = groupId
  | .copyKeepers _ _ groupId keepers => ∀ card ∈ keepers, card.groupId = groupId
  | .sendKeepers _ _ groupId targets _ =>
    ∀ target ∈ targets, target.1.groupId = groupId ∧ target.2.serial < nextClient
  | .checkHeld client _ => client.serial < nextClient
  | .startHeld client _ _ => client.serial < nextClient
  | .recheckHeld client _ _ => client.serial < nextClient
  | .stopHeld client _ _ => client.serial < nextClient
  | _ => True

/-- What a step can do: to the registry, to the trace, and to what is left to be done. -/
inductive Acts (v : Portal) (request : Request) (task : Task) :
    KeeperRegistry → List Event → List Task → Prop where
  /-- No story and no keeper changes. -/
  | quiet {r es tasks} (hkeeps : v.registry.Keeps r) (hes : ∀ e ∈ es, e.spares = true)
      (hfits : ∀ t ∈ tasks, t.Fits r.nextClient)
      (hstarts : ∀ t ∈ tasks, ∀ p, t.starts? = some p → task.starts? = some p)
      (hcovers : ∀ card client storyId, Covers card client storyId request task →
        v.registry.keeperClient? card = some client →
        (∃ t ∈ tasks, Covers card client storyId request t) ∨
          v.registry.activeStories[storyId]? = some card.groupId) :
      Acts v request task r es tasks
  /-- A story is assigned to a group, whose keepers are to be started. -/
  | bind {storyId names groupId tasks} (htask : task = .assignStory storyId)
      (hfree : v.registry.activeStories[storyId]? = none)
      (hfits : ∀ t ∈ tasks, t.Fits v.registry.nextClient)
      (hstarts : ∀ t ∈ tasks, ∀ p, t.starts? = some p → p = (storyId, groupId)) :
      Acts v request task (v.registry.putStory storyId names groupId) [] tasks
  /-- A story is erased, and the active keepers of its group are to be stopped. -/
  | erase {storyId groupId now tasks}
      (htask : task = .unassignStory storyId ∨ task = .forgetStory storyId groupId)
      (hrecorded : v.registry.activeStories[storyId]? = some groupId)
      (hstop : .checkKeepers .stop storyId groupId (v.registry.activeKeepers groupId) ∈ tasks)
      (hfits : ∀ t ∈ tasks, t.Fits v.registry.nextClient)
      (hstarts : ∀ t ∈ tasks, t.starts? = none) :
      Acts v request task ((v.registry.clearKeepers groupId now).eraseStory storyId) [] tasks
  /-- A keeper executes a start or a stop. -/
  | rpc {card client storyId rpc tasks} (hserial : client.serial < v.registry.nextClient)
      (hstart : rpc = .start → task.starts? = some (storyId, card.groupId) ∨
        ∃ t ∈ tasks, Covers card client storyId request t)
      (hfits : ∀ t ∈ tasks, t.Fits v.registry.nextClient)
      (hstarts : ∀ t ∈ tasks, ∀ p, t.starts? = some p → task.starts? = some p)
      (hcovers : ∀ card' client' storyId', Covers card' client' storyId' request task →
        (card' = card ∧ client' = client ∧ storyId' = storyId ∧ rpc = .stop) ∨
          ∃ t ∈ tasks, Covers card' client' storyId' request t) :
      Acts v request task v.registry [.keeperRpc card client storyId rpc] tasks
  /-- A keeper registers. -/
  | register {r client tasks} (htask : task = .registerKeeper)
      (hadds : v.registry.Adds r request.card client)
      (hfits : ∀ t ∈ tasks, t.Fits r.nextClient) (hstarts : ∀ t ∈ tasks, t.starts? = none) :
      Acts v request task r [] tasks

/-- The task sends a start or a stop to a keeper. -/
def Task.sendsToKeeper : Task → Bool
  | .sendKeepers _ _ _ _ _ => true
  | .startHeld _ _ _ => true
  | .stopHeld _ _ _ => true
  | _ => false

/-- The task checks the registry before it sends stops to keepers. -/
def Task.stopsKeepers : Task → Bool
  | .checkKeepers .stop _ _ (_ :: _) => true
  | _ => false

section Steps

variable {cityHash64 : String → UInt64} {v v' : Portal} {i now : ℕ} {thread : Thread}
  {reply : Reply} {request : Request} {task : Task} {r : KeeperRegistry} {es : List Event}

/-- The task starts no keepers, covers nothing and mentions no keeper. -/
def Task.idle : Task → Bool
  | .checkRunning n => !n.startsGrapher
  | .findClient n => !n.startsGrapher
  | .send n _ => !n.startsGrapher
  | .listKeepers _ _ => false
  | .checkKeepers _ _ _ _ => false
  | .copyKeepers _ _ _ _ => false
  | .sendKeepers _ _ _ _ _ => false
  | .checkHeld _ _ => false
  | .startHeld _ _ _ => false
  | .recheckHeld _ _ _ => false
  | .stopHeld _ _ _ => false
  | _ => true

theorem starts?_of_idle {t : Task} (h : t.idle = true) : t.starts? = none := by
  cases t <;> simp_all [Task.idle, Task.starts?]

theorem fits_of_idle {t : Task} (h : t.idle = true) (n : ℕ) : t.Fits n := by
  cases t <;> trivial

/-- A step after which only idle tasks are new. -/
theorem acts_of_idle {tasks : List Task} (hkeeps : v.registry.Keeps r)
    (hes : ∀ e ∈ es, e.spares = true) (hidle : ∀ t ∈ tasks, t.idle = true)
    (hcovers : ∀ card client storyId, ¬Covers card client storyId request task) :
    Acts v request task r es tasks := by
  refine .quiet hkeeps hes (fun t ht => fits_of_idle (hidle t ht) _) (fun t ht p hp => ?_)
    fun card client storyId hc => absurd hc (hcovers card client storyId)
  rw [starts?_of_idle (hidle t ht)] at hp
  cases hp

theorem idle_afterFailed (n : Notification) : ∀ t ∈ afterFailed n, t.idle = true := by
  unfold afterFailed
  split <;> simp [afterFailedGrapher, afterFailedKeepers, Task.idle, Notification.startsGrapher]

/-- The rest of the notifications of the keepers. -/
theorem keeperTasks_cases (rpc : Rpc) (storyId : StoryId) (groupId : RecordingGroupId)
    (targets : List (KeeperIdCard × DataStoreAdminClient)) (started : List KeeperIdCard) :
    keeperTasks rpc storyId groupId targets started =
        [.sendKeepers rpc storyId groupId targets started] ∨
      targets = [] ∧ ∀ t ∈ keeperTasks rpc storyId groupId targets started, t.idle = true := by
  unfold keeperTasks
  split
  · exact .inl rfl
  · exact .inr ⟨rfl, by simp⟩
  · refine .inr ⟨rfl, ?_⟩
    split <;> simp [afterFailedKeepers, Task.idle, Notification.startsGrapher]

theorem heldTasks_cases (client : DataStoreAdminClient) (stories : List StoryId) :
    ∀ t ∈ heldTasks client stories, t = .checkHeld client stories := by
  unfold heldTasks
  split <;> simp

variable (cityHash64) in
theorem spares_release (v : Portal) (i : ℕ) (clientId : ClientId) (names : String × String) :
    ∃ es, (v.release cityHash64 i clientId names).1.trace = v.trace ++ es ∧
      ∀ e ∈ es, e.spares = true := by
  refine ⟨_, rfl, ?_⟩
  intro e he
  split at he
  · rw [List.mem_singleton.mp he]
    rfl
  · cases he

theorem spares_executedEvent {event : Event} (h : event.spares = true) :
    ∀ e ∈ executedEvent reply event, e.spares = true := by
  unfold executedEvent
  split <;> simp [h]

variable (cityHash64 v i thread now reply task) in
/-- **What a step can do.** -/
theorem exec_acts (hnamed : v.registry.Named)
    (hregistered : ∀ card client, v.registry.keeperClient? card = some client →
      client.serial < v.registry.nextClient)
    (hfits : task.Fits v.registry.nextClient)
    (hreply : task.sendsToKeeper = true → reply.executed = true)
    (hrunning : task.stopsKeepers = true → v.registry.isRunning = true) :
    ∃ es tasks, (v.exec cityHash64 i thread now reply task).1.trace = v.trace ++ es ∧
      (v.exec cityHash64 i thread now reply task).2.todo = tasks ++ thread.todo ∧
      Acts v thread.request task (v.exec cityHash64 i thread now reply task).1.registry es
        tasks := by
  have hrefl := KeeperRegistry.Keeps.refl v.registry
  cases task with
  | checkRegistry =>
    simp only [Portal.exec]
    split
    · exact ⟨[], [], by simp, rfl, acts_of_idle hrefl (by simp) (by simp) (by simp [Covers])⟩
    · split
      · exact ⟨[], [], by simp, rfl, acts_of_idle hrefl (by simp) (by simp) (by simp [Covers])⟩
      · exact ⟨[], _, by simp, rfl,
          acts_of_idle hrefl (by simp) (by simp [Task.idle]) (by simp [Covers])⟩
  | acquireStory =>
    simp only [Portal.exec]
    split
    · exact ⟨_, _, rfl, rfl,
        acts_of_idle hrefl (by simp [Event.spares]) (by simp [Task.idle]) (by simp [Covers])⟩
    · exact ⟨[], [], by simp, rfl, acts_of_idle hrefl (by simp) (by simp) (by simp [Covers])⟩
  | assignStory storyId =>
    obtain hcase | ⟨groupId, -, -, hcase⟩ | ⟨groupId, -, hfree, -, hcase⟩ :=
      v.registry.assignStory_cases storyId thread.request.names now
    · refine ⟨[], [.undoAcquire], by simp [Portal.exec, hcase],
        by simp [Portal.exec, hcase, Thread.first], ?_⟩
      simp only [Portal.exec, hcase]
      exact acts_of_idle hrefl (by simp) (by simp [Task.idle]) (by simp [Covers])
    · refine ⟨[], [], by simp [Portal.exec, hcase], by simp [Portal.exec, hcase], ?_⟩
      simp only [Portal.exec, hcase]
      exact acts_of_idle (KeeperRegistry.keeps_clearKeepers _ _ _) (by simp) (by simp)
        (by simp [Covers])
    · refine ⟨[], _, by simp [Portal.exec, hcase], by simp only [Portal.exec, hcase]; rfl, ?_⟩
      simp only [Portal.exec, hcase]
      refine .bind rfl hfree (by simp [Task.Fits]) ?_
      simp [Task.starts?, Notification.startsGrapher]
  | listKeepers storyId groupId =>
    refine ⟨[], _, by simp [Portal.exec], rfl, ?_⟩
    refine .quiet (KeeperRegistry.keeps_clearKeepers _ _ _) (by simp) ?_ (by simp [Task.starts?])
      (by simp [Covers])
    simp only [List.mem_singleton, forall_eq, Task.Fits]
    exact fun card hcard => KeeperRegistry.groupId_of_mem_activeKeepers hnamed hcard
  | readPlayer storyId groupId keepers =>
    simp only [Portal.exec]
    split
    · exact ⟨[], _, by simp, rfl, acts_of_idle hrefl (by simp)
        (by simp [Task.idle, Notification.startsGrapher]) (by simp [Covers])⟩
    · exact ⟨[], [], by simp, rfl, acts_of_idle hrefl (by simp) (by simp) (by simp [Covers])⟩
  | forgetStory storyId groupId =>
    refine ⟨[], _, by simp [Portal.exec], rfl, ?_⟩
    simp only [Portal.exec, KeeperRegistry.forgetStory]
    have hkeepers : ∀ card ∈ v.registry.activeKeepers groupId, card.groupId = groupId :=
      fun card hcard => KeeperRegistry.groupId_of_mem_activeKeepers hnamed hcard
    split
    · next hrecorded =>
      exact .erase (.inr rfl) (by simpa [KeeperRegistry.storyRecordedByGroup] using hrecorded)
        (List.mem_singleton.mpr rfl) (by simpa [Task.Fits] using hkeepers) (by simp [Task.starts?])
    · exact .quiet (KeeperRegistry.keeps_clearKeepers _ _ _) (by simp)
        (by simpa [Task.Fits] using hkeepers) (by simp [Task.starts?]) (by simp [Covers])
  | undoAcquire =>
    obtain ⟨es, hes, hspares⟩ :=
      spares_release cityHash64 v i thread.request.clientId thread.request.names
    exact ⟨es, [], hes, rfl, acts_of_idle hrefl hspares (by simp) (by simp [Covers])⟩
  | checkRunning n =>
    simp only [Portal.exec]
    split
    · exact ⟨[], _, by simp, rfl, .quiet hrefl (by simp) (by simp [Task.Fits])
        (by simp [Task.starts?]) (by simp [Covers])⟩
    · exact ⟨[], _, by simp, rfl, acts_of_idle hrefl (by simp) (idle_afterFailed n)
        (by simp [Covers])⟩
  | findClient n =>
    simp only [Portal.exec]
    split
    · exact ⟨[], _, by simp, rfl, .quiet hrefl (by simp) (by simp [Task.Fits])
        (by simp [Task.starts?]) (by simp [Covers])⟩
    · exact ⟨[], _, by simp, rfl, acts_of_idle hrefl (by simp) (idle_afterFailed n)
        (by simp [Covers])⟩
  | send n client =>
    simp only [Portal.exec]
    split
    · exact ⟨_, [], rfl, rfl, acts_of_idle hrefl (spares_executedEvent rfl) (by simp)
        (by simp [Covers])⟩
    · next hrpc hpeer =>
      split
      · refine ⟨_, _, rfl, rfl, .quiet hrefl (spares_executedEvent rfl) (by simp [Task.Fits]) ?_
          (by simp [Covers])⟩
        simp [Task.starts?, Notification.startsGrapher, hrpc, hpeer]
      · exact ⟨_, _, rfl, rfl, acts_of_idle hrefl (spares_executedEvent rfl) (idle_afterFailed n)
          (by simp [Covers])⟩
    · split
      · exact ⟨_, [], rfl, rfl, acts_of_idle hrefl (spares_executedEvent rfl) (by simp)
          (by simp [Covers])⟩
      · exact ⟨_, _, rfl, rfl, acts_of_idle hrefl (spares_executedEvent rfl) (idle_afterFailed n)
          (by simp [Covers])⟩
  | checkKeepers rpc storyId groupId keepers =>
    simp only [Portal.exec]
    split
    · refine ⟨[], _, by simp, rfl, .quiet hrefl (by simp) (by simpa [Task.Fits] using hfits) ?_ ?_⟩
      · cases rpc <;> simp [Task.starts?]
      · intro card client storyId' hcovers hclient
        refine .inl ⟨_, List.mem_singleton.mpr rfl, ?_⟩
        cases rpc
        · cases hcovers
        · exact hcovers
    · next hstopped =>
      cases rpc with
      | start =>
        exact ⟨[], _, by simp, rfl, acts_of_idle hrefl (by simp)
          (by simp [afterFailedKeepers, Task.idle, Notification.startsGrapher]) (by simp [Covers])⟩
      | stop =>
        refine ⟨[], [], by simp, rfl, acts_of_idle hrefl (by simp) (by simp) ?_⟩
        rintro card client storyId' ⟨-, hcard⟩
        cases keepers with
        | nil => cases hcard
        | cons card' keepers => exact hstopped (hrunning rfl)
  | copyKeepers rpc storyId groupId keepers =>
    refine ⟨[], _, by simp [Portal.exec], rfl, ?_⟩
    have htargets : ∀ target ∈ v.registry.targets keepers, target.1.groupId = groupId ∧
        target.2.serial < v.registry.nextClient := by
      rintro ⟨card, client⟩ htarget
      obtain ⟨hcard, hclient⟩ := KeeperRegistry.mem_targets.mp htarget
      exact ⟨hfits card hcard, hregistered card client hclient⟩
    obtain hsend | ⟨hnone, hidle⟩ :=
      keeperTasks_cases rpc storyId groupId (v.registry.targets keepers) []
    · rw [hsend]
      refine .quiet hrefl (by simp) ?_ ?_ ?_
      · simp only [List.mem_singleton, forall_eq, Task.Fits]
        exact htargets
      · cases rpc <;> simp [Task.starts?]
      · intro card client storyId' hcovers hclient
        refine .inl ⟨_, List.mem_singleton.mpr rfl, ?_⟩
        cases rpc
        · cases hcovers
        · exact ⟨hcovers.1, KeeperRegistry.mem_targets.mpr ⟨hcovers.2, hclient⟩⟩
    · refine .quiet hrefl (by simp) (fun t ht => fits_of_idle (hidle t ht) _) ?_ ?_
      · intro t ht p hp
        rw [starts?_of_idle (hidle t ht)] at hp
        cases hp
      · intro card client storyId' hcovers hclient
        cases rpc
        · cases hcovers
        · have hmem := KeeperRegistry.mem_targets.mpr ⟨hcovers.2, hclient⟩
          rw [hnone] at hmem
          cases hmem
  | sendKeepers rpc storyId groupId targets started =>
    cases targets with
    | nil =>
      refine ⟨[], [], by simp [Portal.exec], rfl, acts_of_idle hrefl (by simp) (by simp) ?_⟩
      cases rpc <;> simp [Covers]
    | cons target targets =>
      obtain ⟨card, client⟩ := target
      obtain ⟨hgroup, hserial⟩ := hfits (card, client) (by simp)
      refine ⟨_, _, rfl, rfl, ?_⟩
      simp only [executedEvent, hreply rfl, if_true]
      generalize (if reply = .ok then started ++ [card] else started) = started'
      have hstart : rpc = .start →
          (Task.sendKeepers rpc storyId groupId ((card, client) :: targets) started).starts? =
            some (storyId, card.groupId) := by
        rintro rfl
        rw [show card.groupId = groupId from hgroup]
        rfl
      obtain hsend | ⟨hnone, hidle⟩ := keeperTasks_cases rpc storyId groupId targets started'
      · rw [hsend]
        refine .rpc hserial (fun h => .inl (hstart h)) ?_ ?_ ?_
        · simp only [List.mem_singleton, forall_eq, Task.Fits]
          exact fun target htarget => hfits target (List.mem_cons_of_mem _ htarget)
        · cases rpc <;> simp [Task.starts?]
        · intro card' client' storyId' hcovers
          cases rpc
          · cases hcovers
          · obtain ⟨hstory, hmem⟩ := hcovers
            obtain heq | hmem := List.mem_cons.mp hmem
            · cases heq
              exact .inl ⟨rfl, rfl, hstory.symm, rfl⟩
            · exact .inr ⟨_, List.mem_singleton.mpr rfl, hstory, hmem⟩
      · subst hnone
        refine .rpc hserial (fun h => .inl (hstart h)) (fun t ht => fits_of_idle (hidle t ht) _)
          ?_ ?_
        · intro t ht p hp
          rw [starts?_of_idle (hidle t ht)] at hp
          cases hp
        · intro card' client' storyId' hcovers
          cases rpc
          · cases hcovers
          · obtain ⟨hstory, hmem⟩ := hcovers
            cases List.mem_singleton.mp hmem
            exact .inl ⟨rfl, rfl, hstory.symm, rfl⟩
  | releaseStory =>
    obtain ⟨es, hes, hspares⟩ :=
      spares_release cityHash64 v i thread.request.clientId thread.request.names
    simp only [Portal.exec]
    split
    · exact ⟨es, _, hes, rfl, acts_of_idle hrefl hspares (by simp [Task.idle]) (by simp [Covers])⟩
    · exact ⟨es, [], hes, rfl, acts_of_idle hrefl hspares (by simp) (by simp [Covers])⟩
  | unassignStory storyId =>
    obtain ⟨hcase, -⟩ | ⟨groupId, -, hrecorded, hcase⟩ :=
      v.registry.unassignStory_cases storyId now
    · refine ⟨[], [], by simp [Portal.exec, hcase], by simp [Portal.exec, hcase], ?_⟩
      simp only [Portal.exec, hcase]
      exact acts_of_idle hrefl (by simp) (by simp) (by simp [Covers])
    · refine ⟨[], _, by simp [Portal.exec, hcase], by simp only [Portal.exec, hcase]; rfl, ?_⟩
      simp only [Portal.exec, hcase]
      refine .erase (.inl rfl) hrecorded (List.mem_cons_self ..) ?_ ?_
      · simp only [List.mem_cons, List.not_mem_nil, or_false, forall_eq_or_imp, forall_eq,
          Task.Fits, and_true]
        exact fun card hcard => KeeperRegistry.groupId_of_mem_activeKeepers hnamed hcard
      · simp [Task.starts?, Notification.startsGrapher]
  | listAcquired =>
    refine ⟨[], _, by simp [Portal.exec], rfl, acts_of_idle hrefl (by simp) ?_ (by simp [Covers])⟩
    intro t ht
    simp only [List.mem_append, List.mem_map, List.mem_cons, List.not_mem_nil, or_false] at ht
    obtain ⟨entry, -, rfl⟩ | rfl | rfl := ht <;> rfl
  | nameAcquired storyId cid =>
    simp only [Portal.exec]
    split
    · exact ⟨[], [], by simp, rfl, acts_of_idle hrefl (by simp) (by simp) (by simp [Covers])⟩
    · split
      · exact ⟨[], [], by simp, rfl, acts_of_idle hrefl (by simp) (by simp) (by simp [Covers])⟩
      · exact ⟨[], _, by simp, rfl,
          acts_of_idle hrefl (by simp) (by simp [Task.idle]) (by simp [Covers])⟩
  | releaseAcquired chronicleName storyName =>
    obtain ⟨es, hes, hspares⟩ :=
      spares_release cityHash64 v i thread.request.clientId (chronicleName, storyName)
    simp only [Portal.exec]
    split <;> exact ⟨es, [], hes, rfl, acts_of_idle hrefl hspares (by simp) (by simp [Covers])⟩
  | stopReleased =>
    refine ⟨[], _, by simp [Portal.exec], rfl, acts_of_idle hrefl (by simp) ?_ (by simp [Covers])⟩
    intro t ht
    obtain ⟨storyId, -, rfl⟩ := List.mem_map.mp ht
    rfl
  | removeClientRecord =>
    exact ⟨[], [], by simp [Portal.exec], rfl,
      acts_of_idle hrefl (by simp) (by simp) (by simp [Covers])⟩
  | evaluateDestroy =>
    simp only [Portal.exec]
    split
    · exact ⟨[], [], by simp, rfl, acts_of_idle hrefl (by simp) (by simp) (by simp [Covers])⟩
    · split
      · refine ⟨[], _, by simp, rfl, acts_of_idle hrefl (by simp) ?_ (by simp [Covers])⟩
        split <;> simp [Task.idle]
      · exact ⟨[], [], by simp, rfl, acts_of_idle hrefl (by simp) (by simp) (by simp [Covers])⟩
  | autoRelease =>
    obtain ⟨es, hes, hspares⟩ :=
      spares_release cityHash64 v i thread.request.clientId thread.request.names
    simp only [Portal.exec]
    split
    · exact ⟨es, _, hes, rfl, acts_of_idle hrefl hspares (by simp [Task.idle]) (by simp [Covers])⟩
    · exact ⟨es, [], hes, rfl, acts_of_idle hrefl hspares (by simp) (by simp [Covers])⟩
  | destroyStory storyId =>
    simp only [Portal.exec]
    split
    · exact ⟨_, _, rfl, rfl,
        acts_of_idle hrefl (by simp [Event.spares]) (by simp [Task.idle]) (by simp [Covers])⟩
    · exact ⟨[], [], by simp, rfl, acts_of_idle hrefl (by simp) (by simp) (by simp [Covers])⟩
  | checkBroadcast storyId =>
    simp only [Portal.exec]
    split
    · exact ⟨[], _, by simp, rfl,
        acts_of_idle hrefl (by simp) (by simp [Task.idle]) (by simp [Covers])⟩
    · exact ⟨[], [], by simp, rfl, acts_of_idle hrefl (by simp) (by simp) (by simp [Covers])⟩
  | listGraphers storyId =>
    refine ⟨[], _, by simp [Portal.exec], rfl, acts_of_idle hrefl (by simp) ?_ (by simp [Covers])⟩
    unfold destroyTasks
    split <;> simp [Task.idle]
  | sendDestroy storyId clients =>
    cases clients with
    | nil =>
      exact ⟨[], [], by simp [Portal.exec], rfl,
        acts_of_idle hrefl (by simp) (by simp) (by simp [Covers])⟩
    | cons client clients =>
      refine ⟨_, _, rfl, rfl, acts_of_idle hrefl (spares_executedEvent rfl) ?_ (by simp [Covers])⟩
      unfold destroyTasks
      split <;> simp [Task.idle]
  | registerKeeper =>
    obtain ⟨r, hcase, hkeeps⟩ | ⟨r, client, hcase, hadds⟩ :=
      v.registry.registerKeeperProcess_cases thread.request.card thread.request.adminService now
    · refine ⟨[], [], by simp [Portal.exec, hcase], by simp [Portal.exec, hcase], ?_⟩
      simp only [Portal.exec, hcase]
      exact acts_of_idle hkeeps (by simp) (by simp) (by simp [Covers])
    · refine ⟨[], _, by simp [Portal.exec, hcase], by simp only [Portal.exec, hcase]; rfl, ?_⟩
      simp only [Portal.exec, hcase]
      refine .register rfl hadds ?_ ?_
      · intro t ht
        rw [heldTasks_cases client _ t ht, Task.Fits, hadds.serial, hadds.next]
        exact Nat.lt_succ_self _
      · intro t ht
        rw [heldTasks_cases client _ t ht]
        rfl
  | checkHeld client stories =>
    have hheld : ∀ stories, ∀ t ∈ heldTasks client stories, t.Fits v.registry.nextClient ∧
        t.starts? = none := by
      intro stories t ht
      rw [heldTasks_cases client stories t ht]
      exact ⟨hfits, rfl⟩
    cases stories with
    | nil =>
      exact ⟨[], [], by simp [Portal.exec], rfl,
        acts_of_idle hrefl (by simp) (by simp) (by simp [Covers])⟩
    | cons storyId stories =>
      simp only [Portal.exec]
      split
      · exact ⟨[], [], by simp, rfl, acts_of_idle hrefl (by simp) (by simp) (by simp [Covers])⟩
      · split
        · exact ⟨[], _, by simp, rfl, .quiet hrefl (by simp) (by simpa [Task.Fits] using hfits)
            (by simp [Task.starts?]) (by simp [Covers])⟩
        · refine ⟨[], _, by simp, rfl, .quiet hrefl (by simp) (fun t ht => (hheld _ t ht).1) ?_
            (by simp [Covers])⟩
          intro t ht p hp
          rw [(hheld _ t ht).2] at hp
          cases hp
  | startHeld client storyId stories =>
    refine ⟨_, _, rfl, rfl, ?_⟩
    simp only [executedEvent, hreply rfl, if_true]
    exact .rpc hfits (fun _ => .inr ⟨_, List.mem_singleton.mpr rfl, rfl, rfl, rfl⟩)
      (by simpa [Task.Fits] using hfits) (by simp [Task.starts?]) (by simp [Covers])
  | recheckHeld client storyId stories =>
    simp only [Portal.exec]
    split
    · next hdone =>
      refine ⟨[], _, by simp, rfl, .quiet hrefl (by simp) ?_ ?_ ?_⟩
      · intro t ht
        rw [heldTasks_cases client stories t ht]
        exact hfits
      · intro t ht p hp
        rw [heldTasks_cases client stories t ht] at hp
        cases hp
      · rintro card client' storyId' ⟨rfl, rfl, rfl⟩ hclient
        right
        have hrecorded := hdone.resolve_left (by simpa using hclient)
        simpa [KeeperRegistry.storyRecordedByGroup] using hrecorded
    · refine ⟨[], _, by simp, rfl, .quiet hrefl (by simp) (by simpa [Task.Fits] using hfits)
        (by simp [Task.starts?]) ?_⟩
      intro card client' storyId' hcovers hclient
      exact .inl ⟨_, List.mem_singleton.mpr rfl, hcovers⟩
  | stopHeld client storyId stories =>
    refine ⟨_, _, rfl, rfl, ?_⟩
    simp only [executedEvent, hreply rfl, if_true]
    refine .rpc hfits (by simp) ?_ ?_ ?_
    · intro t ht
      rw [heldTasks_cases client stories t ht]
      exact hfits
    · intro t ht p hp
      rw [heldTasks_cases client stories t ht] at hp
      cases hp
    · rintro card client' storyId' ⟨rfl, rfl, rfl⟩
      exact .inl ⟨rfl, rfl, rfl, rfl⟩

/-! ### The invariant -/

theorem lastRpc_append {trace : List Event} (card : KeeperIdCard) (client : DataStoreAdminClient)
    (storyId : StoryId) (h : ∀ e ∈ es, e.spares = true) :
    lastRpc (trace ++ es) card client storyId = lastRpc trace card client storyId := by
  have hnone : es.filterMap (Event.rpcAt? card client storyId) = [] := by
    refine List.filterMap_eq_nil_iff.mpr fun e he => ?_
    have hspares := h e he
    cases e <;> simp_all [Event.spares, Event.rpcAt?]
  rw [lastRpc, List.filterMap_append, hnone, List.append_nil, lastRpc]

theorem lastRpc_concat {trace : List Event} (card card' : KeeperIdCard)
    (client client' : DataStoreAdminClient) (storyId storyId' : StoryId) (rpc : Rpc) :
    lastRpc (trace ++ [.keeperRpc card' client' storyId' rpc]) card client storyId =
      if card' = card ∧ client' = client ∧ storyId' = storyId then some rpc
      else lastRpc trace card client storyId := by
  rw [lastRpc, List.filterMap_append]
  split
  · next h => simp [Event.rpcAt?, h]
  · next h => simp [Event.rpcAt?, h, lastRpc]

theorem mem_of_lastRpc {trace : List Event} {card : KeeperIdCard} {client : DataStoreAdminClient}
    {storyId : StoryId} {rpc : Rpc} (h : lastRpc trace card client storyId = some rpc) :
    .keeperRpc card client storyId rpc ∈ trace := by
  obtain ⟨e, he, hrpc⟩ := List.mem_filterMap.mp (List.mem_of_getLast? h)
  cases e <;> simp only [Event.rpcAt?] at hrpc <;> try cases hrpc
  split at hrpc
  · next heq =>
    obtain ⟨rfl, rfl, rfl⟩ := heq
    cases hrpc
    exact he
  · cases hrpc

/-- Some thread is about to stop the story at the keeper, or to check it again. -/
def Portal.Covered (v : Portal) (card : KeeperIdCard) (client : DataStoreAdminClient)
    (storyId : StoryId) : Prop :=
  ∃ (i : ℕ) (thread : Thread), v.threads[i]? = some thread ∧
    ∃ t ∈ thread.todo, Covers card client storyId thread.request t

/-- The clients that the registry, the trace and the tasks mention exist, and the
keepers are those of their groups. -/
structure Filed (v : Portal) : Prop where
  named : v.registry.Named
  registered : ∀ card client, v.registry.keeperClient? card = some client →
    client.serial < v.registry.nextClient
  executed : ∀ card client storyId rpc, .keeperRpc card client storyId rpc ∈ v.trace →
    client.serial < v.registry.nextClient
  fits : ∀ (i : ℕ) (thread : Thread), v.threads[i]? = some thread →
    ∀ t ∈ thread.todo, t.Fits v.registry.nextClient

/-- The invariant: the keepers that are being started are in a group that records the
story, and so is every keeper that has started it, unless a thread covers it. -/
structure Accounted (v : Portal) : Prop where
  filed : Filed v
  bound : ∀ (i : ℕ) (thread : Thread), v.threads[i]? = some thread → ∀ t ∈ thread.todo,
    ∀ p, t.starts? = some p → v.registry.activeStories[p.1]? = some p.2
  covered : ∀ card client, v.registry.keeperClient? card = some client → ∀ storyId,
    lastRpc v.trace card client storyId = some .start →
    v.registry.activeStories[storyId]? = some card.groupId ∨ v.Covered card client storyId

theorem accounted_initial : Accounted {} where
  filed :=
    { named := by
        intro groupId group hget
        simp at hget
      registered := by
        intro card client hclient
        simp [KeeperRegistry.keeperClient?, KeeperRegistry.keeper?, KeeperRegistry.group] at hclient
      executed := by simp
      fits := by simp }
  bound := by simp
  covered := by simp [lastRpc]

theorem fits_mono {t : Task} {n n' : ℕ} (hn : n ≤ n') (h : t.Fits n) : t.Fits n' := by
  cases t with
  | sendKeepers rpc storyId groupId targets started =>
    exact fun target htarget =>
      ⟨(h target htarget).1, Nat.lt_of_lt_of_le (h target htarget).2 hn⟩
  | checkHeld client stories => exact Nat.lt_of_lt_of_le h hn
  | startHeld client storyId stories => exact Nat.lt_of_lt_of_le h hn
  | recheckHeld client storyId stories => exact Nat.lt_of_lt_of_le h hn
  | stopHeld client storyId stories => exact Nat.lt_of_lt_of_le h hn
  | _ => exact h

/-- What covers a keeper before a step of a thread is the task of that step, or still
covers it afterwards. -/
theorem covered_of_step {thread' : Thread} {rest tasks : List Task} {card : KeeperIdCard}
    {client : DataStoreAdminClient} {storyId : StoryId} (hthread : v.threads[i]? = some thread)
    (htodo : thread.todo = task :: rest) (hthreads : v'.threads = v.threads.set i thread')
    (hrequest : thread'.request = thread.request) (htodo' : thread'.todo = tasks ++ rest)
    (h : v.Covered card client storyId) :
    Covers card client storyId thread.request task ∨ v'.Covered card client storyId := by
  obtain ⟨j, t, ht, t', ht', hcovers⟩ := h
  by_cases hj : i = j
  · subst hj
    rw [hthread] at ht
    cases ht
    rw [htodo, List.mem_cons] at ht'
    obtain rfl | ht' := ht'
    · exact .inl hcovers
    · refine .inr ⟨i, thread', ?_, t', ?_, by rwa [hrequest]⟩
      · rw [hthreads]
        exact List.getElem?_set_self (List.getElem?_eq_some_iff.mp hthread).1
      · rw [htodo']
        exact List.mem_append_right _ ht'
  · refine .inr ⟨j, t, ?_, t', ht', hcovers⟩
    rw [hthreads, List.getElem?_set_ne hj]
    exact ht

/-- The tasks of the threads after a step. -/
theorem todo_of_step {thread' : Thread} {rest tasks : List Task}
    (hthread : v.threads[i]? = some thread) (htodo : thread.todo = task :: rest)
    (hthreads : v'.threads = v.threads.set i thread') (htodo' : thread'.todo = tasks ++ rest)
    {j : ℕ} {t : Thread} (ht : v'.threads[j]? = some t) {t' : Task} (ht' : t' ∈ t.todo) :
    t' ∈ tasks ∨ ∃ (k : ℕ) (u : Thread), v.threads[k]? = some u ∧ t' ∈ u.todo := by
  rw [hthreads] at ht
  obtain ⟨rfl, rfl⟩ | ⟨-, ht⟩ := getElem?_set_cases ht
  · rw [htodo', List.mem_append] at ht'
    refine ht'.imp_right fun hrest => ⟨j, thread, hthread, ?_⟩
    rw [htodo]
    exact List.mem_cons_of_mem _ hrest
  · exact .inr ⟨j, t, ht, ht'⟩

/-! ### The step -/

theorem Acts.serials {tasks : List Task} (h : Acts v request task r es tasks) :
    v.registry.nextClient ≤ r.nextClient := by
  cases h with
  | quiet hkeeps => exact hkeeps.serials
  | register _ hadds =>
    rw [hadds.next]
    exact Nat.le_succ _
  | _ => exact Nat.le_refl _

/-- The clients after a step: those before it, and that of a keeper that registers. -/
theorem Acts.clients {tasks : List Task} (h : Acts v request task r es tasks)
    (hnamed : v.registry.Named) {card : KeeperIdCard} {client : DataStoreAdminClient}
    (hclient : r.keeperClient? card = some client) :
    v.registry.keeperClient? card = some client ∨
      client.serial = v.registry.nextClient ∧ r.nextClient = v.registry.nextClient + 1 ∧
        es = [] := by
  cases h with
  | quiet hkeeps => exact .inl (hkeeps.clients hnamed card client hclient)
  | bind => exact .inl hclient
  | @erase storyId groupId now tasks =>
    exact .inl ((v.registry.keeps_clearKeepers groupId now).clients hnamed card client hclient)
  | rpc => exact .inl hclient
  | register _ hadds =>
    obtain ⟨-, rfl⟩ | hclient := hadds.clients hnamed card client hclient
    · exact .inr ⟨hadds.serial, hadds.next, rfl⟩
    · exact .inl hclient

theorem Acts.named {tasks : List Task} (h : Acts v request task r es tasks)
    (hnamed : v.registry.Named) : r.Named := by
  cases h with
  | quiet hkeeps => exact hkeeps.named hnamed
  | bind => exact hnamed
  | @erase storyId groupId now tasks =>
    exact (v.registry.keeps_clearKeepers groupId now).named hnamed
  | rpc => exact hnamed
  | register _ hadds => exact hadds.named hnamed

theorem Acts.fits {tasks : List Task} (h : Acts v request task r es tasks) :
    ∀ t ∈ tasks, t.Fits r.nextClient := by
  cases h with
  | quiet _ _ hfits => exact hfits
  | bind _ _ hfits => exact hfits
  | erase _ _ _ hfits => exact hfits
  | rpc _ _ hfits => exact hfits
  | register _ _ hfits => exact hfits

theorem Acts.executed {tasks : List Task} (h : Acts v request task r es tasks)
    {card : KeeperIdCard} {client : DataStoreAdminClient} {storyId : StoryId} {rpc : Rpc}
    (hmem : .keeperRpc card client storyId rpc ∈ es) : client.serial < v.registry.nextClient := by
  cases h with
  | quiet _ hes => cases hes _ hmem
  | rpc hserial =>
    cases List.mem_singleton.mp hmem
    exact hserial
  | _ => cases hmem

section Advance

variable {thread' : Thread} {rest tasks : List Task} (hthread : v.threads[i]? = some thread)
  (htodo : thread.todo = task :: rest) (hthreads : v'.threads = v.threads.set i thread')
  (hrequest : thread'.request = thread.request) (htodo' : thread'.todo = tasks ++ rest)
  (htrace : v'.trace = v.trace ++ es)
  (hacts : Acts v thread.request task v'.registry es tasks)

include hthread htodo hthreads htodo' htrace hacts in
theorem Filed.of_acts (h : Filed v) : Filed v' := by
  refine { named := hacts.named h.named, registered := ?_, executed := ?_, fits := ?_ }
  · intro card client hclient
    obtain hclient | ⟨hserial, hnext, -⟩ := hacts.clients h.named hclient
    · exact Nat.lt_of_lt_of_le (h.registered card client hclient) hacts.serials
    · rw [hserial, hnext]
      exact Nat.lt_succ_self _
  · intro card client storyId rpc hmem
    rw [htrace, List.mem_append] at hmem
    refine Nat.lt_of_lt_of_le ?_ hacts.serials
    obtain hmem | hmem := hmem
    · exact h.executed card client storyId rpc hmem
    · exact hacts.executed hmem
  · intro j t ht t' ht'
    obtain ht' | ⟨k, u, hu, ht'⟩ := todo_of_step hthread htodo hthreads htodo' ht ht'
    · exact hacts.fits t' ht'
    · exact fits_mono hacts.serials (h.fits k u hu t' ht')

include hthread htodo hthreads htodo' hacts in
/-- The stories whose keepers are being started stay assigned, if no story is erased
while its keepers are being started. -/
theorem Accounted.bound_of_acts (h : Accounted v)
    (hcond : ∀ storyId groupId, task = .unassignStory storyId ∨
      task = .forgetStory storyId groupId → ∀ (j : ℕ) (t : Thread), v.threads[j]? = some t →
        ∀ t' ∈ t.todo, ∀ p, t'.starts? = some p → p.1 ≠ storyId) :
    ∀ (j : ℕ) (t : Thread), v'.threads[j]? = some t → ∀ t' ∈ t.todo, ∀ p, t'.starts? = some p →
      v'.registry.activeStories[p.1]? = some p.2 := by
  intro j t ht t' ht' p hp
  have hold := todo_of_step hthread htodo hthreads htodo' ht ht'
  have hhead : ∀ p, task.starts? = some p → v.registry.activeStories[p.1]? = some p.2 :=
    h.bound i thread hthread task (by rw [htodo]; simp)
  generalize v'.registry = r at hacts ⊢
  cases hacts with
  | quiet hkeeps _ _ hstarts =>
    rw [hkeeps.stories]
    obtain ht' | ⟨k, u, hu, ht'⟩ := hold
    · exact hhead p (hstarts t' ht' p hp)
    · exact h.bound k u hu t' ht' p hp
  | @bind storyId names groupId tasks htask hfree _ hstarts =>
    change (v.registry.activeStories.insert storyId groupId)[p.1]? = _
    obtain ht' | ⟨k, u, hu, ht'⟩ := hold
    · rw [hstarts t' ht' p hp]
      simp
    · have hp' := h.bound k u hu t' ht' p hp
      have hne : storyId ≠ p.1 := by
        rintro rfl
        rw [hfree] at hp'
        cases hp'
      rw [Std.ExtTreeMap.getElem?_insert, if_neg (by simpa using hne)]
      exact hp'
  | @erase storyId groupId now tasks htask hrecorded _ _ hstarts =>
    change (v.registry.activeStories.erase storyId)[p.1]? = _
    obtain ht' | ⟨k, u, hu, ht'⟩ := hold
    · rw [hstarts t' ht'] at hp
      cases hp
    · have hne : storyId ≠ p.1 := (hcond storyId groupId htask k u hu t' ht' p hp).symm
      rw [Std.ExtTreeMap.getElem?_erase, if_neg (by simpa using hne)]
      exact h.bound k u hu t' ht' p hp
  | rpc _ _ _ hstarts =>
    obtain ht' | ⟨k, u, hu, ht'⟩ := hold
    · exact hhead p (hstarts t' ht' p hp)
    · exact h.bound k u hu t' ht' p hp
  | register _ hadds _ hstarts =>
    rw [hadds.stories]
    obtain ht' | ⟨k, u, hu, ht'⟩ := hold
    · rw [hstarts t' ht'] at hp
      cases hp
    · exact h.bound k u hu t' ht' p hp

include hthread hthreads hrequest htodo' in
theorem covered_of_task {card : KeeperIdCard} {client : DataStoreAdminClient} {storyId : StoryId}
    (h : ∃ t ∈ tasks, Covers card client storyId thread.request t) :
    v'.Covered card client storyId := by
  obtain ⟨t, ht, hcovers⟩ := h
  refine ⟨i, thread', ?_, t, ?_, by rwa [hrequest]⟩
  · rw [hthreads]
    exact List.getElem?_set_self (List.getElem?_eq_some_iff.mp hthread).1
  · rw [htodo']
    exact List.mem_append_left _ ht

include hthread htodo hthreads hrequest htodo' htrace hacts in
/-- A keeper that has started a story is still in a group that records it, or covered. -/
theorem Accounted.covered_of_acts (h : Accounted v) (card : KeeperIdCard)
    (client : DataStoreAdminClient) (hclient : v'.registry.keeperClient? card = some client)
    (storyId : StoryId) (hlast : lastRpc v'.trace card client storyId = some .start) :
    v'.registry.activeStories[storyId]? = some card.groupId ∨ v'.Covered card client storyId := by
  have hclient : v.registry.keeperClient? card = some client := by
    obtain hclient | ⟨hserial, -, rfl⟩ := hacts.clients h.filed.named hclient
    · exact hclient
    · -- nobody has sent anything through a new client
      rw [htrace, List.append_nil] at hlast
      have hlt := h.filed.executed _ _ _ _ (mem_of_lastRpc hlast)
      omega
  have hnew : (∃ t ∈ tasks, Covers card client storyId thread.request t) →
      v'.Covered card client storyId := covered_of_task hthread hthreads hrequest htodo'
  have hold : lastRpc v.trace card client storyId = some .start →
      v.registry.activeStories[storyId]? = some card.groupId ∨
        Covers card client storyId thread.request task ∨ v'.Covered card client storyId :=
    fun hl => (h.covered card client hclient storyId hl).imp_right
      (covered_of_step hthread htodo hthreads hrequest htodo')
  rw [htrace] at hlast
  have hhead : ∀ p, task.starts? = some p → v.registry.activeStories[p.1]? = some p.2 :=
    h.bound i thread hthread task (by rw [htodo]; simp)
  generalize v'.registry = r at hacts ⊢
  cases hacts with
  | quiet hkeeps hes _ _ hcovers =>
    rw [lastRpc_append card client storyId hes] at hlast
    rw [hkeeps.stories]
    obtain hstory | hc | hc := hold hlast
    · exact .inl hstory
    · exact (hcovers card client storyId hc hclient).symm.imp_right hnew
    · exact .inr hc
  | @bind storyId' names groupId tasks htask hfree =>
    rw [List.append_nil] at hlast
    change (v.registry.activeStories.insert storyId' groupId)[storyId]? = _ ∨ _
    obtain hstory | hc | hc := hold hlast
    · have hne : storyId' ≠ storyId := by
        rintro rfl
        rw [hfree] at hstory
        cases hstory
      rw [Std.ExtTreeMap.getElem?_insert, if_neg (by simpa using hne)]
      exact .inl hstory
    · rw [htask] at hc
      exact hc.elim
    · exact .inr hc
  | @erase storyId' groupId now tasks htask hrecorded hstop =>
    rw [List.append_nil] at hlast
    change (v.registry.activeStories.erase storyId')[storyId]? = _ ∨ _
    obtain hstory | hc | hc := hold hlast
    · by_cases hne : storyId' = storyId
      · -- the keeper is among those that are going to be stopped
        subst hne
        rw [hrecorded] at hstory
        cases hstory
        exact .inr (hnew ⟨_, hstop, rfl, KeeperRegistry.mem_activeKeepers h.filed.named hclient⟩)
      · rw [Std.ExtTreeMap.getElem?_erase, if_neg (by simpa using hne)]
        exact .inl hstory
    · obtain rfl | rfl := htask <;> exact hc.elim
    · exact .inr hc
  | @rpc card' client' storyId' rpc tasks _ hstart _ _ hcovers =>
    rw [lastRpc_concat] at hlast
    split at hlast
    · next hsame =>
      obtain ⟨rfl, rfl, rfl⟩ := hsame
      exact (hstart (Option.some.inj hlast)).imp (hhead _) hnew
    · next hother =>
      obtain hstory | hc | hc := hold hlast
      · exact .inl hstory
      · refine .inr ((hcovers card client storyId hc).elim ?_ hnew)
        rintro ⟨rfl, rfl, rfl, -⟩
        exact absurd ⟨rfl, rfl, rfl⟩ hother
      · exact .inr hc
  | register htask hadds =>
    rw [List.append_nil] at hlast
    rw [hadds.stories]
    obtain hstory | hc | hc := hold hlast
    · exact .inl hstory
    · rw [htask] at hc
      exact hc.elim
    · exact .inr hc

end Advance

/-- A step that is not a thread's keeps the invariant, if the registry keeps its stories
and its keepers. -/
theorem Accounted.of_keeps (h : Accounted v) (hkeeps : v.registry.Keeps v'.registry)
    (hthreads : v'.threads = v.threads) (htrace : v'.trace = v.trace) : Accounted v' where
  filed :=
    { named := hkeeps.named h.filed.named
      registered := fun card client hclient => Nat.lt_of_lt_of_le
        (h.filed.registered card client (hkeeps.clients h.filed.named card client hclient))
        hkeeps.serials
      executed := fun card client storyId rpc hmem => Nat.lt_of_lt_of_le
        (h.filed.executed card client storyId rpc (htrace ▸ hmem)) hkeeps.serials
      fits := fun i thread hthread t ht =>
        fits_mono hkeeps.serials (h.filed.fits i thread (hthreads ▸ hthread) t ht) }
  bound := by
    intro i thread hthread t ht p hp
    rw [hkeeps.stories]
    exact h.bound i thread (hthreads ▸ hthread) t ht p hp
  covered := by
    intro card client hclient storyId hlast
    rw [htrace] at hlast
    rw [hkeeps.stories, Portal.Covered, hthreads]
    exact h.covered card client (hkeeps.clients h.filed.named card client hclient) storyId hlast

theorem Accounted.receive (h : Accounted v) (request : Request) :
    Accounted { v with
      threads := v.threads ++ [{ request := request, todo := [request.firstTask] }] } where
  filed :=
    { named := h.filed.named
      registered := h.filed.registered
      executed := h.filed.executed
      fits := by
        intro i thread hthread t ht
        obtain hthread | ⟨-, rfl⟩ := getElem?_concat_cases hthread
        · exact h.filed.fits i thread hthread t ht
        · rw [List.mem_singleton.mp ht]
          cases request <;> trivial }
  bound := by
    intro i thread hthread t ht p hp
    obtain hthread | ⟨-, rfl⟩ := getElem?_concat_cases hthread
    · exact h.bound i thread hthread t ht p hp
    · rw [List.mem_singleton.mp ht] at hp
      cases request <;> cases hp
  covered := by
    intro card client hclient storyId hlast
    refine (h.covered card client hclient storyId hlast).imp_right ?_
    rintro ⟨i, thread, hthread, hcovers⟩
    refine ⟨i, thread, ?_, hcovers⟩
    exact (List.getElem?_append_left (List.getElem?_eq_some_iff.mp hthread).1).trans hthread

end Steps

/-! ### Runs -/

/-- The step is not an RPC that gets lost. -/
def VisorStep.delivered : VisorStep → Bool
  | .advance _ _ reply => reply.executed
  | _ => true

/-- The story that the task erases from the registry. -/
def Task.erases? : Task → Option StoryId
  | .unassignStory storyId => some storyId
  | .forgetStory storyId _ => some storyId
  | _ => none

/-- An acquire of the story has keepers to start. -/
def Portal.Starting (v : Portal) (storyId : StoryId) : Prop :=
  ∃ thread ∈ v.threads, ∃ t ∈ thread.todo, t.starts?.map Prod.fst = some storyId

instance (v : Portal) (storyId : StoryId) : Decidable (v.Starting storyId) :=
  inferInstanceAs (Decidable (∃ thread ∈ v.threads, _))

/-- The condition on a step: when stops are about to go out to keepers the registry is
running, and no story is erased while an acquire of it has keepers to start. -/
def StopsGoOut (v : Portal) : VisorStep → Prop
  | .advance i _ _ =>
    ∀ task ∈ v.task? i,
      (task.stopsKeepers = true → v.registry.isRunning = true) ∧
      ∀ storyId ∈ task.erases?, ¬v.Starting storyId
  | _ => True

instance (v : Portal) (l : VisorStep) : Decidable (StopsGoOut v l) :=
  match l with
  | .advance i _ _ =>
    -- the other way to decide this would try all stories
    let _ (task : Task) : Decidable (∀ storyId ∈ task.erases?, ¬v.Starting storyId) :=
      Option.decidableForallMem _
    inferInstanceAs (Decidable (∀ task ∈ v.task? i, _))
  | .connect _ => .isTrue trivial
  | .createChronicle _ => .isTrue trivial
  | .receive _ => .isTrue trivial
  | .unregisterKeeper _ _ => .isTrue trivial
  | .registerGrapher _ _ _ => .isTrue trivial
  | .unregisterGrapher _ _ => .isTrue trivial
  | .registerPlayer _ _ _ => .isTrue trivial
  | .unregisterPlayer _ _ => .isTrue trivial

section Runs

variable {cityHash64 : String → UInt64} {v v' : Portal}

theorem Accounted.advance (h : Accounted v) {i now : ℕ} {reply : Reply}
    (hreply : reply.executed = true) (hcond : StopsGoOut v (.advance i now reply))
    (hstep : v.advance cityHash64 i now reply = some v') : Accounted v' := by
  obtain ⟨thread, task, rest, hthread, htodo, htask, rfl⟩ := Portal.advance_eq_some hstep
  obtain ⟨hrunning, herases⟩ := hcond task htask
  have hfits : task.Fits v.registry.nextClient :=
    h.filed.fits i thread hthread task (by rw [htodo]; simp)
  obtain ⟨es, tasks, htrace, htodo', hacts⟩ :=
    exec_acts cityHash64 v i now { thread with todo := rest } reply task h.filed.named
      h.filed.registered hfits (fun _ => hreply) hrunning
  have hrequest := Portal.request_exec cityHash64 v i { thread with todo := rest } now reply task
  generalize v.exec cityHash64 i { thread with todo := rest } now reply task = r at *
  refine { filed := h.filed.of_acts hthread htodo rfl htodo' htrace hacts, bound := ?_,
           covered := h.covered_of_acts hthread htodo rfl hrequest htodo' htrace hacts }
  refine h.bound_of_acts hthread htodo rfl htodo' hacts ?_
  intro storyId groupId htask' j t ht t' ht' p hp
  rintro rfl
  refine herases p.1 ?_ ⟨t, List.mem_of_getElem? ht, t', ht', by rw [hp, Option.map_some]⟩
  obtain rfl | rfl := htask' <;> rfl

/-- A step that meets the condition keeps the invariant. -/
theorem accounted_step (h : Accounted v) {l : VisorStep}
    (hcond : l.delivered = true ∧ StopsGoOut v l)
    (hstep : (visor cityHash64).step v l = some v') : Accounted v' := by
  cases l with
  | advance i now reply => exact h.advance hcond.1 hcond.2 hstep
  | receive request =>
    obtain rfl := Option.some.inj hstep
    exact h.receive request
  | connect clientId =>
    obtain rfl := Option.some.inj hstep
    exact h.of_keeps (.refl _) rfl rfl
  | createChronicle name =>
    obtain rfl := Option.some.inj hstep
    exact h.of_keeps (.refl _) rfl rfl
  | unregisterKeeper card now =>
    obtain rfl := Option.some.inj hstep
    exact h.of_keeps (KeeperRegistry.keeps_unregisterKeeperProcess _ _ _) rfl rfl
  | registerGrapher groupId adminService now =>
    obtain rfl := Option.some.inj hstep
    exact h.of_keeps (KeeperRegistry.keeps_registerGrapherProcess _ _ _ _) rfl rfl
  | unregisterGrapher groupId now =>
    obtain rfl := Option.some.inj hstep
    exact h.of_keeps (KeeperRegistry.keeps_unregisterGrapherProcess _ _ _) rfl rfl
  | registerPlayer groupId adminService now =>
    obtain rfl := Option.some.inj hstep
    exact h.of_keeps (KeeperRegistry.keeps_registerPlayerProcess _ _ _ _) rfl rfl
  | unregisterPlayer groupId now =>
    obtain rfl := Option.some.inj hstep
    exact h.of_keeps (KeeperRegistry.keeps_unregisterPlayerProcess _ _ _) rfl rfl

/-- The registered keepers whose last RPC for a story is a start are in the group that
the registry has for the story. -/
def NoneLeftRecording (v : Portal) : Prop :=
  ∀ card client, v.registry.keeperClient? card = some client → ∀ storyId,
    lastRpc v.trace card client storyId = some .start →
    v.registry.activeStories[storyId]? = some card.groupId

/-- **No keeper is left recording.**  In every run without lost RPCs whose steps all meet
the condition, whenever no call is in progress a registered keeper whose last RPC for a
story is a start is in the group that records the story. -/
theorem no_keeper_left_recording (cityHash64 : String → UInt64) {v₀ v : Portal}
    {ls : List VisorStep} (hinit : (visor cityHash64).Initial v₀)
    (hdelivered : ∀ l ∈ ls, l.delivered = true)
    (hcond : (visor cityHash64).StepsMeet StopsGoOut v₀ ls)
    (hrun : (visor cityHash64).run v₀ ls = some v)
    (hquiet : ∀ thread ∈ v.threads, thread.todo = []) : NoneLeftRecording v := by
  obtain rfl : v₀ = {} := hinit
  have haccounted : Accounted v :=
    System.run_induction_of_stepsMeet (fun _ _ _ h hc hstep => accounted_step h hc hstep)
      accounted_initial (hcond.and_of_forall hdelivered) hrun
  intro card client hclient storyId hlast
  refine (haccounted.covered card client hclient storyId hlast).resolve_right ?_
  -- there is no task that could cover the keeper
  rintro ⟨i, thread, hthread, t, ht, -⟩
  rw [hquiet thread (List.mem_of_getElem? hthread)] at ht
  cases ht

end Runs

/-- The story is released after a keeper's registration has decided to start it; the
keeper is told to stop it first, starts it, and is told to stop it again. -/
theorem no_keeper_left_recording_released :
    ∃ v, (visor cityHash64OfSea).run {} (heldStory ++
        [.receive (.registerKeeper ⟨1, 8⟩ 201)] ++ advances 2 2 ++
        [.receive (.releaseStory 5 "sea" "salt")] ++ advances 3 11 ++ advances 2 3) = some v ∧
      [.keeperRpc ⟨1, 8⟩ ⟨2, 201⟩ 0x2e9c309aa333f285 .stop,
        .keeperRpc ⟨1, 8⟩ ⟨2, 201⟩ 0x2e9c309aa333f285 .start,
        .keeperRpc ⟨1, 8⟩ ⟨2, 201⟩ 0x2e9c309aa333f285 .stop].Sublist v.trace ∧
      NoneLeftRecording v := by
  have hend : ((visor cityHash64OfSea).run {} (heldStory ++
      [.receive (.registerKeeper ⟨1, 8⟩ 201)] ++ advances 2 2 ++
      [.receive (.releaseStory 5 "sea" "salt")] ++ advances 3 11 ++ advances 2 3)).any (fun v =>
        decide ((∀ thread ∈ v.threads, thread.todo = []) ∧
          [.keeperRpc ⟨1, 8⟩ ⟨2, 201⟩ 0x2e9c309aa333f285 .stop,
            .keeperRpc ⟨1, 8⟩ ⟨2, 201⟩ 0x2e9c309aa333f285 .start,
            .keeperRpc ⟨1, 8⟩ ⟨2, 201⟩ 0x2e9c309aa333f285 .stop].Sublist v.trace)) = true := by
    decide +kernel
  obtain ⟨v, hrun, hv⟩ := (Option.any_eq_true _ _).mp hend
  obtain ⟨hquiet, htrace⟩ := of_decide_eq_true hv
  exact ⟨v, hrun, htrace, no_keeper_left_recording cityHash64OfSea rfl (by decide)
    (System.stepsMeet_of_check (by decide +kernel)) hrun hquiet⟩

/-- The run loses no RPC, and ends with no call in progress and a keeper left recording. -/
def LeavesRecording (cityHash64 : String → UInt64) (ls : List VisorStep) : Prop :=
  ∃ v, (visor cityHash64).run {} ls = some v ∧ (∀ l ∈ ls, l.delivered = true) ∧
    (∀ thread ∈ v.threads, thread.todo = []) ∧ ¬NoneLeftRecording v

theorem leavesRecording_of_check {cityHash64 : String → UInt64} {ls : List VisorStep}
    {card : KeeperIdCard} {client : DataStoreAdminClient} {storyId : StoryId}
    (h : ((visor cityHash64).run {} ls).any (fun v => decide
      ((∀ l ∈ ls, l.delivered = true) ∧ (∀ thread ∈ v.threads, thread.todo = []) ∧
        v.registry.keeperClient? card = some client ∧
        lastRpc v.trace card client storyId = some .start ∧
        v.registry.activeStories[storyId]? = none)) = true) :
    LeavesRecording cityHash64 ls := by
  obtain ⟨v, hrun, hv⟩ := (Option.any_eq_true _ _).mp h
  obtain ⟨hdelivered, hquiet, hclient, hlast, hnone⟩ := of_decide_eq_true hv
  refine ⟨v, hrun, hdelivered, hquiet, fun hleft => ?_⟩
  have hstory := hleft card client hclient storyId hlast
  rw [hnone] at hstory
  cases hstory

/-- **A keeper is left recording a released story**: the group's grapher unregisters
between the erase of the story and its stops, which are skipped.  **So is one whose
start comes after the release**: the client disconnects while its acquire is about to
start the keepers. -/
theorem skipped_stop_leaves_keeper_recording :
    LeavesRecording cityHash64OfSea (heldStory ++ [.receive (.releaseStory 5 "sea" "salt")] ++
      advances 2 2 ++ [.unregisterGrapher 1 0] ++ advances 2 3) ∧
    LeavesRecording cityHash64OfSea (askedStory 6 ++ [.receive (.clientDisconnect 5)] ++
      advances 2 14 ++ advances 1 5) :=
  ⟨@leavesRecording_of_check _ _ ⟨1, 7⟩ ⟨1, 200⟩ 0x2e9c309aa333f285 (by decide +kernel),
    @leavesRecording_of_check _ _ ⟨1, 7⟩ ⟨1, 200⟩ 0x2e9c309aa333f285 (by decide +kernel)⟩

end ChronoLog.Visor
