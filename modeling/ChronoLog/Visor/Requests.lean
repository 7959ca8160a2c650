import ChronoLog.Visor.KeeperRegistry

/-!
# The requests of the visor

A request runs in a thread of its own.  It takes the directory's mutex, the
registry's lock and the RPCs one after another and holds nothing in between, so
that the steps of several requests interleave.  What a thread still has to do is
a list of tasks, each of which is one critical section, one unlocked read or one
RPC of the source; a task may put further ones before the rest.

`acquire_story` visits the client registry twice under the directory's mutex, which is one
step here: what `Directory` lets come in between changes the client's own record only.

The trace records, in the order in which they happened, the grants and releases
of stories, the removals of their metadata and the RPCs that a process has
executed.

## Main definitions

* `Task`, `Thread`, `Portal` — the threads and the state that they share.
* `Portal.exec` — what a task does.
* `VisorStep`, `visor` — the transition system.
-/

namespace ChronoLog.Visor

open Transition

/-- The two RPCs by which a process starts or stops recording a story. -/
inductive Rpc where
  | start
  | stop
  deriving DecidableEq, Repr

/-- What becomes of an RPC: it is executed and succeeds, it is executed and the
caller sees an error, or it is not executed. -/
inductive Reply where
  | ok
  | failed
  | lost
  deriving DecidableEq, Repr

/-- The process executes the RPC. -/
def Reply.executed : Reply → Bool
  | .ok => true
  | .failed => true
  | .lost => false

/-- The processes of a group that are not keepers. -/
inductive Peer where
  | grapher
  | player
  deriving DecidableEq, Repr

/-- A call of `notifyGrapherOfStoryRecordingStart`, of its sibling for the player or
of their counterparts for a stop.  `keepers` are the keepers started before it. -/
structure Notification where
  peer : Peer
  rpc : Rpc
  storyId : StoryId
  groupId : RecordingGroupId
  keepers : List KeeperIdCard := []
  deriving DecidableEq

/-- The notification starts a grapher. -/
def Notification.startsGrapher (n : Notification) : Bool :=
  n.peer = .grapher && n.rpc = .start

/-- What a thread has to do. -/
inductive Task where
  /-- `AcquireStory`: is the registry running? -/
  | checkRegistry
  /-- `acquire_story`. -/
  | acquireStory
  /-- The locked paragraph of `notifyRecordingGroupOfStoryRecordingStart`. -/
  | assignStory (storyId : StoryId)
  /-- The keepers to be started. -/
  | listKeepers (storyId : StoryId) (groupId : RecordingGroupId)
  /-- Does the group have a player? -/
  | readPlayer (storyId : StoryId) (groupId : RecordingGroupId) (keepers : List KeeperIdCard)
  /-- `forget_story`. -/
  | forgetStory (storyId : StoryId) (groupId : RecordingGroupId)
  /-- `AcquireStory`: the release after a failed start. -/
  | undoAcquire
  /-- The check at the head of a notification. -/
  | checkRunning (n : Notification)
  /-- The locked paragraph of a notification. -/
  | findClient (n : Notification)
  /-- The RPC of a notification. -/
  | send (n : Notification) (client : DataStoreAdminClient)
  /-- The check at the head of `notifyKeepersOfStoryRecordingStart` or `…Stop`. -/
  | checkKeepers (rpc : Rpc) (storyId : StoryId) (groupId : RecordingGroupId)
      (keepers : List KeeperIdCard)
  /-- Their copy of the group's keepers. -/
  | copyKeepers (rpc : Rpc) (storyId : StoryId) (groupId : RecordingGroupId)
      (keepers : List KeeperIdCard)
  /-- Their RPCs, one after another, through the clients of the copy. -/
  | sendKeepers (rpc : Rpc) (storyId : StoryId) (groupId : RecordingGroupId)
      (targets : List (KeeperIdCard × DataStoreAdminClient)) (started : List KeeperIdCard)
  /-- `release_story`. -/
  | releaseStory
  /-- The locked paragraph of `notifyRecordingGroupOfStoryRecordingStop`. -/
  | unassignStory (storyId : StoryId)
  /-- `release_all_acquired_stories`: the snapshot. -/
  | listAcquired
  /-- `release_all_acquired_stories`: the name of a chronicle. -/
  | nameAcquired (storyId : StoryId) (cid : ChronicleId)
  /-- `release_all_acquired_stories`: `release_story`. -/
  | releaseAcquired (chronicleName storyName : String)
  /-- `ClientDisconnect`: the stops. -/
  | stopReleased
  /-- `remove_client_record`. -/
  | removeClientRecord
  /-- `evaluate_story_destroy`. -/
  | evaluateDestroy
  /-- `DestroyStory`: the release on behalf of the caller. -/
  | autoRelease
  /-- `destroy_story`. -/
  | destroyStory (storyId : StoryId)
  /-- The check at the head of `notifyAllGraphersOfStoryDestruction`. -/
  | checkBroadcast (storyId : StoryId)
  /-- Its snapshot of the graphers. -/
  | listGraphers (storyId : StoryId)
  /-- Its RPCs, one after another. -/
  | sendDestroy (storyId : StoryId) (clients : List DataStoreAdminClient)
  /-- The locked part of `registerKeeperProcess`. -/
  | registerKeeper
  /-- `startHeldStoriesOnKeeper`: the check before a start. -/
  | checkHeld (client : DataStoreAdminClient) (stories : List StoryId)
  /-- `startHeldStoriesOnKeeper`: the start of a story. -/
  | startHeld (client : DataStoreAdminClient) (storyId : StoryId) (stories : List StoryId)
  /-- `startHeldStoriesOnKeeper`: the check after a start. -/
  | recheckHeld (client : DataStoreAdminClient) (storyId : StoryId) (stories : List StoryId)
  /-- `startHeldStoriesOnKeeper`: the stop of a story released meanwhile. -/
  | stopHeld (client : DataStoreAdminClient) (storyId : StoryId) (stories : List StoryId)
  deriving DecidableEq

/-- The requests that the visor serves in a thread. -/
inductive Request where
  | acquireStory (clientId : ClientId) (chronicleName storyName : String)
  | releaseStory (clientId : ClientId) (chronicleName storyName : String)
  | clientDisconnect (clientId : ClientId)
  | destroyStory (clientId : ClientId) (chronicleName storyName : String)
  | registerKeeper (card : KeeperIdCard) (adminService : ServiceEndpoint)
  deriving DecidableEq, Repr

namespace Request

/-- The client whose request it is. -/
def clientId : Request → ClientId
  | .acquireStory clientId _ _ => clientId
  | .releaseStory clientId _ _ => clientId
  | .clientDisconnect clientId => clientId
  | .destroyStory clientId _ _ => clientId
  | .registerKeeper _ _ => 0

/-- The names of the chronicle and the story. -/
def names : Request → String × String
  | .acquireStory _ chronicleName storyName => (chronicleName, storyName)
  | .releaseStory _ chronicleName storyName => (chronicleName, storyName)
  | .clientDisconnect _ => ("", "")
  | .destroyStory _ chronicleName storyName => (chronicleName, storyName)
  | .registerKeeper _ _ => ("", "")

/-- The keeper that registers. -/
def card : Request → KeeperIdCard
  | .registerKeeper card _ => card
  | _ => ⟨0, 0⟩

/-- The address of its admin service. -/
def adminService : Request → ServiceEndpoint
  | .registerKeeper _ adminService => adminService
  | _ => 0

/-- What the thread of a request does first. -/
def firstTask : Request → Task
  | .acquireStory _ _ _ => .checkRegistry
  | .releaseStory _ _ _ => .releaseStory
  | .clientDisconnect _ => .listAcquired
  | .destroyStory _ _ _ => .evaluateDestroy
  | .registerKeeper _ _ => .registerKeeper

end Request

/-- A request's thread: what it still has to do, the answer, the keepers that an
acquire hands to its client, and the stories that a disconnect has to stop. -/
structure Thread where
  request : Request
  todo : List Task
  code : ErrorCode := .CL_SUCCESS
  keepers : List KeeperIdCard := []
  released : List StoryId := []
  deriving DecidableEq

/-- The thread with tasks put before the rest. -/
def Thread.first (thread : Thread) (tasks : List Task) : Thread :=
  { thread with todo := tasks ++ thread.todo }

/-- What happened, as far as the order of things matters. -/
inductive Event where
  /-- A thread's `acquire_story` has granted the story. -/
  | granted (thread : ℕ) (storyId : StoryId)
  /-- A thread's `release_story` has taken the story from a client. -/
  | released (thread : ℕ) (storyId : StoryId)
  /-- A thread's `destroy_story` has removed the story's metadata. -/
  | removed (thread : ℕ) (storyId : StoryId)
  /-- A keeper has executed a start or a stop, sent through that client.  A keeper that
  registers again is another process, with another client. -/
  | keeperRpc (card : KeeperIdCard) (client : DataStoreAdminClient) (storyId : StoryId) (rpc : Rpc)
  /-- A grapher or a player has executed a start or a stop. -/
  | peerRpc (thread : ℕ) (peer : Peer) (service : ServiceEndpoint) (storyId : StoryId) (rpc : Rpc)
  /-- A grapher has executed `destroy_story`. -/
  | destroyRpc (thread : ℕ) (service : ServiceEndpoint) (storyId : StoryId)
  deriving DecidableEq

/-- The thread whose doing an event is. -/
def Event.owner? : Event → Option ℕ
  | .granted i _ => some i
  | .released i _ => some i
  | .removed i _ => some i
  | .peerRpc i _ _ _ _ => some i
  | .destroyRpc i _ _ => some i
  | .keeperRpc _ _ _ _ => none

/-- The visor's portal: the directory, the registry, the threads, and the trace. -/
structure Portal where
  metadata : Metadata := {}
  registry : KeeperRegistry := {}
  threads : List Thread := []
  trace : List Event := []

/-- The portal with events at the end of the trace. -/
def Portal.record (v : Portal) (events : List Event) : Portal :=
  { v with trace := v.trace ++ events }

/-- The event of an RPC, if it was executed. -/
def executedEvent (reply : Reply) (event : Event) : List Event :=
  if reply.executed then [event] else []

/-- What an acquire does when the start of the grapher fails. -/
def afterFailedGrapher (storyId : StoryId) (groupId : RecordingGroupId) : List Task :=
  [.forgetStory storyId groupId, .undoAcquire]

/-- What an acquire does when the start of the keepers or of the player fails. -/
def afterFailedKeepers (storyId : StoryId) (groupId : RecordingGroupId) : List Task :=
  [.checkRunning { peer := .grapher, rpc := .stop, storyId := storyId, groupId := groupId },
    .forgetStory storyId groupId, .undoAcquire]

/-- What follows a notification that has not reached its process, or has failed. -/
def afterFailed (n : Notification) : List Task :=
  match n.rpc, n.peer with
  | .stop, _ => []
  | .start, .grapher => afterFailedGrapher n.storyId n.groupId
  | .start, .player => afterFailedKeepers n.storyId n.groupId

/-- The rest of `notifyKeepersOfStoryRecordingStart` or `…Stop`. -/
def keeperTasks (rpc : Rpc) (storyId : StoryId) (groupId : RecordingGroupId)
    (targets : List (KeeperIdCard × DataStoreAdminClient)) (started : List KeeperIdCard) :
    List Task :=
  match targets, rpc with
  | _ :: _, _ => [.sendKeepers rpc storyId groupId targets started]
  | [], .stop => []
  | [], .start =>
    if started.isEmpty then afterFailedKeepers storyId groupId
    else [.readPlayer storyId groupId started]

/-- The rest of `notifyAllGraphersOfStoryDestruction`. -/
def destroyTasks (storyId : StoryId) (clients : List DataStoreAdminClient) : List Task :=
  if clients.isEmpty then [] else [.sendDestroy storyId clients]

/-- The rest of `startHeldStoriesOnKeeper`. -/
def heldTasks (client : DataStoreAdminClient) (stories : List StoryId) : List Task :=
  if stories.isEmpty then [] else [.checkHeld client stories]

namespace Portal

variable (cityHash64 : String → UInt64)

/-- The client of the grapher or of the player of a group. -/
def peerClient? (v : Portal) (n : Notification) : Option DataStoreAdminClient :=
  match n.peer with
  | .grapher => (v.registry.group n.groupId).grapherProcess.bind ProcessEntry.client?
  | .player => (v.registry.group n.groupId).playerProcess.bind ProcessEntry.client?

/-- The clients of the active graphers. -/
def grapherClients (v : Portal) : List DataStoreAdminClient :=
  v.registry.recordingGroups.toList.filterMap fun entry =>
    entry.2.grapherProcess.bind ProcessEntry.client?

/-- `release_story` by a thread, with the event. -/
def release (v : Portal) (i : ℕ) (clientId : ClientId) (names : String × String) :
    Portal × Metadata.Release :=
  let (metadata, answer) := v.metadata.releaseStory cityHash64 clientId names.1 names.2
  let events : List Event :=
    if v.metadata.isAcquirer cityHash64 clientId names.1 names.2 then
      [.released i answer.storyId]
    else []
  ({ v with metadata := metadata }.record events, answer)

/-- What the first task of a thread does to the shared state, and to the thread,
whose list already lacks that task. -/
def exec (v : Portal) (i : ℕ) (thread : Thread) (now : ℕ) (reply : Reply) :
    Task → Portal × Thread
  | .checkRegistry =>
    if !v.registry.isRunning then (v, { thread with code := .CL_ERR_NO_KEEPERS })
    else if thread.request.names.1.isEmpty || thread.request.names.2.isEmpty then
      (v, { thread with code := .CL_ERR_INVALID_ARG })
    else (v, thread.first [.acquireStory])
  | .acquireStory =>
    let (metadata, code, storyId) := v.metadata.acquireStory cityHash64 thread.request.clientId
      thread.request.names.1 thread.request.names.2
    if code = .CL_SUCCESS then
      ({ v with metadata := metadata }.record [.granted i storyId],
        thread.first [.assignStory storyId])
    else ({ v with metadata := metadata }, { thread with code := code })
  | .assignStory storyId =>
    let (registry, assignment) := v.registry.assignStory storyId thread.request.names now
    match assignment with
    | .refused => ({ v with registry := registry }, thread.first [.undoAcquire])
    | .joined keepers => ({ v with registry := registry }, { thread with keepers := keepers })
    | .selected groupId =>
      ({ v with registry := registry }, thread.first [.checkRunning
        { peer := .grapher, rpc := .start, storyId := storyId, groupId := groupId }])
  | .listKeepers storyId groupId =>
    ({ v with registry := v.registry.clearKeepers groupId now },
      thread.first [.checkKeepers .start storyId groupId (v.registry.activeKeepers groupId)])
  | .readPlayer storyId groupId keepers =>
    if (v.registry.group groupId).playerProcess.isSome then
      (v, thread.first [.checkRunning { peer := .player, rpc := .start, storyId := storyId,
                                        groupId := groupId, keepers := keepers }])
    else (v, { thread with keepers := keepers })
  | .forgetStory storyId groupId =>
    let (registry, keepers) := v.registry.forgetStory storyId groupId now
    ({ v with registry := registry },
      thread.first [.checkKeepers .stop storyId groupId keepers])
  | .undoAcquire =>
    ((v.release cityHash64 i thread.request.clientId thread.request.names).1,
      { thread with code := .CL_ERR_NO_KEEPERS })
  | .checkRunning n =>
    if v.registry.isRunning then (v, thread.first [.findClient n])
    else (v, thread.first (afterFailed n))
  | .findClient n =>
    match v.peerClient? n with
    | some client => (v, thread.first [.send n client])
    | none => (v, thread.first (afterFailed n))
  | .send n client =>
    let v := v.record (executedEvent reply (.peerRpc i n.peer client.service n.storyId n.rpc))
    match n.rpc, n.peer with
    | .stop, _ => (v, thread)
    | .start, .grapher =>
      if reply = .ok then (v, thread.first [.listKeepers n.storyId n.groupId])
      else (v, thread.first (afterFailed n))
    | .start, .player =>
      if reply = .ok then (v, { thread with keepers := n.keepers })
      else (v, thread.first (afterFailed n))
  | .checkKeepers rpc storyId groupId keepers =>
    if v.registry.isRunning then (v, thread.first [.copyKeepers rpc storyId groupId keepers])
    else
      match rpc with
      | .stop => (v, thread)
      | .start => (v, thread.first (afterFailedKeepers storyId groupId))
  | .copyKeepers rpc storyId groupId keepers =>
    (v, thread.first (keeperTasks rpc storyId groupId (v.registry.targets keepers) []))
  | .sendKeepers rpc storyId groupId targets started =>
    match targets with
    | [] => (v, thread)
    | (card, client) :: targets =>
      (v.record (executedEvent reply (.keeperRpc card client storyId rpc)),
        thread.first (keeperTasks rpc storyId groupId targets
          (if reply = .ok then started ++ [card] else started)))
  | .releaseStory =>
    let (v, release) := v.release cityHash64 i thread.request.clientId thread.request.names
    if release.code = .CL_SUCCESS ∧ release.wasLastAcquirer then
      (v, thread.first [.unassignStory release.storyId])
    else (v, { thread with code := release.code })
  | .unassignStory storyId =>
    let (registry, stopped) := v.registry.unassignStory storyId now
    let v := { v with registry := registry }
    match stopped with
    | none => (v, thread)
    | some (groupId, keepers) =>
      (v, thread.first
        [.checkKeepers .stop storyId groupId keepers,
          .checkRunning { peer := .grapher, rpc := .stop, storyId := storyId, groupId := groupId },
          .checkRunning { peer := .player, rpc := .stop, storyId := storyId, groupId := groupId }])
  | .listAcquired =>
    (v, thread.first
      (((v.metadata.acquiredStoriesSnapshot thread.request.clientId).map fun entry =>
        .nameAcquired entry.1 entry.2) ++ [.stopReleased, .removeClientRecord]))
  | .nameAcquired storyId cid =>
    match v.metadata.chronicleMap[cid]? with
    | none => (v, thread)
    | some chronicle =>
      match chronicle.storyMap[storyId]? with
      | none => (v, thread)
      | some story => (v, thread.first [.releaseAcquired chronicle.name story.name])
  | .releaseAcquired chronicleName storyName =>
    let (v, release) :=
      v.release cityHash64 i thread.request.clientId (chronicleName, storyName)
    if release.code = .CL_SUCCESS ∧ release.wasLastAcquirer then
      (v, { thread with released := thread.released ++ [release.storyId] })
    else (v, thread)
  | .stopReleased => (v, thread.first (thread.released.map .unassignStory))
  | .removeClientRecord =>
    let (metadata, code) := v.metadata.removeClientRecord thread.request.clientId
    ({ v with metadata := metadata }, { thread with code := code })
  | .evaluateDestroy =>
    if thread.request.names.1.isEmpty || thread.request.names.2.isEmpty then
      (v, { thread with code := .CL_ERR_INVALID_ARG })
    else
      let (code, storyId, callerHoldsIt) := v.metadata.evaluateStoryDestroy cityHash64
        thread.request.names.1 thread.request.names.2 thread.request.clientId
      if code = .CL_SUCCESS then
        (v, thread.first ((if callerHoldsIt then [.autoRelease] else []) ++
          [.destroyStory storyId]))
      else (v, { thread with code := code })
  | .autoRelease =>
    let (v, release) := v.release cityHash64 i thread.request.clientId thread.request.names
    if release.wasLastAcquirer then (v, thread.first [.unassignStory release.storyId])
    else (v, thread)
  | .destroyStory storyId =>
    let (metadata, code) :=
      v.metadata.destroyStory cityHash64 thread.request.names.1 thread.request.names.2
    if code = .CL_SUCCESS then
      ({ v with metadata := metadata }.record [.removed i storyId],
        thread.first [.checkBroadcast storyId])
    else ({ v with metadata := metadata }, { thread with code := code })
  | .checkBroadcast storyId =>
    if v.registry.isRunning then (v, thread.first [.listGraphers storyId]) else (v, thread)
  | .listGraphers storyId => (v, thread.first (destroyTasks storyId v.grapherClients))
  | .sendDestroy storyId clients =>
    match clients with
    | [] => (v, thread)
    | client :: clients =>
      (v.record (executedEvent reply (.destroyRpc i client.service storyId)),
        thread.first (destroyTasks storyId clients))
  | .registerKeeper =>
    let (registry, registered) := v.registry.registerKeeperProcess thread.request.card
      thread.request.adminService now
    match registered with
    | none => ({ v with registry := registry }, { thread with code := .CL_ERR_UNKNOWN })
    | some (client, stories) =>
      ({ v with registry := registry }, thread.first (heldTasks client stories))
  | .checkHeld client stories =>
    match stories with
    | [] => (v, thread)
    | storyId :: stories =>
      if v.registry.keeperClient? thread.request.card ≠ some client then (v, thread)
      else if v.registry.storyRecordedByGroup storyId thread.request.card.groupId then
        (v, thread.first [.startHeld client storyId stories])
      else (v, thread.first (heldTasks client stories))
  | .startHeld client storyId stories =>
    (v.record (executedEvent reply (.keeperRpc thread.request.card client storyId .start)),
      thread.first [.recheckHeld client storyId stories])
  | .recheckHeld client storyId stories =>
    if v.registry.keeperClient? thread.request.card ≠ some client ∨
        v.registry.storyRecordedByGroup storyId thread.request.card.groupId then
      (v, thread.first (heldTasks client stories))
    else (v, thread.first [.stopHeld client storyId stories])
  | .stopHeld client storyId stories =>
    (v.record (executedEvent reply (.keeperRpc thread.request.card client storyId .stop)),
      thread.first (heldTasks client stories))

section Exec

variable (v : Portal) (i : ℕ) (thread : Thread) (now : ℕ) (reply : Reply) (task : Task)

/-- A thread serves one request. -/
theorem request_exec :
    (v.exec cityHash64 i thread now reply task).2.request = thread.request := by
  cases task <;> simp only [Portal.exec] <;> (repeat' split) <;> rfl

/-- The events of a step are those of its thread. -/
theorem exec_owned : ∃ es, (v.exec cityHash64 i thread now reply task).1.trace = v.trace ++ es ∧
    ∀ e ∈ es, ∀ j, e.owner? = some j → j = i := by
  have hrelease : ∀ clientId names, ∃ es, (v.release cityHash64 i clientId names).1.trace =
      v.trace ++ es ∧ ∀ e ∈ es, ∀ j, e.owner? = some j → j = i := by
    intro clientId names
    refine ⟨_, rfl, ?_⟩
    split <;> simp [Event.owner?]
  have hexecuted : ∀ event : Event, (∀ j, event.owner? = some j → j = i) →
      ∀ e ∈ executedEvent reply event, ∀ j, e.owner? = some j → j = i := by
    intro event howner
    unfold executedEvent
    split
    · simpa using howner
    · simp
  have hnone : ∃ es, v.trace = v.trace ++ es ∧ ∀ e ∈ es, ∀ j, e.owner? = some j → j = i :=
    ⟨[], by simp, by simp⟩
  cases task <;> simp only [Portal.exec] <;> (repeat' split) <;> first
    | exact hnone
    | exact hrelease _ _
    | exact ⟨_, rfl, hexecuted _ (by simp [Event.owner?])⟩
    | exact ⟨_, rfl, by simp [Event.owner?]⟩

end Exec

end Portal

/-- The steps of the visor. -/
inductive VisorStep where
  /-- `ClientConnect`. -/
  | connect (clientId : ClientId)
  /-- `CreateChronicle`. -/
  | createChronicle (name : String)
  /-- A request comes in. -/
  | receive (request : Request)
  | unregisterKeeper (card : KeeperIdCard) (now : ℕ)
  | registerGrapher (groupId : RecordingGroupId) (adminService : ServiceEndpoint) (now : ℕ)
  | unregisterGrapher (groupId : RecordingGroupId) (now : ℕ)
  | registerPlayer (groupId : RecordingGroupId) (adminService : ServiceEndpoint) (now : ℕ)
  | unregisterPlayer (groupId : RecordingGroupId) (now : ℕ)
  /-- A thread takes its next step, at that time; the reply is for an RPC. -/
  | advance (i : ℕ) (now : ℕ) (reply : Reply)

/-- A thread takes so many steps, in which every RPC succeeds. -/
def advances (i n : ℕ) : List VisorStep := List.replicate n (.advance i 0 .ok)

/-- A group with a grapher at 100 and a keeper; two clients; the first one asks for a
story in thread 1, which takes so many steps. -/
def askedStory (n : ℕ) : List VisorStep :=
  [.registerGrapher 1 100 0, .receive (.registerKeeper ⟨1, 7⟩ 200)] ++ advances 0 1 ++
    [.connect 5, .connect 6, .createChronicle "sea",
      .receive (.acquireStory 5 "sea" "salt")] ++ advances 1 n

/-- The first client has acquired the story. -/
def heldStory : List VisorStep := askedStory 11

section System

variable (cityHash64 : String → UInt64)

/-- The visor after the next step of a thread. -/
def Portal.advance (v : Portal) (i : ℕ) (now : ℕ) (reply : Reply) : Option Portal :=
  match v.threads[i]? with
  | none => none
  | some thread =>
    match thread.todo with
    | [] => none
    | task :: rest =>
      let (v', thread') := v.exec cityHash64 i { thread with todo := rest } now reply task
      some { v' with threads := v.threads.set i thread' }

/-- The next task of a thread. -/
def Portal.task? (v : Portal) (i : ℕ) : Option Task :=
  (v.threads[i]?).bind fun thread => thread.todo.head?

variable {cityHash64} in
/-- A step of a thread. -/
theorem Portal.advance_eq_some {v v' : Portal} {i now : ℕ} {reply : Reply}
    (h : v.advance cityHash64 i now reply = some v') :
    ∃ thread task rest, v.threads[i]? = some thread ∧ thread.todo = task :: rest ∧
      v.task? i = some task ∧
      v' = { (v.exec cityHash64 i { thread with todo := rest } now reply task).1 with
        threads := v.threads.set i
          (v.exec cityHash64 i { thread with todo := rest } now reply task).2 } := by
  unfold Portal.advance at h
  split at h
  · cases h
  · next thread hthread =>
    split at h
    · cases h
    · next task rest htodo =>
      refine ⟨thread, task, rest, hthread, htodo, ?_, (Option.some.inj h).symm⟩
      rw [Portal.task?, hthread, Option.bind_some, htodo, List.head?_cons]

/-- The threads after a step of one of them. -/
theorem getElem?_set_cases {α : Type*} {l : List α} {i j : ℕ} {x y : α}
    (h : (l.set i x)[j]? = some y) : j = i ∧ y = x ∨ j ≠ i ∧ l[j]? = some y := by
  rw [List.getElem?_set] at h
  by_cases hj : i = j
  · rw [if_pos hj] at h
    split at h
    · exact .inl ⟨hj.symm, (Option.some.inj h).symm⟩
    · cases h
  · rw [if_neg hj] at h
    exact .inr ⟨fun heq => hj heq.symm, h⟩

/-- The threads after a request has come in. -/
theorem getElem?_concat_cases {α : Type*} {l : List α} {j : ℕ} {x y : α}
    (h : (l ++ [x])[j]? = some y) : l[j]? = some y ∨ j = l.length ∧ y = x := by
  by_cases hj : j < l.length
  · rw [List.getElem?_append_left hj] at h
    exact .inl h
  · rw [List.getElem?_append_right (Nat.le_of_not_lt hj)] at h
    obtain ⟨hlt, hy⟩ := List.getElem?_eq_some_iff.mp h
    rw [List.length_singleton] at hlt
    refine .inr ⟨by omega, ?_⟩
    rw [← hy, List.getElem_singleton]

/-- The visor after a step. -/
def Portal.step (v : Portal) : VisorStep → Option Portal
  | .connect clientId => some { v with metadata := (v.metadata.addClientRecord clientId).1 }
  | .createChronicle name =>
    some { v with metadata := (v.metadata.createChronicle cityHash64 name).1 }
  | .receive request =>
    some { v with threads := v.threads ++ [{ request := request, todo := [request.firstTask] }] }
  | .unregisterKeeper card now =>
    some { v with registry := v.registry.unregisterKeeperProcess card now }
  | .registerGrapher groupId adminService now =>
    some { v with registry := v.registry.registerGrapherProcess groupId adminService now }
  | .unregisterGrapher groupId now =>
    some { v with registry := v.registry.unregisterGrapherProcess groupId now }
  | .registerPlayer groupId adminService now =>
    some { v with registry := v.registry.registerPlayerProcess groupId adminService now }
  | .unregisterPlayer groupId now =>
    some { v with registry := v.registry.unregisterPlayerProcess groupId now }
  | .advance i now reply => v.advance cityHash64 i now reply

/-- The visor, from its start. -/
def visor : System Portal VisorStep where
  Initial v := v = {}
  step v l := v.step cityHash64 l

/-- A later state: more has happened, and the threads serve the same requests. -/
structure Grows (v v' : Portal) : Prop where
  trace : ∀ e ∈ v.trace, e ∈ v'.trace
  request : ∀ (i : ℕ) (thread : Thread), v.threads[i]? = some thread →
    ∃ thread', v'.threads[i]? = some thread' ∧ thread'.request = thread.request

variable {cityHash64} in
theorem grows_step {v v' : Portal} {l : VisorStep} (h : (visor cityHash64).step v l = some v') :
    Grows v v' := by
  cases l with
  | advance i now reply =>
    obtain ⟨thread, task, rest, hthread, -, -, rfl⟩ := Portal.advance_eq_some h
    obtain ⟨es, htrace, -⟩ :=
      Portal.exec_owned cityHash64 v i { thread with todo := rest } now reply task
    refine ⟨fun e he => ?_, fun j t ht => ?_⟩
    · rw [htrace]
      exact List.mem_append_left _ he
    · by_cases hj : i = j
      · subst hj
        rw [hthread] at ht
        cases ht
        have hlt := (List.getElem?_eq_some_iff.mp hthread).1
        exact ⟨_, List.getElem?_set_self hlt, Portal.request_exec _ _ _ _ _ _ _⟩
      · exact ⟨t, by rw [← ht]; exact List.getElem?_set_ne hj, rfl⟩
  | receive request =>
    obtain rfl := Option.some.inj h
    refine ⟨fun e he => he, fun j t ht => ⟨t, ?_, rfl⟩⟩
    exact (List.getElem?_append_left (List.getElem?_eq_some_iff.mp ht).1).trans ht
  | _ =>
    obtain rfl := Option.some.inj h
    exact ⟨fun e he => he, fun j t ht => ⟨t, ht, rfl⟩⟩

variable {cityHash64} in
theorem grows_run {v v' : Portal} {ls : List VisorStep}
    (h : (visor cityHash64).run v ls = some v') : Grows v v' := by
  refine System.run_induction (P := fun w => Grows v w) (fun w l w' hw hstep => ?_)
    ⟨fun _ he => he, fun _ t ht => ⟨t, ht, rfl⟩⟩ h
  have hnext := grows_step hstep
  refine ⟨fun e he => hnext.trace e (hw.trace e he), fun i t ht => ?_⟩
  obtain ⟨t', ht', hrequest⟩ := hw.request i t ht
  obtain ⟨t'', ht'', hrequest'⟩ := hnext.request i t' ht'
  exact ⟨t'', ht'', hrequest'.trans hrequest⟩

end System

end ChronoLog.Visor
