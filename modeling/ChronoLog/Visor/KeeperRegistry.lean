import ChronoLog.Visor.MetaDirectory

/-!
# The visor's registry of recording groups

A recording group is a grapher, a player and some keepers; it can record while it
has an active grapher and an active keeper.  The registry keeps the groups, which
group records which story, and whether any group can record at all.

The methods of this module are the paragraphs of the source that hold
`registryLock`, and the few unlocked reads; each is one step of the thread that
makes it.  The RPCs that follow them are steps of their own and are not part of
the registry.  Shutdown is left out.

## Main definitions

* `RecordingGroup`, `KeeperRegistry` — the state.
* `selectRecordingGroup` — the group of a story, by rendezvous hashing.
* `KeeperRegistry.assignStory`, `KeeperRegistry.unassignStory`,
  `KeeperRegistry.forgetStory` — what starts, stops and failed starts do to the
  active stories.
* `KeeperRegistry.registerKeeperProcess` and its neighbours — the groups.
-/

namespace ChronoLog.Visor

abbrev RecordingGroupId := UInt32

/-- The address of a service: its ip and port, of 32 and 16 bits. -/
abbrev ServiceEndpoint := BitVec 48

instance : Std.TransOrd ServiceEndpoint := inferInstanceAs (Std.TransOrd (BitVec 48))

/-- `KeeperIdCard`. -/
structure KeeperIdCard where
  groupId : RecordingGroupId
  recordingService : ServiceEndpoint
  deriving DecidableEq, Repr

/-- A `DataStoreAdminClient`; the serial number stands for its address in memory. -/
structure DataStoreAdminClient where
  serial : ℕ
  service : ServiceEndpoint
  deriving DecidableEq, Repr

/-- `KeeperProcessEntry`, `GrapherProcessEntry` and `PlayerProcessEntry`: a process,
its client while it is active, and the clients that still wait to be deleted. -/
structure ProcessEntry where
  adminClient : Option DataStoreAdminClient
  active : Bool := true
  delayedExitClients : List (ℕ × DataStoreAdminClient) := []

namespace ProcessEntry

/-- The client of a process that can be notified. -/
def client? (process : ProcessEntry) : Option DataStoreAdminClient :=
  if process.active then process.adminClient else none

/-- `startDelayedGrapherExit`, and the other two. -/
def startDelayedExit (process : ProcessEntry) (delayedExitTime : ℕ) : ProcessEntry where
  adminClient := none
  active := false
  delayedExitClients := process.delayedExitClients ++
    (process.adminClient.toList.map fun client => (delayedExitTime, client))

/-- `clearDelayedExitGrapher`, and the other two. -/
def clearDelayedExit (process : ProcessEntry) (now : ℕ) : ProcessEntry :=
  { process with
    delayedExitClients := process.delayedExitClients.dropWhile fun exit => exit.1 ≤ now }

end ProcessEntry

/-- `RecordingGroup`. -/
structure RecordingGroup where
  groupId : RecordingGroupId
  activeKeeperCount : UInt64 := 0
  grapherProcess : Option ProcessEntry := none
  playerProcess : Option ProcessEntry := none
  keeperProcesses : OrdMap ServiceEndpoint ProcessEntry := ∅

namespace RecordingGroup

/-- `isActive`. -/
def isActive (group : RecordingGroup) : Bool :=
  (group.grapherProcess.any fun grapher => grapher.active) && decide (0 < group.activeKeeperCount)

/-- The keepers of the group that are active. -/
def activeKeepers (group : RecordingGroup) : List KeeperIdCard :=
  (group.keeperProcesses.toList.filter fun entry => entry.2.active).map fun entry =>
    ⟨group.groupId, entry.1⟩

/-- `getActiveKeepers` also deletes the clients whose time has come, and the entries
of inactive keepers that have none left. -/
def clearKeepers (group : RecordingGroup) (now : ℕ) : RecordingGroup :=
  { group with
    keeperProcesses :=
      (group.keeperProcesses.map fun _ keeper => keeper.clearDelayedExit now).filter
        fun _ keeper => keeper.active || !keeper.delayedExitClients.isEmpty }

/-- The group with the entry of a keeper changed. -/
def putKeeper (group : RecordingGroup) (endpoint : ServiceEndpoint) (keeper : ProcessEntry) :
    RecordingGroup :=
  { group with keeperProcesses := group.keeperProcesses.insert endpoint keeper }

/-- The group without the entry of a keeper. -/
def eraseKeeper (group : RecordingGroup) (endpoint : ServiceEndpoint) : RecordingGroup :=
  { group with keeperProcesses := group.keeperProcesses.erase endpoint }

/-- The group with a new keeper. -/
def addKeeper (group : RecordingGroup) (endpoint : ServiceEndpoint)
    (client : DataStoreAdminClient) : RecordingGroup :=
  { group with
    activeKeeperCount := group.activeKeeperCount + 1
    keeperProcesses := group.keeperProcesses.insert endpoint { adminClient := some client } }

/-- `startDelayedKeeperExit`; the count goes down whether the keeper was active or not. -/
def startDelayedKeeperExit (group : RecordingGroup) (endpoint : ServiceEndpoint)
    (keeper : ProcessEntry) (delayedExitTime : ℕ) : RecordingGroup :=
  { group with
    activeKeeperCount := group.activeKeeperCount - 1
    keeperProcesses :=
      group.keeperProcesses.insert endpoint (keeper.startDelayedExit delayedExitTime) }

end RecordingGroup

/-- `mix64`. -/
def mix64 (z : UInt64) : UInt64 :=
  let z := (z ^^^ (z >>> 30)) * 0xbf58476d1ce4e5b9
  let z := (z ^^^ (z >>> 27)) * 0x94d049bb133111eb
  z ^^^ (z >>> 31)

/-- The weight of a group for a story. -/
def groupWeight (storyId : StoryId) (groupId : RecordingGroupId) : UInt64 :=
  mix64 (storyId ^^^ mix64 (0x9e3779b97f4a7c15 + groupId.toUInt64))

/-- `select_recording_group`: the heaviest group, the lower id on a tie. -/
def selectRecordingGroup (storyId : StoryId) (groupIds : List RecordingGroupId) :
    Option RecordingGroupId :=
  groupIds.foldl (fun selected groupId =>
    match selected with
    | none => some groupId
    | some best =>
      let weight := groupWeight storyId groupId
      let selectedWeight := groupWeight storyId best
      if selectedWeight < weight ∨ weight = selectedWeight ∧ groupId < best then some groupId
      else some best) none

/-- `RegistryState`, of an initialized registry that is not shutting down. -/
inductive RegistryState where
  | INITIALIZED
  | RUNNING
  deriving DecidableEq, Repr

/-- `KeeperRegistry`.  An active group or a story's group is named by its id. -/
structure KeeperRegistry where
  registryState : RegistryState := .INITIALIZED
  delayedDataAdminExitSeconds : ℕ := 3
  recordingGroups : OrdMap RecordingGroupId RecordingGroup := ∅
  activeGroups : List RecordingGroupId := []
  activeStories : OrdMap StoryId RecordingGroupId := ∅
  activeStoryNames : OrdMap StoryId (String × String) := ∅
  /-- The serial number of the next client. -/
  nextClient : ℕ := 0

namespace KeeperRegistry

/-- `is_running`. -/
def isRunning (r : KeeperRegistry) : Bool := r.registryState = .RUNNING

/-- The group of that id; a group that has not registered a process yet is empty. -/
def group (r : KeeperRegistry) (groupId : RecordingGroupId) : RecordingGroup :=
  (r.recordingGroups[groupId]?).getD { groupId := groupId }

/-- The registry with a group changed. -/
def putGroup (r : KeeperRegistry) (group : RecordingGroup) : KeeperRegistry :=
  { r with recordingGroups := r.recordingGroups.insert group.groupId group }

/-- `add_active_group`. -/
def addActiveGroup (r : KeeperRegistry) (groupId : RecordingGroupId) : KeeperRegistry :=
  if groupId ∈ r.activeGroups then r else { r with activeGroups := r.activeGroups ++ [groupId] }

/-- `remove_active_group`. -/
def removeActiveGroup (r : KeeperRegistry) (groupId : RecordingGroupId) : KeeperRegistry :=
  { r with activeGroups := r.activeGroups.filter (· ≠ groupId) }

/-- The group joins the active groups, if it is to. -/
def joinIf (r : KeeperRegistry) (b : Bool) (groupId : RecordingGroupId) : KeeperRegistry :=
  if b then r.addActiveGroup groupId else r

/-- The group leaves the active groups, if it is to. -/
def leaveIf (r : KeeperRegistry) (b : Bool) (groupId : RecordingGroupId) : KeeperRegistry :=
  if b then r.removeActiveGroup groupId else r

/-- The end of a registration: the registry runs if it has an active group. -/
def runIfActive (r : KeeperRegistry) : KeeperRegistry :=
  if r.activeGroups.isEmpty then r else { r with registryState := .RUNNING }

/-- The end of an unregistration: the registry stops running without an active group. -/
def stopIfInactive (r : KeeperRegistry) : KeeperRegistry :=
  if r.activeGroups.isEmpty then { r with registryState := .INITIALIZED } else r

/-! ### The keepers of a group -/

/-- The active keepers of a group, as `getActiveKeepers` lists them. -/
def activeKeepers (r : KeeperRegistry) (groupId : RecordingGroupId) : List KeeperIdCard :=
  (r.group groupId).activeKeepers

/-- What `getActiveKeepers` does to the group. -/
def clearKeepers (r : KeeperRegistry) (groupId : RecordingGroupId) (now : ℕ) : KeeperRegistry :=
  r.putGroup ((r.group groupId).clearKeepers now)

/-- The entry of a keeper. -/
def keeper? (r : KeeperRegistry) (card : KeeperIdCard) : Option ProcessEntry :=
  (r.group card.groupId).keeperProcesses[card.recordingService]?

/-- The client of a keeper that is registered and active. -/
def keeperClient? (r : KeeperRegistry) (card : KeeperIdCard) : Option DataStoreAdminClient :=
  (r.keeper? card).bind ProcessEntry.client?

/-- The keepers that can be notified, with their clients. -/
def targets (r : KeeperRegistry) (keepers : List KeeperIdCard) :
    List (KeeperIdCard × DataStoreAdminClient) :=
  keepers.filterMap fun card => (r.keeperClient? card).map fun client => (card, client)

/-! ### The stories -/

/-- `storyRecordedByGroup`. -/
def storyRecordedByGroup (r : KeeperRegistry) (storyId : StoryId) (groupId : RecordingGroupId) :
    Bool :=
  r.activeStories[storyId]? = some groupId

/-- `storiesToStartOnRegistration`. -/
def storiesToStartOnRegistration (r : KeeperRegistry) (groupId : RecordingGroupId) :
    List StoryId :=
  (r.activeStories.toList.filter fun entry =>
    entry.2 = groupId && r.activeStoryNames.contains entry.1).map Prod.fst

/-- `select_active_recording_group`. -/
def selectActiveRecordingGroup (r : KeeperRegistry) (storyId : StoryId) :
    Option RecordingGroupId :=
  selectRecordingGroup storyId
    ((r.recordingGroups.toList.filter fun entry => entry.2.isActive).map Prod.fst)

/-- The registry with a story under a group. -/
def putStory (r : KeeperRegistry) (storyId : StoryId) (names : String × String)
    (groupId : RecordingGroupId) : KeeperRegistry :=
  { r with
    activeStories := r.activeStories.insert storyId groupId
    activeStoryNames := r.activeStoryNames.insert storyId names }

/-- The registry without a story. -/
def eraseStory (r : KeeperRegistry) (storyId : StoryId) : KeeperRegistry :=
  { r with
    activeStories := r.activeStories.erase storyId
    activeStoryNames := r.activeStoryNames.erase storyId }

/-- What the locked paragraph of `notifyRecordingGroupOfStoryRecordingStart` finds. -/
inductive Assignment where
  /-- No group can record. -/
  | refused
  /-- The story is already being recorded, by these keepers. -/
  | joined (keepers : List KeeperIdCard)
  /-- The story is now assigned to this group, which is to be notified. -/
  | selected (groupId : RecordingGroupId)
  deriving DecidableEq

/-- The locked paragraph of `notifyRecordingGroupOfStoryRecordingStart`. -/
def assignStory (r : KeeperRegistry) (storyId : StoryId) (names : String × String) (now : ℕ) :
    KeeperRegistry × Assignment :=
  if !r.isRunning then (r, .refused)
  else
    match r.activeStories[storyId]? with
    | some groupId => (r.clearKeepers groupId now, .joined (r.activeKeepers groupId))
    | none =>
      match r.selectActiveRecordingGroup storyId with
      | none => (r, .refused)
      | some groupId => (r.putStory storyId names groupId, .selected groupId)

/-- The locked paragraph of `notifyRecordingGroupOfStoryRecordingStop`: the group to
be notified, and its keepers. -/
def unassignStory (r : KeeperRegistry) (storyId : StoryId) (now : ℕ) :
    KeeperRegistry × Option (RecordingGroupId × List KeeperIdCard) :=
  if !r.isRunning then (r, none)
  else
    match r.activeStories[storyId]? with
    | none => (r, none)
    | some groupId =>
      ((r.clearKeepers groupId now).eraseStory storyId, some (groupId, r.activeKeepers groupId))

/-- `forget_story`, with the keepers to stop. -/
def forgetStory (r : KeeperRegistry) (storyId : StoryId) (groupId : RecordingGroupId)
    (now : ℕ) : KeeperRegistry × List KeeperIdCard :=
  let forgotten := if r.storyRecordedByGroup storyId groupId then r.eraseStory storyId else r
  (forgotten.clearKeepers groupId now, r.activeKeepers groupId)

/-- What the start of a story can find. -/
theorem assignStory_cases (r : KeeperRegistry) (storyId : StoryId) (names : String × String)
    (now : ℕ) :
    r.assignStory storyId names now = (r, .refused) ∨
      (∃ groupId, r.isRunning = true ∧ r.activeStories[storyId]? = some groupId ∧
        r.assignStory storyId names now =
          (r.clearKeepers groupId now, .joined (r.activeKeepers groupId))) ∨
      ∃ groupId, r.isRunning = true ∧ r.activeStories[storyId]? = none ∧
        r.selectActiveRecordingGroup storyId = some groupId ∧
        r.assignStory storyId names now =
          (r.putStory storyId names groupId, .selected groupId) := by
  unfold assignStory
  split
  · exact .inl rfl
  · next hrunning =>
    have hrunning : r.isRunning = true := by simpa using hrunning
    split
    · next groupId hstory => exact .inr (.inl ⟨groupId, hrunning, hstory, rfl⟩)
    · next hstory =>
      split
      · exact .inl rfl
      · next groupId hgroup => exact .inr (.inr ⟨groupId, hrunning, hstory, hgroup, rfl⟩)

/-- What the stop of a story can find. -/
theorem unassignStory_cases (r : KeeperRegistry) (storyId : StoryId) (now : ℕ) :
    r.unassignStory storyId now = (r, none) ∧
        (r.isRunning = false ∨ r.activeStories[storyId]? = none) ∨
      ∃ groupId, r.isRunning = true ∧ r.activeStories[storyId]? = some groupId ∧
        r.unassignStory storyId now = ((r.clearKeepers groupId now).eraseStory storyId,
          some (groupId, r.activeKeepers groupId)) := by
  unfold unassignStory
  split
  · next hrunning => exact .inl ⟨rfl, .inl (by simpa using hrunning)⟩
  · next hrunning =>
    split
    · next hstory => exact .inl ⟨rfl, .inr hstory⟩
    · next groupId hstory => exact .inr ⟨groupId, by simpa using hrunning, hstory, rfl⟩

/-! ### The processes -/

/-- A new client, and the registry that counts it. -/
def newClient (r : KeeperRegistry) (service : ServiceEndpoint) :
    KeeperRegistry × DataStoreAdminClient :=
  ({ r with nextClient := r.nextClient + 1 }, ⟨r.nextClient, service⟩)

/-- What a registration does to an entry left behind by an earlier process: its
client is retired, or cleared when its time has come. -/
def retireOrClear (r : KeeperRegistry) (process : ProcessEntry) (now : ℕ) : ProcessEntry :=
  if process.active then process.startDelayedExit (now + r.delayedDataAdminExitSeconds)
  else process.clearDelayedExit now

/-- What `registerKeeperProcess` does to such an entry. -/
def retireKeeper (r : KeeperRegistry) (card : KeeperIdCard) (keeper : ProcessEntry) (now : ℕ) :
    KeeperRegistry :=
  r.putGroup
    (if keeper.active then
      (r.group card.groupId).startDelayedKeeperExit card.recordingService keeper
        (now + r.delayedDataAdminExitSeconds)
    else (r.group card.groupId).putKeeper card.recordingService (keeper.clearDelayedExit now))

/-- The registry without the entry of a keeper. -/
def eraseKeeper (r : KeeperRegistry) (card : KeeperIdCard) : KeeperRegistry :=
  r.putGroup ((r.group card.groupId).eraseKeeper card.recordingService)

/-- The rest of `registerKeeperProcess`, once no entry stands in the way: the client
of the keeper and the stories to be started on it. -/
def addKeeper (r : KeeperRegistry) (card : KeeperIdCard) (adminService : ServiceEndpoint) :
    KeeperRegistry × DataStoreAdminClient × List StoryId :=
  let (r, client) := r.newClient adminService
  let group := (r.group card.groupId).addKeeper card.recordingService client
  let r := (r.putGroup group).joinIf (group.isActive && group.activeKeeperCount = 1) card.groupId
  let r := r.runIfActive
  (r, client, r.storiesToStartOnRegistration card.groupId)

/-- The locked part of `registerKeeperProcess`; no client when the registration is
refused.  `CreateDataStoreAdminClient` is taken to succeed, here and where the other processes
register: where it fails, the source returns an error and the process is left without an entry. -/
def registerKeeperProcess (r : KeeperRegistry) (card : KeeperIdCard)
    (adminService : ServiceEndpoint) (now : ℕ) :
    KeeperRegistry × Option (DataStoreAdminClient × List StoryId) :=
  match r.keeper? card with
  | none =>
    let (r, client, stories) := r.addKeeper card adminService
    (r, some (client, stories))
  | some keeper =>
    let retired := r.retireKeeper card keeper now
    if (r.retireOrClear keeper now).delayedExitClients.isEmpty then
      let (r, client, stories) := (retired.eraseKeeper card).addKeeper card adminService
      (r, some (client, stories))
    else (retired, none)

/-- `unregisterKeeperProcess`. -/
def unregisterKeeperProcess (r : KeeperRegistry) (card : KeeperIdCard) (now : ℕ) :
    KeeperRegistry :=
  match r.keeper? card with
  | none => r
  | some keeper =>
    let group := r.group card.groupId
    let r := r.leaveIf (group.isActive && keeper.active && group.activeKeeperCount = 1) card.groupId
    let r := r.putGroup (group.startDelayedKeeperExit card.recordingService keeper
      (now + r.delayedDataAdminExitSeconds))
    r.stopIfInactive

/-- `registerGrapherProcess`. -/
def registerGrapherProcess (r : KeeperRegistry) (groupId : RecordingGroupId)
    (adminService : ServiceEndpoint) (now : ℕ) : KeeperRegistry :=
  let group := r.group groupId
  let old := group.grapherProcess.map fun grapher => r.retireOrClear grapher now
  if old.all fun grapher => grapher.delayedExitClients.isEmpty then
    let (r, client) := r.newClient adminService
    let group := { group with grapherProcess := some { adminClient := some client } }
    ((r.putGroup group).joinIf group.isActive groupId).runIfActive
  else r.putGroup { group with grapherProcess := old }

/-- `unregisterGrapherProcess`. -/
def unregisterGrapherProcess (r : KeeperRegistry) (groupId : RecordingGroupId) (now : ℕ) :
    KeeperRegistry :=
  match r.recordingGroups[groupId]? with
  | none => r
  | some group =>
    let r := r.leaveIf group.isActive groupId
    let exited := group.grapherProcess.map fun grapher =>
      if grapher.active then grapher.startDelayedExit (now + r.delayedDataAdminExitSeconds)
      else grapher
    (r.putGroup { group with grapherProcess := exited }).stopIfInactive

/-- `registerPlayerProcess`. -/
def registerPlayerProcess (r : KeeperRegistry) (groupId : RecordingGroupId)
    (adminService : ServiceEndpoint) (now : ℕ) : KeeperRegistry :=
  let group := r.group groupId
  let old := group.playerProcess.map fun player => r.retireOrClear player now
  if old.all fun player => player.delayedExitClients.isEmpty then
    let (r, client) := r.newClient adminService
    (r.putGroup { group with playerProcess := some { adminClient := some client } }).runIfActive
  else r.putGroup { group with playerProcess := old }

/-- `unregisterPlayerProcess`. -/
def unregisterPlayerProcess (r : KeeperRegistry) (groupId : RecordingGroupId) (now : ℕ) :
    KeeperRegistry :=
  match r.recordingGroups[groupId]? with
  | none => r
  | some group =>
    let exited := group.playerProcess.map fun player =>
      if player.active then player.startDelayedExit (now + r.delayedDataAdminExitSeconds)
      else player
    (r.putGroup { group with playerProcess := exited }).stopIfInactive

/-! ### What the methods leave alone -/

section Lemmas

variable {r r' : KeeperRegistry} {groupId : RecordingGroupId} {card : KeeperIdCard}
  {client : DataStoreAdminClient} {now : ℕ}

/-- The groups are filed under their ids. -/
def Named (r : KeeperRegistry) : Prop :=
  ∀ (groupId : RecordingGroupId) (group : RecordingGroup),
    r.recordingGroups[groupId]? = some group → group.groupId = groupId

theorem Named.groupId_group (h : r.Named) (groupId : RecordingGroupId) :
    (r.group groupId).groupId = groupId := by
  unfold group
  cases hget : r.recordingGroups[groupId]? with
  | none => rfl
  | some group => exact h groupId group hget

theorem Named.putGroup (h : r.Named) (group : RecordingGroup) : (r.putGroup group).Named := by
  intro groupId' group' hget
  rw [KeeperRegistry.putGroup, Std.ExtTreeMap.getElem?_insert] at hget
  split at hget
  · next heq =>
    cases hget
    exact Std.LawfulEqCmp.eq_of_compare heq
  · exact h groupId' group' hget

theorem group_putGroup (r : KeeperRegistry) (group : RecordingGroup)
    (groupId : RecordingGroupId) :
    (r.putGroup group).group groupId =
      if group.groupId = groupId then group else r.group groupId := by
  by_cases hg : group.groupId = groupId
  · subst hg
    simp [KeeperRegistry.group, KeeperRegistry.putGroup]
  · simp [KeeperRegistry.group, KeeperRegistry.putGroup, Std.ExtTreeMap.getElem?_insert, hg]

/-- The keepers after a change of a group. -/
theorem keeper?_putGroup (r : KeeperRegistry) (group : RecordingGroup) (card : KeeperIdCard) :
    (r.putGroup group).keeper? card =
      if group.groupId = card.groupId then group.keeperProcesses[card.recordingService]?
      else r.keeper? card := by
  rw [keeper?, group_putGroup]
  split <;> rfl

/-- The registry after a step that leaves the stories alone and makes no keeper active. -/
structure Keeps (r r' : KeeperRegistry) : Prop where
  named : r.Named → r'.Named
  stories : r'.activeStories = r.activeStories
  clients : r.Named → ∀ card client, r'.keeperClient? card = some client →
    r.keeperClient? card = some client
  serials : r.nextClient ≤ r'.nextClient

theorem Keeps.refl (r : KeeperRegistry) : Keeps r r :=
  ⟨id, rfl, fun _ _ _ h => h, Nat.le_refl _⟩

/-- A group changes, and none of its keepers becomes active. -/
theorem keeps_putGroup (groupId : RecordingGroupId) {group : RecordingGroup}
    (hid : r.Named → group.groupId = groupId)
    (hkeepers : ∀ (endpoint : ServiceEndpoint) (client : DataStoreAdminClient),
      (group.keeperProcesses[endpoint]?).bind ProcessEntry.client? = some client →
      ((r.group groupId).keeperProcesses[endpoint]?).bind ProcessEntry.client? = some client) :
    Keeps r (r.putGroup group) where
  named h := h.putGroup group
  stories := rfl
  serials := Nat.le_refl _
  clients := by
    intro h card client hclient
    rw [keeperClient?, keeper?_putGroup, hid h] at hclient
    split at hclient
    · next hg =>
      rw [keeperClient?, keeper?, ← hg]
      exact hkeepers _ client hclient
    · exact hclient

theorem keeps_clearKeepers (r : KeeperRegistry) (groupId : RecordingGroupId) (now : ℕ) :
    Keeps r (r.clearKeepers groupId now) := by
  refine keeps_putGroup groupId (fun h => h.groupId_group groupId) ?_
  intro endpoint client hclient
  rw [RecordingGroup.clearKeepers, Std.ExtTreeMap.getElem?_filter',
    Std.ExtTreeMap.getElem?_map] at hclient
  cases hkeeper : (r.group groupId).keeperProcesses[endpoint]? with
  | none => simp [hkeeper] at hclient
  | some keeper =>
    obtain ⟨keeper', hfilter, hclient⟩ := Option.bind_eq_some_iff.mp hclient
    rw [hkeeper, Option.map_some, Option.filter_eq_some_iff] at hfilter
    rw [Option.bind_some, ← hclient, ← Option.some.inj hfilter.1]
    rfl

theorem Keeps.trans {r'' : KeeperRegistry} (h : Keeps r r') (h' : Keeps r' r'') : Keeps r r'' where
  named hn := h'.named (h.named hn)
  stories := h'.stories.trans h.stories
  clients hn card client hclient :=
    h.clients hn card client (h'.clients (h.named hn) card client hclient)
  serials := Nat.le_trans h.serials h'.serials

/-- A change of the list of active groups or of the registry's state. -/
theorem keeps_of_eq (hgroups : r'.recordingGroups = r.recordingGroups)
    (hstories : r'.activeStories = r.activeStories) (hserials : r'.nextClient = r.nextClient) :
    Keeps r r' where
  named h := by
    intro groupId group hget
    rw [hgroups] at hget
    exact h groupId group hget
  stories := hstories
  clients _ card client hclient := by
    rwa [keeperClient?, keeper?, group, hgroups] at hclient
  serials := Nat.le_of_eq hserials.symm

theorem keeps_runIfActive (r : KeeperRegistry) : Keeps r r.runIfActive := by
  unfold runIfActive
  split
  · exact .refl r
  · exact keeps_of_eq rfl rfl rfl

theorem keeps_stopIfInactive (r : KeeperRegistry) : Keeps r r.stopIfInactive := by
  unfold stopIfInactive
  split
  · exact keeps_of_eq rfl rfl rfl
  · exact .refl r

theorem keeps_joinIf (r : KeeperRegistry) (b : Bool) (groupId : RecordingGroupId) :
    Keeps r (r.joinIf b groupId) := by
  unfold joinIf addActiveGroup
  split
  · split
    · exact .refl r
    · exact keeps_of_eq rfl rfl rfl
  · exact .refl r

theorem keeps_leaveIf (r : KeeperRegistry) (b : Bool) (groupId : RecordingGroupId) :
    Keeps r (r.leaveIf b groupId) := by
  unfold leaveIf
  split
  · exact keeps_of_eq rfl rfl rfl
  · exact .refl r

@[simp] theorem group_leaveIf (r : KeeperRegistry) (b : Bool)
    (groupId groupId' : RecordingGroupId) :
    (r.leaveIf b groupId).group groupId' = r.group groupId' := by
  unfold leaveIf
  split <;> rfl

@[simp] theorem nextClient_joinIf (r : KeeperRegistry) (b : Bool) (groupId : RecordingGroupId) :
    (r.joinIf b groupId).nextClient = r.nextClient := by
  unfold joinIf addActiveGroup
  split
  · split <;> rfl
  · rfl

@[simp] theorem activeStoryNames_joinIf (r : KeeperRegistry) (b : Bool)
    (groupId : RecordingGroupId) : (r.joinIf b groupId).activeStoryNames = r.activeStoryNames := by
  unfold joinIf addActiveGroup
  split
  · split <;> rfl
  · rfl

@[simp] theorem nextClient_runIfActive (r : KeeperRegistry) :
    r.runIfActive.nextClient = r.nextClient := by
  unfold runIfActive
  split <;> rfl

@[simp] theorem activeStoryNames_runIfActive (r : KeeperRegistry) :
    r.runIfActive.activeStoryNames = r.activeStoryNames := by
  unfold runIfActive
  split <;> rfl

theorem keeps_newClient (r : KeeperRegistry) (service : ServiceEndpoint) :
    Keeps r (r.newClient service).1 where
  named h := h
  stories := rfl
  clients _ _ _ h := h
  serials := Nat.le_succ _

/-- A group changes, and its keepers stay as they are. -/
theorem keeps_putGroup_same (groupId : RecordingGroupId) {group : RecordingGroup}
    (hid : r.Named → group.groupId = groupId)
    (hkeepers : group.keeperProcesses = (r.group groupId).keeperProcesses) :
    Keeps r (r.putGroup group) := by
  refine keeps_putGroup groupId hid ?_
  intro endpoint client hclient
  rwa [hkeepers] at hclient

theorem keeps_registerGrapherProcess (r : KeeperRegistry) (groupId : RecordingGroupId)
    (adminService : ServiceEndpoint) (now : ℕ) :
    Keeps r (r.registerGrapherProcess groupId adminService now) := by
  unfold registerGrapherProcess
  dsimp only
  split
  · refine (keeps_newClient r adminService).trans ?_
    refine Keeps.trans ?_ (keeps_runIfActive _)
    refine Keeps.trans ?_ (keeps_joinIf _ _ groupId)
    exact keeps_putGroup_same groupId (fun h => h.groupId_group groupId) rfl
  · exact keeps_putGroup_same groupId (fun h => h.groupId_group groupId) rfl

theorem group_of_getElem? {group : RecordingGroup} (h : r.recordingGroups[groupId]? = some group) :
    r.group groupId = group := by
  rw [KeeperRegistry.group, h, Option.getD_some]

theorem keeps_unregisterGrapherProcess (r : KeeperRegistry) (groupId : RecordingGroupId)
    (now : ℕ) : Keeps r (r.unregisterGrapherProcess groupId now) := by
  unfold unregisterGrapherProcess
  split
  · exact .refl r
  · next group hget =>
    refine Keeps.trans (keeps_leaveIf r group.isActive groupId) ?_
    refine Keeps.trans ?_ (keeps_stopIfInactive _)
    refine keeps_putGroup_same groupId (fun h => ?_) ?_
    · rw [← group_of_getElem? hget, ← group_leaveIf r group.isActive groupId groupId]
      exact h.groupId_group groupId
    · rw [group_leaveIf, group_of_getElem? hget]

theorem keeps_registerPlayerProcess (r : KeeperRegistry) (groupId : RecordingGroupId)
    (adminService : ServiceEndpoint) (now : ℕ) :
    Keeps r (r.registerPlayerProcess groupId adminService now) := by
  unfold registerPlayerProcess
  dsimp only
  split
  · refine (keeps_newClient r adminService).trans ?_
    refine Keeps.trans ?_ (keeps_runIfActive _)
    exact keeps_putGroup_same groupId (fun h => h.groupId_group groupId) rfl
  · exact keeps_putGroup_same groupId (fun h => h.groupId_group groupId) rfl

theorem keeps_unregisterPlayerProcess (r : KeeperRegistry) (groupId : RecordingGroupId)
    (now : ℕ) : Keeps r (r.unregisterPlayerProcess groupId now) := by
  unfold unregisterPlayerProcess
  split
  · exact .refl r
  · next group hget =>
    dsimp only
    rw [← group_of_getElem? hget]
    refine Keeps.trans ?_ (keeps_stopIfInactive _)
    exact keeps_putGroup_same groupId (fun h => h.groupId_group groupId) rfl

/-- A keeper of the group becomes inactive. -/
theorem keeps_startDelayedKeeperExit (r : KeeperRegistry) (groupId : RecordingGroupId)
    (endpoint : ServiceEndpoint) (keeper : ProcessEntry) (delayedExitTime : ℕ) :
    Keeps r (r.putGroup
      ((r.group groupId).startDelayedKeeperExit endpoint keeper delayedExitTime)) := by
  refine keeps_putGroup groupId (fun h => h.groupId_group groupId) ?_
  intro endpoint' client hclient
  rw [RecordingGroup.startDelayedKeeperExit, Std.ExtTreeMap.getElem?_insert] at hclient
  split at hclient
  · cases hclient
  · exact hclient

theorem keeps_unregisterKeeperProcess (r : KeeperRegistry) (card : KeeperIdCard) (now : ℕ) :
    Keeps r (r.unregisterKeeperProcess card now) := by
  unfold unregisterKeeperProcess
  split
  · exact .refl r
  · next keeper hkeeper =>
    refine Keeps.trans (keeps_leaveIf r ((r.group card.groupId).isActive && keeper.active &&
      decide ((r.group card.groupId).activeKeeperCount = 1)) card.groupId) ?_
    refine Keeps.trans ?_ (keeps_stopIfInactive _)
    have hexit := keeps_startDelayedKeeperExit
      (r.leaveIf ((r.group card.groupId).isActive && keeper.active &&
        decide ((r.group card.groupId).activeKeeperCount = 1)) card.groupId)
      card.groupId card.recordingService keeper
    simp only [group_leaveIf] at hexit
    exact hexit _

/-- What a keeper that is added changes. -/
structure Adds (r r' : KeeperRegistry) (card : KeeperIdCard) (client : DataStoreAdminClient) :
    Prop where
  serial : client.serial = r.nextClient
  next : r'.nextClient = r.nextClient + 1
  stories : r'.activeStories = r.activeStories
  named : r.Named → r'.Named
  clients : r.Named → ∀ card' client', r'.keeperClient? card' = some client' →
    card' = card ∧ client' = client ∨ r.keeperClient? card' = some client'

/-- The group with one more keeper. -/
theorem adds_putGroup (r : KeeperRegistry) (card : KeeperIdCard) {group : RecordingGroup}
    {client : DataStoreAdminClient} (hserial : client.serial = r.nextClient)
    (hid : r.Named → group.groupId = card.groupId)
    (hkeepers : group.keeperProcesses = (r.group card.groupId).keeperProcesses.insert
      card.recordingService { adminClient := some client }) :
    Adds r ({ r with nextClient := r.nextClient + 1 }.putGroup group) card client where
  serial := hserial
  next := rfl
  stories := rfl
  named h := Named.putGroup (r := { r with nextClient := r.nextClient + 1 }) h group
  clients := by
    intro h card' client' hclient
    rw [keeperClient?, keeper?_putGroup, hid h] at hclient
    split at hclient
    · next hg =>
      rw [hkeepers, Std.ExtTreeMap.getElem?_insert] at hclient
      split at hclient
      · next hs =>
        left
        refine ⟨?_, (Option.some.inj hclient).symm⟩
        cases card
        cases card'
        cases hg
        cases Std.LawfulEqCmp.eq_of_compare hs
        rfl
      · right
        rw [keeperClient?, keeper?, ← hg]
        exact hclient
    · exact .inr hclient

theorem Adds.keeps {r'' : KeeperRegistry} (h : Adds r r' card client) (h' : Keeps r' r'')
    (hnext : r''.nextClient = r'.nextClient) : Adds r r'' card client where
  serial := h.serial
  next := hnext.trans h.next
  stories := h'.stories.trans h.stories
  named hn := h'.named (h.named hn)
  clients hn card' client' hclient :=
    h.clients hn card' client' (h'.clients (h.named hn) card' client' hclient)

theorem Keeps.adds {r'' : KeeperRegistry} (h : Keeps r r') (hnext : r'.nextClient = r.nextClient)
    (h' : Adds r' r'' card client) : Adds r r'' card client where
  serial := h'.serial.trans hnext
  next := by rw [h'.next, hnext]
  stories := h'.stories.trans h.stories
  named hn := h'.named (h.named hn)
  clients hn card' client' hclient :=
    (h'.clients (h.named hn) card' client' hclient).imp_right (h.clients hn card' client')

theorem adds_addKeeper (r : KeeperRegistry) (card : KeeperIdCard)
    (adminService : ServiceEndpoint) :
    Adds r (r.addKeeper card adminService).1 card (r.addKeeper card adminService).2.1 := by
  refine Adds.keeps ?_ (keeps_runIfActive _) (nextClient_runIfActive _)
  refine Adds.keeps ?_ (keeps_joinIf _ _ card.groupId) (nextClient_joinIf _ _ _)
  exact adds_putGroup r card rfl (fun h => h.groupId_group card.groupId) rfl

theorem stories_addKeeper (r : KeeperRegistry) (card : KeeperIdCard)
    (adminService : ServiceEndpoint) :
    (r.addKeeper card adminService).2.2 = r.storiesToStartOnRegistration card.groupId := by
  have hnames : (r.addKeeper card adminService).1.activeStoryNames = r.activeStoryNames := by
    simp only [addKeeper, activeStoryNames_runIfActive, activeStoryNames_joinIf]
    rfl
  change (r.addKeeper card adminService).1.storiesToStartOnRegistration card.groupId = _
  unfold storiesToStartOnRegistration
  rw [hnames, (adds_addKeeper r card adminService).stories]

theorem keeps_retireKeeper (r : KeeperRegistry) {card : KeeperIdCard} {keeper : ProcessEntry}
    (hkeeper : r.keeper? card = some keeper) (now : ℕ) :
    Keeps r (r.retireKeeper card keeper now) := by
  unfold retireKeeper
  split
  · exact keeps_startDelayedKeeperExit r card.groupId _ keeper _
  · refine keeps_putGroup card.groupId (fun h => h.groupId_group card.groupId) ?_
    intro endpoint client hclient
    rw [RecordingGroup.putKeeper, Std.ExtTreeMap.getElem?_insert] at hclient
    split at hclient
    · next hs =>
      obtain rfl := Std.LawfulEqCmp.eq_of_compare hs
      rw [keeper?] at hkeeper
      rw [hkeeper]
      exact hclient
    · exact hclient

theorem keeps_eraseKeeper (r : KeeperRegistry) (card : KeeperIdCard) :
    Keeps r (r.eraseKeeper card) := by
  refine keeps_putGroup card.groupId (fun h => h.groupId_group card.groupId) ?_
  intro endpoint client hclient
  rw [RecordingGroup.eraseKeeper, Std.ExtTreeMap.getElem?_erase] at hclient
  split at hclient
  · cases hclient
  · exact hclient

/-- A registration is refused, or the keeper is active with a new client. -/
theorem registerKeeperProcess_cases (r : KeeperRegistry) (card : KeeperIdCard)
    (adminService : ServiceEndpoint) (now : ℕ) :
    (∃ r', r.registerKeeperProcess card adminService now = (r', none) ∧ Keeps r r') ∨
      ∃ r' client, r.registerKeeperProcess card adminService now =
          (r', some (client, r.storiesToStartOnRegistration card.groupId)) ∧
        Adds r r' card client := by
  unfold registerKeeperProcess
  split
  · right
    refine ⟨_, _, ?_, adds_addKeeper r card adminService⟩
    rw [← stories_addKeeper r card adminService]
  · next keeper hkeeper =>
    have hretire := keeps_retireKeeper r hkeeper now
    dsimp only
    split
    · right
      refine ⟨_, _, ?_, (hretire.trans (keeps_eraseKeeper _ card)).adds rfl
        (adds_addKeeper _ card adminService)⟩
      rw [stories_addKeeper]
      rfl
    · exact .inl ⟨_, rfl, hretire⟩

/-- A keeper that can be notified is among the active keepers of its group. -/
theorem mem_activeKeepers (h : r.Named) (hclient : r.keeperClient? card = some client) :
    card ∈ r.activeKeepers card.groupId := by
  obtain ⟨keeper, hkeeper, hclient⟩ := Option.bind_eq_some_iff.mp hclient
  have hactive : keeper.active = true := by
    unfold ProcessEntry.client? at hclient
    split at hclient
    · next hactive => exact hactive
    · cases hclient
  refine List.mem_map.mpr ⟨(card.recordingService, keeper), List.mem_filter.mpr ⟨?_, hactive⟩, ?_⟩
  · exact Std.ExtTreeMap.mem_toList_iff_getElem?_eq_some.mpr hkeeper
  · rw [h.groupId_group]

theorem groupId_of_mem_activeKeepers (h : r.Named) (hmem : card ∈ r.activeKeepers groupId) :
    card.groupId = groupId := by
  obtain ⟨entry, -, rfl⟩ := List.mem_map.mp hmem
  exact h.groupId_group groupId

theorem mem_targets {keepers : List KeeperIdCard} :
    (card, client) ∈ r.targets keepers ↔ card ∈ keepers ∧ r.keeperClient? card = some client := by
  simp only [targets, List.mem_filterMap, Option.map_eq_some_iff, Prod.mk.injEq]
  constructor
  · rintro ⟨card', hmem, client', hclient, rfl, rfl⟩
    exact ⟨hmem, hclient⟩
  · rintro ⟨hmem, hclient⟩
    exact ⟨card, hmem, client, hclient, rfl, rfl⟩

end Lemmas

end KeeperRegistry

end ChronoLog.Visor
