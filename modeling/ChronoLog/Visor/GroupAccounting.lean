import ChronoLog.Visor.KeeperRegistry
import ChronoLog.Lib.OrdMap
import ChronoLog.Lib.Transition

/-!
# The accounts of the registry

A recording group counts its active keepers, and the registry lists the groups that
can record.  The admin client of a process that has left waits until no thread can
still be using it, and is deleted then.

An unregistration takes a keeper off the count whether its entry was active or not:
the entry of a keeper that has left stays for a while, and a second unregistration
counts the keeper off again.  Where every unregistration finds an active entry or
none, the accounts are right.

## Main definitions

* `RegistryStep`, `registry` — the sequences of registrations, unregistrations and
  clean-ups.
* `KeeperRegistry.clients`, `KeeperRegistry.waiting` — the admin clients that exist,
  and those that wait to be deleted.
* `GroupAccounts` — what is to hold in every state.
* `LeavesOnce` — the condition on a step.

## Main results

* `group_accounts` — the result for the runs whose steps meet the condition.
* `second_unregistration_wraps_count` — what happens in others.
-/

namespace ChronoLog.Visor

open Transition

/-- A registration, an unregistration, or a clean-up by `getActiveKeepers`. -/
inductive RegistryStep where
  | registerKeeper (card : KeeperIdCard) (adminService : ServiceEndpoint) (now : ℕ)
  | unregisterKeeper (card : KeeperIdCard) (now : ℕ)
  | registerGrapher (groupId : RecordingGroupId) (adminService : ServiceEndpoint) (now : ℕ)
  | unregisterGrapher (groupId : RecordingGroupId) (now : ℕ)
  | registerPlayer (groupId : RecordingGroupId) (adminService : ServiceEndpoint) (now : ℕ)
  | unregisterPlayer (groupId : RecordingGroupId) (now : ℕ)
  | clearKeepers (groupId : RecordingGroupId) (now : ℕ)
  deriving DecidableEq

/-- The time of a step. -/
def RegistryStep.now : RegistryStep → ℕ
  | .registerKeeper _ _ now => now
  | .unregisterKeeper _ now => now
  | .registerGrapher _ _ now => now
  | .unregisterGrapher _ now => now
  | .registerPlayer _ _ now => now
  | .unregisterPlayer _ now => now
  | .clearKeepers _ now => now

/-- The registry after a step.  Only a group that exists is cleaned up. -/
def KeeperRegistry.step (r : KeeperRegistry) : RegistryStep → Option KeeperRegistry
  | .registerKeeper card adminService now =>
    some (r.registerKeeperProcess card adminService now).1
  | .unregisterKeeper card now => some (r.unregisterKeeperProcess card now)
  | .registerGrapher groupId adminService now =>
    some (r.registerGrapherProcess groupId adminService now)
  | .unregisterGrapher groupId now => some (r.unregisterGrapherProcess groupId now)
  | .registerPlayer groupId adminService now =>
    some (r.registerPlayerProcess groupId adminService now)
  | .unregisterPlayer groupId now => some (r.unregisterPlayerProcess groupId now)
  | .clearKeepers groupId now =>
    if r.recordingGroups.contains groupId then some (r.clearKeepers groupId now) else none

/-- The registry, from its start with some delay before an admin client is deleted. -/
def registry : System KeeperRegistry RegistryStep where
  Initial r := r = { delayedDataAdminExitSeconds := r.delayedDataAdminExitSeconds }
  step := KeeperRegistry.step

/-! ### The admin clients -/

/-- What becomes of the holders `xs`, of which `waiting` may be deleted from a time on:
those that are left and the new ones are `ys`, and one that is gone has waited. -/
structure Passes {γ : Type*} (now : ℕ) (new xs : List γ) (waiting : List (ℕ × γ)) (ys : List γ) :
    Prop where
  subperm : ys.Subperm (new ++ xs)
  waited : ∀ c ∈ xs, c ∈ ys ∨ ∃ t ≤ now, (t, c) ∈ waiting

namespace Passes

variable {γ : Type*} {now : ℕ} {new xs ys zs : List γ} {waiting waiting' : List (ℕ × γ)}

theorem of_perm (h : ys.Perm (new ++ xs)) : Passes now new xs waiting ys :=
  ⟨h.subperm, fun _ hc => .inl (h.mem_iff.mpr (List.mem_append_right _ hc))⟩

theorem refl : Passes now [] xs waiting xs := .of_perm (.refl xs)

/-- The holders beside which nothing happens. -/
theorem frame (h : Passes now new xs waiting ys) (zs : List γ) :
    Passes now new (xs ++ zs) waiting (ys ++ zs) where
  subperm := by
    rw [← List.append_assoc]
    exact h.subperm.append (.refl zs)
  waited := by
    intro c hc
    obtain hc | hc := List.mem_append.mp hc
    · exact (h.waited c hc).imp_left (List.mem_append_left _)
    · exact .inl (List.mem_append_right _ hc)

theorem congr {xs' ys' : List γ} (h : Passes now new xs waiting ys) (hxs : xs'.Perm xs)
    (hys : ys'.Perm ys) (hwaiting : ∀ w ∈ waiting, w ∈ waiting') :
    Passes now new xs' waiting' ys' where
  subperm := (hys.subperm.trans h.subperm).trans (hxs.symm.append_left new).subperm
  waited := by
    intro c hc
    refine (h.waited c (hxs.mem_iff.mp hc)).imp hys.mem_iff.mpr ?_
    rintro ⟨t, ht, hmem⟩
    exact ⟨t, ht, hwaiting _ hmem⟩

/-- The same with the holders on the other side. -/
theorem frame_left (h : Passes now new xs waiting ys) (zs : List γ) :
    Passes now new (zs ++ xs) waiting (zs ++ ys) :=
  (h.frame zs).congr List.perm_append_comm List.perm_append_comm fun _ hw => hw

/-- Two lots of holders, side by side. -/
theorem append {xs' ys' : List γ} (h : Passes now [] xs waiting ys)
    (h' : Passes now [] xs' waiting' ys') :
    Passes now [] (xs ++ xs') (waiting ++ waiting') (ys ++ ys') where
  subperm := h.subperm.append h'.subperm
  waited := by
    intro c hc
    obtain hc | hc := List.mem_append.mp hc
    · refine (h.waited c hc).imp (List.mem_append_left _) ?_
      rintro ⟨t, ht, hmem⟩
      exact ⟨t, ht, List.mem_append_left _ hmem⟩
    · refine (h'.waited c hc).imp (List.mem_append_right _) ?_
      rintro ⟨t, ht, hmem⟩
      exact ⟨t, ht, List.mem_append_right _ hmem⟩

/-- Nothing more goes. -/
theorem trans_perm (h : Passes now [] xs waiting ys) (h' : zs.Perm (new ++ ys)) :
    Passes now new xs waiting zs where
  subperm := h'.subperm.trans ((List.Subperm.refl new).append h.subperm)
  waited c hc := (h.waited c hc).imp_left fun hy => h'.mem_iff.mpr (List.mem_append_right _ hy)

end Passes

namespace ProcessEntry

variable {now : ℕ}

/-- The admin clients of a process. -/
def clients (process : ProcessEntry) : List DataStoreAdminClient :=
  process.adminClient.toList ++ process.delayedExitClients.map Prod.snd

theorem clients_startDelayedExit (process : ProcessEntry) (delayedExitTime : ℕ) :
    (process.startDelayedExit delayedExitTime).clients.Perm process.clients := by
  simp only [clients, startDelayedExit, Option.toList_none, List.nil_append, List.map_append,
    List.map_map]
  cases process.adminClient with
  | none => simp
  | some client => exact List.perm_append_comm

theorem passes_clearDelayedExit (process : ProcessEntry) (now : ℕ) :
    Passes now [] process.clients process.delayedExitClients
      (process.clearDelayedExit now).clients where
  subperm := by
    refine List.Sublist.subperm ?_
    exact List.Sublist.append_left ((List.dropWhile_sublist _).map _) _
  waited := by
    intro c hc
    obtain hc | hc := List.mem_append.mp hc
    · exact .inl (List.mem_append_left _ hc)
    · obtain ⟨⟨t, c⟩, hmem, rfl⟩ := List.mem_map.mp hc
      rw [← List.takeWhile_append_dropWhile (p := fun exit : ℕ × _ => decide (exit.1 ≤ now))
        (l := process.delayedExitClients), List.mem_append] at hmem
      obtain hmem | hmem := hmem
      · right
        have ht := List.mem_takeWhile_imp hmem
        exact ⟨t, of_decide_eq_true ht, (List.takeWhile_sublist _).subset hmem⟩
      · exact .inl (List.mem_append_right _ (List.mem_map_of_mem hmem))

/-- A process has an admin client as long as it is active. -/
def Sound (process : ProcessEntry) : Prop := process.adminClient.isSome = process.active

theorem sound_new (client : DataStoreAdminClient) :
    ({ adminClient := some client } : ProcessEntry).Sound := rfl

theorem sound_startDelayedExit (process : ProcessEntry) (delayedExitTime : ℕ) :
    (process.startDelayedExit delayedExitTime).Sound := rfl

theorem Sound.clearDelayedExit {process : ProcessEntry} (h : process.Sound) (now : ℕ) :
    (process.clearDelayedExit now).Sound := h

/-- An inactive process without waiting clients has none at all. -/
theorem Sound.clients_eq_nil {process : ProcessEntry} (h : process.Sound)
    (hactive : process.active = false) (hempty : process.delayedExitClients = []) :
    process.clients = [] := by
  have hnone : process.adminClient = none := by
    rw [Sound, hactive] at h
    simpa using h
  rw [clients, hnone, hempty]
  rfl

end ProcessEntry

/-- The admin clients of some entries. -/
def clientsOf (keepers : OrdMap ServiceEndpoint ProcessEntry) : List DataStoreAdminClient :=
  keepers.toList.flatMap fun entry => entry.2.clients

/-- Those of them that wait. -/
def waitingOf (keepers : OrdMap ServiceEndpoint ProcessEntry) : List (ℕ × DataStoreAdminClient) :=
  keepers.toList.flatMap fun entry => entry.2.delayedExitClients

section Keepers

variable {keepers : OrdMap ServiceEndpoint ProcessEntry} {endpoint : ServiceEndpoint}
  {keeper keeper' : ProcessEntry} {now : ℕ} {new : List DataStoreAdminClient}

theorem mem_waitingOf (h : keepers[endpoint]? = some keeper) {w : ℕ × DataStoreAdminClient}
    (hw : w ∈ keeper.delayedExitClients) : w ∈ waitingOf keepers :=
  List.mem_flatMap.mpr ⟨(endpoint, keeper),
    Std.ExtTreeMap.mem_toList_iff_getElem?_eq_some.mpr h, hw⟩

/-- The entry of a keeper is replaced. -/
theorem passes_insert (h : keepers[endpoint]? = some keeper)
    (hpasses : Passes now new keeper.clients keeper.delayedExitClients keeper'.clients) :
    Passes now new (clientsOf keepers) (waitingOf keepers)
      (clientsOf (keepers.insert endpoint keeper')) :=
  (hpasses.frame _).congr (OrderedMap.perm_flatMap_of_getElem? _ h)
    (OrderedMap.perm_flatMap_insert _ _ _ _) fun _ hw => mem_waitingOf h hw

/-- An entry that has no clients is erased. -/
theorem clientsOf_erase (h : keepers[endpoint]? = some keeper) (hnil : keeper.clients = []) :
    (clientsOf (keepers.erase endpoint)).Perm (clientsOf keepers) := by
  have hperm := OrderedMap.perm_flatMap_of_getElem? (fun entry => entry.2.clients) h
  rw [hnil, List.nil_append] at hperm
  exact hperm.symm

theorem clientsOf_insert_new (h : keepers[endpoint]? = none) (client : DataStoreAdminClient) :
    (clientsOf (keepers.insert endpoint { adminClient := some client })).Perm
      ([client] ++ clientsOf keepers) :=
  (OrderedMap.perm_flatMap_insert_new _ h _).trans List.perm_append_comm

/-- The clean-up of the entries. -/
theorem passes_clear (hsound : ∀ (endpoint : ServiceEndpoint) (keeper : ProcessEntry),
      keepers[endpoint]? = some keeper → keeper.Sound) :
    Passes now [] (clientsOf keepers) (waitingOf keepers)
      (clientsOf ((keepers.map fun _ keeper => keeper.clearDelayedExit now).filter
        fun _ keeper => keeper.active || !keeper.delayedExitClients.isEmpty)) := by
  have hlist : ∀ l : List (ServiceEndpoint × ProcessEntry), (∀ entry ∈ l, entry.2.Sound) →
      Passes now [] (l.flatMap fun entry => entry.2.clients)
        (l.flatMap fun entry => entry.2.delayedExitClients)
        (((l.map fun entry => (entry.1, entry.2.clearDelayedExit now)).filter
          fun entry => entry.2.active || !entry.2.delayedExitClients.isEmpty).flatMap
          fun entry => entry.2.clients) := by
    intro l hl
    induction l with
    | nil => exact .refl
    | cons entry l ih =>
      rw [List.forall_mem_cons] at hl
      have hrest := (entry.2.passes_clearDelayedExit now).append (ih hl.2)
      rw [List.map_cons, List.filter_cons]
      split
      · exact hrest
      · next hgone =>
        -- the entry goes, and with it no client
        have hnil : (entry.2.clearDelayedExit now).clients = [] := by
          have hboth : (entry.2.clearDelayedExit now).active = false ∧
              (entry.2.clearDelayedExit now).delayedExitClients = [] := by simpa using hgone
          exact (hl.1.clearDelayedExit now).clients_eq_nil hboth.1 hboth.2
        rw [hnil, List.nil_append] at hrest
        exact hrest
  rw [clientsOf, clientsOf, waitingOf, Std.ExtTreeMap.toList_filter, Std.ExtTreeMap.toList_map]
  refine hlist keepers.toList fun entry hentry => ?_
  exact hsound _ _ (Std.ExtTreeMap.mem_toList_iff_getElem?_eq_some.mp hentry)

/-- How many entries are active. -/
def activeCount (keepers : OrdMap ServiceEndpoint ProcessEntry) : ℕ :=
  keepers.toList.countP fun entry => entry.2.active

theorem activeCount_of_getElem? (h : keepers[endpoint]? = some keeper) :
    activeCount keepers =
      activeCount (keepers.erase endpoint) + if keeper.active then 1 else 0 := by
  rw [activeCount, (OrderedMap.perm_toList_of_getElem? h).countP_eq, List.countP_cons, activeCount]

theorem activeCount_insert (keepers : OrdMap ServiceEndpoint ProcessEntry)
    (endpoint : ServiceEndpoint) (keeper : ProcessEntry) :
    activeCount (keepers.insert endpoint keeper) =
      activeCount (keepers.erase endpoint) + if keeper.active then 1 else 0 := by
  rw [activeCount, (OrderedMap.perm_toList_insert keepers endpoint keeper).countP_eq,
    List.countP_cons, activeCount]

theorem activeCount_clear (keepers : OrdMap ServiceEndpoint ProcessEntry) (now : ℕ) :
    activeCount ((keepers.map fun _ keeper => keeper.clearDelayedExit now).filter
      fun _ keeper => keeper.active || !keeper.delayedExitClients.isEmpty) =
      activeCount keepers := by
  rw [activeCount, activeCount, Std.ExtTreeMap.toList_filter, Std.ExtTreeMap.toList_map,
    List.countP_filter, List.countP_map]
  refine List.countP_congr fun entry _ => ?_
  simp only [Function.comp_apply, ProcessEntry.clearDelayedExit, Bool.and_eq_true,
    Bool.or_eq_true]
  exact ⟨fun h => h.1, fun h => ⟨h, .inl h⟩⟩

/-- There are fewer entries than addresses. -/
theorem activeCount_lt (keepers : OrdMap ServiceEndpoint ProcessEntry) :
    activeCount keepers < 2 ^ 64 := by
  have hnodup : (keepers.toList.map fun entry => entry.1.toNat).Nodup :=
    OrderedMap.nodup_map_toList keepers (BitVec.ofNat 48) fun entry => by simp
  have hlength : keepers.toList.length ≤ 2 ^ 48 := by
    have hsub : (keepers.toList.map fun entry => entry.1.toNat).Subperm (List.range (2 ^ 48)) := by
      refine hnodup.subperm fun n hn => ?_
      obtain ⟨entry, -, rfl⟩ := List.mem_map.mp hn
      exact List.mem_range.mpr entry.1.isLt
    simpa using hsub.length_le
  have hcount := List.countP_le_length (p := fun entry => entry.2.active) (l := keepers.toList)
  unfold activeCount
  omega

end Keepers

namespace RecordingGroup

/-- The admin clients of the processes of a group. -/
def clients (group : RecordingGroup) : List DataStoreAdminClient :=
  (group.grapherProcess.toList.flatMap ProcessEntry.clients ++
    group.playerProcess.toList.flatMap ProcessEntry.clients) ++ clientsOf group.keeperProcesses

/-- Those of them that wait to be deleted, with the time from which they may be. -/
def waiting (group : RecordingGroup) : List (ℕ × DataStoreAdminClient) :=
  (group.grapherProcess.toList.flatMap ProcessEntry.delayedExitClients ++
    group.playerProcess.toList.flatMap ProcessEntry.delayedExitClients) ++
    waitingOf group.keeperProcesses

/-- The accounts of a group. -/
structure Kept (group : RecordingGroup) : Prop where
  grapher : ∀ process, group.grapherProcess = some process → process.Sound
  player : ∀ process, group.playerProcess = some process → process.Sound
  keepers : ∀ (endpoint : ServiceEndpoint) (keeper : ProcessEntry),
    group.keeperProcesses[endpoint]? = some keeper → keeper.Sound
  count : group.activeKeeperCount.toNat = activeCount group.keeperProcesses

theorem length_activeKeepers (group : RecordingGroup) :
    group.activeKeepers.length = activeCount group.keeperProcesses := by
  rw [activeKeepers, List.length_map, activeCount, List.countP_eq_length_filter]

/-- A group is active if it has an active grapher and an active keeper. -/
theorem Kept.isActive_iff {group : RecordingGroup} (h : group.Kept) :
    group.isActive = true ↔
      (∃ grapher, group.grapherProcess = some grapher ∧ grapher.active = true) ∧
        group.activeKeepers ≠ [] := by
  have hcount : 0 < group.activeKeeperCount ↔ group.activeKeepers ≠ [] := by
    rw [UInt64.lt_iff_toNat_lt, h.count, ← length_activeKeepers, UInt64.toNat_zero,
      List.length_pos_iff]
  rw [isActive, Bool.and_eq_true, decide_eq_true_eq, hcount, Option.any_eq_true]

variable {group : RecordingGroup} {endpoint : ServiceEndpoint} {keeper : ProcessEntry} {now : ℕ}

/-- The keepers of a group change. -/
theorem passes_keepers {new : List DataStoreAdminClient} {group' : RecordingGroup}
    (hgrapher : group'.grapherProcess = group.grapherProcess)
    (hplayer : group'.playerProcess = group.playerProcess)
    (h : Passes now new (clientsOf group.keeperProcesses) (waitingOf group.keeperProcesses)
      (clientsOf group'.keeperProcesses)) :
    Passes now new group.clients group.waiting group'.clients := by
  unfold clients
  rw [hgrapher, hplayer]
  exact (h.frame_left _).congr (.refl _) (.refl _) fun w hw => List.mem_append_right _ hw

/-- The grapher of a group changes. -/
theorem passes_grapher {new : List DataStoreAdminClient} {process? : Option ProcessEntry}
    (h : Passes now new (group.grapherProcess.toList.flatMap ProcessEntry.clients)
      (group.grapherProcess.toList.flatMap ProcessEntry.delayedExitClients)
      (process?.toList.flatMap ProcessEntry.clients)) :
    Passes now new group.clients group.waiting
      ({ group with grapherProcess := process? } : RecordingGroup).clients :=
  ((h.frame _).frame _).congr (.refl _) (.refl _)
    fun _ hw => List.mem_append_left _ (List.mem_append_left _ hw)

/-- The player of a group changes. -/
theorem passes_player {new : List DataStoreAdminClient} {process? : Option ProcessEntry}
    (h : Passes now new (group.playerProcess.toList.flatMap ProcessEntry.clients)
      (group.playerProcess.toList.flatMap ProcessEntry.delayedExitClients)
      (process?.toList.flatMap ProcessEntry.clients)) :
    Passes now new group.clients group.waiting
      ({ group with playerProcess := process? } : RecordingGroup).clients :=
  ((h.frame_left _).frame _).congr (.refl _) (.refl _)
    fun _ hw => List.mem_append_left _ (List.mem_append_right _ hw)

/-- An active keeper leaves. -/
theorem Kept.startDelayedKeeperExit (h : group.Kept)
    (hkeeper : group.keeperProcesses[endpoint]? = some keeper) (hactive : keeper.active = true)
    (delayedExitTime : ℕ) :
    (group.startDelayedKeeperExit endpoint keeper delayedExitTime).Kept where
  grapher := h.grapher
  player := h.player
  keepers := by
    intro endpoint' keeper' hget
    rw [RecordingGroup.startDelayedKeeperExit, Std.ExtTreeMap.getElem?_insert] at hget
    split at hget
    · cases hget
      exact keeper.sound_startDelayedExit delayedExitTime
    · exact h.keepers endpoint' keeper' hget
  count := by
    have hcount := h.count
    rw [activeCount_of_getElem? hkeeper, hactive, if_pos rfl] at hcount
    have hle : (1 : UInt64) ≤ group.activeKeeperCount := by
      rw [UInt64.le_iff_toNat_le, hcount, UInt64.toNat_one]
      omega
    rw [RecordingGroup.startDelayedKeeperExit, UInt64.toNat_sub_of_le _ _ hle, hcount,
      UInt64.toNat_one, activeCount_insert]
    simp [ProcessEntry.startDelayedExit]

theorem passes_startDelayedKeeperExit (hkeeper : group.keeperProcesses[endpoint]? = some keeper)
    (delayedExitTime : ℕ) :
    Passes now [] group.clients group.waiting
      (group.startDelayedKeeperExit endpoint keeper delayedExitTime).clients :=
  passes_keepers rfl rfl
    (passes_insert hkeeper (.of_perm (keeper.clients_startDelayedExit delayedExitTime)))

/-- The clean-up of an entry that is not active. -/
theorem Kept.putKeeper (h : group.Kept) (hkeeper : group.keeperProcesses[endpoint]? = some keeper)
    (now : ℕ) : (group.putKeeper endpoint (keeper.clearDelayedExit now)).Kept where
  grapher := h.grapher
  player := h.player
  keepers := by
    intro endpoint' keeper' hget
    rw [RecordingGroup.putKeeper, Std.ExtTreeMap.getElem?_insert] at hget
    split at hget
    · cases hget
      exact (h.keepers endpoint keeper hkeeper).clearDelayedExit now
    · exact h.keepers endpoint' keeper' hget
  count := by
    rw [RecordingGroup.putKeeper, h.count, activeCount_insert, activeCount_of_getElem? hkeeper]
    rfl

theorem passes_putKeeper (hkeeper : group.keeperProcesses[endpoint]? = some keeper) :
    Passes now [] group.clients group.waiting
      (group.putKeeper endpoint (keeper.clearDelayedExit now)).clients :=
  passes_keepers rfl rfl (passes_insert hkeeper (keeper.passes_clearDelayedExit now))

/-- An entry that is not active is erased. -/
theorem Kept.eraseKeeper (h : group.Kept) (hkeeper : group.keeperProcesses[endpoint]? = some keeper)
    (hactive : keeper.active = false) : (group.eraseKeeper endpoint).Kept where
  grapher := h.grapher
  player := h.player
  keepers := by
    intro endpoint' keeper' hget
    rw [RecordingGroup.eraseKeeper, Std.ExtTreeMap.getElem?_erase] at hget
    split at hget
    · cases hget
    · exact h.keepers endpoint' keeper' hget
  count := by
    rw [RecordingGroup.eraseKeeper, h.count, activeCount_of_getElem? hkeeper, hactive]
    rfl

/-- A keeper comes. -/
theorem Kept.addKeeper (h : group.Kept) (hkeeper : group.keeperProcesses[endpoint]? = none)
    (client : DataStoreAdminClient) : (group.addKeeper endpoint client).Kept where
  grapher := h.grapher
  player := h.player
  keepers := by
    intro endpoint' keeper' hget
    rw [RecordingGroup.addKeeper, Std.ExtTreeMap.getElem?_insert] at hget
    split at hget
    · cases hget
      exact ProcessEntry.sound_new client
    · exact h.keepers endpoint' keeper' hget
  count := by
    have hlt := activeCount_lt (group.addKeeper endpoint client).keeperProcesses
    have hinsert : activeCount (group.addKeeper endpoint client).keeperProcesses =
        activeCount group.keeperProcesses + 1 := by
      rw [RecordingGroup.addKeeper, activeCount_insert,
        OrderedMap.erase_of_getElem?_eq_none hkeeper]
      rfl
    rw [hinsert] at hlt ⊢
    rw [RecordingGroup.addKeeper, UInt64.toNat_add, h.count, UInt64.toNat_one]
    exact Nat.mod_eq_of_lt hlt

/-- The clean-up of all entries. -/
theorem Kept.clearKeepers (h : group.Kept) (now : ℕ) : (group.clearKeepers now).Kept where
  grapher := h.grapher
  player := h.player
  keepers := by
    intro endpoint' keeper' hget
    rw [RecordingGroup.clearKeepers, Std.ExtTreeMap.getElem?_filter',
      Std.ExtTreeMap.getElem?_map, Option.filter_eq_some_iff, Option.map_eq_some_iff] at hget
    obtain ⟨⟨keeper, hkeeper, rfl⟩, -⟩ := hget
    exact (h.keepers endpoint' keeper hkeeper).clearDelayedExit now
  count := by
    rw [RecordingGroup.clearKeepers, h.count, activeCount_clear]

theorem Kept.passes_clearKeepers (h : group.Kept) (now : ℕ) :
    Passes now [] group.clients group.waiting (group.clearKeepers now).clients :=
  passes_keepers rfl rfl (passes_clear h.keepers)

end RecordingGroup

namespace KeeperRegistry

/-- The admin clients of all processes. -/
def clients (r : KeeperRegistry) : List DataStoreAdminClient :=
  r.recordingGroups.toList.flatMap fun entry => entry.2.clients

/-- Those of them that wait to be deleted. -/
def waiting (r : KeeperRegistry) : List (ℕ × DataStoreAdminClient) :=
  r.recordingGroups.toList.flatMap fun entry => entry.2.waiting

/-- The accounts of the registry. -/
structure Audited (r : KeeperRegistry) : Prop where
  named : r.Named
  groups : ∀ groupId, (r.group groupId).Kept
  listed : ∀ groupId, (r.group groupId).isActive = true → groupId ∈ r.activeGroups
  once : r.activeGroups.Nodup
  single : r.clients.Nodup
  known : ∀ c ∈ r.clients, c.serial < r.nextClient

section Change

variable {r r' : KeeperRegistry} {groupId : RecordingGroupId} {group : RecordingGroup} {now : ℕ}
  {new : List DataStoreAdminClient}

/-- The clients of the group of that id, and the others. -/
theorem perm_clients (r : KeeperRegistry) (groupId : RecordingGroupId) :
    r.clients.Perm ((r.group groupId).clients ++
      (r.recordingGroups.erase groupId).toList.flatMap fun entry => entry.2.clients) := by
  unfold KeeperRegistry.group
  cases hget : r.recordingGroups[groupId]? with
  | none =>
    rw [OrderedMap.erase_of_getElem?_eq_none hget]
    exact .refl _
  | some group => exact OrderedMap.perm_flatMap_of_getElem? (fun entry => entry.2.clients) hget

theorem mem_waiting {w : ℕ × DataStoreAdminClient} (h : w ∈ (r.group groupId).waiting) :
    w ∈ r.waiting := by
  unfold KeeperRegistry.group at h
  cases hget : r.recordingGroups[groupId]? with
  | none =>
    rw [hget] at h
    cases h
  | some group =>
    rw [hget] at h
    exact List.mem_flatMap.mpr ⟨(groupId, group),
      Std.ExtTreeMap.mem_toList_iff_getElem?_eq_some.mpr hget, h⟩

variable (hgroups : r'.recordingGroups = r.recordingGroups.insert groupId group)

include hgroups in
theorem perm_clients_of_change : r'.clients.Perm (group.clients ++
    (r.recordingGroups.erase groupId).toList.flatMap fun entry => entry.2.clients) := by
  rw [clients, hgroups]
  exact OrderedMap.perm_flatMap_insert _ _ _ _

include hgroups in
/-- One group changes. -/
theorem passes_of_change (hpasses : Passes now new (r.group groupId).clients
      (r.group groupId).waiting group.clients) :
    Passes now new r.clients r.waiting r'.clients :=
  (hpasses.frame _).congr (perm_clients r groupId) (perm_clients_of_change hgroups)
    fun _ hw => mem_waiting hw

include hgroups in
theorem group_of_change (id : RecordingGroupId) :
    r'.group id = if groupId = id then group else r.group id := by
  unfold KeeperRegistry.group
  rw [hgroups, Std.ExtTreeMap.getElem?_insert]
  by_cases hid : groupId = id
  · simp [hid]
  · simp [hid]

include hgroups in
/-- **The accounts after a change of one group.** -/
theorem Audited.of_change (h : r.Audited) (hid : group.groupId = groupId) (hkept : group.Kept)
    (hclients : group.clients.Subperm (new ++ (r.group groupId).clients)) (hnodup : new.Nodup)
    (hnew : ∀ c ∈ new, r.nextClient ≤ c.serial ∧ c.serial < r'.nextClient)
    (hnext : r.nextClient ≤ r'.nextClient)
    (hlisted : group.isActive = true → groupId ∈ r'.activeGroups)
    (hothers : ∀ id ∈ r.activeGroups, id = groupId ∨ id ∈ r'.activeGroups)
    (honce : r'.activeGroups.Nodup) : r'.Audited := by
  have hsub : r'.clients.Subperm (new ++ r.clients) := by
    refine (perm_clients_of_change hgroups).subperm.trans ?_
    refine (hclients.append (.refl _)).trans ?_
    rw [List.append_assoc]
    exact ((perm_clients r groupId).symm.append_left new).subperm
  refine { named := ?_, groups := ?_, listed := ?_, once := honce, single := ?_, known := ?_ }
  · intro id g hget
    rw [hgroups, Std.ExtTreeMap.getElem?_insert] at hget
    split at hget
    · next heq =>
      cases hget
      rw [hid, Std.LawfulEqCmp.eq_of_compare heq]
    · exact h.named id g hget
  · intro id
    rw [group_of_change hgroups]
    split
    · exact hkept
    · exact h.groups id
  · intro id hactive
    rw [group_of_change hgroups] at hactive
    split at hactive
    · next heq => exact heq ▸ hlisted hactive
    · next hne => exact (hothers id (h.listed id hactive)).resolve_left fun heq => hne heq.symm
  · -- a new client has a number that no client before it has
    obtain ⟨l, hperm, hsublist⟩ := hsub
    refine hperm.nodup_iff.mp (hsublist.nodup ?_)
    refine List.nodup_append.mpr ⟨hnodup, h.single, ?_⟩
    rintro c hc c' hc' rfl
    have hle := (hnew c hc).1
    have hlt := h.known c hc'
    omega
  · intro c hc
    obtain hc | hc := List.mem_append.mp (hsub.subset hc)
    · exact (hnew c hc).2
    · exact Nat.lt_of_lt_of_le (h.known c hc) hnext

end Change

theorem mem_joinIf {r : KeeperRegistry} {b : Bool} {groupId id : RecordingGroupId} :
    id ∈ (r.joinIf b groupId).activeGroups ↔ id ∈ r.activeGroups ∨ b = true ∧ id = groupId := by
  unfold joinIf addActiveGroup
  split
  · next hb =>
    split
    · next hmem =>
      refine ⟨.inl, ?_⟩
      rintro (hid | ⟨-, rfl⟩)
      · exact hid
      · exact hmem
    · simp [hb]
  · next hb => simp [hb]

theorem nodup_joinIf {r : KeeperRegistry} (h : r.activeGroups.Nodup) (b : Bool)
    (groupId : RecordingGroupId) : (r.joinIf b groupId).activeGroups.Nodup := by
  unfold joinIf addActiveGroup
  split
  · split
    · exact h
    · next hmem =>
      refine List.nodup_append.mpr ⟨h, List.nodup_singleton _, ?_⟩
      intro a ha c hc
      rw [List.mem_singleton.mp hc]
      rintro rfl
      exact hmem ha
  · exact h

theorem mem_leaveIf {r : KeeperRegistry} {b : Bool} {groupId id : RecordingGroupId} :
    id ∈ (r.leaveIf b groupId).activeGroups ↔ id ∈ r.activeGroups ∧ (b = true → id ≠ groupId) := by
  unfold leaveIf removeActiveGroup
  split
  · next hb => simp [hb]
  · next hb => simp [hb]

theorem nodup_leaveIf {r : KeeperRegistry} (h : r.activeGroups.Nodup) (b : Bool)
    (groupId : RecordingGroupId) : (r.leaveIf b groupId).activeGroups.Nodup := by
  unfold leaveIf removeActiveGroup
  split
  · exact h.filter _
  · exact h

@[simp] theorem recordingGroups_joinIf (r : KeeperRegistry) (b : Bool)
    (groupId : RecordingGroupId) : (r.joinIf b groupId).recordingGroups = r.recordingGroups := by
  unfold joinIf addActiveGroup
  split
  · split <;> rfl
  · rfl

@[simp] theorem recordingGroups_leaveIf (r : KeeperRegistry) (b : Bool)
    (groupId : RecordingGroupId) : (r.leaveIf b groupId).recordingGroups = r.recordingGroups := by
  unfold leaveIf
  split <;> rfl

@[simp] theorem nextClient_leaveIf (r : KeeperRegistry) (b : Bool)
    (groupId : RecordingGroupId) : (r.leaveIf b groupId).nextClient = r.nextClient := by
  unfold leaveIf
  split <;> rfl

@[simp] theorem recordingGroups_runIfActive (r : KeeperRegistry) :
    r.runIfActive.recordingGroups = r.recordingGroups := by
  unfold runIfActive
  split <;> rfl

@[simp] theorem activeGroups_runIfActive (r : KeeperRegistry) :
    r.runIfActive.activeGroups = r.activeGroups := by
  unfold runIfActive
  split <;> rfl

@[simp] theorem recordingGroups_stopIfInactive (r : KeeperRegistry) :
    r.stopIfInactive.recordingGroups = r.recordingGroups := by
  unfold stopIfInactive
  split <;> rfl

@[simp] theorem activeGroups_stopIfInactive (r : KeeperRegistry) :
    r.stopIfInactive.activeGroups = r.activeGroups := by
  unfold stopIfInactive
  split <;> rfl

@[simp] theorem nextClient_stopIfInactive (r : KeeperRegistry) :
    r.stopIfInactive.nextClient = r.nextClient := by
  unfold stopIfInactive
  split <;> rfl

/-- What a step at that time does: the accounts stay right, a client that is gone has
waited, and one that has come is new. -/
structure Turns (now : ℕ) (r r' : KeeperRegistry) : Prop where
  audited : r'.Audited
  waited : ∀ c ∈ r.clients, c ∈ r'.clients ∨ ∃ t ≤ now, (t, c) ∈ r.waiting
  fresh : ∀ c ∈ r'.clients, c ∈ r.clients ∨ r.nextClient ≤ c.serial
  next : r.nextClient ≤ r'.nextClient

section Turns

variable {r r' : KeeperRegistry} {groupId : RecordingGroupId} {group : RecordingGroup} {now : ℕ}
  {new : List DataStoreAdminClient}

theorem Audited.turns_refl (h : r.Audited) : Turns now r r :=
  ⟨h, fun _ hc => .inl hc, fun _ hc => .inl hc, Nat.le_refl _⟩

/-- A group changes. -/
theorem Audited.turns_of_change (h : r.Audited)
    (hgroups : r'.recordingGroups = r.recordingGroups.insert groupId group)
    (hid : group.groupId = groupId) (hkept : group.Kept)
    (hpasses : Passes now new (r.group groupId).clients (r.group groupId).waiting group.clients)
    (hnodup : new.Nodup)
    (hnew : ∀ c ∈ new, r.nextClient ≤ c.serial ∧ c.serial < r'.nextClient)
    (hnext : r.nextClient ≤ r'.nextClient)
    (hlisted : group.isActive = true → groupId ∈ r'.activeGroups)
    (hothers : ∀ id ∈ r.activeGroups, id = groupId ∨ id ∈ r'.activeGroups)
    (honce : r'.activeGroups.Nodup) : Turns now r r' := by
  have hp := passes_of_change hgroups hpasses
  refine ⟨h.of_change hgroups hid hkept hpasses.subperm hnodup hnew hnext hlisted hothers honce,
    hp.waited, fun c hc => ?_, hnext⟩
  exact (List.mem_append.mp (hp.subperm.subset hc)).symm.imp_right fun hc => (hnew c hc).1

/-- A group changes that has been active if it is now. -/
theorem Audited.turns_putGroup (h : r.Audited) (hid : group.groupId = groupId) (hkept : group.Kept)
    (hpasses : Passes now [] (r.group groupId).clients (r.group groupId).waiting group.clients)
    (hactive : group.isActive = true → (r.group groupId).isActive = true) :
    Turns now r (r.putGroup group) :=
  h.turns_of_change (by rw [putGroup, hid]) hid hkept hpasses List.nodup_nil (by simp)
    (Nat.le_refl _) (fun ha => h.listed groupId (hactive ha)) (fun _ hmem => .inr hmem) h.once

theorem Audited.turns_clearKeepers (h : r.Audited) (groupId : RecordingGroupId) (now : ℕ) :
    Turns now r (r.clearKeepers groupId now) :=
  h.turns_putGroup (h.named.groupId_group groupId) ((h.groups groupId).clearKeepers now)
    ((h.groups groupId).passes_clearKeepers now) id

/-! ### Graphers and players -/

/-- What a registration leaves of an earlier process. -/
theorem passes_retireOrClear (r : KeeperRegistry) (process? : Option ProcessEntry) (now : ℕ) :
    Passes now [] (process?.toList.flatMap ProcessEntry.clients)
      (process?.toList.flatMap ProcessEntry.delayedExitClients)
      ((process?.map fun process => r.retireOrClear process now).toList.flatMap
        ProcessEntry.clients) := by
  cases process? with
  | none => exact .refl
  | some process =>
    simp only [Option.map_some, Option.toList_some, List.flatMap_cons, List.flatMap_nil,
      List.append_nil, retireOrClear]
    split
    · exact .of_perm (process.clients_startDelayedExit _)
    · exact process.passes_clearDelayedExit now

theorem sound_retireOrClear (r : KeeperRegistry) {process : ProcessEntry} (h : process.Sound)
    (now : ℕ) : (r.retireOrClear process now).Sound := by
  unfold retireOrClear
  split
  · exact process.sound_startDelayedExit _
  · exact h.clearDelayedExit now

theorem active_retireOrClear (r : KeeperRegistry) (process : ProcessEntry) (now : ℕ) :
    (r.retireOrClear process now).active = false := by
  unfold retireOrClear
  split
  · rfl
  · next hactive =>
    change process.active = false
    simpa using hactive

/-- A new process takes the place of one that has no clients left. -/
theorem passes_replace (r : KeeperRegistry) {process? : Option ProcessEntry}
    (hsound : ∀ process, process? = some process → process.Sound)
    (hempty : ((process?.map fun process => r.retireOrClear process now).all
      fun process => process.delayedExitClients.isEmpty) = true) (client : DataStoreAdminClient) :
    Passes now [client] (process?.toList.flatMap ProcessEntry.clients)
      (process?.toList.flatMap ProcessEntry.delayedExitClients)
      ((some ({ adminClient := some client } : ProcessEntry)).toList.flatMap
        ProcessEntry.clients) := by
  refine (passes_retireOrClear r process? now).trans_perm ?_
  have hnil : ((process?.map fun process => r.retireOrClear process now).toList.flatMap
      ProcessEntry.clients) = [] := by
    cases process? with
    | none => rfl
    | some process =>
      simp only [Option.map_some, Option.all_some, List.isEmpty_iff] at hempty
      simp only [Option.map_some, Option.toList_some, List.flatMap_cons, List.flatMap_nil,
        List.append_nil]
      exact (sound_retireOrClear r (hsound process rfl) now).clients_eq_nil
        (active_retireOrClear r process now) hempty
  rw [hnil]
  exact .refl _

/-- A process leaves, if it is active. -/
theorem passes_exit (process? : Option ProcessEntry) (delayedExitTime : ℕ) :
    Passes now [] (process?.toList.flatMap ProcessEntry.clients)
      (process?.toList.flatMap ProcessEntry.delayedExitClients)
      ((process?.map fun process => if process.active then process.startDelayedExit delayedExitTime
        else process).toList.flatMap ProcessEntry.clients) := by
  cases process? with
  | none => exact .refl
  | some process =>
    simp only [Option.map_some, Option.toList_some, List.flatMap_cons, List.flatMap_nil,
      List.append_nil]
    split
    · exact .of_perm (process.clients_startDelayedExit delayedExitTime)
    · exact .refl

theorem sound_exit {process : ProcessEntry} (h : process.Sound) (delayedExitTime : ℕ) :
    (if process.active then process.startDelayedExit delayedExitTime else process).Sound := by
  split
  · exact process.sound_startDelayedExit delayedExitTime
  · exact h

theorem Audited.turns_registerPlayerProcess (h : r.Audited) (groupId : RecordingGroupId)
    (adminService : ServiceEndpoint) (now : ℕ) :
    Turns now r (r.registerPlayerProcess groupId adminService now) := by
  have hkept := h.groups groupId
  have hid := h.named.groupId_group groupId
  unfold registerPlayerProcess
  dsimp only
  split
  · next hempty =>
    have hgroups : ((r.newClient adminService).1.putGroup { r.group groupId with
        playerProcess := some { adminClient := some (r.newClient adminService).2 } }
          ).runIfActive.recordingGroups = r.recordingGroups.insert groupId { r.group groupId with
        playerProcess := some { adminClient := some (r.newClient adminService).2 } } := by
      simp [putGroup, hid, newClient]
    refine h.turns_of_change hgroups hid
      { hkept with player := by rintro process ⟨rfl⟩; exact ProcessEntry.sound_new _ }
      (RecordingGroup.passes_player (passes_replace r hkept.player hempty _))
      (List.nodup_singleton _) ?_ ?_ ?_ ?_ ?_
    · intro c hc
      rw [List.mem_singleton.mp hc]
      simp [newClient, putGroup]
    · simp [newClient, putGroup]
    · intro hactive
      rw [activeGroups_runIfActive]
      exact h.listed groupId hactive
    · intro id hmem
      rw [activeGroups_runIfActive]
      exact .inr hmem
    · rw [activeGroups_runIfActive]
      exact h.once
  · refine h.turns_putGroup hid { hkept with player := ?_ }
      (RecordingGroup.passes_player (passes_retireOrClear r _ now)) id
    intro process hprocess
    obtain ⟨old, hold, rfl⟩ := Option.map_eq_some_iff.mp hprocess
    exact sound_retireOrClear r (hkept.player old hold) now

theorem Audited.turns_registerGrapherProcess (h : r.Audited) (groupId : RecordingGroupId)
    (adminService : ServiceEndpoint) (now : ℕ) :
    Turns now r (r.registerGrapherProcess groupId adminService now) := by
  have hkept := h.groups groupId
  have hid := h.named.groupId_group groupId
  unfold registerGrapherProcess
  dsimp only
  split
  · next hempty =>
    generalize hgroup : ({ r.group groupId with
      grapherProcess := some { adminClient := some (r.newClient adminService).2 } } :
        RecordingGroup) = group
    have hid' : group.groupId = groupId := by rw [← hgroup]; exact hid
    have hgroups : (((r.newClient adminService).1.putGroup group).joinIf group.isActive
        groupId).runIfActive.recordingGroups = r.recordingGroups.insert groupId group := by
      simp [putGroup, hid', newClient]
    refine h.turns_of_change hgroups hid' ?_ ?_ (List.nodup_singleton (r.newClient adminService).2)
      ?_ ?_ ?_ ?_ ?_
    · rw [← hgroup]
      exact { hkept with grapher := by rintro process ⟨rfl⟩; exact ProcessEntry.sound_new _ }
    · rw [← hgroup]
      exact RecordingGroup.passes_grapher (passes_replace r hkept.grapher hempty _)
    · intro c hc
      rw [List.mem_singleton.mp hc]
      simp [newClient, putGroup]
    · simp [newClient, putGroup]
    · intro hactive
      rw [activeGroups_runIfActive, mem_joinIf]
      exact .inr ⟨hactive, rfl⟩
    · intro id hmem
      rw [activeGroups_runIfActive, mem_joinIf]
      exact .inr (.inl hmem)
    · rw [activeGroups_runIfActive]
      exact nodup_joinIf (r := (r.newClient adminService).1.putGroup group) h.once _ _
  · next hempty =>
    refine h.turns_putGroup hid { hkept with grapher := ?_ }
      (RecordingGroup.passes_grapher (passes_retireOrClear r _ now)) ?_
    · intro process hprocess
      obtain ⟨old, hold, rfl⟩ := Option.map_eq_some_iff.mp hprocess
      exact sound_retireOrClear r (hkept.grapher old hold) now
    · -- the group has no active grapher any more
      intro hactive
      rw [RecordingGroup.isActive, Bool.and_eq_true, Option.any_eq_true] at hactive
      obtain ⟨⟨grapher, hgrapher, hactive⟩, -⟩ := hactive
      obtain ⟨old, -, rfl⟩ := Option.map_eq_some_iff.mp hgrapher
      rw [active_retireOrClear] at hactive
      cases hactive

theorem Turns.stopIfInactive (h : Turns now r r') : Turns now r r'.stopIfInactive := by
  have hgroup : ∀ id, r'.stopIfInactive.group id = r'.group id := by
    intro id
    rw [KeeperRegistry.group, recordingGroups_stopIfInactive, KeeperRegistry.group]
  have hclients : r'.stopIfInactive.clients = r'.clients := by
    rw [clients, recordingGroups_stopIfInactive, clients]
  refine ⟨⟨?_, ?_, ?_, ?_, ?_, ?_⟩, ?_, ?_, ?_⟩
  · intro id group hget
    rw [recordingGroups_stopIfInactive] at hget
    exact h.audited.named id group hget
  · intro id
    rw [hgroup]
    exact h.audited.groups id
  · intro id hactive
    rw [activeGroups_stopIfInactive]
    rw [hgroup] at hactive
    exact h.audited.listed id hactive
  · rw [activeGroups_stopIfInactive]
    exact h.audited.once
  · rw [hclients]
    exact h.audited.single
  · rw [hclients, nextClient_stopIfInactive]
    exact h.audited.known
  · rw [hclients]
    exact h.waited
  · rw [hclients]
    exact h.fresh
  · rw [nextClient_stopIfInactive]
    exact h.next

theorem Audited.turns_unregisterPlayerProcess (h : r.Audited) (groupId : RecordingGroupId)
    (now : ℕ) : Turns now r (r.unregisterPlayerProcess groupId now) := by
  unfold unregisterPlayerProcess
  split
  · exact h.turns_refl
  · next group hget =>
    obtain rfl := group_of_getElem? hget
    have hkept := h.groups groupId
    refine Turns.stopIfInactive (h.turns_putGroup (h.named.groupId_group groupId)
      { hkept with player := ?_ } (RecordingGroup.passes_player (passes_exit _ _)) id)
    intro process hprocess
    obtain ⟨old, hold, rfl⟩ := Option.map_eq_some_iff.mp hprocess
    exact sound_exit (hkept.player old hold) _

/-- A group changes after it may have left the list. -/
theorem Audited.turns_leave (h : r.Audited) (b : Bool) (hid : group.groupId = groupId)
    (hkept : group.Kept)
    (hpasses : Passes now [] (r.group groupId).clients (r.group groupId).waiting group.clients)
    (hactive : group.isActive = true → b = false ∧ (r.group groupId).isActive = true) :
    Turns now r ((r.leaveIf b groupId).putGroup group).stopIfInactive := by
  have hgroups : ((r.leaveIf b groupId).putGroup group).recordingGroups =
      r.recordingGroups.insert groupId group := by
    rw [putGroup, hid, recordingGroups_leaveIf]
  refine Turns.stopIfInactive (h.turns_of_change hgroups hid hkept hpasses List.nodup_nil
    (by simp) ?_ ?_ ?_ ?_)
  · simp [putGroup]
  · intro ha
    refine mem_leaveIf.mpr ⟨h.listed groupId (hactive ha).2, ?_⟩
    rw [(hactive ha).1]
    simp
  · intro id hmem
    by_cases hne : id = groupId
    · exact .inl hne
    · exact .inr (mem_leaveIf.mpr ⟨hmem, fun _ => hne⟩)
  · exact nodup_leaveIf h.once _ _

theorem Audited.turns_unregisterGrapherProcess (h : r.Audited) (groupId : RecordingGroupId)
    (now : ℕ) : Turns now r (r.unregisterGrapherProcess groupId now) := by
  unfold unregisterGrapherProcess
  split
  · exact h.turns_refl
  · next group hget =>
    obtain rfl := group_of_getElem? hget
    have hkept := h.groups groupId
    refine h.turns_leave _ (h.named.groupId_group groupId) { hkept with grapher := ?_ }
      (RecordingGroup.passes_grapher (passes_exit _ _)) ?_
    · intro process hprocess
      obtain ⟨old, hold, rfl⟩ := Option.map_eq_some_iff.mp hprocess
      exact sound_exit (hkept.grapher old hold) _
    · intro hactive
      rw [RecordingGroup.isActive, Bool.and_eq_true, Option.any_eq_true] at hactive
      obtain ⟨⟨grapher, hgrapher, hactive⟩, -⟩ := hactive
      obtain ⟨old, -, rfl⟩ := Option.map_eq_some_iff.mp hgrapher
      split at hactive
      · cases hactive
      · next hold => exact absurd hactive hold

/-! ### Keepers -/

/-- A group that is active after one of its keepers has left has been so before. -/
theorem isActive_startDelayedKeeperExit (hkept : group.Kept) {endpoint : ServiceEndpoint}
    {keeper : ProcessEntry} (hkeeper : group.keeperProcesses[endpoint]? = some keeper)
    (hactive : keeper.active = true) {delayedExitTime : ℕ}
    (h : (group.startDelayedKeeperExit endpoint keeper delayedExitTime).isActive = true) :
    group.isActive = true ∧ group.activeKeeperCount ≠ 1 := by
  have hcount := hkept.count
  rw [activeCount_of_getElem? hkeeper, hactive, if_pos rfl] at hcount
  have hafter := (hkept.startDelayedKeeperExit hkeeper hactive delayedExitTime).count
  rw [RecordingGroup.isActive, Bool.and_eq_true, decide_eq_true_eq, UInt64.lt_iff_toNat_lt,
    hafter, UInt64.toNat_zero] at h
  have hinsert := activeCount_insert group.keeperProcesses endpoint
    (keeper.startDelayedExit delayedExitTime)
  have hlt : 0 < activeCount (group.keeperProcesses.erase endpoint) := by
    have hpos := h.2
    rw [RecordingGroup.startDelayedKeeperExit, hinsert] at hpos
    simpa [ProcessEntry.startDelayedExit] using hpos
  refine ⟨?_, fun hone => ?_⟩
  · rw [RecordingGroup.isActive, Bool.and_eq_true, decide_eq_true_eq, UInt64.lt_iff_toNat_lt,
      hcount, UInt64.toNat_zero]
    exact ⟨h.1, by omega⟩
  · rw [hone, UInt64.toNat_one] at hcount
    omega

theorem Audited.turns_unregisterKeeperProcess (h : r.Audited) {card : KeeperIdCard}
    (hcond : ∀ keeper, r.keeper? card = some keeper → keeper.active = true) (now : ℕ) :
    Turns now r (r.unregisterKeeperProcess card now) := by
  unfold unregisterKeeperProcess
  split
  · exact h.turns_refl
  · next keeper hkeeper =>
    have hkept := h.groups card.groupId
    have hactive := hcond keeper hkeeper
    refine h.turns_leave _ (h.named.groupId_group card.groupId)
      (hkept.startDelayedKeeperExit hkeeper hactive _)
      (RecordingGroup.passes_startDelayedKeeperExit hkeeper _) ?_
    intro ha
    obtain ⟨hbefore, hone⟩ := isActive_startDelayedKeeperExit hkept hkeeper hactive ha
    exact ⟨by simp [hone], hbefore⟩

/-- What becomes of an entry that a registration finds. -/
theorem Audited.turns_retireKeeper (h : r.Audited) {card : KeeperIdCard} {keeper : ProcessEntry}
    (hkeeper : r.keeper? card = some keeper) (now : ℕ) :
    Turns now r (r.retireKeeper card keeper now) := by
  have hkept := h.groups card.groupId
  have hid := h.named.groupId_group card.groupId
  unfold retireKeeper
  split
  · next hactive =>
    exact h.turns_putGroup hid (hkept.startDelayedKeeperExit hkeeper hactive _)
      (RecordingGroup.passes_startDelayedKeeperExit hkeeper _)
      fun ha => (isActive_startDelayedKeeperExit hkept hkeeper hactive ha).1
  · exact h.turns_putGroup hid (hkept.putKeeper hkeeper now)
      (RecordingGroup.passes_putKeeper hkeeper) id

theorem keeper?_putGroup_self {card : KeeperIdCard} (hid : group.groupId = card.groupId) :
    (r.putGroup group).keeper? card = group.keeperProcesses[card.recordingService]? := by
  rw [keeper?_putGroup, if_pos hid]

/-- The entry that is left. -/
theorem keeper?_retireKeeper (h : r.Named) (card : KeeperIdCard) (keeper : ProcessEntry)
    (now : ℕ) :
    (r.retireKeeper card keeper now).keeper? card = some (r.retireOrClear keeper now) := by
  unfold retireKeeper retireOrClear
  have hid := h.groupId_group card.groupId
  split
  · refine (keeper?_putGroup_self ?_).trans Std.ExtTreeMap.getElem?_insert_self
    exact hid
  · refine (keeper?_putGroup_self ?_).trans Std.ExtTreeMap.getElem?_insert_self
    exact hid

/-- An entry without clients is erased. -/
theorem Audited.eraseKeeper (h : r.Audited) {card : KeeperIdCard} {keeper : ProcessEntry}
    (hkeeper : r.keeper? card = some keeper) (hactive : keeper.active = false)
    (hempty : keeper.delayedExitClients = []) :
    (r.eraseKeeper card).Audited ∧ (r.eraseKeeper card).clients.Perm r.clients := by
  have hkept := h.groups card.groupId
  have hid := h.named.groupId_group card.groupId
  have hnil := (hkept.keepers _ _ hkeeper).clients_eq_nil hactive hempty
  have hperm : ((r.group card.groupId).eraseKeeper card.recordingService).clients.Perm
      (r.group card.groupId).clients := (clientsOf_erase hkeeper hnil).append_left _
  have hturns : Turns 0 r (r.eraseKeeper card) :=
    h.turns_putGroup hid (hkept.eraseKeeper hkeeper hactive) (.of_perm hperm) fun ha => ha
  refine ⟨hturns.audited, ?_⟩
  have hgroups : (r.eraseKeeper card).recordingGroups = r.recordingGroups.insert card.groupId
      ((r.group card.groupId).eraseKeeper card.recordingService) := by
    rw [KeeperRegistry.eraseKeeper, putGroup]
    exact congrArg (fun id => r.recordingGroups.insert id _) hid
  exact (perm_clients_of_change hgroups).trans
    ((hperm.append_right _).trans (perm_clients r card.groupId).symm)

theorem keeper?_eraseKeeper (h : r.Named) (card : KeeperIdCard) :
    (r.eraseKeeper card).keeper? card = none := by
  refine (keeper?_putGroup_self ?_).trans Std.ExtTreeMap.getElem?_erase_self
  exact h.groupId_group card.groupId

/-- A keeper comes that has no entry. -/
theorem Audited.addKeeper (h : r.Audited) {card : KeeperIdCard} (hkeeper : r.keeper? card = none)
    (adminService : ServiceEndpoint) :
    (r.addKeeper card adminService).1.Audited ∧
      (r.addKeeper card adminService).1.clients.Perm
        ([(r.newClient adminService).2] ++ r.clients) ∧
      (r.addKeeper card adminService).1.nextClient = r.nextClient + 1 := by
  have hkept := h.groups card.groupId
  have hid := h.named.groupId_group card.groupId
  simp only [KeeperRegistry.addKeeper]
  generalize hgroup : ((r.newClient adminService).1.group card.groupId).addKeeper
    card.recordingService (r.newClient adminService).2 = group
  have hid' : group.groupId = card.groupId := by rw [← hgroup]; exact hid
  have hperm : group.clients.Perm ([(r.newClient adminService).2] ++
      (r.group card.groupId).clients) := by
    rw [← hgroup]
    refine ((clientsOf_insert_new hkeeper _).append_left _).trans ?_
    exact List.perm_append_comm_assoc _ _ _
  generalize hr' : (((r.newClient adminService).1.putGroup group).joinIf
    (group.isActive && decide (group.activeKeeperCount = 1)) card.groupId).runIfActive = r'
  have hgroups : r'.recordingGroups = r.recordingGroups.insert card.groupId group := by
    rw [← hr']
    simp [putGroup, hid', newClient]
  have hnext : r'.nextClient = r.nextClient + 1 := by
    rw [← hr']
    simp [putGroup, newClient]
  refine ⟨?_, ?_, hnext⟩
  · refine h.of_change hgroups hid' ?_ hperm.subperm (List.nodup_singleton _) ?_ ?_ ?_ ?_ ?_
    · rw [← hgroup]
      exact hkept.addKeeper hkeeper _
    · intro c hc
      rw [List.mem_singleton.mp hc, hnext]
      exact ⟨Nat.le_refl _, Nat.lt_succ_self _⟩
    · omega
    · intro hactive
      rw [← hr', activeGroups_runIfActive, mem_joinIf]
      by_cases hone : group.activeKeeperCount = 1
      · exact .inr ⟨by simp [hactive, hone], rfl⟩
      · -- the group has had a keeper before, and the same grapher
        refine .inl (h.listed card.groupId ?_)
        rw [← hgroup] at hactive hone
        rw [RecordingGroup.isActive, Bool.and_eq_true] at hactive ⊢
        refine ⟨hactive.1, ?_⟩
        rw [decide_eq_true_eq, UInt64.lt_iff_toNat_lt, UInt64.toNat_zero]
        refine Nat.pos_of_ne_zero fun hzero => hone ?_
        have hcount : (r.group card.groupId).activeKeeperCount = 0 := UInt64.toNat_inj.mp hzero
        change (r.group card.groupId).activeKeeperCount + 1 = 1
        rw [hcount]
        rfl
    · intro id hmem
      rw [← hr', activeGroups_runIfActive, mem_joinIf]
      exact .inr (.inl hmem)
    · rw [← hr', activeGroups_runIfActive]
      exact nodup_joinIf (r := (r.newClient adminService).1.putGroup group) h.once _ _
  · exact (perm_clients_of_change hgroups).trans
      ((hperm.append_right _).trans (by
        rw [List.append_assoc]
        exact (perm_clients r card.groupId).symm.append_left _))

/-- A keeper comes after another step. -/
theorem Turns.addKeeper (h : Turns now r r') {card : KeeperIdCard}
    (hkeeper : r'.keeper? card = none) (adminService : ServiceEndpoint) :
    Turns now r (r'.addKeeper card adminService).1 := by
  obtain ⟨haudited, hperm, hnext⟩ := h.audited.addKeeper hkeeper adminService
  refine ⟨haudited, fun c hc => ?_, fun c hc => ?_, ?_⟩
  · exact (h.waited c hc).imp_left fun hc => hperm.mem_iff.mpr (List.mem_append_right _ hc)
  · obtain hc | hc := List.mem_append.mp (hperm.mem_iff.mp hc)
    · rw [List.mem_singleton.mp hc]
      exact .inr h.next
    · exact h.fresh c hc
  · have hle := h.next
    omega

theorem Audited.turns_registerKeeperProcess (h : r.Audited) (card : KeeperIdCard)
    (adminService : ServiceEndpoint) (now : ℕ) :
    Turns now r (r.registerKeeperProcess card adminService now).1 := by
  unfold registerKeeperProcess
  split
  · next hkeeper => exact h.turns_refl.addKeeper hkeeper adminService
  · next keeper hkeeper =>
    have hretire := h.turns_retireKeeper hkeeper now
    dsimp only
    split
    · next hempty =>
      have hleft := keeper?_retireKeeper h.named card keeper now
      obtain ⟨haudited, hperm⟩ := hretire.audited.eraseKeeper hleft
        (active_retireOrClear r keeper now) (List.isEmpty_iff.mp hempty)
      have herase : Turns now r ((r.retireKeeper card keeper now).eraseKeeper card) := by
        refine ⟨haudited, fun c hc => ?_, fun c hc => ?_, hretire.next⟩
        · exact (hretire.waited c hc).imp_left hperm.mem_iff.mpr
        · exact hretire.fresh c (hperm.mem_iff.mp hc)
      exact herase.addKeeper (keeper?_eraseKeeper hretire.audited.named card) adminService
    · exact hretire

end Turns

end KeeperRegistry

/-! ### Runs -/

/-- The condition on a step: a keeper that is unregistered is active, or has no entry. -/
def LeavesOnce (r : KeeperRegistry) : RegistryStep → Prop
  | .unregisterKeeper card _ => ((r.keeper? card).all fun keeper => keeper.active) = true
  | _ => True

instance (r : KeeperRegistry) (l : RegistryStep) : Decidable (LeavesOnce r l) :=
  match l with
  | .unregisterKeeper card _ =>
    inferInstanceAs (Decidable (((r.keeper? card).all fun keeper => keeper.active) = true))
  | .registerKeeper _ _ _ => .isTrue trivial
  | .registerGrapher _ _ _ => .isTrue trivial
  | .unregisterGrapher _ _ => .isTrue trivial
  | .registerPlayer _ _ _ => .isTrue trivial
  | .unregisterPlayer _ _ => .isTrue trivial
  | .clearKeepers _ _ => .isTrue trivial

section Runs

variable {r r' : KeeperRegistry} {l : RegistryStep} {ls : List RegistryStep}

open KeeperRegistry

/-- A step that meets the condition keeps the accounts. -/
theorem turns_step (h : r.Audited) (hcond : LeavesOnce r l) (hstep : registry.step r l = some r') :
    Turns l.now r r' := by
  cases l with
  | registerKeeper card adminService now =>
    obtain rfl := Option.some.inj hstep
    exact h.turns_registerKeeperProcess card adminService now
  | unregisterKeeper card now =>
    obtain rfl := Option.some.inj hstep
    refine h.turns_unregisterKeeperProcess ?_ now
    intro keeper hkeeper
    rw [LeavesOnce, hkeeper, Option.all_some] at hcond
    exact hcond
  | registerGrapher groupId adminService now =>
    obtain rfl := Option.some.inj hstep
    exact h.turns_registerGrapherProcess groupId adminService now
  | unregisterGrapher groupId now =>
    obtain rfl := Option.some.inj hstep
    exact h.turns_unregisterGrapherProcess groupId now
  | registerPlayer groupId adminService now =>
    obtain rfl := Option.some.inj hstep
    exact h.turns_registerPlayerProcess groupId adminService now
  | unregisterPlayer groupId now =>
    obtain rfl := Option.some.inj hstep
    exact h.turns_unregisterPlayerProcess groupId now
  | clearKeepers groupId now =>
    obtain ⟨-, ⟨rfl⟩⟩ := Option.ite_none_right_eq_some.mp hstep
    exact h.turns_clearKeepers groupId now

theorem audited_initial (h : registry.Initial r) : r.Audited := by
  rw [show r = { delayedDataAdminExitSeconds := r.delayedDataAdminExitSeconds } from h]
  have hgroup : ∀ groupId, KeeperRegistry.group
      { delayedDataAdminExitSeconds := r.delayedDataAdminExitSeconds } groupId =
        { groupId := groupId } := by
    intro groupId
    simp [KeeperRegistry.group]
  refine { named := ?_, groups := ?_, listed := ?_, once := List.nodup_nil, single := ?_,
           known := ?_ }
  · intro groupId group hget
    simp at hget
  · intro groupId
    rw [hgroup]
    exact ⟨by simp, by simp, by simp, rfl⟩
  · intro groupId hactive
    rw [hgroup] at hactive
    cases hactive
  · exact List.nodup_nil
  · intro c hc
    cases hc

theorem audited_run (h : r.Audited) (hcond : registry.StepsMeet LeavesOnce r ls)
    (hrun : registry.run r ls = some r') : r'.Audited :=
  System.run_induction_of_stepsMeet (fun _ _ _ ha hc hstep => (turns_step ha hc hstep).audited)
    h hcond hrun

/-- A client that is gone does not come back. -/
theorem gone_run (h : r.Audited) (hcond : registry.StepsMeet LeavesOnce r ls)
    (hrun : registry.run r ls = some r') {c : DataStoreAdminClient} (hc : c ∉ r.clients)
    (hserial : c.serial < r.nextClient) : c ∉ r'.clients := by
  have hinv : r'.Audited ∧ c ∉ r'.clients ∧ c.serial < r'.nextClient := by
    refine System.run_induction_of_stepsMeet
      (P := fun s => s.Audited ∧ c ∉ s.clients ∧ c.serial < s.nextClient) ?_ ⟨h, hc, hserial⟩
      hcond hrun
    rintro s l s' ⟨hs, hgone, hlt⟩ hcond hstep
    have hturns := turns_step hs hcond hstep
    refine ⟨hturns.audited, fun hmem => ?_, Nat.lt_of_lt_of_le hlt hturns.next⟩
    obtain hmem | hle := hturns.fresh c hmem
    · exact hgone hmem
    · omega
  exact hinv.2.1

/-- What is to hold of the registry: every group counts its active keepers, it is active
if it has an active grapher and an active keeper, the active groups are listed once, and
every admin client has one place. -/
structure GroupAccounts (r : KeeperRegistry) : Prop where
  count : ∀ (groupId : RecordingGroupId) (group : RecordingGroup),
    r.recordingGroups[groupId]? = some group →
    group.activeKeeperCount.toNat = group.activeKeepers.length
  active : ∀ (groupId : RecordingGroupId) (group : RecordingGroup),
    r.recordingGroups[groupId]? = some group →
    (group.isActive = true ↔
      (∃ grapher, group.grapherProcess = some grapher ∧ grapher.active = true) ∧
        group.activeKeepers ≠ [])
  listed : ∀ (groupId : RecordingGroupId) (group : RecordingGroup),
    r.recordingGroups[groupId]? = some group → group.isActive = true →
    r.activeGroups.count groupId = 1
  single : r.clients.Nodup

theorem KeeperRegistry.Audited.groupAccounts (h : r.Audited) : GroupAccounts r where
  count groupId group hget := by
    rw [RecordingGroup.length_activeKeepers, ← group_of_getElem? hget]
    exact (h.groups groupId).count
  active groupId group hget := by
    rw [← group_of_getElem? hget]
    exact (h.groups groupId).isActive_iff
  listed groupId group hget hactive := by
    rw [← group_of_getElem? hget] at hactive
    exact List.count_eq_one_of_mem h.once (h.listed groupId hactive)
  single := h.single

/-- **The accounts are right.**  In every run in which no keeper is unregistered while its
entry waits to be removed, the accounts are right, and a client that a step takes away
has waited until its time and does not come back. -/
theorem group_accounts {r₀ : KeeperRegistry} (hinit : registry.Initial r₀)
    (hcond : registry.StepsMeet LeavesOnce r₀ ls) (hrun : registry.run r₀ ls = some r) :
    GroupAccounts r ∧
      ∀ ls₁ l ls₂ r₁ r₂, ls = ls₁ ++ l :: ls₂ → registry.run r₀ ls₁ = some r₁ →
        registry.step r₁ l = some r₂ → ∀ c ∈ r₁.clients, c ∉ r₂.clients →
        (∃ t ≤ l.now, (t, c) ∈ r₁.waiting) ∧ c ∉ r.clients := by
  have haudited := audited_initial hinit
  refine ⟨(audited_run haudited hcond hrun).groupAccounts, ?_⟩
  rintro ls₁ l ls₂ r₁ r₂ rfl hrun₁ hstep c hc hgone
  have haudited₁ := audited_run haudited hcond.of_append hrun₁
  obtain ⟨hcond₁, hrest⟩ := hcond.after hrun₁
  have hturns := turns_step haudited₁ hcond₁ hstep
  refine ⟨(hturns.waited c hc).resolve_left hgone, ?_⟩
  rw [System.run_append, hrun₁, Option.bind_some, System.run, hstep, Option.bind_some] at hrun
  exact gone_run hturns.audited (hrest r₂ hstep) hrun hgone
    (Nat.lt_of_lt_of_le (haudited₁.known c hc) hturns.next)

end Runs

/-- A keeper leaves, is refused while its client waits, and comes back after that. -/
theorem group_accounts_returned :
    ∃ r, registry.run {} [.registerGrapher 1 100 0, .registerKeeper ⟨1, 7⟩ 200 0,
        .unregisterKeeper ⟨1, 7⟩ 1, .registerKeeper ⟨1, 7⟩ 200 2,
        .registerKeeper ⟨1, 7⟩ 200 4] = some r ∧
      (r.clients.map DataStoreAdminClient.serial = [0, 2] ∧ r.activeGroups = [1]) ∧
      GroupAccounts r := by
  have hend : (registry.run {} [.registerGrapher 1 100 0, .registerKeeper ⟨1, 7⟩ 200 0,
      .unregisterKeeper ⟨1, 7⟩ 1, .registerKeeper ⟨1, 7⟩ 200 2,
      .registerKeeper ⟨1, 7⟩ 200 4]).any (fun r =>
        decide (r.clients.map DataStoreAdminClient.serial = [0, 2] ∧ r.activeGroups = [1])) =
          true := by
    decide +kernel
  obtain ⟨r, hrun, hr⟩ := (Option.any_eq_true _ _).mp hend
  exact ⟨r, hrun, of_decide_eq_true hr,
    (group_accounts (show registry.Initial {} from rfl)
      (System.stepsMeet_of_check (by decide +kernel)) hrun).1⟩

/-- **A second unregistration wraps the count**: the only keeper of a group is
unregistered twice, and the group stays active without a keeper. -/
theorem second_unregistration_wraps_count :
    ∃ r group, registry.run {} [.registerGrapher 1 100 0, .registerKeeper ⟨1, 7⟩ 200 0,
        .unregisterKeeper ⟨1, 7⟩ 1, .unregisterKeeper ⟨1, 7⟩ 2] = some r ∧
      r.recordingGroups[(1 : RecordingGroupId)]? = some group ∧
      group.activeKeeperCount = 0xffffffffffffffff ∧ group.activeKeepers = [] ∧
      group.isActive = true ∧ ¬GroupAccounts r := by
  have hend : (registry.run {} [.registerGrapher 1 100 0, .registerKeeper ⟨1, 7⟩ 200 0,
      .unregisterKeeper ⟨1, 7⟩ 1, .unregisterKeeper ⟨1, 7⟩ 2]).any (fun r =>
        (r.recordingGroups[(1 : RecordingGroupId)]?).any fun group =>
          decide (group.activeKeeperCount = 0xffffffffffffffff ∧ group.activeKeepers = [] ∧
            group.isActive = true)) = true := by
    decide +kernel
  obtain ⟨r, hrun, hr⟩ := (Option.any_eq_true _ _).mp hend
  obtain ⟨group, hget, hgroup⟩ := (Option.any_eq_true _ _).mp hr
  obtain ⟨hcount, hkeepers, hactive⟩ := of_decide_eq_true hgroup
  refine ⟨r, group, hrun, hget, hcount, hkeepers, hactive, fun haccounts => ?_⟩
  exact ((haccounts.active 1 group hget).mp hactive).2 hkeepers

end ChronoLog.Visor
