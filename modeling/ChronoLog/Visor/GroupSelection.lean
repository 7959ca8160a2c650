import ChronoLog.Lib.Rendezvous
import ChronoLog.Visor.KeeperRegistry

/-!
# The recording group of a story

A story goes to the group that weighs most for it among the groups that can record at the
moment of the acquire, so a story that is acquired again returns to the group whose keepers
hold its recent events, and few stories move when groups come and go.

## Main definitions

* `selectActiveGroup` — the choice from a map of groups, by a test of which are active.

## Main results

* `group_selection_stable` — **the choice depends on the set of groups only, and moves no
  more stories than it has to.**
-/

namespace ChronoLog.Visor

/-- `select_active_recording_group`. -/
def selectActiveGroup {Group : Type} (storyId : StoryId) (groups : OrdMap RecordingGroupId Group)
    (isActive : Group → Bool) : Option (RecordingGroupId × Group) :=
  let activeIds := (groups.toList.filter fun entry => isActive entry.2).map Prod.fst
  (selectRecordingGroup storyId activeIds).bind fun selected =>
    (groups[selected]?).map fun group => (selected, group)

/-- The scan is rendezvous hashing by the weight, with the lower id on a tie. -/
theorem selectRecordingGroup_eq (storyId : StoryId) (ids : List RecordingGroupId) :
    selectRecordingGroup storyId ids =
      Rendezvous.select (fun id => (groupWeight storyId id).toNat) UInt32.toNat ids := by
  unfold selectRecordingGroup Rendezvous.select
  refine List.foldl_ext _ _ _ fun selected groupId _ => ?_
  cases selected with
  | none => rfl
  | some best =>
    simp only [Rendezvous.prefer, Rendezvous.Beats, UInt64.lt_iff_toNat_lt,
      UInt32.lt_iff_toNat_lt, UInt64.toNat_inj]

theorem toNat_injective : Function.Injective UInt32.toNat := fun _ _ => UInt32.toNat_inj.mp

/-- The ids that the choice is drawn from. -/
theorem mem_activeIds {Group : Type} {groups : OrdMap RecordingGroupId Group}
    {isActive : Group → Bool} {id : RecordingGroupId} :
    id ∈ (groups.toList.filter fun entry => isActive entry.2).map Prod.fst ↔
      ∃ group, groups[id]? = some group ∧ isActive group = true := by
  simp only [List.mem_map, List.mem_filter, Prod.exists, exists_and_right, exists_eq_right,
    Std.ExtTreeMap.mem_toList_iff_getElem?_eq_some]

theorem selectRecordingGroup_congr (storyId : StoryId) {ids ids' : List RecordingGroupId}
    (h : ∀ id, id ∈ ids ↔ id ∈ ids') :
    selectRecordingGroup storyId ids = selectRecordingGroup storyId ids' := by
  rw [selectRecordingGroup_eq, selectRecordingGroup_eq]
  exact Rendezvous.select_congr toNat_injective h

theorem exists_selectRecordingGroup (storyId : StoryId) {ids : List RecordingGroupId}
    (h : ids ≠ []) : ∃ id ∈ ids, selectRecordingGroup storyId ids = some id := by
  rw [selectRecordingGroup_eq]
  exact Rendezvous.exists_select toNat_injective _ h

/-- What is selected from some ids is one of them. -/
theorem mem_of_selectRecordingGroup {storyId : StoryId} {ids : List RecordingGroupId}
    {id : RecordingGroupId} (h : selectRecordingGroup storyId ids = some id) : id ∈ ids := by
  rw [selectRecordingGroup_eq] at h
  exact ((Rendezvous.select_eq_some_iff toNat_injective).mp h).1

/-- The group that was selected is in the map, so its id is the choice. -/
theorem selectActiveGroup_map_fst {Group : Type} (storyId : StoryId)
    (groups : OrdMap RecordingGroupId Group) (isActive : Group → Bool) :
    (selectActiveGroup storyId groups isActive).map Prod.fst =
      selectRecordingGroup storyId
        ((groups.toList.filter fun entry => isActive entry.2).map Prod.fst) := by
  unfold selectActiveGroup
  dsimp only
  cases hselect : selectRecordingGroup storyId
      ((groups.toList.filter fun entry => isActive entry.2).map Prod.fst) with
  | none => rfl
  | some id =>
    obtain ⟨group, hgroup, -⟩ := mem_activeIds.mp (mem_of_selectRecordingGroup hselect)
    rw [Option.bind_some, hgroup]
    rfl

/-- The group that is returned is in the map, and active. -/
theorem active_of_selectActiveGroup {Group : Type} {storyId : StoryId}
    {groups : OrdMap RecordingGroupId Group} {isActive : Group → Bool} {id : RecordingGroupId}
    {group : Group} (h : selectActiveGroup storyId groups isActive = some (id, group)) :
    groups[id]? = some group ∧ isActive group = true := by
  obtain ⟨selected, hselect, hmap⟩ := Option.bind_eq_some_iff.mp h
  obtain ⟨found, hfound, heq⟩ := Option.map_eq_some_iff.mp hmap
  obtain ⟨rfl, rfl⟩ := Prod.mk.inj heq
  obtain ⟨active, hget, hactive⟩ := mem_activeIds.mp (mem_of_selectRecordingGroup hselect)
  rw [hfound, Option.some.injEq] at hget
  exact ⟨hfound, hget ▸ hactive⟩

/-- **The choice of a recording group is stable.**  It depends on the set of the ids only and
is one of them; a group that goes or comes moves only the stories it had or gets; and the
choice over the active groups is this choice over their ids. -/
theorem group_selection_stable (storyId : StoryId) :
    (∀ ids ids', (∀ id, id ∈ ids ↔ id ∈ ids') →
        selectRecordingGroup storyId ids = selectRecordingGroup storyId ids') ∧
      (∀ ids, ids ≠ [] → ∃ id ∈ ids, selectRecordingGroup storyId ids = some id) ∧
      (∀ ids id, selectRecordingGroup storyId ids ≠ some id →
        selectRecordingGroup storyId (ids.filter fun other => other ≠ id) =
          selectRecordingGroup storyId ids) ∧
      (∀ ids id, selectRecordingGroup storyId (id :: ids) = selectRecordingGroup storyId ids ∨
        selectRecordingGroup storyId (id :: ids) = some id) ∧
      (∀ (Group : Type) (groups : OrdMap RecordingGroupId Group) (isActive : Group → Bool) ids,
        (∀ id, id ∈ ids ↔ ∃ group, groups[id]? = some group ∧ isActive group = true) →
        (selectActiveGroup storyId groups isActive).map Prod.fst =
            selectRecordingGroup storyId ids ∧
          ∀ id group, selectActiveGroup storyId groups isActive = some (id, group) →
            groups[id]? = some group ∧ isActive group = true) ∧
      ∀ r : KeeperRegistry, r.selectActiveRecordingGroup storyId =
        (selectActiveGroup storyId r.recordingGroups RecordingGroup.isActive).map Prod.fst := by
  refine ⟨fun ids ids' h => selectRecordingGroup_congr storyId h,
    fun ids hids => exists_selectRecordingGroup storyId hids, fun ids id hid => ?_,
    fun ids id => ?_, fun Group groups isActive ids hids => ⟨?_, fun id group hsome => ?_⟩,
    fun r => ?_⟩
  · rw [selectRecordingGroup_eq] at hid
    rw [selectRecordingGroup_eq, selectRecordingGroup_eq]
    exact Rendezvous.select_filter_ne toNat_injective hid
  · simp only [selectRecordingGroup_eq]
    exact Rendezvous.select_cons toNat_injective id ids
  · rw [selectActiveGroup_map_fst]
    exact selectRecordingGroup_congr storyId fun id => mem_activeIds.trans (hids id).symm
  · exact active_of_selectActiveGroup hsome
  · exact (selectActiveGroup_map_fst storyId r.recordingGroups RecordingGroup.isActive).symm

end ChronoLog.Visor
