import ChronoLog.Grapher.DataStore
import ChronoLog.Lib.OrdMap

/-!
# The life of one story in the grapher's data store

What the data store holds of one story is its pipeline, its place on the waiting
list, its ingestion handle and two tombstones.  Every method of the store is a
move of each story on this small state; the methods that touch whole maps move
every story of a chronicle, or every story whose time has come.

## Main definitions

* `StoryStatus` — what the store holds of a story.
* `StoryStatus.Consistent` — a story that waits or has a handle has a pipeline, and
  a story with a tombstone has none.

## Main results

* `status_startStoryRecording` and its neighbours — what each method does to the
  status of every story.
-/

namespace ChronoLog

/-- What the data store holds of one story. -/
structure StoryStatus where
  pipeline : Option StoryPipeline := none
  waiting : Option (StoryPipeline × ℕ) := none
  handle : Option ℕ := none
  storyDestroyed : Bool := false
  chronicleDestroyed : Bool := false

namespace StoryStatus

/-- A tombstone stands for the story or its chronicle. -/
def tombstoned (v : StoryStatus) : Bool := v.storyDestroyed || v.chronicleDestroyed

/-- What waits or has a handle is recorded, and what has a tombstone is not.  The
pipeline of a story carries the story's names. -/
structure Consistent (chronicle : ChronicleName) (storyId : StoryId) (v : StoryStatus) : Prop where
  waiting : ∀ p t, v.waiting = some (p, t) → v.pipeline = some p
  handle : v.pipeline = none → v.handle = none
  buried : v.tombstoned = true → v.pipeline = none
  named : ∀ p, v.pipeline = some p → p.storyId = storyId ∧ p.chronicleName = chronicle

/-- The story is recorded: it has a pipeline, the new one if there was none, and
does not wait. -/
def record (v : StoryStatus) (new : StoryPipeline) : StoryStatus :=
  { v with
    pipeline := some (v.pipeline.getD new)
    waiting := none
    handle := if v.pipeline.isSome then v.handle else some new.incarnation }

/-- The story is no longer recorded. -/
def unrecord (v : StoryStatus) : StoryStatus :=
  { v with pipeline := none, waiting := none, handle := none }

/-- The visor registers the story. -/
def register (v : StoryStatus) (new : StoryPipeline) : StoryStatus :=
  { v.record new with storyDestroyed := false, chronicleDestroyed := false }

/-- A chunk of the story is adopted, unless a tombstone stands. -/
def adopt (v : StoryStatus) (new : StoryPipeline) : StoryStatus :=
  if v.tombstoned then v else v.record new

/-- The story goes on the waiting list, if it is recorded. -/
def stop (v : StoryStatus) (exitTime : ℕ) : StoryStatus :=
  match v.pipeline with
  | none => v
  | some p => { v with waiting := some (p, exitTime) }

/-- The story is retired, if its exit time has passed. -/
def retire (v : StoryStatus) (currentTime : ℕ) : StoryStatus :=
  match v.waiting with
  | none => v
  | some (_, exitTime) => if exitTime ≤ currentTime then v.unrecord else v

variable {chronicle : ChronicleName} {storyId : StoryId} {v : StoryStatus} {new : StoryPipeline}

@[simp] theorem tombstoned_stop (exitTime : ℕ) : (v.stop exitTime).tombstoned = v.tombstoned := by
  unfold stop
  split <;> rfl

@[simp] theorem tombstoned_retire (currentTime : ℕ) :
    (v.retire currentTime).tombstoned = v.tombstoned := by
  unfold retire
  split
  · rfl
  · split <;> rfl

@[simp] theorem tombstoned_adopt (new : StoryPipeline) :
    (v.adopt new).tombstoned = v.tombstoned := by
  unfold adopt
  split <;> rfl

theorem adopt_of_tombstoned (h : v.tombstoned = true) : v.adopt new = v := if_pos h

theorem Consistent.not_waiting (h : v.Consistent chronicle storyId) (hp : v.pipeline = none) :
    v.waiting = none := by
  cases hw : v.waiting with
  | none => rfl
  | some entry =>
    rw [h.waiting entry.1 entry.2 hw] at hp
    cases hp

theorem Consistent.record (h : v.Consistent chronicle storyId) (hv : v.tombstoned = false)
    (hnew : new.storyId = storyId ∧ new.chronicleName = chronicle) :
    (v.record new).Consistent chronicle storyId := by
  refine ⟨(fun p t hw => by cases hw), (fun hp => by cases hp), fun ht => ?_, fun p hp => ?_⟩
  · change v.tombstoned = true at ht
    rw [hv] at ht
    cases ht
  · obtain rfl : v.pipeline.getD new = p := Option.some.inj hp
    cases hold : v.pipeline with
    | none => exact hnew
    | some p => exact h.named p hold

theorem Consistent.register (h : v.Consistent chronicle storyId)
    (hnew : new.storyId = storyId ∧ new.chronicleName = chronicle) :
    (v.register new).Consistent chronicle storyId := by
  refine ⟨(fun p t hw => by cases hw), (fun hp => by cases hp), (fun ht => by cases ht),
    fun p hp => ?_⟩
  obtain rfl : v.pipeline.getD new = p := Option.some.inj hp
  cases hold : v.pipeline with
  | none => exact hnew
  | some p => exact h.named p hold

theorem Consistent.adopt (h : v.Consistent chronicle storyId)
    (hnew : new.storyId = storyId ∧ new.chronicleName = chronicle) :
    (v.adopt new).Consistent chronicle storyId := by
  unfold StoryStatus.adopt
  split
  · exact h
  · next hv => exact h.record (by simpa using hv) hnew

/-- A story that is not recorded, whatever tombstones stand. -/
theorem Consistent.of_unrecorded (hp : v.pipeline = none) (hw : v.waiting = none)
    (hh : v.handle = none) : v.Consistent chronicle storyId := by
  refine ⟨fun p t hw' => ?_, fun _ => hh, fun _ => hp, fun p hp' => ?_⟩
  · rw [hw] at hw'
    cases hw'
  · rw [hp] at hp'
    cases hp'

theorem Consistent.unrecord (v : StoryStatus) : v.unrecord.Consistent chronicle storyId :=
  .of_unrecorded rfl rfl rfl

theorem Consistent.stop (h : v.Consistent chronicle storyId) (exitTime : ℕ) :
    (v.stop exitTime).Consistent chronicle storyId := by
  unfold StoryStatus.stop
  split
  · exact h
  · next p hp =>
    refine ⟨fun q t hw => ?_, h.handle, h.buried, h.named⟩
    cases hw
    exact hp

theorem Consistent.retire (h : v.Consistent chronicle storyId) (currentTime : ℕ) :
    (v.retire currentTime).Consistent chronicle storyId := by
  unfold StoryStatus.retire
  split
  · exact h
  · split
    · exact Consistent.unrecord v
    · exact h

end StoryStatus

namespace GrapherDataStore

variable (chronicleOf : StoryId → ChronicleName)

/-- What the store holds of the story. -/
def status (g : GrapherDataStore) (storyId : StoryId) : StoryStatus where
  pipeline := g.theMapOfStoryPipelines[storyId]?
  waiting := g.pipelinesWaitingForExit[storyId]?
  handle := g.theIngestionQueue.storyIngestionHandles[storyId]?
  storyDestroyed := g.destroyedStories.contains storyId
  chronicleDestroyed := g.destroyedChronicles.contains (chronicleOf storyId)

/-- The store is consistent for every story. -/
def Consistent (g : GrapherDataStore) : Prop :=
  ∀ storyId, (g.status chronicleOf storyId).Consistent (chronicleOf storyId) storyId

variable {chronicleOf} {g : GrapherDataStore} {storyId other : StoryId}

theorem tombstoned_status :
    (g.status chronicleOf storyId).tombstoned = g.tombstoned (chronicleOf storyId) storyId := rfl

/-! ### Starting and stopping -/

theorem status_rescue (startTime : ℕ) (h : (g.status chronicleOf storyId).pipeline.isSome = true)
    (new : StoryPipeline) :
    (g.rescue storyId startTime).status chronicleOf other =
      if storyId = other then (g.status chronicleOf other).record new
      else g.status chronicleOf other := by
  by_cases ho : storyId = other
  · subst ho
    obtain ⟨p, hp⟩ := Option.isSome_iff_exists.mp h
    change g.theMapOfStoryPipelines[storyId]? = some p at hp
    simp [rescue, status, StoryStatus.record, hp]
  · simp [rescue, status, ho, Std.ExtTreeMap.getElem?_erase]

theorem status_createPipeline (startTime : ℕ) (isAdoption : Bool)
    (h : (g.status chronicleOf storyId).pipeline = none)
    (hwaiting : (g.status chronicleOf storyId).waiting = none)
    (hhandle : (g.status chronicleOf storyId).handle = none) :
    (g.createPipeline (chronicleOf storyId) storyId startTime isAdoption).status chronicleOf other =
      if storyId = other then
        (g.status chronicleOf other).record (g.newPipeline (chronicleOf storyId) storyId startTime)
      else g.status chronicleOf other := by
  by_cases ho : storyId = other
  · subst ho
    change g.theMapOfStoryPipelines[storyId]? = none at h
    change g.pipelinesWaitingForExit[storyId]? = none at hwaiting
    change g.theIngestionQueue.storyIngestionHandles[storyId]? = none at hhandle
    have hnew : (g.theIngestionQueue.storyIngestionHandles.insertIfNew storyId
        (g.currentIncarnation + 1))[storyId]? = some (g.currentIncarnation + 1) := by
      rw [Std.ExtTreeMap.getElem?_insertIfNew, if_pos]
      refine ⟨Std.ReflCmp.compare_self, fun hmem => ?_⟩
      rw [Std.ExtTreeMap.mem_iff_isSome_getElem?, hhandle] at hmem
      cases hmem
    simp only [createPipeline, status, StoryStatus.record, h, hwaiting, newPipeline, hnew,
      ChunkIngestionQueue.addStoryIngestionHandle, Std.ExtTreeMap.getElem?_insert_self, if_true,
      Option.getD_none, Option.isSome_none, Bool.false_eq_true, if_false]
  · simp [createPipeline, status, ho, ChunkIngestionQueue.addStoryIngestionHandle,
      Std.ExtTreeMap.getElem?_insert, Std.ExtTreeMap.getElem?_insertIfNew]

theorem status_clearTombstones :
    (g.clearTombstones (chronicleOf storyId) storyId).status chronicleOf other =
      { g.status chronicleOf other with
        storyDestroyed := if storyId = other then false
          else (g.status chronicleOf other).storyDestroyed
        chronicleDestroyed := if chronicleOf storyId = chronicleOf other then false
          else (g.status chronicleOf other).chronicleDestroyed } := by
  by_cases ho : storyId = other
  · subst ho
    simp [clearTombstones, status]
  · by_cases hc : chronicleOf storyId = chronicleOf other <;>
      simp [clearTombstones, status, ho, hc, Std.ExtTreeSet.contains_erase]

/-- The end of `startStoryRecording`, for a story that may be recorded. -/
theorem status_recorded (startTime : ℕ) (isAdoption : Bool)
    (h : (g.status chronicleOf storyId).Consistent (chronicleOf storyId) storyId)
    (other : StoryId) :
    (if g.theMapOfStoryPipelines.contains storyId then
          (g.rescue storyId startTime, some (!g.pipelinesWaitingForExit.contains storyId))
        else (g.createPipeline (chronicleOf storyId) storyId startTime isAdoption,
          some false)).1.status chronicleOf other =
      if storyId = other then
        (g.status chronicleOf other).record (g.newPipeline (chronicleOf storyId) storyId startTime)
      else g.status chronicleOf other := by
  cases hp : (g.status chronicleOf storyId).pipeline with
  | none =>
    have hmap : g.theMapOfStoryPipelines.contains storyId = false := by
      rw [Std.ExtTreeMap.contains_eq_isSome_getElem?]
      exact congrArg Option.isSome hp
    rw [hmap]
    exact status_createPipeline startTime isAdoption hp (h.not_waiting hp) (h.handle hp)
  | some p =>
    have hmap : g.theMapOfStoryPipelines.contains storyId = true := by
      rw [Std.ExtTreeMap.contains_eq_isSome_getElem?]
      exact congrArg Option.isSome hp
    rw [if_pos hmap]
    exact status_rescue startTime (congrArg Option.isSome hp) _

/-- **What an adopted chunk does to the stories.** -/
theorem status_adopt (h : g.Consistent chronicleOf) (storyId : StoryId) (startTime : ℕ)
    (other : StoryId) :
    (g.startStoryRecording (chronicleOf storyId) storyId startTime true).1.status
        chronicleOf other =
      if storyId = other then
        (g.status chronicleOf other).adopt (g.newPipeline (chronicleOf storyId) storyId startTime)
      else g.status chronicleOf other := by
  unfold startStoryRecording StoryStatus.adopt
  by_cases ht : g.tombstoned (chronicleOf storyId) storyId = true
  · rw [if_pos (by rw [ht]; rfl)]
    split
    · next ho =>
      subst ho
      exact (if_pos ht).symm
    · rfl
  · rw [if_neg (by simpa using ht)]
    refine (status_recorded startTime true (h storyId) other).trans ?_
    split
    · next ho =>
      subst ho
      exact (if_neg ht).symm
    · rfl

variable (chronicleOf) in
/-- What an adopted chunk learns of its story. -/
theorem wasActive_adopt (storyId : StoryId) (startTime : ℕ) :
    (g.startStoryRecording (chronicleOf storyId) storyId startTime true).2 =
      if (g.status chronicleOf storyId).tombstoned then none
      else some ((g.status chronicleOf storyId).pipeline.isSome &&
        (g.status chronicleOf storyId).waiting.isNone) := by
  unfold startStoryRecording
  rw [tombstoned_status]
  by_cases ht : g.tombstoned (chronicleOf storyId) storyId = true
  · rw [if_pos ht, if_pos (by rw [ht]; rfl)]
  · rw [if_neg ht, if_neg (by simpa using ht)]
    simp only [if_true, Std.ExtTreeMap.contains_eq_isSome_getElem?]
    split <;> next hp => simp [status, hp]

/-- **What a registration does to the stories**: it registers its story, and lifts
the tombstone of the whole chronicle. -/
theorem status_register (h : g.Consistent chronicleOf) (storyId : StoryId) (startTime : ℕ)
    (other : StoryId) :
    (g.startStoryRecording (chronicleOf storyId) storyId startTime false).1.status
        chronicleOf other =
      if storyId = other then
        (g.status chronicleOf other).register
          (g.newPipeline (chronicleOf storyId) storyId startTime)
      else
        { g.status chronicleOf other with
          chronicleDestroyed := if chronicleOf storyId = chronicleOf other then false
            else (g.status chronicleOf other).chronicleDestroyed } := by
  have hclear : ((g.clearTombstones (chronicleOf storyId) storyId).status chronicleOf
      storyId).Consistent (chronicleOf storyId) storyId := by
    rw [status_clearTombstones]
    refine ⟨(h storyId).waiting, (h storyId).handle, fun ht => ?_, (h storyId).named⟩
    simp [StoryStatus.tombstoned] at ht
  refine (status_recorded startTime false hclear other).trans ?_
  rw [status_clearTombstones]
  by_cases ho : storyId = other
  · subst ho
    simp [StoryStatus.register, StoryStatus.record, newPipeline, clearTombstones]
  · simp [ho]

theorem status_stopStoryRecording (storyId : StoryId) (now : ℕ) (other : StoryId) :
    (g.stopStoryRecording storyId now).status chronicleOf other =
      if storyId = other then
        (g.status chronicleOf other).stop
          ((now + g.inactivePipelineDelaySecs * 1000000000) % 2 ^ 64)
      else g.status chronicleOf other := by
  by_cases ho : storyId = other
  · subst ho
    rw [if_pos rfl]
    unfold stopStoryRecording StoryStatus.stop
    cases hp : g.theMapOfStoryPipelines[storyId]? with
    | none =>
      rw [show (g.status chronicleOf storyId).pipeline = none from hp]
    | some p =>
      rw [show (g.status chronicleOf storyId).pipeline = some p from hp]
      simp [status, hp]
  · rw [if_neg ho]
    unfold stopStoryRecording
    split
    · rfl
    · simp [status, ho, Std.ExtTreeMap.getElem?_insert]

/-! ### Destroying -/

@[simp] theorem status_reportDropped (storyId other : StoryId) :
    (g.reportDropped storyId).status chronicleOf other = g.status chronicleOf other := rfl

@[simp] theorem status_drainOrphanChunks (other : StoryId) :
    g.drainOrphanChunks.status chronicleOf other = g.status chronicleOf other := rfl

theorem status_unhook (storyId other : StoryId) :
    (g.unhook storyId).status chronicleOf other =
      { g.status chronicleOf other with
        handle := if storyId = other then none else (g.status chronicleOf other).handle } := by
  by_cases ho : storyId = other <;>
    simp [unhook, status, ChunkIngestionQueue.removeStoryIngestionHandle, ho,
      Std.ExtTreeMap.getElem?_erase]

theorem status_foldl_unhook (storyIds : List StoryId) (g : GrapherDataStore) (other : StoryId) :
    (storyIds.foldl unhook g).status chronicleOf other =
      { g.status chronicleOf other with
        handle := if other ∈ storyIds then none else (g.status chronicleOf other).handle } := by
  induction storyIds generalizing g with
  | nil => rfl
  | cons storyId storyIds ih =>
    rw [List.foldl_cons, ih, status_unhook]
    by_cases ho : storyId = other
    · simp [ho]
    · simp [ho, Ne.symm ho]

theorem status_foldl_reportDropped (storyIds : List StoryId) (g : GrapherDataStore)
    (other : StoryId) :
    (storyIds.foldl reportDropped g).status chronicleOf other = g.status chronicleOf other := by
  induction storyIds generalizing g with
  | nil => rfl
  | cons storyId storyIds ih => rw [List.foldl_cons, ih, status_reportDropped]

theorem status_destroyStory (h : g.Consistent chronicleOf) (storyId other : StoryId) :
    (g.destroyStory storyId (chronicleOf storyId)).status chronicleOf other =
      if storyId = other then
        { (g.status chronicleOf other).unrecord with storyDestroyed := true }
      else g.status chronicleOf other := by
  by_cases ho : storyId = other
  · subst ho
    rw [if_pos rfl]
    have hc := h storyId
    cases hp : g.theMapOfStoryPipelines[storyId]? with
    | none =>
      have hw : g.pipelinesWaitingForExit[storyId]? = none := hc.not_waiting hp
      have hh : g.theIngestionQueue.storyIngestionHandles[storyId]? = none := hc.handle hp
      simp [destroyStory, status, StoryStatus.unrecord, reportDropped, hp, hw, hh]
    | some p =>
      simp [destroyStory, status, StoryStatus.unrecord, reportDropped, hp, unhook,
        drainOrphanChunks, ChunkIngestionQueue.removeStoryIngestionHandle]
  · rw [if_neg ho]
    unfold destroyStory
    dsimp only [reportDropped]
    split <;>
      · split <;>
          simp [status, unhook, drainOrphanChunks, ho, Std.ExtTreeSet.contains_insert,
            ChunkIngestionQueue.removeStoryIngestionHandle, Std.ExtTreeMap.getElem?_erase,
            ChunkIngestionQueue.drainOrphanChunks]

theorem status_drained (drained : Bool) (g : GrapherDataStore) (other : StoryId) :
    (if drained then g else g.drainOrphanChunks).status chronicleOf other =
      g.status chronicleOf other := by
  cases drained <;> rfl

theorem mem_recordedOf {chronicle : ChronicleName} :
    storyId ∈ (g.recordedOf chronicle).map Prod.fst ↔
      ∃ p : StoryPipeline, g.theMapOfStoryPipelines[storyId]? = some p ∧
        p.chronicleName = chronicle := by
  simp [recordedOf, Std.ExtTreeMap.mem_toList_iff_getElem?_eq_some]

/-- The stories a destroyed chronicle unhooks are its stories that are recorded. -/
theorem mem_unhooked (h : g.Consistent chronicleOf) {chronicle : ChronicleName} :
    storyId ∈ (g.recordedOf chronicle ++ g.waitingOf chronicle).map Prod.fst ↔
      chronicleOf storyId = chronicle ∧ (g.status chronicleOf storyId).pipeline.isSome = true := by
  have hrecorded : storyId ∈ (g.recordedOf chronicle).map Prod.fst ↔
      chronicleOf storyId = chronicle ∧ (g.status chronicleOf storyId).pipeline.isSome = true := by
    rw [mem_recordedOf, Option.isSome_iff_exists]
    constructor
    · rintro ⟨p, hp, hc⟩
      exact ⟨((h storyId).named p hp).2.symm.trans hc, p, hp⟩
    · rintro ⟨hc, p, hp⟩
      exact ⟨p, hp, ((h storyId).named p hp).2.trans hc⟩
  rw [List.map_append, List.mem_append, or_iff_left_of_imp, hrecorded]
  -- a story on the waiting list is recorded, so the second list is empty
  intro hwaiting
  simp only [waitingOf, List.map_map, List.mem_map, List.mem_filter, Function.comp_apply,
    Std.ExtTreeMap.mem_toList_iff_getElem?_eq_some, decide_eq_true_eq, Prod.exists] at hwaiting
  obtain ⟨id, p, t, ⟨hw, hc, hnot⟩, rfl⟩ := hwaiting
  exact absurd (mem_recordedOf.mpr ⟨p, (h id).waiting p t hw, hc⟩) (by simpa using hnot)

theorem getElem?_unrecordChronicle (h : g.Consistent chronicleOf) (chronicle : ChronicleName)
    (other : StoryId) :
    (g.theMapOfStoryPipelines.filter fun _ pipeline =>
        pipeline.chronicleName ≠ chronicle)[other]? =
      if chronicleOf other = chronicle then none else g.theMapOfStoryPipelines[other]? := by
  rw [Std.ExtTreeMap.getElem?_filter']
  cases hp : g.theMapOfStoryPipelines[other]? with
  | none => simp
  | some p =>
    have hname : p.chronicleName = chronicleOf other := ((h other).named p hp).2
    by_cases hc : chronicleOf other = chronicle <;> simp [hname, hc]

theorem getElem?_unwaitChronicle (h : g.Consistent chronicleOf) (chronicle : ChronicleName)
    (other : StoryId) :
    (g.pipelinesWaitingForExit.filter fun storyId entry =>
        storyId ∉ (g.recordedOf chronicle).map Prod.fst ∧
          entry.1.chronicleName ≠ chronicle)[other]? =
      if chronicleOf other = chronicle then none else g.pipelinesWaitingForExit[other]? := by
  rw [Std.ExtTreeMap.getElem?_filter']
  cases hw : g.pipelinesWaitingForExit[other]? with
  | none => simp
  | some entry =>
    have hp : g.theMapOfStoryPipelines[other]? = some entry.1 := (h other).waiting entry.1 _ hw
    have hname : entry.1.chronicleName = chronicleOf other := ((h other).named entry.1 hp).2
    have hrecorded : other ∈ (g.recordedOf chronicle).map Prod.fst ↔
        chronicleOf other = chronicle := by
      rw [mem_recordedOf, hp]
      simp [hname]
    simp only [hrecorded, hname, ne_eq, and_self, Option.filter_some, decide_not,
      Bool.not_eq_true', decide_eq_false_iff_not, ite_not]

/-- **What the destroy of a chronicle does to the stories.** -/
theorem status_destroyChronicle (h : g.Consistent chronicleOf) (chronicle : ChronicleName)
    (other : StoryId) :
    (g.destroyChronicle chronicle).status chronicleOf other =
      if chronicleOf other = chronicle then
        { (g.status chronicleOf other).unrecord with chronicleDestroyed := true }
      else g.status chronicleOf other := by
  refine (status_foldl_reportDropped _ _ other).trans ?_
  rw [status_foldl_unhook, status_drained]
  simp only [status, getElem?_unrecordChronicle h, getElem?_unwaitChronicle h, mem_unhooked h]
  by_cases hc : chronicleOf other = chronicle
  · -- a story of the chronicle that is not recorded has no handle
    have hhandle : other ∉ g.theMapOfStoryPipelines →
        other ∉ g.theIngestionQueue.storyIngestionHandles := by
      intro hp
      have hnone := (h other).handle (Std.ExtTreeMap.getElem?_eq_none hp)
      simpa [status] using hnone
    simpa [hc, StoryStatus.unrecord] using hhandle
  · simp [hc, Ne.symm hc, Std.ExtTreeSet.contains_insert]

/-! ### Retiring -/

theorem status_retire (h : g.Consistent chronicleOf) {p : StoryPipeline} {exitTime : ℕ}
    (hw : g.pipelinesWaitingForExit[storyId]? = some (p, exitTime)) (other : StoryId) :
    (g.retire (storyId, p, exitTime)).status chronicleOf other =
      if storyId = other then (g.status chronicleOf other).unrecord
      else g.status chronicleOf other := by
  have hname : p.storyId = storyId := ((h storyId).named p ((h storyId).waiting p _ hw)).1
  by_cases ho : storyId = other
  · subst ho
    simp [retire, status, StoryStatus.unrecord, hname,
      ChunkIngestionQueue.removeStoryIngestionHandle]
  · simp [retire, status, hname, ho, ChunkIngestionQueue.removeStoryIngestionHandle,
      Std.ExtTreeMap.getElem?_erase]

theorem status_foldl_retire (entries : List (StoryId × StoryPipeline × ℕ))
    (hnodup : (entries.map Prod.fst).Nodup) (h : g.Consistent chronicleOf)
    (hentries : ∀ entry ∈ entries, g.pipelinesWaitingForExit[entry.1]? = some entry.2)
    (other : StoryId) :
    (entries.foldl GrapherDataStore.retire g).status chronicleOf other =
      if other ∈ entries.map Prod.fst then (g.status chronicleOf other).unrecord
      else g.status chronicleOf other := by
  induction entries generalizing g with
  | nil => rfl
  | cons entry entries ih =>
    obtain ⟨storyId, p, exitTime⟩ := entry
    obtain ⟨hnot, hnodup⟩ := List.nodup_cons.mp hnodup
    have hstatus := status_retire h (hentries _ List.mem_cons_self)
    have hnext : (g.retire (storyId, p, exitTime)).Consistent chronicleOf := fun id => by
      rw [hstatus]
      split
      · exact StoryStatus.Consistent.unrecord _
      · exact h id
    have hrest : ∀ entry ∈ entries,
        (g.retire (storyId, p, exitTime)).pipelinesWaitingForExit[entry.1]? = some entry.2 := by
      intro entry hmem
      have hmem' : entry.1 ∈ entries.map Prod.fst := List.mem_map_of_mem hmem
      have hne : storyId ≠ entry.1 := fun heq => hnot (heq ▸ hmem')
      change (g.pipelinesWaitingForExit.erase storyId)[entry.1]? = some entry.2
      rw [Std.ExtTreeMap.getElem?_erase, if_neg (by simpa using hne)]
      exact hentries entry (List.mem_cons_of_mem _ hmem)
    rw [List.foldl_cons, ih hnodup hnext hrest, hstatus]
    by_cases ho : storyId = other
    · subst ho
      rw [if_neg hnot, if_pos rfl]
      exact (if_pos List.mem_cons_self).symm
    · rw [if_neg ho]
      refine if_congr ?_ rfl rfl
      simp [Ne.symm ho]

/-- **What retiring does to the stories.** -/
theorem status_retireDecayedPipelines (h : g.Consistent chronicleOf) (currentTime : ℕ)
    (other : StoryId) :
    (g.retireDecayedPipelines currentTime).status chronicleOf other =
      (g.status chronicleOf other).retire currentTime := by
  unfold retireDecayedPipelines
  split
  · next hempty =>
    -- no pipeline, so nobody waits
    have hp : (g.status chronicleOf other).pipeline = none := by
      simp only [status]
      rw [Std.ExtTreeMap.isEmpty_iff.mp hempty]
      simp
    rw [StoryStatus.retire, (h other).not_waiting hp]
  · have hmem : other ∈ (g.pipelinesWaitingForExit.toList.filter fun entry =>
        entry.2.2 ≤ currentTime).map Prod.fst ↔
        ∃ p exitTime, (g.status chronicleOf other).waiting = some (p, exitTime) ∧
          exitTime ≤ currentTime := by
      simp [status, Std.ExtTreeMap.mem_toList_iff_getElem?_eq_some]
    rw [status_foldl_retire _ _ h]
    · unfold StoryStatus.retire
      cases hw : (g.status chronicleOf other).waiting with
      | none => exact if_neg (by rw [hmem, hw]; simp)
      | some entry => exact if_congr (by rw [hmem, hw]; simp [Prod.ext_iff]) rfl rfl
    · exact fun entry hentry =>
        Std.ExtTreeMap.mem_toList_iff_getElem?_eq_some.mp (List.mem_of_mem_filter hentry)
    · exact (List.filter_sublist.map Prod.fst).nodup
        (OrderedMap.nodup_map_toList g.pipelinesWaitingForExit id fun _ => rfl)

/-! ### The ingestion queue -/

/-- The store with another ingestion queue, which has the same handles. -/
theorem status_of_handles {q : ChunkIngestionQueue}
    (hq : q.storyIngestionHandles = g.theIngestionQueue.storyIngestionHandles) (other : StoryId) :
    ({ g with theIngestionQueue := q } : GrapherDataStore).status chronicleOf other =
      g.status chronicleOf other := by
  simp [status, hq]

end GrapherDataStore

namespace ChunkIngestionQueue

variable {q : ChunkIngestionQueue} {storyId : StoryId}

@[simp] theorem storyIngestionHandles_pushChunk (handle : Option ℕ) (chunk : StoryChunk) :
    (q.pushChunk handle chunk).storyIngestionHandles = q.storyIngestionHandles := by
  cases handle <;> rfl

/-- The chunks of the story that the handles took. -/
def ingestedOf (q : ChunkIngestionQueue) (storyId : StoryId) : List (ℕ × StoryChunk) :=
  q.ingested.filter fun entry => entry.2.storyId = storyId

/-- Only a chunk of the story that is pushed to a handle is ingested. -/
theorem ingestedOf_pushChunk {handle : Option ℕ} {chunk : StoryChunk}
    (h : chunk.storyId = storyId → handle = none) :
    (q.pushChunk handle chunk).ingestedOf storyId = q.ingestedOf storyId := by
  cases handle with
  | none => rfl
  | some handle =>
    have hne : chunk.storyId ≠ storyId := fun heq => absurd (h heq) (by simp)
    simp [pushChunk, ingestedOf, hne]

theorem ingestedOf_drainOrphanChunks (h : q.storyIngestionHandles[storyId]? = none) :
    q.drainOrphanChunks.ingestedOf storyId = q.ingestedOf storyId := by
  unfold drainOrphanChunks ingestedOf
  rw [List.filter_append, List.append_right_eq_self, List.filter_eq_nil_iff]
  intro entry hentry
  obtain ⟨chunk, -, hchunk⟩ := List.mem_filterMap.mp hentry
  obtain ⟨handle, hhandle, rfl⟩ := Option.map_eq_some_iff.mp hchunk
  simp only [decide_eq_true_eq]
  rintro rfl
  rw [h] at hhandle
  cases hhandle

end ChunkIngestionQueue

end ChronoLog
