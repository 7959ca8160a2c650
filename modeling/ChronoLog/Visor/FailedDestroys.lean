import ChronoLog.Visor.DestroyOrder

/-!
# Destroys that fail

`DestroyStory` releases the caller's acquisition before it knows that the removal
succeeds, and does not give it back when it fails.  So a destroy that answers an
error leaves all acquisitions alone only if it fails before that release; and the
release is followed by a removal that succeeds only if the caller alone had acquired
the story and no other request comes to it in between.

## Main definitions

* `SameAcquisitions` — who has acquired what is the same.
* `Metadata.heldAlone`, `Metadata.Cleared` — what the release needs, and what it
  leads to.
* `Guarded` — the condition on a task.
* `Released`, `Kept` — the invariants.

## Main results

* `released_advance` — a story released by a destroy stays cleared until it is removed.
* `Kept.advance` — a destroy that has left its mark does not fail.
-/

namespace ChronoLog.Visor

open Transition

/-- The client is among the story's acquirers. -/
def Metadata.Holds (m : Metadata) (clientId : ClientId) (cid : ChronicleId) (sid : StoryId) :
    Prop :=
  ∃ story, m.story? cid sid = some story ∧ clientId ∈ story.acquirerClientMap

/-- The same clients have acquired the same stories, and their lists say so. -/
structure SameAcquisitions (m m' : Metadata) : Prop where
  held : ∀ clientId cid sid, m'.Holds clientId cid sid ↔ m.Holds clientId cid sid
  listed : ∀ clientId sid, m'.acquired? clientId sid = m.acquired? clientId sid

theorem SameAcquisitions.refl (m : Metadata) : SameAcquisitions m m :=
  ⟨fun _ _ _ => Iff.rfl, fun _ _ => rfl⟩

section Kept

variable (cityHash64 : String → UInt64)

/-- The names, by their hashes, can refer to the story of the other names: a story's id is
made with the name of the chronicle that is filed there, or with the name that is given. -/
def sameStory (names names' : String × String) : Bool :=
  cityHash64 names.1 = cityHash64 names'.1 &&
    (storyIdOf cityHash64 names'.1 names.2 = storyIdOf cityHash64 names'.1 names'.2 ||
      storyIdOf cityHash64 names.1 names.2 = storyIdOf cityHash64 names'.1 names'.2)

/-- The client alone has acquired the story, the story's count says so, and the chronicle is
filed under the hash of its own name. -/
def Metadata.heldAlone (m : Metadata) (clientId : ClientId) (names : String × String) : Bool :=
  (m.findChronicle cityHash64 names.1).any fun chronicle =>
    chronicle.name = names.1 &&
      (chronicle.storyMap[storyIdOf cityHash64 names.1 names.2]?).any fun story =>
        story.acquirerClientMap.toList = [clientId] && story.count = 1

/-- The story is in the directory, nobody has acquired it, and its count says so. -/
structure Metadata.Cleared (m : Metadata) (names : String × String) : Prop where
  nonzero : storyIdOf cityHash64 names.1 names.2 ≠ 0
  filed : ∃ (chronicle : Chronicle) (story : Story),
    m.chronicleMap[cityHash64 names.1]? = some chronicle ∧ chronicle.name = names.1 ∧
      chronicle.storyMap[storyIdOf cityHash64 names.1 names.2]? = some story ∧
      story.acquirerClientMap = ∅ ∧ story.count = 0

variable {cityHash64} {m m' : Metadata} {chronicleName storyName : String}
  {names : String × String}

theorem getStoryId_of_getElem? {chronicle : Chronicle} {story : Story}
    (h : chronicle.storyMap[storyIdOf cityHash64 chronicle.name storyName]? = some story) :
    chronicle.getStoryId cityHash64 storyName = storyIdOf cityHash64 chronicle.name storyName := by
  rw [Chronicle.getStoryId, if_pos]
  rw [Std.ExtTreeMap.contains_eq_isSome_getElem?, h]
  rfl

/-- A cleared story is destroyed. -/
theorem Metadata.Cleared.destroyStory (h : m.Cleared cityHash64 names) :
    (m.destroyStory cityHash64 names.1 names.2).2 = .CL_SUCCESS := by
  obtain ⟨hne, chronicle, story, hget, hname, hstory, hfree, hcount⟩ := h
  rw [← hname] at hstory hne hget
  have hsid := getStoryId_of_getElem? hstory
  rw [← hname]
  unfold Metadata.destroyStory
  simp [Metadata.findChronicle, hget, hsid, hne, hstory, hfree, Chronicle.removeStory, hcount]

/-- A call that keeps the chronicle's name and the story. -/
theorem Metadata.Cleared.of_kept (h : m.Cleared cityHash64 names)
    (hkept : ∀ chronicle : Chronicle, m.chronicleMap[cityHash64 names.1]? = some chronicle →
      chronicle.name = names.1 →
      ∃ chronicle' : Chronicle, m'.chronicleMap[cityHash64 names.1]? = some chronicle' ∧
        chronicle'.name = chronicle.name ∧
        chronicle'.storyMap[storyIdOf cityHash64 names.1 names.2]? =
          chronicle.storyMap[storyIdOf cityHash64 names.1 names.2]?) :
    m'.Cleared cityHash64 names := by
  obtain ⟨hne, chronicle, story, hget, hname, hstory, hfree⟩ := h
  obtain ⟨chronicle', hget', hname', hstory'⟩ := hkept chronicle hget hname
  exact ⟨hne, chronicle', story, hget', hname'.trans hname, hstory'.trans hstory, hfree⟩

theorem Metadata.Cleared.of_chronicleMap (h : m.Cleared cityHash64 names)
    (hmap : m'.chronicleMap = m.chronicleMap) : m'.Cleared cityHash64 names :=
  h.of_kept fun chronicle hget _ => ⟨chronicle, by rw [hmap]; exact hget, rfl, rfl⟩

/-- A call that changes another story. -/
theorem Metadata.Cleared.of_putStory (h : m.Cleared cityHash64 names) {cid : ChronicleId}
    {chronicle : Chronicle} {sid : StoryId} {story : Story}
    (hget : m.chronicleMap[cid]? = some chronicle)
    (hmap : m'.chronicleMap = (m.putStory cid chronicle sid story).chronicleMap)
    (hother : cid = cityHash64 names.1 → chronicle.name = names.1 →
      sid ≠ storyIdOf cityHash64 names.1 names.2) : m'.Cleared cityHash64 names := by
  refine h.of_kept fun chronicle₀ hget₀ hname => ?_
  rw [hmap, Metadata.putStory, Metadata.getElem?_putChronicle]
  split
  · next hc =>
    subst hc
    rw [hget] at hget₀
    cases hget₀
    refine ⟨_, rfl, rfl, ?_⟩
    rw [Std.ExtTreeMap.getElem?_insert, if_neg]
    simpa using hother rfl hname
  · exact ⟨chronicle₀, hget₀, rfl, rfl⟩

/-- An acquire of another story leaves a cleared story alone. -/
theorem Metadata.Cleared.acquireStory (h : m.Cleared cityHash64 names) (clientId : ClientId)
    {names' : String × String} (hother : sameStory cityHash64 names' names = false) :
    (m.acquireStory cityHash64 clientId names'.1 names'.2).1.Cleared cityHash64 names := by
  -- a new acquirer or not, the story is filed under the other names
  have hput : ∀ chronicle : Chronicle, m.chronicleMap[cityHash64 names'.1]? = some chronicle →
      ∀ (story : Story) (m' : Metadata), m'.chronicleMap = (m.putStory (cityHash64 names'.1)
        chronicle (storyIdOf cityHash64 chronicle.name names'.2) story).chronicleMap →
      m'.Cleared cityHash64 names := by
    intro chronicle hget story m' hmap
    refine h.of_putStory hget hmap fun hc hname hsid => ?_
    rw [hname] at hsid
    simp [sameStory, hc, hsid] at hother
  unfold Metadata.acquireStory Metadata.beginAcquire Metadata.findChronicle
  cases hget : m.chronicleMap[cityHash64 names'.1]? with
  | none => exact h
  | some chronicle =>
    dsimp only
    by_cases hheld : (chronicle.addStory cityHash64 names'.2).acquirerClientMap.contains clientId =
      true
    · rw [if_pos hheld]
      exact hput chronicle hget _ _ rfl
    · rw [if_neg hheld]
      exact hput chronicle hget _ _ Metadata.chronicleMap_addStoryAcquisition

/-- A removal of another story leaves a cleared story alone. -/
theorem Metadata.Cleared.of_destroyStory (h : m.Cleared cityHash64 names)
    {names' : String × String} (hother : sameStory cityHash64 names' names = false) :
    (m.destroyStory cityHash64 names'.1 names'.2).1.Cleared cityHash64 names := by
  unfold Metadata.destroyStory Metadata.findChronicle
  cases hget : m.chronicleMap[cityHash64 names'.1]? with
  | none => exact h
  | some chronicle =>
    dsimp only
    split
    · exact h
    · split
      · exact h
      · split
        · exact h
        · refine h.of_kept fun chronicle₀ hget₀ hname => ?_
          rw [Metadata.getElem?_putChronicle]
          split
          · next hc =>
            rw [hc, hget₀] at hget
            cases hget
            unfold Chronicle.removeStory
            dsimp only
            split
            · exact ⟨_, rfl, rfl, rfl⟩
            · split
              · exact ⟨_, rfl, rfl, rfl⟩
              · -- only here has the call erased a story
                refine ⟨_, rfl, rfl, ?_⟩
                rw [Std.ExtTreeMap.getElem?_erase, if_neg]
                intro hsid
                simp [sameStory, hc, Std.LawfulEqCmp.eq_of_compare hsid] at hother
          · exact ⟨chronicle₀, hget₀, rfl, rfl⟩

/-- Nobody can release a cleared story. -/
theorem Metadata.Cleared.releaseStory (h : m.Cleared cityHash64 names) (clientId : ClientId)
    (chronicleName storyName : String) :
    (m.releaseStory cityHash64 clientId chronicleName storyName).1.Cleared cityHash64 names := by
  obtain ⟨heq, -⟩ | ⟨chronicle, sid, story, hget, hstory, hclient, heq, -⟩ :=
    releaseStory_spec m clientId chronicleName storyName
  · rwa [heq]
  · -- a client that releases is among the acquirers, and the cleared story has none
    rw [heq]
    refine h.of_putStory hget Metadata.chronicleMap_removeStoryAcquisition fun hc _ hsid => ?_
    obtain ⟨-, chronicle₀, story₀, hget₀, -, hstory₀, hfree, -⟩ := h
    rw [← hc, hget] at hget₀
    cases hget₀
    rw [← hsid, hstory] at hstory₀
    cases hstory₀
    rw [hfree] at hclient
    exact Std.ExtTreeSet.not_mem_empty hclient

theorem Metadata.Cleared.createChronicle (h : m.Cleared cityHash64 names) (name : String) :
    (m.createChronicle cityHash64 name).1.Cleared cityHash64 names := by
  unfold Metadata.createChronicle
  dsimp only
  split
  · exact h
  · next hnew =>
    refine h.of_kept fun chronicle hget _ => ⟨chronicle, ?_, rfl, rfl⟩
    rw [Metadata.getElem?_putChronicle, if_neg]
    · exact hget
    · intro hc
      rw [Std.ExtTreeMap.contains_eq_isSome_getElem?, hc, hget] at hnew
      exact hnew rfl

/-- The release by the only acquirer clears the story. -/
theorem cleared_of_heldAlone {clientId : ClientId}
    (hclient : m.isAcquirer cityHash64 clientId names.1 names.2 = true)
    (h : m.heldAlone cityHash64 clientId names = true) :
    (m.releaseStory cityHash64 clientId names.1 names.2).1.Cleared cityHash64 names := by
  rw [Metadata.heldAlone, Option.any_eq_true] at h
  obtain ⟨chronicle, hget, h⟩ := h
  rw [Bool.and_eq_true, Option.any_eq_true] at h
  obtain ⟨hname, story, hstory, h⟩ := h
  have hname : chronicle.name = names.1 := of_decide_eq_true hname
  rw [Bool.and_eq_true] at h
  have halone : story.acquirerClientMap.toList = [clientId] := of_decide_eq_true h.1
  have hcount : story.count = 1 := of_decide_eq_true h.2
  have hsid : chronicle.getStoryId cityHash64 names.2 = storyIdOf cityHash64 names.1 names.2 := by
    rw [← hname]
    exact getStoryId_of_getElem? (by rw [hname]; exact hstory)
  have hne : storyIdOf cityHash64 names.1 names.2 ≠ 0 := by
    intro hzero
    simp [Metadata.isAcquirer, hget, hsid, hzero] at hclient
  have hmem : story.acquirerClientMap.contains clientId = true := by
    rw [← Std.ExtTreeSet.contains_toList, halone]
    simp
  -- the client is the only acquirer, so nobody is left once it is erased
  have hfree : story.acquirerClientMap.erase clientId = ∅ := by
    refine Std.ExtTreeSet.ext_mem fun other => ?_
    rw [Std.ExtTreeSet.mem_erase, ← Std.ExtTreeSet.mem_toList, halone, List.mem_singleton]
    simp only [Std.ExtTreeSet.not_mem_empty, iff_false, not_and]
    rintro hdiffers rfl
    exact hdiffers Std.ReflCmp.compare_self
  have heq : (m.releaseStory cityHash64 clientId names.1 names.2).1 =
      ((m.putStory (cityHash64 names.1) chronicle (storyIdOf cityHash64 names.1 names.2)
        (story.decrementAcquisitionCount.removeAcquirerClient clientId)).removeStoryAcquisition
        clientId (storyIdOf cityHash64 names.1 names.2)).1 := by
    unfold Metadata.releaseStory
    simp [hget, hsid, hne, hstory, hmem]
  refine ⟨hne, { chronicle with
    storyMap := chronicle.storyMap.insert (storyIdOf cityHash64 names.1 names.2)
      (story.decrementAcquisitionCount.removeAcquirerClient clientId) },
    story.decrementAcquisitionCount.removeAcquirerClient clientId, ?_, hname, ?_, hfree, ?_⟩
  · rw [heq, Metadata.chronicleMap_removeStoryAcquisition, Metadata.putStory,
      Metadata.getElem?_putChronicle, if_pos rfl]
  · simp
  · simp [Story.removeAcquirerClient, Story.decrementAcquisitionCount, hcount]

theorem removeStory_of_error {chronicle : Chronicle}
    (h : (chronicle.removeStory cityHash64 chronicleName storyName).2 ≠ .CL_SUCCESS) :
    (chronicle.removeStory cityHash64 chronicleName storyName).1 = chronicle := by
  unfold Chronicle.removeStory at h ⊢
  dsimp only at h ⊢
  split
  · rfl
  · split
    · rfl
    · next story hstory hcount => simp [hstory, hcount] at h

theorem sameAcquisitions_putChronicle {cid : ChronicleId} {chronicle : Chronicle}
    (h : m.chronicleMap[cid]? = some chronicle) :
    SameAcquisitions m (m.putChronicle cid chronicle) := by
  have hstory : ∀ cid' sid, (m.putChronicle cid chronicle).story? cid' sid = m.story? cid' sid := by
    intro cid' sid
    rw [Metadata.story?, Metadata.getElem?_putChronicle, Metadata.story?]
    split
    · next hc => rw [← hc, h]
    · rfl
  refine ⟨fun clientId cid' sid => ?_, fun _ _ => rfl⟩
  simp only [Metadata.Holds, hstory]

/-- A removal that fails leaves the acquisitions alone. -/
theorem destroyStory_of_error
    (h : (m.destroyStory cityHash64 chronicleName storyName).2 ≠ .CL_SUCCESS) :
    SameAcquisitions m (m.destroyStory cityHash64 chronicleName storyName).1 := by
  rw [Metadata.destroyStory] at h ⊢
  cases hget : m.findChronicle cityHash64 chronicleName with
  | none => exact .refl m
  | some chronicle =>
    simp only [hget] at h ⊢
    split
    · exact .refl m
    · next hne =>
      rw [if_neg hne] at h
      cases hstory : chronicle.storyMap[chronicle.getStoryId cityHash64 storyName]? with
      | none => exact .refl m
      | some story =>
        simp only [hstory] at h ⊢
        split
        · exact .refl m
        · next hfree =>
          rw [if_neg hfree] at h
          rw [removeStory_of_error h]
          exact sameAcquisitions_putChronicle hget

/-- A release by a client that is not an acquirer does nothing. -/
theorem releaseStory_of_not_isAcquirer {clientId : ClientId}
    (h : m.isAcquirer cityHash64 clientId chronicleName storyName = false) :
    (m.releaseStory cityHash64 clientId chronicleName storyName).1 = m := by
  unfold Metadata.isAcquirer at h
  rw [Metadata.releaseStory]
  cases hget : m.findChronicle cityHash64 chronicleName with
  | none => rfl
  | some chronicle =>
    simp only [hget] at h ⊢
    split
    · rfl
    · next hne =>
      rw [if_neg hne] at h
      cases hstory : chronicle.storyMap[chronicle.getStoryId cityHash64 storyName]? with
      | none => rfl
      | some story =>
        rw [hstory, Option.any_some] at h
        simp [h]

/-- The tasks of a destroy. -/
def Task.ofDestroy : Task → Bool
  | .evaluateDestroy => true
  | .autoRelease => true
  | .destroyStory _ => true
  | .checkBroadcast _ => true
  | .listGraphers _ => true
  | .sendDestroy _ _ => true
  | .unassignStory _ => true
  | .checkRunning n => n.rpc = .stop
  | .findClient n => n.rpc = .stop
  | .send n _ => n.rpc = .stop
  | .checkKeepers rpc _ _ _ => rpc = .stop
  | .copyKeepers rpc _ _ _ => rpc = .stop
  | .sendKeepers rpc _ _ _ _ => rpc = .stop
  | _ => false

/-- The request is a destroy. -/
def Request.isDestroy : Request → Bool
  | .destroyStory _ _ _ => true
  | _ => false

/-- A thread has released or removed a story. -/
def Portal.Touched (v : Portal) (i : ℕ) : Prop :=
  ∃ storyId, .released i storyId ∈ v.trace ∨ .removed i storyId ∈ v.trace

variable {v v' : Portal} {i now : ℕ} {thread thread' : Thread} {reply : Reply} {task : Task}

/-- The task removes the story. -/
def Task.removes : Task → Bool
  | .destroyStory _ => true
  | _ => false

/-- The tasks that a task of a destroy puts before the rest: the removal is put there
once, as the last of them. -/
structure Follow (task : Task) (tasks : List Task) : Prop where
  fits : ∀ t ∈ tasks, t.ofDestroy = true
  new : .evaluateDestroy ∉ tasks
  once : ∀ t ∈ tasks, t.removes = true → task = .evaluateDestroy
  last : ∀ t ∈ tasks.dropLast, t.removes = false

theorem Follow.of_not_removes {tasks : List Task}
    (h : ∀ t ∈ tasks, t.ofDestroy = true ∧ t ≠ .evaluateDestroy ∧ t.removes = false) :
    Follow task tasks where
  fits t ht := (h t ht).1
  new hmem := (h _ hmem).2.1 rfl
  once t ht hremoves := by
    rw [(h t ht).2.2] at hremoves
    cases hremoves
  last t ht := (h t (List.dropLast_subset _ ht)).2.2

theorem follow_nil : Follow task [] := .of_not_removes (by simp)

theorem follow_keeperTasks {storyId : StoryId} {groupId : RecordingGroupId}
    {targets : List (KeeperIdCard × DataStoreAdminClient)} {started : List KeeperIdCard} :
    Follow task (keeperTasks .stop storyId groupId targets started) := by
  refine .of_not_removes ?_
  cases targets <;> simp [keeperTasks, Task.ofDestroy, Task.removes]

theorem follow_destroyTasks {storyId : StoryId} {clients : List DataStoreAdminClient} :
    Follow task (destroyTasks storyId clients) := by
  refine .of_not_removes ?_
  unfold destroyTasks
  split <;> simp [Task.ofDestroy, Task.removes]

variable (cityHash64 v i thread now reply) in
/-- A task of a destroy leads to tasks of a destroy. -/
theorem todo_exec_of_destroy (htask : task.ofDestroy = true) :
    ∃ tasks, (v.exec cityHash64 i thread now reply task).2.todo = tasks ++ thread.todo ∧
      Follow task tasks := by
  have hnone : ∃ tasks, thread.todo = tasks ++ thread.todo ∧ Follow task tasks :=
    ⟨[], by simp, follow_nil⟩
  cases task with
  -- the only task that puts the removal on the list
  | evaluateDestroy =>
    simp only [Portal.exec]
    split
    · exact hnone
    · split
      · refine ⟨_, rfl, ?_⟩
        split
        · exact ⟨by simp [Task.ofDestroy], by simp, fun _ _ _ => rfl, by simp [Task.removes]⟩
        · exact ⟨by simp [Task.ofDestroy], by simp, fun _ _ _ => rfl, by simp⟩
      · exact hnone
  | autoRelease =>
    simp only [Portal.exec]
    split
    · exact ⟨_, rfl, .of_not_removes (by simp [Task.ofDestroy, Task.removes])⟩
    · exact hnone
  | destroyStory storyId =>
    simp only [Portal.exec]
    split
    · exact ⟨_, rfl, .of_not_removes (by simp [Task.ofDestroy, Task.removes])⟩
    · exact hnone
  | checkBroadcast storyId =>
    simp only [Portal.exec]
    split
    · exact ⟨_, rfl, .of_not_removes (by simp [Task.ofDestroy, Task.removes])⟩
    · exact hnone
  | listGraphers storyId => exact ⟨_, rfl, follow_destroyTasks⟩
  | sendDestroy storyId clients =>
    cases clients with
    | nil => exact hnone
    | cons client clients => exact ⟨_, rfl, follow_destroyTasks⟩
  | unassignStory storyId =>
    simp only [Portal.exec]
    split
    · exact hnone
    · exact ⟨_, rfl, .of_not_removes (by simp [Task.ofDestroy, Task.removes])⟩
  | checkRunning n =>
    have hrpc : n.rpc = .stop := by simpa [Task.ofDestroy] using htask
    simp only [Portal.exec, afterFailed, hrpc]
    split
    · exact ⟨_, rfl, .of_not_removes (by simp [Task.ofDestroy, Task.removes, hrpc])⟩
    · exact hnone
  | findClient n =>
    have hrpc : n.rpc = .stop := by simpa [Task.ofDestroy] using htask
    simp only [Portal.exec, afterFailed, hrpc]
    split
    · exact ⟨_, rfl, .of_not_removes (by simp [Task.ofDestroy, Task.removes, hrpc])⟩
    · exact hnone
  | send n client =>
    have hrpc : n.rpc = .stop := by simpa [Task.ofDestroy] using htask
    simp only [Portal.exec, hrpc]
    exact hnone
  | checkKeepers rpc storyId groupId keepers =>
    obtain rfl : rpc = .stop := by simpa [Task.ofDestroy] using htask
    simp only [Portal.exec]
    split
    · exact ⟨_, rfl, .of_not_removes (by simp [Task.ofDestroy, Task.removes])⟩
    · exact hnone
  | copyKeepers rpc storyId groupId keepers =>
    obtain rfl : rpc = .stop := by simpa [Task.ofDestroy] using htask
    exact ⟨_, rfl, follow_keeperTasks⟩
  | sendKeepers rpc storyId groupId targets started =>
    obtain rfl : rpc = .stop := by simpa [Task.ofDestroy] using htask
    cases targets with
    | nil => exact hnone
    | cons card targets => exact ⟨_, rfl, follow_keeperTasks⟩
  | _ => cases htask

variable (cityHash64 v i thread now reply) in
/-- A task of a destroy keeps the answer, and either leaves the acquisitions alone or
has left its mark in the trace; or it fails, and then it leaves both alone. -/
theorem exec_of_destroy (htask : task.ofDestroy = true) :
    (v.exec cityHash64 i thread now reply task).2.code = thread.code ∧
        (SameAcquisitions v.metadata (v.exec cityHash64 i thread now reply task).1.metadata ∨
          (v.exec cityHash64 i thread now reply task).1.Touched i) ∨
      SameAcquisitions v.metadata (v.exec cityHash64 i thread now reply task).1.metadata ∧
        (v.exec cityHash64 i thread now reply task).1.trace = v.trace ∧
        (v.exec cityHash64 i thread now reply task).2.todo = thread.todo ∧
        (task = .evaluateDestroy ∨ ∃ storyId, task = .destroyStory storyId ∧
          (v.metadata.destroyStory cityHash64 thread.request.names.1
            thread.request.names.2).2 ≠ .CL_SUCCESS) := by
  have hsame := SameAcquisitions.refl v.metadata
  cases task with
  | evaluateDestroy =>
    simp only [Portal.exec]
    split
    · exact .inr ⟨hsame, rfl, rfl, .inl trivial⟩
    · split
      · exact .inl ⟨rfl, .inl hsame⟩
      · exact .inr ⟨hsame, rfl, rfl, .inl trivial⟩
  | autoRelease =>
    refine .inl ⟨?_, ?_⟩
    · simp only [Portal.exec]
      split <;> rfl
    · have hportal : (v.exec cityHash64 i thread now reply .autoRelease).1 =
          (v.release cityHash64 i thread.request.clientId thread.request.names).1 := by
        simp only [Portal.exec]
        split <;> rfl
      rw [hportal]
      cases hacquirer : v.metadata.isAcquirer cityHash64 thread.request.clientId
        thread.request.names.1 thread.request.names.2 with
      | false =>
        left
        rw [show (v.release cityHash64 i thread.request.clientId thread.request.names).1.metadata =
          v.metadata from releaseStory_of_not_isAcquirer hacquirer]
        exact hsame
      -- the release leaves its mark
      | true =>
        right
        refine ⟨(v.metadata.releaseStory cityHash64 thread.request.clientId
          thread.request.names.1 thread.request.names.2).2.storyId, .inl ?_⟩
        simp [Portal.release, Portal.record, hacquirer]
  | destroyStory storyId =>
    simp only [Portal.exec]
    split
    · exact .inl ⟨rfl, .inr ⟨storyId, .inr (by simp [Portal.record])⟩⟩
    · next hcode =>
      exact .inr ⟨destroyStory_of_error hcode, rfl, rfl, .inr ⟨storyId, rfl, hcode⟩⟩
  | checkBroadcast storyId =>
    simp only [Portal.exec]
    split <;> exact .inl ⟨rfl, .inl hsame⟩
  | listGraphers storyId => exact .inl ⟨rfl, .inl hsame⟩
  | sendDestroy storyId clients => cases clients <;> exact .inl ⟨rfl, .inl hsame⟩
  | unassignStory storyId =>
    simp only [Portal.exec]
    split <;> exact .inl ⟨rfl, .inl hsame⟩
  | checkRunning n =>
    simp only [Portal.exec]
    split <;> exact .inl ⟨rfl, .inl hsame⟩
  | findClient n =>
    simp only [Portal.exec]
    split <;> exact .inl ⟨rfl, .inl hsame⟩
  | send n client =>
    have hrpc : n.rpc = .stop := by simpa [Task.ofDestroy] using htask
    simp only [Portal.exec, hrpc]
    exact .inl ⟨trivial, .inl hsame⟩
  | checkKeepers rpc storyId groupId keepers =>
    obtain rfl : rpc = .stop := by simpa [Task.ofDestroy] using htask
    simp only [Portal.exec]
    split <;> exact .inl ⟨rfl, .inl hsame⟩
  | copyKeepers rpc storyId groupId keepers => exact .inl ⟨rfl, .inl hsame⟩
  | sendKeepers rpc storyId groupId targets started =>
    cases targets <;> exact .inl ⟨rfl, .inl hsame⟩
  | _ => cases htask

/-- What a destroy has done, and what it answers: while it is in progress it has not
failed, and once it has left its mark it does not fail. -/
structure Kept (v : Portal) : Prop where
  owned : ∀ e ∈ v.trace, ∀ j, e.owner? = some j → j < v.threads.length
  fits : ∀ (i : ℕ) (thread : Thread), v.threads[i]? = some thread →
    thread.request.isDestroy = true → ∀ t ∈ thread.todo, t.ofDestroy = true
  fresh : ∀ (i : ℕ) (thread : Thread), v.threads[i]? = some thread →
    thread.request.isDestroy = true → .evaluateDestroy ∈ thread.todo →
    thread.todo = [.evaluateDestroy] ∧ ¬v.Touched i
  last : ∀ (i : ℕ) (thread : Thread), v.threads[i]? = some thread →
    thread.request.isDestroy = true → ∀ t ∈ thread.todo.dropLast, t.removes = false
  code : ∀ (i : ℕ) (thread : Thread), v.threads[i]? = some thread →
    thread.request.isDestroy = true → thread.todo ≠ [] ∨ v.Touched i → thread.code = .CL_SUCCESS

theorem kept_initial : Kept {} where
  owned := by simp
  fits := by simp
  fresh := by simp
  last := by simp
  code := by simp

theorem Kept.advance (h : Kept v) (hgone : ∀ storyId sid, v.task? i = some (.destroyStory storyId) →
      .removed i sid ∉ v.trace)
    (hcond : ∀ storyId sid, v.task? i = some (.destroyStory storyId) → .released i sid ∈ v.trace →
      ∀ thread ∈ v.threads[i]?, v.metadata.Cleared cityHash64 thread.request.names)
    (hstep : v.advance cityHash64 i now reply = some v') : Kept v' := by
  obtain ⟨thread, task, rest, hthread, htodo, htask, rfl⟩ := Portal.advance_eq_some hstep
  obtain ⟨es, htrace, howned⟩ :=
    Portal.exec_owned cityHash64 v i { thread with todo := rest } now reply task
  have hrequest := Portal.request_exec cityHash64 v i { thread with todo := rest } now reply task
  generalize hexec : v.exec cityHash64 i { thread with todo := rest } now reply task = r at *
  -- what the step adds to the trace is this thread's own doing
  have hother : ∀ j, j ≠ i →
      ({ r.1 with threads := v.threads.set i r.2 } : Portal).Touched j → v.Touched j := by
    rintro j hne ⟨storyId, hmem⟩
    refine ⟨storyId, ?_⟩
    simp only [htrace, List.mem_append] at hmem
    obtain (hmem | hmem) | (hmem | hmem) := hmem
    · exact .inl hmem
    · exact absurd (howned _ hmem j rfl) hne
    · exact .inr hmem
    · exact absurd (howned _ hmem j rfl) hne
  -- the tasks of the thread, if it is a destroy
  have hself : r.2.request.isDestroy = true → task.ofDestroy = true ∧
      ∃ tasks, r.2.todo = tasks ++ rest ∧ Follow task tasks := by
    intro hdestroy
    have hof : task.ofDestroy = true :=
      h.fits i thread hthread (by rwa [hrequest] at hdestroy) task (by rw [htodo]; simp)
    refine ⟨hof, ?_⟩
    have htasks :=
      todo_exec_of_destroy cityHash64 v i now { thread with todo := rest } reply hof
    rwa [hexec] at htasks
  refine { owned := ?_, fits := ?_, fresh := ?_, last := ?_, code := ?_ }
  · intro e he j hj
    simp only [htrace, List.mem_append] at he
    rw [List.length_set]
    obtain he | he := he
    · exact h.owned e he j hj
    · rw [howned e he j hj]
      exact (List.getElem?_eq_some_iff.mp hthread).1
  · intro j t ht hdestroy task' htask'
    obtain ⟨rfl, rfl⟩ | ⟨-, ht⟩ := getElem?_set_cases ht
    · obtain ⟨-, tasks, htasks, hfollow⟩ := hself hdestroy
      rw [htasks, List.mem_append] at htask'
      obtain htask' | htask' := htask'
      · exact hfollow.fits task' htask'
      · exact h.fits j thread hthread (by rwa [hrequest] at hdestroy) task'
          (by rw [htodo]; exact List.mem_cons_of_mem _ htask')
    · exact h.fits j t ht hdestroy task' htask'
  · intro j t ht hdestroy hmem
    obtain ⟨rfl, rfl⟩ | ⟨hne, ht⟩ := getElem?_set_cases ht
    · -- the evaluation is the first task, and no task leads to it again
      exfalso
      obtain ⟨-, tasks, htasks, hfollow⟩ := hself hdestroy
      rw [htasks, List.mem_append] at hmem
      obtain hmem | hmem := hmem
      · exact hfollow.new hmem
      · have halone := (h.fresh j thread hthread (by rwa [hrequest] at hdestroy)
          (by rw [htodo]; exact List.mem_cons_of_mem _ hmem)).1
        rw [htodo, List.cons.injEq] at halone
        rw [halone.2] at hmem
        cases hmem
    · obtain ⟨halone, hnot⟩ := h.fresh j t ht hdestroy hmem
      exact ⟨halone, fun htouched => hnot (hother j hne htouched)⟩
  · intro j t ht hdestroy task' htask'
    obtain ⟨rfl, rfl⟩ | ⟨-, ht⟩ := getElem?_set_cases ht
    · obtain ⟨-, tasks, htasks, hfollow⟩ := hself hdestroy
      rw [hrequest] at hdestroy
      rw [htasks, List.dropLast_append] at htask'
      split at htask'
      · exact hfollow.last task' htask'
      · next hrest =>
        rw [List.mem_append] at htask'
        obtain htask' | htask' := htask'
        · -- a removal that the task puts there comes from the evaluation, after which
          -- nothing is left
          by_contra hremoves
          have hevaluate := hfollow.once task' htask' (by simpa using hremoves)
          have halone := (h.fresh j thread hthread hdestroy (by rw [htodo, hevaluate]; simp)).1
          rw [htodo, List.cons.injEq] at halone
          exact hrest (by rw [halone.2]; rfl)
        · refine h.last j thread hthread hdestroy task' ?_
          rw [htodo, List.dropLast_cons_of_ne_nil (by simpa using hrest)]
          exact List.mem_cons_of_mem _ htask'
    · exact h.last j t ht hdestroy task' htask'
  · intro j t ht hdestroy hbusy
    obtain ⟨rfl, rfl⟩ | ⟨hne, ht⟩ := getElem?_set_cases ht
    · obtain ⟨hof, -⟩ := hself hdestroy
      rw [hrequest] at hdestroy
      have hcode : thread.code = .CL_SUCCESS :=
        h.code j thread hthread hdestroy (.inl (by rw [htodo]; simp))
      have heffect := exec_of_destroy cityHash64 v j now { thread with todo := rest } reply hof
      rw [hexec] at heffect
      obtain ⟨hkeep, -⟩ | ⟨-, hsame, htodo', hfailed⟩ := heffect
      · exact hkeep.trans hcode
      · -- it has failed: nothing is left to be done, and it has left no mark
        exfalso
        have htouched : ({ r.1 with threads := v.threads.set j r.2 } : Portal).Touched j →
            v.Touched j := by
          rintro ⟨storyId, hmem⟩
          exact ⟨storyId, by simpa only [hsame] using hmem⟩
        obtain rfl | ⟨storyId, rfl, herror⟩ := hfailed
        · obtain ⟨halone, hnot⟩ := h.fresh j thread hthread hdestroy (by rw [htodo]; simp)
          rw [htodo, List.cons.injEq] at halone
          obtain hbusy | hbusy := hbusy
          · exact hbusy (htodo'.trans halone.2)
          · exact hnot (htouched hbusy)
        · -- the removal is the last task
          have hrest : rest = [] := by
            by_contra hne
            have hlast := h.last j thread hthread hdestroy (.destroyStory storyId)
              (by rw [htodo, List.dropLast_cons_of_ne_nil hne]; simp)
            cases hlast
          obtain hbusy | hbusy := hbusy
          · exact hbusy (htodo'.trans hrest)
          · obtain ⟨sid, hmem | hmem⟩ := htouched hbusy
            · exact herror (hcond storyId sid htask hmem thread (by rw [hthread]; rfl)).destroyStory
            · exact hgone storyId sid htask hmem
    · exact h.code j t ht hdestroy (hbusy.imp_right (hother j hne))

theorem Kept.receive (h : Kept v) (request : Request) :
    Kept { v with
      threads := v.threads ++ [{ request := request, todo := [request.firstTask] }] } := by
  -- nothing that has happened is the doing of the new thread
  have hnew : ∀ e ∈ v.trace, e.owner? ≠ some v.threads.length := by
    intro e he howner
    exact Nat.lt_irrefl _ (h.owned e he _ howner)
  refine { owned := ?_, fits := ?_, fresh := ?_, last := ?_, code := ?_ }
  · intro e he j hj
    rw [List.length_append]
    exact Nat.lt_add_right _ (h.owned e he j hj)
  · intro j t ht hdestroy
    obtain ht | ⟨-, rfl⟩ := getElem?_concat_cases ht
    · exact h.fits j t ht hdestroy
    · cases request <;> simp_all [Request.isDestroy, Request.firstTask, Task.ofDestroy]
  · intro j t ht hdestroy hmem
    obtain ht | ⟨rfl, rfl⟩ := getElem?_concat_cases ht
    · exact h.fresh j t ht hdestroy hmem
    · refine ⟨by rw [← List.mem_singleton.mp hmem], ?_⟩
      rintro ⟨storyId, he | he⟩
      · exact hnew _ he rfl
      · exact hnew _ he rfl
  · intro j t ht hdestroy
    obtain ht | ⟨-, rfl⟩ := getElem?_concat_cases ht
    · exact h.last j t ht hdestroy
    · simp
  · intro j t ht hdestroy hbusy
    obtain ht | ⟨-, rfl⟩ := getElem?_concat_cases ht
    · exact h.code j t ht hdestroy hbusy
    · rfl

/-- A step that leaves the threads and the trace alone. -/
theorem Kept.of_eq (h : Kept v) (hthreads : v'.threads = v.threads) (htrace : v'.trace = v.trace) :
    Kept v' := by
  have htouched : ∀ j, v'.Touched j ↔ v.Touched j := by
    intro j
    simp only [Portal.Touched, htrace]
  refine { owned := ?_, fits := ?_, fresh := ?_, last := ?_, code := ?_ } <;>
    simp only [hthreads, htrace, htouched]
  exacts [h.owned, h.fits, h.fresh, h.last, h.code]

/-! ### From the release to the removal -/

/-- The event is a release by that thread. -/
def Event.isReleaseBy (i : ℕ) : Event → Bool
  | .released j _ => j = i
  | _ => false

/-- The thread has released its caller's acquisition and is still to remove the story. -/
def Portal.Releasing (v : Portal) (i : ℕ) : Prop :=
  v.In i .removing ∧ ∃ e ∈ v.trace, e.isReleaseBy i = true

instance (v : Portal) (i : ℕ) : Decidable (v.Releasing i) := inferInstanceAs (Decidable (_ ∧ _))

variable (cityHash64) in
/-- **The condition on a task of a thread.**  A destroy that comes to release its caller's
acquisition finds that the caller alone has acquired the story; and no acquire and no other
destroy comes to that story between the release and the removal. -/
def Guarded (v : Portal) (i : ℕ) (thread : Thread) (task : Task) : Prop :=
  (task = .autoRelease →
    v.metadata.isAcquirer cityHash64 thread.request.clientId thread.request.names.1
      thread.request.names.2 = true →
    v.metadata.heldAlone cityHash64 thread.request.clientId thread.request.names = true) ∧
  (task = .acquireStory ∨ task.removes = true →
    ∀ j < v.threads.length, j ≠ i → v.Releasing j → ∀ other ∈ v.threads[j]?,
      sameStory cityHash64 thread.request.names other.request.names = false)

instance (v : Portal) (i : ℕ) (thread : Thread) (task : Task) :
    Decidable (Guarded cityHash64 v i thread task) := inferInstanceAs (Decidable (_ ∧ _))

/-- A task that does not come to a cleared story leaves it alone. -/
theorem cleared_exec (h : v.metadata.Cleared cityHash64 names)
    (hother : task = .acquireStory ∨ task.removes = true →
      sameStory cityHash64 thread.request.names names = false) :
    (v.exec cityHash64 i thread now reply task).1.metadata.Cleared cityHash64 names := by
  cases task with
  | acquireStory =>
    have hafter := h.acquireStory thread.request.clientId (hother (.inl rfl))
    simp only [Portal.exec]
    split <;> exact hafter
  | undoAcquire => exact h.releaseStory _ _ _
  | releaseStory =>
    simp only [Portal.exec]
    split <;> exact h.releaseStory _ _ _
  | releaseAcquired chronicleName storyName =>
    simp only [Portal.exec]
    split <;> exact h.releaseStory _ _ _
  | autoRelease =>
    simp only [Portal.exec]
    split <;> exact h.releaseStory _ _ _
  | removeClientRecord => exact h.of_chronicleMap Metadata.chronicleMap_removeClientRecord
  | destroyStory storyId =>
    have hafter := h.of_destroyStory (hother (.inr rfl))
    simp only [Portal.exec]
    split <;> exact hafter
  -- the other tasks leave the directory alone
  | _ =>
    simp only [Portal.exec]
    (repeat' split) <;> exact h

/-- The only release by a destroy is the one on behalf of its caller. -/
theorem released_exec (htask : task.ofDestroy = true) {e : Event}
    (he : e ∈ (v.exec cityHash64 i thread now reply task).1.trace)
    (hrelease : e.isReleaseBy i = true) :
    e ∈ v.trace ∨ task = .autoRelease ∧ v.metadata.isAcquirer cityHash64 thread.request.clientId
      thread.request.names.1 thread.request.names.2 = true := by
  have hexecuted : ∀ event : Event, event.isReleaseBy i = false →
      e ∈ v.trace ++ executedEvent reply event → e ∈ v.trace := by
    intro event hevent hmem
    refine (List.mem_append.mp hmem).resolve_right fun hnew => ?_
    unfold executedEvent at hnew
    split at hnew
    · rw [List.mem_singleton.mp hnew, hevent] at hrelease
      cases hrelease
    · cases hnew
  cases task with
  | autoRelease =>
    by_cases hacquirer : v.metadata.isAcquirer cityHash64 thread.request.clientId
      thread.request.names.1 thread.request.names.2 = true
    · exact .inr ⟨rfl, hacquirer⟩
    · left
      simp only [Portal.exec, Portal.release, Portal.record, hacquirer] at he
      split at he <;> simpa using he
  | destroyStory storyId =>
    left
    simp only [Portal.exec] at he
    split at he
    · refine (List.mem_append.mp he).resolve_right fun hnew => ?_
      rw [List.mem_singleton.mp hnew] at hrelease
      cases hrelease
    · exact he
  | sendDestroy storyId clients =>
    cases clients with
    | nil => exact .inl he
    | cons client clients => exact .inl (hexecuted _ rfl he)
  | send n client =>
    have hrpc : n.rpc = .stop := by simpa [Task.ofDestroy] using htask
    simp only [Portal.exec, hrpc] at he
    exact .inl (hexecuted _ rfl he)
  | sendKeepers rpc storyId groupId targets started =>
    cases targets with
    | nil => exact .inl he
    | cons card targets => exact .inl (hexecuted _ rfl he)
  | evaluateDestroy =>
    simp only [Portal.exec] at he
    (repeat' split at he) <;> exact .inl he
  | checkBroadcast storyId =>
    simp only [Portal.exec] at he
    split at he <;> exact .inl he
  | listGraphers storyId => exact .inl he
  | unassignStory storyId =>
    simp only [Portal.exec] at he
    split at he <;> exact .inl he
  | checkRunning n =>
    simp only [Portal.exec] at he
    split at he <;> exact .inl he
  | findClient n =>
    simp only [Portal.exec] at he
    split at he <;> exact .inl he
  | checkKeepers rpc storyId groupId keepers =>
    simp only [Portal.exec] at he
    (repeat' split at he) <;> exact .inl he
  | copyKeepers rpc storyId groupId keepers => exact .inl he
  | _ => cases htask

variable (cityHash64) in
/-- A story that a destroy has released is cleared until it is removed. -/
structure Released (v : Portal) : Prop where
  destroys : ∀ (i : ℕ) (thread : Thread), v.threads[i]? = some thread →
    .removing ∈ thread.stages → thread.request.isDestroy = true
  cleared : ∀ (i : ℕ) (thread : Thread), v.threads[i]? = some thread → v.Releasing i →
    v.metadata.Cleared cityHash64 thread.request.names

theorem released_initial : Released cityHash64 {} where
  destroys := by simp
  cleared := by simp

theorem Released.advance (h : Released cityHash64 v) (hkept : Kept v)
    (hcond : ∀ task ∈ v.task? i, ∀ thread ∈ v.threads[i]?, Guarded cityHash64 v i thread task)
    (hremoving : ∀ j, v'.In j .removing → v.In j .removing)
    (hgone : ∀ d storyId, .removed d storyId ∈ v'.trace → ¬v'.In d .removing)
    (hstep : v.advance cityHash64 i now reply = some v') : Released cityHash64 v' := by
  obtain ⟨thread, task, rest, hthread, htodo, htask, rfl⟩ := Portal.advance_eq_some hstep
  obtain ⟨hguard, hapart⟩ := hcond task htask thread hthread
  obtain ⟨es, htrace, howned⟩ :=
    Portal.exec_owned cityHash64 v i { thread with todo := rest } now reply task
  have hrequest := Portal.request_exec cityHash64 v i { thread with todo := rest } now reply task
  have hin : ∀ j, Portal.In _ j .removing → v.In j .removing := hremoving
  refine ⟨fun j t ht hstage => ?_, fun j t ht hreleasing => ?_⟩
  · obtain ⟨t₀, ht₀, hstage₀⟩ := hin j ⟨t, ht, hstage⟩
    have hdestroy := h.destroys j t₀ ht₀ hstage₀
    obtain ⟨rfl, rfl⟩ | ⟨-, ht⟩ := getElem?_set_cases ht
    · rw [hthread] at ht₀
      cases ht₀
      rwa [hrequest]
    · rw [ht] at ht₀
      cases ht₀
      exact hdestroy
  · obtain ⟨hstage, e, he, hrelease⟩ := hreleasing
    have hbefore := hin j hstage
    obtain ⟨rfl, rfl⟩ | ⟨hne, ht⟩ := getElem?_set_cases ht
    · rw [hrequest]
      obtain ⟨t₀, ht₀, hstage₀⟩ := id hbefore
      rw [hthread] at ht₀
      cases ht₀
      have hof : task.ofDestroy = true :=
        hkept.fits j thread hthread (h.destroys j thread hthread hstage₀) task (by rw [htodo]; simp)
      obtain hold | ⟨rfl, hacquirer⟩ := released_exec hof he hrelease
      · -- released before this step
        have hcleared := h.cleared j thread hthread ⟨hbefore, e, hold, hrelease⟩
        refine cleared_exec hcleared fun hcomes => ?_
        obtain rfl | hremoves := hcomes
        · cases hof
        · -- the removal succeeds, and the thread is past it
          obtain ⟨storyId, rfl⟩ : ∃ storyId, task = .destroyStory storyId := by
            cases task <;> first | exact ⟨_, rfl⟩ | cases hremoves
          refine absurd hstage (hgone j storyId ?_)
          simp only [Portal.exec, hcleared.destroyStory, if_true]
          simp [Portal.record]
      · -- released by this step
        have hcleared := cleared_of_heldAlone hacquirer (hguard rfl hacquirer)
        simp only [Portal.exec]
        split <;> exact hcleared
    · -- another thread has released the story
      rw [htrace, List.mem_append] at he
      have hold : e ∈ v.trace := by
        refine he.resolve_right fun hnew => hne ?_
        refine howned e hnew j ?_
        cases e <;> simp_all [Event.isReleaseBy, Event.owner?]
      have hreleasing : v.Releasing j := ⟨hbefore, e, hold, hrelease⟩
      refine cleared_exec (h.cleared j t ht hreleasing) fun hcomes => ?_
      exact hapart hcomes j (List.getElem?_eq_some_iff.mp ht).1 hne hreleasing t ht

theorem Released.receive (h : Released cityHash64 v) (hkept : Kept v) (request : Request) :
    Released cityHash64
      { v with threads := v.threads ++ [{ request := request, todo := [request.firstTask] }] } := by
  refine ⟨fun j t ht hstage => ?_, fun j t ht hreleasing => ?_⟩
  · obtain ht | ⟨-, rfl⟩ := getElem?_concat_cases ht
    · exact h.destroys j t ht hstage
    · cases request with
      | destroyStory => rfl
      | acquireStory => cases List.mem_singleton.mp hstage
      | _ => cases hstage
  · obtain ⟨⟨t₀, ht₀, hstage⟩, e, he, hrelease⟩ := hreleasing
    obtain hold | ⟨rfl, -⟩ := getElem?_concat_cases ht
    · rw [ht] at ht₀
      cases ht₀
      exact h.cleared j t hold ⟨⟨t, hold, hstage⟩, e, he, hrelease⟩
    · -- nothing that has happened is the doing of the new thread
      refine absurd (hkept.owned e he v.threads.length ?_) (Nat.lt_irrefl _)
      cases e <;> simp_all [Event.isReleaseBy, Event.owner?]

/-- A step that leaves the threads and the trace alone, and cleared stories. -/
theorem Released.of_eq (h : Released cityHash64 v) (hthreads : v'.threads = v.threads)
    (htrace : v'.trace = v.trace)
    (hcleared : ∀ names, v.metadata.Cleared cityHash64 names →
      v'.metadata.Cleared cityHash64 names) : Released cityHash64 v' := by
  have hreleasing : ∀ j, v'.Releasing j ↔ v.Releasing j := by
    intro j
    simp only [Portal.Releasing, Portal.In, hthreads, htrace]
  refine ⟨?_, ?_⟩ <;> simp only [hthreads, hreleasing]
  · exact h.destroys
  · exact fun j t ht hj => hcleared _ (h.cleared j t ht hj)

end Kept

end ChronoLog.Visor
