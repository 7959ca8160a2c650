import ChronoLog.Visor.MetaDirectory

/-!
# The three records of an acquisition

An acquisition is a unit of the story's count, a key of the story's acquirer map
and an entry of the client's list.  The three agree whenever no acquire is under way, in every
run of calls in which every story is acquired by a client that is registered at both of its
visits to the registry.  An acquire by a client that is not registered only raises the count,
and the story can then never be destroyed; a client whose record is removed between the two
visits is in the acquirer map and has no list.

## Main definitions

* `Metadata.story?`, `Metadata.acquired?` — the two sides of an acquisition.
* `Agrees`, `Acquirable`, `Sound` — the invariant, with the directory's mutex free and taken.
* `AcquisitionsAgree` — the agreement, and what callers rely on because of it.
* `AcquiresKnown` — the condition on a call.

## Main results

* `acquisitions_agree` — the agreement holds in every state of such a run.
* `unregistered_acquire_pins_story` — what an acquire does by a client that is not registered,
  or not any more.
-/

namespace ChronoLog.Visor

open Transition

namespace Metadata

/-- The story with that id in that chronicle. -/
def story? (m : Metadata) (cid : ChronicleId) (sid : StoryId) : Option Story :=
  (m.chronicleMap[cid]?).bind fun chronicle => chronicle.storyMap[sid]?

/-- Where the client's list says that it has acquired the story. -/
def acquired? (m : Metadata) (clientId : ClientId) (sid : StoryId) : Option ChronicleId :=
  (m.clientRegistry[clientId]?).bind fun info => info.acquiredStoryList[sid]?

variable {m : Metadata} {cid : ChronicleId} {sid : StoryId} {chronicle : Chronicle} {story : Story}
  {clientId : ClientId}

theorem story?_eq_some :
    m.story? cid sid = some story ↔
      ∃ chronicle, m.chronicleMap[cid]? = some chronicle ∧ chronicle.storyMap[sid]? = some story :=
  Option.bind_eq_some_iff

theorem story?_of_getElem? (h : m.chronicleMap[cid]? = some chronicle) :
    m.story? cid sid = chronicle.storyMap[sid]? := by
  rw [story?, h, Option.bind_some]

theorem story?_putStory (h : m.chronicleMap[cid]? = some chronicle) (cid' : ChronicleId)
    (sid' : StoryId) :
    (m.putStory cid chronicle sid story).story? cid' sid' =
      if cid = cid' ∧ sid = sid' then some story else m.story? cid' sid' := by
  by_cases hc : cid = cid'
  · subst hc
    rw [story?_of_getElem? h]
    by_cases hs : sid = sid'
    · subst hs
      simp [story?, putStory, putChronicle]
    · simp [story?, putStory, putChronicle, hs, Std.ExtTreeMap.getElem?_insert]
  · simp [story?, putStory, putChronicle, hc, Std.ExtTreeMap.getElem?_insert]

theorem acquired?_putStory {sid' : StoryId} :
    (m.putStory cid chronicle sid story).acquired? clientId sid' = m.acquired? clientId sid' := rfl

theorem getElem?_putChronicle (cid' : ChronicleId) :
    (m.putChronicle cid chronicle).chronicleMap[cid']? =
      if cid = cid' then some chronicle else m.chronicleMap[cid']? := by
  by_cases hc : cid = cid' <;> simp [putChronicle, hc, Std.ExtTreeMap.getElem?_insert]

@[simp] theorem chronicleMap_addStoryAcquisition :
    (m.addStoryAcquisition clientId sid cid).chronicleMap = m.chronicleMap := by
  unfold addStoryAcquisition
  split
  · rfl
  · split <;> rfl

@[simp] theorem chronicleMap_removeStoryAcquisition :
    (m.removeStoryAcquisition clientId sid).1.chronicleMap = m.chronicleMap := by
  unfold removeStoryAcquisition
  split
  · rfl
  · split <;> rfl

@[simp] theorem chronicleMap_addClientRecord :
    (m.addClientRecord clientId).1.chronicleMap = m.chronicleMap := by
  unfold addClientRecord
  split <;> rfl

@[simp] theorem chronicleMap_removeClientRecord :
    (m.removeClientRecord clientId).1.chronicleMap = m.chronicleMap := by
  unfold removeClientRecord
  split
  · rfl
  · split <;> rfl

/-- A new client has acquired nothing. -/
theorem acquired?_addClientRecord {clientId' : ClientId} :
    (m.addClientRecord clientId).1.acquired? clientId' sid = m.acquired? clientId' sid := by
  unfold addClientRecord
  split
  · rfl
  · next hnew =>
    rw [Std.ExtTreeMap.contains_eq_isSome_getElem?, Option.not_isSome_iff_eq_none] at hnew
    by_cases hc : clientId = clientId'
    · subst hc
      simp [acquired?, hnew]
    · simp [acquired?, hc, Std.ExtTreeMap.getElem?_insert]

/-- A client that has acquired something is not removed. -/
theorem acquired?_removeClientRecord {clientId' : ClientId} :
    (m.removeClientRecord clientId).1.acquired? clientId' sid = m.acquired? clientId' sid := by
  unfold removeClientRecord
  split
  · rfl
  · next info hinfo =>
    split
    · next hempty =>
      by_cases hc : clientId = clientId'
      · subst hc
        rw [acquired?, acquired?, hinfo, Option.bind_some,
          Std.ExtTreeMap.isEmpty_iff.mp hempty]
        simp
      · simp [acquired?, hc, Std.ExtTreeMap.getElem?_erase]
    · rfl

/-- The list of a registered client that has not acquired the story gets its entry. -/
theorem acquired?_addStoryAcquisition (hclient : m.clientRegistry.contains clientId = true)
    (hnew : m.acquired? clientId sid = none) (clientId' : ClientId) (sid' : StoryId) :
    (m.addStoryAcquisition clientId sid cid).acquired? clientId' sid' =
      if clientId = clientId' ∧ sid = sid' then some cid else m.acquired? clientId' sid' := by
  rw [Std.ExtTreeMap.contains_eq_isSome_getElem?] at hclient
  obtain ⟨info, hinfo⟩ := Option.isSome_iff_exists.mp hclient
  have hlist : info.acquiredStoryList.contains sid = false := by
    rw [acquired?, hinfo, Option.bind_some] at hnew
    rw [Std.ExtTreeMap.contains_eq_isSome_getElem?, hnew]
    rfl
  unfold addStoryAcquisition
  rw [hinfo]
  simp only [hlist, Bool.false_eq_true, if_false, acquired?]
  by_cases hc : clientId = clientId'
  · subst hc
    by_cases hs : sid = sid'
    · subst hs
      simp
    · simp [hinfo, hs, Std.ExtTreeMap.getElem?_insert]
  · simp [hc, Std.ExtTreeMap.getElem?_insert]

/-- The list of a client that has acquired the story loses its entry. -/
theorem removeStoryAcquisition_spec (hheld : (m.acquired? clientId sid).isSome = true) :
    (m.removeStoryAcquisition clientId sid).2 = .CL_SUCCESS ∧
      ∀ clientId' sid', (m.removeStoryAcquisition clientId sid).1.acquired? clientId' sid' =
        if clientId = clientId' ∧ sid = sid' then none else m.acquired? clientId' sid' := by
  obtain ⟨cid, hcid⟩ := Option.isSome_iff_exists.mp hheld
  obtain ⟨info, hinfo, hentry⟩ := Option.bind_eq_some_iff.mp hcid
  have hlist : info.acquiredStoryList.contains sid = true := by
    rw [Std.ExtTreeMap.contains_eq_isSome_getElem?, hentry]
    rfl
  unfold removeStoryAcquisition
  rw [hinfo]
  simp only [hlist, if_true, acquired?, true_and]
  intro clientId' sid'
  by_cases hc : clientId = clientId'
  · subst hc
    by_cases hs : sid = sid'
    · subst hs
      simp
    · simp [hinfo, hs, Std.ExtTreeMap.getElem?_erase]
  · simp [hc, Std.ExtTreeMap.getElem?_insert]

end Metadata

section Agreement

variable (cityHash64 : String → UInt64)

/-- The invariant: the chronicles and stories are filed under the hashes of their
names, a story id is used in one chronicle only, and the three records agree. -/
structure Agrees (m : Metadata) : Prop where
  named : ∀ cid (chronicle : Chronicle), m.chronicleMap[cid]? = some chronicle →
    chronicle.cid = cid ∧ cityHash64 chronicle.name = cid ∧ chronicle.count = 0
  filed : ∀ cid (chronicle : Chronicle) sid (story : Story),
    m.chronicleMap[cid]? = some chronicle → chronicle.storyMap[sid]? = some story →
    story.sid = sid ∧ story.cid = cid ∧ storyIdOf cityHash64 chronicle.name story.name = sid ∧
      sid ≠ 0
  apart : ∀ cid cid' sid, (m.story? cid sid).isSome = true → (m.story? cid' sid).isSome = true →
    cid = cid'
  counted : ∀ cid sid story, m.story? cid sid = some story →
    story.count = story.acquirerClientMap.size
  held : ∀ clientId cid sid, m.acquired? clientId sid = some cid ↔
    ∃ story, m.story? cid sid = some story ∧ clientId ∈ story.acquirerClientMap

variable {cityHash64} {m m' : Metadata}

theorem agrees_initial : Agrees cityHash64 {} where
  named := by simp
  filed := by simp
  apart := by simp [Metadata.story?]
  counted := by simp [Metadata.story?]
  held := by simp [Metadata.story?, Metadata.acquired?]

/-- A step that leaves the directory and every list of acquired stories as they are. -/
theorem Agrees.of_registry (h : Agrees cityHash64 m) (hmap : m'.chronicleMap = m.chronicleMap)
    (hacquired : ∀ clientId sid, m'.acquired? clientId sid = m.acquired? clientId sid) :
    Agrees cityHash64 m' := by
  have hstory : ∀ cid sid, m'.story? cid sid = m.story? cid sid := by
    intro cid sid
    rw [Metadata.story?, hmap, Metadata.story?]
  refine ⟨?_, ?_, ?_, ?_, ?_⟩
  · rw [hmap]
    exact h.named
  · rw [hmap]
    exact h.filed
  · simp only [hstory]
    exact h.apart
  · simp only [hstory]
    exact h.counted
  · simp only [hstory, hacquired]
    exact h.held

theorem agrees_addClientRecord (h : Agrees cityHash64 m) (clientId : ClientId) :
    Agrees cityHash64 (m.addClientRecord clientId).1 :=
  h.of_registry Metadata.chronicleMap_addClientRecord fun _ _ => Metadata.acquired?_addClientRecord

theorem agrees_removeClientRecord (h : Agrees cityHash64 m) (clientId : ClientId) :
    Agrees cityHash64 (m.removeClientRecord clientId).1 :=
  h.of_registry Metadata.chronicleMap_removeClientRecord
    fun _ _ => Metadata.acquired?_removeClientRecord

theorem agrees_createChronicle (h : Agrees cityHash64 m) (name : String) :
    Agrees cityHash64 (m.createChronicle cityHash64 name).1 := by
  unfold Metadata.createChronicle
  dsimp only
  split
  · exact h
  · next hnew =>
    rw [Std.ExtTreeMap.contains_eq_isSome_getElem?, Option.not_isSome_iff_eq_none] at hnew
    have hstory : ∀ cid sid, (m.putChronicle (cityHash64 name)
        { name := name, cid := cityHash64 name }).story? cid sid = m.story? cid sid := by
      intro cid sid
      rw [Metadata.story?, Metadata.getElem?_putChronicle, Metadata.story?]
      split
      · next hc =>
        subst hc
        simp [hnew]
      · rfl
    refine ⟨?_, ?_, ?_, ?_, ?_⟩
    · intro cid chronicle hget
      rw [Metadata.getElem?_putChronicle] at hget
      split at hget
      · next hc =>
        cases hget
        exact ⟨hc, hc, rfl⟩
      · exact h.named cid chronicle hget
    · intro cid chronicle sid story hget hstory
      rw [Metadata.getElem?_putChronicle] at hget
      split at hget
      · cases hget
        simp at hstory
      · exact h.filed cid chronicle sid story hget hstory
    · simp only [hstory]
      exact h.apart
    · simp only [hstory]
      exact h.counted
    · intro clientId cid sid
      simp only [hstory]
      exact h.held clientId cid sid

/-- A step that only takes stories that nobody has acquired out of the directory. -/
theorem Agrees.of_fewer (h : Agrees cityHash64 m) (hregistry : m'.clientRegistry = m.clientRegistry)
    (hfewer : ∀ (cid : ChronicleId) (chronicle' : Chronicle),
      m'.chronicleMap[cid]? = some chronicle' →
      ∃ chronicle : Chronicle, m.chronicleMap[cid]? = some chronicle ∧
        chronicle'.name = chronicle.name ∧ chronicle'.cid = chronicle.cid ∧
        chronicle'.count = chronicle.count ∧
        ∀ (sid : StoryId) (story : Story), chronicle'.storyMap[sid]? = some story →
          chronicle.storyMap[sid]? = some story)
    (hkept : ∀ cid sid story, m.story? cid sid = some story →
      (∃ clientId, clientId ∈ story.acquirerClientMap) → m'.story? cid sid = some story) :
    Agrees cityHash64 m' := by
  have hstory : ∀ cid sid story,
      m'.story? cid sid = some story → m.story? cid sid = some story := by
    intro cid sid story hs
    obtain ⟨chronicle', hget', hs'⟩ := Metadata.story?_eq_some.mp hs
    obtain ⟨chronicle, hget, -, -, -, hsub⟩ := hfewer cid chronicle' hget'
    exact Metadata.story?_eq_some.mpr ⟨chronicle, hget, hsub sid story hs'⟩
  have hsome : ∀ cid sid, (m'.story? cid sid).isSome = true → (m.story? cid sid).isSome = true := by
    intro cid sid hs
    obtain ⟨story, hs⟩ := Option.isSome_iff_exists.mp hs
    rw [hstory cid sid story hs]
    rfl
  refine ⟨?_, ?_, ?_, ?_, ?_⟩
  · intro cid chronicle' hget'
    obtain ⟨chronicle, hget, hname, hcid, hcount, -⟩ := hfewer cid chronicle' hget'
    rw [hname, hcid, hcount]
    exact h.named cid chronicle hget
  · intro cid chronicle' sid story hget' hs
    obtain ⟨chronicle, hget, hname, -, -, hsub⟩ := hfewer cid chronicle' hget'
    rw [hname]
    exact h.filed cid chronicle sid story hget (hsub sid story hs)
  · exact fun cid cid' sid hs hs' => h.apart cid cid' sid (hsome _ _ hs) (hsome _ _ hs')
  · exact fun cid sid story hs => h.counted cid sid story (hstory cid sid story hs)
  · intro clientId cid sid
    rw [Metadata.acquired?, hregistry, ← Metadata.acquired?, h.held]
    constructor
    · rintro ⟨story, hs, hclient⟩
      exact ⟨story, hkept cid sid story hs ⟨clientId, hclient⟩, hclient⟩
    · rintro ⟨story, hs, hclient⟩
      exact ⟨story, hstory cid sid story hs, hclient⟩

theorem agrees_destroyChronicle (h : Agrees cityHash64 m) (name : String) :
    Agrees cityHash64 (m.destroyChronicle cityHash64 name).1 := by
  unfold Metadata.destroyChronicle
  split
  · exact h
  · next chronicle hget =>
    split
    · exact h
    · next hfree =>
      split
      · exact h
      · refine h.of_fewer rfl (fun cid chronicle' hget' => ?_) fun cid sid story hs hheld => ?_
        · rw [Std.ExtTreeMap.getElem?_erase] at hget'
          split at hget'
          · cases hget'
          · exact ⟨chronicle', hget', rfl, rfl, rfl, fun _ _ hs => hs⟩
        · -- the destroyed chronicle has no story that somebody has acquired
          obtain ⟨clientId, hclient⟩ := hheld
          have hne : cityHash64 name ≠ cid := by
            rintro rfl
            rw [Metadata.story?_of_getElem? hget] at hs
            refine hfree (List.any_eq_true.mpr ⟨(sid, story),
              Std.ExtTreeMap.mem_toList_iff_getElem?_eq_some.mpr hs, ?_⟩)
            rw [Bool.not_eq_true', Std.ExtTreeSet.isEmpty_eq_false_iff]
            intro hempty
            rw [hempty] at hclient
            exact Std.ExtTreeSet.not_mem_empty hclient
          rw [Metadata.story?, Std.ExtTreeMap.getElem?_erase, if_neg (by simpa using hne)]
          exact hs

/-- A chronicle loses a story whose count is `0`, or nothing. -/
theorem agrees_removeStory (h : Agrees cityHash64 m) {cid : ChronicleId} {chronicle : Chronicle}
    (hget : m.chronicleMap[cid]? = some chronicle) (chronicleName storyName : String) :
    Agrees cityHash64
      (m.putChronicle cid (chronicle.removeStory cityHash64 chronicleName storyName).1) := by
  obtain ⟨chronicle', hchronicle', hname, hcid, hcount, hsub, hkept⟩ :
      ∃ chronicle', (chronicle.removeStory cityHash64 chronicleName storyName).1 = chronicle' ∧
        chronicle'.name = chronicle.name ∧ chronicle'.cid = chronicle.cid ∧
        chronicle'.count = chronicle.count ∧
        (∀ (sid : StoryId) (story : Story), chronicle'.storyMap[sid]? = some story →
          chronicle.storyMap[sid]? = some story) ∧
        ∀ (sid : StoryId) (story : Story), chronicle.storyMap[sid]? = some story →
          story.count ≠ 0 → chronicle'.storyMap[sid]? = some story := by
    unfold Chronicle.removeStory
    dsimp only
    split
    · exact ⟨_, rfl, rfl, rfl, rfl, fun _ _ hs => hs, fun _ _ hs _ => hs⟩
    · next story hstory =>
      split
      · exact ⟨_, rfl, rfl, rfl, rfl, fun _ _ hs => hs, fun _ _ hs _ => hs⟩
      · next hzero =>
        refine ⟨_, rfl, rfl, rfl, rfl, fun sid story' hs => ?_, fun sid story' hs hne => ?_⟩
        · rw [Std.ExtTreeMap.getElem?_erase] at hs
          split at hs
          · cases hs
          · exact hs
        · rw [Std.ExtTreeMap.getElem?_erase, if_neg]
          · exact hs
          · intro hsid
            rw [Std.LawfulEqCmp.eq_of_compare hsid, hs] at hstory
            cases hstory
            exact hzero hne
  rw [hchronicle']
  refine h.of_fewer rfl (fun cid' chronicle'' hget'' => ?_) fun cid' sid story hs hheld => ?_
  · rw [Metadata.getElem?_putChronicle] at hget''
    split at hget''
    · next hc =>
      cases hget''
      exact ⟨chronicle, hc ▸ hget, hname, hcid, hcount, hsub⟩
    · exact ⟨chronicle'', hget'', rfl, rfl, rfl, fun _ _ hs => hs⟩
  · rw [Metadata.story?, Metadata.getElem?_putChronicle]
    by_cases hc : cid = cid'
    · subst hc
      rw [if_pos rfl, Option.bind_some]
      refine hkept sid story ((Metadata.story?_of_getElem? hget).symm.trans hs) ?_
      obtain ⟨clientId, hclient⟩ := hheld
      rw [h.counted cid sid story hs, ne_eq, OrderedMap.size_eq_zero_iff]
      intro hempty
      rw [hempty] at hclient
      exact Std.ExtTreeSet.not_mem_empty hclient
    · rw [if_neg hc]
      exact hs

theorem agrees_destroyStory (h : Agrees cityHash64 m) (chronicleName storyName : String) :
    Agrees cityHash64 (m.destroyStory cityHash64 chronicleName storyName).1 := by
  unfold Metadata.destroyStory
  split
  · exact h
  · next chronicle hget =>
    dsimp only
    split
    · exact h
    · split
      · exact h
      · split
        · exact h
        · exact agrees_removeStory h hget chronicleName storyName

/-- A step that changes one story, its acquirers and their lists. -/
theorem Agrees.of_putStory (h : Agrees cityHash64 m) {cid : ChronicleId} {sid : StoryId}
    {chronicle : Chronicle} {story : Story} (hget : m.chronicleMap[cid]? = some chronicle)
    (hmap : m'.chronicleMap = (m.putStory cid chronicle sid story).chronicleMap)
    (hfiled : story.sid = sid ∧ story.cid = cid ∧
      storyIdOf cityHash64 chronicle.name story.name = sid ∧ sid ≠ 0)
    (hapart : ∀ cid', (m.story? cid' sid).isSome = true → cid' = cid)
    (hcount : story.count = story.acquirerClientMap.size)
    (hother : ∀ clientId cid' sid', ¬ (cid = cid' ∧ sid = sid') →
      (m'.acquired? clientId sid' = some cid' ↔ m.acquired? clientId sid' = some cid'))
    (hthis : ∀ clientId, m'.acquired? clientId sid = some cid ↔
      clientId ∈ story.acquirerClientMap) :
    Agrees cityHash64 m' := by
  have hstory : ∀ cid' sid', m'.story? cid' sid' =
      if cid = cid' ∧ sid = sid' then some story else m.story? cid' sid' := by
    intro cid' sid'
    rw [← Metadata.story?_putStory hget, Metadata.story?, hmap, Metadata.story?]
  have hchronicle : ∀ cid', m'.chronicleMap[cid']? =
      if cid = cid' then some { chronicle with storyMap := chronicle.storyMap.insert sid story }
      else m.chronicleMap[cid']? := by
    intro cid'
    rw [hmap]
    exact Metadata.getElem?_putChronicle cid'
  refine ⟨?_, ?_, ?_, ?_, ?_⟩
  · intro cid' chronicle' hget'
    rw [hchronicle] at hget'
    split at hget'
    · next hc =>
      cases hget'
      exact hc ▸ h.named cid chronicle hget
    · exact h.named cid' chronicle' hget'
  · intro cid' chronicle' sid' story' hget' hs
    rw [hchronicle] at hget'
    split at hget'
    · next hc =>
      cases hget'
      rw [Std.ExtTreeMap.getElem?_insert] at hs
      split at hs
      · next hsid =>
        cases hs
        rw [← Std.LawfulEqCmp.eq_of_compare hsid, ← hc]
        exact hfiled
      · exact h.filed cid' chronicle sid' story' (hc ▸ hget) hs
    · exact h.filed cid' chronicle' sid' story' hget' hs
  · intro cid' cid'' sid' hs hs'
    have hwhere : ∀ c, sid = sid' → (m'.story? c sid').isSome = true → c = cid := by
      rintro c rfl hsome
      rw [hstory] at hsome
      split at hsome
      · next hc => exact hc.1.symm
      · exact hapart c hsome
    by_cases hsid : sid = sid'
    · rw [hwhere cid' hsid hs, hwhere cid'' hsid hs']
    · rw [hstory, if_neg fun hc => hsid hc.2] at hs hs'
      exact h.apart cid' cid'' sid' hs hs'
  · intro cid' sid' story' hs
    rw [hstory] at hs
    split at hs
    · cases hs
      exact hcount
    · exact h.counted cid' sid' story' hs
  · intro clientId cid' sid'
    rw [hstory]
    by_cases hc : cid = cid' ∧ sid = sid'
    · obtain ⟨rfl, rfl⟩ := hc
      simp [hthis]
    · rw [if_neg hc, hother clientId cid' sid' hc]
      exact h.held clientId cid' sid'

/-- The call does not acquire a story for a client that is not registered, at either visit to
the registry, and the story's id is neither `0` nor the id of a story of another chronicle. -/
def AcquiresKnown (cityHash64 : String → UInt64) (d : Directory) : MetadataCall → Prop
  | .acquireStory clientId chronicleName storyName =>
    ∀ chronicle ∈ d.metadata.findChronicle cityHash64 chronicleName,
      d.metadata.clientRegistry.contains clientId = true ∧
        storyIdOf cityHash64 chronicle.name storyName ≠ 0 ∧
        (d.metadata.chronicleMap.toList.all fun entry => entry.1 = cityHash64 chronicleName ||
          !entry.2.storyMap.contains (storyIdOf cityHash64 chronicle.name storyName)) = true
  | .addStoryAcquisition =>
    ∀ acquiring ∈ d.acquiring, d.metadata.clientRegistry.contains acquiring.1 = true
  | _ => True

instance (cityHash64 : String → UInt64) (d : Directory) (c : MetadataCall) :
    Decidable (AcquiresKnown cityHash64 d c) :=
  match c with
  | .acquireStory clientId chronicleName storyName =>
    inferInstanceAs (Decidable (∀ chronicle ∈ d.metadata.findChronicle cityHash64 chronicleName,
      d.metadata.clientRegistry.contains clientId = true ∧
        storyIdOf cityHash64 chronicle.name storyName ≠ 0 ∧
        (d.metadata.chronicleMap.toList.all fun entry => entry.1 = cityHash64 chronicleName ||
          !entry.2.storyMap.contains (storyIdOf cityHash64 chronicle.name storyName)) = true))
  | .addStoryAcquisition =>
    inferInstanceAs (Decidable
      (∀ acquiring ∈ d.acquiring, d.metadata.clientRegistry.contains acquiring.1 = true))
  | .addClientRecord _ | .removeClientRecord _ | .createChronicle _ | .destroyChronicle _
  | .destroyStory _ _ | .releaseStory _ _ _ => .isTrue trivial

/-- The story that `addStory` finds or makes. -/
theorem addStory_spec (h : Agrees cityHash64 m) {cid : ChronicleId} {chronicle : Chronicle}
    (hget : m.chronicleMap[cid]? = some chronicle) (storyName : String)
    (hsid : storyIdOf cityHash64 chronicle.name storyName ≠ 0) :
    ((chronicle.addStory cityHash64 storyName).sid =
          storyIdOf cityHash64 chronicle.name storyName ∧
        (chronicle.addStory cityHash64 storyName).cid = cid ∧
        storyIdOf cityHash64 chronicle.name (chronicle.addStory cityHash64 storyName).name =
          storyIdOf cityHash64 chronicle.name storyName ∧
        storyIdOf cityHash64 chronicle.name storyName ≠ 0) ∧
      (chronicle.addStory cityHash64 storyName).count =
        (chronicle.addStory cityHash64 storyName).acquirerClientMap.size ∧
      ∀ clientId, m.acquired? clientId (storyIdOf cityHash64 chronicle.name storyName) = some cid ↔
        clientId ∈ (chronicle.addStory cityHash64 storyName).acquirerClientMap := by
  have hstory : m.story? cid (storyIdOf cityHash64 chronicle.name storyName) = _ :=
    Metadata.story?_of_getElem? hget
  unfold Chronicle.addStory
  dsimp only
  cases hs : chronicle.storyMap[storyIdOf cityHash64 chronicle.name storyName]? with
  | none =>
    rw [hs] at hstory
    refine ⟨⟨rfl, (h.named cid chronicle hget).1, rfl, hsid⟩, rfl, fun clientId => ?_⟩
    rw [h.held, hstory]
    simp
  | some story =>
    rw [hs] at hstory
    refine ⟨h.filed cid chronicle _ story hget hs, h.counted cid _ story hstory, fun clientId => ?_⟩
    rw [h.held, hstory]
    simp

/-- A client is about to acquire a story of that chronicle: the metadata with the registry as
it is and the directory as it was. -/
structure Acquirable (cityHash64 : String → UInt64) (m : Metadata) (clientId : ClientId)
    (chronicle : Chronicle) (story : Story) : Prop where
  agrees : Agrees cityHash64 m
  found : m.chronicleMap[story.cid]? = some chronicle
  filed : storyIdOf cityHash64 chronicle.name story.name = story.sid ∧ story.sid ≠ 0
  apart : ∀ cid', (m.story? cid' story.sid).isSome = true → cid' = story.cid
  counted : story.count = story.acquirerClientMap.size
  held : ∀ clientId, m.acquired? clientId story.sid = some story.cid ↔
    clientId ∈ story.acquirerClientMap
  new : m.acquired? clientId story.sid = none
  absent : clientId ∉ story.acquirerClientMap

/-- The story with one more acquirer. -/
def Story.acquiredBy (story : Story) (clientId : ClientId) : Story :=
  story.incrementAcquisitionCount.addAcquirerClient clientId true

/-- An acquire stands between its two visits to the registry. -/
def Midway (cityHash64 : String → UInt64) (m : Metadata) (clientId : ClientId) (story' : Story) :
    Prop :=
  ∃ before chronicle story, Acquirable cityHash64 before clientId chronicle story ∧
    story' = story.acquiredBy clientId ∧ m = before.putStory story.cid chronicle story.sid story'

/-- **The invariant of a run.** -/
def Sound (cityHash64 : String → UInt64) (d : Directory) : Prop :=
  match d.acquiring with
  | none => Agrees cityHash64 d.metadata
  | some (clientId, story) => Midway cityHash64 d.metadata clientId story

/-- A client that is still registered acquires the story. -/
theorem Acquirable.agrees_addStoryAcquisition {clientId : ClientId} {chronicle : Chronicle}
    {story : Story} (h : Acquirable cityHash64 m clientId chronicle story)
    (hclient : m.clientRegistry.contains clientId = true) :
    Agrees cityHash64
      ((m.putStory story.cid chronicle story.sid (story.acquiredBy clientId)).addStoryAcquisition
        clientId story.sid story.cid) := by
  have hacquired : ∀ clientId' sid', ((m.putStory story.cid chronicle story.sid
      (story.acquiredBy clientId)).addStoryAcquisition clientId story.sid story.cid).acquired?
      clientId' sid' = _ :=
    Metadata.acquired?_addStoryAcquisition hclient h.new
  refine h.agrees.of_putStory h.found Metadata.chronicleMap_addStoryAcquisition
    ⟨rfl, rfl, h.filed⟩ h.apart ?_ (fun clientId' cid' sid' hne => ?_) fun clientId' => ?_
  · change story.count + 1 = (story.acquirerClientMap.insert clientId).size
    rw [Std.ExtTreeSet.size_insert, if_neg (by simpa using h.absent), h.counted]
  · rw [hacquired]
    split
    · next hc =>
      obtain ⟨rfl, rfl⟩ := hc
      rw [h.new]
      simp only [Option.some.injEq, reduceCtorEq, iff_false]
      exact fun hcid => hne ⟨hcid, rfl⟩
    · rfl
  · rw [hacquired]
    change _ ↔ clientId' ∈ story.acquirerClientMap.insert clientId
    by_cases hc : clientId = clientId'
    · subst hc
      simp
    · rw [if_neg fun hand => hc hand.1]
      refine (h.held clientId').trans ?_
      simp [Std.ExtTreeSet.mem_insert, hc]

/-- **The first part of an acquire** finds nothing to do, or leaves a story to be added to the
client's list. -/
theorem beginAcquire_spec (h : Agrees cityHash64 m) (clientId : ClientId)
    (chronicleName storyName : String)
    (hcond : AcquiresKnown cityHash64 ⟨m, none⟩ (.acquireStory clientId chronicleName storyName))
    {code : ErrorCode} {story? : Option Story}
    (hbegin : m.beginAcquire cityHash64 clientId chronicleName storyName = (m', code, story?)) :
    Sound cityHash64 ⟨m', story?.map fun story => (clientId, story)⟩ := by
  unfold Metadata.beginAcquire at hbegin
  split at hbegin
  · cases hbegin
    exact h
  · next chronicle hget =>
    obtain ⟨hclient, hsid, hall⟩ := hcond chronicle hget
    obtain ⟨⟨hstory, hcid, hfiled⟩, hcount, hheld⟩ := addStory_spec h hget storyName hsid
    have hapart : ∀ cid', (m.story? cid' (storyIdOf cityHash64 chronicle.name storyName)).isSome =
        true → cid' = cityHash64 chronicleName := by
      intro cid' hsome
      obtain ⟨story, hs⟩ := Option.isSome_iff_exists.mp hsome
      obtain ⟨chronicle', hget', hs'⟩ := Metadata.story?_eq_some.mp hs
      have hentry := List.all_eq_true.mp hall (cid', chronicle')
        (Std.ExtTreeMap.mem_toList_iff_getElem?_eq_some.mpr hget')
      have hcontains : chronicle'.storyMap.contains
          (storyIdOf cityHash64 chronicle.name storyName) = true := by
        rw [Std.ExtTreeMap.contains_eq_isSome_getElem?, hs']
        rfl
      simpa [hcontains] using hentry
    dsimp only at hbegin
    split at hbegin
    · cases hbegin
      exact h.of_putStory hget rfl ⟨hstory, hcid, hfiled⟩ hapart hcount
        (fun _ _ _ _ => Iff.rfl) hheld
    · next hnot =>
      have hnot : clientId ∉ (chronicle.addStory cityHash64 storyName).acquirerClientMap := by
        simpa using hnot
      have hnew : m.acquired? clientId (storyIdOf cityHash64 chronicle.name storyName) =
          none := by
        cases hc : m.acquired? clientId (storyIdOf cityHash64 chronicle.name storyName) with
        | none => rfl
        | some cid' =>
          obtain ⟨story, hs, -⟩ := (h.held clientId cid' _).mp hc
          rw [hapart cid' (by rw [hs]; rfl)] at hc
          exact absurd ((hheld clientId).mp hc) hnot
      cases hbegin
      change m.clientRegistry.contains clientId = true at hclient
      change m.chronicleMap[cityHash64 chronicleName]? = some chronicle at hget
      rw [← hstory] at hapart hheld hnew hfiled ⊢
      rw [← hcid] at hapart hheld hget ⊢
      rw [hclient]
      exact ⟨m, chronicle, _, ⟨h, hget, hfiled, hapart, hcount, hheld, hnew, hnot⟩, rfl, rfl⟩

/-- What the registry does for other requests in the meantime. -/
theorem Midway.of_registry {clientId : ClientId} {story : Story}
    (h : Midway cityHash64 m clientId story) (call : Metadata → Metadata)
    (hagrees : ∀ m, Agrees cityHash64 m → Agrees cityHash64 (call m))
    (hmap : ∀ m, (call m).chronicleMap = m.chronicleMap)
    (hacquired : ∀ m clientId sid, (call m).acquired? clientId sid = m.acquired? clientId sid)
    (hput : ∀ m cid chronicle sid story,
      call (m.putStory cid chronicle sid story) = (call m).putStory cid chronicle sid story) :
    Midway cityHash64 (call m) clientId story := by
  obtain ⟨before, chronicle, story, hbefore, rfl, rfl⟩ := h
  refine ⟨call before, chronicle, story, ?_, rfl, hput _ _ _ _ _⟩
  have hstory : ∀ cid sid, (call before).story? cid sid = before.story? cid sid := by
    intro cid sid
    rw [Metadata.story?, hmap, Metadata.story?]
  refine { hbefore with agrees := hagrees _ hbefore.agrees, found := ?_, apart := ?_,
                        held := ?_, new := ?_ }
  · rw [hmap]
    exact hbefore.found
  · simp only [hstory]
    exact hbefore.apart
  · simp only [hacquired]
    exact hbefore.held
  · rw [hacquired]
    exact hbefore.new

/-- What a release of a story does that the client has acquired. -/
theorem releaseStory_spec (m : Metadata) (clientId : ClientId)
    (chronicleName storyName : String) :
    (m.releaseStory cityHash64 clientId chronicleName storyName).1 = m ∧
        (m.releaseStory cityHash64 clientId chronicleName storyName).2.wasLastAcquirer = false ∨
      ∃ chronicle sid story, m.chronicleMap[cityHash64 chronicleName]? = some chronicle ∧
        chronicle.storyMap[sid]? = some story ∧ clientId ∈ story.acquirerClientMap ∧
        (m.releaseStory cityHash64 clientId chronicleName storyName).1 =
          ((m.putStory (cityHash64 chronicleName) chronicle sid
            (story.decrementAcquisitionCount.removeAcquirerClient clientId)).removeStoryAcquisition
            clientId sid).1 ∧
        (m.releaseStory cityHash64 clientId chronicleName storyName).2.wasLastAcquirer =
          decide (story.count - 1 = 0) := by
  unfold Metadata.releaseStory
  split
  · exact .inl ⟨rfl, rfl⟩
  · next chronicle hget =>
    dsimp only
    split
    · exact .inl ⟨rfl, rfl⟩
    · split
      · exact .inl ⟨rfl, rfl⟩
      · next story hstory =>
        split
        · next hmem =>
          exact .inr ⟨chronicle, _, story, hget, hstory, by simpa using hmem, rfl, rfl⟩
        · exact .inl ⟨rfl, rfl⟩

theorem agrees_releaseStory (h : Agrees cityHash64 m) (clientId : ClientId)
    (chronicleName storyName : String) :
    Agrees cityHash64 (m.releaseStory cityHash64 clientId chronicleName storyName).1 := by
  obtain ⟨heq, -⟩ | ⟨chronicle, sid, story, hget, hs, hclient, heq, -⟩ :=
    releaseStory_spec m clientId chronicleName storyName
  · rwa [heq]
  · rw [heq]
    have hstory : m.story? (cityHash64 chronicleName) sid = some story :=
      (Metadata.story?_of_getElem? hget).trans hs
    have hheld : m.acquired? clientId sid = some (cityHash64 chronicleName) :=
      (h.held clientId _ sid).mpr ⟨story, hstory, hclient⟩
    have hremove : ∀ clientId' sid', ((m.putStory (cityHash64 chronicleName) chronicle sid
        (story.decrementAcquisitionCount.removeAcquirerClient clientId)).removeStoryAcquisition
        clientId sid).1.acquired? clientId' sid' = _ :=
      (Metadata.removeStoryAcquisition_spec
        ((congrArg Option.isSome Metadata.acquired?_putStory).trans (by rw [hheld]; rfl))).2
    refine h.of_putStory hget Metadata.chronicleMap_removeStoryAcquisition
      (h.filed _ chronicle sid story hget hs) (fun cid' hsome => ?_) ?_
      (fun clientId' cid' sid' hne => ?_) fun clientId' => ?_
    · exact h.apart cid' _ sid hsome (by rw [hstory]; rfl)
    · change story.count - 1 = (story.acquirerClientMap.erase clientId).size
      rw [Std.ExtTreeSet.size_erase, if_pos (by simpa using hclient), h.counted _ sid story hstory]
    · rw [hremove]
      split
      · next hc =>
        obtain ⟨rfl, rfl⟩ := hc
        rw [hheld]
        simp only [reduceCtorEq, Option.some.injEq, false_iff]
        exact fun hcid => hne ⟨hcid, rfl⟩
      · rfl
    · rw [hremove]
      by_cases hc : clientId = clientId'
      · subst hc
        simp [Story.removeAcquirerClient]
      · rw [if_neg fun hand => hc hand.1]
        refine (h.held clientId' _ sid).trans ?_
        simp [hstory, Story.removeAcquirerClient, Story.decrementAcquisitionCount, hc]

/-- A registry method that has nothing to do with acquisitions, whoever has the directory's
mutex. -/
theorem Sound.of_registry {d : Directory} (h : Sound cityHash64 d) (call : Metadata → Metadata)
    (hagrees : ∀ m, Agrees cityHash64 m → Agrees cityHash64 (call m))
    (hmap : ∀ m, (call m).chronicleMap = m.chronicleMap)
    (hacquired : ∀ m clientId sid, (call m).acquired? clientId sid = m.acquired? clientId sid)
    (hput : ∀ m cid chronicle sid story,
      call (m.putStory cid chronicle sid story) = (call m).putStory cid chronicle sid story) :
    Sound cityHash64 { d with metadata := call d.metadata } := by
  obtain ⟨m, acquiring⟩ := d
  cases acquiring with
  | none => exact hagrees m h
  | some acquiring => exact Midway.of_registry h call hagrees hmap hacquired hput

/-- A method of the directory. -/
theorem Sound.locked {d d' : Directory} (h : Sound cityHash64 d) {call : Metadata → Metadata}
    (hagrees : ∀ m, Agrees cityHash64 m → Agrees cityHash64 (call m))
    (hstep : d.locked call = some d') : Sound cityHash64 d' := by
  obtain ⟨m, acquiring⟩ := d
  cases acquiring with
  | none =>
    obtain rfl := Option.some.inj hstep
    exact hagrees m h
  | some acquiring => cases hstep

/-- **What every step keeps** that acquires for registered clients only. -/
theorem sound_step {d d' : Directory} (h : Sound cityHash64 d) {c : MetadataCall}
    (hcond : AcquiresKnown cityHash64 d c) (hstep : (directory cityHash64).step d c = some d') :
    Sound cityHash64 d' := by
  change d.step cityHash64 c = some d' at hstep
  cases c with
  | addClientRecord clientId =>
    obtain rfl := Option.some.inj hstep
    refine h.of_registry (fun m => (m.addClientRecord clientId).1)
      (fun _ hm => agrees_addClientRecord hm clientId)
      (fun _ => Metadata.chronicleMap_addClientRecord)
      (fun _ _ _ => Metadata.acquired?_addClientRecord) fun m cid chronicle sid story => ?_
    dsimp only [Metadata.addClientRecord, Metadata.putStory, Metadata.putChronicle]
    split <;> rfl
  | removeClientRecord clientId =>
    obtain rfl := Option.some.inj hstep
    refine h.of_registry (fun m => (m.removeClientRecord clientId).1)
      (fun _ hm => agrees_removeClientRecord hm clientId)
      (fun _ => Metadata.chronicleMap_removeClientRecord)
      (fun _ _ _ => Metadata.acquired?_removeClientRecord) fun m cid chronicle sid story => ?_
    dsimp only [Metadata.removeClientRecord, Metadata.putStory, Metadata.putChronicle]
    split
    · rfl
    · split <;> rfl
  | createChronicle name => exact h.locked (fun _ hm => agrees_createChronicle hm name) hstep
  | destroyChronicle name => exact h.locked (fun _ hm => agrees_destroyChronicle hm name) hstep
  | destroyStory chronicleName storyName =>
    exact h.locked (fun _ hm => agrees_destroyStory hm chronicleName storyName) hstep
  | releaseStory clientId chronicleName storyName =>
    exact h.locked (fun _ hm => agrees_releaseStory hm clientId chronicleName storyName) hstep
  | acquireStory clientId chronicleName storyName =>
    obtain ⟨m, acquiring⟩ := d
    cases acquiring with
    | some acquiring => cases hstep
    | none =>
      obtain rfl := Option.some.inj hstep
      exact beginAcquire_spec h clientId chronicleName storyName hcond rfl
  | addStoryAcquisition =>
    obtain ⟨⟨clientId, story'⟩, hacquiring, rfl⟩ := Option.map_eq_some_iff.mp hstep
    have hclient := hcond _ hacquiring
    unfold Sound at h
    rw [hacquiring] at h
    obtain ⟨before, chronicle, story, hbefore, rfl, hmetadata⟩ := h
    rw [hmetadata] at hclient
    change Agrees cityHash64 (d.metadata.addStoryAcquisition _ _ _)
    rw [hmetadata]
    exact hbefore.agrees_addStoryAcquisition hclient

/-- The three records of an acquisition agree, and what the callers rely on holds: a
story nobody holds can be destroyed, a client that holds nothing can be removed, and a
release says that it was the last one exactly when it empties the acquirer map. -/
structure AcquisitionsAgree (cityHash64 : String → UInt64) (m : Metadata) : Prop where
  counted : ∀ cid sid story, m.story? cid sid = some story →
    story.count = story.acquirerClientMap.size
  held : ∀ clientId cid sid story, m.story? cid sid = some story →
    (clientId ∈ story.acquirerClientMap ↔ m.acquired? clientId sid = some cid)
  listed : ∀ clientId cid sid, m.acquired? clientId sid = some cid →
    (m.story? cid sid).isSome = true
  destroyable : ∀ cid (chronicle : Chronicle) sid (story : Story),
    m.chronicleMap[cid]? = some chronicle → chronicle.storyMap[sid]? = some story →
    story.acquirerClientMap = ∅ →
    (m.destroyStory cityHash64 chronicle.name story.name).2 = .CL_SUCCESS ∧
      (m.destroyStory cityHash64 chronicle.name story.name).1.story? cid sid = none
  removable : ∀ clientId, m.clientRegistry.contains clientId = true →
    (∀ cid sid story, m.story? cid sid = some story → clientId ∉ story.acquirerClientMap) →
    (m.removeClientRecord clientId).2 = .CL_SUCCESS
  lastAcquirer : ∀ clientId chronicleName storyName,
    (m.releaseStory cityHash64 clientId chronicleName storyName).2.wasLastAcquirer = true ↔
      ∃ cid sid story story', m.story? cid sid = some story ∧ story.acquirerClientMap ≠ ∅ ∧
        (m.releaseStory cityHash64 clientId chronicleName storyName).1.story? cid sid =
          some story' ∧ story'.acquirerClientMap = ∅

theorem Agrees.destroyable (h : Agrees cityHash64 m) {cid : ChronicleId} {chronicle : Chronicle}
    {sid : StoryId} {story : Story} (hget : m.chronicleMap[cid]? = some chronicle)
    (hs : chronicle.storyMap[sid]? = some story) (hfree : story.acquirerClientMap = ∅) :
    (m.destroyStory cityHash64 chronicle.name story.name).2 = .CL_SUCCESS ∧
      (m.destroyStory cityHash64 chronicle.name story.name).1.story? cid sid = none := by
  obtain ⟨-, hcid, -⟩ := h.named cid chronicle hget
  obtain ⟨-, -, hsid, hne⟩ := h.filed cid chronicle sid story hget hs
  have hcount : story.count = 0 := by
    rw [h.counted cid sid story ((Metadata.story?_of_getElem? hget).trans hs), hfree]
    rfl
  have hcontains : chronicle.storyMap.contains sid = true := by
    rw [Std.ExtTreeMap.contains_eq_isSome_getElem?, hs]
    rfl
  have hstoryId : chronicle.getStoryId cityHash64 story.name = sid := by
    rw [Chronicle.getStoryId, hsid, if_pos hcontains]
  unfold Metadata.destroyStory Metadata.findChronicle
  simp only [hcid, hget, hstoryId, hne, hs, hfree, if_false]
  have hremove : chronicle.removeStory cityHash64 chronicle.name story.name =
      ({ chronicle with storyMap := chronicle.storyMap.erase sid }, .CL_SUCCESS) := by
    rw [Chronicle.removeStory, hsid]
    simp only [hs, hcount, ne_eq, not_true_eq_false, if_false]
  simp [hremove, Metadata.story?, Metadata.putChronicle]

theorem Agrees.removable (h : Agrees cityHash64 m) {clientId : ClientId}
    (hclient : m.clientRegistry.contains clientId = true)
    (hfree : ∀ cid sid story, m.story? cid sid = some story →
      clientId ∉ story.acquirerClientMap) :
    (m.removeClientRecord clientId).2 = .CL_SUCCESS := by
  rw [Std.ExtTreeMap.contains_eq_isSome_getElem?] at hclient
  obtain ⟨info, hinfo⟩ := Option.isSome_iff_exists.mp hclient
  have hempty : info.acquiredStoryList = ∅ := by
    refine Std.ExtTreeMap.ext_getElem? fun sid => ?_
    cases hcid : info.acquiredStoryList[sid]? with
    | none => simp
    | some cid =>
      have hheld : m.acquired? clientId sid = some cid := by
        rw [Metadata.acquired?, hinfo, Option.bind_some, hcid]
      obtain ⟨story, hs, hmem⟩ := (h.held clientId cid sid).mp hheld
      exact absurd hmem (hfree cid sid story hs)
  rw [Metadata.removeClientRecord]
  simp [hinfo, hempty]

theorem Agrees.lastAcquirer (h : Agrees cityHash64 m) (clientId : ClientId)
    (chronicleName storyName : String) :
    (m.releaseStory cityHash64 clientId chronicleName storyName).2.wasLastAcquirer = true ↔
      ∃ cid sid story story', m.story? cid sid = some story ∧ story.acquirerClientMap ≠ ∅ ∧
        (m.releaseStory cityHash64 clientId chronicleName storyName).1.story? cid sid =
          some story' ∧ story'.acquirerClientMap = ∅ := by
  obtain ⟨heq, hlast⟩ | ⟨chronicle, sid, story, hget, hs, hclient, heq, hlast⟩ :=
    releaseStory_spec m clientId chronicleName storyName
  · rw [heq, hlast]
    simp only [Bool.false_eq_true, false_iff]
    rintro ⟨cid, sid, story, story', hstory, hne, hstory', hempty⟩
    rw [hstory] at hstory'
    cases hstory'
    exact hne hempty
  · have hstory : m.story? (cityHash64 chronicleName) sid = some story :=
      (Metadata.story?_of_getElem? hget).trans hs
    have hafter : ∀ cid sid', (m.releaseStory cityHash64 clientId chronicleName
        storyName).1.story? cid sid' = if cityHash64 chronicleName = cid ∧ sid = sid' then
          some (story.decrementAcquisitionCount.removeAcquirerClient clientId)
        else m.story? cid sid' := by
      intro cid sid'
      rw [heq, Metadata.story?, Metadata.chronicleMap_removeStoryAcquisition]
      exact Metadata.story?_putStory hget cid sid'
    have hsize : story.count - 1 = (story.acquirerClientMap.erase clientId).size := by
      rw [Std.ExtTreeSet.size_erase, if_pos (by simpa using hclient), h.counted _ sid story hstory]
    rw [hlast, decide_eq_true_eq, hsize, OrderedMap.size_eq_zero_iff]
    constructor
    · intro hempty
      refine ⟨_, sid, story, _, hstory, ?_, (hafter _ sid).trans (if_pos ⟨rfl, rfl⟩), hempty⟩
      rintro hnone
      rw [hnone] at hclient
      exact Std.ExtTreeSet.not_mem_empty hclient
    · rintro ⟨cid, sid', story₁, story', hs₁, hne, hs', hempty⟩
      rw [hafter] at hs'
      split at hs'
      · cases hs'
        exact hempty
      · rw [hs₁] at hs'
        cases hs'
        exact absurd hempty hne

theorem Agrees.acquisitionsAgree (h : Agrees cityHash64 m) : AcquisitionsAgree cityHash64 m where
  counted := h.counted
  held clientId cid sid story hs := by
    rw [h.held, hs]
    simp
  listed clientId cid sid hheld := by
    obtain ⟨story, hs, -⟩ := (h.held clientId cid sid).mp hheld
    rw [hs]
    rfl
  destroyable _ _ _ _ := h.destroyable
  removable _ := h.removable
  lastAcquirer := h.lastAcquirer

/-- **The three records of an acquisition agree** in every state of every run in which the
directory's mutex is free, if stories are acquired by clients that are registered at both visits
to the registry, under ids that are not `0` and of one chronicle each. -/
theorem acquisitions_agree (cityHash64 : String → UInt64) {d₀ d : Directory}
    {cs : List MetadataCall} (hinit : (directory cityHash64).Initial d₀)
    (hcond : (directory cityHash64).StepsMeet (AcquiresKnown cityHash64) d₀ cs)
    (hrun : (directory cityHash64).run d₀ cs = some d) (hfree : d.acquiring = none) :
    AcquisitionsAgree cityHash64 d.metadata := by
  have hbefore : Sound cityHash64 d₀ := by
    rw [show d₀ = {} from hinit]
    exact agrees_initial
  have hsound : Sound cityHash64 d :=
    System.run_induction_of_stepsMeet (fun _ _ _ hs hc hstep => sound_step hs hc hstep) hbefore
      hcond hrun
  unfold Sound at hsound
  rw [hfree] at hsound
  exact hsound.acquisitionsAgree

/-- Two clients hold a story, one of which has connected while the other acquired it; and one
of them releases it. -/
def sharedStory : List MetadataCall :=
  [.addClientRecord 5, .createChronicle "sea", .acquireStory 5 "sea" "salt", .addClientRecord 6,
    .addStoryAcquisition, .acquireStory 6 "sea" "salt", .addStoryAcquisition,
    .releaseStory 5 "sea" "salt"]

theorem acquisitions_agree_shared :
    ∃ d, (directory cityHash64OfSea).run {} sharedStory = some d ∧ d.acquiring.isNone = true ∧
      AcquisitionsAgree cityHash64OfSea d.metadata := by
  have hend : ((directory cityHash64OfSea).run {} sharedStory).any (fun d =>
      d.acquiring.isNone) = true := by
    decide +kernel
  obtain ⟨d, hrun, hfree⟩ := (Option.any_eq_true _ _).mp hend
  exact ⟨d, hrun, hfree, acquisitions_agree cityHash64OfSea rfl
    (System.stepsMeet_of_check (by decide +kernel)) hrun (Option.isNone_iff_eq_none.mp hfree)⟩

/-- A client acquires a story that has never connected. -/
def strangerAcquires : List MetadataCall :=
  [.createChronicle "sea", .acquireStory 5 "sea" "salt", .addStoryAcquisition]

/-- A client's record is removed while it acquires a story. -/
def removedAcquires : List MetadataCall :=
  [.addClientRecord 5, .createChronicle "sea", .acquireStory 5 "sea" "salt",
    .removeClientRecord 5, .addStoryAcquisition]

/-- **An acquire by a client that is not registered pins the story**: it raises the
count and nothing else, so the story has no holder and cannot be destroyed.  If the client is
removed in the middle of the acquire, it holds a story and has no list. -/
theorem unregistered_acquire_pins_story :
    (∃ d story, (directory cityHash64OfSea).run {} strangerAcquires = some d ∧
      d.acquiring.isNone = true ∧
      d.metadata.story? 0x4f2aafe9c21dc882 0x2e9c309aa333f285 = some story ∧ story.count = 1 ∧
      story.acquirerClientMap = ∅ ∧
      (d.metadata.destroyStory cityHash64OfSea "sea" "salt").2 = .CL_ERR_ACQUIRED ∧
      ¬ AcquisitionsAgree cityHash64OfSea d.metadata) ∧
    ∃ d story, (directory cityHash64OfSea).run {} removedAcquires = some d ∧
      d.acquiring.isNone = true ∧
      d.metadata.story? 0x4f2aafe9c21dc882 0x2e9c309aa333f285 = some story ∧
      5 ∈ story.acquirerClientMap ∧
      d.metadata.acquired? 5 0x2e9c309aa333f285 = none ∧
      ¬ AcquisitionsAgree cityHash64OfSea d.metadata := by
  constructor
  · have hend : ((directory cityHash64OfSea).run {} strangerAcquires).any (fun d =>
        d.acquiring.isNone &&
        ((d.metadata.story? 0x4f2aafe9c21dc882 0x2e9c309aa333f285).any fun story =>
          story.count = 1 && story.acquirerClientMap.isEmpty) &&
        (d.metadata.destroyStory cityHash64OfSea "sea" "salt").2 = .CL_ERR_ACQUIRED) = true := by
      decide +kernel
    obtain ⟨d, hrun, hd⟩ := (Option.any_eq_true _ _).mp hend
    simp only [Bool.and_eq_true, Option.any_eq_true, decide_eq_true_eq,
      Std.ExtTreeSet.isEmpty_iff] at hd
    obtain ⟨⟨hidle, story, hstory, hcount, hfree⟩, hdestroy⟩ := hd
    refine ⟨d, story, hrun, hidle, hstory, hcount, hfree, hdestroy, fun h => ?_⟩
    have hsize := h.counted _ _ story hstory
    rw [hcount, hfree] at hsize
    cases hsize
  · have hend : ((directory cityHash64OfSea).run {} removedAcquires).any (fun d =>
        d.acquiring.isNone &&
        ((d.metadata.story? 0x4f2aafe9c21dc882 0x2e9c309aa333f285).any fun story =>
          story.acquirerClientMap.contains 5) &&
        (d.metadata.acquired? 5 0x2e9c309aa333f285).isNone) = true := by
      decide +kernel
    obtain ⟨d, hrun, hd⟩ := (Option.any_eq_true _ _).mp hend
    simp only [Bool.and_eq_true, Option.any_eq_true, Option.isNone_iff_eq_none] at hd
    obtain ⟨⟨hidle, story, hstory, hmem⟩, hnone⟩ := hd
    refine ⟨d, story, hrun, by rw [hidle]; rfl, hstory, by simpa using hmem, hnone, fun h => ?_⟩
    have hheld := (h.held 5 _ _ story hstory).mp (by simpa using hmem)
    rw [hnone] at hheld
    cases hheld

end Agreement

end ChronoLog.Visor
