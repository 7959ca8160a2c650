import ChronoLog.Grapher.StoryLife
import ChronoLog.Lib.Transition

/-!
# The adoption of orphan chunks

The collection threads run `adoptOrphanChunks` beside the visor's calls.  An
adopting call takes the lock of the data store once for each chunk and once for
each story it puts on the waiting list at its end, and between two of these steps
everything else may happen.  So a call in progress is part of the state here: the
chunks it still has to adopt, and its two sets of stories.

A chunk is handed to the ingestion queue without that lock, by an adopting call as by
a thread that receives it: the handle of its story is looked up first and the chunk
pushed later.  An adopting call reads the story of the chunk after it pushed it, when
another collection thread may have merged and deleted the chunk.

## Main definitions

* `Adoption` — an adopting call between two of its steps.
* `GrapherRun`, `GrapherStep`, `grapher` — the data store, the calls in progress and
  what the visor has asked for, as a transition system.
* `KeepsTombstone`, `KeepsAcquisition` — the conditions on a step under which the
  code does what it is meant to do.

## Main results

* `destroyed_stories_stay_out` — a story that is destroyed is not recorded again by
  its late chunks, as long as no other story of its chronicle is registered on a
  tombstone of the chronicle alone.
* `adoption_spares_acquisitions` — a story the visor has acquired does not wait to
  be retired, and what only adoptions have made does, as long as no adopting call
  is overtaken by the visor or by another call.
-/

namespace ChronoLog

open Transition

/-- What an adopting call has in hand once it started the recording of a chunk: the
chunk, whether its story was active, and the rest of the call. -/
structure ChunkInHand where
  chunk : StoryChunk
  wasActive : Bool
  orphanChunks : List StoryChunk
  adoptedStories : OrdSet StoryId
  activeStories : OrdSet StoryId

/-- A call of `adoptOrphanChunks` in progress. -/
inductive Adoption where
  /-- In the first loop, before a chunk. -/
  | adopting (orphanChunks : List StoryChunk) (adoptedStories activeStories : OrdSet StoryId)
  /-- In the first loop, with a chunk whose recording is started. -/
  | ingesting (hand : ChunkInHand)
  /-- With a chunk whose handle is looked up. -/
  | pushing (hand : ChunkInHand) (handle : Option ℕ)
  /-- With a chunk that is pushed and may be deleted by another thread. -/
  | ingested (hand : ChunkInHand) (deleted : Bool)
  /-- In the second loop, with the stories still to stop. -/
  | stopping (storyIds : OrdSet StoryId)

/-- The call is going to stop the story, if it reads the story of its chunk aright. -/
def ChunkInHand.willStop (storyId : StoryId) (hand : ChunkInHand) : Bool :=
  (hand.adoptedStories.contains storyId || (hand.chunk.storyId = storyId && !hand.wasActive)) &&
    !hand.activeStories.contains storyId

/-- The call after it recorded its chunk under the story ids that it read: whether a
story was active is kept for its first chunk only. -/
def ChunkInHand.recorded (hand : ChunkInHand) (first second : StoryId) : Adoption :=
  if !hand.adoptedStories.contains first && hand.wasActive then
    .adopting hand.orphanChunks (hand.adoptedStories.insert first)
      (hand.activeStories.insert second)
  else .adopting hand.orphanChunks (hand.adoptedStories.insert first) hand.activeStories

namespace Adoption

/-- The call is going to stop the story. -/
def willStop (storyId : StoryId) : Adoption → Bool
  | adopting _ adoptedStories activeStories =>
    adoptedStories.contains storyId && !activeStories.contains storyId
  | ingesting hand => hand.willStop storyId
  | pushing hand _ => hand.willStop storyId
  | ingested hand _ => hand.willStop storyId
  | stopping storyIds => storyIds.contains storyId

/-- The call has looked up a handle for a chunk of the story and not pushed it yet. -/
def holds (storyId : StoryId) : Adoption → Bool
  | pushing hand handle => hand.chunk.storyId = storyId && handle.isSome
  | _ => false

end Adoption

/-- A run of the grapher: the store, the adopting calls in progress, and what a run
remembers of the visor's calls. -/
structure GrapherRun where
  store : GrapherDataStore := {}
  /-- The threads in `ingestStoryChunk`: the chunk, and the handle that was found. -/
  receiving : OrdMap ℕ (StoryChunk × Option ℕ) := ∅
  /-- The adopting calls, by the thread they run on. -/
  adoptions : OrdMap ℕ Adoption := ∅
  /-- The story is destroyed, or its chronicle is, and it has not been registered
  since. -/
  covered : StoryId → Bool := fun _ => false
  /-- The visor's last call for the story is a start. -/
  live : StoryId → Bool := fun _ => false
  /-- The pipelines that the visor started: made, or found recorded. -/
  visorStarted : List StoryPipeline := []
  /-- The visor started the story when the call was going to stop it, and has not
  stopped or destroyed it since. -/
  overtaken : ℕ → StoryId → Bool := fun _ _ => false

/-- A step of the grapher.  The calls of the visor come first; a step of an adopting
call names its thread. -/
inductive GrapherStep where
  | startStoryRecording (storyId : StoryId) (startTime : ℕ)
  | stopStoryRecording (storyId : StoryId) (now : ℕ)
  | destroyStory (storyId : StoryId)
  | destroyChronicle (chronicle : ChronicleName)
  | retireDecayedPipelines (now : ℕ)
  /-- `ingestStoryChunk` looks the handle up. -/
  | ingestStoryChunk (thread : ℕ) (chunk : StoryChunk)
  /-- `ingestStoryChunk` pushes the chunk and returns. -/
  | pushChunk (thread : ℕ)
  | drainOrphanChunks
  | extractOrphanChunks (thread : ℕ)
  | adoptNext (thread : ℕ)
  | ingestAdopted (thread : ℕ)
  | pushAdopted (thread : ℕ)
  /-- Another thread merges or refuses the chunk that the call pushed, and deletes it. -/
  | deleteIngested (thread : ℕ)
  /-- The call records the story of the chunk; from a deleted one it reads these ids. -/
  | recordAdopted (thread : ℕ) (first second : StoryId)
  | endAdoption (thread : ℕ)
  | stopAdopted (thread : ℕ) (storyId : StoryId) (now : ℕ)
  | finishAdoption (thread : ℕ)

namespace GrapherRun

/-- Some adopting call is going to stop the story. -/
def awaited (r : GrapherRun) (storyId : StoryId) : Bool :=
  r.adoptions.toList.any fun entry => entry.2.willStop storyId

/-- The call on this thread is going to stop the story. -/
def willStop (r : GrapherRun) (thread : ℕ) (storyId : StoryId) : Bool :=
  (r.adoptions[thread]?).any fun adoption => adoption.willStop storyId

/-- A thread has looked up a handle for a chunk of the story and not pushed it yet. -/
def holds (r : GrapherRun) (storyId : StoryId) : Bool :=
  (r.receiving.toList.any fun entry => entry.2.1.storyId = storyId && entry.2.2.isSome) ||
    r.adoptions.toList.any fun entry => entry.2.holds storyId

/-- The run with another store. -/
def withStore (r : GrapherRun) (store : GrapherDataStore) : GrapherRun :=
  { r with store := store }

/-- The visor ends the recording of the stories. -/
def ended (r : GrapherRun) (stories : StoryId → Bool) : GrapherRun :=
  { r with
    live := fun storyId => !stories storyId && r.live storyId
    overtaken := fun thread storyId => !stories storyId && r.overtaken thread storyId }

/-- `startStoryRecording`, called by the visor. -/
def startStoryRecording (chronicleOf : StoryId → ChronicleName) (r : GrapherRun)
    (storyId : StoryId) (startTime : ℕ) : GrapherRun :=
  let store := (r.store.startStoryRecording (chronicleOf storyId) storyId startTime false).1
  { r with
    store := store
    covered := fun other => if other = storyId then false else r.covered other
    live := fun other => if other = storyId then true else r.live other
    visorStarted := r.visorStarted ++ (store.theMapOfStoryPipelines[storyId]?).toList
    overtaken := fun thread other =>
      if other = storyId then r.willStop thread storyId else r.overtaken thread other }

/-- `stopStoryRecording`, called by the visor. -/
def stopStoryRecording (r : GrapherRun) (storyId : StoryId) (now : ℕ) : GrapherRun :=
  (r.withStore (r.store.stopStoryRecording storyId now)).ended fun other => other = storyId

/-- `destroyStory`. -/
def destroyStory (chronicleOf : StoryId → ChronicleName) (r : GrapherRun) (storyId : StoryId) :
    GrapherRun :=
  { (r.withStore (r.store.destroyStory storyId (chronicleOf storyId))).ended
      fun other => other = storyId with
    covered := fun other => other = storyId || r.covered other }

/-- `destroyChronicle`. -/
def destroyChronicle (chronicleOf : StoryId → ChronicleName) (r : GrapherRun)
    (chronicle : ChronicleName) : GrapherRun :=
  { (r.withStore (r.store.destroyChronicle chronicle)).ended
      fun other => chronicleOf other = chronicle with
    covered := fun other => chronicleOf other = chronicle || r.covered other }

/-- The handle of the story, as `ingestStoryChunk` looks it up. -/
def findHandle (r : GrapherRun) (storyId : StoryId) : Option ℕ :=
  r.store.theIngestionQueue.findHandle storyId

/-- The push of `ingestStoryChunk`. -/
def pushChunk (r : GrapherRun) (handle : Option ℕ) (chunk : StoryChunk) : GrapherRun :=
  r.withStore
    { r.store with theIngestionQueue := r.store.theIngestionQueue.pushChunk handle chunk }

/-- An adopting call goes on. -/
def setAdoption (r : GrapherRun) (thread : ℕ) (adoption : Adoption) : GrapherRun :=
  { r with adoptions := r.adoptions.insert thread adoption }

/-- `adoptOrphanChunks` begins: it takes the orphans, and returns at once if there
are none. -/
def extractOrphanChunks (r : GrapherRun) (thread : ℕ) : GrapherRun :=
  let (orphanChunks, queue) := r.store.theIngestionQueue.extractOrphanChunks
  if orphanChunks.isEmpty then r
  else
    { r with
      store := { r.store with theIngestionQueue := queue }
      adoptions := r.adoptions.insert thread (.adopting orphanChunks ∅ ∅) }

/-- `adoptOrphanChunks` starts the recording of its next chunk.  A chunk that is
refused is reported and deleted. -/
def adoptNext (chronicleOf : StoryId → ChronicleName) (r : GrapherRun) (thread : ℕ)
    (chunk : StoryChunk) (orphanChunks : List StoryChunk)
    (adoptedStories activeStories : OrdSet StoryId) : GrapherRun :=
  match r.store.startStoryRecording (chronicleOf chunk.storyId) chunk.storyId chunk.startTime
      true with
  | (store, none) =>
    { r with
      store := store.reportDropped chunk.storyId
      adoptions := r.adoptions.insert thread
        (.adopting orphanChunks adoptedStories activeStories) }
  | (store, some wasActive) =>
    { r with
      store := store
      adoptions := r.adoptions.insert thread
        (.ingesting ⟨chunk, wasActive, orphanChunks, adoptedStories, activeStories⟩) }

/-- The run after a step, where the step is enabled. -/
def step (chronicleOf : StoryId → ChronicleName) (r : GrapherRun) :
    GrapherStep → Option GrapherRun
  | .startStoryRecording storyId startTime =>
    some (r.startStoryRecording chronicleOf storyId startTime)
  | .stopStoryRecording storyId now => some (r.stopStoryRecording storyId now)
  | .destroyStory storyId => some (r.destroyStory chronicleOf storyId)
  | .destroyChronicle chronicle => some (r.destroyChronicle chronicleOf chronicle)
  | .retireDecayedPipelines now => some (r.withStore (r.store.retireDecayedPipelines now))
  | .ingestStoryChunk thread chunk =>
    match r.receiving[thread]? with
    | none =>
      some { r with
        receiving := r.receiving.insert thread (chunk, r.findHandle chunk.storyId) }
    | some _ => none
  | .pushChunk thread =>
    match r.receiving[thread]? with
    | none => none
    | some (chunk, handle) =>
      some { r.pushChunk handle chunk with receiving := r.receiving.erase thread }
  | .drainOrphanChunks => some (r.withStore r.store.drainOrphanChunks)
  | .extractOrphanChunks thread =>
    match r.adoptions[thread]? with
    | none => some (r.extractOrphanChunks thread)
    | some _ => none
  | .adoptNext thread =>
    match r.adoptions[thread]? with
    | some (.adopting (chunk :: orphanChunks) adoptedStories activeStories) =>
      some (r.adoptNext chronicleOf thread chunk orphanChunks adoptedStories activeStories)
    | _ => none
  | .ingestAdopted thread =>
    match r.adoptions[thread]? with
    | some (.ingesting hand) =>
      some (r.setAdoption thread (.pushing hand (r.findHandle hand.chunk.storyId)))
    | _ => none
  | .pushAdopted thread =>
    match r.adoptions[thread]? with
    | some (.pushing hand handle) =>
      some ((r.pushChunk handle hand.chunk).setAdoption thread (.ingested hand false))
    | _ => none
  | .deleteIngested thread =>
    match r.adoptions[thread]? with
    | some (.ingested hand _) => some (r.setAdoption thread (.ingested hand true))
    | _ => none
  | .recordAdopted thread first second =>
    match r.adoptions[thread]? with
    | some (.ingested hand deleted) =>
      some (r.setAdoption thread
        (if deleted then hand.recorded first second
        else hand.recorded hand.chunk.storyId hand.chunk.storyId))
    | _ => none
  | .endAdoption thread =>
    match r.adoptions[thread]? with
    | some (.adopting [] adoptedStories activeStories) =>
      some (r.setAdoption thread (.stopping (adoptedStories \ activeStories)))
    | _ => none
  | .stopAdopted thread storyId now =>
    match r.adoptions[thread]? with
    | some (.stopping storyIds) =>
      if storyIds.contains storyId then
        some ((r.withStore (r.store.stopStoryRecording storyId now)).setAdoption thread
          (.stopping (storyIds.erase storyId)))
      else none
    | _ => none
  | .finishAdoption thread =>
    match r.adoptions[thread]? with
    | some (.stopping storyIds) =>
      if storyIds.isEmpty then some { r with adoptions := r.adoptions.erase thread } else none
    | _ => none

/-- The call on the thread is in its first loop, before this chunk. -/
def Before (r : GrapherRun) (thread : ℕ) (chunk : StoryChunk) (orphanChunks : List StoryChunk)
    (adoptedStories activeStories : OrdSet StoryId) : Prop :=
  r.adoptions[thread]? = some (.adopting (chunk :: orphanChunks) adoptedStories activeStories)

/-- The steps as a relation, with what an adopting call must be at to take one. -/
inductive Steps (chronicleOf : StoryId → ChronicleName) (r : GrapherRun) :
    GrapherStep → GrapherRun → Prop
  | startStoryRecording (storyId : StoryId) (startTime : ℕ) :
    Steps chronicleOf r (.startStoryRecording storyId startTime)
      (r.startStoryRecording chronicleOf storyId startTime)
  | stopStoryRecording (storyId : StoryId) (now : ℕ) :
    Steps chronicleOf r (.stopStoryRecording storyId now) (r.stopStoryRecording storyId now)
  | destroyStory (storyId : StoryId) :
    Steps chronicleOf r (.destroyStory storyId) (r.destroyStory chronicleOf storyId)
  | destroyChronicle (chronicle : ChronicleName) :
    Steps chronicleOf r (.destroyChronicle chronicle) (r.destroyChronicle chronicleOf chronicle)
  | retireDecayedPipelines (now : ℕ) :
    Steps chronicleOf r (.retireDecayedPipelines now)
      (r.withStore (r.store.retireDecayedPipelines now))
  | ingestStoryChunk (thread : ℕ) (chunk : StoryChunk) (h : r.receiving[thread]? = none) :
    Steps chronicleOf r (.ingestStoryChunk thread chunk)
      { r with receiving := r.receiving.insert thread (chunk, r.findHandle chunk.storyId) }
  | pushChunk (thread : ℕ) (chunk : StoryChunk) (handle : Option ℕ)
      (h : r.receiving[thread]? = some (chunk, handle)) :
    Steps chronicleOf r (.pushChunk thread)
      { r.pushChunk handle chunk with receiving := r.receiving.erase thread }
  | drainOrphanChunks :
    Steps chronicleOf r .drainOrphanChunks (r.withStore r.store.drainOrphanChunks)
  | extractOrphanChunks (thread : ℕ) (h : r.adoptions[thread]? = none) :
    Steps chronicleOf r (.extractOrphanChunks thread) (r.extractOrphanChunks thread)
  | adoptNext (thread : ℕ) (chunk : StoryChunk) (orphanChunks : List StoryChunk)
      (adoptedStories activeStories : OrdSet StoryId)
      (h : r.Before thread chunk orphanChunks adoptedStories activeStories) :
    Steps chronicleOf r (.adoptNext thread)
      (r.adoptNext chronicleOf thread chunk orphanChunks adoptedStories activeStories)
  | ingestAdopted (thread : ℕ) (hand : ChunkInHand)
      (h : r.adoptions[thread]? = some (.ingesting hand)) :
    Steps chronicleOf r (.ingestAdopted thread)
      (r.setAdoption thread (.pushing hand (r.findHandle hand.chunk.storyId)))
  | pushAdopted (thread : ℕ) (hand : ChunkInHand) (handle : Option ℕ)
      (h : r.adoptions[thread]? = some (.pushing hand handle)) :
    Steps chronicleOf r (.pushAdopted thread)
      ((r.pushChunk handle hand.chunk).setAdoption thread (.ingested hand false))
  | deleteIngested (thread : ℕ) (hand : ChunkInHand) (deleted : Bool)
      (h : r.adoptions[thread]? = some (.ingested hand deleted)) :
    Steps chronicleOf r (.deleteIngested thread) (r.setAdoption thread (.ingested hand true))
  | recordAdopted (thread : ℕ) (first second : StoryId) (hand : ChunkInHand) (deleted : Bool)
      (h : r.adoptions[thread]? = some (.ingested hand deleted)) :
    Steps chronicleOf r (.recordAdopted thread first second)
      (r.setAdoption thread
        (if deleted then hand.recorded first second
        else hand.recorded hand.chunk.storyId hand.chunk.storyId))
  | endAdoption (thread : ℕ) (adoptedStories activeStories : OrdSet StoryId)
      (h : r.adoptions[thread]? = some (.adopting [] adoptedStories activeStories)) :
    Steps chronicleOf r (.endAdoption thread)
      (r.setAdoption thread (.stopping (adoptedStories \ activeStories)))
  | stopAdopted (thread : ℕ) (storyId : StoryId) (now : ℕ) (storyIds : OrdSet StoryId)
      (h : r.adoptions[thread]? = some (.stopping storyIds))
      (hmem : storyIds.contains storyId = true) :
    Steps chronicleOf r (.stopAdopted thread storyId now)
      ((r.withStore (r.store.stopStoryRecording storyId now)).setAdoption thread
        (.stopping (storyIds.erase storyId)))
  | finishAdoption (thread : ℕ) (storyIds : OrdSet StoryId)
      (h : r.adoptions[thread]? = some (.stopping storyIds)) (hempty : storyIds.isEmpty = true) :
    Steps chronicleOf r (.finishAdoption thread) { r with adoptions := r.adoptions.erase thread }

theorem steps_of_step {chronicleOf : StoryId → ChronicleName} {r r' : GrapherRun}
    {l : GrapherStep} (h : r.step chronicleOf l = some r') : Steps chronicleOf r l r' := by
  cases l with
  | ingestStoryChunk thread chunk =>
    simp only [step] at h
    split at h
    · next heq =>
      cases h
      exact .ingestStoryChunk thread chunk heq
    · cases h
  | pushChunk thread =>
    simp only [step] at h
    split at h
    · cases h
    · next heq =>
      cases h
      exact .pushChunk thread _ _ heq
  | extractOrphanChunks thread =>
    simp only [step] at h
    split at h
    · next heq =>
      cases h
      exact .extractOrphanChunks thread heq
    · cases h
  | adoptNext thread =>
    simp only [step] at h
    split at h
    · next heq =>
      cases h
      exact .adoptNext thread _ _ _ _ heq
    · cases h
  | ingestAdopted thread =>
    simp only [step] at h
    split at h
    · next heq =>
      cases h
      exact .ingestAdopted thread _ heq
    · cases h
  | pushAdopted thread =>
    simp only [step] at h
    split at h
    · next heq =>
      cases h
      exact .pushAdopted thread _ _ heq
    · cases h
  | deleteIngested thread =>
    simp only [step] at h
    split at h
    · next heq =>
      cases h
      exact .deleteIngested thread _ _ heq
    · cases h
  | recordAdopted thread first second =>
    simp only [step] at h
    split at h
    · next heq =>
      cases h
      exact .recordAdopted thread first second _ _ heq
    · cases h
  | endAdoption thread =>
    simp only [step] at h
    split at h
    · next heq =>
      cases h
      exact .endAdoption thread _ _ heq
    · cases h
  | stopAdopted thread storyId now =>
    simp only [step] at h
    split at h
    · next heq =>
      split at h
      · next hmem =>
        cases h
        exact .stopAdopted thread storyId now _ heq hmem
      · cases h
    · cases h
  | finishAdoption thread =>
    simp only [step] at h
    split at h
    · next heq =>
      split at h
      · next hempty =>
        cases h
        exact .finishAdoption thread _ heq hempty
      · cases h
    · cases h
  | _ =>
    cases h
    constructor

end GrapherRun

/-- The grapher, with the chronicle of every story id.  It starts empty, with any
delay and with or without a registry. -/
def grapher (chronicleOf : StoryId → ChronicleName) : System GrapherRun GrapherStep where
  Initial r := ∃ delay registry, r = { store :=
    { inactivePipelineDelaySecs := delay, theWatermarkRegistry := registry } }
  step := GrapherRun.step chronicleOf

/-! ### What a step does to one story -/

namespace GrapherStep

variable (chronicleOf : StoryId → ChronicleName) (r : GrapherRun) (storyId : StoryId)

/-- What a step does to what the store holds of the story. -/
def effect (v : StoryStatus) : GrapherStep → StoryStatus
  | .startStoryRecording other startTime =>
    if other = storyId then
      v.register (r.store.newPipeline (chronicleOf other) other startTime)
    else
      { v with
        chronicleDestroyed := if chronicleOf other = chronicleOf storyId then false
          else v.chronicleDestroyed }
  | .stopStoryRecording other now | .stopAdopted _ other now =>
    if other = storyId then
      v.stop ((now + r.store.inactivePipelineDelaySecs * 1000000000) % 2 ^ 64)
    else v
  | .destroyStory other => if other = storyId then { v.unrecord with storyDestroyed := true } else v
  | .destroyChronicle chronicle =>
    if chronicleOf storyId = chronicle then { v.unrecord with chronicleDestroyed := true } else v
  | .retireDecayedPipelines now => v.retire now
  | .adoptNext thread =>
    match r.adoptions[thread]? with
    | some (.adopting (chunk :: _) _ _) =>
      if chunk.storyId = storyId then
        v.adopt (r.store.newPipeline (chronicleOf chunk.storyId) chunk.storyId chunk.startTime)
      else v
    | _ => v
  | _ => v

end GrapherStep

section Effect

variable {chronicleOf : StoryId → ChronicleName} {r r' : GrapherRun} {l : GrapherStep}

theorem GrapherRun.store_adoptNext (thread : ℕ) (chunk : StoryChunk)
    (orphanChunks : List StoryChunk) (adoptedStories activeStories : OrdSet StoryId)
    (storyId : StoryId) :
    (r.adoptNext chronicleOf thread chunk orphanChunks adoptedStories activeStories).store.status
        chronicleOf storyId =
      (r.store.startStoryRecording (chronicleOf chunk.storyId) chunk.storyId chunk.startTime
        true).1.status chronicleOf storyId := by
  unfold GrapherRun.adoptNext
  split
  · next store heq => rw [heq]; rfl
  · next store wasActive heq => rw [heq]

/-- **What a step does to every story.** -/
theorem status_step (h : r.store.Consistent chronicleOf) (hstep : r.step chronicleOf l = some r')
    (storyId : StoryId) :
    r'.store.status chronicleOf storyId =
      l.effect chronicleOf r storyId (r.store.status chronicleOf storyId) := by
  cases GrapherRun.steps_of_step hstep with
  | startStoryRecording other startTime =>
    exact GrapherDataStore.status_register h other startTime storyId
  | stopStoryRecording other now =>
    exact GrapherDataStore.status_stopStoryRecording other now storyId
  | destroyStory other => exact GrapherDataStore.status_destroyStory h other storyId
  | destroyChronicle chronicle =>
    exact GrapherDataStore.status_destroyChronicle h chronicle storyId
  | retireDecayedPipelines now =>
    exact GrapherDataStore.status_retireDecayedPipelines h now storyId
  | ingestStoryChunk thread chunk => rfl
  | pushChunk thread chunk handle =>
    exact GrapherDataStore.status_of_handles
      (ChunkIngestionQueue.storyIngestionHandles_pushChunk handle chunk) storyId
  | drainOrphanChunks => rfl
  | extractOrphanChunks thread =>
    unfold GrapherRun.extractOrphanChunks
    dsimp only
    split <;> rfl
  | adoptNext thread chunk orphanChunks adoptedStories activeStories hbefore =>
    rw [GrapherRun.store_adoptNext, GrapherDataStore.status_adopt h]
    rw [GrapherRun.Before] at hbefore
    simp only [GrapherStep.effect, hbefore]
  | ingestAdopted thread => rfl
  | pushAdopted thread hand handle =>
    exact GrapherDataStore.status_of_handles
      (ChunkIngestionQueue.storyIngestionHandles_pushChunk handle hand.chunk) storyId
  | deleteIngested thread => rfl
  | recordAdopted thread => rfl
  | endAdoption thread => rfl
  | stopAdopted thread other now =>
    exact GrapherDataStore.status_stopStoryRecording other now storyId
  | finishAdoption thread => rfl

theorem consistent_effect (storyId : StoryId) {v : StoryStatus}
    (h : v.Consistent (chronicleOf storyId) storyId) :
    (l.effect chronicleOf r storyId v).Consistent (chronicleOf storyId) storyId := by
  unfold GrapherStep.effect
  split
  · next other startTime =>
    split
    · next ho =>
      subst ho
      exact h.register ⟨rfl, rfl⟩
    · refine ⟨h.waiting, h.handle, fun ht => h.buried ?_, h.named⟩
      simp only [StoryStatus.tombstoned, Bool.or_eq_true] at ht ⊢
      refine ht.imp_right fun ht => ?_
      split at ht
      · cases ht
      · exact ht
  · split
    · exact h.stop _
    · exact h
  · split
    · exact h.stop _
    · exact h
  · split
    · exact StoryStatus.Consistent.of_unrecorded rfl rfl rfl
    · exact h
  · split
    · exact StoryStatus.Consistent.of_unrecorded rfl rfl rfl
    · exact h
  · exact h.retire _
  · split
    · split
      · next ho =>
        subst ho
        exact h.adopt ⟨rfl, rfl⟩
      · exact h
    · exact h
  · exact h

theorem consistent_initial (h : (grapher chronicleOf).Initial r) :
    r.store.Consistent chronicleOf := by
  obtain ⟨delay, registry, rfl⟩ := h
  intro storyId
  exact .of_unrecorded (by simp [GrapherDataStore.status]) (by simp [GrapherDataStore.status])
    (by simp [GrapherDataStore.status])

theorem consistent_step (h : r.store.Consistent chronicleOf)
    (hstep : r.step chronicleOf l = some r') : r'.store.Consistent chronicleOf := by
  intro storyId
  rw [status_step h hstep]
  exact consistent_effect storyId (h storyId)

end Effect

/-! ### Late chunks of destroyed stories -/

namespace GrapherDataStore

variable {g : GrapherDataStore} {storyId : StoryId}

theorem ingestedOf_startStoryRecording (chronicle : ChronicleName) (other : StoryId)
    (startTime : ℕ) (isAdoption : Bool) :
    (g.startStoryRecording chronicle other startTime
        isAdoption).1.theIngestionQueue.ingestedOf storyId =
      g.theIngestionQueue.ingestedOf storyId := by
  unfold startStoryRecording
  split
  · rfl
  · cases isAdoption with
    | false =>
      rw [if_neg Bool.false_ne_true]
      dsimp only
      split <;> rfl
    | true =>
      rw [if_pos rfl]
      dsimp only
      split <;> rfl

theorem theIngestionQueue_stopStoryRecording (other : StoryId) (now : ℕ) :
    (g.stopStoryRecording other now).theIngestionQueue = g.theIngestionQueue := by
  unfold stopStoryRecording
  split <;> rfl

variable (h : g.theIngestionQueue.storyIngestionHandles[storyId]? = none)

include h in
theorem ingestedOf_destroyStory (other : StoryId) (chronicle : ChronicleName) :
    (g.destroyStory other chronicle).theIngestionQueue.ingestedOf storyId =
      g.theIngestionQueue.ingestedOf storyId := by
  have hdrain := ChunkIngestionQueue.ingestedOf_drainOrphanChunks h
  unfold destroyStory
  dsimp only [reportDropped]
  split
  · exact hdrain
  · rfl

theorem ingestedOf_foldl_unhook (storyIds : List StoryId) (g : GrapherDataStore) :
    (storyIds.foldl unhook g).theIngestionQueue.ingestedOf storyId =
      g.theIngestionQueue.ingestedOf storyId := by
  induction storyIds generalizing g with
  | nil => rfl
  | cons other storyIds ih => exact ih (g.unhook other)

theorem theIngestionQueue_foldl_reportDropped (storyIds : List StoryId) (g : GrapherDataStore) :
    (storyIds.foldl reportDropped g).theIngestionQueue = g.theIngestionQueue := by
  induction storyIds generalizing g with
  | nil => rfl
  | cons other storyIds ih => exact ih (g.reportDropped other)

include h in
theorem ingestedOf_destroyChronicle (chronicle : ChronicleName) :
    (g.destroyChronicle chronicle).theIngestionQueue.ingestedOf storyId =
      g.theIngestionQueue.ingestedOf storyId := by
  have hdrain := ChunkIngestionQueue.ingestedOf_drainOrphanChunks h
  unfold destroyChronicle
  dsimp only
  rw [theIngestionQueue_foldl_reportDropped, ingestedOf_foldl_unhook]
  split
  · rfl
  · exact hdrain

theorem ingestedOf_foldl_retire (entries : List (StoryId × StoryPipeline × ℕ))
    (g : GrapherDataStore) :
    (entries.foldl GrapherDataStore.retire g).theIngestionQueue.ingestedOf storyId =
      g.theIngestionQueue.ingestedOf storyId := by
  induction entries generalizing g with
  | nil => rfl
  | cons entry entries ih => exact ih (g.retire entry)

theorem ingestedOf_retireDecayedPipelines (currentTime : ℕ) :
    (g.retireDecayedPipelines currentTime).theIngestionQueue.ingestedOf storyId =
      g.theIngestionQueue.ingestedOf storyId := by
  unfold retireDecayedPipelines
  split
  · rfl
  · exact ingestedOf_foldl_retire _ g

end GrapherDataStore

section KeptOut

variable {chronicleOf : StoryId → ChronicleName} {r r' : GrapherRun} {l : GrapherStep}
  {storyId : StoryId}

theorem GrapherRun.holds_eq_false_iff :
    r.holds storyId = false ↔
      (∀ (thread : ℕ) (received : StoryChunk × Option ℕ),
        r.receiving[thread]? = some received → received.1.storyId = storyId →
          received.2 = none) ∧
      ∀ (thread : ℕ) (adoption : Adoption),
        r.adoptions[thread]? = some adoption → adoption.holds storyId = false := by
  simp only [holds, Bool.or_eq_false_iff, List.any_eq_false, Prod.forall,
    Std.ExtTreeMap.mem_toList_iff_getElem?_eq_some, Bool.and_eq_true, decide_eq_true_eq, not_and,
    Bool.not_eq_true, Option.isSome_eq_false_iff, Option.isNone_iff_eq_none]

/-- A call that goes on without a handle in hand. -/
theorem GrapherRun.unheld_setAdoption {thread : ℕ} {adoption : Adoption}
    (h : r.holds storyId = false) (hreceiving : r'.receiving = r.receiving)
    (hadoptions : r'.adoptions = r.adoptions.insert thread adoption)
    (hadoption : adoption.holds storyId = false) : r'.holds storyId = false := by
  obtain ⟨hreceived, hcalls⟩ := holds_eq_false_iff.mp h
  refine holds_eq_false_iff.mpr ⟨hreceiving ▸ hreceived, fun other after hafter => ?_⟩
  rw [hadoptions, Std.ExtTreeMap.getElem?_insert] at hafter
  split at hafter
  · cases hafter
    exact hadoption
  · exact hcalls other after hafter

theorem ChunkInHand.holds_recorded (hand : ChunkInHand) (first second : StoryId) :
    (hand.recorded first second).holds storyId = false := by
  unfold recorded
  split <;> rfl

/-- No step looks up a handle of a story that has none. -/
theorem unheld_step (h : r.store.theIngestionQueue.storyIngestionHandles[storyId]? = none)
    (hheld : r.holds storyId = false) (hstep : r.step chronicleOf l = some r') :
    r'.holds storyId = false := by
  cases GrapherRun.steps_of_step hstep with
  | ingestStoryChunk thread chunk =>
    obtain ⟨hreceived, hcalls⟩ := GrapherRun.holds_eq_false_iff.mp hheld
    refine GrapherRun.holds_eq_false_iff.mpr ⟨fun other received hother hs => ?_, hcalls⟩
    rw [Std.ExtTreeMap.getElem?_insert] at hother
    split at hother
    · cases hother
      subst hs
      exact h
    · exact hreceived other received hother hs
  | pushChunk thread chunk handle =>
    obtain ⟨hreceived, hcalls⟩ := GrapherRun.holds_eq_false_iff.mp hheld
    refine GrapherRun.holds_eq_false_iff.mpr ⟨fun other received hother hs => ?_, hcalls⟩
    rw [Std.ExtTreeMap.getElem?_erase] at hother
    split at hother
    · cases hother
    · exact hreceived other received hother hs
  | extractOrphanChunks thread =>
    unfold GrapherRun.extractOrphanChunks
    dsimp only
    split
    · exact hheld
    · exact GrapherRun.unheld_setAdoption hheld rfl rfl rfl
  | adoptNext thread chunk =>
    unfold GrapherRun.adoptNext
    split <;> exact GrapherRun.unheld_setAdoption hheld rfl rfl rfl
  | ingestAdopted thread hand =>
    refine GrapherRun.unheld_setAdoption hheld rfl rfl ?_
    by_cases hs : hand.chunk.storyId = storyId
    · -- the lookup finds no handle
      subst hs
      simp [Adoption.holds, GrapherRun.findHandle, ChunkIngestionQueue.findHandle, h]
    · simp [Adoption.holds, hs]
  | pushAdopted thread hand => exact GrapherRun.unheld_setAdoption hheld rfl rfl rfl
  | deleteIngested thread hand => exact GrapherRun.unheld_setAdoption hheld rfl rfl rfl
  | recordAdopted thread first second hand =>
    refine GrapherRun.unheld_setAdoption hheld rfl rfl ?_
    split <;> exact hand.holds_recorded _ _
  | endAdoption thread => exact GrapherRun.unheld_setAdoption hheld rfl rfl rfl
  | stopAdopted thread => exact GrapherRun.unheld_setAdoption hheld rfl rfl rfl
  | finishAdoption thread =>
    obtain ⟨hreceived, hcalls⟩ := GrapherRun.holds_eq_false_iff.mp hheld
    refine GrapherRun.holds_eq_false_iff.mpr ⟨hreceived, fun other adoption hother => ?_⟩
    rw [Std.ExtTreeMap.getElem?_erase] at hother
    split at hother
    · cases hother
    · exact hcalls other adoption hother
  | _ => exact hheld

/-- No step ingests a chunk of a story that has no handle, once the handles that were
looked up are used. -/
theorem ingestedOf_step
    (h : r.store.theIngestionQueue.storyIngestionHandles[storyId]? = none)
    (hheld : r.holds storyId = false) (hstep : r.step chronicleOf l = some r') :
    r'.store.theIngestionQueue.ingestedOf storyId =
      r.store.theIngestionQueue.ingestedOf storyId := by
  cases GrapherRun.steps_of_step hstep with
  | startStoryRecording other startTime =>
    exact GrapherDataStore.ingestedOf_startStoryRecording _ other startTime false
  | stopStoryRecording other now =>
    exact congrArg (·.ingestedOf storyId)
      (GrapherDataStore.theIngestionQueue_stopStoryRecording other now)
  | destroyStory other => exact GrapherDataStore.ingestedOf_destroyStory h other _
  | destroyChronicle chronicle => exact GrapherDataStore.ingestedOf_destroyChronicle h chronicle
  | retireDecayedPipelines now => exact GrapherDataStore.ingestedOf_retireDecayedPipelines now
  | ingestStoryChunk thread chunk => rfl
  | pushChunk thread chunk handle hthread =>
    -- a chunk of the story goes to the orphans: its lookup found nothing
    exact ChunkIngestionQueue.ingestedOf_pushChunk
      ((GrapherRun.holds_eq_false_iff.mp hheld).1 thread _ hthread)
  | drainOrphanChunks => exact ChunkIngestionQueue.ingestedOf_drainOrphanChunks h
  | extractOrphanChunks thread =>
    unfold GrapherRun.extractOrphanChunks
    dsimp only
    split <;> rfl
  | adoptNext thread chunk =>
    have hstart : (r.store.startStoryRecording (chronicleOf chunk.storyId) chunk.storyId
          chunk.startTime true).1.theIngestionQueue.ingestedOf storyId = _ :=
      GrapherDataStore.ingestedOf_startStoryRecording _ chunk.storyId chunk.startTime true
    unfold GrapherRun.adoptNext
    split <;> next heq => rwa [heq] at hstart
  | ingestAdopted thread => rfl
  | pushAdopted thread hand handle hpushing =>
    have hcall := (GrapherRun.holds_eq_false_iff.mp hheld).2 thread _ hpushing
    refine ChunkIngestionQueue.ingestedOf_pushChunk fun hs => ?_
    simpa [Adoption.holds, hs] using hcall
  | deleteIngested thread => rfl
  | recordAdopted thread => rfl
  | endAdoption thread => rfl
  | stopAdopted thread other now =>
    exact congrArg (·.ingestedOf storyId)
      (GrapherDataStore.theIngestionQueue_stopStoryRecording other now)
  | finishAdoption thread => rfl

/-- A late chunk of the story makes no pipeline and is not ingested: while the story
is covered it has no pipeline and no handle, and no step but its own registration
gives it a pipeline or ingests a chunk of it. -/
def KeptOut (chronicleOf : StoryId → ChronicleName) (storyId : StoryId) (r : GrapherRun) : Prop :=
  r.covered storyId = true →
    r.store.theMapOfStoryPipelines[storyId]? = none ∧
      r.store.theIngestionQueue.storyIngestionHandles[storyId]? = none ∧
      ∀ l r', r.step chronicleOf l = some r' →
        (∀ startTime, l ≠ .startStoryRecording storyId startTime) →
        r'.store.theMapOfStoryPipelines[storyId]? = none ∧
          r'.store.theIngestionQueue.ingestedOf storyId =
            r.store.theIngestionQueue.ingestedOf storyId

/-- The step is not the registration of another story of the chronicle while the
chronicle has a tombstone and the story has none of its own, and it does not destroy
the story while a thread is between the two parts of an `ingestStoryChunk` for it. -/
def KeepsTombstone (chronicleOf : StoryId → ChronicleName) (storyId : StoryId) (r : GrapherRun) :
    GrapherStep → Prop
  | .startStoryRecording other _ =>
    other ≠ storyId → chronicleOf other = chronicleOf storyId →
      r.store.destroyedChronicles.contains (chronicleOf storyId) = true →
      r.store.destroyedStories.contains storyId = true
  | .destroyStory other => other = storyId → r.holds storyId = false
  | .destroyChronicle chronicle => chronicleOf storyId = chronicle → r.holds storyId = false
  | _ => True

instance (storyId : StoryId) (r : GrapherRun) (l : GrapherStep) :
    Decidable (KeepsTombstone chronicleOf storyId r l) :=
  match l with
  | .startStoryRecording other _ =>
    inferInstanceAs (Decidable (other ≠ storyId → chronicleOf other = chronicleOf storyId →
      r.store.destroyedChronicles.contains (chronicleOf storyId) = true →
      r.store.destroyedStories.contains storyId = true))
  | .destroyStory other => inferInstanceAs (Decidable (other = storyId → r.holds storyId = false))
  | .destroyChronicle chronicle =>
    inferInstanceAs (Decidable (chronicleOf storyId = chronicle → r.holds storyId = false))
  | .stopStoryRecording .. | .retireDecayedPipelines .. | .ingestStoryChunk .. | .pushChunk ..
  | .drainOrphanChunks | .extractOrphanChunks .. | .adoptNext .. | .ingestAdopted ..
  | .pushAdopted .. | .deleteIngested .. | .recordAdopted .. | .endAdoption .. | .stopAdopted ..
  | .finishAdoption .. => .isTrue trivial

/-- A covered story has a tombstone and no thread holds a handle for its chunks, and the
store is consistent. -/
structure Buried (chronicleOf : StoryId → ChronicleName) (storyId : StoryId) (r : GrapherRun) :
    Prop where
  consistent : r.store.Consistent chronicleOf
  tombstoned : r.covered storyId = true → (r.store.status chronicleOf storyId).tombstoned = true
  unheld : r.covered storyId = true → r.holds storyId = false

/-- A covered story has no pipeline and no handle. -/
theorem Buried.unrecorded (h : Buried chronicleOf storyId r) (hcovered : r.covered storyId = true) :
    (r.store.status chronicleOf storyId).pipeline = none ∧
      r.store.theIngestionQueue.storyIngestionHandles[storyId]? = none := by
  have hp := (h.consistent storyId).buried (h.tombstoned hcovered)
  exact ⟨hp, (h.consistent storyId).handle hp⟩

theorem buried_initial (h : (grapher chronicleOf).Initial r) : Buried chronicleOf storyId r := by
  refine ⟨consistent_initial h, fun hcovered => ?_, fun hcovered => ?_⟩
  all_goals
    obtain ⟨delay, registry, rfl⟩ := h
    cases hcovered

/-- No step but the story's registration takes its last tombstone. -/
theorem tombstoned_effect (hcond : KeepsTombstone chronicleOf storyId r l)
    (h : (r.store.status chronicleOf storyId).tombstoned = true)
    (hl : ∀ startTime, l ≠ .startStoryRecording storyId startTime) :
    (l.effect chronicleOf r storyId (r.store.status chronicleOf storyId)).tombstoned = true := by
  unfold GrapherStep.effect
  split
  · next other startTime =>
    split
    · next ho => exact absurd (ho ▸ rfl) (hl startTime)
    · next ho =>
      -- a registration of another story: it may take the chronicle's tombstone
      simp only [StoryStatus.tombstoned, Bool.or_eq_true] at h ⊢
      split
      · next hc =>
        left
        exact h.elim id fun hchronicle => hcond ho hc hchronicle
      · exact h
  · split
    · rwa [StoryStatus.tombstoned_stop]
    · exact h
  · split
    · rwa [StoryStatus.tombstoned_stop]
    · exact h
  · split
    · rfl
    · exact h
  · split
    · simp [StoryStatus.tombstoned]
    · exact h
  · rwa [StoryStatus.tombstoned_retire]
  · split
    · split
      · rwa [StoryStatus.adopt_of_tombstoned h]
      · exact h
    · exact h
  · exact h

/-- Where a story that is covered after a step comes from. -/
theorem covered_step (hstep : r.step chronicleOf l = some r') (h : r'.covered storyId = true) :
    (r.covered storyId = true ∧ ∀ startTime, l ≠ .startStoryRecording storyId startTime) ∨
      l = .destroyStory storyId ∨ l = .destroyChronicle (chronicleOf storyId) := by
  cases GrapherRun.steps_of_step hstep with
  | startStoryRecording other startTime =>
    simp only [GrapherRun.startStoryRecording] at h
    split at h
    · -- the story's own registration uncovers it
      cases h
    · next ho =>
      refine .inl ⟨h, fun startTime hl => ?_⟩
      cases hl
      exact ho rfl
  | destroyStory other =>
    simp only [GrapherRun.destroyStory, Bool.or_eq_true, decide_eq_true_eq] at h
    rcases h with rfl | h
    · exact .inr (.inl rfl)
    · exact .inl ⟨h, fun _ hl => by cases hl⟩
  | destroyChronicle chronicle =>
    simp only [GrapherRun.destroyChronicle, Bool.or_eq_true, decide_eq_true_eq] at h
    rcases h with rfl | h
    · exact .inr (.inr rfl)
    · exact .inl ⟨h, fun _ hl => by cases hl⟩
  | extractOrphanChunks thread =>
    refine .inl ⟨?_, fun _ hl => by cases hl⟩
    unfold GrapherRun.extractOrphanChunks at h
    dsimp only at h
    split at h <;> exact h
  | adoptNext thread chunk orphanChunks adoptedStories activeStories =>
    refine .inl ⟨?_, fun _ hl => by cases hl⟩
    unfold GrapherRun.adoptNext at h
    split at h <;> exact h
  | _ => exact .inl ⟨h, fun _ hl => by cases hl⟩

theorem buried_step (h : Buried chronicleOf storyId r)
    (hcond : KeepsTombstone chronicleOf storyId r l) (hstep : r.step chronicleOf l = some r') :
    Buried chronicleOf storyId r' := by
  refine ⟨consistent_step h.consistent hstep, fun hcovered => ?_, fun hcovered => ?_⟩
  · rw [status_step h.consistent hstep]
    obtain ⟨hbefore, hl⟩ | rfl | rfl := covered_step hstep hcovered
    · exact tombstoned_effect hcond (h.tombstoned hbefore) hl
    · simp [GrapherStep.effect, StoryStatus.tombstoned]
    · simp [GrapherStep.effect, StoryStatus.tombstoned]
  · obtain ⟨hbefore, -⟩ | rfl | rfl := covered_step hstep hcovered
    · exact unheld_step (h.unrecorded hbefore).2 (h.unheld hbefore) hstep
    -- a destroy comes only while no thread has a handle for the story in hand
    · cases GrapherRun.steps_of_step hstep
      exact hcond rfl
    · cases GrapherRun.steps_of_step hstep
      exact hcond rfl

/-- A step but its registration gives no pipeline to a story that has a tombstone. -/
theorem pipeline_effect_of_tombstoned {v : StoryStatus} (h : v.tombstoned = true)
    (hp : v.pipeline = none) (hl : ∀ startTime, l ≠ .startStoryRecording storyId startTime) :
    (l.effect chronicleOf r storyId v).pipeline = none := by
  unfold GrapherStep.effect
  split
  · next other startTime =>
    split
    · next ho => exact absurd (ho ▸ rfl) (hl startTime)
    · exact hp
  · split
    · simp only [StoryStatus.stop, hp]
    · exact hp
  · split
    · simp only [StoryStatus.stop, hp]
    · exact hp
  · split
    · rfl
    · exact hp
  · split
    · rfl
    · exact hp
  · unfold StoryStatus.retire
    split
    · exact hp
    · split
      · rfl
      · exact hp
  · split
    · split
      · rwa [StoryStatus.adopt_of_tombstoned h]
      · exact hp
    · exact hp
  · exact hp

theorem Buried.keptOut (h : Buried chronicleOf storyId r) : KeptOut chronicleOf storyId r := by
  intro hcovered
  obtain ⟨hp, hhandle⟩ := h.unrecorded hcovered
  refine ⟨hp, hhandle, fun l r' hstep hl =>
    ⟨?_, ingestedOf_step hhandle (h.unheld hcovered) hstep⟩⟩
  have hstatus := congrArg StoryStatus.pipeline (status_step h.consistent hstep storyId)
  exact hstatus.trans (pipeline_effect_of_tombstoned (h.tombstoned hcovered) hp hl)

/-- **Late chunks do not bring back a destroyed story**: in every run in which no
other story of the chronicle is registered while only the chronicle's tombstone
stands for the story, and in which the story is not destroyed while a thread is about
to push a chunk of it, a covered story is kept out until its own registration. -/
theorem destroyed_stories_stay_out (storyId : StoryId) {r₀ : GrapherRun} {ls : List GrapherStep}
    (hinit : (grapher chronicleOf).Initial r₀)
    (hcond : (grapher chronicleOf).StepsMeet (KeepsTombstone chronicleOf storyId) r₀ ls)
    (hrun : (grapher chronicleOf).run r₀ ls = some r) : KeptOut chronicleOf storyId r := by
  have hbefore : Buried chronicleOf storyId r₀ := buried_initial hinit
  exact (System.run_induction_of_stepsMeet (fun _ _ _ => buried_step) hbefore hcond hrun).keptOut

/-- A story is destroyed, another story of its chronicle is registered, and a late
chunk of the destroyed story finds an adopting call. -/
theorem destroyed_story_stays_out_registered :
    ∃ r, (grapher fun _ => "climate").run {}
        [.startStoryRecording 7 0, .destroyStory 7, .destroyChronicle "climate",
          .startStoryRecording 8 0, .ingestStoryChunk 5 (.new 7 10 20), .pushChunk 5,
          .extractOrphanChunks 0, .adoptNext 0] = some r ∧
      r.covered 7 = true ∧ KeptOut (fun _ => "climate") 7 r := by
  have hcovered : ((grapher fun _ => "climate").run {}
      [.startStoryRecording 7 0, .destroyStory 7, .destroyChronicle "climate",
        .startStoryRecording 8 0, .ingestStoryChunk 5 (.new 7 10 20), .pushChunk 5,
        .extractOrphanChunks 0, .adoptNext 0]).any (fun r => r.covered 7) = true := by
    decide +kernel
  obtain ⟨r, hrun, hcovered⟩ := (Option.any_eq_true _ _).mp hcovered
  exact ⟨r, hrun, hcovered, destroyed_stories_stay_out 7 ⟨300, none, rfl⟩
    (System.stepsMeet_of_check (by decide +kernel)) hrun⟩

/-- Another story of the chronicle is registered while only the chronicle's tombstone
stands, and a late chunk finds an adopting call. -/
def reopeningRegistration : List GrapherStep :=
  [.startStoryRecording 7 0, .destroyChronicle "climate", .startStoryRecording 8 0,
    .ingestStoryChunk 5 (.new 7 10 20), .pushChunk 5, .extractOrphanChunks 0, .adoptNext 0,
    .ingestAdopted 0, .pushAdopted 0]

/-- A story is destroyed between the two parts of an `ingestStoryChunk`. -/
def destroyBeforePush : List GrapherStep :=
  [.startStoryRecording 7 0, .ingestStoryChunk 5 (.new 7 10 20), .destroyStory 7]

/-- **Destroyed stories do not always stay out**: a registration takes the chronicle's
tombstone, which is the only one that the other stories have, and a late chunk of
another story is adopted and ingested; and a chunk whose handle was looked up before
the destroy is ingested after it. -/
theorem registration_reopens_chronicle :
    (∃ r, (grapher fun _ => "climate").run {} reopeningRegistration = some r ∧
        r.covered 7 = true ∧ (r.store.theMapOfStoryPipelines[(7 : StoryId)]?).isSome = true ∧
        r.store.theIngestionQueue.ingestedOf 7 ≠ [] ∧ ¬ KeptOut (fun _ => "climate") 7 r) ∧
      ∃ r r', (grapher fun _ => "climate").run {} destroyBeforePush = some r ∧
        r.covered 7 = true ∧ r.step (fun _ => "climate") (.pushChunk 5) = some r' ∧
        r.store.theIngestionQueue.ingestedOf 7 = [] ∧
        r'.store.theIngestionQueue.ingestedOf 7 ≠ [] ∧ ¬ KeptOut (fun _ => "climate") 7 r := by
  constructor
  · have hend : ((grapher fun _ => "climate").run {} reopeningRegistration).any (fun r =>
        r.covered 7 && (r.store.theMapOfStoryPipelines[(7 : StoryId)]?).isSome &&
          !(r.store.theIngestionQueue.ingestedOf 7).isEmpty) = true := by decide +kernel
    obtain ⟨r, hrun, hr⟩ := (Option.any_eq_true _ _).mp hend
    simp only [Bool.and_eq_true, Bool.not_eq_true', List.isEmpty_eq_false_iff] at hr
    obtain ⟨⟨hcovered, hpipeline⟩, hingested⟩ := hr
    refine ⟨r, hrun, hcovered, hpipeline, hingested, fun hout => ?_⟩
    rw [(hout hcovered).1] at hpipeline
    cases hpipeline
  · have hend : ((grapher fun _ => "climate").run {} destroyBeforePush).any (fun r =>
        r.covered 7 && (r.store.theIngestionQueue.ingestedOf 7).isEmpty &&
          (r.step (fun _ => "climate") (.pushChunk 5)).any fun r' =>
            !(r'.store.theIngestionQueue.ingestedOf 7).isEmpty) = true := by decide +kernel
    obtain ⟨r, hrun, hr⟩ := (Option.any_eq_true _ _).mp hend
    simp only [Bool.and_eq_true, Option.any_eq_true, Bool.not_eq_true', List.isEmpty_iff,
      List.isEmpty_eq_false_iff] at hr
    obtain ⟨⟨hcovered, hbefore⟩, r', hpush, hafter⟩ := hr
    refine ⟨r, r', hrun, hcovered, hpush, hbefore, hafter, fun hout => hafter ?_⟩
    have hkept := ((hout hcovered).2.2 _ r' hpush fun _ hl => by cases hl).2
    rw [hkept, hbefore]

end KeptOut

/-! ### Adoption beside the visor's acquisitions -/

namespace Adoption

variable {chunk : StoryChunk} {wasActive : Bool} {orphanChunks : List StoryChunk}
  {adoptedStories activeStories : OrdSet StoryId} {storyId : StoryId}

/-- Recording the chunk under its story does not change what the call is going to
stop. -/
theorem willStop_recorded (hand : ChunkInHand) :
    (hand.recorded hand.chunk.storyId hand.chunk.storyId).willStop storyId =
      hand.willStop storyId := by
  obtain ⟨chunk, wasActive, orphanChunks, adoptedStories, activeStories⟩ := hand
  unfold ChunkInHand.recorded
  by_cases hs : chunk.storyId = storyId
  · subst hs
    split
    · next h =>
      simp only [Bool.and_eq_true, Bool.not_eq_true'] at h
      simp [willStop, ChunkInHand.willStop, h]
    · next h =>
      have hfirst : (adoptedStories.contains chunk.storyId || !wasActive) = true := by
        cases hc : adoptedStories.contains chunk.storyId <;> simp_all
      simp [willStop, ChunkInHand.willStop, hfirst]
  · have hne : (compare chunk.storyId storyId == .eq) = false := by simpa using hs
    split <;> simp [willStop, ChunkInHand.willStop, hs, Std.ExtTreeSet.contains_insert, hne]

theorem willStop_stopping_sdiff :
    (stopping (adoptedStories \ activeStories)).willStop storyId =
      (adopting orphanChunks adoptedStories activeStories).willStop storyId :=
  Std.ExtTreeSet.contains_diff

/-- Starting the recording of a chunk adds its story to what the call is going to
stop, unless the story was active. -/
theorem willStop_ingesting :
    (ingesting ⟨chunk, wasActive, orphanChunks, adoptedStories, activeStories⟩).willStop storyId =
      ((adopting (chunk :: orphanChunks) adoptedStories activeStories).willStop storyId ||
        (decide (chunk.storyId = storyId) && !wasActive && !activeStories.contains storyId)) := by
  simp only [willStop, ChunkInHand.willStop]
  cases adoptedStories.contains storyId <;> simp

/-- The chunk whose story the call reads next is deleted. -/
def deleted : Adoption → Bool
  | ingested _ deleted => deleted
  | _ => false

/-- The next chunk is of a story that the call found active with an earlier one. -/
def revisits (storyId : StoryId) : Adoption → Bool
  | adopting (chunk :: _) _ activeStories =>
    chunk.storyId = storyId && activeStories.contains storyId
  | _ => false

end Adoption

namespace GrapherRun

variable {r : GrapherRun} {thread other : ℕ} {storyId : StoryId} {adoption : Adoption}

theorem willStop_of_getElem? (h : r.adoptions[thread]? = some adoption) :
    r.willStop thread storyId = adoption.willStop storyId := by
  rw [willStop, h, Option.any_some]

theorem willStop_insert (adoptions : OrdMap ℕ Adoption) (h : adoptions = r.adoptions) :
    (((adoptions.insert thread adoption)[other]?).any fun a => a.willStop storyId) =
      if thread = other then adoption.willStop storyId else r.willStop other storyId := by
  rw [h, Std.ExtTreeMap.getElem?_insert]
  by_cases ho : thread = other <;> simp [ho, willStop]

theorem awaited_iff : r.awaited storyId = true ↔ ∃ thread, r.willStop thread storyId = true := by
  simp only [awaited, willStop, List.any_eq_true, Prod.exists,
    Std.ExtTreeMap.mem_toList_iff_getElem?_eq_some, Option.any_eq_true]

/-- A call that keeps what it is going to stop. -/
theorem willStop_update {r' : GrapherRun}
    (h : r'.adoptions = r.adoptions.insert thread adoption)
    (hkeeps : adoption.willStop storyId = r.willStop thread storyId) (other : ℕ) :
    r'.willStop other storyId = r.willStop other storyId := by
  rw [willStop, h, willStop_insert _ rfl]
  split
  · next ho => rw [hkeeps, ho]
  · rfl

end GrapherRun

section Acquisitions

variable {chronicleOf : StoryId → ChronicleName} {r r' : GrapherRun} {l : GrapherStep}
  {storyId other : StoryId} {startTime : ℕ}

/-- The visor's acquisitions are left alone and what adoptions made goes: a story
whose last visor call is a start is recorded and does not wait to be retired, and
when no adopting call is in progress every recorded pipeline that the visor never
started does wait. -/
structure AcquisitionsSpared (storyId : StoryId) (r : GrapherRun) : Prop where
  live : r.live storyId = true →
    (r.store.theMapOfStoryPipelines[storyId]?).isSome = true ∧
      r.store.pipelinesWaitingForExit[storyId]? = none
  leaving : r.adoptions = ∅ → ∀ pipeline : StoryPipeline,
    r.store.theMapOfStoryPipelines[storyId]? = some pipeline → pipeline ∉ r.visorStarted →
    ∃ exitTime, r.store.pipelinesWaitingForExit[storyId]? = some (pipeline, exitTime)

/-- The story can be adopted without leaving its pipeline behind: it is refused, or
its pipeline does not wait or is one that the visor started, or some call is going
to stop the story. -/
def adoptsCleanly (chronicleOf : StoryId → ChronicleName) (storyId : StoryId) (r : GrapherRun) :
    Bool :=
  r.store.tombstoned (chronicleOf storyId) storyId || r.awaited storyId ||
    (r.store.theMapOfStoryPipelines[storyId]?).any fun pipeline =>
      !r.store.pipelinesWaitingForExit.contains storyId || r.visorStarted.contains pipeline

/-- The step is not the closing stop of a call that the visor's start of the story
has overtaken, it is not a later chunk of a story that the call found active, with a
pipeline that the call would leave behind, and it does not read the story of a chunk
that another thread has deleted. -/
def KeepsAcquisition (chronicleOf : StoryId → ChronicleName) (storyId : StoryId)
    (r : GrapherRun) : GrapherStep → Prop
  | .stopAdopted thread other _ => other = storyId → r.overtaken thread storyId = false
  | .adoptNext thread =>
    (r.adoptions[thread]?).any (Adoption.revisits storyId) = true →
      adoptsCleanly chronicleOf storyId r = true
  | .recordAdopted thread _ _ => (r.adoptions[thread]?).any Adoption.deleted = false
  | _ => True

instance (storyId : StoryId) (r : GrapherRun) (l : GrapherStep) :
    Decidable (KeepsAcquisition chronicleOf storyId r l) :=
  match l with
  | .stopAdopted thread other _ =>
    inferInstanceAs (Decidable (other = storyId → r.overtaken thread storyId = false))
  | .adoptNext thread =>
    inferInstanceAs (Decidable ((r.adoptions[thread]?).any (Adoption.revisits storyId) = true →
      adoptsCleanly chronicleOf storyId r = true))
  | .recordAdopted thread _ _ =>
    inferInstanceAs (Decidable ((r.adoptions[thread]?).any Adoption.deleted = false))
  | .startStoryRecording .. | .stopStoryRecording .. | .destroyStory .. | .destroyChronicle ..
  | .retireDecayedPipelines .. | .ingestStoryChunk .. | .pushChunk .. | .drainOrphanChunks
  | .extractOrphanChunks .. | .ingestAdopted .. | .pushAdopted .. | .deleteIngested ..
  | .endAdoption .. | .finishAdoption .. => .isTrue trivial

/-- The invariant: a call that is going to stop an acquired story was overtaken, and
a pipeline that the visor never started waits or some call is going to stop it. -/
structure Spared (chronicleOf : StoryId → ChronicleName) (storyId : StoryId) (r : GrapherRun) :
    Prop where
  consistent : r.store.Consistent chronicleOf
  live : r.live storyId = true → (r.store.status chronicleOf storyId).pipeline.isSome = true ∧
    (r.store.status chronicleOf storyId).waiting = none
  overtaken : r.live storyId = true → ∀ thread, r.willStop thread storyId = true →
    r.overtaken thread storyId = true
  resident : ∀ pipeline, (r.store.status chronicleOf storyId).pipeline = some pipeline →
    pipeline ∉ r.visorStarted →
    (r.store.status chronicleOf storyId).waiting.isSome = true ∨
      ∃ thread, r.willStop thread storyId = true

/-- A step that does not touch the story. -/
theorem Spared.of_same (h : Spared chronicleOf storyId r)
    (hconsistent : r'.store.Consistent chronicleOf)
    (hpipeline : (r'.store.status chronicleOf storyId).pipeline =
      (r.store.status chronicleOf storyId).pipeline)
    (hwaiting : (r'.store.status chronicleOf storyId).waiting =
      (r.store.status chronicleOf storyId).waiting)
    (hstop : ∀ thread, r'.willStop thread storyId = r.willStop thread storyId)
    (hlive : r'.live storyId = r.live storyId)
    (hovertaken : ∀ thread, r'.overtaken thread storyId = r.overtaken thread storyId)
    (hstarted : ∀ pipeline ∈ r.visorStarted, pipeline ∈ r'.visorStarted) :
    Spared chronicleOf storyId r' := by
  refine ⟨hconsistent, fun hl => ?_, fun hl thread => ?_, fun p hp hnot => ?_⟩
  · rw [hpipeline, hwaiting]
    exact h.live (hlive ▸ hl)
  · rw [hstop, hovertaken]
    exact h.overtaken (hlive ▸ hl) thread
  · rw [hpipeline] at hp
    rw [hwaiting]
    simp only [hstop]
    exact h.resident p hp fun hmem => hnot (hstarted p hmem)

/-- A step after which the story is neither recorded nor acquired. -/
theorem Spared.of_unrecorded (hconsistent : r'.store.Consistent chronicleOf)
    (hpipeline : (r'.store.status chronicleOf storyId).pipeline = none)
    (hlive : r'.live storyId = false) : Spared chronicleOf storyId r' := by
  refine ⟨hconsistent, fun hl => ?_, fun hl => ?_, fun p hp => ?_⟩
  · rw [hlive] at hl
    cases hl
  · rw [hlive] at hl
    cases hl
  · rw [hpipeline] at hp
    cases hp

/-- A step that puts the story on the waiting list if it is recorded, and after which
it is not acquired. -/
theorem Spared.of_stopped {exitTime : ℕ} (hconsistent : r'.store.Consistent chronicleOf)
    (hstatus : r'.store.status chronicleOf storyId =
      (r.store.status chronicleOf storyId).stop exitTime)
    (hlive : r'.live storyId = false) : Spared chronicleOf storyId r' := by
  refine ⟨hconsistent, fun hl => ?_, fun hl => ?_, fun p hp _ => .inl ?_⟩
  · rw [hlive] at hl
    cases hl
  · rw [hlive] at hl
    cases hl
  · rw [hstatus] at hp ⊢
    unfold StoryStatus.stop at hp ⊢
    split
    · next hnone =>
      rw [hnone] at hp
      exact absurd (hnone.symm.trans hp) (by simp)
    · rfl

theorem spared_initial (h : (grapher chronicleOf).Initial r) : Spared chronicleOf storyId r := by
  refine .of_unrecorded (consistent_initial h) ?_ ?_
  · obtain ⟨delay, registry, rfl⟩ := h
    simp [GrapherDataStore.status]
  · obtain ⟨delay, registry, rfl⟩ := h
    rfl

theorem spared_startStoryRecording (h : Spared chronicleOf storyId r)
    (hconsistent :
      (r.startStoryRecording chronicleOf other startTime).store.Consistent chronicleOf) :
    Spared chronicleOf storyId (r.startStoryRecording chronicleOf other startTime) := by
  have hstatus := GrapherDataStore.status_register h.consistent other startTime storyId
  by_cases ho : storyId = other
  · subst ho
    rw [if_pos rfl] at hstatus
    refine ⟨hconsistent, fun _ => ?_, fun _ thread hstop => ?_, fun p hp hnot => ?_⟩
    · exact hstatus ▸ ⟨rfl, rfl⟩
    · simp only [GrapherRun.startStoryRecording, if_true]
      exact hstop
    · -- the pipeline that the visor found or made is one that it started
      refine absurd (List.mem_append_right _ ?_) hnot
      rw [Option.mem_toList]
      exact hp
  · rw [if_neg (Ne.symm ho)] at hstatus
    have hpipeline := congrArg StoryStatus.pipeline hstatus
    have hwaiting := congrArg StoryStatus.waiting hstatus
    refine h.of_same hconsistent hpipeline hwaiting (fun _ => rfl) ?_ (fun thread => ?_) ?_
    · simp [GrapherRun.startStoryRecording, ho]
    · simp [GrapherRun.startStoryRecording, ho]
    · exact fun p hp => List.mem_append_left _ hp

variable (chronicleOf r) in
/-- What an adopting call learns when it starts the recording of a chunk. -/
theorem adoptNext_cases (thread : ℕ) (chunk : StoryChunk) (orphanChunks : List StoryChunk)
    (adoptedStories activeStories : OrdSet StoryId) :
    ((r.store.status chronicleOf chunk.storyId).tombstoned = true ∧
        (r.adoptNext chronicleOf thread chunk orphanChunks adoptedStories
          activeStories).adoptions =
          r.adoptions.insert thread (.adopting orphanChunks adoptedStories activeStories)) ∨
      ((r.store.status chronicleOf chunk.storyId).tombstoned = false ∧
        (r.adoptNext chronicleOf thread chunk orphanChunks adoptedStories
          activeStories).adoptions =
          r.adoptions.insert thread (.ingesting ⟨chunk,
            (r.store.status chronicleOf chunk.storyId).pipeline.isSome &&
              (r.store.status chronicleOf chunk.storyId).waiting.isNone,
            orphanChunks, adoptedStories, activeStories⟩)) := by
  have hactive := r.store.wasActive_adopt chronicleOf chunk.storyId chunk.startTime
  unfold GrapherRun.adoptNext
  split
  · next store heq =>
    rw [heq] at hactive
    refine .inl ⟨?_, rfl⟩
    by_contra ht
    rw [if_neg ht] at hactive
    cases hactive
  · next store wasActive heq =>
    rw [heq] at hactive
    by_cases ht : (r.store.status chronicleOf chunk.storyId).tombstoned = true
    · rw [if_pos ht] at hactive
      cases hactive
    · rw [if_neg ht, Option.some.injEq] at hactive
      exact .inr ⟨by simpa using ht, hactive ▸ rfl⟩

theorem live_adoptNext (thread : ℕ) (chunk : StoryChunk) (orphanChunks : List StoryChunk)
    (adoptedStories activeStories : OrdSet StoryId)
    (hr' : r' = r.adoptNext chronicleOf thread chunk orphanChunks adoptedStories activeStories) :
    r'.live = r.live ∧ r'.visorStarted = r.visorStarted ∧ r'.overtaken = r.overtaken := by
  subst hr'
  unfold GrapherRun.adoptNext
  split <;> exact ⟨rfl, rfl, rfl⟩

variable {thread : ℕ} {chunk : StoryChunk} {orphanChunks : List StoryChunk}
  {adoptedStories activeStories : OrdSet StoryId}

theorem willStop_adoptNext (storyId : StoryId)
    (hbefore : r.Before thread chunk orphanChunks adoptedStories activeStories)
    (hr' : r' = r.adoptNext chronicleOf thread chunk orphanChunks adoptedStories activeStories)
    (number : ℕ) :
    r'.willStop number storyId =
      (r.willStop number storyId || (thread = number && chunk.storyId = storyId &&
        !(r.store.status chronicleOf storyId).tombstoned &&
        !((r.store.status chronicleOf storyId).pipeline.isSome &&
          (r.store.status chronicleOf storyId).waiting.isNone) &&
        !activeStories.contains storyId)) := by
  have hstop : r.willStop thread storyId = _ := GrapherRun.willStop_of_getElem? hbefore
  subst hr'
  obtain ⟨ht, hadoptions⟩ | ⟨ht, hadoptions⟩ := adoptNext_cases chronicleOf r thread chunk
    orphanChunks adoptedStories activeStories
  · rw [GrapherRun.willStop, hadoptions, GrapherRun.willStop_insert _ rfl]
    by_cases hn : thread = number
    · subst hn
      rw [if_pos rfl, hstop]
      by_cases hs : chunk.storyId = storyId
      · subst hs
        simp [ht, Adoption.willStop]
      · simp [hs, Adoption.willStop]
    · simp [hn]
  · rw [GrapherRun.willStop, hadoptions, GrapherRun.willStop_insert _ rfl,
      Adoption.willStop_ingesting]
    by_cases hn : thread = number
    · subst hn
      rw [if_pos rfl, hstop]
      by_cases hs : chunk.storyId = storyId
      · subst hs
        simp [ht]
      · simp [hs]
    · simp [hn]

/-- An adopting call starts the recording of its next chunk. -/
theorem spared_adoptNext (h : Spared chronicleOf storyId r)
    (hbefore : r.Before thread chunk orphanChunks adoptedStories activeStories)
    (hcond : chunk.storyId = storyId → activeStories.contains storyId = true →
      adoptsCleanly chronicleOf storyId r = true)
    (hr' : r' = r.adoptNext chronicleOf thread chunk orphanChunks adoptedStories activeStories)
    (hconsistent : r'.store.Consistent chronicleOf) :
    Spared chronicleOf storyId r' := by
  obtain ⟨hlive, hstarted, hovertaken⟩ := live_adoptNext _ _ _ _ _ hr'
  have hstop := willStop_adoptNext storyId hbefore hr'
  have hstatus : r'.store.status chronicleOf storyId = _ :=
    hr' ▸ (r.store_adoptNext thread chunk orphanChunks adoptedStories activeStories storyId).trans
      (GrapherDataStore.status_adopt h.consistent chunk.storyId chunk.startTime storyId)
  by_cases hs : chunk.storyId = storyId
  · subst hs
    rw [if_pos rfl] at hstatus
    by_cases ht : (r.store.status chronicleOf chunk.storyId).tombstoned = true
    · -- refused
      rw [StoryStatus.adopt_of_tombstoned ht] at hstatus
      refine h.of_same hconsistent (congrArg _ hstatus) (congrArg _ hstatus) (fun number => ?_)
        (by rw [hlive]) (fun number => by rw [hovertaken]) (fun p hp => hstarted ▸ hp)
      rw [hstop]
      simp [ht]
    · rw [StoryStatus.adopt, if_neg ht] at hstatus
      refine ⟨hconsistent, fun _ => hstatus ▸ ⟨rfl, rfl⟩, fun hl number hn => ?_,
        fun p hp hnot => .inr ?_⟩
      · -- an acquired story is found active, so the call does not add it
        obtain ⟨hpipeline, hwaiting⟩ := h.live (hlive ▸ hl)
        rw [hstop, hpipeline, hwaiting] at hn
        rw [hovertaken]
        exact h.overtaken (hlive ▸ hl) number (by simpa using hn)
      · -- if nobody were going to stop the pipeline, nobody was before, and it waited already
        by_contra hnone
        have hbefore : ¬ ∃ number, r.willStop number chunk.storyId = true := by
          rintro ⟨number, hn⟩
          exact hnone ⟨number, by rw [hstop, hn, Bool.true_or]⟩
        have hidle : ∀ q, (r.store.status chronicleOf chunk.storyId).pipeline = some q →
            q ∉ r.visorStarted ∧
              (r.store.status chronicleOf chunk.storyId).waiting.isSome = true := by
          intro q hq
          have hqp : q = p := by
            rw [hstatus, StoryStatus.record, hq] at hp
            exact Option.some.inj hp
          have hq' : q ∉ r.visorStarted := by rwa [hqp, ← hstarted]
          exact ⟨hq', (h.resident q hq hq').resolve_right hbefore⟩
        by_cases hactive : activeStories.contains chunk.storyId = true
        · -- the call found the story active with an earlier chunk: the condition
          have hclean := hcond rfl hactive
          rw [adoptsCleanly, Bool.or_eq_true, Bool.or_eq_true, GrapherRun.awaited_iff] at hclean
          obtain ⟨q, hq, hqclean⟩ := (Option.any_eq_true _ _).mp
            (hclean.resolve_left fun hor => hor.elim ht hbefore)
          obtain ⟨hq', hwaiting⟩ := hidle q hq
          have hcontains : r.store.pipelinesWaitingForExit.contains chunk.storyId = true := by
            rw [Std.ExtTreeMap.contains_eq_isSome_getElem?]
            exact hwaiting
          simp [hcontains, hq'] at hqclean
        · -- else the call finds a waiting pipeline or makes one, and is going to stop the story
          refine hnone ⟨thread, ?_⟩
          have hfresh : ((r.store.status chronicleOf chunk.storyId).pipeline.isSome &&
              (r.store.status chronicleOf chunk.storyId).waiting.isNone) = false := by
            cases hq : (r.store.status chronicleOf chunk.storyId).pipeline with
            | none => rfl
            | some q => simp [(hidle q hq).2]
          rw [hstop, hfresh]
          simp [ht, hactive]
  · rw [if_neg hs] at hstatus
    refine h.of_same hconsistent (congrArg _ hstatus) (congrArg _ hstatus) (fun number => ?_)
      (by rw [hlive]) (fun number => by rw [hovertaken]) (fun p hp => hstarted ▸ hp)
    rw [hstop]
    simp [hs]

/-- The visor ends the recording of other stories. -/
theorem spared_ended {store : GrapherDataStore} {stories : StoryId → Bool}
    {covered : StoryId → Bool} (h : Spared chronicleOf storyId r)
    (hconsistent : store.Consistent chronicleOf)
    (hstatus : store.status chronicleOf storyId = r.store.status chronicleOf storyId)
    (hnot : stories storyId = false) :
    Spared chronicleOf storyId { (r.withStore store).ended stories with covered := covered } := by
  refine h.of_same hconsistent (congrArg _ hstatus) (congrArg _ hstatus) (fun _ => rfl) ?_
    (fun number => ?_) (fun _ hp => hp)
  · simp [GrapherRun.ended, GrapherRun.withStore, hnot]
  · simp [GrapherRun.ended, GrapherRun.withStore, hnot]

/-- An adopting call takes a step that keeps what it is going to stop. -/
theorem spared_update {adoption after : Adoption} (h : Spared chronicleOf storyId r)
    (hconsistent : r'.store.Consistent chronicleOf)
    (hstatus : r'.store.status chronicleOf storyId = r.store.status chronicleOf storyId)
    (hadoption : r.adoptions[thread]? = some adoption)
    (hafter : r'.adoptions = r.adoptions.insert thread after)
    (hkeeps : after.willStop storyId = adoption.willStop storyId)
    (hlive : r'.live = r.live) (hstarted : r'.visorStarted = r.visorStarted)
    (hovertaken : r'.overtaken = r.overtaken) : Spared chronicleOf storyId r' := by
  refine h.of_same hconsistent (congrArg _ hstatus) (congrArg _ hstatus) (fun number => ?_)
    (by rw [hlive]) (fun number => by rw [hovertaken]) (fun p hp => hstarted ▸ hp)
  exact GrapherRun.willStop_update hafter
    (hkeeps.trans (GrapherRun.willStop_of_getElem? hadoption).symm) number

theorem spared_retire (h : Spared chronicleOf storyId r) {now : ℕ}
    (hconsistent : (r.store.retireDecayedPipelines now).Consistent chronicleOf) :
    Spared chronicleOf storyId (r.withStore (r.store.retireDecayedPipelines now)) := by
  have hstatus := GrapherDataStore.status_retireDecayedPipelines h.consistent now storyId
  rw [StoryStatus.retire] at hstatus
  split at hstatus
  · exact h.of_same hconsistent (congrArg _ hstatus) (congrArg _ hstatus) (fun _ => rfl) rfl
      (fun _ => rfl) (fun _ hp => hp)
  · next hwaiting =>
    split at hstatus
    · refine .of_unrecorded hconsistent (congrArg _ hstatus) ?_
      -- an acquired story does not wait
      by_contra hl
      rw [(h.live (Bool.not_eq_false _ ▸ hl)).2] at hwaiting
      cases hwaiting
    · exact h.of_same hconsistent (congrArg _ hstatus) (congrArg _ hstatus) (fun _ => rfl) rfl
        (fun _ => rfl) (fun _ hp => hp)

/-- The closing stop of an adopting call. -/
theorem spared_stopAdopted (h : Spared chronicleOf storyId r) {now : ℕ} {storyIds : OrdSet StoryId}
    (hadoption : r.adoptions[thread]? = some (.stopping storyIds))
    (hmem : storyIds.contains other = true)
    (hcond : other = storyId → r.overtaken thread storyId = false)
    (hstore : r'.store = r.store.stopStoryRecording other now)
    (hafter : r'.adoptions = r.adoptions.insert thread (.stopping (storyIds.erase other)))
    (hconsistent : r'.store.Consistent chronicleOf)
    (hlive : r'.live = r.live) (hstarted : r'.visorStarted = r.visorStarted)
    (hovertaken : r'.overtaken = r.overtaken) : Spared chronicleOf storyId r' := by
  have hstatus : (r.store.stopStoryRecording other now).status chronicleOf storyId = _ :=
    GrapherDataStore.status_stopStoryRecording other now storyId
  rw [← hstore] at hstatus
  by_cases ho : other = storyId
  · subst ho
    rw [if_pos rfl] at hstatus
    refine .of_stopped hconsistent hstatus ?_
    -- were the story acquired, the visor's start would have overtaken the call
    by_contra hl
    rw [hlive] at hl
    have hstop : r.willStop thread other = true :=
      (GrapherRun.willStop_of_getElem? hadoption).trans hmem
    have htaken := h.overtaken (Bool.not_eq_false _ ▸ hl) thread hstop
    rw [hcond rfl] at htaken
    cases htaken
  · rw [if_neg ho] at hstatus
    refine spared_update h hconsistent hstatus hadoption hafter ?_ hlive hstarted hovertaken
    simp [Adoption.willStop, Std.ExtTreeSet.contains_erase, ho]

theorem spared_extractOrphanChunks (h : Spared chronicleOf storyId r)
    (hnone : r.adoptions[thread]? = none)
    (hconsistent : (r.extractOrphanChunks thread).store.Consistent chronicleOf)
    (hstatus : (r.extractOrphanChunks thread).store.status chronicleOf storyId =
      r.store.status chronicleOf storyId) :
    Spared chronicleOf storyId (r.extractOrphanChunks thread) := by
  refine h.of_same hconsistent (congrArg _ hstatus) (congrArg _ hstatus) (fun number => ?_) ?_ ?_ ?_
  all_goals unfold GrapherRun.extractOrphanChunks
  all_goals dsimp only
  · split
    · rfl
    · rw [GrapherRun.willStop, GrapherRun.willStop_insert _ rfl]
      by_cases hn : thread = number
      · subst hn
        simp [GrapherRun.willStop, hnone, Adoption.willStop]
      · rw [if_neg hn]
  · split <;> rfl
  · split <;> exact fun _ => rfl
  · split <;> exact fun _ hp => hp

theorem spared_step (h : Spared chronicleOf storyId r)
    (hcond : KeepsAcquisition chronicleOf storyId r l) (hstep : r.step chronicleOf l = some r') :
    Spared chronicleOf storyId r' := by
  have hconsistent := consistent_step h.consistent hstep
  have hstatus := status_step h.consistent hstep storyId
  cases GrapherRun.steps_of_step hstep with
  | startStoryRecording other startTime => exact spared_startStoryRecording h hconsistent
  | stopStoryRecording other now =>
    by_cases ho : other = storyId
    · rw [GrapherStep.effect, if_pos ho] at hstatus
      exact .of_stopped hconsistent hstatus
        (by simp [GrapherRun.stopStoryRecording, GrapherRun.ended, ho])
    · rw [GrapherStep.effect, if_neg ho] at hstatus
      exact spared_ended h hconsistent hstatus (by simpa using Ne.symm ho)
  | destroyStory other =>
    by_cases ho : other = storyId
    · rw [GrapherStep.effect, if_pos ho] at hstatus
      exact .of_unrecorded hconsistent (congrArg _ hstatus)
        (by simp [GrapherRun.destroyStory, GrapherRun.ended, ho])
    · rw [GrapherStep.effect, if_neg ho] at hstatus
      exact spared_ended h hconsistent hstatus (by simpa using Ne.symm ho)
  | destroyChronicle chronicle =>
    by_cases ho : chronicleOf storyId = chronicle
    · rw [GrapherStep.effect, if_pos ho] at hstatus
      exact .of_unrecorded hconsistent (congrArg _ hstatus)
        (by simp [GrapherRun.destroyChronicle, GrapherRun.ended, ho])
    · rw [GrapherStep.effect, if_neg ho] at hstatus
      exact spared_ended h hconsistent hstatus (by simpa using ho)
  | retireDecayedPipelines now => exact spared_retire h hconsistent
  | ingestStoryChunk thread chunk =>
    exact h.of_same hconsistent (congrArg _ hstatus) (congrArg _ hstatus) (fun _ => rfl) rfl
      (fun _ => rfl) (fun _ hp => hp)
  | pushChunk thread chunk handle =>
    exact h.of_same hconsistent (congrArg _ hstatus) (congrArg _ hstatus) (fun _ => rfl) rfl
      (fun _ => rfl) (fun _ hp => hp)
  | drainOrphanChunks =>
    exact h.of_same hconsistent (congrArg _ hstatus) (congrArg _ hstatus) (fun _ => rfl) rfl
      (fun _ => rfl) (fun _ hp => hp)
  | extractOrphanChunks thread hnone => exact spared_extractOrphanChunks h hnone hconsistent hstatus
  | adoptNext thread chunk orphanChunks adoptedStories activeStories hbefore =>
    refine spared_adoptNext h hbefore (fun hs hactive => ?_) rfl hconsistent
    refine hcond ?_
    rw [hbefore, Option.any_some]
    simp [Adoption.revisits, hs, hactive]
  | ingestAdopted thread hand hhand =>
    exact spared_update h hconsistent hstatus hhand rfl rfl rfl rfl rfl
  | pushAdopted thread hand handle hhand =>
    exact spared_update h hconsistent hstatus hhand rfl rfl rfl rfl rfl
  | deleteIngested thread hand deleted hhand =>
    exact spared_update h hconsistent hstatus hhand rfl rfl rfl rfl rfl
  | recordAdopted thread first second hand deleted hhand =>
    -- the chunk is there still, so what the call reads is its story
    have halive : deleted = false := by
      rw [KeepsAcquisition, hhand] at hcond
      exact hcond
    refine spared_update h hconsistent hstatus hhand rfl ?_ rfl rfl rfl
    rw [halive, if_neg Bool.false_ne_true]
    exact Adoption.willStop_recorded hand
  | endAdoption thread adoptedStories activeStories hdone =>
    exact spared_update h hconsistent hstatus hdone rfl Adoption.willStop_stopping_sdiff rfl rfl rfl
  | stopAdopted thread other now storyIds hadoption hmem =>
    exact spared_stopAdopted h hadoption hmem hcond rfl rfl hconsistent rfl rfl rfl
  | finishAdoption thread storyIds hadoption hempty =>
    refine h.of_same hconsistent rfl rfl (fun number => ?_) rfl (fun _ => rfl) (fun _ hp => hp)
    -- the call is at the end of its second loop
    have hstop : r.willStop thread storyId = false := by
      rw [GrapherRun.willStop_of_getElem? hadoption, Adoption.willStop,
        Std.ExtTreeSet.isEmpty_iff.mp hempty, Std.ExtTreeSet.contains_empty]
    rw [GrapherRun.willStop, Std.ExtTreeMap.getElem?_erase]
    by_cases hn : thread = number
    · subst hn
      simp [hstop]
    · simp [hn, GrapherRun.willStop]

theorem Spared.acquisitionsSpared (h : Spared chronicleOf storyId r) :
    AcquisitionsSpared storyId r := by
  refine ⟨h.live, fun hidle p hp hnot => ?_⟩
  obtain hwaiting | ⟨thread, hstop⟩ := h.resident p hp hnot
  · obtain ⟨⟨q, exitTime⟩, hq⟩ := Option.isSome_iff_exists.mp hwaiting
    obtain rfl : q = p := Option.some.inj (((h.consistent storyId).waiting q _ hq).symm.trans hp)
    exact ⟨exitTime, hq⟩
  · rw [GrapherRun.willStop, hidle] at hstop
    simp at hstop

/-- **Adoption leaves the visor's acquisitions alone and leaves nothing behind**, in
every run in which no adopting call is overtaken: by the visor's start of a story that
the call is going to stop, with a story that the call found active by the end of the
pipeline it found, or by the deletion of a chunk before the call has read its story. -/
theorem adoption_spares_acquisitions (storyId : StoryId) {r₀ : GrapherRun}
    {ls : List GrapherStep} (hinit : (grapher chronicleOf).Initial r₀)
    (hcond : (grapher chronicleOf).StepsMeet (KeepsAcquisition chronicleOf storyId) r₀ ls)
    (hrun : (grapher chronicleOf).run r₀ ls = some r) : AcquisitionsSpared storyId r := by
  have hbefore : Spared chronicleOf storyId r₀ := spared_initial hinit
  exact (System.run_induction_of_stepsMeet (fun _ _ _ => spared_step) hbefore hcond
    hrun).acquisitionsSpared

/-- A thread adopts a chunk of a story while another one receives a second chunk, and the
visor acquires the story when the adoption is done. -/
theorem adoption_spares_acquisition_afterwards :
    ∃ r, (grapher fun _ => "climate").run {}
        [.ingestStoryChunk 5 (.new 7 10 20), .pushChunk 5, .extractOrphanChunks 0, .adoptNext 0,
          .ingestStoryChunk 5 (.new 7 20 30), .ingestAdopted 0, .pushChunk 5, .pushAdopted 0,
          .recordAdopted 0 7 7, .endAdoption 0, .stopAdopted 0 7 100,
          .finishAdoption 0, .startStoryRecording 7 50] = some r ∧
      r.live 7 = true ∧ AcquisitionsSpared 7 r := by
  have hlive : ((grapher fun _ => "climate").run {}
      [.ingestStoryChunk 5 (.new 7 10 20), .pushChunk 5, .extractOrphanChunks 0, .adoptNext 0,
        .ingestStoryChunk 5 (.new 7 20 30), .ingestAdopted 0, .pushChunk 5, .pushAdopted 0,
        .recordAdopted 0 7 7, .endAdoption 0, .stopAdopted 0 7 100, .finishAdoption 0,
        .startStoryRecording 7 50]).any
      (fun r => r.live 7) = true := by decide +kernel
  obtain ⟨r, hrun, hlive⟩ := (Option.any_eq_true _ _).mp hlive
  exact ⟨r, hrun, hlive, adoption_spares_acquisitions 7 ⟨300, none, rfl⟩
    (System.stepsMeet_of_check (by decide +kernel)) hrun⟩

/-- A thread receives a chunk of the story. -/
def GrapherStep.received (chunk : StoryChunk) : List GrapherStep :=
  [.ingestStoryChunk 5 chunk, .pushChunk 5]

/-- An adopting call takes its next chunk, of story 7. -/
def GrapherStep.adopted (thread : ℕ) : List GrapherStep :=
  [.adoptNext thread, .ingestAdopted thread, .pushAdopted thread, .recordAdopted thread 7 7]

open GrapherStep in
/-- The visor starts a story between the two loops of an adopting call. -/
def overtakingStart : List GrapherStep :=
  received (.new 7 10 20) ++ extractOrphanChunks 0 :: adopted 0 ++
    [startStoryRecording 7 50, endAdoption 0, stopAdopted 0 7 100]

open GrapherStep in
/-- The second of two adopting calls finds the story active with the pipeline that the
first one made, and takes it off the waiting list with a later chunk. -/
def overtakenAdoption : List GrapherStep :=
  received (.new 7 10 20) ++ extractOrphanChunks 0 :: received (.new 7 20 30) ++
    received (.new 7 30 40) ++ extractOrphanChunks 1 :: adopted 0 ++ adopted 1 ++
    [endAdoption 0, stopAdopted 0 7 100, finishAdoption 0] ++ adopted 1 ++
    [endAdoption 1, finishAdoption 1]

open GrapherStep in
/-- The chunk is merged and deleted before the adopting call reads its story, and the
memory holds another number by then. -/
def deletedChunk : List GrapherStep :=
  received (.new 7 10 20) ++
    [extractOrphanChunks 0, adoptNext 0, ingestAdopted 0, pushAdopted 0, deleteIngested 0,
      recordAdopted 0 9 9, endAdoption 0, stopAdopted 0 9 100, finishAdoption 0]

/-- No adopting call is in progress, and a pipeline that the visor never started is left
behind. -/
def GrapherRun.leftBehind (r : GrapherRun) (storyId : StoryId) : Bool :=
  r.adoptions.isEmpty && ((r.store.theMapOfStoryPipelines[storyId]?).any fun pipeline =>
    !r.visorStarted.contains pipeline) && (r.store.pipelinesWaitingForExit[storyId]?).isNone

theorem not_acquisitionsSpared_of_leftBehind (h : r.leftBehind storyId = true) :
    ¬ AcquisitionsSpared storyId r := by
  simp only [GrapherRun.leftBehind, Bool.and_eq_true, Option.isNone_iff_eq_none, Option.any_eq_true,
    Bool.not_eq_true'] at h
  obtain ⟨⟨hidle, pipeline, hpipeline, hnot⟩, hwaiting⟩ := h
  intro hspared
  obtain ⟨exitTime, hexit⟩ := hspared.leaving (Std.ExtTreeMap.isEmpty_iff.mp hidle) pipeline
    hpipeline (by simpa using hnot)
  rw [hwaiting] at hexit
  cases hexit

/-- **Adopting calls can be overtaken**: an acquired story is put on the waiting list,
and a pipeline that only adoptions made is left behind, by a second call or for a
chunk that is deleted. -/
theorem adoptions_are_overtaken :
    (∃ r, (grapher fun _ => "climate").run {} overtakingStart = some r ∧ r.live 7 = true ∧
        (r.store.pipelinesWaitingForExit[(7 : StoryId)]?).isSome = true) ∧
      (∃ r, (grapher fun _ => "climate").run {} overtakenAdoption = some r ∧
        r.leftBehind 7 = true ∧ ¬ AcquisitionsSpared 7 r) ∧
      ∃ r, (grapher fun _ => "climate").run {} deletedChunk = some r ∧
        r.leftBehind 7 = true ∧ ¬ AcquisitionsSpared 7 r := by
  refine ⟨?_, ?_, ?_⟩
  · have hend : ((grapher fun _ => "climate").run {} overtakingStart).any (fun r =>
        r.live 7 && (r.store.pipelinesWaitingForExit[(7 : StoryId)]?).isSome) = true := by
      decide +kernel
    obtain ⟨r, hrun, hr⟩ := (Option.any_eq_true _ _).mp hend
    exact ⟨r, hrun, by simpa only [Bool.and_eq_true] using hr⟩
  · have hend : ((grapher fun _ => "climate").run {} overtakenAdoption).any (·.leftBehind 7) =
        true := by decide +kernel
    obtain ⟨r, hrun, hr⟩ := (Option.any_eq_true _ _).mp hend
    exact ⟨r, hrun, hr, not_acquisitionsSpared_of_leftBehind hr⟩
  · have hend : ((grapher fun _ => "climate").run {} deletedChunk).any (·.leftBehind 7) = true := by
      decide +kernel
    obtain ⟨r, hrun, hr⟩ := (Option.any_eq_true _ _).mp hend
    exact ⟨r, hrun, hr, not_acquisitionsSpared_of_leftBehind hr⟩

end Acquisitions

end ChronoLog
