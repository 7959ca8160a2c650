import ChronoLog.Event
import ChronoLog.Grapher.WatermarkRegistry

/-!
# The grapher's data store

`GrapherDataStore` keeps one pipeline for each story it records.  The visor starts
and stops recordings and destroys stories and chronicles.  A pipeline that is
stopped goes on a waiting list and is retired when its exit time has passed.  A
chunk that finds no pipeline is an orphan; the collection threads adopt orphans
by starting a recording from the chunk's own names, unless a tombstone says that
the story or its chronicle was destroyed.

Every method but `adoptOrphanChunks` runs under `dataStoreMutex` and is one step
here; the ingestion queue's `ingestStoryChunk` runs without it and is two.  The clock is
an argument of the methods that read it.  What happens inside a pipeline (its timeline,
and what it hands to the extraction queue) is left out: a pipeline is its names and the
number of its incarnation.

## Main definitions

* `ChunkIngestionQueue` — the handles of the pipelines and the orphans.
* `GrapherDataStore` — the state, with one definition per method of the source
  under the source's name.
-/

namespace ChronoLog

abbrev ChronicleName := String

/-- A pipeline of the grapher. -/
structure StoryPipeline where
  chronicleName : ChronicleName
  storyId : StoryId
  startTime : ℕ
  /-- The pipelines of a process are numbered in the order they are made. -/
  incarnation : ℕ
  deriving DecidableEq, Repr

/-- The ingestion queue.  A handle is named by the incarnation of its pipeline. -/
structure ChunkIngestionQueue where
  storyIngestionHandles : OrdMap StoryId ℕ := ∅
  /-- The chunks of stories that have no handle. -/
  orphanQueue : List StoryChunk := []
  /-- The chunks the handles took, in order. -/
  ingested : List (ℕ × StoryChunk) := []

namespace ChunkIngestionQueue

variable (q : ChunkIngestionQueue)

/-- `addStoryIngestionHandle`; a handle that is there stays. -/
def addStoryIngestionHandle (storyId : StoryId) (handle : ℕ) : ChunkIngestionQueue :=
  { q with storyIngestionHandles := q.storyIngestionHandles.insertIfNew storyId handle }

/-- `removeStoryIngestionHandle`. -/
def removeStoryIngestionHandle (storyId : StoryId) : ChunkIngestionQueue :=
  { q with storyIngestionHandles := q.storyIngestionHandles.erase storyId }

/-- The first part of `ingestStoryChunk`: the story's handle, looked up without the
lock. -/
def findHandle (storyId : StoryId) : Option ℕ := q.storyIngestionHandles[storyId]?

/-- The second part: to the handle that was found, or to the orphans. -/
def pushChunk (handle : Option ℕ) (chunk : StoryChunk) : ChunkIngestionQueue :=
  match handle with
  | some handle => { q with ingested := q.ingested ++ [(handle, chunk)] }
  | none => { q with orphanQueue := q.orphanQueue ++ [chunk] }

/-- `drainOrphanChunks`: the orphans that have a handle now go there. -/
def drainOrphanChunks : ChunkIngestionQueue :=
  { q with
    orphanQueue := q.orphanQueue.filter fun chunk =>
      !q.storyIngestionHandles.contains chunk.storyId
    ingested := q.ingested ++ q.orphanQueue.filterMap fun chunk =>
      (q.storyIngestionHandles[chunk.storyId]?).map fun handle => (handle, chunk) }

/-- `extractOrphanChunks`: the orphans, and the queue without them. -/
def extractOrphanChunks : List StoryChunk × ChunkIngestionQueue :=
  (q.orphanQueue, { q with orphanQueue := [] })

end ChunkIngestionQueue

/-- What a destroy leaves to the destroy worker. -/
structure DestroyTask where
  chronicleName : ChronicleName
  /-- The destroyed story; `none` for a whole chronicle. -/
  storyId : Option StoryId
  /-- The files of pipelines up to this incarnation are deleted. -/
  incarnationBound : ℕ
  pipelines : List StoryPipeline

/-- The data store's state. -/
structure GrapherDataStore where
  inactivePipelineDelaySecs : ℕ := 300
  theIngestionQueue : ChunkIngestionQueue := {}
  theWatermarkRegistry : Option StoryWatermarkRegistry := none
  theMapOfStoryPipelines : OrdMap StoryId StoryPipeline := ∅
  /-- The pipelines that wait to be retired, with their exit times. -/
  pipelinesWaitingForExit : OrdMap StoryId (StoryPipeline × ℕ) := ∅
  destroyedStories : OrdSet StoryId := ∅
  destroyedChronicles : OrdSet ChronicleName := ∅
  /-- `StoryPipeline::currentIncarnation`. -/
  currentIncarnation : ℕ := 0
  destroyQueue : List DestroyTask := []

namespace GrapherDataStore

/-- A tombstone stands for the story or for its chronicle. -/
def tombstoned (g : GrapherDataStore) (chronicle : ChronicleName) (storyId : StoryId) : Bool :=
  g.destroyedStories.contains storyId || g.destroyedChronicles.contains chronicle

/-- A real registration means that the story and its chronicle are alive again. -/
def clearTombstones (g : GrapherDataStore) (chronicle : ChronicleName) (storyId : StoryId) :
    GrapherDataStore :=
  { g with
    destroyedStories := g.destroyedStories.erase storyId
    destroyedChronicles := g.destroyedChronicles.erase chronicle }

/-- The part of `startStoryRecording` for a story that is being recorded: it comes
off the waiting list. -/
def rescue (g : GrapherDataStore) (storyId : StoryId) (startTime : ℕ) : GrapherDataStore :=
  { g with
    pipelinesWaitingForExit := g.pipelinesWaitingForExit.erase storyId
    theWatermarkRegistry :=
      g.theWatermarkRegistry.map fun r => r.registerStory storyId startTime false }

/-- The pipeline that `startStoryRecording` makes. -/
def newPipeline (g : GrapherDataStore) (chronicle : ChronicleName) (storyId : StoryId)
    (startTime : ℕ) : StoryPipeline where
  chronicleName := chronicle
  storyId := storyId
  startTime := startTime
  incarnation := g.currentIncarnation + 1

/-- The part of `startStoryRecording` for a story that is not being recorded. -/
def createPipeline (g : GrapherDataStore) (chronicle : ChronicleName) (storyId : StoryId)
    (startTime : ℕ) (isAdoption : Bool) : GrapherDataStore :=
  { g with
    currentIncarnation := g.currentIncarnation + 1
    theMapOfStoryPipelines :=
      g.theMapOfStoryPipelines.insert storyId (g.newPipeline chronicle storyId startTime)
    theWatermarkRegistry :=
      g.theWatermarkRegistry.map fun r => r.registerStory storyId startTime (!isAdoption)
    theIngestionQueue :=
      g.theIngestionQueue.addStoryIngestionHandle storyId (g.currentIncarnation + 1) }

/-- `startStoryRecording`, with `out_was_active`; `none` if the recording is
refused. -/
def startStoryRecording (g : GrapherDataStore) (chronicle : ChronicleName) (storyId : StoryId)
    (startTime : ℕ) (isAdoption : Bool) : GrapherDataStore × Option Bool :=
  if isAdoption && g.tombstoned chronicle storyId then (g, none)
  else
    let g := if isAdoption then g else g.clearTombstones chronicle storyId
    if g.theMapOfStoryPipelines.contains storyId then
      (g.rescue storyId startTime, some (!g.pipelinesWaitingForExit.contains storyId))
    else (g.createPipeline chronicle storyId startTime isAdoption, some false)

/-- `stopStoryRecording`: the pipeline goes on the waiting list. -/
def stopStoryRecording (g : GrapherDataStore) (storyId : StoryId) (now : ℕ) : GrapherDataStore :=
  match g.theMapOfStoryPipelines[storyId]? with
  | none => g
  | some pipeline =>
    let exitTime := (now + g.inactivePipelineDelaySecs * 1000000000) % 2 ^ 64
    { g with
      pipelinesWaitingForExit := g.pipelinesWaitingForExit.insert storyId (pipeline, exitTime) }

/-- Take the handle of a story that is destroyed or retired. -/
def unhook (g : GrapherDataStore) (storyId : StoryId) : GrapherDataStore :=
  { g with theIngestionQueue := g.theIngestionQueue.removeStoryIngestionHandle storyId }

/-- `theWatermarkRegistry->dropStory`. -/
def reportDropped (g : GrapherDataStore) (storyId : StoryId) : GrapherDataStore :=
  { g with theWatermarkRegistry := g.theWatermarkRegistry.map fun r => r.dropStory storyId }

/-- `drainOrphanChunks` on the ingestion queue. -/
def drainOrphanChunks (g : GrapherDataStore) : GrapherDataStore :=
  { g with theIngestionQueue := g.theIngestionQueue.drainOrphanChunks }

/-- `destroyStory`, up to the work of the destroy worker. -/
def destroyStory (g : GrapherDataStore) (storyId : StoryId) (chronicle : ChronicleName) :
    GrapherDataStore :=
  let bound := g.currentIncarnation
  let g := { g with destroyedStories := g.destroyedStories.insert storyId }
  let g := g.reportDropped storyId
  let pipeline := match g.theMapOfStoryPipelines[storyId]? with
    | some pipeline => some pipeline
    | none => (g.pipelinesWaitingForExit[storyId]?).map Prod.fst
  let g :=
    { g with
      theMapOfStoryPipelines := g.theMapOfStoryPipelines.erase storyId
      pipelinesWaitingForExit := g.pipelinesWaitingForExit.erase storyId }
  let g := if pipeline.isSome then g.drainOrphanChunks.unhook storyId else g
  { g with
    destroyQueue := g.destroyQueue ++
      [{ chronicleName := chronicle, storyId := some storyId, incarnationBound := bound,
         pipelines := pipeline.toList }] }

/-- The recorded pipelines of a chronicle. -/
def recordedOf (g : GrapherDataStore) (chronicle : ChronicleName) :
    List (StoryId × StoryPipeline) :=
  g.theMapOfStoryPipelines.toList.filter fun entry => entry.2.chronicleName = chronicle

/-- The pipelines of a chronicle that are on the waiting list only. -/
def waitingOf (g : GrapherDataStore) (chronicle : ChronicleName) : List (StoryId × StoryPipeline) :=
  (g.pipelinesWaitingForExit.toList.filter fun entry =>
      entry.2.1.chronicleName = chronicle ∧ entry.1 ∉ (g.recordedOf chronicle).map Prod.fst).map
    fun entry => (entry.1, entry.2.1)

/-- `destroyChronicle`, up to the work of the destroy worker. -/
def destroyChronicle (g : GrapherDataStore) (chronicle : ChronicleName) : GrapherDataStore :=
  let bound := g.currentIncarnation
  let unhooked := g.recordedOf chronicle ++ g.waitingOf chronicle
  let recorded := (g.recordedOf chronicle).map Prod.fst
  let g :=
    { g with
      destroyedChronicles := g.destroyedChronicles.insert chronicle
      theMapOfStoryPipelines := g.theMapOfStoryPipelines.filter fun _ pipeline =>
        pipeline.chronicleName ≠ chronicle
      pipelinesWaitingForExit := g.pipelinesWaitingForExit.filter fun storyId entry =>
        storyId ∉ recorded ∧ entry.1.chronicleName ≠ chronicle }
  let g := if unhooked.isEmpty then g else g.drainOrphanChunks
  let g := (unhooked.map Prod.fst).foldl unhook g
  let g := (unhooked.map Prod.fst).foldl reportDropped g
  { g with
    destroyQueue := g.destroyQueue ++
      [{ chronicleName := chronicle, storyId := none, incarnationBound := bound,
         pipelines := unhooked.map Prod.snd }] }

/-- `retireDecayedPipelines`, for one pipeline whose exit time has passed. -/
def retire (g : GrapherDataStore) (entry : StoryId × StoryPipeline × ℕ) : GrapherDataStore :=
  { g with
    theMapOfStoryPipelines := g.theMapOfStoryPipelines.erase entry.2.1.storyId
    theIngestionQueue := g.theIngestionQueue.removeStoryIngestionHandle entry.2.1.storyId
    pipelinesWaitingForExit := g.pipelinesWaitingForExit.erase entry.1 }

/-- `retireDecayedPipelines`. -/
def retireDecayedPipelines (g : GrapherDataStore) (currentTime : ℕ) : GrapherDataStore :=
  if g.theMapOfStoryPipelines.isEmpty then g
  else
    (g.pipelinesWaitingForExit.toList.filter fun entry => entry.2.2 ≤ currentTime).foldl retire g

end GrapherDataStore

end ChronoLog
