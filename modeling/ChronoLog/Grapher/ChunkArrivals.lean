import ChronoLog.Grapher.StoryLife
import ChronoLog.Lib.Transition

/-!
# Where a received chunk is

A chunk that arrives at a grapher goes to the deques of its story's ingestion handle, or to
the orphan queue if the story has none.  The handle is looked up without the queue's lock,
and the chunk is pushed later under the handle's own lock; the collection threads, which
retire pipelines and delete their handles, may come in between.

The pipelines, the handles of the stories and the tombstones are `GrapherDataStore`; this
module adds the chunks themselves: the deques of every handle, the orphan queue, and the
hands of the threads that receive and adopt.  Chunks are numbered as they arrive, so that two
equal chunks stay apart.  A handle is named by the incarnation of its pipeline, and a chunk
that is pushed to a handle that was deleted is lost.  The stops at the end of an adoption
are among the calls of `stopStoryRecording`, which may come at any time.

Which stories are destroyed is kept beside the tombstones: a destroy of the story or of its
chronicle makes it so, and a start by the visor ends it.  A chunk that is discarded is noted
with what was so of its story then.

## Main definitions

* `Handle` — `StoryChunkIngestionHandle`.
* `ChunkArrivals`, `ArrivalStep`, `chunkArrivals` — the state, the steps, and the runs.
* `ChunkArrivals.places` — every place a received chunk can be in.
* `FinalizesUnheld` — a step finalizes no pipeline whose handle a thread has looked up.

## Main results

* `chunks_conserved` — in a run whose steps all finalize only such pipelines, every received
  chunk is in exactly one place, only chunks of destroyed stories were discarded, and none is
  pushed to a deleted handle.
* `late_push_loses_chunk` — without the condition a chunk is lost.
-/

namespace ChronoLog

open Transition

/-- A chunk that arrived, with its number. -/
structure Arrival where
  number : ℕ
  chunk : StoryChunk

/-- `StoryChunkIngestionHandle`, with its story. -/
structure Handle where
  storyId : StoryId
  activeDeque : List Arrival := []
  passiveDeque : List Arrival := []

namespace Handle

/-- `ingestChunk`. -/
def ingestChunk (handle : Handle) (a : Arrival) : Handle :=
  { handle with activeDeque := handle.activeDeque ++ [a] }

/-- `swapActiveDeque`. -/
def swapActiveDeque (handle : Handle) : Handle :=
  if !handle.passiveDeque.isEmpty || handle.activeDeque.isEmpty then handle
  else
    { handle with activeDeque := handle.passiveDeque, passiveDeque := handle.activeDeque }

/-- Everything in the handle, in the order in which `finalize` merges it. -/
def content (handle : Handle) : List Arrival := handle.passiveDeque ++ handle.activeDeque

end Handle

/-- A thread in `ingestStoryChunk`, between its lookup and its push. -/
structure Receiving where
  arrival : Arrival
  /-- The handle the lookup found. -/
  found : Option ℕ

/-- A thread in `adoptOrphanChunks`. -/
inductive Adopting where
  /-- Before the next chunk. -/
  | next (orphanChunks : List Arrival)
  /-- With a chunk whose recording is started. -/
  | started (a : Arrival) (orphanChunks : List Arrival)
  /-- With a chunk whose handle is looked up. -/
  | looked (receiving : Receiving) (orphanChunks : List Arrival)

namespace Adopting

/-- The chunks in the hands of the thread. -/
def hands : Adopting → List Arrival
  | next orphanChunks => orphanChunks
  | started a orphanChunks => a :: orphanChunks
  | looked receiving orphanChunks => receiving.arrival :: orphanChunks

/-- The handle the thread has looked up and is going to push to. -/
def receiving? : Adopting → Option Receiving
  | looked receiving _ => some receiving
  | _ => none

end Adopting

/-- The grapher's chunks. -/
structure ChunkArrivals where
  store : GrapherDataStore := {}
  orphanQueue : List Arrival := []
  /-- The handles that are not deleted. -/
  handles : OrdMap ℕ Handle := ∅
  /-- The threads in `ingestStoryChunk`. -/
  receiving : OrdMap ℕ Receiving := ∅
  /-- The threads in `adoptOrphanChunks`. -/
  adopting : OrdMap ℕ Adopting := ∅
  /-- Pipelines a destroy has unhooked and not finalized yet. -/
  finalizing : List ℕ := []
  /-- The chunks merged into the pipeline of a story. -/
  merged : List (StoryId × Arrival) := []
  /-- The chunks an adoption refused, and whether their stories were destroyed then. -/
  discarded : List (Arrival × Bool) := []
  /-- The last call of the visor that concerns the story was a destroy. -/
  destroyed : StoryId → Bool := fun _ => false
  /-- The chunks pushed to a handle that was deleted. -/
  lost : List Arrival := []
  /-- The chunks `ingestStoryChunk` has returned for. -/
  received : List Arrival := []
  arrivals : ℕ := 0

namespace ChunkArrivals

/-- The handle of a story. -/
def handleOf (f : ChunkArrivals) (storyId : StoryId) : Option ℕ :=
  f.store.theIngestionQueue.storyIngestionHandles[storyId]?

/-- The push under the handle's lock. -/
def pushTo (f : ChunkArrivals) (handle : ℕ) (a : Arrival) : ChunkArrivals :=
  match f.handles[handle]? with
  | some h => { f with handles := f.handles.insert handle (h.ingestChunk a) }
  | none => { f with lost := f.lost ++ [a] }

/-- The second part of `ingestStoryChunk`. -/
def push (f : ChunkArrivals) (r : Receiving) : ChunkArrivals :=
  match r.found with
  | some handle => f.pushTo handle r.arrival
  | none => { f with orphanQueue := f.orphanQueue ++ [r.arrival] }

/-- `drainOrphanChunks`, which holds the queue's lock. -/
def drainOrphanChunks (f : ChunkArrivals) : ChunkArrivals :=
  f.orphanQueue.foldl (fun f a => f.push ⟨a, f.handleOf a.chunk.storyId⟩)
    { f with orphanQueue := [] }

/-- `collectIngestedEvents` of a pipeline. -/
def collect (f : ChunkArrivals) (p : StoryPipeline) : ChunkArrivals :=
  match f.handles[p.incarnation]? with
  | none => f
  | some h =>
    let h := h.swapActiveDeque
    { f with
      handles := f.handles.insert p.incarnation { h with passiveDeque := [] }
      merged := f.merged ++ h.passiveDeque.map fun a => (p.storyId, a) }

/-- `finalize` of a pipeline: what is left in its handle is merged, and the handle
deleted. -/
def finalize (f : ChunkArrivals) (handle : ℕ) : ChunkArrivals :=
  match f.handles[handle]? with
  | none => f
  | some h =>
    { f with
      handles := f.handles.erase handle
      merged := f.merged ++ h.content.map fun a => (h.storyId, a) }

/-- `startStoryRecording`; a pipeline that is made comes with its handle. -/
def startStoryRecording (f : ChunkArrivals) (chronicle : ChronicleName) (storyId : StoryId)
    (startTime : ℕ) (isAdoption : Bool) : ChunkArrivals × Option Bool :=
  let (store, result) := f.store.startStoryRecording chronicle storyId startTime isAdoption
  let made := store.currentIncarnation
  ({ f with
      store := store
      handles := if made = f.store.currentIncarnation then f.handles
        else f.handles.insert made { storyId := storyId } }, result)

/-- The part of a destroy that takes pipelines out: orphans are placed, the pipelines
collected, and their finalization is left for later. -/
def unhookAll (f : ChunkArrivals) (pipelines : List StoryPipeline) (store : GrapherDataStore) :
    ChunkArrivals :=
  let f := if pipelines.isEmpty then f else f.drainOrphanChunks
  let f := pipelines.foldl collect f
  { f with
    store := store
    finalizing := f.finalizing ++ pipelines.map StoryPipeline.incarnation }

/-- The pipeline of a story, recorded or waiting. -/
def pipelineOf (f : ChunkArrivals) (storyId : StoryId) : Option StoryPipeline :=
  match f.store.theMapOfStoryPipelines[storyId]? with
  | some p => some p
  | none => (f.store.pipelinesWaitingForExit[storyId]?).map Prod.fst

/-- The pipelines of a chronicle, recorded or waiting. -/
def pipelinesOf (f : ChunkArrivals) (chronicle : ChronicleName) : List StoryPipeline :=
  (f.store.recordedOf chronicle ++ f.store.waitingOf chronicle).map Prod.snd

/-- The handles of the pipelines that `retireDecayedPipelines` retires. -/
def retired (f : ChunkArrivals) (currentTime : ℕ) : List ℕ :=
  if f.store.theMapOfStoryPipelines.isEmpty then []
  else
    (f.store.pipelinesWaitingForExit.toList.filter fun entry => entry.2.2 ≤ currentTime).map
      fun entry => entry.2.1.incarnation

end ChunkArrivals

/-- A step of the grapher. -/
inductive ArrivalStep where
  | startStoryRecording (storyId : StoryId) (startTime : ℕ)
  | stopStoryRecording (storyId : StoryId) (now : ℕ)
  | destroyStory (storyId : StoryId)
  | destroyChronicle (chronicle : ChronicleName)
  /-- A destroy finalizes a pipeline it has unhooked, outside the lock. -/
  | finalize (handle : ℕ)
  | retireDecayedPipelines (now : ℕ)
  | drainOrphanChunks
  /-- `collectIngestedEvents` reaches the pipeline of a story. -/
  | collectIngestedEvents (storyId : StoryId)
  /-- `ingestStoryChunk` looks the handle up. -/
  | receive (thread : ℕ) (chunk : StoryChunk)
  /-- `ingestStoryChunk` pushes the chunk and returns. -/
  | push (thread : ℕ)
  | extractOrphanChunks (thread : ℕ)
  | adoptNext (thread : ℕ)
  | adoptLookup (thread : ℕ)
  | adoptPush (thread : ℕ)
  | finishAdoption (thread : ℕ)

/-- The state after a step. -/
def ChunkArrivals.step (chronicleOf : StoryId → ChronicleName) (f : ChunkArrivals) :
    ArrivalStep → Option ChunkArrivals
  | .startStoryRecording storyId startTime =>
    some { (f.startStoryRecording (chronicleOf storyId) storyId startTime false).1 with
      destroyed := fun other => other ≠ storyId && f.destroyed other }
  | .stopStoryRecording storyId now =>
    some { f with store := f.store.stopStoryRecording storyId now }
  | .destroyStory storyId =>
    some { f.unhookAll (f.pipelineOf storyId).toList
        (f.store.destroyStory storyId (chronicleOf storyId)) with
      destroyed := fun other => other = storyId || f.destroyed other }
  | .destroyChronicle chronicle =>
    some { f.unhookAll (f.pipelinesOf chronicle) (f.store.destroyChronicle chronicle) with
      destroyed := fun other => chronicleOf other = chronicle || f.destroyed other }
  | .finalize handle =>
    if handle ∈ f.finalizing then
      some { f.finalize handle with finalizing := f.finalizing.erase handle }
    else none
  | .retireDecayedPipelines now =>
    some { (f.retired now).foldl finalize f with store := f.store.retireDecayedPipelines now }
  | .drainOrphanChunks => some f.drainOrphanChunks
  | .collectIngestedEvents storyId =>
    (f.store.theMapOfStoryPipelines[storyId]?).map f.collect
  | .receive thread chunk =>
    match f.receiving[thread]? with
    | some _ => none
    | none =>
      let r : Receiving := ⟨⟨f.arrivals, chunk⟩, f.handleOf chunk.storyId⟩
      some { f with receiving := f.receiving.insert thread r, arrivals := f.arrivals + 1 }
  | .push thread =>
    (f.receiving[thread]?).map fun r =>
      { f.push r with
        receiving := f.receiving.erase thread
        received := f.received ++ [r.arrival] }
  | .extractOrphanChunks thread =>
    match f.adopting[thread]? with
    | some _ => none
    | none =>
      some { f with orphanQueue := [], adopting := f.adopting.insert thread (.next f.orphanQueue) }
  | .adoptNext thread =>
    match f.adopting[thread]? with
    | some (.next (a :: orphanChunks)) =>
      match f.startStoryRecording (chronicleOf a.chunk.storyId) a.chunk.storyId a.chunk.startTime
          true with
      | (f, none) =>
        some { f with
          store := f.store.reportDropped a.chunk.storyId
          discarded := f.discarded ++ [(a, f.destroyed a.chunk.storyId)]
          adopting := f.adopting.insert thread (.next orphanChunks) }
      | (f, some _) =>
        some { f with adopting := f.adopting.insert thread (.started a orphanChunks) }
    | _ => none
  | .adoptLookup thread =>
    match f.adopting[thread]? with
    | some (.started a orphanChunks) =>
      let r : Receiving := ⟨a, f.handleOf a.chunk.storyId⟩
      some { f with adopting := f.adopting.insert thread (.looked r orphanChunks) }
    | _ => none
  | .adoptPush thread =>
    match f.adopting[thread]? with
    | some (.looked r orphanChunks) =>
      some { f.push r with adopting := f.adopting.insert thread (.next orphanChunks) }
    | _ => none
  | .finishAdoption thread =>
    match f.adopting[thread]? with
    | some (.next []) => some { f with adopting := f.adopting.erase thread }
    | _ => none

/-- The grapher, with the chronicle of every story id. -/
def chunkArrivals (chronicleOf : StoryId → ChronicleName) : System ChunkArrivals ArrivalStep where
  Initial f := ∃ delay registry, f = { store :=
    { inactivePipelineDelaySecs := delay, theWatermarkRegistry := registry } }
  step := ChunkArrivals.step chronicleOf

namespace ChunkArrivals

/-- The chunks in the deques of the handles. -/
def inDeques (f : ChunkArrivals) : List Arrival :=
  f.handles.toList.flatMap fun entry => entry.2.content

/-- The chunks in the hands of the adopting threads. -/
def inHands (f : ChunkArrivals) : List Arrival :=
  f.adopting.toList.flatMap fun entry => entry.2.hands

/-- Every place a received chunk can be in. -/
def places (f : ChunkArrivals) : List Arrival :=
  f.orphanQueue ++ f.inDeques ++ f.inHands ++ f.merged.map Prod.snd ++
    f.discarded.map Prod.fst

/-- A thread has looked up the handle and not pushed to it yet. -/
def heldHandles (f : ChunkArrivals) : List ℕ :=
  f.receiving.toList.filterMap (fun entry => entry.2.found) ++
    f.adopting.toList.filterMap fun entry => entry.2.receiving?.bind Receiving.found

/-- The handles a step finalizes. -/
def finalizedBy (f : ChunkArrivals) : ArrivalStep → List ℕ
  | .finalize handle => [handle]
  | .retireDecayedPipelines now => f.retired now
  | _ => []

end ChunkArrivals

/-- The step finalizes no pipeline whose handle a thread has looked up and not pushed to
yet. -/
def FinalizesUnheld (f : ChunkArrivals) (l : ArrivalStep) : Prop :=
  ∀ handle ∈ f.finalizedBy l, handle ∉ f.heldHandles

instance (f : ChunkArrivals) (l : ArrivalStep) : Decidable (FinalizesUnheld f l) :=
  inferInstanceAs (Decidable (∀ handle ∈ f.finalizedBy l, handle ∉ f.heldHandles))

/-! ### What the steps do to the handles and the places -/

namespace ChunkArrivals

variable {f f' : ChunkArrivals} {h : ℕ} {storyId : StoryId} {a : Arrival} {r : Receiving}

/-- The handle is not deleted and is the story's. -/
def Live (f : ChunkArrivals) (h : ℕ) (storyId : StoryId) : Prop :=
  ∃ handle, f.handles[h]? = some handle ∧ handle.storyId = storyId

/-- The chunks in the deques of a handle are of its story, and so are those merged. -/
structure Sorted (f : ChunkArrivals) : Prop where
  deques : ∀ (h : ℕ) (handle : Handle), f.handles[h]? = some handle →
    ∀ a ∈ handle.content, a.chunk.storyId = handle.storyId
  merged : ∀ entry ∈ f.merged, entry.2.chunk.storyId = entry.1

/-- Only the queue, the handles and the pipelines differ. -/
structure Beside (f f' : ChunkArrivals) : Prop where
  store : f'.store = f.store
  receiving : f'.receiving = f.receiving
  adopting : f'.adopting = f.adopting
  finalizing : f'.finalizing = f.finalizing
  discarded : f'.discarded = f.discarded
  destroyed : f'.destroyed = f.destroyed
  received : f'.received = f.received
  arrivals : f'.arrivals = f.arrivals
  lost : f'.lost = f.lost

theorem Beside.refl (f : ChunkArrivals) : Beside f f :=
  ⟨rfl, rfl, rfl, rfl, rfl, rfl, rfl, rfl, rfl⟩

theorem Beside.trans {f'' : ChunkArrivals} (h : Beside f f') (h' : Beside f' f'') : Beside f f'' :=
  ⟨h'.store.trans h.store, h'.receiving.trans h.receiving, h'.adopting.trans h.adopting,
    h'.finalizing.trans h.finalizing, h'.discarded.trans h.discarded,
    h'.destroyed.trans h.destroyed, h'.received.trans h.received, h'.arrivals.trans h.arrivals,
    h'.lost.trans h.lost⟩

/-- The handles are the same as well. -/
structure Kept (f f' : ChunkArrivals) : Prop extends Beside f f' where
  live : ∀ h storyId, f'.Live h storyId ↔ f.Live h storyId

theorem Kept.refl (f : ChunkArrivals) : Kept f f := ⟨Beside.refl f, fun _ _ => Iff.rfl⟩

theorem Kept.trans {f'' : ChunkArrivals} (h : Kept f f') (h' : Kept f' f'') : Kept f f'' :=
  ⟨h.toBeside.trans h'.toBeside, fun x y => (h'.live x y).trans (h.live x y)⟩

theorem Beside.handleOf (h : Beside f f') (storyId : StoryId) :
    f'.handleOf storyId = f.handleOf storyId := by
  rw [ChunkArrivals.handleOf, h.store, ChunkArrivals.handleOf]

/-- A handle gets another content. -/
theorem live_insert {handle : Handle} (hlive : f.handles[h]? = some handle) (handle' : Handle)
    (hstory : handle'.storyId = handle.storyId) (merged : List (StoryId × Arrival)) (h' : ℕ)
    (storyId : StoryId) :
    ({ f with handles := f.handles.insert h handle', merged := merged } : ChunkArrivals).Live
      h' storyId ↔ f.Live h' storyId := by
  unfold Live
  simp only [Std.ExtTreeMap.getElem?_insert]
  by_cases heq : h = h'
  · subst heq
    simp [hlive, hstory]
  · simp [heq]

/-- The deques after a handle got another content. -/
theorem inDeques_insert {handle : Handle} (hlive : f.handles[h]? = some handle) (handle' : Handle)
    (merged : List (StoryId × Arrival)) :
    (({ f with handles := f.handles.insert h handle', merged := merged } :
      ChunkArrivals).inDeques ++ handle.content).Perm (f.inDeques ++ handle'.content) :=
  OrderedMap.perm_flatMap_replace (fun entry : ℕ × Handle => entry.2.content) hlive handle'

/-- The deques after a handle was deleted. -/
theorem inDeques_erase {handle : Handle} (hlive : f.handles[h]? = some handle)
    (merged : List (StoryId × Arrival)) :
    (({ f with handles := f.handles.erase h, merged := merged } : ChunkArrivals).inDeques ++
      handle.content).Perm f.inDeques := by
  have hbefore := OrderedMap.perm_flatMap_of_getElem? (fun entry : ℕ × Handle => entry.2.content)
    hlive
  exact List.perm_append_comm.trans hbefore.symm

/-! #### Pushing -/

theorem pushTo_of_live {handle : Handle} (hlive : f.handles[h]? = some handle) :
    f.pushTo h a = { f with handles := f.handles.insert h (handle.ingestChunk a) } := by
  simp only [pushTo, hlive]

theorem content_ingestChunk (handle : Handle) (a : Arrival) :
    (handle.ingestChunk a).content = handle.content ++ [a] := by
  simp [Handle.content, Handle.ingestChunk]

theorem kept_pushTo (hlive : f.Live h storyId) : Kept f (f.pushTo h a) := by
  obtain ⟨handle, hhandle, -⟩ := hlive
  rw [pushTo_of_live hhandle]
  exact ⟨⟨rfl, rfl, rfl, rfl, rfl, rfl, rfl, rfl, rfl⟩,
    live_insert hhandle (handle.ingestChunk a) rfl f.merged⟩

theorem places_pushTo (hlive : f.Live h storyId) :
    (f.pushTo h a).places.Perm (f.places ++ [a]) := by
  obtain ⟨handle, hhandle, -⟩ := hlive
  rw [pushTo_of_live hhandle]
  have hdeques := inDeques_insert hhandle (handle.ingestChunk a) f.merged
  rw [content_ingestChunk] at hdeques
  classical
  refine List.perm_iff_count.mpr fun x => ?_
  have hcount := hdeques.count_eq x
  simp only [places, List.count_append, inHands] at hcount ⊢
  omega

theorem sorted_insert {handle : Handle} {merged : List (StoryId × Arrival)}
    (hs : f.Sorted) (hcontent : ∀ a ∈ handle.content, a.chunk.storyId = handle.storyId)
    (hmerged : ∀ entry ∈ merged, entry.2.chunk.storyId = entry.1) :
    ({ f with handles := f.handles.insert h handle, merged := merged } : ChunkArrivals).Sorted := by
  refine ⟨fun h' handle' hhandle' => ?_, hmerged⟩
  rw [Std.ExtTreeMap.getElem?_insert] at hhandle'
  split at hhandle'
  · injection hhandle' with heq
    rw [← heq]
    exact hcontent
  · exact hs.deques h' handle' hhandle'

theorem sorted_pushTo (hlive : f.Live h a.chunk.storyId) (hs : f.Sorted) :
    (f.pushTo h a).Sorted := by
  obtain ⟨handle, hhandle, hstory⟩ := hlive
  rw [pushTo_of_live hhandle]
  refine sorted_insert hs (fun b hb => ?_) hs.merged
  rw [content_ingestChunk] at hb
  rcases List.mem_append.mp hb with hb | hb
  · exact hs.deques h handle hhandle b hb
  · rw [List.mem_singleton.mp hb]
    exact hstory.symm

/-- The handle that was found is not deleted. -/
def FoundLive (f : ChunkArrivals) (r : Receiving) : Prop :=
  ∀ h, r.found = some h → f.Live h r.arrival.chunk.storyId

/-- **A push puts the chunk in one more place.** -/
theorem push_spec (hr : f.FoundLive r) (hs : f.Sorted) :
    Kept f (f.push r) ∧ (f.push r).places.Perm (f.places ++ [r.arrival]) ∧ (f.push r).Sorted := by
  unfold push
  split
  · next h hfound =>
    have hlive := hr h hfound
    exact ⟨kept_pushTo hlive, places_pushTo hlive, sorted_pushTo hlive hs⟩
  · refine ⟨⟨⟨rfl, rfl, rfl, rfl, rfl, rfl, rfl, rfl, rfl⟩, fun _ _ => Iff.rfl⟩, ?_,
      ⟨hs.deques, hs.merged⟩⟩
    classical
    refine List.perm_iff_count.mpr fun x => ?_
    simp only [places, List.count_append, inDeques, inHands]
    omega

/-! #### Draining, collecting and finalizing -/

/-- **The orphans that have a handle go there, and nothing else changes.** -/
theorem drain_spec (hlive : ∀ storyId h, f.handleOf storyId = some h → f.Live h storyId)
    (hs : f.Sorted) :
    Kept f f.drainOrphanChunks ∧ f.drainOrphanChunks.places.Perm f.places ∧
      f.drainOrphanChunks.Sorted := by
  -- by induction on the orphans still to be placed
  have hfold : ∀ (orphans : List Arrival) (g : ChunkArrivals), Kept f g → g.Sorted →
      let g' := orphans.foldl (fun g a => g.push ⟨a, g.handleOf a.chunk.storyId⟩) g
      Kept f g' ∧ g'.places.Perm (g.places ++ orphans) ∧ g'.Sorted := by
    intro orphans
    induction orphans with
    | nil => exact fun g hkept hsg => ⟨hkept, by simp, hsg⟩
    | cons a orphans ih =>
      intro g hkept hsg
      -- no push changes which handles there are
      have hfound : g.FoundLive ⟨a, g.handleOf a.chunk.storyId⟩ := by
        intro h hh
        rw [hkept.handleOf] at hh
        exact (hkept.live h _).mpr (hlive _ h hh)
      obtain ⟨hkept', hplaces, hsg'⟩ := push_spec hfound hsg
      obtain ⟨hkept'', hplaces', hs''⟩ := ih _ (hkept.trans hkept') hsg'
      refine ⟨hkept'', hplaces'.trans ?_, hs''⟩
      refine (hplaces.append_right orphans).trans ?_
      rw [List.append_assoc]
      rfl
  obtain ⟨hkept, hplaces, hsorted⟩ := hfold f.orphanQueue { f with orphanQueue := [] }
    ⟨⟨rfl, rfl, rfl, rfl, rfl, rfl, rfl, rfl, rfl⟩, fun _ _ => Iff.rfl⟩ ⟨hs.deques, hs.merged⟩
  refine ⟨hkept, hplaces.trans ?_, hsorted⟩
  classical
  refine List.perm_iff_count.mpr fun x => ?_
  simp only [places, List.count_append, inDeques, inHands, List.count_nil]
  omega

theorem content_swapActiveDeque (handle : Handle) :
    (handle.swapActiveDeque.content).Perm handle.content ∧
      handle.swapActiveDeque.storyId = handle.storyId := by
  unfold Handle.swapActiveDeque
  split
  · exact ⟨List.Perm.refl _, rfl⟩
  · exact ⟨List.perm_append_comm, rfl⟩

/-- **Collecting merges chunks into the pipeline of their story.** -/
theorem collect_spec {p : StoryPipeline} (hp : f.Live p.incarnation p.storyId) (hs : f.Sorted) :
    Kept f (f.collect p) ∧ (f.collect p).places.Perm f.places ∧ (f.collect p).Sorted := by
  obtain ⟨handle, hhandle, hstory⟩ := hp
  obtain ⟨hcontent, hswap⟩ := content_swapActiveDeque handle
  -- the swap puts only the active and the passive deque in each other's place
  have hsame : ∀ a ∈ handle.swapActiveDeque.content, a.chunk.storyId = p.storyId :=
    fun a ha => (hs.deques _ _ hhandle a (hcontent.mem_iff.mp ha)).trans hstory
  simp only [collect, hhandle]
  have hlive := live_insert hhandle { handle.swapActiveDeque with passiveDeque := [] } hswap
    (f.merged ++ handle.swapActiveDeque.passiveDeque.map fun a => (p.storyId, a))
  refine ⟨⟨⟨rfl, rfl, rfl, rfl, rfl, rfl, rfl, rfl, rfl⟩, hlive⟩, ?_,
    sorted_insert hs (fun a ha => ?_) fun entry hentry => ?_⟩
  · have hdeques := inDeques_insert hhandle { handle.swapActiveDeque with passiveDeque := [] }
      (f.merged ++ handle.swapActiveDeque.passiveDeque.map fun a => (p.storyId, a))
    classical
    refine List.perm_iff_count.mpr fun x => ?_
    have hc := hcontent.count_eq x
    have hd := hdeques.count_eq x
    have hsnd : (Prod.snd ∘ fun a : Arrival => (p.storyId, a)) = id := rfl
    simp only [places, List.count_append, inHands, List.map_append, List.map_map, hsnd, List.map_id,
      Handle.content, List.nil_append] at hc hd ⊢
    omega
  · rw [hswap, ← hstory.symm]
    exact hsame a (List.mem_append_right _ (by simpa [Handle.content] using ha))
  · rcases List.mem_append.mp hentry with hentry | hentry
    · exact hs.merged entry hentry
    · obtain ⟨a, ha, rfl⟩ := List.mem_map.mp hentry
      exact hsame a (List.mem_append_left _ ha)

/-- **Finalizing merges the rest of a handle, and deletes it.** -/
theorem finalize_spec (hs : f.Sorted) (h : ℕ) :
    Beside f (f.finalize h) ∧ (f.finalize h).places.Perm f.places ∧ (f.finalize h).Sorted ∧
      ∀ h' storyId, h' ≠ h → ((f.finalize h).Live h' storyId ↔ f.Live h' storyId) := by
  unfold finalize
  split
  · exact ⟨Beside.refl f, List.Perm.refl _, hs, fun _ _ _ => Iff.rfl⟩
  · next handle hhandle =>
    refine ⟨⟨rfl, rfl, rfl, rfl, rfl, rfl, rfl, rfl, rfl⟩, ?_,
      ⟨fun h' handle' hhandle' => ?_, fun entry hentry => ?_⟩, fun h' storyId hne => ?_⟩
    · have hdeques := inDeques_erase hhandle
        (f.merged ++ handle.content.map fun a => (handle.storyId, a))
      classical
      refine List.perm_iff_count.mpr fun x => ?_
      have hd := hdeques.count_eq x
      have hsnd : (Prod.snd ∘ fun a : Arrival => (handle.storyId, a)) = id := rfl
      simp only [places, List.count_append, inHands, List.map_append, List.map_map, hsnd,
        List.map_id] at hd ⊢
      omega
    · -- the other handles keep their deques
      rw [Std.ExtTreeMap.getElem?_erase] at hhandle'
      split at hhandle'
      · cases hhandle'
      · exact hs.deques h' handle' hhandle'
    · rcases List.mem_append.mp hentry with hentry | hentry
      · exact hs.merged entry hentry
      · obtain ⟨a, ha, rfl⟩ := List.mem_map.mp hentry
        exact hs.deques h handle hhandle a ha
    · unfold Live
      simp [Std.ExtTreeMap.getElem?_erase, Ne.symm hne]

/-! ### The invariant -/

/-- A thread holds what it has looked up. -/
def Held (f : ChunkArrivals) (r : Receiving) : Prop :=
  (∃ thread : ℕ, f.receiving[thread]? = some r) ∨
    ∃ (thread : ℕ) (adopting : Adopting), f.adopting[thread]? = some adopting ∧
      adopting.receiving? = some r

/-- The handles of the stories and those the threads hold are not deleted. -/
structure Linked (chronicleOf : StoryId → ChronicleName) (f : ChunkArrivals) : Prop where
  consistent : f.store.Consistent chronicleOf
  handled : ∀ (storyId : StoryId) (p : StoryPipeline),
    f.store.theMapOfStoryPipelines[storyId]? = some p → f.handleOf storyId = some p.incarnation
  live : ∀ storyId h, f.handleOf storyId = some h → f.Live h storyId
  /-- A pipeline that is taken out is no story's any more. -/
  apart : ∀ h ∈ f.finalizing, ∀ storyId, f.handleOf storyId ≠ some h
  numbered : ∀ h storyId, f.Live h storyId → h ≤ f.store.currentIncarnation
  unhooked : ∀ h ∈ f.finalizing, h ≤ f.store.currentIncarnation
  found : ∀ r, f.Held r → f.FoundLive r

variable {chronicleOf : StoryId → ChronicleName}

theorem Live.unique {storyId' : StoryId} (h₁ : f.Live h storyId) (h₂ : f.Live h storyId') :
    storyId = storyId' := by
  obtain ⟨handle, hhandle, rfl⟩ := h₁
  obtain ⟨handle', hhandle', rfl⟩ := h₂
  rw [hhandle] at hhandle'
  cases hhandle'
  rfl

theorem Beside.held_iff (hb : Beside f f') : f'.Held r ↔ f.Held r := by
  unfold Held
  rw [hb.receiving, hb.adopting]

/-- What moves chunks only keeps the handles. -/
theorem Linked.of_kept (hl : f.Linked chronicleOf) (hk : Kept f f') : f'.Linked chronicleOf where
  consistent := hk.store ▸ hl.consistent
  handled := by
    intro storyId p hp
    rw [hk.store] at hp
    rw [hk.handleOf]
    exact hl.handled storyId p hp
  live := by
    intro storyId h hh
    rw [hk.handleOf] at hh
    exact (hk.live h storyId).mpr (hl.live storyId h hh)
  apart := by
    intro h hmem storyId
    rw [hk.handleOf]
    exact hl.apart h (hk.finalizing ▸ hmem) storyId
  numbered := by
    intro h storyId hlive
    rw [hk.store]
    exact hl.numbered h storyId ((hk.live h storyId).mp hlive)
  unhooked := by
    intro h hmem
    rw [hk.store]
    exact hl.unhooked h (hk.finalizing ▸ hmem)
  found := by
    intro r hheld h hh
    exact (hk.live h _).mpr (hl.found r (hk.held_iff.mp hheld) h hh)

/-- A change of the threads' hands, where what they look up is not deleted. -/
theorem Linked.of_hands (hl : f.Linked chronicleOf) (hstore : f'.store = f.store)
    (hhandles : f'.handles = f.handles) (hfinalizing : f'.finalizing = f.finalizing)
    (hheld : ∀ r, f'.Held r → f.Held r ∨ f.FoundLive r) : f'.Linked chronicleOf := by
  have hlive : ∀ h storyId, f'.Live h storyId ↔ f.Live h storyId := by
    intro h storyId
    unfold Live
    rw [hhandles]
  have hof : ∀ storyId, f'.handleOf storyId = f.handleOf storyId := by
    intro storyId
    rw [handleOf, hstore, handleOf]
  refine { consistent := hstore ▸ hl.consistent, handled := ?_, live := ?_, apart := ?_,
           numbered := ?_, unhooked := ?_, found := ?_ }
  · intro storyId p hp
    rw [hof]
    exact hl.handled storyId p (hstore ▸ hp)
  · intro storyId h hh
    rw [hof] at hh
    exact (hlive h storyId).mpr (hl.live storyId h hh)
  · intro h hmem storyId
    rw [hof]
    exact hl.apart h (hfinalizing ▸ hmem) storyId
  · intro h storyId hh
    rw [hstore]
    exact hl.numbered h storyId ((hlive h storyId).mp hh)
  · intro h hmem
    rw [hstore]
    exact hl.unhooked h (hfinalizing ▸ hmem)
  · intro r hr h hh
    refine (hlive h _).mpr ?_
    rcases hheld r hr with hr | hr
    · exact hl.found r hr h hh
    · exact hr h hh

/-- The data store takes pipelines out, and their handles go to be finalized or are
finalized at once. -/
structure TakesOut (g g' : GrapherDataStore) (taken : List ℕ) : Prop where
  incarnation : g'.currentIncarnation = g.currentIncarnation
  /-- A story keeps its pipeline and its handle, or loses both. -/
  kept : ∀ storyId : StoryId,
    (g'.theMapOfStoryPipelines[storyId]? = g.theMapOfStoryPipelines[storyId]? ∧
      g'.theIngestionQueue.storyIngestionHandles[storyId]? =
        g.theIngestionQueue.storyIngestionHandles[storyId]?) ∨
    (g'.theMapOfStoryPipelines[storyId]? = none ∧
      g'.theIngestionQueue.storyIngestionHandles[storyId]? = none)
  /-- What is taken out was some story's handle, and the story loses it. -/
  taken : ∀ h ∈ taken, ∃ storyId : StoryId,
    g.theIngestionQueue.storyIngestionHandles[storyId]? = some h ∧
    g'.theIngestionQueue.storyIngestionHandles[storyId]? = none

theorem TakesOut.handleOf {g' : GrapherDataStore} {taken : List ℕ}
    (ht : TakesOut f.store g' taken) {storyId : StoryId} {h : ℕ}
    (hh : g'.theIngestionQueue.storyIngestionHandles[storyId]? = some h) :
    f.handleOf storyId = some h := by
  rcases ht.kept storyId with ⟨-, hsame⟩ | ⟨-, hnone⟩
  · rw [ChunkArrivals.handleOf, ← hsame, hh]
  · rw [hnone] at hh
    cases hh

/-- No story has a handle any more that was taken out. -/
theorem TakesOut.ne {g' : GrapherDataStore} {taken : List ℕ} (ht : TakesOut f.store g' taken)
    (hl : f.Linked chronicleOf) {h : ℕ} (hmem : h ∈ taken) (storyId : StoryId) :
    g'.theIngestionQueue.storyIngestionHandles[storyId]? ≠ some h := by
  intro hh
  obtain ⟨storyId', hbefore, hafter⟩ := ht.taken h hmem
  have hsame : storyId = storyId' :=
    (hl.live storyId h (ht.handleOf hh)).unique (hl.live storyId' h hbefore)
  subst hsame
  rw [hafter] at hh
  cases hh

/-- **Pipelines are taken out and left to be finalized.** -/
theorem Linked.takeOut {g' : GrapherDataStore} {taken : List ℕ} (hl : f.Linked chronicleOf)
    (ht : TakesOut f.store g' taken) (hg' : g'.Consistent chronicleOf) :
    ({ f with store := g', finalizing := f.finalizing ++ taken } : ChunkArrivals).Linked
      chronicleOf where
  consistent := hg'
  handled := by
    intro storyId p hp
    -- a story that is still recorded has kept both its pipeline and its handle
    rcases ht.kept storyId with ⟨hmap, hsame⟩ | ⟨hmap, -⟩
    · exact hsame.trans (hl.handled storyId p (hmap ▸ hp))
    · exact absurd (hmap.symm.trans hp) (by simp)
  live := fun storyId h hh => hl.live storyId h (ht.handleOf hh)
  apart := by
    intro h hmem storyId hh
    rcases List.mem_append.mp hmem with hmem | hmem
    · exact hl.apart h hmem storyId (ht.handleOf hh)
    · exact ht.ne hl hmem storyId hh
  numbered := fun h storyId hlive => ht.incarnation ▸ hl.numbered h storyId hlive
  unhooked := by
    intro h hmem
    rw [ht.incarnation]
    rcases List.mem_append.mp hmem with hmem | hmem
    · exact hl.unhooked h hmem
    · obtain ⟨storyId, hbefore, -⟩ := ht.taken h hmem
      exact hl.numbered h storyId (hl.live storyId h hbefore)
  found := hl.found

theorem Linked.of_finalizing {finalizing : List ℕ} (hl : f.Linked chronicleOf)
    (hsub : finalizing ⊆ f.finalizing) :
    ({ f with finalizing := finalizing } : ChunkArrivals).Linked chronicleOf :=
  { hl with apart := fun h hmem => hl.apart h (hsub hmem)
            unhooked := fun h hmem => hl.unhooked h (hsub hmem) }

/-- **A pipeline is finalized** that is no story's any more, and whose handle no thread
holds. -/
theorem Linked.finalize (hl : f.Linked chronicleOf) (hs : f.Sorted) {h : ℕ}
    (hapart : ∀ storyId, f.handleOf storyId ≠ some h)
    (hunheld : ∀ r, f.Held r → r.found ≠ some h) : (f.finalize h).Linked chronicleOf := by
  obtain ⟨hb, -, -, hlive⟩ := finalize_spec hs h
  -- nobody finds the handle any more: no story has it, and no thread holds it
  have hdeleted : ∀ storyId, ¬(f.finalize h).Live h storyId := by
    rintro storyId ⟨handle, hhandle, -⟩
    unfold ChunkArrivals.finalize at hhandle
    split at hhandle
    · next hnone => exact absurd (hnone.symm.trans hhandle) (by simp)
    · simp at hhandle
  have hsub : ∀ h' storyId, (f.finalize h).Live h' storyId → f.Live h' storyId := by
    intro h' storyId hh'
    by_cases heq : h' = h
    · exact absurd (heq ▸ hh') (hdeleted storyId)
    · exact (hlive h' storyId heq).mp hh'
  refine { consistent := hb.store ▸ hl.consistent, handled := ?_, live := ?_, apart := ?_,
           numbered := ?_, unhooked := ?_, found := ?_ }
  · intro storyId p hp
    rw [hb.handleOf]
    exact hl.handled storyId p (hb.store ▸ hp)
  · intro storyId h' hh'
    rw [hb.handleOf] at hh'
    refine (hlive h' storyId ?_).mpr (hl.live storyId h' hh')
    rintro rfl
    exact hapart storyId hh'
  · intro h' hmem storyId
    rw [hb.handleOf]
    exact hl.apart h' (hb.finalizing ▸ hmem) storyId
  · intro h' storyId hh'
    rw [hb.store]
    exact hl.numbered h' storyId (hsub h' storyId hh')
  · intro h' hmem
    rw [hb.store]
    exact hl.unhooked h' (hb.finalizing ▸ hmem)
  · intro r hr h' hh'
    have hr' := hb.held_iff.mp hr
    refine (hlive h' _ ?_).mpr (hl.found r hr' h' hh')
    rintro rfl
    exact hunheld r hr' hh'

/-- The same for several pipelines. -/
theorem Linked.foldl_finalize (hs : List ℕ) {f : ChunkArrivals} (hl : f.Linked chronicleOf)
    (hsorted : f.Sorted) (hapart : ∀ h ∈ hs, ∀ storyId, f.handleOf storyId ≠ some h)
    (hunheld : ∀ h ∈ hs, ∀ r, f.Held r → r.found ≠ some h) :
    (hs.foldl ChunkArrivals.finalize f).Linked chronicleOf ∧
      Beside f (hs.foldl ChunkArrivals.finalize f) ∧
      (hs.foldl ChunkArrivals.finalize f).places.Perm f.places ∧
      (hs.foldl ChunkArrivals.finalize f).Sorted := by
  induction hs generalizing f with
  | nil => exact ⟨hl, Beside.refl f, List.Perm.refl _, hsorted⟩
  | cons h hs ih =>
    obtain ⟨hb, hplaces, hsorted', -⟩ := finalize_spec hsorted h
    have hl' := hl.finalize hsorted (hapart h List.mem_cons_self) (hunheld h List.mem_cons_self)
    obtain ⟨hl'', hb', hplaces', hsorted''⟩ := ih hl' hsorted'
      (fun h' hmem storyId => hb.handleOf storyId ▸ hapart h' (List.mem_cons_of_mem _ hmem) storyId)
      (fun h' hmem r hr => hunheld h' (List.mem_cons_of_mem _ hmem) r (hb.held_iff.mp hr))
    exact ⟨hl'', hb.trans hb', hplaces'.trans hplaces, hsorted''⟩

theorem foldl_finalize_store (hs : List ℕ) (f : ChunkArrivals) (g : GrapherDataStore) :
    ({ hs.foldl ChunkArrivals.finalize f with store := g } : ChunkArrivals) =
      hs.foldl ChunkArrivals.finalize { f with store := g } := by
  induction hs generalizing f with
  | nil => rfl
  | cons h hs ih =>
    rw [List.foldl_cons, List.foldl_cons, ih]
    congr 1
    unfold ChunkArrivals.finalize
    dsimp only
    split <;> rfl

end ChunkArrivals

/-! ### What the data store takes out and puts in -/

namespace GrapherDataStore

variable {chronicleOf : StoryId → ChronicleName} {g : GrapherDataStore}

theorem currentIncarnation_foldl {α : Type} (step : GrapherDataStore → α → GrapherDataStore)
    (hstep : ∀ g x, (step g x).currentIncarnation = g.currentIncarnation) (xs : List α)
    (g : GrapherDataStore) : (xs.foldl step g).currentIncarnation = g.currentIncarnation := by
  induction xs generalizing g with
  | nil => rfl
  | cons x xs ih => rw [List.foldl_cons, ih, hstep]

theorem currentIncarnation_destroyStory (storyId : StoryId) (chronicle : ChronicleName) :
    (g.destroyStory storyId chronicle).currentIncarnation = g.currentIncarnation := by
  unfold destroyStory
  dsimp only [reportDropped]
  split <;> rfl

theorem currentIncarnation_destroyChronicle (chronicle : ChronicleName) :
    (g.destroyChronicle chronicle).currentIncarnation = g.currentIncarnation := by
  unfold destroyChronicle
  dsimp only
  rw [currentIncarnation_foldl reportDropped fun _ _ => rfl,
    currentIncarnation_foldl unhook fun _ _ => rfl]
  split <;> rfl

theorem currentIncarnation_retireDecayedPipelines (currentTime : ℕ) :
    (g.retireDecayedPipelines currentTime).currentIncarnation = g.currentIncarnation := by
  unfold retireDecayedPipelines
  split
  · rfl
  · exact currentIncarnation_foldl retire (fun _ _ => rfl) _ g

/-- A start makes a pipeline for a story that has none, or changes no pipeline. -/
theorem startStoryRecording_cases (chronicle : ChronicleName) (storyId : StoryId) (startTime : ℕ)
    (isAdoption : Bool) {g' : GrapherDataStore} {result : Option Bool}
    (h : g.startStoryRecording chronicle storyId startTime isAdoption = (g', result)) :
    (g'.currentIncarnation = g.currentIncarnation ∧
      g'.theMapOfStoryPipelines = g.theMapOfStoryPipelines ∧
      g'.theIngestionQueue.storyIngestionHandles =
        g.theIngestionQueue.storyIngestionHandles) ∨
    (g'.currentIncarnation = g.currentIncarnation + 1 ∧
      g.theMapOfStoryPipelines[storyId]? = none ∧
      g'.theMapOfStoryPipelines =
        g.theMapOfStoryPipelines.insert storyId (g.newPipeline chronicle storyId startTime) ∧
      g'.theIngestionQueue.storyIngestionHandles =
        g.theIngestionQueue.storyIngestionHandles.insertIfNew storyId
          (g.currentIncarnation + 1)) := by
  unfold startStoryRecording at h
  split at h
  · injection h with h
    rw [← h]
    exact Or.inl ⟨rfl, rfl, rfl⟩
  · cases isAdoption
    all_goals
      simp only [Bool.false_eq_true, if_false, if_true] at h
      split at h
      · injection h with h
        rw [← h]
        exact Or.inl ⟨rfl, rfl, rfl⟩
      · next hnew =>
        injection h with h
        rw [← h]
        exact Or.inr ⟨rfl, by simpa [clearTombstones] using hnew, rfl, rfl⟩

theorem Consistent.startStoryRecording (h : g.Consistent chronicleOf) (storyId : StoryId)
    (startTime : ℕ) (isAdoption : Bool) :
    (g.startStoryRecording (chronicleOf storyId) storyId startTime isAdoption).1.Consistent
      chronicleOf := by
  intro other
  cases isAdoption with
  | true =>
    rw [status_adopt h]
    split
    · next heq =>
      subst heq
      exact (h storyId).adopt ⟨rfl, rfl⟩
    · exact h other
  | false =>
    rw [status_register h]
    split
    · next heq =>
      subst heq
      exact (h storyId).register ⟨rfl, rfl⟩
    · refine ⟨(h other).waiting, (h other).handle, fun ht => (h other).buried ?_, (h other).named⟩
      simp only [StoryStatus.tombstoned, Bool.or_eq_true] at ht ⊢
      refine ht.imp_right fun ht => ?_
      split at ht
      · cases ht
      · exact ht

end GrapherDataStore

namespace ChunkArrivals

variable {chronicleOf : StoryId → ChronicleName} {f f' : ChunkArrivals}

theorem takesOut_destroyStory (hl : f.Linked chronicleOf) (storyId : StoryId) :
    TakesOut f.store (f.store.destroyStory storyId (chronicleOf storyId))
      ((f.pipelineOf storyId).toList.map StoryPipeline.incarnation) where
  incarnation := GrapherDataStore.currentIncarnation_destroyStory storyId _
  kept := by
    intro other
    have hstatus := GrapherDataStore.status_destroyStory hl.consistent storyId other
    split at hstatus
    · exact Or.inr ⟨congrArg StoryStatus.pipeline hstatus, congrArg StoryStatus.handle hstatus⟩
    · exact Or.inl ⟨congrArg StoryStatus.pipeline hstatus, congrArg StoryStatus.handle hstatus⟩
  taken := by
    intro h hmem
    have hstatus := GrapherDataStore.status_destroyStory hl.consistent storyId storyId
    rw [if_pos rfl] at hstatus
    refine ⟨storyId, ?_, congrArg StoryStatus.handle hstatus⟩
    obtain ⟨p, hp, rfl⟩ := List.mem_map.mp hmem
    rw [Option.mem_toList, pipelineOf] at hp
    split at hp
    · next q hq =>
      injection hp with hp
      exact hp ▸ hl.handled storyId q hq
    · -- only a story that is recorded can wait for its exit
      next hnone =>
      have hwaiting := (hl.consistent storyId).not_waiting hnone
      change f.store.pipelinesWaitingForExit[storyId]? = none at hwaiting
      rw [hwaiting] at hp
      cases hp

/-- The pipelines of a chronicle that are found recorded or waiting are its stories'. -/
theorem Linked.handleOf_pipelinesOf (hl : f.Linked chronicleOf) {chronicle : ChronicleName}
    {p : StoryPipeline} (hp : p ∈ f.pipelinesOf chronicle) :
    f.handleOf p.storyId = some p.incarnation ∧ chronicleOf p.storyId = chronicle := by
  have hof : ∀ storyId : StoryId, f.store.theMapOfStoryPipelines[storyId]? = some p →
      p.chronicleName = chronicle →
      f.handleOf p.storyId = some p.incarnation ∧ chronicleOf p.storyId = chronicle := by
    intro storyId hmap hname
    obtain ⟨rfl, hchronicle⟩ := (hl.consistent storyId).named p hmap
    exact ⟨hl.handled _ p hmap, hchronicle.symm.trans hname⟩
  -- a pipeline that waits for its exit is still in the map
  obtain ⟨⟨storyId, q⟩, hentry, rfl⟩ := List.mem_map.mp hp
  rcases List.mem_append.mp hentry with hentry | hentry
  · obtain ⟨hmem, hname⟩ := List.mem_filter.mp hentry
    rw [Std.ExtTreeMap.mem_toList_iff_getElem?_eq_some] at hmem
    exact hof storyId hmem (of_decide_eq_true hname)
  · obtain ⟨⟨storyId', q', exitTime⟩, hmem, heq⟩ := List.mem_map.mp hentry
    obtain ⟨hmem, hname⟩ := List.mem_filter.mp hmem
    rw [Std.ExtTreeMap.mem_toList_iff_getElem?_eq_some] at hmem
    cases heq
    exact hof storyId' ((hl.consistent storyId').waiting q' exitTime hmem)
      (of_decide_eq_true hname).1

theorem takesOut_destroyChronicle (hl : f.Linked chronicleOf) (chronicle : ChronicleName) :
    TakesOut f.store (f.store.destroyChronicle chronicle)
      ((f.pipelinesOf chronicle).map StoryPipeline.incarnation) where
  incarnation := GrapherDataStore.currentIncarnation_destroyChronicle chronicle
  kept := by
    intro other
    have hstatus := GrapherDataStore.status_destroyChronicle hl.consistent chronicle other
    split at hstatus
    · exact Or.inr ⟨congrArg StoryStatus.pipeline hstatus, congrArg StoryStatus.handle hstatus⟩
    · exact Or.inl ⟨congrArg StoryStatus.pipeline hstatus, congrArg StoryStatus.handle hstatus⟩
  taken := by
    intro h hmem
    obtain ⟨p, hp, rfl⟩ := List.mem_map.mp hmem
    obtain ⟨hhandle, hchronicle⟩ := hl.handleOf_pipelinesOf hp
    have hstatus := GrapherDataStore.status_destroyChronicle hl.consistent chronicle p.storyId
    rw [if_pos hchronicle] at hstatus
    exact ⟨p.storyId, hhandle, congrArg StoryStatus.handle hstatus⟩

theorem takesOut_retire (hl : f.Linked chronicleOf) (now : ℕ) :
    TakesOut f.store (f.store.retireDecayedPipelines now) (f.retired now) where
  incarnation := GrapherDataStore.currentIncarnation_retireDecayedPipelines now
  kept := by
    intro other
    have hstatus := GrapherDataStore.status_retireDecayedPipelines hl.consistent now other
    unfold StoryStatus.retire at hstatus
    split at hstatus
    · exact Or.inl ⟨congrArg StoryStatus.pipeline hstatus, congrArg StoryStatus.handle hstatus⟩
    · split at hstatus
      · exact Or.inr ⟨congrArg StoryStatus.pipeline hstatus, congrArg StoryStatus.handle hstatus⟩
      · exact Or.inl ⟨congrArg StoryStatus.pipeline hstatus, congrArg StoryStatus.handle hstatus⟩
  taken := by
    intro h hmem
    unfold retired at hmem
    split at hmem
    · cases hmem
    · obtain ⟨⟨storyId, p, exitTime⟩, hentry, rfl⟩ := List.mem_map.mp hmem
      obtain ⟨hentry, hexit⟩ := List.mem_filter.mp hentry
      rw [Std.ExtTreeMap.mem_toList_iff_getElem?_eq_some] at hentry
      have hmap := (hl.consistent storyId).waiting p exitTime hentry
      have hstatus := GrapherDataStore.status_retireDecayedPipelines hl.consistent now storyId
      have hwaiting : (f.store.status chronicleOf storyId).waiting = some (p, exitTime) := hentry
      simp only [StoryStatus.retire, hwaiting, if_pos (of_decide_eq_true hexit)] at hstatus
      exact ⟨storyId, hl.handled storyId p hmap, congrArg StoryStatus.handle hstatus⟩

/-- The chunks in the hands of the threads in `ingestStoryChunk`. -/
def inReceipt (f : ChunkArrivals) : List Arrival :=
  f.receiving.toList.flatMap fun entry => [entry.2.arrival]

/-- The chunks that arrived have different numbers. -/
structure Distinct (f : ChunkArrivals) : Prop where
  nodup : ((f.received ++ f.inReceipt).map Arrival.number).Nodup
  below : ∀ a ∈ f.received ++ f.inReceipt, a.number < f.arrivals

/-- **The invariant of a run.** -/
structure Sound (chronicleOf : StoryId → ChronicleName) (f : ChunkArrivals) : Prop where
  linked : f.Linked chronicleOf
  sorted : f.Sorted
  lost : f.lost = []
  conserved : f.places.Perm f.received
  distinct : f.Distinct

/-- A step that moves received chunks from place to place. -/
theorem Sound.of_moved (hf : f.Sound chronicleOf) (hl : f'.Linked chronicleOf) (hs : f'.Sorted)
    (hplaces : f'.places.Perm f.places) (hlost : f'.lost = f.lost)
    (hreceived : f'.received = f.received) (hreceiving : f'.receiving = f.receiving)
    (harrivals : f'.arrivals = f.arrivals) : f'.Sound chronicleOf where
  linked := hl
  sorted := hs
  lost := hlost.trans hf.lost
  conserved := by
    rw [hreceived]
    exact hplaces.trans hf.conserved
  distinct := by
    have hreceipt : f'.inReceipt = f.inReceipt := by rw [inReceipt, hreceiving, inReceipt]
    exact ⟨by rw [hreceived, hreceipt]; exact hf.distinct.nodup,
      by rw [hreceived, hreceipt, harrivals]; exact hf.distinct.below⟩

/-- What is noted of the stories bears on none of it. -/
theorem Sound.of_noted (hf : f.Sound chronicleOf) (destroyed : StoryId → Bool) :
    ({ f with destroyed := destroyed } : ChunkArrivals).Sound chronicleOf where
  linked := { hf.linked with }
  sorted := { hf.sorted with }
  lost := hf.lost
  conserved := hf.conserved
  distinct := { hf.distinct with }

theorem Sound.of_kept (hf : f.Sound chronicleOf) (hk : Kept f f')
    (hplaces : f'.places.Perm f.places) (hs : f'.Sorted) : f'.Sound chronicleOf :=
  hf.of_moved (hf.linked.of_kept hk) hs hplaces hk.lost hk.received hk.receiving hk.arrivals

theorem Sound.drainOrphanChunks (hf : f.Sound chronicleOf) :
    f.drainOrphanChunks.Sound chronicleOf := by
  obtain ⟨hk, hplaces, hs⟩ := drain_spec hf.linked.live hf.sorted
  exact hf.of_kept hk hplaces hs

/-- The pipeline's handle is not deleted. -/
theorem Linked.live_of_handled (hl : f.Linked chronicleOf) {p : StoryPipeline}
    (h : f.handleOf p.storyId = some p.incarnation) : f.Live p.incarnation p.storyId :=
  hl.live _ _ h

/-- The pipeline of a story that is found recorded or waiting. -/
theorem Linked.handleOf_pipelineOf (hl : f.Linked chronicleOf) {storyId : StoryId}
    {p : StoryPipeline} (hp : p ∈ (f.pipelineOf storyId).toList) :
    f.handleOf p.storyId = some p.incarnation := by
  have hmap : f.store.theMapOfStoryPipelines[storyId]? = some p := by
    rw [Option.mem_toList, pipelineOf] at hp
    split at hp
    · next hq => exact hq.trans hp
    · obtain ⟨⟨q, exitTime⟩, hwaiting, rfl⟩ := Option.map_eq_some_iff.mp hp
      exact (hl.consistent storyId).waiting q exitTime hwaiting
  obtain ⟨rfl, -⟩ := (hl.consistent storyId).named p hmap
  exact hl.handled _ p hmap

theorem Sound.foldl_collect (ps : List StoryPipeline) {f : ChunkArrivals}
    (hf : f.Sound chronicleOf)
    (hps : ∀ p ∈ ps, f.handleOf p.storyId = some p.incarnation) :
    (ps.foldl collect f).Sound chronicleOf ∧ Kept f (ps.foldl collect f) := by
  induction ps generalizing f with
  | nil => exact ⟨hf, Kept.refl f⟩
  | cons p ps ih =>
    obtain ⟨hk, hplaces, hs⟩ := collect_spec
      (hf.linked.live_of_handled (hps p List.mem_cons_self)) hf.sorted
    obtain ⟨hf', hk'⟩ := ih (hf.of_kept hk hplaces hs) fun q hq => by
      rw [hk.handleOf]
      exact hps q (List.mem_cons_of_mem _ hq)
    exact ⟨hf', hk.trans hk'⟩

/-- Before a destroy takes pipelines out, it places the orphans and collects. -/
theorem Sound.before_unhookAll (hf : f.Sound chronicleOf) {ps : List StoryPipeline}
    (g' : GrapherDataStore) (hps : ∀ p ∈ ps, f.handleOf p.storyId = some p.incarnation) :
    ∃ f₁ : ChunkArrivals, f₁.Sound chronicleOf ∧ Kept f f₁ ∧
      f.unhookAll ps g' = { f₁ with
        store := g', finalizing := f₁.finalizing ++ ps.map StoryPipeline.incarnation } := by
  -- the orphans are placed unless there is nothing to take out
  obtain ⟨f₁, hf₁, hk₁, heq⟩ : ∃ f₁ : ChunkArrivals, f₁.Sound chronicleOf ∧ Kept f f₁ ∧
      f.unhookAll ps g' = { ps.foldl collect f₁ with
        store := g', finalizing := (ps.foldl collect f₁).finalizing ++
          ps.map StoryPipeline.incarnation } := by
    by_cases hempty : ps.isEmpty
    · exact ⟨f, hf, Kept.refl f, by simp [ChunkArrivals.unhookAll, hempty]⟩
    · exact ⟨f.drainOrphanChunks, hf.drainOrphanChunks, (drain_spec hf.linked.live hf.sorted).1,
        by simp [ChunkArrivals.unhookAll, hempty]⟩
  obtain ⟨hf₂, hk₂⟩ := Sound.foldl_collect ps hf₁ fun p hp => by
    rw [hk₁.handleOf]
    exact hps p hp
  exact ⟨ps.foldl collect f₁, hf₂, hk₁.trans hk₂, heq⟩

/-- **A destroy takes pipelines out.** -/
theorem Sound.unhookAll (hf : f.Sound chronicleOf) {ps : List StoryPipeline}
    {g' : GrapherDataStore} (hps : ∀ p ∈ ps, f.handleOf p.storyId = some p.incarnation)
    (ht : TakesOut f.store g' (ps.map StoryPipeline.incarnation))
    (hg' : g'.Consistent chronicleOf) : (f.unhookAll ps g').Sound chronicleOf := by
  obtain ⟨f₁, hf₁, hk, heq⟩ := hf.before_unhookAll g' hps
  rw [heq]
  exact hf₁.of_moved (hf₁.linked.takeOut (hk.store ▸ ht) hg')
    ⟨hf₁.sorted.deques, hf₁.sorted.merged⟩ (List.Perm.refl _) rfl rfl rfl rfl

theorem Sound.finalize (hf : f.Sound chronicleOf) {h : ℕ} (hmem : h ∈ f.finalizing)
    (hunheld : ∀ r, f.Held r → r.found ≠ some h) :
    ({ f.finalize h with finalizing := f.finalizing.erase h } : ChunkArrivals).Sound
      chronicleOf := by
  obtain ⟨hb, hplaces, hs, -⟩ := finalize_spec hf.sorted h
  have hl := hf.linked.finalize hf.sorted (hf.linked.apart h hmem) hunheld
  have hsub : f.finalizing.erase h ⊆ (f.finalize h).finalizing := by
    rw [hb.finalizing]
    exact List.erase_subset
  exact hf.of_moved (hl.of_finalizing hsub) ⟨hs.deques, hs.merged⟩ hplaces hb.lost hb.received
    hb.receiving hb.arrivals

theorem Sound.retireDecayedPipelines (hf : f.Sound chronicleOf) (now : ℕ)
    (hunheld : ∀ h ∈ f.retired now, ∀ r, f.Held r → r.found ≠ some h) :
    ({ (f.retired now).foldl ChunkArrivals.finalize f with
        store := f.store.retireDecayedPipelines now } : ChunkArrivals).Sound chronicleOf := by
  have ht := takesOut_retire hf.linked now
  have hconsistent : (f.store.retireDecayedPipelines now).Consistent chronicleOf := by
    intro storyId
    rw [GrapherDataStore.status_retireDecayedPipelines hf.linked.consistent]
    exact (hf.linked.consistent storyId).retire now
  -- the store without the pipelines, before their handles are deleted
  have hl : ({ f with store := f.store.retireDecayedPipelines now } :
      ChunkArrivals).Linked chronicleOf :=
    (hf.linked.takeOut ht hconsistent).of_finalizing (List.subset_append_left _ _)
  have hsorted : ({ f with store := f.store.retireDecayedPipelines now } : ChunkArrivals).Sorted :=
    ⟨hf.sorted.deques, hf.sorted.merged⟩
  rw [foldl_finalize_store]
  obtain ⟨hl', hb, hplaces, hs⟩ := hl.foldl_finalize (f.retired now) hsorted
    (fun h hmem storyId => ht.ne hf.linked hmem storyId) hunheld
  exact hf.of_moved hl' hs hplaces hb.lost hb.received hb.receiving hb.arrivals

/-- The state with the handle of a pipeline that was made. -/
def withHandle (f : ChunkArrivals) (g : GrapherDataStore) (storyId : StoryId) : ChunkArrivals :=
  { f with
    store := g
    handles := f.handles.insert g.currentIncarnation { storyId := storyId } }

theorem inDeques_withHandle {g : GrapherDataStore}
    (hnew : f.handles[g.currentIncarnation]? = none) (storyId : StoryId) :
    (f.withHandle g storyId).inDeques.Perm f.inDeques := by
  have hafter := OrderedMap.perm_flatMap_insert_new (fun entry : ℕ × Handle => entry.2.content)
    hnew { storyId := storyId }
  simpa [Handle.content, inDeques, withHandle] using hafter

/-- **A pipeline is made, with its handle.** -/
theorem Linked.create (hl : f.Linked chronicleOf) {storyId : StoryId} {g' : GrapherDataStore}
    {new : StoryPipeline} (hincarnation : new.incarnation = f.store.currentIncarnation + 1)
    (hcurrent : g'.currentIncarnation = f.store.currentIncarnation + 1)
    (hnone : f.store.theMapOfStoryPipelines[storyId]? = none)
    (hmap : g'.theMapOfStoryPipelines = f.store.theMapOfStoryPipelines.insert storyId new)
    (hhandles : g'.theIngestionQueue.storyIngestionHandles =
      f.store.theIngestionQueue.storyIngestionHandles.insertIfNew storyId
        (f.store.currentIncarnation + 1))
    (hg' : g'.Consistent chronicleOf) : (f.withHandle g' storyId).Linked chronicleOf := by
  have hfresh : ∀ h storyId', f.Live h storyId' → h ≠ g'.currentIncarnation := by
    intro h storyId' hlive heq
    have hle := hl.numbered h storyId' hlive
    omega
  have hbefore : f.handleOf storyId = none := (hl.consistent storyId).handle hnone
  have hof : ∀ other, g'.theIngestionQueue.storyIngestionHandles[other]? =
      if other = storyId then some g'.currentIncarnation else f.handleOf other := by
    intro other
    have habsent : storyId ∉ f.store.theIngestionQueue.storyIngestionHandles := by
      rw [Std.ExtTreeMap.mem_iff_isSome_getElem?]
      change ¬(f.handleOf storyId).isSome = true
      simp [hbefore]
    rw [hhandles, Std.ExtTreeMap.getElem?_insertIfNew, hcurrent]
    by_cases heq : other = storyId
    · subst heq
      simp [habsent]
    · simp [heq, Ne.symm heq, handleOf]
  have hlive : ∀ h storyId', (f.withHandle g' storyId).Live h storyId' ↔
      f.Live h storyId' ∨ (h = g'.currentIncarnation ∧ storyId' = storyId) := by
    intro h storyId'
    by_cases heq : g'.currentIncarnation = h
    · have hno : ¬f.Live h storyId' := fun hold => hfresh h storyId' hold heq.symm
      rw [or_iff_right hno, and_iff_right heq.symm]
      simp [Live, withHandle, heq, eq_comm]
    · simp [Live, withHandle, Std.ExtTreeMap.getElem?_insert, heq, Ne.symm heq]
  refine { consistent := hg', handled := ?_, live := ?_, apart := ?_, numbered := ?_,
           unhooked := ?_, found := ?_ }
  · intro other p hp
    change g'.theMapOfStoryPipelines[other]? = some p at hp
    rw [hmap, Std.ExtTreeMap.getElem?_insert] at hp
    refine (hof other).trans ?_
    by_cases heq : other = storyId
    · subst heq
      rw [if_pos (by simp), Option.some.injEq] at hp
      rw [if_pos rfl, ← hp, hincarnation, hcurrent]
    · rw [if_neg (by simpa using Ne.symm heq)] at hp
      rw [if_neg heq]
      exact hl.handled other p hp
  · intro other h hh
    have hh' := (hof other).symm.trans hh
    refine (hlive h other).mpr ?_
    split at hh'
    · next heq => exact Or.inr ⟨(Option.some.inj hh').symm, heq⟩
    · exact Or.inl (hl.live other h hh')
  · intro h hmem other hh
    have hh' := (hof other).symm.trans hh
    split at hh'
    · have hle := hl.unhooked h hmem
      have heq := Option.some.inj hh'
      omega
    · exact hl.apart h hmem other hh'
  · intro h other hh
    rcases (hlive h other).mp hh with hh | ⟨heq, -⟩
    · have hle := hl.numbered h other hh
      change h ≤ g'.currentIncarnation
      omega
    · exact Nat.le_of_eq heq
  · intro h hmem
    have hle := hl.unhooked h hmem
    change h ≤ g'.currentIncarnation
    omega
  · intro r hr h hh
    exact (hlive h _).mpr (Or.inl (hl.found r hr h hh))

/-- **A start keeps every chunk where it is.** -/
theorem Sound.startStoryRecording (hf : f.Sound chronicleOf) (storyId : StoryId) (startTime : ℕ)
    (isAdoption : Bool) :
    (f.startStoryRecording (chronicleOf storyId) storyId startTime isAdoption).1.Sound
      chronicleOf := by
  have hconsistent := hf.linked.consistent.startStoryRecording storyId startTime isAdoption
  unfold ChunkArrivals.startStoryRecording
  rcases hstart : f.store.startStoryRecording (chronicleOf storyId) storyId startTime isAdoption
    with ⟨g', result⟩
  rw [hstart] at hconsistent
  dsimp only at hconsistent ⊢
  rcases GrapherDataStore.startStoryRecording_cases _ _ _ _ hstart with
    ⟨hcurrent, hmap, hhandles⟩ | ⟨hcurrent, hnone, hmap, hhandles⟩
  · rw [if_pos hcurrent]
    have ht : TakesOut f.store g' [] :=
      ⟨hcurrent, fun other => Or.inl ⟨by rw [hmap], by rw [hhandles]⟩, by simp⟩
    have hl := (hf.linked.takeOut ht hconsistent).of_finalizing (List.subset_append_left _ _)
    exact hf.of_moved hl ⟨hf.sorted.deques, hf.sorted.merged⟩ (List.Perm.refl _) rfl rfl rfl rfl
  · rw [if_neg (by omega)]
    have hl := hf.linked.create rfl hcurrent hnone hmap hhandles hconsistent
    have hnew : f.handles[g'.currentIncarnation]? = none := by
      cases hold : f.handles[g'.currentIncarnation]? with
      | none => rfl
      | some handle =>
        have hle := hf.linked.numbered _ _ ⟨handle, hold, rfl⟩
        omega
    refine hf.of_moved hl ?_ ?_ rfl rfl rfl rfl
    · have hempty : ∀ a ∈ ({ storyId := storyId } : Handle).content, a.chunk.storyId = storyId := by
        simp [Handle.content]
      have hs := sorted_insert (h := g'.currentIncarnation) hf.sorted hempty hf.sorted.merged
      exact ⟨hs.deques, hs.merged⟩
    · have hdeques := inDeques_withHandle hnew storyId
      classical
      refine List.perm_iff_count.mpr fun x => ?_
      have hcount := hdeques.count_eq x
      simp only [places, List.count_append, inHands, withHandle] at hcount ⊢
      omega

theorem Sound.stopStoryRecording (hf : f.Sound chronicleOf) (storyId : StoryId) (now : ℕ) :
    ({ f with store := f.store.stopStoryRecording storyId now } : ChunkArrivals).Sound
      chronicleOf := by
  have hconsistent : (f.store.stopStoryRecording storyId now).Consistent chronicleOf := by
    intro other
    rw [GrapherDataStore.status_stopStoryRecording]
    split
    · exact (hf.linked.consistent other).stop _
    · exact hf.linked.consistent other
  have ht : TakesOut f.store (f.store.stopStoryRecording storyId now) [] := by
    unfold GrapherDataStore.stopStoryRecording
    split <;> exact ⟨rfl, fun other => Or.inl ⟨rfl, rfl⟩, by simp⟩
  have hl := (hf.linked.takeOut ht hconsistent).of_finalizing (List.subset_append_left _ _)
  exact hf.of_moved hl ⟨hf.sorted.deques, hf.sorted.merged⟩ (List.Perm.refl _) rfl rfl rfl rfl

/-! ### The threads that receive and adopt -/

theorem count_inHands_replace [DecidableEq Arrival] {thread : ℕ} {old : Adopting}
    (hold : f.adopting[thread]? = some old) (new : Adopting) (x : Arrival) :
    ((f.adopting.insert thread new).toList.flatMap fun entry => entry.2.hands).count x +
      old.hands.count x = f.inHands.count x + new.hands.count x := by
  have hperm := OrderedMap.perm_flatMap_replace (fun entry : ℕ × Adopting => entry.2.hands) hold new
  have hcount := hperm.count_eq x
  simpa only [List.count_append, inHands] using hcount

/-- What a thread holds after another thread's hands changed. -/
theorem held_of_adopting (f : ChunkArrivals) (thread : ℕ) (new : Adopting) {r : Receiving}
    (hr : f'.Held r) (hreceiving : f'.receiving = f.receiving)
    (hadopting : f'.adopting = f.adopting.insert thread new) :
    f.Held r ∨ new.receiving? = some r := by
  rcases hr with ⟨t, ht⟩ | ⟨t, adopting, ht, hholds⟩
  · exact Or.inl (Or.inl ⟨t, hreceiving ▸ ht⟩)
  · rw [hadopting, Std.ExtTreeMap.getElem?_insert] at ht
    split at ht
    · injection ht with ht
      exact Or.inr (ht ▸ hholds)
    · exact Or.inl (Or.inr ⟨t, adopting, ht, hholds⟩)

theorem Sound.receive (hf : f.Sound chronicleOf) {thread : ℕ}
    (hthread : f.receiving[thread]? = none) (chunk : StoryChunk) :
    ({ f with
      receiving := f.receiving.insert thread ⟨⟨f.arrivals, chunk⟩, f.handleOf chunk.storyId⟩
      arrivals := f.arrivals + 1 } : ChunkArrivals).Sound chronicleOf where
  linked := by
    refine hf.linked.of_hands rfl rfl rfl fun r hr => ?_
    rcases hr with ⟨t, ht⟩ | hr
    · rw [Std.ExtTreeMap.getElem?_insert] at ht
      split at ht
      · injection ht with ht
        subst ht
        exact Or.inr fun h hh => hf.linked.live _ h hh
      · exact Or.inl (Or.inl ⟨t, ht⟩)
    · exact Or.inl (Or.inr hr)
  sorted := ⟨hf.sorted.deques, hf.sorted.merged⟩
  lost := hf.lost
  conserved := hf.conserved
  distinct := by
    -- the counter gives the chunk a number that no other has
    have hperm := OrderedMap.perm_flatMap_insert_new
      (fun entry : ℕ × Receiving => [entry.2.arrival]) hthread
      ⟨⟨f.arrivals, chunk⟩, f.handleOf chunk.storyId⟩
    have hall : (f.received ++ (f.receiving.insert thread
        ⟨⟨f.arrivals, chunk⟩, f.handleOf chunk.storyId⟩).toList.flatMap
          fun entry => [entry.2.arrival]).Perm
        (f.received ++ f.inReceipt ++ [⟨f.arrivals, chunk⟩]) := by
      rw [List.append_assoc]
      exact hperm.append_left f.received
    constructor
    · refine (hall.map Arrival.number).nodup_iff.mpr ?_
      rw [List.map_append, List.nodup_append]
      refine ⟨hf.distinct.nodup, by simp, fun n hn m hm => ?_⟩
      obtain ⟨a, ha, rfl⟩ := List.mem_map.mp hn
      have hlt := hf.distinct.below a ha
      have heq : m = f.arrivals := by simpa using hm
      omega
    · intro a ha
      rcases List.mem_append.mp (hall.mem_iff.mp ha) with ha | ha
      · exact Nat.lt_succ_of_lt (hf.distinct.below a ha)
      · rw [List.mem_singleton.mp ha]
        exact Nat.lt_succ_self _

theorem Sound.push (hf : f.Sound chronicleOf) {thread : ℕ} {r : Receiving}
    (hthread : f.receiving[thread]? = some r) :
    ({ f.push r with
      receiving := f.receiving.erase thread
      received := f.received ++ [r.arrival] } : ChunkArrivals).Sound chronicleOf := by
  obtain ⟨hk, hplaces, hs⟩ := push_spec (hf.linked.found r (Or.inl ⟨thread, hthread⟩)) hf.sorted
  have hl := hf.linked.of_kept hk
  refine { linked := ?_, sorted := ⟨hs.deques, hs.merged⟩, lost := hk.lost.trans hf.lost,
           conserved := hplaces.trans (hf.conserved.append_right _), distinct := ?_ }
  · refine hl.of_hands rfl rfl rfl fun r' hr' => Or.inl ?_
    rcases hr' with ⟨t, ht⟩ | hr'
    · rw [Std.ExtTreeMap.getElem?_erase] at ht
      split at ht
      · cases ht
      · exact Or.inl ⟨t, hk.receiving ▸ ht⟩
    · exact Or.inr hr'
  · -- the chunk goes from the hands of the thread to those received
    have hperm := OrderedMap.perm_flatMap_of_getElem?
      (fun entry : ℕ × Receiving => [entry.2.arrival]) hthread
    have hall : (f.received ++ [r.arrival] ++ (f.receiving.erase thread).toList.flatMap
        fun entry => [entry.2.arrival]).Perm (f.received ++ f.inReceipt) := by
      rw [List.append_assoc]
      exact hperm.symm.append_left f.received
    exact ⟨(hall.map Arrival.number).nodup_iff.mpr hf.distinct.nodup, fun a ha =>
      hk.arrivals ▸ hf.distinct.below a (hall.mem_iff.mp ha)⟩

theorem Sound.extractOrphanChunks (hf : f.Sound chronicleOf) {thread : ℕ}
    (hthread : f.adopting[thread]? = none) :
    ({ f with
      orphanQueue := []
      adopting := f.adopting.insert thread (.next f.orphanQueue) } : ChunkArrivals).Sound
      chronicleOf := by
  refine hf.of_moved (hf.linked.of_hands rfl rfl rfl fun r hr => Or.inl ?_)
    ⟨hf.sorted.deques, hf.sorted.merged⟩ ?_ rfl rfl rfl rfl
  · rcases held_of_adopting f thread (.next f.orphanQueue) hr rfl rfl with hr | hr
    · exact hr
    · cases hr
  · -- the queue goes to the hands of the thread as a whole
    have hperm := OrderedMap.perm_flatMap_insert_new
      (fun entry : ℕ × Adopting => entry.2.hands) hthread (.next f.orphanQueue)
    classical
    refine List.perm_iff_count.mpr fun x => ?_
    have hcount := hperm.count_eq x
    simp only [places, List.count_append, inHands, inDeques, Adopting.hands,
      List.count_nil] at hcount ⊢
    omega

/-- An adopting thread's hands change, and a chunk may go from them to another place. -/
theorem Sound.of_adopting (hf : f.Sound chronicleOf) {thread : ℕ} {old : Adopting}
    (hold : f.adopting[thread]? = some old) (new : Adopting) (discarded : List (Arrival × Bool))
    (hmoved : old.hands.Perm (discarded.map Prod.fst ++ new.hands))
    (hfound : ∀ r, new.receiving? = some r → f.FoundLive r) :
    ({ f with
      discarded := f.discarded ++ discarded
      adopting := f.adopting.insert thread new } : ChunkArrivals).Sound chronicleOf := by
  refine hf.of_moved (hf.linked.of_hands rfl rfl rfl fun r hr => ?_)
    ⟨hf.sorted.deques, hf.sorted.merged⟩ ?_ rfl rfl rfl rfl
  · exact (held_of_adopting f thread new hr rfl rfl).imp_right (hfound r)
  · classical
    refine List.perm_iff_count.mpr fun x => ?_
    have hcount := count_inHands_replace hold new x
    have hm := hmoved.count_eq x
    simp only [places, List.count_append, List.map_append, inHands, inDeques] at hcount hm ⊢
    omega

/-- The registry hears of a refused chunk. -/
theorem Sound.of_report (hf : f.Sound chronicleOf) (storyId : StoryId) :
    ({ f with store := f.store.reportDropped storyId } : ChunkArrivals).Sound chronicleOf := by
  have hconsistent : (f.store.reportDropped storyId).Consistent chronicleOf := hf.linked.consistent
  have ht : TakesOut f.store (f.store.reportDropped storyId) [] :=
    ⟨rfl, fun _ => Or.inl ⟨rfl, rfl⟩, by simp⟩
  have hl := (hf.linked.takeOut ht hconsistent).of_finalizing (List.subset_append_left _ _)
  exact hf.of_moved hl ⟨hf.sorted.deques, hf.sorted.merged⟩ (List.Perm.refl _) rfl rfl rfl rfl

theorem Sound.adoptPush (hf : f.Sound chronicleOf) {thread : ℕ} {r : Receiving}
    {orphanChunks : List Arrival} (hold : f.adopting[thread]? = some (.looked r orphanChunks)) :
    ({ f.push r with adopting := f.adopting.insert thread (.next orphanChunks) } :
      ChunkArrivals).Sound chronicleOf := by
  obtain ⟨hk, hplaces, hs⟩ :=
    push_spec (hf.linked.found r (Or.inr ⟨thread, _, hold, rfl⟩)) hf.sorted
  have hl := hf.linked.of_kept hk
  refine hf.of_moved (hl.of_hands rfl rfl rfl fun r' hr' => Or.inl ?_) ⟨hs.deques, hs.merged⟩ ?_
    hk.lost hk.received hk.receiving hk.arrivals
  · rcases held_of_adopting f thread (.next orphanChunks) hr' hk.receiving rfl with hr' | hr'
    · exact hk.held_iff.mpr hr'
    · cases hr'
  · classical
    refine List.perm_iff_count.mpr fun x => ?_
    have hcount := count_inHands_replace hold (.next orphanChunks) x
    have hp := hplaces.count_eq x
    simp only [places, List.count_append, inHands, inDeques, Adopting.hands, List.count_cons,
      List.count_nil, hk.adopting] at hcount hp ⊢
    omega

theorem Sound.finishAdoption (hf : f.Sound chronicleOf) {thread : ℕ}
    (hold : f.adopting[thread]? = some (.next [])) :
    ({ f with adopting := f.adopting.erase thread } : ChunkArrivals).Sound chronicleOf := by
  refine hf.of_moved (hf.linked.of_hands rfl rfl rfl fun r hr => Or.inl ?_)
    ⟨hf.sorted.deques, hf.sorted.merged⟩ ?_ rfl rfl rfl rfl
  · rcases hr with hr | ⟨t, adopting, ht, hreceiving⟩
    · exact Or.inl hr
    · rw [Std.ExtTreeMap.getElem?_erase] at ht
      split at ht
      · cases ht
      · exact Or.inr ⟨t, adopting, ht, hreceiving⟩
  · have hperm := OrderedMap.perm_flatMap_of_getElem?
      (fun entry : ℕ × Adopting => entry.2.hands) hold
    classical
    refine List.perm_iff_count.mpr fun x => ?_
    have hcount := hperm.count_eq x
    simp only [places, List.count_append, inHands, inDeques, Adopting.hands,
      List.count_nil] at hcount ⊢
    omega

/-! ### Runs -/

theorem mem_heldHandles {r : Receiving} {h : ℕ} (hr : f.Held r) (hh : r.found = some h) :
    h ∈ f.heldHandles := by
  rw [heldHandles, List.mem_append, List.mem_filterMap, List.mem_filterMap]
  rcases hr with ⟨t, ht⟩ | ⟨t, adopting, ht, hholds⟩
  · exact Or.inl ⟨(t, r), Std.ExtTreeMap.mem_toList_iff_getElem?_eq_some.mpr ht, hh⟩
  · refine Or.inr ⟨(t, adopting), Std.ExtTreeMap.mem_toList_iff_getElem?_eq_some.mpr ht, ?_⟩
    rw [hholds, Option.bind_some, hh]

theorem sound_initial (h : (chunkArrivals chronicleOf).Initial f) : f.Sound chronicleOf := by
  obtain ⟨delay, registry, rfl⟩ := h
  refine { linked := ?_, sorted := ⟨by simp, by simp⟩, lost := rfl, conserved := ?_,
           distinct := ⟨List.nodup_nil, by simp [inReceipt]⟩ }
  · refine { consistent := fun storyId => ?_, handled := by simp, live := by simp [handleOf],
             apart := by simp, numbered := by simp [Live], unhooked := by simp,
             found := by simp [Held] }
    exact .of_unrecorded (by simp [GrapherDataStore.status]) (by simp [GrapherDataStore.status])
      (by simp [GrapherDataStore.status])
  · simp [places, inDeques, inHands]

theorem Sound.adoptNext (hf : f.Sound chronicleOf) {thread : ℕ} {a : Arrival}
    {orphanChunks : List Arrival} (hold : f.adopting[thread]? = some (.next (a :: orphanChunks)))
    (hstep : f.step chronicleOf (.adoptNext thread) = some f') : f'.Sound chronicleOf := by
  have hstarted := hf.startStoryRecording a.chunk.storyId a.chunk.startTime true
  have hadopting : (f.startStoryRecording (chronicleOf a.chunk.storyId) a.chunk.storyId
      a.chunk.startTime true).1.adopting = f.adopting := rfl
  simp only [ChunkArrivals.step, hold] at hstep
  split at hstep
  · -- refused: the chunk goes from the hands of the thread to those discarded
    next f₁ heq =>
    rw [heq] at hstarted hadopting
    rw [← hadopting] at hold
    injection hstep with hstep
    rw [← hstep]
    have hsound := hstarted.of_adopting hold (.next orphanChunks)
      [(a, f₁.destroyed a.chunk.storyId)] (List.Perm.refl _) (fun r hr => by cases hr)
    exact hsound.of_report a.chunk.storyId
  · -- recorded: the thread keeps the chunk for its lookup
    next f₁ wasActive heq =>
    rw [heq] at hstarted hadopting
    rw [← hadopting] at hold
    injection hstep with hstep
    rw [← hstep]
    have hsound := hstarted.of_adopting hold (.started a orphanChunks) [] (List.Perm.refl _)
      (fun r hr => by cases hr)
    simpa using hsound

/-- **What every step keeps** that finalizes no pipeline whose handle a thread holds. -/
theorem sound_step (hf : f.Sound chronicleOf) {l : ArrivalStep} (hcond : FinalizesUnheld f l)
    (hstep : (chunkArrivals chronicleOf).step f l = some f') : f'.Sound chronicleOf := by
  have hunheld : ∀ h ∈ f.finalizedBy l, ∀ r, f.Held r → r.found ≠ some h :=
    fun h hmem r hr hh => hcond h hmem (mem_heldHandles hr hh)
  change f.step chronicleOf l = some f' at hstep
  cases l with
  | startStoryRecording storyId startTime =>
    injection hstep with hstep
    exact hstep ▸ (hf.startStoryRecording storyId startTime false).of_noted _
  | stopStoryRecording storyId now =>
    injection hstep with hstep
    exact hstep ▸ hf.stopStoryRecording storyId now
  | destroyStory storyId =>
    injection hstep with hstep
    have hconsistent : (f.store.destroyStory storyId (chronicleOf storyId)).Consistent
        chronicleOf := by
      intro other
      rw [GrapherDataStore.status_destroyStory hf.linked.consistent]
      split
      · exact .of_unrecorded rfl rfl rfl
      · exact hf.linked.consistent other
    exact hstep ▸ (hf.unhookAll (fun p hp => hf.linked.handleOf_pipelineOf hp)
      (takesOut_destroyStory hf.linked storyId) hconsistent).of_noted _
  | destroyChronicle chronicle =>
    injection hstep with hstep
    have hconsistent : (f.store.destroyChronicle chronicle).Consistent chronicleOf := by
      intro other
      rw [GrapherDataStore.status_destroyChronicle hf.linked.consistent]
      split
      · exact .of_unrecorded rfl rfl rfl
      · exact hf.linked.consistent other
    exact hstep ▸ (hf.unhookAll (fun p hp => (hf.linked.handleOf_pipelinesOf hp).1)
      (takesOut_destroyChronicle hf.linked chronicle) hconsistent).of_noted _
  | finalize h =>
    obtain ⟨hmem, ⟨rfl⟩⟩ := Option.ite_none_right_eq_some.mp hstep
    exact hf.finalize hmem (hunheld h (List.mem_singleton_self h))
  | retireDecayedPipelines now =>
    injection hstep with hstep
    exact hstep ▸ hf.retireDecayedPipelines now hunheld
  | drainOrphanChunks =>
    injection hstep with hstep
    exact hstep ▸ hf.drainOrphanChunks
  | collectIngestedEvents storyId =>
    obtain ⟨p, hp, rfl⟩ := Option.map_eq_some_iff.mp hstep
    obtain ⟨rfl, -⟩ := (hf.linked.consistent storyId).named p hp
    obtain ⟨hk, hplaces, hs⟩ :=
      collect_spec (hf.linked.live_of_handled (hf.linked.handled _ p hp)) hf.sorted
    exact hf.of_kept hk hplaces hs
  | receive thread chunk =>
    simp only [ChunkArrivals.step] at hstep
    split at hstep
    · cases hstep
    · next hnone =>
      injection hstep with hstep
      exact hstep ▸ hf.receive hnone chunk
  | push thread =>
    obtain ⟨r, hr, rfl⟩ := Option.map_eq_some_iff.mp hstep
    exact hf.push hr
  | extractOrphanChunks thread =>
    simp only [ChunkArrivals.step] at hstep
    split at hstep
    · cases hstep
    · next hnone =>
      injection hstep with hstep
      exact hstep ▸ hf.extractOrphanChunks hnone
  | adoptNext thread =>
    have hstep' := hstep
    simp only [ChunkArrivals.step] at hstep'
    split at hstep'
    · next a orphanChunks hold => exact hf.adoptNext hold hstep
    · cases hstep'
  | adoptLookup thread =>
    simp only [ChunkArrivals.step] at hstep
    split at hstep
    · next a orphanChunks hold =>
      injection hstep with hstep
      have hfound : f.FoundLive ⟨a, f.handleOf a.chunk.storyId⟩ :=
        fun h hh => hf.linked.live _ h hh
      have hsound := hf.of_adopting hold
        (.looked ⟨a, f.handleOf a.chunk.storyId⟩ orphanChunks) [] (List.Perm.refl _)
        (fun r hr => by cases hr; exact hfound)
      rw [← hstep]
      simpa using hsound
    · cases hstep
  | adoptPush thread =>
    simp only [ChunkArrivals.step] at hstep
    split at hstep
    · next r orphanChunks hold =>
      injection hstep with hstep
      exact hstep ▸ hf.adoptPush hold
    · cases hstep
  | finishAdoption thread =>
    simp only [ChunkArrivals.step] at hstep
    split at hstep
    · next hold =>
      injection hstep with hstep
      exact hstep ▸ hf.finishAdoption hold
    · cases hstep

/-- Tombstones stand for destroyed stories only, and so do the chunks that were discarded. -/
structure Buried (chronicleOf : StoryId → ChronicleName) (f : ChunkArrivals) : Prop where
  tombstoned : ∀ storyId, (f.store.status chronicleOf storyId).tombstoned = true →
    f.destroyed storyId = true
  discarded : ∀ entry ∈ f.discarded, entry.2 = true

theorem tombstones_initial (h : (chunkArrivals chronicleOf).Initial f) : f.Buried chronicleOf := by
  obtain ⟨delay, registry, rfl⟩ := h
  exact ⟨fun storyId hs => by simp [GrapherDataStore.status, StoryStatus.tombstoned] at hs,
    fun entry hentry => by cases hentry⟩

/-- A step that raises no tombstone and discards nothing. -/
theorem Buried.of_same (hb : f.Buried chronicleOf)
    (htombstoned : ∀ storyId, (f'.store.status chronicleOf storyId).tombstoned =
      (f.store.status chronicleOf storyId).tombstoned)
    (hdiscarded : f'.discarded = f.discarded) (hdestroyed : f'.destroyed = f.destroyed) :
    f'.Buried chronicleOf where
  tombstoned := by
    intro storyId hs
    rw [htombstoned] at hs
    rw [hdestroyed]
    exact hb.tombstoned storyId hs
  discarded := by
    rw [hdiscarded]
    exact hb.discarded

theorem Buried.of_beside (hb : f.Buried chronicleOf) (hbeside : Beside f f') :
    f'.Buried chronicleOf :=
  hb.of_same (fun storyId => by rw [hbeside.store]) hbeside.discarded hbeside.destroyed

theorem beside_foldl_finalize (hs : List ℕ) {f : ChunkArrivals} (hsorted : f.Sorted) :
    Beside f (hs.foldl ChunkArrivals.finalize f) := by
  induction hs generalizing f with
  | nil => exact Beside.refl f
  | cons h hs ih =>
    obtain ⟨hb, -, hsorted', -⟩ := finalize_spec hsorted h
    exact hb.trans (ih hsorted')

/-- A destroy buries the stories it destroys, and no others. -/
theorem Buried.unhookAll (hb : f.Buried chronicleOf) (hf : f.Sound chronicleOf)
    {ps : List StoryPipeline} {g' : GrapherDataStore} {covers : StoryId → Bool}
    (hps : ∀ p ∈ ps, f.handleOf p.storyId = some p.incarnation)
    (hg' : ∀ other, (g'.status chronicleOf other).tombstoned = true → covers other = true ∨
      (f.store.status chronicleOf other).tombstoned = true) :
    ({ f.unhookAll ps g' with
      destroyed := fun other => covers other || f.destroyed other } :
        ChunkArrivals).Buried chronicleOf := by
  obtain ⟨f₁, -, hk, heq⟩ := hf.before_unhookAll g' hps
  rw [heq]
  constructor
  · intro other hs
    rw [Bool.or_eq_true]
    exact (hg' other hs).imp_right (hb.tombstoned other)
  · exact (hb.of_beside hk.toBeside).discarded

/-- A visor start lifts the tombstones of its story, and no start raises any. -/
theorem Buried.startStoryRecording (hb : f.Buried chronicleOf) (hf : f.Sound chronicleOf)
    (storyId : StoryId) (startTime : ℕ) :
    ({ (f.startStoryRecording (chronicleOf storyId) storyId startTime false).1 with
      destroyed := fun other => other ≠ storyId && f.destroyed other } :
        ChunkArrivals).Buried chronicleOf := by
  refine ⟨fun other hs => ?_, hb.discarded⟩
  have hstatus := GrapherDataStore.status_register hf.linked.consistent storyId startTime other
  change ((f.store.startStoryRecording (chronicleOf storyId) storyId startTime
    false).1.status chronicleOf other).tombstoned = true at hs
  rw [hstatus] at hs
  split at hs
  · -- the story that is started has no tombstone
    simp [StoryStatus.register, StoryStatus.tombstoned] at hs
  · next hne =>
    have hbefore : (f.store.status chronicleOf other).tombstoned = true := by
      simp only [StoryStatus.tombstoned, Bool.or_eq_true] at hs ⊢
      refine hs.imp_right fun hs => ?_
      split at hs
      · cases hs
      · exact hs
    simp [hb.tombstoned other hbefore, Ne.symm hne]

theorem tombstoned_startStoryRecording (hf : f.Sound chronicleOf) (storyId : StoryId)
    (startTime : ℕ) (other : StoryId) :
    ((f.startStoryRecording (chronicleOf storyId) storyId startTime true).1.store.status chronicleOf
      other).tombstoned = (f.store.status chronicleOf other).tombstoned := by
  refine (congrArg StoryStatus.tombstoned
    (GrapherDataStore.status_adopt hf.linked.consistent storyId startTime other)).trans ?_
  split
  · exact StoryStatus.tombstoned_adopt _
  · rfl

/-- **An adoption discards a chunk only if a tombstone stands**, so its story is destroyed. -/
theorem Buried.adoptNext (hb : f.Buried chronicleOf) (hf : f.Sound chronicleOf) {thread : ℕ}
    {a : Arrival} {orphanChunks : List Arrival}
    (hold : f.adopting[thread]? = some (.next (a :: orphanChunks)))
    (hstep : f.step chronicleOf (.adoptNext thread) = some f') : f'.Buried chronicleOf := by
  have hstarted : (f.startStoryRecording (chronicleOf a.chunk.storyId) a.chunk.storyId
      a.chunk.startTime true).1.Buried chronicleOf :=
    hb.of_same (tombstoned_startStoryRecording hf _ _) rfl rfl
  have hresult := GrapherDataStore.wasActive_adopt (g := f.store) chronicleOf a.chunk.storyId
    a.chunk.startTime
  simp only [ChunkArrivals.step, hold] at hstep
  split at hstep
  · next f₁ heq =>
    -- an adoption is refused only where a tombstone stands
    have hrefused : (f.store.startStoryRecording (chronicleOf a.chunk.storyId) a.chunk.storyId
        a.chunk.startTime true).2 = none := congrArg Prod.snd heq
    rw [hresult] at hrefused
    have htombstoned : (f.store.status chronicleOf a.chunk.storyId).tombstoned = true := by
      by_contra hnot
      rw [if_neg hnot] at hrefused
      cases hrefused
    have hdestroyed : f₁.destroyed = f.destroyed :=
      (congrArg (fun r => r.1.destroyed) heq).symm
    rw [heq] at hstarted
    injection hstep with hstep
    rw [← hstep]
    refine ⟨hstarted.tombstoned, fun entry hentry => ?_⟩
    rcases List.mem_append.mp hentry with hentry | hentry
    · exact hstarted.discarded entry hentry
    · rw [List.mem_singleton.mp hentry, hdestroyed]
      exact hb.tombstoned _ htombstoned
  · next f₁ wasActive heq =>
    rw [heq] at hstarted
    injection hstep with hstep
    exact hstep ▸ ⟨hstarted.tombstoned, hstarted.discarded⟩

/-- **What every step keeps of the tombstones and the discarded chunks.** -/
theorem tombstones_step (hf : f.Sound chronicleOf) (hb : f.Buried chronicleOf) {l : ArrivalStep}
    (hstep : (chunkArrivals chronicleOf).step f l = some f') : f'.Buried chronicleOf := by
  change f.step chronicleOf l = some f' at hstep
  cases l with
  | startStoryRecording storyId startTime =>
    injection hstep with hstep
    exact hstep ▸ hb.startStoryRecording hf storyId startTime
  | stopStoryRecording storyId now =>
    injection hstep with hstep
    refine hstep ▸ hb.of_same (fun other => ?_) rfl rfl
    refine (congrArg StoryStatus.tombstoned
      (GrapherDataStore.status_stopStoryRecording storyId now other)).trans ?_
    split
    · exact StoryStatus.tombstoned_stop _
    · rfl
  | destroyStory storyId =>
    injection hstep with hstep
    refine hstep ▸ hb.unhookAll hf (fun p hp => hf.linked.handleOf_pipelineOf hp) fun other hs => ?_
    rw [GrapherDataStore.status_destroyStory hf.linked.consistent] at hs
    split at hs
    · next heq => exact Or.inl (decide_eq_true heq.symm)
    · exact Or.inr hs
  | destroyChronicle chronicle =>
    injection hstep with hstep
    refine hstep ▸ hb.unhookAll hf (fun p hp => (hf.linked.handleOf_pipelinesOf hp).1)
      fun other hs => ?_
    rw [GrapherDataStore.status_destroyChronicle hf.linked.consistent] at hs
    split at hs
    · next heq => exact Or.inl (decide_eq_true heq)
    · exact Or.inr hs
  | finalize h =>
    obtain ⟨-, ⟨rfl⟩⟩ := Option.ite_none_right_eq_some.mp hstep
    have hbeside := (finalize_spec hf.sorted h).1
    exact hb.of_same (fun other => by rw [hbeside.store]) hbeside.discarded hbeside.destroyed
  | retireDecayedPipelines now =>
    injection hstep with hstep
    have hbeside := beside_foldl_finalize (f.retired now) hf.sorted
    refine hstep ▸ hb.of_same (fun other => ?_) hbeside.discarded hbeside.destroyed
    refine (congrArg StoryStatus.tombstoned
      (GrapherDataStore.status_retireDecayedPipelines hf.linked.consistent now other)).trans ?_
    exact StoryStatus.tombstoned_retire now
  | drainOrphanChunks =>
    injection hstep with hstep
    exact hstep ▸ hb.of_beside (drain_spec hf.linked.live hf.sorted).1.toBeside
  | collectIngestedEvents storyId =>
    obtain ⟨p, hp, rfl⟩ := Option.map_eq_some_iff.mp hstep
    obtain ⟨rfl, -⟩ := (hf.linked.consistent storyId).named p hp
    exact hb.of_beside
      (collect_spec (hf.linked.live_of_handled (hf.linked.handled _ p hp)) hf.sorted).1.toBeside
  | receive thread chunk =>
    simp only [ChunkArrivals.step] at hstep
    split at hstep
    · cases hstep
    · injection hstep with hstep
      exact hstep ▸ ⟨hb.tombstoned, hb.discarded⟩
  | push thread =>
    obtain ⟨r, hr, rfl⟩ := Option.map_eq_some_iff.mp hstep
    have hkept := (push_spec (hf.linked.found r (Or.inl ⟨thread, hr⟩)) hf.sorted).1
    have hpushed := hb.of_beside hkept.toBeside
    exact ⟨hpushed.tombstoned, hpushed.discarded⟩
  | extractOrphanChunks thread =>
    simp only [ChunkArrivals.step] at hstep
    split at hstep
    · cases hstep
    · injection hstep with hstep
      exact hstep ▸ ⟨hb.tombstoned, hb.discarded⟩
  | adoptNext thread =>
    have hstep' := hstep
    simp only [ChunkArrivals.step] at hstep'
    split at hstep'
    · next a orphanChunks hold => exact hb.adoptNext hf hold hstep
    · cases hstep'
  | adoptLookup thread =>
    simp only [ChunkArrivals.step] at hstep
    split at hstep
    · injection hstep with hstep
      exact hstep ▸ ⟨hb.tombstoned, hb.discarded⟩
    · cases hstep
  | adoptPush thread =>
    simp only [ChunkArrivals.step] at hstep
    split at hstep
    · next r orphanChunks hold =>
      injection hstep with hstep
      have hkept :=
        (push_spec (hf.linked.found r (Or.inr ⟨thread, _, hold, rfl⟩)) hf.sorted).1
      have hpushed := hb.of_beside hkept.toBeside
      exact hstep ▸ ⟨hpushed.tombstoned, hpushed.discarded⟩
    · cases hstep
  | finishAdoption thread =>
    simp only [ChunkArrivals.step] at hstep
    split at hstep
    · injection hstep with hstep
      exact hstep ▸ ⟨hb.tombstoned, hb.discarded⟩
    · cases hstep

/-- Every received chunk is in exactly one place: the orphan queue, a deque of a handle of
its story, the hands of an adopting thread, the pipeline of its story, or discarded while its
story was destroyed; and none was pushed to a handle that was deleted. -/
structure Conserved (f : ChunkArrivals) : Prop where
  inOnePlace : f.places.Perm f.received
  received : (f.received.map Arrival.number).Nodup
  ofStory : f.Sorted
  ofDestroyed : ∀ entry ∈ f.discarded, entry.2 = true
  noLatePush : f.lost = []

theorem Sound.toConserved (hf : f.Sound chronicleOf) (hb : f.Buried chronicleOf) :
    f.Conserved where
  inOnePlace := hf.conserved
  ofDestroyed := hb.discarded
  received := by
    have hnodup := hf.distinct.nodup
    rw [List.map_append] at hnodup
    exact hnodup.of_append_left
  ofStory := hf.sorted
  noLatePush := hf.lost

end ChunkArrivals

open ChunkArrivals

/-- **Chunks are conserved** in every run in which no pipeline is finalized while a thread
stands between looking its handle up and pushing to it. -/
theorem chunks_conserved {chronicleOf : StoryId → ChronicleName} {f₀ f : ChunkArrivals}
    {ls : List ArrivalStep} (hinit : (chunkArrivals chronicleOf).Initial f₀)
    (hcond : (chunkArrivals chronicleOf).StepsMeet FinalizesUnheld f₀ ls)
    (hrun : (chunkArrivals chronicleOf).run f₀ ls = some f) : f.Conserved := by
  obtain ⟨hsound, hburied⟩ : f.Sound chronicleOf ∧ f.Buried chronicleOf :=
    System.run_induction_of_stepsMeet (P := fun f => f.Sound chronicleOf ∧ f.Buried chronicleOf)
      (fun _ _ _ hs hc hstep => ⟨sound_step hs.1 hc hstep, tombstones_step hs.1 hs.2 hstep⟩)
      ⟨sound_initial hinit, tombstones_initial hinit⟩ hcond hrun
  exact hsound.toConserved hburied

/-- A chunk of story `1`. -/
def lateChunk : StoryChunk := .new 1 10 20

/-- A story is stopped and retired; a chunk of it comes after that, and the story is
destroyed before the chunk is adopted. -/
def retiredBeforeArrival : List ArrivalStep :=
  [.startStoryRecording 1 0, .receive 0 lateChunk, .push 0, .stopStoryRecording 1 0,
    .retireDecayedPipelines 1000000000000, .receive 0 lateChunk, .push 0, .destroyStory 1,
    .extractOrphanChunks 0, .adoptNext 0, .finishAdoption 0, .receive 0 lateChunk, .push 0]

/-- The first chunk is merged, the second discarded, and the third is an orphan. -/
theorem chunks_conserved_retired :
    ∃ f, (chunkArrivals fun _ => "sea").run {} retiredBeforeArrival = some f ∧
      f.merged.length = 1 ∧ f.discarded.length = 1 ∧ f.orphanQueue.length = 1 ∧
      f.Conserved := by
  have hend : ((chunkArrivals fun _ => "sea").run {} retiredBeforeArrival).any (fun f =>
      decide (f.merged.length = 1 ∧ f.discarded.length = 1 ∧ f.orphanQueue.length = 1)) =
        true := by
    decide +kernel
  have hcond : (chunkArrivals fun _ => "sea").StepsMeet FinalizesUnheld {} retiredBeforeArrival :=
    System.stepsMeet_of_check (by decide +kernel)
  obtain ⟨f, hrun, hf⟩ := (Option.any_eq_true _ _).mp hend
  obtain ⟨hmerged, hdiscarded, horphans⟩ := of_decide_eq_true hf
  exact ⟨f, hrun, hmerged, hdiscarded, horphans, chunks_conserved ⟨_, _, rfl⟩ hcond hrun⟩

/-- The story is retired after a thread has looked its handle up. -/
def retiredBeforePush : List ArrivalStep :=
  [.startStoryRecording 1 0, .receive 0 lateChunk, .stopStoryRecording 1 0,
    .retireDecayedPipelines 1000000000000, .push 0]

/-- **A chunk is lost** when the pipeline of its story is retired between the lookup and the
push of the thread that receives it. -/
theorem late_push_loses_chunk :
    ¬∀ f, (chunkArrivals fun _ => "sea").Reachable f → f.Conserved := by
  intro hclaim
  have hend : ((chunkArrivals fun _ => "sea").run {} retiredBeforePush).any (fun f =>
      decide (f.lost.length = 1)) = true := by
    decide +kernel
  obtain ⟨f, hrun, hf⟩ := (Option.any_eq_true _ _).mp hend
  have hlost := (hclaim f ⟨{}, retiredBeforePush, ⟨_, _, rfl⟩, hrun⟩).noLatePush
  have hlength : f.lost.length = 1 := of_decide_eq_true hf
  rw [hlost] at hlength
  cases hlength

end ChronoLog
