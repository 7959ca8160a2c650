import ChronoLog.Basic
import ChronoLog.Lib.OrdMap
import ChronoLog.Lib.Transition

/-!
# The visor's metadata

The visor knows the chronicles, their stories, and which clients have acquired
which stories.  An acquisition is kept three times: as the story's acquisition
count, in the story's map of acquirers, and in the client's list of acquired
stories.  The first two are in `ChronicleMetaDirectory`, the third is in
`ClientRegistryManager`, and two of the three updates do nothing for a client
that is not registered.

Every method of the directory runs under the directory's mutex and every method of the
registry under the registry's.  `acquire_story` takes the registry's mutex twice, to look the
client up and to give it the story, and the registry's own methods may come in between: it is
two steps here.  Every other method takes each mutex once at most and is one step.  The hash of
the names is a parameter.

## Main definitions

* `Story`, `Chronicle`, `ClientInfo`, `Metadata` — the state.
* `Metadata.acquireStory`, `Metadata.releaseStory` and their neighbours — the
  methods, under the source's names.
* `Directory`, `MetadataCall`, `directory` — the methods as a transition system.
-/

namespace ChronoLog.Visor

open Transition

abbrev ClientId := UInt64

abbrev ChronicleId := UInt64

/-- The status codes of the visor. -/
inductive ErrorCode where
  | CL_SUCCESS
  | CL_ERR_UNKNOWN
  | CL_ERR_INVALID_ARG
  | CL_ERR_NOT_EXIST
  | CL_ERR_ACQUIRED
  | CL_ERR_NOT_ACQUIRED
  | CL_ERR_CHRONICLE_EXISTS
  | CL_ERR_NO_KEEPERS
  deriving DecidableEq, Repr

/-- A story.  The acquirers are the keys of `acquirerClientMap_`, whose pointers are
never read; `count` is `stats_.count`. -/
structure Story where
  name : String
  sid : StoryId
  cid : ChronicleId
  count : ℕ := 0
  acquirerClientMap : OrdSet ClientId := ∅

namespace Story

/-- `addAcquirerClient`; it is given no client info for a client that is not
registered, and then does nothing. -/
def addAcquirerClient (story : Story) (clientId : ClientId) (registered : Bool) : Story :=
  if registered then
    { story with acquirerClientMap := story.acquirerClientMap.insert clientId }
  else story

/-- `removeAcquirerClient`. -/
def removeAcquirerClient (story : Story) (clientId : ClientId) : Story :=
  { story with acquirerClientMap := story.acquirerClientMap.erase clientId }

/-- `incrementAcquisitionCount`. -/
def incrementAcquisitionCount (story : Story) : Story := { story with count := story.count + 1 }

/-- `decrementAcquisitionCount`. -/
def decrementAcquisitionCount (story : Story) : Story := { story with count := story.count - 1 }

end Story

section Hash

variable (cityHash64 : String → UInt64)

/-- `storyIdOf`. -/
def storyIdOf (chronicleName storyName : String) : StoryId :=
  cityHash64 (toString chronicleName.utf8ByteSize ++ ":" ++ chronicleName ++ storyName)

/-- A chronicle.  Nothing ever increments its own count. -/
structure Chronicle where
  name : String
  cid : ChronicleId
  count : ℕ := 0
  storyMap : OrdMap StoryId Story := ∅

namespace Chronicle

/-- `getStoryId`: `0` for a story that is not there. -/
def getStoryId (chronicle : Chronicle) (storyName : String) : StoryId :=
  let sid := storyIdOf cityHash64 chronicle.name storyName
  if chronicle.storyMap.contains sid then sid else 0

/-- `addStory`: the story of that name, made if there was none. -/
def addStory (chronicle : Chronicle) (storyName : String) : Story :=
  let sid := storyIdOf cityHash64 chronicle.name storyName
  (chronicle.storyMap[sid]?).getD { name := storyName, sid := sid, cid := chronicle.cid }

/-- `removeStory`; the id is that of the given chronicle name. -/
def removeStory (chronicle : Chronicle) (chronicleName storyName : String) :
    Chronicle × ErrorCode :=
  let sid := storyIdOf cityHash64 chronicleName storyName
  match chronicle.storyMap[sid]? with
  | none => (chronicle, .CL_ERR_NOT_EXIST)
  | some story =>
    if story.count ≠ 0 then (chronicle, .CL_ERR_ACQUIRED)
    else ({ chronicle with storyMap := chronicle.storyMap.erase sid }, .CL_SUCCESS)

end Chronicle

/-- A client's record.  An entry of `acquiredStoryList_` points to a story; it is
named by the story's id and chronicle here. -/
structure ClientInfo where
  acquiredStoryList : OrdMap StoryId ChronicleId := ∅

/-- The state of `ChronicleMetaDirectory` and `ClientRegistryManager`. -/
structure Metadata where
  chronicleMap : OrdMap ChronicleId Chronicle := ∅
  clientRegistry : OrdMap ClientId ClientInfo := ∅

namespace Metadata

/-! ### `ClientRegistryManager` -/

/-- `add_client_record`; a record that is there is not overwritten. -/
def addClientRecord (m : Metadata) (clientId : ClientId) : Metadata × ErrorCode :=
  if m.clientRegistry.contains clientId then (m, .CL_ERR_INVALID_ARG)
  else ({ m with clientRegistry := m.clientRegistry.insert clientId {} }, .CL_SUCCESS)

/-- `remove_client_record`. -/
def removeClientRecord (m : Metadata) (clientId : ClientId) : Metadata × ErrorCode :=
  match m.clientRegistry[clientId]? with
  | none => (m, .CL_ERR_UNKNOWN)
  | some info =>
    if info.acquiredStoryList.isEmpty then
      ({ m with clientRegistry := m.clientRegistry.erase clientId }, .CL_SUCCESS)
    else (m, .CL_ERR_ACQUIRED)

/-- `add_story_acquisition`; its answer is not read. -/
def addStoryAcquisition (m : Metadata) (clientId : ClientId) (sid : StoryId) (cid : ChronicleId) :
    Metadata :=
  match m.clientRegistry[clientId]? with
  | none => m
  | some info =>
    if info.acquiredStoryList.contains sid then m
    else
      { m with
        clientRegistry := m.clientRegistry.insert clientId
          { acquiredStoryList := info.acquiredStoryList.insert sid cid } }

/-- `remove_story_acquisition`. -/
def removeStoryAcquisition (m : Metadata) (clientId : ClientId) (sid : StoryId) :
    Metadata × ErrorCode :=
  match m.clientRegistry[clientId]? with
  | none => (m, .CL_ERR_UNKNOWN)
  | some info =>
    if info.acquiredStoryList.contains sid then
      ({ m with
        clientRegistry := m.clientRegistry.insert clientId
          { acquiredStoryList := info.acquiredStoryList.erase sid } }, .CL_SUCCESS)
    else (m, .CL_ERR_NOT_ACQUIRED)

/-! ### `ChronicleMetaDirectory` -/

/-- The chronicle of that name. -/
def findChronicle (m : Metadata) (chronicleName : String) : Option Chronicle :=
  m.chronicleMap[cityHash64 chronicleName]?

/-- The directory with a chronicle changed. -/
def putChronicle (m : Metadata) (cid : ChronicleId) (chronicle : Chronicle) : Metadata :=
  { m with chronicleMap := m.chronicleMap.insert cid chronicle }

/-- The directory with a story of a chronicle changed. -/
def putStory (m : Metadata) (cid : ChronicleId) (chronicle : Chronicle) (sid : StoryId)
    (story : Story) : Metadata :=
  m.putChronicle cid { chronicle with storyMap := chronicle.storyMap.insert sid story }

/-- `create_chronicle`. -/
def createChronicle (m : Metadata) (name : String) : Metadata × ErrorCode :=
  let cid := cityHash64 name
  if m.chronicleMap.contains cid then (m, .CL_ERR_CHRONICLE_EXISTS)
  else (m.putChronicle cid { name := name, cid := cid }, .CL_SUCCESS)

/-- `destroy_chronicle`. -/
def destroyChronicle (m : Metadata) (name : String) : Metadata × ErrorCode :=
  match m.findChronicle cityHash64 name with
  | none => (m, .CL_ERR_NOT_EXIST)
  | some chronicle =>
    if chronicle.storyMap.toList.any fun entry => !entry.2.acquirerClientMap.isEmpty then
      (m, .CL_ERR_ACQUIRED)
    else if chronicle.count ≠ 0 then (m, .CL_ERR_UNKNOWN)
    else ({ m with chronicleMap := m.chronicleMap.erase (cityHash64 name) }, .CL_SUCCESS)

/-- `destroy_story`. -/
def destroyStory (m : Metadata) (chronicleName storyName : String) : Metadata × ErrorCode :=
  match m.findChronicle cityHash64 chronicleName with
  | none => (m, .CL_ERR_NOT_EXIST)
  | some chronicle =>
    let sid := chronicle.getStoryId cityHash64 storyName
    if sid = 0 then (m, .CL_ERR_NOT_EXIST)
    else
      match chronicle.storyMap[sid]? with
      | none => (m, .CL_ERR_NOT_EXIST)
      | some story =>
        if !story.acquirerClientMap.isEmpty then (m, .CL_ERR_ACQUIRED)
        else
          let (chronicle, res) := chronicle.removeStory cityHash64 chronicleName storyName
          (m.putChronicle (cityHash64 chronicleName) chronicle, res)

/-- `acquire_story` up to `addAcquirerClient`, with the story that the client is still to get
in its list. -/
def beginAcquire (m : Metadata) (clientId : ClientId) (chronicleName storyName : String) :
    Metadata × ErrorCode × Option Story :=
  match m.findChronicle cityHash64 chronicleName with
  | none => (m, .CL_ERR_NOT_EXIST, none)
  | some chronicle =>
    let story := chronicle.addStory cityHash64 storyName
    let sid := storyIdOf cityHash64 chronicle.name storyName
    let cid := cityHash64 chronicleName
    if story.acquirerClientMap.contains clientId then
      (m.putStory cid chronicle sid story, .CL_ERR_ACQUIRED, none)
    else
      let story := story.incrementAcquisitionCount
      let story := story.addAcquirerClient clientId (m.clientRegistry.contains clientId)
      (m.putStory cid chronicle sid story, .CL_SUCCESS, some story)

/-- `acquire_story`, with the story's id. -/
def acquireStory (m : Metadata) (clientId : ClientId) (chronicleName storyName : String) :
    Metadata × ErrorCode × StoryId :=
  match m.beginAcquire cityHash64 clientId chronicleName storyName with
  | (m, code, none) => (m, code, 0)
  | (m, code, some story) => (m.addStoryAcquisition clientId story.sid story.cid, code, story.sid)

/-- What `release_story` answers. -/
structure Release where
  code : ErrorCode
  storyId : StoryId := 0
  wasLastAcquirer : Bool := false

/-- `release_story`. -/
def releaseStory (m : Metadata) (clientId : ClientId) (chronicleName storyName : String) :
    Metadata × Release :=
  match m.findChronicle cityHash64 chronicleName with
  | none => (m, { code := .CL_ERR_NOT_EXIST })
  | some chronicle =>
    let sid := chronicle.getStoryId cityHash64 storyName
    if sid = 0 then (m, { code := .CL_ERR_NOT_EXIST })
    else
      match chronicle.storyMap[sid]? with
      | none => (m, { code := .CL_ERR_NOT_EXIST })
      | some story =>
        if story.acquirerClientMap.contains clientId then
          let story := story.decrementAcquisitionCount
          let wasLastAcquirer := story.count = 0
          let story := story.removeAcquirerClient clientId
          let m := m.putStory (cityHash64 chronicleName) chronicle sid story
          let (m, code) := m.removeStoryAcquisition clientId sid
          (m, { code := code, storyId := story.sid, wasLastAcquirer := wasLastAcquirer })
        else (m, { code := .CL_ERR_NOT_ACQUIRED })

/-- The client is in the story's map of acquirers, as `release_story` looks it up. -/
def isAcquirer (m : Metadata) (clientId : ClientId) (chronicleName storyName : String) : Bool :=
  match m.findChronicle cityHash64 chronicleName with
  | none => false
  | some chronicle =>
    let sid := chronicle.getStoryId cityHash64 storyName
    if sid = 0 then false
    else (chronicle.storyMap[sid]?).any fun story => story.acquirerClientMap.contains clientId

/-- `evaluate_story_destroy`: the story's id, and whether the caller holds it. -/
def evaluateStoryDestroy (m : Metadata) (chronicleName storyName : String)
    (requesterClientId : ClientId) : ErrorCode × StoryId × Bool :=
  match m.findChronicle cityHash64 chronicleName with
  | none => (.CL_ERR_NOT_EXIST, 0, false)
  | some chronicle =>
    let sid := chronicle.getStoryId cityHash64 storyName
    if sid = 0 then (.CL_ERR_NOT_EXIST, 0, false)
    else
      match chronicle.storyMap[sid]? with
      | none => (.CL_ERR_NOT_EXIST, 0, false)
      | some story =>
        if story.acquirerClientMap.toList.any fun clientId => clientId ≠ requesterClientId then
          (.CL_ERR_ACQUIRED, sid, false)
        else (.CL_SUCCESS, sid, !story.acquirerClientMap.isEmpty)

/-- `get_acquired_stories_snapshot`. -/
def acquiredStoriesSnapshot (m : Metadata) (clientId : ClientId) :
    List (StoryId × ChronicleId) :=
  match m.clientRegistry[clientId]? with
  | none => []
  | some info => info.acquiredStoryList.toList

end Metadata

/-- The metadata, and the `acquire_story` that holds the directory's mutex between its two
visits to the client registry, with its client and the story. -/
structure Directory where
  metadata : Metadata := {}
  acquiring : Option (ClientId × Story) := none

/-- The calls that change the metadata. -/
inductive MetadataCall where
  | addClientRecord (clientId : ClientId)
  | removeClientRecord (clientId : ClientId)
  | createChronicle (name : String)
  | destroyChronicle (name : String)
  | destroyStory (chronicleName storyName : String)
  /-- `acquire_story` up to its first visit to the client registry. -/
  | acquireStory (clientId : ClientId) (chronicleName storyName : String)
  /-- `acquire_story` comes to the client registry again, and returns. -/
  | addStoryAcquisition
  | releaseStory (clientId : ClientId) (chronicleName storyName : String)

/-- A method of the directory, which waits for the directory's mutex. -/
def Directory.locked (d : Directory) (call : Metadata → Metadata) : Option Directory :=
  match d.acquiring with
  | none => some { d with metadata := call d.metadata }
  | some _ => none

/-- The directory after a call, if the call can have the mutex. -/
def Directory.step (d : Directory) : MetadataCall → Option Directory
  | .addClientRecord clientId => some { d with metadata := (d.metadata.addClientRecord clientId).1 }
  | .removeClientRecord clientId =>
    some { d with metadata := (d.metadata.removeClientRecord clientId).1 }
  | .createChronicle name => d.locked fun m => (m.createChronicle cityHash64 name).1
  | .destroyChronicle name => d.locked fun m => (m.destroyChronicle cityHash64 name).1
  | .destroyStory chronicleName storyName =>
    d.locked fun m => (m.destroyStory cityHash64 chronicleName storyName).1
  | .acquireStory clientId chronicleName storyName =>
    match d.acquiring with
    | none =>
      let (m, _, story) := d.metadata.beginAcquire cityHash64 clientId chronicleName storyName
      some { metadata := m, acquiring := story.map fun story => (clientId, story) }
    | some _ => none
  | .addStoryAcquisition =>
    d.acquiring.map fun acquiring =>
      { metadata := d.metadata.addStoryAcquisition acquiring.1 acquiring.2.sid acquiring.2.cid }
  | .releaseStory clientId chronicleName storyName =>
    d.locked fun m => (m.releaseStory cityHash64 clientId chronicleName storyName).1

/-- The visor's metadata, from the start of the visor. -/
def directory : System Directory MetadataCall where
  Initial d := d = {}
  step d c := d.step cityHash64 c

end Hash

/-- `CityHash64` on the few names that concrete runs use. -/
def cityHash64OfSea (name : String) : UInt64 :=
  if name = "sea" then 0x4f2aafe9c21dc882
  else if name = "3:seasalt" then 0x2e9c309aa333f285
  else if name = "3:seatide" then 0x389ba393129ad335
  else 0

end ChronoLog.Visor
