import ChronoLog.Client.StoryHandle
import ChronoLog.Lib.OrdMap
import ChronoLog.Lib.Transition
import ChronoLog.Player.HotRangeSplit

/-!
# The requests of a player

A request for a playback gets an agent for its receiver, asks the keepers, and leaves its
response with the agent.  Where a part of it comes from the archive, the response is not
ready before a reading thread has added that part.  A thread of the agent takes the ready
responses and sends them.

## Main definitions

* `StoryPlaybackRequest`, `ActiveQuery` — a request, and its response while it is with an agent.
* `PlaybackService.step` — one step of a request, a reading thread or a response thread.

## Main results

* `ActiveQuery.Right.reply` — a ready response is the reply to the replay.
-/

namespace ChronoLog.Player

open Client (ServiceId)

abbrev ClientQueryId := UInt32

/-- The arguments of `story_playback_request`. -/
structure StoryPlaybackRequest where
  receiver_service_id : ServiceId
  query_id : ClientQueryId
  story_id : StoryId
  chronicle_name : String
  story_name : String
  start_time : ℕ
  end_time : ℕ
  deriving DecidableEq, Repr

/-- The endpoint an agent is kept under. -/
abbrev Endpoint := BitVec 48

instance : Std.TransOrd Endpoint := inferInstanceAs (Std.TransOrd (BitVec 48))

def StoryPlaybackRequest.endpoint (q : StoryPlaybackRequest) : Endpoint :=
  q.receiver_service_id.getServiceEndpoint

structure PlaybackQueryResponse where
  query_id : ClientQueryId
  events : List LogEvent := []
  complete : Bool := true
  deriving DecidableEq, Repr

/-- `ArchiveReadingRequest`; its agent is named by its endpoint. -/
structure ArchiveReadingRequest where
  queryResponseAgent : Endpoint
  queryId : ClientQueryId
  chronicleName : String
  storyName : String
  startTime : ℕ
  endTime : ℕ
  deriving DecidableEq, Repr

/-- `is_valid`. -/
def ArchiveReadingRequest.isValid (r : ArchiveReadingRequest) : Bool :=
  decide (r.queryId > 0) && !r.chronicleName.isEmpty && !r.storyName.isEmpty &&
    decide (r.startTime > 0) && decide (r.startTime < r.endTime)

/-! ### The response to a request -/

/-- What the fetches from the keepers came to, one for each keeper of the story; nothing where no
fetch could be issued. -/
abbrev Fetched := List (Option HotRangeResponse)

/-- What a reading thread hands over: the events of the chunks that it read, and whether it could
read every file. -/
structure ArchiveRead where
  chunks : List (List LogEvent)
  success : Bool
  deriving DecidableEq, Repr

def ArchiveRead.archivedEvents (read : ArchiveRead) : List LogEvent := read.chunks.flatten

namespace StoryPlaybackRequest

variable (q : StoryPlaybackRequest) (fetched : Fetched)

def split : HotRangeSplit := splitHotRange fetched.reduceOption q.start_time q.end_time

def plan : ReplayPlan :=
  planReplay (q.split fetched) q.end_time (fetched.all fun r => r.any (·.answered))
    (fetched.reduceOption.any (·.truncated))

/-- The response without its archive part. -/
def hotResponse : PlaybackQueryResponse :=
  ⟨q.query_id, (q.split fetched).hotEvents, (q.plan fetched).complete⟩

/-- The request for the archive part. -/
def archiveRequest : ArchiveReadingRequest :=
  ⟨q.endpoint, q.query_id, q.chronicle_name, q.story_name, q.start_time,
    (q.plan fetched).archiveEnd⟩

end StoryPlaybackRequest

/-- The archive part is added to a response. -/
def PlaybackQueryResponse.addArchived (response : PlaybackQueryResponse) (read : ArchiveRead) :
    PlaybackQueryResponse :=
  { response with
    complete := response.complete && read.success
    events := if read.archivedEvents.isEmpty then response.events
      else mergeReplayEvents read.archivedEvents response.events }

/-- An entry of `active_queries`, with what its request fetched and what was read for it. -/
structure ActiveQuery where
  ready : Bool
  response : PlaybackQueryResponse
  /-- The number of the call of `story_playback_request`. -/
  serial : ℕ
  query : StoryPlaybackRequest
  fetched : Fetched
  archive : Option ArchiveRead := none
  deriving DecidableEq, Repr

namespace ActiveQuery

def plan (a : ActiveQuery) : ReplayPlan := a.query.plan a.fetched

/-- The archive request that was made for the query. -/
def request (a : ActiveQuery) : ArchiveReadingRequest := a.query.archiveRequest a.fetched

def addArchived (a : ActiveQuery) (read : ArchiveRead) : ActiveQuery :=
  { a with ready := true, response := a.response.addArchived read, archive := some read }

/-- The response is what the keepers and the archive have given, and it is ready when the archive
part is there or is not needed. -/
structure Right (a : ActiveQuery) : Prop where
  response : a.response = (a.archive.elim (a.query.hotResponse a.fetched)
    (a.query.hotResponse a.fetched).addArchived)
  ready : a.ready = (a.archive.isSome || !a.plan.archiveNeeded)
  archive : a.archive.isSome = true → a.plan.archiveNeeded = true

end ActiveQuery

/-! ### The reply -/

theorem pairwise_hotEvents (responses : List HotRangeResponse) (startTime endTime : ℕ) :
    (splitHotRange responses startTime endTime).hotEvents.Pairwise
      fun a b => compare a.sequence b.sequence = .lt := by
  have hkeyed := (mergeHot_spec (boundaryOf responses endTime) responses).1
  show ((mergeHot (boundaryOf responses endTime) responses).toList.map Prod.snd).Pairwise _
  rw [List.pairwise_map]
  refine Std.ExtTreeMap.ordered_keys_toList.imp_of_mem ?_
  rintro ⟨k, e⟩ ⟨k', e'⟩ hmem hmem' hlt
  have hk := hkeyed k e (Std.ExtTreeMap.mem_toList_iff_getElem?_eq_some.mp hmem)
  have hk' := hkeyed k' e' (Std.ExtTreeMap.mem_toList_iff_getElem?_eq_some.mp hmem')
  dsimp only at hk hk' hlt ⊢
  rwa [hk, hk']

namespace ActiveQuery

theorem reduceOption_map_some (responses : List HotRangeResponse) :
    (responses.map some).reduceOption = responses := by
  rw [List.reduceOption, List.filterMap_map]
  exact List.filterMap_some

theorem split_of_fetched {a : ActiveQuery} {responses : List HotRangeResponse}
    (hfetched : a.fetched = responses.map some) :
    a.query.split a.fetched = splitHotRange responses a.query.start_time a.query.end_time := by
  rw [StoryPlaybackRequest.split, hfetched, reduceOption_map_some]

theorem plan_of_fetched {a : ActiveQuery} {responses : List HotRangeResponse}
    (hfetched : a.fetched = responses.map some) :
    a.plan = planReplay (splitHotRange responses a.query.start_time a.query.end_time)
      a.query.end_time (responses.all (·.answered)) (responses.any (·.truncated)) := by
  rw [plan, StoryPlaybackRequest.plan, split_of_fetched hfetched, hfetched,
    reduceOption_map_some, List.all_map]
  rfl

/-- **A ready response is the reply to the replay**, where a fetch was issued to every keeper and
the archive part is what the archive holds of its range. -/
theorem Right.reply {a : ActiveQuery} (h : a.Right) (hready : a.ready = true)
    {responses : List HotRangeResponse} (hfetched : a.fetched = responses.map some)
    {archive : List LogEvent} (hread : ∀ read, a.archive = some read →
      read.archivedEvents = archive.filter fun e => e.storyId = a.query.story_id ∧
        a.query.start_time ≤ e.time ∧ e.time < a.plan.archiveEnd) :
    a.response.events = (replayRange a.query.story_id archive responses a.query.start_time
      a.query.end_time).2 := by
  have hhot : mergeReplayEvents [] (a.query.split a.fetched).hotEvents =
      (a.query.split a.fetched).hotEvents :=
    SortedList.sortUnique_of_pairwise _
      (pairwise_hotEvents a.fetched.reduceOption a.query.start_time a.query.end_time)
  have hreply : (replayRange a.query.story_id archive responses a.query.start_time
      a.query.end_time).2 = mergeReplayEvents
        (if a.plan.archiveNeeded then archive.filter fun e => e.storyId = a.query.story_id ∧
          a.query.start_time ≤ e.time ∧ e.time < a.plan.archiveEnd else [])
        (a.query.split a.fetched).hotEvents := by
    rw [plan_of_fetched hfetched, split_of_fetched hfetched]
    rfl
  have hresponse := h.response
  have hneeded := h.archive
  have hwaits := h.ready
  rw [hready] at hwaits
  rw [hreply, hresponse]
  cases harchive : a.archive with
  | none =>
    rw [harchive, Option.isSome_none, Bool.false_or, eq_comm, Bool.not_eq_true'] at hwaits
    rw [hwaits, if_neg Bool.false_ne_true, hhot]
    rfl
  | some read =>
    rw [harchive] at hneeded
    rw [hneeded rfl, if_pos rfl, ← hread read harchive]
    show (if read.archivedEvents.isEmpty then (a.query.split a.fetched).hotEvents
      else mergeReplayEvents read.archivedEvents (a.query.split a.fetched).hotEvents) = _
    split
    · next hempty =>
      rw [List.isEmpty_iff.mp hempty, hhot]
    · rfl

end ActiveQuery

/-! ### The agents -/

/-- `active_queries` of a `QueryResponseAgent`. -/
abbrev QueryResponseAgent := OrdMap ClientQueryId ActiveQuery

namespace QueryResponseAgent

/-- `stashQueryResponseRecord`: nothing where the id is active. -/
def stashQueryResponseRecord (agent : QueryResponseAgent) (a : ActiveQuery) :
    Option QueryResponseAgent :=
  if a.query.query_id ∈ agent then none else some (agent.insert a.query.query_id a)

/-- `addArchivedEventsToQueryResponse`. -/
def addArchivedEventsToQueryResponse (agent : QueryResponseAgent) (query_id : ClientQueryId)
    (read : ArchiveRead) : QueryResponseAgent :=
  match agent[query_id]? with
  | some a => agent.insert query_id (a.addArchived read)
  | none => agent

/-- One round of `drainQueryResponses`: the first ready response is taken. -/
def drainQueryResponse (agent : QueryResponseAgent) :
    Option (ActiveQuery × QueryResponseAgent) :=
  (agent.toList.find? fun entry => entry.2.ready).map fun entry =>
    (entry.2, agent.erase entry.1)

end QueryResponseAgent

/-! ### The player -/

/-- A call of `story_playback_request` that asks the keepers. -/
structure FetchingCall where
  serial : ℕ
  query : StoryPlaybackRequest
  deriving DecidableEq, Repr

/-- A call that has left its response with the agent. -/
structure StashedCall where
  serial : ℕ
  /-- The archive request that it is about to push, if it needs one. -/
  request : Option ArchiveReadingRequest
  deriving DecidableEq, Repr

/-- The entry for the response of a call; it is ready where no archive read follows. -/
def FetchingCall.activeQuery (call : FetchingCall) (fetched : Fetched) : ActiveQuery :=
  ⟨!(call.query.plan fetched).archiveNeeded, call.query.hotResponse fetched, call.serial,
    call.query, fetched, none⟩

def FetchingCall.stashed (call : FetchingCall) (fetched : Fetched) : StashedCall :=
  ⟨call.serial, if (call.query.plan fetched).archiveNeeded then
    some (call.query.archiveRequest fetched) else none⟩

structure PlaybackService where
  responseSenders : OrdMap Endpoint QueryResponseAgent := ∅
  readingRequestQueue : List ArchiveReadingRequest := []
  /-- The requests that reading threads work on. -/
  inHand : List ArchiveReadingRequest := []
  fetching : List FetchingCall := []
  stashed : List StashedCall := []
  serials : ℕ := 0
  /-- The calls that were answered with their query ids. -/
  accepted : List ℕ := []
  /-- The responses that were taken for sending. -/
  taken : List ActiveQuery := []

/-- The steps.  A call goes on in `request`, `stash` and `push`, a reading thread in `pop` and
`add`, and the response thread of an agent in `drain`. -/
inductive PlaybackStep where
  /-- Find the agent of the receiver, or create it where there is none. -/
  | request (q : StoryPlaybackRequest) (created : Bool)
  | stash (i : ℕ) (fetched : Fetched)
  /-- Push the archive request, if there is one, and answer with the query id. -/
  | push (i : ℕ)
  | pop
  | add (i : ℕ) (read : ArchiveRead)
  | drain (receiver : Endpoint)
  deriving DecidableEq, Repr

namespace PlaybackService

def setAgent (s : PlaybackService) (e : Endpoint) (agent : QueryResponseAgent) : PlaybackService :=
  { s with responseSenders := s.responseSenders.insert e agent }

def beginFetch (s : PlaybackService) (q : StoryPlaybackRequest) : PlaybackService :=
  { s with fetching := s.fetching ++ [⟨s.serials, q⟩], serials := s.serials + 1 }

/-- The first section of `story_playback_request`, under the service's mutex. -/
def requestStep (s : PlaybackService) (q : StoryPlaybackRequest) (created : Bool) :
    PlaybackService :=
  match s.responseSenders[q.endpoint]? with
  | some _ => s.beginFetch q
  | none => if created then (s.setAgent q.endpoint ∅).beginFetch q else s

/-- The state after a call has left its response with its agent. -/
def leaveResponse (s : PlaybackService) (i : ℕ) (call : FetchingCall) (fetched : Fetched)
    (agent : QueryResponseAgent) : PlaybackService :=
  { s.setAgent call.query.endpoint agent with
    fetching := s.fetching.eraseIdx i
    stashed := s.stashed ++ [call.stashed fetched] }

/-- The response of a call is left with the agent, or the call is answered with 0. -/
def stashStep (s : PlaybackService) (i : ℕ) (fetched : Fetched) : Option PlaybackService := do
  let call ← s.fetching[i]?
  let agent ← s.responseSenders[call.query.endpoint]?
  match agent.stashQueryResponseRecord (call.activeQuery fetched) with
  | none => some { s with fetching := s.fetching.eraseIdx i }
  | some agent => some (s.leaveResponse i call fetched agent)

def pushStep (s : PlaybackService) (i : ℕ) : Option PlaybackService := do
  let call ← s.stashed[i]?
  some { s with
    stashed := s.stashed.eraseIdx i
    readingRequestQueue := s.readingRequestQueue ++ call.request.toList
    accepted := s.accepted ++ [call.serial] }

/-- A reading thread takes a request; one that is not valid is dropped. -/
def popStep (s : PlaybackService) : Option PlaybackService :=
  match s.readingRequestQueue with
  | [] => none
  | r :: rest =>
    some { s with
      readingRequestQueue := rest
      inHand := if r.isValid then s.inHand ++ [r] else s.inHand }

def addStep (s : PlaybackService) (i : ℕ) (read : ArchiveRead) : Option PlaybackService := do
  let r ← s.inHand[i]?
  let agent ← s.responseSenders[r.queryResponseAgent]?
  some ({ s with inHand := s.inHand.eraseIdx i }.setAgent r.queryResponseAgent
    (agent.addArchivedEventsToQueryResponse r.queryId read))

/-- The state after an agent's response was taken. -/
def takeResponse (s : PlaybackService) (e : Endpoint) (agent : QueryResponseAgent)
    (a : ActiveQuery) : PlaybackService :=
  { s.setAgent e agent with taken := s.taken ++ [a] }

def drainStep (s : PlaybackService) (e : Endpoint) : Option PlaybackService := do
  let agent ← s.responseSenders[e]?
  let (a, agent) ← agent.drainQueryResponse
  some (s.takeResponse e agent a)

def step (s : PlaybackService) : PlaybackStep → Option PlaybackService
  | .request q created => some (s.requestStep q created)
  | .stash i fetched => s.stashStep i fetched
  | .push i => s.pushStep i
  | .pop => s.popStep
  | .add i read => s.addStep i read
  | .drain e => s.drainStep e

/-- The player from its start on. -/
def system : Transition.System PlaybackService PlaybackStep where
  Initial s := s = {}
  step := step

end PlaybackService

end ChronoLog.Player
