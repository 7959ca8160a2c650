import ChronoLog.Player.PlaybackRequests

/-!
# The replays of a client

A replay installs a query under a new id, sends it to the player of the story, and waits until
the response for the id has arrived or its time is over.  Replays run in threads of their own.
A response arrives in a thread of the client's engine, which looks its query up, gives it the
events and marks it as completed, all of this without the mutex of the queries.  A player works
on the queries of other clients too.

## Main definitions

* `PlaybackQuery`, `ReplayCall` — an installed query, and the call of `replay_story` it is for.
* `Receiving` — a thread that gives the events of a response to a query.
* `ReplaySystem` — a client and the players, and what is on its way between them.
* `ReplaySystem.step` — one step of a replay, a player, or the network.
-/

namespace ChronoLog.Client

open Player

/-- What a replay returns once it has an id. -/
inductive ReplayResult where
  | CL_SUCCESS
  | CL_ERR_UNKNOWN
  | CL_ERR_NO_PLAYERS
  | CL_ERR_QUERY_TIMED_OUT
  | CL_ERR_PARTIAL_RESULT
  deriving DecidableEq, Repr

/-- An entry of `activeQueryMap`. -/
structure PlaybackQuery where
  /-- The call whose series or callback the query refers to. -/
  call : ℕ
  /-- The id, the story and the range. -/
  request : StoryPlaybackRequest
  timeout_time : ℕ
  completed : Bool := false
  complete : Bool := true
  deriving DecidableEq, Repr

/-- Where a call is. -/
inductive ReplayPhase where
  | sending
  /-- Until the call of the player returns. -/
  | sent
  | waiting
  /-- After the loop of `dispatch_query`. -/
  | leaving
  | stopping (ret_value : ReplayResult)
  | finished (ret_value : ReplayResult)
  deriving DecidableEq, Repr

/-- A call of `replay_story` for an acquired story. -/
structure ReplayCall where
  player : ℕ
  request : StoryPlaybackRequest
  /-- The events go to a callback, not into a vector. -/
  callback : Bool
  /-- What the vector held, or what the callback had been called with. -/
  before : List LogEvent
  events : List LogEvent
  phase : ReplayPhase
  /-- The number of the request at its player, once it has arrived there. -/
  serial : Option ℕ := none
  deriving DecidableEq, Repr

/-- The events once a response was given to the query. -/
def ReplayCall.given (call : ReplayCall) (response : PlaybackQueryResponse) : List LogEvent :=
  if call.callback then call.before ++ response.events else response.events

/-- A thread in `receive_query_response`, from the time when it has found the query.  It holds a
reference to the query, and does not look whether the query is there still. -/
structure Receiving where
  call : ℕ
  response : PlaybackQueryResponse
  /-- The number of the events that the callback was called with. -/
  done : ℕ := 0
  /-- The loop over the events is over, or the vector was moved. -/
  whole : Bool := false
  deriving DecidableEq, Repr

/-- The next event goes to the callback, or all of them into the vector. -/
def Receiving.give (r : Receiving) (call : ReplayCall) : Receiving × List LogEvent :=
  if call.callback then
    match r.response.events[r.done]? with
    | some event => ({ r with done := r.done + 1 }, call.events ++ [event])
    | none => ({ r with whole := true }, call.events)
  else ({ r with whole := true }, r.response.events)

structure ReplaySystem where
  players : List PlaybackService
  queryIndex : ClientQueryId := 0
  activeQueryMap : OrdMap ClientQueryId PlaybackQuery := ∅
  acquiredStoryMap : String × String → Option (StoryId × ℕ) := fun _ => none
  /-- The players that the client has a `PlaybackQueryRpcClient` of. -/
  playbackRpcClients : List ℕ := []
  calls : List ReplayCall := []
  /-- The requests on their way to the players, by their calls. -/
  requests : List ℕ := []
  /-- The responses on their way to the client, with their players. -/
  responses : List (ℕ × ActiveQuery) := []
  /-- The responses that a query was found for. -/
  delivered : List (ℕ × ActiveQuery) := []
  receiving : List Receiving := []

inductive ReplayStep where
  | addStoryReader (chronicle story : String) (story_id : StoryId) (player : ℕ) (created : Bool)
  | removeStoryReader (chronicle story : String)
  /-- `replay_story`, as far as its query is installed. -/
  | replay (chronicle story : String) (start stop : ℕ) (callback : Bool)
      (before : List LogEvent) (timeout_time : ℕ)
  | send (call : ℕ)
  | sent (call : ℕ) (ok : Bool)
  /-- The condition of the loop. -/
  | look (call : ℕ) (now : ℕ)
  | decide (call : ℕ)
  | stop (call : ℕ)
  | arrive (i : ℕ) (created : Bool)
  | loseRequest (i : ℕ)
  | player (player : ℕ) (l : PlaybackStep)
  /-- A response arrives, and its query is looked up. -/
  | receive (i : ℕ)
  | give (j : ℕ)
  | complete (j : ℕ)
  | loseResponse (i : ℕ)
  deriving DecidableEq, Repr

namespace ReplaySystem

variable (me : ServiceId)

def setPhase (s : ReplaySystem) (i : ℕ) (phase : ReplayPhase) : ReplaySystem :=
  { s with calls := s.calls.modify i fun call => { call with phase } }

/-- The call, where it is in a phase. -/
def callIn (s : ReplaySystem) (i : ℕ) (phase : ReplayPhase) : Option ReplayCall :=
  s.calls[i]?.filter fun call => call.phase = phase

def addStoryReader (s : ReplaySystem) (chronicle story : String) (story_id : StoryId)
    (player : ℕ) (created : Bool) : ReplaySystem :=
  if !s.playbackRpcClients.contains player && !created then s
  else
    let s := if s.playbackRpcClients.contains player then s
      else { s with playbackRpcClients := s.playbackRpcClients ++ [player] }
    match s.acquiredStoryMap (chronicle, story) with
    | some _ => s
    | none =>
      { s with acquiredStoryMap :=
          Function.update s.acquiredStoryMap (chronicle, story) (some (story_id, player)) }

/-- `start_query`; it fails where the id is in use. -/
def startQuery (s : ReplaySystem) (call : ReplayCall) (timeout_time : ℕ) : ReplaySystem :=
  let id := call.request.query_id
  if id ∈ s.activeQueryMap then
    { s with
      queryIndex := id
      calls := s.calls ++ [{ call with phase := .finished .CL_ERR_UNKNOWN }] }
  else
    { s with
      queryIndex := id
      calls := s.calls ++ [call]
      activeQueryMap :=
        s.activeQueryMap.insert id ⟨s.calls.length, call.request, timeout_time, false, true⟩ }

/-- `replay_story`; a story that is not acquired is answered with `CL_ERR_NOT_ACQUIRED`. -/
def replayStep (s : ReplaySystem) (chronicle story : String) (start stop : ℕ) (callback : Bool)
    (before : List LogEvent) (timeout_time : ℕ) : ReplaySystem :=
  match s.acquiredStoryMap (chronicle, story) with
  | none => s
  | some (story_id, player) =>
    let request : StoryPlaybackRequest :=
      ⟨me, s.queryIndex + 1, story_id, chronicle, story, start, stop⟩
    s.startQuery ⟨player, request, callback, before, before, .sending, none⟩ timeout_time

/-- The request leaves for the player. -/
def sendStep (s : ReplaySystem) (i : ℕ) : Option ReplaySystem := do
  let _ ← s.callIn i .sending
  some { s.setPhase i .sent with requests := s.requests ++ [i] }

/-- The call of the player returns or throws; it returns only after the request has arrived. -/
def sentStep (s : ReplaySystem) (i : ℕ) (ok : Bool) : Option ReplaySystem := do
  let call ← s.callIn i .sent
  if ok then
    if call.serial.isSome then some (s.setPhase i .waiting) else none
  else some (s.setPhase i (.stopping .CL_ERR_NO_PLAYERS))

def lookStep (s : ReplaySystem) (i now : ℕ) : Option ReplaySystem := do
  let call ← s.callIn i .waiting
  let query ← s.activeQueryMap[call.request.query_id]?
  if query.completed || query.timeout_time ≤ now then some (s.setPhase i .leaving) else some s

/-- The result, which is decided after the loop. -/
def PlaybackQuery.result (query : PlaybackQuery) : ReplayResult :=
  if query.completed then
    if query.complete then .CL_SUCCESS else .CL_ERR_PARTIAL_RESULT
  else .CL_ERR_QUERY_TIMED_OUT

def decideStep (s : ReplaySystem) (i : ℕ) : Option ReplaySystem := do
  let call ← s.callIn i .leaving
  let query ← s.activeQueryMap[call.request.query_id]?
  some (s.setPhase i (.stopping (PlaybackQuery.result query)))

/-- `stop_query`, and the end of the call. -/
def stopStep (s : ReplaySystem) (i : ℕ) : Option ReplaySystem := do
  let call ← s.calls[i]?
  match call.phase with
  | .stopping ret_value =>
    some { s.setPhase i (.finished ret_value) with
      activeQueryMap := s.activeQueryMap.erase call.request.query_id }
  | _ => none

/-- A request arrives at its player. -/
def arriveStep (s : ReplaySystem) (i : ℕ) (created : Bool) : Option ReplaySystem := do
  let n ← s.requests[i]?
  let call ← s.calls[n]?
  let player ← s.players[call.player]?
  some { s with
    requests := s.requests.eraseIdx i
    players := s.players.set call.player (player.requestStep call.request created)
    calls := s.calls.modify n fun call => { call with serial := some player.serials } }

/-- A step of a player of its own, or for another client; a response that it takes for this
client is on its way then. -/
def playerStep (s : ReplaySystem) (k : ℕ) (l : PlaybackStep) : Option ReplaySystem := do
  let player ← s.players[k]?
  match l with
  | .request q created =>
    if q.endpoint = me.getServiceEndpoint then none
    else some { s with players := s.players.set k (player.requestStep q created) }
  | .drain e =>
    let next ← player.drainStep e
    let taken := if e = me.getServiceEndpoint then next.taken.getLast?.toList else []
    some { s with
      players := s.players.set k next
      responses := s.responses ++ taken.map fun a => (k, a) }
  | l =>
    let next ← player.step l
    some { s with players := s.players.set k next }

/-- `receive_query_response` up to the lookup; a response whose query is gone is dropped. -/
def receiveStep (s : ReplaySystem) (i : ℕ) : Option ReplaySystem := do
  let (k, a) ← s.responses[i]?
  let s := { s with responses := s.responses.eraseIdx i }
  match s.activeQueryMap[a.response.query_id]? with
  | none => some s
  | some query =>
    some { s with
      receiving := s.receiving ++ [⟨query.call, a.response, 0, false⟩]
      delivered := s.delivered ++ [(k, a)] }

/-- One turn of the loop that calls the callback, or the move of the vector. -/
def giveStep (s : ReplaySystem) (j : ℕ) : Option ReplaySystem := do
  let r ← s.receiving[j]?
  let call ← s.calls[r.call]?
  if r.whole then none
  else
    some { s with
      calls := s.calls.modify r.call fun call => { call with events := (r.give call).2 }
      receiving := s.receiving.set j (r.give call).1 }

/-- `complete` and `completed` of the query are set, in this order. -/
def completeStep (s : ReplaySystem) (j : ℕ) : Option ReplaySystem := do
  let r ← s.receiving[j]?
  if r.whole then
    let s := { s with receiving := s.receiving.eraseIdx j }
    let id := r.response.query_id
    match s.activeQueryMap[id]?.filter fun query => query.call = r.call with
    | none => some s
    | some query =>
      some { s with
        activeQueryMap := s.activeQueryMap.insert id
          { query with complete := r.response.complete, completed := true } }
  else none

def step (s : ReplaySystem) : ReplayStep → Option ReplaySystem
  | .addStoryReader chronicle story story_id player created =>
    some (s.addStoryReader chronicle story story_id player created)
  | .removeStoryReader chronicle story =>
    some { s with
      acquiredStoryMap := Function.update s.acquiredStoryMap (chronicle, story) none }
  | .replay chronicle story start stop callback before timeout_time =>
    some (s.replayStep me chronicle story start stop callback before timeout_time)
  | .send i => s.sendStep i
  | .sent i ok => s.sentStep i ok
  | .look i now => s.lookStep i now
  | .decide i => s.decideStep i
  | .stop i => s.stopStep i
  | .arrive i created => s.arriveStep i created
  | .loseRequest i => some { s with requests := s.requests.eraseIdx i }
  | .player k l => s.playerStep me k l
  | .receive i => s.receiveStep i
  | .give j => s.giveStep j
  | .complete j => s.completeStep j
  | .loseResponse i => some { s with responses := s.responses.eraseIdx i }

/-- No query is erased while a response is being given to it: the time of a replay does not run
out, and the call of its player does not throw, between the lookup and `completed`. -/
def Uninterrupted (s : ReplaySystem) : ReplayStep → Prop
  | .stop i => ∀ r ∈ s.receiving, r.call ≠ i
  | _ => True

instance (s : ReplaySystem) (l : ReplayStep) : Decidable (s.Uninterrupted l) :=
  match l with
  | .stop i => inferInstanceAs (Decidable (∀ r ∈ s.receiving, r.call ≠ i))
  | .addStoryReader .. | .removeStoryReader .. | .replay .. | .send .. | .sent .. | .look ..
  | .decide .. | .arrive .. | .loseRequest .. | .player .. | .receive .. | .give ..
  | .complete .. | .loseResponse .. => .isTrue trivial

/-- A client and some players from their start on. -/
def system : Transition.System ReplaySystem ReplayStep where
  Initial s := ∃ n, s = { players := List.replicate n {} }
  step s l := s.step me l

end ReplaySystem

end ChronoLog.Client
