import ChronoLog.Client.QueryService
import ChronoLog.Player.QueryBookkeeping

/-!
# A replay from end to end

A response is matched with its replay by the id of the query alone.  The id is on its way to one
player, where it gets a number, and a response is taken for each number once: so a replay is
given one response, and this is one for its own request.  An id comes again after 2^32 replays.

While the events of a response are given to a query, event by event where it has a callback, the
query must not be erased: this is the condition on the steps.

## Main definitions

* `PlaybackService.Knows` — the requests that a player has had, with their numbers.
* `ReplayCall.partway` — what a query has of a response that is being given to it.
* `EndToEnd` — what holds of the replays.

## Main results

* `Kept.step` — what every step keeps.
* `replays_end_to_end` — **a replay that says that it has its events has those of the response
  that its player made for it, and every other replay that has returned has none, or all of those.**
-/

namespace ChronoLog

namespace Player.PlaybackService

variable {s s' : PlaybackService} {n : ℕ} {q : StoryPlaybackRequest}

/-- The requests that a player has had, with their numbers. -/
def Knows (s : PlaybackService) (n : ℕ) (q : StoryPlaybackRequest) : Prop :=
  (∃ c ∈ s.fetching, c.serial = n ∧ c.query = q) ∨
    (∃ e id a, s.active? e id = some a ∧ a.serial = n ∧ a.query = q) ∨
    ∃ a ∈ s.taken, a.serial = n ∧ a.query = q

theorem not_knows_initial (n : ℕ) (q : StoryPlaybackRequest) :
    ¬ ({} : PlaybackService).Knows n q := by
  rintro (⟨c, hc, -⟩ | ⟨e, id, a, ha, -⟩ | ⟨a, ha, -⟩)
  · cases hc
  · simp [active?] at ha
  · cases ha

theorem Knows.of_beginFetch {r : PlaybackService} {q' : StoryPlaybackRequest}
    (h : (r.beginFetch q).Knows n q') : r.Knows n q' ∨ n = r.serials ∧ q' = q := by
  rcases h with ⟨c, hc, hn, hq⟩ | hrest
  · rcases List.mem_append.mp hc with hc | hc
    · exact .inl (.inl ⟨c, hc, hn, hq⟩)
    · rw [List.mem_singleton.mp hc] at hn hq
      exact .inr ⟨hn.symm, hq.symm⟩
  · exact .inl (.inr hrest)

/-- A request that arrives gets the next number. -/
theorem Knows.of_requestStep {q' : StoryPlaybackRequest} {created : Bool}
    (h : (s.requestStep q created).Knows n q') : s.Knows n q' ∨ n = s.serials ∧ q' = q := by
  unfold requestStep at h
  split at h
  · exact h.of_beginFetch
  · split at h
    · rcases h.of_beginFetch with (hc | ⟨e, id, a, ha, hrest⟩ | ht) | hnew
      · exact .inl (.inl hc)
      · rw [active?_setAgent] at ha
        split at ha
        · simp at ha
        · exact .inl (.inr (.inl ⟨e, id, a, ha, hrest⟩))
      · exact .inl (.inr (.inr ht))
      · exact .inr hnew
    · exact .inl h

/-- **The other steps bring no requests, and change no numbers.** -/
theorem Kept.knows_step (hkept : Kept s) {l : PlaybackStep}
    (hl : ∀ q created, l ≠ .request q created) (hstep : s.step l = some s')
    (h : s'.Knows n q) : s.Knows n q := by
  cases l with
  | request q created => exact absurd rfl (hl q created)
  | stash i fetched =>
    obtain ⟨call, agent, hcall, hagent, rfl | ⟨-, rfl⟩⟩ := stashStep_eq_some hstep
    · rcases h with ⟨c, hc, hrest⟩ | h
      · exact .inl ⟨c, List.mem_of_mem_eraseIdx hc, hrest⟩
      · exact .inr h
    · have hactive : ∀ e id, (s.leaveResponse i call fetched (agent.insert call.query.query_id
          (call.activeQuery fetched))).active? e id =
            if call.query.endpoint = e ∧ call.query.query_id = id then
              some (call.activeQuery fetched)
            else s.active? e id :=
        active?_insert hagent _ _
      rcases h with ⟨c, hc, hrest⟩ | ⟨e, id, a, ha, hn, hq⟩ | h
      · exact .inl ⟨c, List.mem_of_mem_eraseIdx hc, hrest⟩
      · rw [hactive] at ha
        split at ha
        · -- the query is the one of the call
          cases ha
          exact .inl ⟨call, List.mem_of_getElem? hcall, hn, hq⟩
        · exact .inr (.inl ⟨e, id, a, ha, hn, hq⟩)
      · exact .inr (.inr h)
  | push i =>
    obtain ⟨call, -, hs⟩ := Option.bind_eq_some_iff.mp hstep
    cases hs
    exact h
  | pop =>
    change s.popStep = some s' at hstep
    unfold PlaybackService.popStep at hstep
    split at hstep
    · cases hstep
    · cases hstep
      exact h
  | add i read =>
    obtain ⟨r, agent, a, -, hagent, ha, -, -, rfl⟩ := hkept.addStep_eq_some hstep
    have hactive : ∀ e id, ({ s with inHand := s.inHand.eraseIdx i }.setAgent
        r.queryResponseAgent (agent.insert r.queryId (a.addArchived read))).active? e id =
          if r.queryResponseAgent = e ∧ r.queryId = id then some (a.addArchived read)
          else s.active? e id :=
      active?_insert hagent _ _
    rcases h with h | ⟨e, id, b, hb, hn, hq⟩ | h
    · exact .inl h
    · rw [hactive] at hb
      split at hb
      · cases hb
        exact .inr (.inl ⟨_, _, a, (active?_of_agent hagent _).trans ha, hn, hq⟩)
      · exact .inr (.inl ⟨e, id, b, hb, hn, hq⟩)
    · exact .inr (.inr h)
  | drain e =>
    obtain ⟨agent, id, a, hagent, ha, -, rfl⟩ := drainStep_eq_some hstep
    have hactive : ∀ e' id', (s.takeResponse e (agent.erase id) a).active? e' id' =
        if e = e' ∧ id = id' then none else s.active? e' id' :=
      active?_erase hagent _
    rcases h with h | ⟨e', id', b, hb, hn, hq⟩ | ⟨b, hb, hn, hq⟩
    · exact .inl h
    · rw [hactive] at hb
      split at hb
      · cases hb
      · exact .inr (.inl ⟨e', id', b, hb, hn, hq⟩)
    · rcases List.mem_append.mp hb with hb | hb
      · exact .inr (.inr ⟨b, hb, hn, hq⟩)
      · rw [List.mem_singleton.mp hb] at hn hq
        exact .inr (.inl ⟨e, id, a, (active?_of_agent hagent _).trans ha, hn, hq⟩)

/-- What was taken stays taken. -/
theorem taken_step {l : PlaybackStep} (hstep : s.step l = some s') {a : ActiveQuery}
    (ha : a ∈ s.taken) : a ∈ s'.taken := by
  cases l with
  | request q created =>
    cases hstep
    unfold requestStep
    split
    · exact ha
    · split
      · exact ha
      · exact ha
  | stash i fetched =>
    obtain ⟨call, agent, -, -, rfl | ⟨-, rfl⟩⟩ := stashStep_eq_some hstep
    · exact ha
    · exact ha
  | push i =>
    obtain ⟨call, -, hs⟩ := Option.bind_eq_some_iff.mp hstep
    cases hs
    exact ha
  | pop =>
    change s.popStep = some s' at hstep
    unfold popStep at hstep
    split at hstep
    · cases hstep
    · cases hstep
      exact ha
  | add i read =>
    obtain ⟨r, -, hstep⟩ := Option.bind_eq_some_iff.mp hstep
    obtain ⟨agent, -, hstep⟩ := Option.bind_eq_some_iff.mp hstep
    cases hstep
    exact ha
  | drain e =>
    obtain ⟨agent, id, b, -, -, -, rfl⟩ := drainStep_eq_some hstep
    exact List.mem_append_left _ ha

end Player.PlaybackService

namespace Client

open Player

/-- The call has not returned. -/
def ReplayCall.Open (call : ReplayCall) : Prop := ∀ ret_value, call.phase ≠ .finished ret_value

/-- The events while a response is being given to the query. -/
def ReplayCall.partway (call : ReplayCall) (r : Receiving) : List LogEvent :=
  if r.whole then call.given r.response
  else if call.callback then call.before ++ r.response.events.take r.done
  else call.before

/-- A response that the query was just found for has not been given yet. -/
theorem ReplayCall.partway_found (call : ReplayCall) (i : ℕ) (response : PlaybackQueryResponse) :
    call.partway ⟨i, response, 0, false⟩ = call.before := by
  simp [ReplayCall.partway]

/-- **The next piece of a response.** -/
theorem ReplayCall.partway_give {call : ReplayCall} {r : Receiving}
    (hevents : call.events = call.partway r) (hpart : r.whole = false) :
    (r.give call).2 = call.partway (r.give call).1 := by
  rw [ReplayCall.partway, hpart] at hevents
  unfold Receiving.give
  by_cases hcallback : call.callback = true
  · simp only [if_pos hcallback, Bool.false_eq_true, if_false] at hevents ⊢
    cases hnext : r.response.events[r.done]? with
    | some event =>
      dsimp only
      rw [ReplayCall.partway, if_neg (by simp [hpart]), if_pos hcallback, hevents,
        List.append_assoc, List.take_add_one, hnext, Option.toList_some]
    | none =>
      -- all of its events were given
      have hall : r.response.events.take r.done = r.response.events :=
        List.take_of_length_le (List.getElem?_eq_none_iff.mp hnext)
      dsimp only
      rw [ReplayCall.partway, if_pos rfl, ReplayCall.given, if_pos hcallback, hevents, hall]
  · rw [if_neg hcallback, ReplayCall.partway, if_pos rfl, ReplayCall.given, if_neg hcallback]

theorem Receiving.give_call (r : Receiving) (call : ReplayCall) :
    (r.give call).1.call = r.call := by
  unfold Receiving.give
  split
  · split
    · rfl
    · rfl
  · rfl

theorem Receiving.give_response (r : Receiving) (call : ReplayCall) :
    (r.give call).1.response = r.response := by
  unfold Receiving.give
  split
  · split
    · rfl
    · rfl
  · rfl

/-- What a replay may have while a response is given to its query. -/
theorem ReplayCall.partway_cases (call : ReplayCall) (r : Receiving) :
    call.partway r = call.before ∨ call.partway r = call.given r.response ∨
      call.callback = true ∧ ∃ n, call.partway r = call.before ++ r.response.events.take n := by
  unfold ReplayCall.partway
  split
  · exact .inr (.inl rfl)
  · split
    · next hcallback => exact .inr (.inr ⟨hcallback, r.done, rfl⟩)
    · exact .inl rfl

namespace ReplaySystem

variable {me : ServiceId} {s s' : ReplaySystem} {i j : ℕ} {call : ReplayCall}

/-- The response that a player made for a replay's request. -/
def Answers (s : ReplaySystem) (call : ReplayCall) (a : ActiveQuery) : Prop :=
  a.query = call.request ∧ ∃ p : PlaybackService, s.players[call.player]? = some p ∧ a ∈ p.taken

/-- A query of the client, and the replay it is for. -/
def Installed (s : ReplaySystem) (i : ℕ) (call : ReplayCall) (query : PlaybackQuery) : Prop :=
  s.activeQueryMap[call.request.query_id]? = some query ∧ query.call = i

/-- The response has the reply to the replay, where a fetch was issued to every keeper and the
archive's part of the range was read. -/
def RepliedBy (call : ReplayCall) (a : ActiveQuery) : Prop :=
  ∀ (responses : List HotRangeResponse) (archive : List LogEvent),
    a.fetched = responses.map some →
    (∀ read, a.archive = some read → read.archivedEvents = archive.filter fun e =>
      e.storyId = a.query.story_id ∧ a.query.start_time ≤ e.time ∧ e.time < a.plan.archiveEnd) →
    a.response.events = (replayRange call.request.story_id archive responses
      call.request.start_time call.request.end_time).2

/-- What holds of the replays. -/
structure EndToEnd (s : ReplaySystem) : Prop where
  /-- A replay is given nothing, or the response that its player made for its request; the callback
  of a replay that has not returned may have been given a first part of it so far. -/
  given : ∀ call ∈ s.calls, call.events = call.before ∨
    ∃ a, s.Answers call a ∧ (call.events = call.given a.response ∨
      call.Open ∧ call.callback = true ∧
        ∃ n, call.events = call.before ++ a.response.events.take n)
  /-- A replay that says that it has its events was given them. -/
  answered : ∀ call ∈ s.calls, ∀ ret_value, call.phase = .finished ret_value →
    ret_value = .CL_SUCCESS ∨ ret_value = .CL_ERR_PARTIAL_RESULT →
    ∃ a, s.Answers call a ∧ a.Right ∧ RepliedBy call a ∧ call.events = call.given a.response ∧
      (ret_value = .CL_SUCCESS ↔ a.response.complete = true)
  /-- No replay is given two responses. -/
  once : (s.delivered.map fun d => d.2.query).Nodup
  /-- The queries are those of the replays that have not returned. -/
  installed : ∀ (i : ℕ) (call : ReplayCall), s.calls[i]? = some call →
    ((∃ query, s.Installed i call query) ↔ call.Open)

/-- The player and the number of a request. -/
def key (d : ℕ × ActiveQuery) : ℕ × ℕ := (d.1, d.2.serial)

/-- A query was found for a response. -/
def Given (s : ReplaySystem) (request : StoryPlaybackRequest)
    (response : PlaybackQueryResponse) : Prop :=
  ∃ d ∈ s.delivered, d.2.query = request ∧ d.2.response = response

/-- What every step keeps. -/
structure Kept (me : ServiceId) (s : ReplaySystem) : Prop where
  players : ∀ (k : ℕ) (p : PlaybackService), s.players[k]? = some p → p.Kept
  index : s.queryIndex = UInt32.ofNat s.calls.length
  ids : ∀ (i : ℕ) (call : ReplayCall), s.calls[i]? = some call →
    call.request.query_id = UInt32.ofNat (i + 1) ∧ call.request.receiver_service_id = me
  /-- A player has had no requests of the client but those of its replays. -/
  known : ∀ (k : ℕ) (p : PlaybackService) (n : ℕ) (q : StoryPlaybackRequest),
    s.players[k]? = some p → p.Knows n q → q.endpoint = me.getServiceEndpoint →
    ∃ (i : ℕ) (call : ReplayCall), s.calls[i]? = some call ∧ call.player = k ∧
      call.request = q ∧ call.serial = some n
  unsent : ∀ (i : ℕ) (call : ReplayCall), s.calls[i]? = some call →
    call.phase = .sending ∨ i ∈ s.requests → call.serial = none
  requests : s.requests.Nodup
  sent : ∀ i ∈ s.requests, ∃ call : ReplayCall, s.calls[i]? = some call ∧ call.phase ≠ .sending
  responses : ∀ d ∈ s.responses ++ s.delivered, d.2.query.endpoint = me.getServiceEndpoint ∧
    ∃ p : PlaybackService, s.players[d.1]? = some p ∧ d.2 ∈ p.taken
  apart : ((s.responses ++ s.delivered).map key).Nodup
  installed : ∀ (id : ClientQueryId) (query : PlaybackQuery), s.activeQueryMap[id]? = some query →
    query.request.query_id = id ∧ ∃ call : ReplayCall, s.calls[query.call]? = some call ∧
      call.request = query.request ∧ call.Open
  live : ∀ (i : ℕ) (call : ReplayCall), s.calls[i]? = some call → call.Open →
    ∃ query, s.Installed i call query
  given : ∀ (i : ℕ) (call : ReplayCall), s.calls[i]? = some call →
    (call.events = call.before ∧ ∀ d ∈ s.delivered, d.2.query ≠ call.request) ∨
      (∃ r ∈ s.receiving, r.call = i) ∨
      ∃ response, s.Given call.request response ∧ call.events = call.given response
  single : (s.receiving.map Receiving.call).Nodup
  /-- A response is being given to a replay that has not returned. -/
  receives : ∀ r ∈ s.receiving, ∃ call : ReplayCall, s.calls[r.call]? = some call ∧ call.Open ∧
    s.Given call.request r.response ∧ call.events = call.partway r
  completed : ∀ (id : ClientQueryId) (query : PlaybackQuery), s.activeQueryMap[id]? = some query →
    query.completed = true →
    ∃ response, s.Given query.request response ∧ query.complete = response.complete
  verdict : ∀ (i : ℕ) (call : ReplayCall) (ret_value : ReplayResult), s.calls[i]? = some call →
    call.phase = .stopping ret_value ∨ call.phase = .finished ret_value →
    ret_value = .CL_SUCCESS ∨ ret_value = .CL_ERR_PARTIAL_RESULT →
    ∃ response, s.Given call.request response ∧
      (ret_value = .CL_SUCCESS ↔ response.complete = true)

theorem kept_initial (n : ℕ) : Kept me { players := List.replicate n {} } where
  players := by
    intro k p hp
    rw [List.getElem?_replicate] at hp
    split at hp
    · cases hp
      exact PlaybackService.kept_initial
    · cases hp
  index := rfl
  ids := fun _ _ h => by cases h
  known := by
    intro k p m q hp hknows
    rw [List.getElem?_replicate] at hp
    split at hp
    · cases hp
      exact absurd hknows (PlaybackService.not_knows_initial m q)
    · cases hp
  unsent := fun _ _ h => by cases h
  requests := List.nodup_nil
  sent := List.forall_mem_nil _
  responses := List.forall_mem_nil _
  apart := List.nodup_nil
  installed := fun _ _ h => by simp at h
  live := fun _ _ h => by cases h
  given := fun _ _ h => by cases h
  single := List.nodup_nil
  receives := List.forall_mem_nil _
  completed := fun _ _ h => by simp at h
  verdict := fun _ _ _ h => by cases h

/-- The ids of two replays differ, where there are not too many. -/
theorem Kept.eq_of_query_id (h : Kept me s) (hfew : s.calls.length < 2 ^ 32)
    {call' : ReplayCall} (hi : s.calls[i]? = some call) (hj : s.calls[j]? = some call')
    (hid : call.request.query_id = call'.request.query_id) : i = j := by
  obtain ⟨hilt, -⟩ := List.getElem?_eq_some_iff.mp hi
  obtain ⟨hjlt, -⟩ := List.getElem?_eq_some_iff.mp hj
  rw [(h.ids i call hi).1, (h.ids j call' hj).1] at hid
  have hnat := congrArg UInt32.toNat hid
  rw [UInt32.toNat_ofNat', UInt32.toNat_ofNat'] at hnat
  omega

/-- The query under the id of a replay is the one of the replay. -/
theorem Kept.query_of_call (h : Kept me s) (hfew : s.calls.length < 2 ^ 32)
    (hcall : s.calls[i]? = some call) {query : PlaybackQuery}
    (hquery : s.activeQueryMap[call.request.query_id]? = some query) :
    query.call = i ∧ query.request = call.request := by
  obtain ⟨hid, call', hcall', hrequest, -⟩ := h.installed _ query hquery
  have hsame : query.call = i := by
    apply h.eq_of_query_id hfew hcall' hcall
    rw [hrequest, hid]
  refine ⟨hsame, ?_⟩
  rw [hsame, hcall, Option.some.injEq] at hcall'
  rw [← hrequest, hcall']

/-- The replay that a response is for. -/
theorem Kept.exists_call (h : Kept me s) {d : ℕ × ActiveQuery}
    (hd : d ∈ s.responses ++ s.delivered) :
    ∃ (i : ℕ) (call : ReplayCall), s.calls[i]? = some call ∧ call.player = d.1 ∧
      call.request = d.2.query ∧ call.serial = some d.2.serial := by
  obtain ⟨hendpoint, p, hp, htaken⟩ := h.responses d hd
  exact h.known d.1 p d.2.serial d.2.query hp (.inr (.inr ⟨d.2, htaken, rfl, rfl⟩)) hendpoint

/-- **Two responses are not for the same replay.** -/
theorem Kept.eq_of_query (h : Kept me s) (hfew : s.calls.length < 2 ^ 32)
    {d d' : ℕ × ActiveQuery} (hd : d ∈ s.responses ++ s.delivered)
    (hd' : d' ∈ s.responses ++ s.delivered)
    (hquery : d.2.query = d'.2.query) : d = d' := by
  obtain ⟨i, call, hi, hplayer, hrequest, hserial⟩ := h.exists_call hd
  obtain ⟨j, call', hj, hplayer', hrequest', hserial'⟩ := h.exists_call hd'
  have hij : i = j := by
    apply h.eq_of_query_id hfew hi hj
    rw [hrequest, hrequest', hquery]
  subst hij
  rw [hi, Option.some.injEq] at hj
  subst hj
  apply List.inj_on_of_nodup_map h.apart hd hd'
  rw [key, key, ← hplayer, ← hplayer', Option.some.inj (hserial.symm.trans hserial')]

/-! ### The steps of a replay -/

theorem getElem?_calls_setPhase (s : ReplaySystem) (i j : ℕ) (phase : ReplayPhase) :
    (s.setPhase i phase).calls[j]? = s.calls[j]?.map fun call =>
      { call with phase := if i = j then phase else call.phase } := by
  show (s.calls.modify i _)[j]? = _
  rw [List.getElem?_modify]
  by_cases hij : i = j
  · simp [hij]
  · simp [hij]

/-- A replay goes on, and does not return yet. -/
theorem Kept.setPhase (h : Kept me s) (hcall : s.calls[i]? = some call) (hopen : call.Open)
    {phase : ReplayPhase} (hsending : phase ≠ .sending)
    (hfinished : ∀ ret_value, phase ≠ .finished ret_value)
    (hverdict : ∀ ret_value, phase = .stopping ret_value →
      ret_value = .CL_SUCCESS ∨ ret_value = .CL_ERR_PARTIAL_RESULT →
      ∃ response, s.Given call.request response ∧
        (ret_value = .CL_SUCCESS ↔ response.complete = true)) :
    Kept me (s.setPhase i phase) := by
  have hwas : ∀ (j : ℕ) (call : ReplayCall), (s.setPhase i phase).calls[j]? = some call →
      ∃ old, s.calls[j]? = some old ∧
        call = { old with phase := if i = j then phase else old.phase } := by
    intro j call hj
    rw [getElem?_calls_setPhase, Option.map_eq_some_iff] at hj
    obtain ⟨old, hold, rfl⟩ := hj
    exact ⟨old, hold, rfl⟩
  have his : ∀ (j : ℕ) (old : ReplayCall), s.calls[j]? = some old →
      (s.setPhase i phase).calls[j]? =
        some { old with phase := if i = j then phase else old.phase } := by
    intro j old hj
    rw [getElem?_calls_setPhase, hj, Option.map_some]
  have hopens : ∀ (j : ℕ) (old : ReplayCall), s.calls[j]? = some old →
      (ReplayCall.Open { old with phase := if i = j then phase else old.phase } ↔ old.Open) := by
    intro j old hj
    by_cases hij : i = j
    · subst hij
      rw [hcall, Option.some.injEq] at hj
      subst hj
      simp only [ReplayCall.Open, if_true]
      exact iff_of_true hfinished hopen
    · simp only [if_neg hij]
  refine { h with
    index := ?_, ids := ?_, known := ?_, unsent := ?_, sent := ?_, installed := ?_, live := ?_
    given := ?_, receives := ?_, verdict := ?_ }
  · rw [ReplaySystem.setPhase, List.length_modify]
    exact h.index
  · intro j call' hj
    obtain ⟨old, hold, rfl⟩ := hwas j call' hj
    exact h.ids j old hold
  · intro k p n q hp hknows hq
    obtain ⟨j, old, hold, hplayer, hrequest, hserial⟩ := h.known k p n q hp hknows hq
    exact ⟨j, _, his j old hold, hplayer, hrequest, hserial⟩
  · intro j call' hj hunsent
    obtain ⟨old, hold, rfl⟩ := hwas j call' hj
    apply h.unsent j old hold
    rcases hunsent with hphase | hmem
    · dsimp only at hphase
      split at hphase
      · exact absurd hphase hsending
      · exact .inl hphase
    · exact .inr hmem
  · intro j hj
    obtain ⟨old, hold, hphase⟩ := h.sent j hj
    refine ⟨_, his j old hold, ?_⟩
    dsimp only
    split
    · exact hsending
    · exact hphase
  · intro id query hquery
    obtain ⟨hid, old, hold, hrequest, hwasOpen⟩ := h.installed id query hquery
    exact ⟨hid, _, his _ old hold, hrequest, (hopens _ old hold).mpr hwasOpen⟩
  · intro j call' hj hnow
    obtain ⟨old, hold, rfl⟩ := hwas j call' hj
    exact h.live j old hold ((hopens j old hold).mp hnow)
  · intro j call' hj
    obtain ⟨old, hold, rfl⟩ := hwas j call' hj
    exact h.given j old hold
  · intro r hr
    obtain ⟨old, hold, hwasOpen, hrest⟩ := h.receives r hr
    exact ⟨_, his _ old hold, (hopens _ old hold).mpr hwasOpen, hrest⟩
  · intro j call' ret_value hj hphase hret
    obtain ⟨old, hold, rfl⟩ := hwas j call' hj
    dsimp only at hphase
    split at hphase
    · next hij =>
      subst hij
      rw [hcall, Option.some.injEq] at hold
      subst hold
      rcases hphase with hphase | hphase
      · exact hverdict ret_value hphase hret
      · exact absurd hphase (hfinished ret_value)
    · exact h.verdict j old ret_value hold hphase hret

theorem callIn_eq_some {phase : ReplayPhase} (h : s.callIn i phase = some call) :
    s.calls[i]? = some call ∧ call.phase = phase := by
  obtain ⟨hcall, hphase⟩ := Option.filter_eq_some_iff.mp h
  exact ⟨hcall, of_decide_eq_true hphase⟩

theorem open_of_phase {phase : ReplayPhase} (h : call.phase = phase)
    (hphase : ∀ ret_value, phase ≠ .finished ret_value) : call.Open := by
  intro ret_value heq
  exact hphase ret_value (h.symm.trans heq)

/-- The request leaves. -/
theorem Kept.send (h : Kept me s) (hstep : s.sendStep i = some s') : Kept me s' := by
  obtain ⟨call, hin, hstep⟩ := Option.bind_eq_some_iff.mp hstep
  cases hstep
  obtain ⟨hcall, hphase⟩ := callIn_eq_some hin
  have hopen := open_of_phase hphase nofun
  have hnext : Kept me (s.setPhase i .sent) :=
    h.setPhase hcall hopen nofun nofun (fun _ hno => by cases hno)
  have hnot : i ∉ s.requests := by
    intro hmem
    obtain ⟨call', hcall', hne⟩ := h.sent i hmem
    rw [hcall, Option.some.injEq] at hcall'
    exact hne (hcall' ▸ hphase)
  have hsent : (s.setPhase i .sent).calls[i]? = some { call with phase := .sent } := by
    rw [getElem?_calls_setPhase, hcall, Option.map_some, if_pos rfl]
  refine { hnext with unsent := ?_, requests := ?_, sent := ?_ }
  · intro j call' hj hunsent
    rcases hunsent with hsending | hmem
    · exact hnext.unsent j call' hj (.inl hsending)
    · rcases List.mem_append.mp hmem with hmem | hmem
      · exact hnext.unsent j call' hj (.inr hmem)
      · rw [List.mem_singleton.mp hmem, hsent, Option.some.injEq] at hj
        rw [← hj]
        exact h.unsent i call hcall (.inl hphase)
  · exact List.nodup_append.mpr ⟨h.requests, List.nodup_singleton _, fun a ha b hb => by
      rw [List.mem_singleton.mp hb]
      rintro rfl
      exact hnot ha⟩
  · intro j hj
    rcases List.mem_append.mp hj with hj | hj
    · exact hnext.sent j hj
    · rw [List.mem_singleton.mp hj]
      exact ⟨_, hsent, nofun⟩

/-- The call of the player returns, or throws. -/
theorem Kept.returned (h : Kept me s) {ok : Bool} (hstep : s.sentStep i ok = some s') :
    Kept me s' := by
  obtain ⟨call, hin, hstep⟩ := Option.bind_eq_some_iff.mp hstep
  obtain ⟨hcall, hphase⟩ := callIn_eq_some hin
  have hopen := open_of_phase hphase nofun
  split at hstep
  · split at hstep
    · cases hstep
      exact h.setPhase hcall hopen nofun nofun (fun _ hno => by cases hno)
    · cases hstep
  · cases hstep
    refine h.setPhase hcall hopen nofun nofun ?_
    intro ret_value hret hgood
    cases hret
    rcases hgood with hgood | hgood
    · cases hgood
    · cases hgood

theorem Kept.look (h : Kept me s) {now : ℕ} (hstep : s.lookStep i now = some s') :
    Kept me s' := by
  obtain ⟨call, hin, hstep⟩ := Option.bind_eq_some_iff.mp hstep
  obtain ⟨query, -, hstep⟩ := Option.bind_eq_some_iff.mp hstep
  obtain ⟨hcall, hphase⟩ := callIn_eq_some hin
  split at hstep
  · cases hstep
    exact h.setPhase hcall (open_of_phase hphase nofun) nofun nofun (fun _ hno => by cases hno)
  · cases hstep
    exact h

/-- **The result of a replay is decided by the response that was given to its query.** -/
theorem Kept.decide (h : Kept me s) (hfew : s.calls.length < 2 ^ 32)
    (hstep : s.decideStep i = some s') : Kept me s' := by
  obtain ⟨call, hin, hstep⟩ := Option.bind_eq_some_iff.mp hstep
  obtain ⟨query, hquery, hstep⟩ := Option.bind_eq_some_iff.mp hstep
  obtain ⟨hcall, hphase⟩ := callIn_eq_some hin
  cases hstep
  refine h.setPhase hcall (open_of_phase hphase nofun) nofun nofun ?_
  intro ret_value hret hgood
  injection hret with hret
  obtain ⟨-, call', hcall', hrequest, -⟩ := h.installed _ query hquery
  have hdone : query.completed = true := by
    by_contra hnot
    rw [PlaybackQuery.result, if_neg hnot] at hret
    rw [← hret] at hgood
    rcases hgood with hgood | hgood
    · cases hgood
    · cases hgood
  obtain ⟨response, hgiven, hcomplete⟩ := h.completed _ query hquery hdone
  -- the query is the one of this replay
  have hsame := (h.query_of_call hfew hcall hquery).2
  refine ⟨response, hsame ▸ hgiven, ?_⟩
  rw [PlaybackQuery.result, if_pos hdone] at hret
  rw [← hcomplete, ← hret]
  cases query.complete <;> simp

/-- The replay returns, and its query goes. -/
theorem Kept.stop (h : Kept me s) (hfew : s.calls.length < 2 ^ 32)
    (hidle : ∀ r ∈ s.receiving, r.call ≠ i) (hstep : s.stopStep i = some s') : Kept me s' := by
  obtain ⟨call, hcall, hstep⟩ := Option.bind_eq_some_iff.mp hstep
  split at hstep
  · next ret hphase =>
    cases hstep
    have hwas : ∀ (j : ℕ) (call : ReplayCall),
        (s.setPhase i (.finished ret)).calls[j]? = some call → ∃ old, s.calls[j]? = some old ∧
          call = { old with phase := if i = j then .finished ret else old.phase } := by
      intro j call hj
      rw [getElem?_calls_setPhase, Option.map_eq_some_iff] at hj
      obtain ⟨old, hold, rfl⟩ := hj
      exact ⟨old, hold, rfl⟩
    have his : ∀ (j : ℕ) (old : ReplayCall), s.calls[j]? = some old →
        (s.setPhase i (.finished ret)).calls[j]? =
          some { old with phase := if i = j then .finished ret else old.phase } := by
      intro j old hj
      rw [getElem?_calls_setPhase, hj, Option.map_some]
    -- the other queries stay
    have herase : ∀ (id : ClientQueryId) (query : PlaybackQuery),
        (s.activeQueryMap.erase call.request.query_id)[id]? = some query →
        call.request.query_id ≠ id ∧ s.activeQueryMap[id]? = some query := by
      intro id query hquery
      rw [Std.ExtTreeMap.getElem?_erase] at hquery
      split at hquery
      · cases hquery
      · next hne => exact ⟨fun heq => hne (by simp [heq]), hquery⟩
    refine { h with
      index := ?_, ids := ?_, known := ?_, unsent := ?_, sent := ?_, installed := ?_, live := ?_
      given := ?_, receives := ?_, completed := ?_, verdict := ?_ }
    · show s.queryIndex = UInt32.ofNat (s.calls.modify i _).length
      rw [List.length_modify]
      exact h.index
    · intro j call' hj
      obtain ⟨old, hold, rfl⟩ := hwas j call' hj
      exact h.ids j old hold
    · intro k p n q hp hknows hq
      obtain ⟨j, old, hold, hplayer, hrequest, hserial⟩ := h.known k p n q hp hknows hq
      exact ⟨j, _, his j old hold, hplayer, hrequest, hserial⟩
    · intro j call' hj hunsent
      obtain ⟨old, hold, rfl⟩ := hwas j call' hj
      apply h.unsent j old hold
      rcases hunsent with hsending | hmem
      · dsimp only at hsending
        split at hsending
        · cases hsending
        · exact .inl hsending
      · exact .inr hmem
    · intro j hj
      obtain ⟨old, hold, hne⟩ := h.sent j hj
      refine ⟨_, his j old hold, ?_⟩
      dsimp only
      split
      · nofun
      · exact hne
    · intro id query hquery
      obtain ⟨hne, hquery⟩ := herase id query hquery
      obtain ⟨hid, old, hold, hrequest, hopen⟩ := h.installed id query hquery
      have hother : i ≠ query.call := by
        rintro rfl
        rw [hcall, Option.some.injEq] at hold
        rw [hold, hrequest, hid] at hne
        exact hne rfl
      refine ⟨hid, _, his _ old hold, hrequest, ?_⟩
      simpa only [if_neg hother] using hopen
    · intro j call' hj hopen
      obtain ⟨old, hold, rfl⟩ := hwas j call' hj
      by_cases hij : i = j
      · exact absurd (if_pos hij) (hopen ret)
      · simp only [if_neg hij] at hopen
        obtain ⟨query, hquery, hof⟩ := h.live j old hold hopen
        refine ⟨query, ?_, hof⟩
        show (s.activeQueryMap.erase _)[old.request.query_id]? = _
        rw [Std.ExtTreeMap.getElem?_erase, if_neg, hquery]
        intro heq
        have heq : call.request.query_id = old.request.query_id := by simpa using heq
        exact hij (h.eq_of_query_id hfew hcall hold heq)
    · intro j call' hj
      obtain ⟨old, hold, rfl⟩ := hwas j call' hj
      exact h.given j old hold
    · intro r hr
      obtain ⟨old, hold, hopen, hrest⟩ := h.receives r hr
      refine ⟨_, his _ old hold, ?_, hrest⟩
      simpa only [if_neg (hidle r hr).symm] using hopen
    · intro id query hquery
      exact h.completed id query (herase id query hquery).2
    · intro j call' ret_value hj hphase' hret
      obtain ⟨old, hold, rfl⟩ := hwas j call' hj
      dsimp only at hphase'
      split at hphase'
      · next hij =>
        subst hij
        rw [hcall, Option.some.injEq] at hold
        subst hold
        apply h.verdict i call ret_value hcall (.inl ?_) hret
        rcases hphase' with hno | hphase'
        · cases hno
        · cases hphase'
          exact hphase
      · exact h.verdict j old ret_value hold hphase' hret
  · cases hstep

theorem getElem?_concat_cases {α : Type} {l : List α} {a b : α} (h : (l ++ [a])[j]? = some b) :
    l[j]? = some b ∨ j = l.length ∧ b = a := by
  rcases Nat.lt_or_ge j l.length with hlt | hge
  · rw [List.getElem?_append_left hlt] at h
    exact .inl h
  · rw [List.getElem?_append_right hge, List.getElem?_singleton] at h
    split at h
    · next hzero => exact .inr ⟨by omega, (Option.some.inj h).symm⟩
    · cases h

theorem getElem?_concat_of_some {α : Type} {l : List α} {a b : α} (h : l[j]? = some b) :
    (l ++ [a])[j]? = some b := by
  rw [List.getElem?_append_left (List.getElem?_eq_some_iff.mp h).1, h]

theorem length_calls_startQuery (s : ReplaySystem) (call : ReplayCall) (timeout_time : ℕ) :
    (s.startQuery call timeout_time).calls.length = s.calls.length + 1 := by
  unfold startQuery
  dsimp only
  split
  · exact List.length_append
  · exact List.length_append

/-- A new replay. -/
theorem Kept.replay (h : Kept me s) (chronicle story : String) (start stop : ℕ) (callback : Bool)
    (before : List LogEvent) (timeout_time : ℕ) (hfew : (s.replayStep me chronicle story start stop
      callback before timeout_time).calls.length < 2 ^ 32) :
    Kept me (s.replayStep me chronicle story start stop callback before timeout_time) := by
  unfold ReplaySystem.replayStep at hfew ⊢
  split
  · exact h
  · next story_id player hacquired =>
    rw [hacquired] at hfew
    dsimp only at hfew
    rw [length_calls_startQuery] at hfew
    have hid : s.queryIndex + 1 = UInt32.ofNat (s.calls.length + 1) := by
      rw [h.index, UInt32.ofNat_add]
      rfl
    -- the id is a new one
    have hnew : ∀ (j : ℕ) (call : ReplayCall), s.calls[j]? = some call →
        call.request.query_id ≠ s.queryIndex + 1 := by
      intro j call hj heq
      obtain ⟨hlt, -⟩ := List.getElem?_eq_some_iff.mp hj
      rw [(h.ids j call hj).1, hid] at heq
      have hnat := congrArg UInt32.toNat heq
      rw [UInt32.toNat_ofNat', UInt32.toNat_ofNat'] at hnat
      omega
    generalize hrequest : (⟨me, s.queryIndex + 1, story_id, chronicle, story, start, stop⟩ :
      StoryPlaybackRequest) = request
    have hquery_id : request.query_id = s.queryIndex + 1 := by rw [← hrequest]
    have hme : request.receiver_service_id = me := by rw [← hrequest]
    have hfree : request.query_id ∉ s.activeQueryMap := by
      intro hmem
      obtain ⟨query, hquery⟩ := Option.isSome_iff_exists.mp
        (Std.ExtTreeMap.mem_iff_isSome_getElem?.mp hmem)
      obtain ⟨hof, call, hcall, hreq, -⟩ := h.installed _ query hquery
      apply hnew _ call hcall
      rw [hreq, hof, hquery_id]
    unfold startQuery
    dsimp only
    rw [if_neg hfree]
    have hinsert : ∀ id, (s.activeQueryMap.insert request.query_id
        ⟨s.calls.length, request, timeout_time, false, true⟩)[id]? =
          if request.query_id = id then
            some ⟨s.calls.length, request, timeout_time, false, true⟩
          else s.activeQueryMap[id]? := by
      intro id
      rw [Std.ExtTreeMap.getElem?_insert]
      by_cases heq : request.query_id = id
      · simp [heq]
      · simp [heq]
    refine { h with
      index := ?_, ids := ?_, known := ?_, unsent := ?_, sent := ?_, installed := ?_, live := ?_
      given := ?_, receives := ?_, completed := ?_, verdict := ?_ }
    · rw [hquery_id, hid, List.length_append, List.length_singleton]
    · intro j call hj
      rcases getElem?_concat_cases hj with hj | ⟨rfl, rfl⟩
      · exact h.ids j call hj
      · exact ⟨hquery_id.trans hid, hme⟩
    · intro k p n q hp hknows hq
      obtain ⟨j, old, hold, hrest⟩ := h.known k p n q hp hknows hq
      exact ⟨j, old, getElem?_concat_of_some hold, hrest⟩
    · intro j call hj hunsent
      rcases getElem?_concat_cases hj with hj | ⟨rfl, rfl⟩
      · exact h.unsent j call hj hunsent
      · rfl
    · intro j hj
      obtain ⟨old, hold, hne⟩ := h.sent j hj
      exact ⟨old, getElem?_concat_of_some hold, hne⟩
    · intro id query hquery
      rw [hinsert] at hquery
      split at hquery
      · next heq =>
        cases hquery
        exact ⟨heq, _, List.getElem?_concat_length, rfl, nofun⟩
      · obtain ⟨hof, call, hcall, hrest⟩ := h.installed id query hquery
        exact ⟨hof, call, getElem?_concat_of_some hcall, hrest⟩
    · intro j call hj hopen
      rcases getElem?_concat_cases hj with hj | ⟨rfl, rfl⟩
      · obtain ⟨query, hquery, hof⟩ := h.live j call hj hopen
        refine ⟨query, ?_, hof⟩
        dsimp only
        rw [hinsert, if_neg, hquery]
        intro heq
        exact hnew j call hj (heq.symm.trans hquery_id)
      · refine ⟨⟨s.calls.length, request, timeout_time, false, true⟩, ?_, rfl⟩
        dsimp only
        rw [hinsert, if_pos rfl]
    · intro j call hj
      rcases getElem?_concat_cases hj with hj | ⟨rfl, rfl⟩
      · exact h.given j call hj
      · refine .inl ⟨rfl, ?_⟩
        intro d hd heq
        obtain ⟨j, call, hj, -, hof, -⟩ := h.exists_call (List.mem_append_right _ hd)
        apply hnew j call hj
        rw [hof, heq, hquery_id]
    · intro r hr
      obtain ⟨old, hold, hrest⟩ := h.receives r hr
      exact ⟨old, getElem?_concat_of_some hold, hrest⟩
    · intro id query hquery hdone
      rw [hinsert] at hquery
      split at hquery
      · cases hquery
        cases hdone
      · exact h.completed id query hquery hdone
    · intro j call ret_value hj hphase hret
      rcases getElem?_concat_cases hj with hj | ⟨rfl, rfl⟩
      · exact h.verdict j call ret_value hj hphase hret
      · rcases hphase with hno | hno
        · cases hno
        · cases hno

/-! ### The network and the players -/

/-- What is lost on the way. -/
theorem Kept.lose (h : Kept me s) {requests : List ℕ} {responses : List (ℕ × ActiveQuery)}
    (hrequests : requests.Sublist s.requests) (hresponses : responses.Sublist s.responses) :
    Kept me { s with requests, responses } := by
  have hboth := hresponses.append_right s.delivered
  refine { h with
    unsent := ?_, requests := h.requests.sublist hrequests, sent := ?_, responses := ?_
    apart := h.apart.sublist (hboth.map key) }
  · intro j call hj hunsent
    exact h.unsent j call hj (hunsent.imp_right fun hmem => hrequests.subset hmem)
  · intro j hj
    exact h.sent j (hrequests.subset hj)
  · intro d hd
    exact h.responses d (hboth.subset hd)

theorem getElem?_set_cases {α : Type} {l : List α} {k : ℕ} {a b : α}
    (h : (l.set k a)[j]? = some b) : j = k ∧ b = a ∨ j ≠ k ∧ l[j]? = some b := by
  rw [List.getElem?_set] at h
  split at h
  · next heq =>
    split at h
    · cases h
      exact .inl ⟨heq.symm, rfl⟩
    · cases h
  · next hne => exact .inr ⟨fun heq => hne heq.symm, h⟩

/-- A player goes on, and keeps what it has taken. -/
theorem Kept.taken_set (h : Kept me s) {k : ℕ} {p later : PlaybackService}
    (hp : s.players[k]? = some p) (htaken : ∀ a ∈ p.taken, a ∈ later.taken) :
    ∀ d ∈ s.responses ++ s.delivered, d.2.query.endpoint = me.getServiceEndpoint ∧
      ∃ p : PlaybackService, (s.players.set k later)[d.1]? = some p ∧ d.2 ∈ p.taken := by
  intro d hd
  obtain ⟨hendpoint, p', hp', hmem⟩ := h.responses d hd
  refine ⟨hendpoint, ?_⟩
  obtain ⟨hk, -⟩ := List.getElem?_eq_some_iff.mp hp
  by_cases heq : k = d.1
  · rw [← heq, hp, Option.some.injEq] at hp'
    rw [← hp'] at hmem
    exact ⟨later, by rw [← heq, List.getElem?_set_self hk], htaken _ hmem⟩
  · exact ⟨p', by rw [List.getElem?_set_ne heq, hp'], hmem⟩

/-- A request arrives at its player. -/
theorem Kept.arrive (h : Kept me s) {created : Bool} (hstep : s.arriveStep i created = some s') :
    Kept me s' := by
  obtain ⟨n, hn, hstep⟩ := Option.bind_eq_some_iff.mp hstep
  obtain ⟨call, hcall, hstep⟩ := Option.bind_eq_some_iff.mp hstep
  obtain ⟨p, hp, hstep⟩ := Option.bind_eq_some_iff.mp hstep
  cases hstep
  have hmem : n ∈ s.requests := List.mem_of_getElem? hn
  have hserial : call.serial = none := h.unsent n call hcall (.inr hmem)
  have hcalls : ∀ j : ℕ, (s.calls.modify n fun call =>
      { call with serial := some p.serials })[j]? = s.calls[j]?.map fun call =>
        { call with serial := if n = j then some p.serials else call.serial } := by
    intro j
    rw [List.getElem?_modify]
    by_cases hnj : n = j
    · simp [hnj]
    · simp [hnj]
  have hwas : ∀ (j : ℕ) (call : ReplayCall), (s.calls.modify n fun call =>
      { call with serial := some p.serials })[j]? = some call → ∃ old, s.calls[j]? = some old ∧
        call = { old with serial := if n = j then some p.serials else old.serial } := by
    intro j call hj
    rw [hcalls, Option.map_eq_some_iff] at hj
    obtain ⟨old, hold, rfl⟩ := hj
    exact ⟨old, hold, rfl⟩
  have his : ∀ (j : ℕ) (old : ReplayCall), s.calls[j]? = some old →
      (s.calls.modify n fun call => { call with serial := some p.serials })[j]? =
        some { old with serial := if n = j then some p.serials else old.serial } := by
    intro j old hj
    rw [hcalls, hj, Option.map_some]
  have hrest : ∀ j ∈ s.requests.eraseIdx i, j ≠ n ∧ j ∈ s.requests := by
    intro j hj
    refine ⟨?_, List.mem_of_mem_eraseIdx hj⟩
    rintro rfl
    obtain ⟨hi, hget⟩ := List.getElem?_eq_some_iff.mp hn
    have hnodup := (List.getElem_cons_eraseIdx_perm hi).nodup_iff.mpr h.requests
    rw [hget] at hnodup
    exact (List.nodup_cons.mp hnodup).1 hj
  have hrequested : p.step (.request call.request created) =
      some (p.requestStep call.request created) := rfl
  have htaken := h.taken_set hp fun a ha => PlaybackService.taken_step hrequested ha
  refine { h with
    players := ?_, index := ?_, ids := ?_, known := ?_, unsent := ?_
    requests := h.requests.sublist (List.eraseIdx_sublist ..)
    sent := ?_, responses := htaken, installed := ?_, live := ?_, given := ?_, receives := ?_
    verdict := ?_ }
  · intro k p' hk
    rcases getElem?_set_cases hk with ⟨-, rfl⟩ | ⟨-, hk⟩
    · exact (h.players _ p hp).requestStep _ _
    · exact h.players k p' hk
  · rw [List.length_modify]
    exact h.index
  · intro j call' hj
    obtain ⟨old, hold, rfl⟩ := hwas j call' hj
    exact h.ids j old hold
  · -- a request that was known before is of another replay
    have hknown : ∀ k (p' : PlaybackService) m q, s.players[k]? = some p' → p'.Knows m q →
        q.endpoint = me.getServiceEndpoint → ∃ (j : ℕ) (call' : ReplayCall),
          (s.calls.modify n fun call => { call with serial := some p.serials })[j]? = some call' ∧
            call'.player = k ∧ call'.request = q ∧ call'.serial = some m := by
      intro k p' m q hk hknows hq
      obtain ⟨j, old, hold, hplayer, hrequest, hof⟩ := h.known k p' m q hk hknows hq
      refine ⟨j, _, his j old hold, hplayer, hrequest, ?_⟩
      dsimp only
      rw [if_neg, hof]
      rintro rfl
      rw [hcall, Option.some.injEq] at hold
      rw [← hold, hserial] at hof
      cases hof
    intro k p' m q hk hknows hq
    rcases getElem?_set_cases hk with ⟨rfl, rfl⟩ | ⟨-, hk⟩
    · rcases PlaybackService.Knows.of_requestStep hknows with hold | ⟨rfl, rfl⟩
      · exact hknown _ p m q hp hold hq
      · exact ⟨n, _, his n call hcall, rfl, rfl, if_pos rfl⟩
    · exact hknown k p' m q hk hknows hq
  · intro j call' hj hunsent
    obtain ⟨old, hold, rfl⟩ := hwas j call' hj
    have hne : n ≠ j := by
      rintro rfl
      rcases hunsent with hsending | hmem'
      · obtain ⟨call₂, hcall₂, hno⟩ := h.sent n hmem
        rw [hold, Option.some.injEq] at hcall₂
        exact hno (hcall₂ ▸ hsending)
      · exact (hrest n hmem').1 rfl
    dsimp only
    rw [if_neg hne]
    exact h.unsent j old hold (hunsent.imp_right fun hj => (hrest j hj).2)
  · intro j hj
    obtain ⟨old, hold, hne⟩ := h.sent j (hrest j hj).2
    exact ⟨_, his j old hold, hne⟩
  · intro id query hquery
    obtain ⟨hid, old, hold, hrequest, hopen⟩ := h.installed id query hquery
    exact ⟨hid, _, his _ old hold, hrequest, hopen⟩
  · intro j call' hj hopen
    obtain ⟨old, hold, rfl⟩ := hwas j call' hj
    exact h.live j old hold hopen
  · intro j call' hj
    obtain ⟨old, hold, rfl⟩ := hwas j call' hj
    exact h.given j old hold
  · intro r hr
    obtain ⟨old, hold, hrest⟩ := h.receives r hr
    exact ⟨_, his _ old hold, hrest⟩
  · intro j call' ret_value hj hphase hret
    obtain ⟨old, hold, rfl⟩ := hwas j call' hj
    exact h.verdict j old ret_value hold hphase hret

/-- A player goes on, but for the requests of this client. -/
theorem Kept.goOn (h : Kept me s) {k : ℕ} {p later : PlaybackService} {l : PlaybackStep}
    (hp : s.players[k]? = some p) (hnext : p.step l = some later)
    (hothers : ∀ q created, l = .request q created → q.endpoint ≠ me.getServiceEndpoint) :
    Kept me { s with players := s.players.set k later } := by
  have htaken := h.taken_set hp (fun a ha => PlaybackService.taken_step hnext ha)
  have hkept := (h.players k p hp).step hnext
  refine { h with players := ?_, known := ?_, responses := htaken }
  · intro k' p' hk
    rcases getElem?_set_cases hk with ⟨-, rfl⟩ | ⟨-, hk⟩
    · exact hkept
    · exact h.players k' p' hk
  · intro k' p' n q hk hknows hq
    rcases getElem?_set_cases hk with ⟨rfl, rfl⟩ | ⟨-, hk⟩
    · apply h.known _ p n q hp ?_ hq
      by_cases hrequest : ∃ q' created, l = .request q' created
      · obtain ⟨q', created, rfl⟩ := hrequest
        cases hnext
        rcases PlaybackService.Knows.of_requestStep hknows with hold | ⟨-, rfl⟩
        · exact hold
        · exact absurd hq (hothers _ created rfl)
      · exact (h.players _ p hp).knows_step (fun q' created heq => hrequest ⟨q', created, heq⟩)
          hnext hknows
    · exact h.known k' p' n q hk hknows hq

/-- **A player takes a response for the client.** -/
theorem Kept.take (h : Kept me s) {k : ℕ} {p later : PlaybackService} {e : Endpoint}
    (hp : s.players[k]? = some p) (hlater : p.drainStep e = some later) :
    Kept me { s with
      players := s.players.set k later
      responses := s.responses ++ (if e = me.getServiceEndpoint then later.taken.getLast?.toList
        else []).map fun a => (k, a) } := by
  have hstep : p.step (.drain e) = some later := hlater
  have hon := h.goOn hp hstep nofun
  obtain ⟨agent, id, a, hagent, ha, -, rfl⟩ := PlaybackService.drainStep_eq_some hlater
  have hlast : (p.takeResponse e (agent.erase id) a).taken.getLast? = some a :=
    List.getLast?_concat
  rw [hlast]
  by_cases he : e = me.getServiceEndpoint
  · rw [if_pos he, Option.toList_some, List.map_singleton]
    have hplaced := ((h.players k p hp).placed e id a
      ((PlaybackService.active?_of_agent hagent id).trans ha)).1
    have hserials := (((h.players k p hp).step hstep).serials.sublist
      (List.sublist_append_right _ _))
    have hfresh : a.serial ∉ p.takenSerials := by
      have htaken : (p.takeResponse e (agent.erase id) a).takenSerials =
          p.takenSerials ++ [a.serial] := List.map_append
      rw [htaken, List.nodup_append] at hserials
      intro hmem
      exact hserials.2.2 _ hmem _ (List.mem_singleton_self _) rfl
    have hperm : (s.responses ++ [(k, a)] ++ s.delivered).Perm
        ((k, a) :: (s.responses ++ s.delivered)) := by
      rw [List.append_assoc]
      exact List.perm_middle
    refine { hon with responses := ?_, apart := ?_ }
    · intro d hd
      rcases List.mem_cons.mp (hperm.mem_iff.mp hd) with rfl | hd
      · obtain ⟨hk, -⟩ := List.getElem?_eq_some_iff.mp hp
        exact ⟨hplaced.trans he, _, List.getElem?_set_self hk,
          List.mem_append_right _ (List.mem_singleton_self _)⟩
      · exact hon.responses d hd
    · rw [(hperm.map key).nodup_iff, List.map_cons, List.nodup_cons]
      refine ⟨?_, h.apart⟩
      -- the response was not taken before
      intro hmem
      obtain ⟨d, hd, heq⟩ := List.mem_map.mp hmem
      obtain ⟨-, p', hp', htaken⟩ := h.responses d hd
      rw [key, key, Prod.mk.injEq] at heq
      rw [heq.1, hp, Option.some.injEq] at hp'
      apply hfresh
      rw [← heq.2, hp']
      exact List.mem_map_of_mem htaken
  · rw [if_neg he, List.map_nil, List.append_nil]
    exact hon

theorem Kept.player (h : Kept me s) {k : ℕ} {l : PlaybackStep}
    (hstep : s.playerStep me k l = some s') : Kept me s' := by
  obtain ⟨p, hp, hstep⟩ := Option.bind_eq_some_iff.mp hstep
  cases l with
  | request q created =>
    dsimp only at hstep
    split at hstep
    · cases hstep
    · next hne =>
      cases hstep
      refine h.goOn hp (l := .request q created) rfl ?_
      intro q' created' heq
      cases heq
      exact hne
  | drain e =>
    obtain ⟨later, hlater, hstep⟩ := Option.bind_eq_some_iff.mp hstep
    cases hstep
    exact h.take hp hlater
  | stash i fetched =>
    obtain ⟨later, hlater, hstep⟩ := Option.bind_eq_some_iff.mp hstep
    cases hstep
    exact h.goOn hp hlater nofun
  | push i =>
    obtain ⟨later, hlater, hstep⟩ := Option.bind_eq_some_iff.mp hstep
    cases hstep
    exact h.goOn hp hlater nofun
  | pop =>
    obtain ⟨later, hlater, hstep⟩ := Option.bind_eq_some_iff.mp hstep
    cases hstep
    exact h.goOn hp hlater nofun
  | add i read =>
    obtain ⟨later, hlater, hstep⟩ := Option.bind_eq_some_iff.mp hstep
    cases hstep
    exact h.goOn hp hlater nofun

/-- A response has the id of its query. -/
theorem query_id_of_right {a : ActiveQuery} (h : a.Right) :
    a.response.query_id = a.query.query_id := by
  rw [h.response]
  cases a.archive with
  | none => rfl
  | some read => rfl

/-- **A query that is found for a response is the one that it is for.** -/
theorem Kept.receive (h : Kept me s) (hfew : s.calls.length < 2 ^ 32)
    (hstep : s.receiveStep i = some s') : Kept me s' := by
  obtain ⟨⟨k, a⟩, hmessage, hstep⟩ := Option.bind_eq_some_iff.mp hstep
  dsimp only at hstep
  split at hstep
  · cases hstep
    exact h.lose (List.Sublist.refl _) (List.eraseIdx_sublist ..)
  · next query hquery =>
    cases hstep
    have hin : (k, a) ∈ s.responses := List.mem_of_getElem? hmessage
    have hd : (k, a) ∈ s.responses ++ s.delivered := List.mem_append_left _ hin
    obtain ⟨hid, call, hcall, hrequest, hopen⟩ := h.installed _ query hquery
    -- the query is the one of the request that the response is for
    have hfor : a.query = call.request := by
      obtain ⟨j, call', hj, -, hreq, -⟩ := h.exists_call hd
      obtain ⟨-, p, hp, htaken⟩ := h.responses _ hd
      have hright := ((h.players k p hp).taken_whole a htaken).2
      have hsame : j = query.call := by
        apply h.eq_of_query_id hfew hj hcall
        rw [hreq, hrequest, hid]
        exact (query_id_of_right hright).symm
      rw [hsame, hcall, Option.some.injEq] at hj
      rw [← hreq, hj]
    have hfirst : ∀ d ∈ s.delivered, d.2.query ≠ call.request := by
      intro d hmem heq
      have hsame := h.eq_of_query hfew (List.mem_append_right _ hmem) hd (heq.trans hfor.symm)
      have hnodup := List.nodup_append.mp h.apart.of_map
      exact hnodup.2.2 _ hin _ (hsame ▸ hmem) rfl
    -- no other response is being given to the replay
    have hidle : ∀ r ∈ s.receiving, r.call ≠ query.call := by
      intro r hr heq
      obtain ⟨old, hold, -, ⟨d, hmem, hof, -⟩, -⟩ := h.receives r hr
      rw [heq, hcall, Option.some.injEq] at hold
      exact hfirst d hmem (hold ▸ hof)
    have hnothing : call.events = call.before := by
      rcases h.given _ call hcall with ⟨hbefore, -⟩ | ⟨r, hr, heq⟩ |
        ⟨response, ⟨d, hmem, heq, -⟩, -⟩
      · exact hbefore
      · exact absurd heq (hidle r hr)
      · exact absurd heq (hfirst d hmem)
    have hperm : (s.responses.eraseIdx i ++ (s.delivered ++ [(k, a)])).Perm
        (s.responses ++ s.delivered) := by
      obtain ⟨hi, hget⟩ := List.getElem?_eq_some_iff.mp hmessage
      have herase := List.getElem_cons_eraseIdx_perm hi
      rw [hget] at herase
      rw [← List.append_assoc]
      exact (List.perm_append_singleton _ _).trans (herase.append_right _)
    have hgrows : ∀ request response, s.Given request response →
        ∃ d ∈ s.delivered ++ [(k, a)], d.2.query = request ∧ d.2.response = response := by
      rintro request response ⟨d, hmem, hrest⟩
      exact ⟨d, List.mem_append_left _ hmem, hrest⟩
    refine { h with
      responses := ?_, apart := ?_, given := ?_, single := ?_, receives := ?_, completed := ?_
      verdict := ?_ }
    · intro d hd'
      exact h.responses d (hperm.mem_iff.mp hd')
    · exact ((hperm.map key).nodup_iff).mpr h.apart
    · intro j old hold
      by_cases hsame : query.call = j
      · exact .inr (.inl ⟨_, List.mem_append_right _ (List.mem_singleton_self _), hsame⟩)
      · rcases h.given j old hold with ⟨hbefore, hnone⟩ | ⟨r, hr, heq⟩ | ⟨response, hgave, hevents⟩
        · refine .inl ⟨hbefore, ?_⟩
          intro d hmem heq
          rcases List.mem_append.mp hmem with hmem | hmem
          · exact hnone d hmem heq
          · rw [List.mem_singleton.mp hmem] at heq
            apply hsame
            apply h.eq_of_query_id hfew hcall hold
            rw [← hfor, heq]
        · exact .inr (.inl ⟨r, List.mem_append_left _ hr, heq⟩)
        · exact .inr (.inr ⟨response, hgrows _ _ hgave, hevents⟩)
    · rw [List.map_append, List.nodup_append]
      refine ⟨h.single, List.nodup_singleton _, ?_⟩
      intro n hn m hm
      obtain ⟨r, hr, rfl⟩ := List.mem_map.mp hn
      rw [List.mem_singleton.mp hm]
      exact hidle r hr
    · intro r hr
      rcases List.mem_append.mp hr with hr | hr
      · obtain ⟨old, hold, hwasOpen, hgave, hevents⟩ := h.receives r hr
        exact ⟨old, hold, hwasOpen, hgrows _ _ hgave, hevents⟩
      · rw [List.mem_singleton.mp hr]
        refine ⟨call, hcall, hopen, ?_, ?_⟩
        · exact ⟨(k, a), List.mem_append_right _ (List.mem_singleton_self _), hfor, rfl⟩
        · rw [ReplayCall.partway_found, hnothing]
    · intro id query' hquery' hdone
      obtain ⟨response, hgave, hcomplete⟩ := h.completed id query' hquery' hdone
      exact ⟨response, hgrows _ _ hgave, hcomplete⟩
    · intro j old ret_value hold hphase hret
      obtain ⟨response, hgave, hiff⟩ := h.verdict j old ret_value hold hphase hret
      exact ⟨response, hgrows _ _ hgave, hiff⟩

/-- **A piece of a response is given to the replay, and to no other one.** -/
theorem Kept.give (h : Kept me s) (hstep : s.giveStep j = some s') : Kept me s' := by
  obtain ⟨r, hget, hstep⟩ := Option.bind_eq_some_iff.mp hstep
  obtain ⟨call, hcall, hstep⟩ := Option.bind_eq_some_iff.mp hstep
  split at hstep
  · cases hstep
  · next hpart =>
    cases hstep
    have hr : r ∈ s.receiving := List.mem_of_getElem? hget
    obtain ⟨call', hcall', hopen, hgave, hevents⟩ := h.receives r hr
    rw [hcall, Option.some.injEq] at hcall'
    subst hcall'
    have hcalls : ∀ i : ℕ, (s.calls.modify r.call fun call =>
        { call with events := (r.give call).2 })[i]? = s.calls[i]?.map fun call =>
          { call with events := if r.call = i then (r.give call).2 else call.events } := by
      intro i
      rw [List.getElem?_modify]
      by_cases hi : r.call = i
      · simp [hi]
      · simp [hi]
    have hwas : ∀ (i : ℕ) (call : ReplayCall), (s.calls.modify r.call fun call =>
        { call with events := (r.give call).2 })[i]? = some call →
          ∃ old, s.calls[i]? = some old ∧ call =
            { old with events := if r.call = i then (r.give old).2 else old.events } := by
      intro i call hi
      rw [hcalls, Option.map_eq_some_iff] at hi
      obtain ⟨old, hold, rfl⟩ := hi
      exact ⟨old, hold, rfl⟩
    have his : ∀ (i : ℕ) (old : ReplayCall), s.calls[i]? = some old →
        (s.calls.modify r.call fun call => { call with events := (r.give call).2 })[i]? =
          some { old with events := if r.call = i then (r.give old).2 else old.events } := by
      intro i old hi
      rw [hcalls, hi, Option.map_some]
    have hsame : (s.receiving.set j (r.give call).1).map Receiving.call =
        s.receiving.map Receiving.call := by
      have hmap : (s.receiving.map Receiving.call)[j]? = some r.call := by
        rw [List.getElem?_map, hget, Option.map_some]
      obtain ⟨hj, hat⟩ := List.getElem?_eq_some_iff.mp hmap
      rw [List.map_set, Receiving.give_call, ← hat, List.set_getElem_self]
    have hreceiving : ∀ r' ∈ s.receiving.set j (r.give call).1,
        r' = (r.give call).1 ∨ r' ∈ s.receiving ∧ r'.call ≠ r.call := by
      intro r' hr'
      obtain ⟨m, hm⟩ := List.mem_iff_getElem?.mp hr'
      rcases getElem?_set_cases hm with ⟨-, rfl⟩ | ⟨hne, hm⟩
      · exact .inl rfl
      · refine .inr ⟨List.mem_of_getElem? hm, ?_⟩
        intro heq
        apply hne
        have hmap : (s.receiving.map Receiving.call)[m]? =
            (s.receiving.map Receiving.call)[j]? := by
          rw [List.getElem?_map, List.getElem?_map, hm, hget, Option.map_some, Option.map_some, heq]
        exact (List.getElem?_inj (by simpa using (List.getElem?_eq_some_iff.mp hm).1)
          h.single).mp hmap
    refine { h with
      index := ?_, ids := ?_, known := ?_, unsent := ?_, sent := ?_, installed := ?_, live := ?_
      given := ?_, single := ?_, receives := ?_, verdict := ?_ }
    · rw [List.length_modify]
      exact h.index
    · intro i call' hi
      obtain ⟨old, hold, rfl⟩ := hwas i call' hi
      exact h.ids i old hold
    · intro k p n q hp hknows hq
      obtain ⟨i, old, hold, hrest⟩ := h.known k p n q hp hknows hq
      exact ⟨i, _, his i old hold, hrest⟩
    · intro i call' hi hunsent
      obtain ⟨old, hold, rfl⟩ := hwas i call' hi
      exact h.unsent i old hold hunsent
    · intro i hi
      obtain ⟨old, hold, hne⟩ := h.sent i hi
      exact ⟨_, his i old hold, hne⟩
    · intro id query hquery
      obtain ⟨hid, old, hold, hrequest, hwasOpen⟩ := h.installed id query hquery
      exact ⟨hid, _, his _ old hold, hrequest, hwasOpen⟩
    · intro i call' hi hwasOpen
      obtain ⟨old, hold, rfl⟩ := hwas i call' hi
      exact h.live i old hold hwasOpen
    · intro i call' hi
      obtain ⟨old, hold, rfl⟩ := hwas i call' hi
      -- the replays that are being given a response are the same
      have hmem : (∃ r' ∈ s.receiving.set j (r.give call).1, r'.call = i) ↔
          ∃ r' ∈ s.receiving, r'.call = i := by
        rw [← List.mem_map, ← List.mem_map, hsame]
      by_cases heq : r.call = i
      · exact .inr (.inl (hmem.mpr ⟨r, hr, heq⟩))
      · dsimp only
        rw [if_neg heq, hmem]
        exact h.given i old hold
    · rw [hsame]
      exact h.single
    · intro r' hr'
      rcases hreceiving r' hr' with rfl | ⟨hr', hne⟩
      · rw [Receiving.give_call, Receiving.give_response]
        refine ⟨_, his _ call hcall, hopen, hgave, ?_⟩
        dsimp only
        rw [if_pos rfl]
        exact ReplayCall.partway_give hevents (Bool.eq_false_iff.mpr hpart)
      · obtain ⟨old, hold, hrest⟩ := h.receives r' hr'
        have hstays := his _ old hold
        rw [if_neg hne.symm] at hstays
        exact ⟨old, hstays, hrest⟩
    · intro i call' ret_value hi hphase hret
      obtain ⟨old, hold, rfl⟩ := hwas i call' hi
      exact h.verdict i old ret_value hold hphase hret

/-- A thread has given its response, and leaves. -/
theorem Kept.leave (h : Kept me s) {r : Receiving} (hget : s.receiving[j]? = some r)
    (hwhole : r.whole = true) : Kept me { s with receiving := s.receiving.eraseIdx j } := by
  have hr : r ∈ s.receiving := List.mem_of_getElem? hget
  refine { h with given := ?_, single := ?_, receives := ?_ }
  · intro i call hcall
    rcases h.given i call hcall with hbefore | ⟨r', hr', heq⟩ | hgave
    · exact .inl hbefore
    · by_cases hsame : r' = r
      · obtain ⟨call', hcall', -, hgave, hevents⟩ := h.receives r hr
        rw [← hsame, heq, hcall, Option.some.injEq] at hcall'
        subst hcall'
        rw [ReplayCall.partway, if_pos hwhole] at hevents
        exact .inr (.inr ⟨_, hgave, hevents⟩)
      · obtain ⟨hj, hat⟩ := List.getElem?_eq_some_iff.mp hget
        have hperm := (List.getElem_cons_eraseIdx_perm hj).mem_iff.mpr hr'
        rw [hat] at hperm
        exact .inr (.inl ⟨r', (List.mem_cons.mp hperm).resolve_left hsame, heq⟩)
    · exact .inr (.inr hgave)
  · exact h.single.sublist ((List.eraseIdx_sublist ..).map _)
  · intro r' hr'
    exact h.receives r' (List.mem_of_mem_eraseIdx hr')

/-- **A query is completed when all of its response was given.** -/
theorem Kept.complete (h : Kept me s) (hstep : s.completeStep j = some s') : Kept me s' := by
  obtain ⟨r, hget, hstep⟩ := Option.bind_eq_some_iff.mp hstep
  split at hstep
  · next hwhole =>
    have hleft := h.leave hget hwhole
    dsimp only at hstep
    split at hstep
    · cases hstep
      exact hleft
    · next query hfound =>
      cases hstep
      obtain ⟨hquery, hof⟩ := Option.filter_eq_some_iff.mp hfound
      obtain ⟨call, hcall, -, hgave, -⟩ := h.receives r (List.mem_of_getElem? hget)
      obtain ⟨hid, call', hcall', hrequest, hopen⟩ := h.installed _ query hquery
      have hsame : call' = call := by
        rw [of_decide_eq_true hof, hcall, Option.some.injEq] at hcall'
        exact hcall'.symm
      have hinsert : ∀ id, (s.activeQueryMap.insert r.response.query_id
          { query with complete := r.response.complete, completed := true })[id]? =
            if r.response.query_id = id then
              some { query with complete := r.response.complete, completed := true }
            else s.activeQueryMap[id]? := by
        intro id
        rw [Std.ExtTreeMap.getElem?_insert]
        by_cases heq : r.response.query_id = id
        · simp [heq]
        · simp [heq]
      refine { hleft with installed := ?_, live := ?_, completed := ?_ }
      · intro id query' hquery'
        rw [hinsert] at hquery'
        split at hquery'
        · next heq =>
          cases hquery'
          exact ⟨hid.trans heq, call', hcall', hrequest, hopen⟩
        · exact h.installed id query' hquery'
      · intro i old hold hwasOpen
        obtain ⟨query', hquery', hof'⟩ := h.live i old hold hwasOpen
        unfold Installed
        dsimp only
        rw [hinsert]
        split
        · next heq =>
          rw [← heq, hquery, Option.some.injEq] at hquery'
          exact ⟨_, rfl, by rw [← hof', ← hquery']⟩
        · exact ⟨query', hquery', hof'⟩
      · intro id query' hquery' hdone
        rw [hinsert] at hquery'
        split at hquery'
        · cases hquery'
          refine ⟨r.response, ?_, rfl⟩
          rw [← hrequest, hsame]
          exact hgave
        · exact h.completed id query' hquery' hdone
  · cases hstep

theorem length_calls_setPhase (s : ReplaySystem) (i : ℕ) (phase : ReplayPhase) :
    (s.setPhase i phase).calls.length = s.calls.length :=
  List.length_modify ..

theorem calls_addStoryReader (s : ReplaySystem) (chronicle story : String) (story_id : StoryId)
    (player : ℕ) (created : Bool) :
    (s.addStoryReader chronicle story story_id player created).calls = s.calls := by
  unfold addStoryReader
  split
  · rfl
  · dsimp only
    split
    · split
      · rfl
      · rfl
    · split
      · rfl
      · rfl

theorem Kept.addStoryReader (h : Kept me s) (chronicle story : String) (story_id : StoryId)
    (player : ℕ) (created : Bool) :
    Kept me (s.addStoryReader chronicle story story_id player created) := by
  have hmaps : ∀ acquiredStoryMap playbackRpcClients,
      Kept me { s with acquiredStoryMap, playbackRpcClients } := fun _ _ => { h with }
  unfold ReplaySystem.addStoryReader
  split
  · exact h
  · dsimp only
    split
    · split
      · exact h
      · exact hmaps _ _
    · split
      · exact hmaps _ _
      · exact hmaps _ _

theorem calls_playerStep {k : ℕ} {l : PlaybackStep} (hstep : s.playerStep me k l = some s') :
    s'.calls = s.calls := by
  obtain ⟨p, -, hstep⟩ := Option.bind_eq_some_iff.mp hstep
  cases l with
  | request q created =>
    dsimp only at hstep
    split at hstep
    · cases hstep
    · cases hstep
      rfl
  | drain e | stash i fetched | push i | pop | add i read =>
    obtain ⟨later, -, hstep⟩ := Option.bind_eq_some_iff.mp hstep
    cases hstep
    rfl

/-- No step takes a call away. -/
theorem length_calls_step {l : ReplayStep} (hstep : s.step me l = some s') :
    s.calls.length ≤ s'.calls.length := by
  have hphase : ∀ i phase, s.calls.length ≤ (s.setPhase i phase).calls.length := fun i phase =>
    Nat.le_of_eq (length_calls_setPhase s i phase).symm
  cases l with
  | addStoryReader chronicle story story_id player created =>
    cases hstep
    exact Nat.le_of_eq (congrArg List.length (calls_addStoryReader ..).symm)
  | removeStoryReader chronicle story | loseRequest i | loseResponse i =>
    cases hstep
    exact Nat.le_refl _
  | replay chronicle story start stop callback before timeout_time =>
    cases hstep
    unfold replayStep
    split
    · exact Nat.le_refl _
    · rw [length_calls_startQuery]
      exact Nat.le_succ _
  | send i =>
    obtain ⟨call, -, hstep⟩ := Option.bind_eq_some_iff.mp hstep
    cases hstep
    exact hphase _ _
  | sent i ok =>
    obtain ⟨call, -, hstep⟩ := Option.bind_eq_some_iff.mp hstep
    split at hstep
    · split at hstep
      · cases hstep
        exact hphase _ _
      · cases hstep
    · cases hstep
      exact hphase _ _
  | look i now =>
    obtain ⟨call, -, hstep⟩ := Option.bind_eq_some_iff.mp hstep
    obtain ⟨query, -, hstep⟩ := Option.bind_eq_some_iff.mp hstep
    split at hstep
    · cases hstep
      exact hphase _ _
    · cases hstep
      exact Nat.le_refl _
  | decide i =>
    obtain ⟨call, -, hstep⟩ := Option.bind_eq_some_iff.mp hstep
    obtain ⟨query, -, hstep⟩ := Option.bind_eq_some_iff.mp hstep
    cases hstep
    exact hphase _ _
  | stop i =>
    obtain ⟨call, -, hstep⟩ := Option.bind_eq_some_iff.mp hstep
    split at hstep
    · cases hstep
      exact hphase _ _
    · cases hstep
  | arrive i created =>
    obtain ⟨n, -, hstep⟩ := Option.bind_eq_some_iff.mp hstep
    obtain ⟨call, -, hstep⟩ := Option.bind_eq_some_iff.mp hstep
    obtain ⟨p, -, hstep⟩ := Option.bind_eq_some_iff.mp hstep
    cases hstep
    exact Nat.le_of_eq (List.length_modify ..).symm
  | player k l => exact Nat.le_of_eq (congrArg List.length (calls_playerStep hstep).symm)
  | receive i =>
    obtain ⟨message, -, hstep⟩ := Option.bind_eq_some_iff.mp hstep
    dsimp only at hstep
    split at hstep
    · cases hstep
      exact Nat.le_refl _
    · cases hstep
      exact Nat.le_refl _
  | give j =>
    obtain ⟨r, -, hstep⟩ := Option.bind_eq_some_iff.mp hstep
    obtain ⟨call, -, hstep⟩ := Option.bind_eq_some_iff.mp hstep
    split at hstep
    · cases hstep
    · cases hstep
      exact Nat.le_of_eq (List.length_modify ..).symm
  | complete j =>
    obtain ⟨r, -, hstep⟩ := Option.bind_eq_some_iff.mp hstep
    split at hstep
    · dsimp only at hstep
      split at hstep
      · cases hstep
        exact Nat.le_refl _
      · cases hstep
        exact Nat.le_refl _
    · cases hstep

/-- **What every step keeps**, while no id has come again and no query is erased too early. -/
theorem Kept.step (h : Kept me s) {l : ReplayStep} (hcond : s.Uninterrupted l)
    (hstep : s.step me l = some s') (hfew : s'.calls.length < 2 ^ 32) : Kept me s' := by
  have hfewer := Nat.lt_of_le_of_lt (length_calls_step hstep) hfew
  cases l with
  | addStoryReader chronicle story story_id player created =>
    cases hstep
    exact h.addStoryReader chronicle story story_id player created
  | removeStoryReader chronicle story =>
    cases hstep
    exact { h with }
  | replay chronicle story start stop callback before timeout_time =>
    cases hstep
    exact h.replay chronicle story start stop callback before timeout_time hfew
  | send i => exact h.send hstep
  | sent i ok => exact h.returned hstep
  | look i now => exact h.look hstep
  | decide i => exact h.decide hfewer hstep
  | stop i => exact h.stop hfewer hcond hstep
  | arrive i created => exact h.arrive hstep
  | loseRequest i =>
    cases hstep
    exact h.lose (List.eraseIdx_sublist ..) (List.Sublist.refl _)
  | player k l => exact h.player hstep
  | receive i => exact h.receive hfewer hstep
  | give j => exact h.give hstep
  | complete j => exact h.complete hstep
  | loseResponse i =>
    cases hstep
    exact h.lose (List.Sublist.refl _) (List.eraseIdx_sublist ..)

theorem Kept.run {ls : List ReplayStep} (h : Kept me s)
    (hcond : (system me).StepsMeet Uninterrupted s ls) (hrun : (system me).run s ls = some s')
    (hfew : s'.calls.length < 2 ^ 32) : Kept me s' := by
  induction ls generalizing s with
  | nil =>
    cases hrun
    exact h
  | cons l ls ih =>
    obtain ⟨s₁, h₁, hrest⟩ := Transition.System.run_cons_eq_some.mp hrun
    have hlater : s₁.calls.length ≤ s'.calls.length :=
      Transition.System.run_induction (M := system me)
        (P := fun r => s₁.calls.length ≤ r.calls.length)
        (fun _ _ _ hle hstep => hle.trans (length_calls_step hstep)) (Nat.le_refl _) hrest
    exact ih (h.step hcond.1 h₁ (Nat.lt_of_le_of_lt hlater hfew)) (hcond.2 s₁ h₁) hrest

theorem Kept.answers (h : Kept me s) (hfew : s.calls.length < 2 ^ 32)
    (hcall : s.calls[i]? = some call) {response : PlaybackQueryResponse}
    (hgiven : s.Given call.request response) :
    ∃ a, s.Answers call a ∧ a.ready = true ∧ a.Right ∧ a.response = response := by
  obtain ⟨d, hmem, hquery, rfl⟩ := hgiven
  have hd : d ∈ s.responses ++ s.delivered := List.mem_append_right _ hmem
  obtain ⟨j, call', hj, hplayer, hrequest, -⟩ := h.exists_call hd
  obtain ⟨-, p, hp, htaken⟩ := h.responses d hd
  have hsame : j = i := by
    apply h.eq_of_query_id hfew hj hcall
    rw [hrequest, hquery]
  rw [hsame, hcall, Option.some.injEq] at hj
  obtain ⟨hready, hright⟩ := (h.players _ p hp).taken_whole d.2 htaken
  refine ⟨d.2, ⟨hquery, p, ?_, htaken⟩, hready, hright, rfl⟩
  rw [hj, hplayer, hp]

theorem Kept.endToEnd (h : Kept me s) (hfew : s.calls.length < 2 ^ 32) : s.EndToEnd where
  given := by
    intro call hmem
    obtain ⟨i, hi⟩ := List.mem_iff_getElem?.mp hmem
    rcases h.given i call hi with ⟨hbefore, -⟩ | ⟨r, hr, rfl⟩ | ⟨response, hgiven, hevents⟩
    · exact .inl hbefore
    · obtain ⟨call', hcall', hopen, hgiven, hevents⟩ := h.receives r hr
      rw [hi, Option.some.injEq] at hcall'
      subst hcall'
      obtain ⟨a, ha, -, -, hresponse⟩ := h.answers hfew hi hgiven
      rw [hevents]
      rcases call.partway_cases r with hbefore | hwhole | ⟨hcallback, n, hpart⟩
      · exact .inl hbefore
      · exact .inr ⟨a, ha, .inl (hwhole.trans (congrArg call.given hresponse.symm))⟩
      · rw [← hresponse] at hpart
        exact .inr ⟨a, ha, .inr ⟨hopen, hcallback, n, hpart⟩⟩
    · obtain ⟨a, ha, -, -, rfl⟩ := h.answers hfew hi hgiven
      exact .inr ⟨a, ha, .inl hevents⟩
  answered := by
    intro call hmem ret_value hphase hret
    obtain ⟨i, hi⟩ := List.mem_iff_getElem?.mp hmem
    obtain ⟨response, ⟨d, hd, hquery, rfl⟩, hiff⟩ :=
      h.verdict i call ret_value hi (.inr hphase) hret
    obtain ⟨a, ha, hready, hright, heq⟩ := h.answers hfew hi ⟨d, hd, hquery, rfl⟩
    refine ⟨a, ha, hright, ?_, ?_, by rw [heq, hiff]⟩
    · intro responses archive hfetched hread
      rw [← ha.1]
      exact hright.reply hready hfetched hread
    · rcases h.given i call hi with ⟨-, hnone⟩ | ⟨r, hr, rfl⟩ |
        ⟨response, ⟨d', hd', hquery', rfl⟩, hevents⟩
      · exact absurd hquery (hnone d hd)
      · -- nothing is given to a replay that has returned
        obtain ⟨call', hcall', hopen, -⟩ := h.receives r hr
        rw [hi, Option.some.injEq] at hcall'
        exact absurd hphase ((hcall' ▸ hopen) ret_value)
      · -- no other response was given to the replay
        have hsame := h.eq_of_query hfew (List.mem_append_right _ hd')
          (List.mem_append_right _ hd) (hquery'.trans hquery.symm)
        rw [heq, hevents, hsame]
  once := by
    apply (List.nodup_append.mp h.apart.of_map).2.1.map_on
    intro d hd d' hd' heq
    exact h.eq_of_query hfew (List.mem_append_right _ hd) (List.mem_append_right _ hd') heq
  installed := by
    intro i call hi
    refine ⟨?_, h.live i call hi⟩
    rintro ⟨query, hquery, hof⟩
    obtain ⟨-, call', hcall', -, hopen⟩ := h.installed _ query hquery
    rw [hof, hi, Option.some.injEq] at hcall'
    exact hcall' ▸ hopen

/-- **From end to end: a replay that says that it has its events has those of the response that its
player made for its request, whole if it says so; every other replay that has returned has nothing
or all of that response.** -/
theorem replays_end_to_end {s₀ s : ReplaySystem} {ls : List ReplayStep}
    (hinit : (system me).Initial s₀) (hcond : (system me).StepsMeet Uninterrupted s₀ ls)
    (hrun : (system me).run s₀ ls = some s) (hfew : s.calls.length < 2 ^ 32) : s.EndToEnd := by
  obtain ⟨n, rfl⟩ := hinit
  exact ((kept_initial n).run hcond hrun hfew).endToEnd hfew

/-- The time of the second replay is over while its response is being given to it. -/
def twoReplays : List ReplayStep :=
  let e := ServiceId.getServiceEndpoint ⟨"ofi+sockets", 0, 0, 0⟩
  let read : ArchiveRead := ⟨[[⟨9, 12, 0, 0, []⟩, ⟨9, 13, 0, 0, []⟩]], true⟩
  [.addStoryReader "c" "s" 9 0 true, .replay "c" "s" 10 20 false [] 100,
    .replay "c" "s" 10 20 true [] 100, .send 0, .send 1, .arrive 1 true, .arrive 0 true,
    .player 0 (.stash 0 []), .player 0 (.push 0), .player 0 (.stash 0 []), .player 0 (.push 0),
    .sent 0 true, .sent 1 true, .player 0 .pop, .player 0 .pop, .player 0 (.add 1 read),
    .player 0 (.drain e), .receive 0, .give 0, .complete 0, .look 0 50, .decide 0, .stop 0,
    .player 0 (.add 0 read), .player 0 (.drain e), .receive 0, .give 0, .look 1 100, .decide 1,
    .give 0, .give 0, .complete 0, .stop 1]

theorem replays_end_to_end_twoReplays :
    ∃ s, (system ⟨"ofi+sockets", 0, 0, 0⟩).run { players := [{}] } twoReplays = some s ∧
      s.calls.map (fun call => (call.phase, call.events.length)) =
        [(.finished .CL_SUCCESS, 2), (.finished .CL_ERR_QUERY_TIMED_OUT, 2)] ∧ s.EndToEnd := by
  have hfacts : ((system ⟨"ofi+sockets", 0, 0, 0⟩).run { players := [{}] } twoReplays).any
      (fun s => s.calls.map (fun call => (call.phase, call.events.length)) =
        [(.finished .CL_SUCCESS, 2), (.finished .CL_ERR_QUERY_TIMED_OUT, 2)] ∧
          s.calls.length < 2 ^ 32) = true := by
    decide +kernel
  have hcond : (system ⟨"ofi+sockets", 0, 0, 0⟩).StepsMeet Uninterrupted { players := [{}] }
      twoReplays :=
    Transition.System.stepsMeet_of_check (by decide +kernel)
  obtain ⟨s, hrun, hs⟩ := (Option.any_eq_true _ _).mp hfacts
  obtain ⟨hcalls, hfew⟩ := of_decide_eq_true hs
  exact ⟨s, hrun, hcalls, replays_end_to_end ⟨1, rfl⟩ hcond hrun hfew⟩

end ReplaySystem

end Client

end ChronoLog
