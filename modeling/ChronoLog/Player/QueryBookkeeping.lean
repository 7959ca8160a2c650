import ChronoLog.Player.PlaybackRequests

/-!
# The queries a player answers

An accepted query is with its agent until its response is taken for sending.  A reading thread
drops a request that is not valid and says nothing, and a range that starts at the time 0 makes
a request invalid: the response of such a query stays with the agent.

## Main definitions

* `Bookkeeping` — what holds of the queries.

## Main results

* `Kept.step` — what every step keeps.
* `Kept.active?_step` — what a step does to an active query.
* `queries_kept` — **every accepted query is taken for sending once and whole, or it is with its
  agent, where it can still be taken just when it is ready or its archive request is valid.**
-/

namespace ChronoLog.Player

open Client (ServiceId)

namespace PlaybackService

/-- The active query of an agent with an id. -/
def active? (s : PlaybackService) (e : Endpoint) (id : ClientQueryId) : Option ActiveQuery :=
  s.responseSenders[e]?.bind fun agent => agent[id]?

/-- The archive requests that are on their way: about to be pushed, queued, or worked on. -/
def outstanding (s : PlaybackService) : List ArchiveReadingRequest :=
  s.stashed.flatMap (·.request.toList) ++ s.readingRequestQueue ++ s.inHand

/-- The calls whose responses were taken for sending. -/
def takenSerials (s : PlaybackService) : List ℕ := s.taken.map (·.serial)

/-- A response is taken for sending in some continuation. -/
def CanBeTaken (s : PlaybackService) (serial : ℕ) : Prop :=
  ∃ ls s', system.run s ls = some s' ∧ serial ∈ s'.takenSerials

/-- What holds of the queries. -/
structure Bookkeeping (s : PlaybackService) : Prop where
  /-- An accepted query was taken for sending, or it is with its agent. -/
  accepted : ∀ serial ∈ s.accepted, serial ∈ s.takenSerials ∨
    ∃ e id a, s.active? e id = some a ∧ a.serial = serial
  taken_once : s.takenSerials.Nodup
  taken_whole : ∀ a ∈ s.taken, a.ready = true ∧ a.Right
  /-- One request is on its way for a query that waits for its archive part. -/
  outstanding : ∀ e id a, s.active? e id = some a → a.ready = false →
    a.request.isValid = true →
    s.outstanding.filter (fun r => r.queryResponseAgent = e ∧ r.queryId = id) = [a.request]
  can_be_taken : ∀ e id a, s.active? e id = some a →
    (s.CanBeTaken a.serial ↔ a.ready = true ∨ a.request.isValid = true)

/-! ### The active queries after a step -/

section Active

variable {s : PlaybackService} {e e' : Endpoint} {id id' : ClientQueryId} {a b : ActiveQuery}
  {agent agent' : QueryResponseAgent}

theorem active?_of_agent (h : s.responseSenders[e]? = some agent) (id : ClientQueryId) :
    s.active? e id = agent[id]? := by
  rw [active?, h, Option.bind_some]

theorem exists_agent (h : s.active? e id = some a) :
    ∃ agent, s.responseSenders[e]? = some agent ∧ agent[id]? = some a :=
  Option.bind_eq_some_iff.mp h

theorem active?_setAgent (s : PlaybackService) (e e' : Endpoint) (agent : QueryResponseAgent)
    (id : ClientQueryId) :
    (s.setAgent e agent).active? e' id = if e = e' then agent[id]? else s.active? e' id := by
  unfold active? setAgent
  rw [Std.ExtTreeMap.getElem?_insert]
  by_cases he : e = e'
  · simp [he]
  · simp [he]

/-- An entry is put into an agent's map. -/
theorem active?_insert (h : s.responseSenders[e]? = some agent) (id : ClientQueryId)
    (a : ActiveQuery) (e' : Endpoint) (id' : ClientQueryId) :
    (s.setAgent e (agent.insert id a)).active? e' id' =
      if e = e' ∧ id = id' then some a else s.active? e' id' := by
  rw [active?_setAgent]
  by_cases he : e = e'
  · subst he
    rw [active?_of_agent h, if_pos rfl, Std.ExtTreeMap.getElem?_insert]
    simp
  · rw [if_neg he, if_neg fun hboth => he hboth.1]

/-- An entry is taken out of an agent's map. -/
theorem active?_erase (h : s.responseSenders[e]? = some agent) (id : ClientQueryId)
    (e' : Endpoint) (id' : ClientQueryId) :
    (s.setAgent e (agent.erase id)).active? e' id' =
      if e = e' ∧ id = id' then none else s.active? e' id' := by
  rw [active?_setAgent]
  by_cases he : e = e'
  · subst he
    rw [active?_of_agent h, if_pos rfl, Std.ExtTreeMap.getElem?_erase]
    simp
  · rw [if_neg he, if_neg fun hboth => he hboth.1]

/-! ### The numbers of the calls -/

def entrySerials (entry : ClientQueryId × ActiveQuery) : List ℕ := [entry.2.serial]

/-- The numbers of the calls whose responses an agent holds. -/
def agentSerials (agent : QueryResponseAgent) : List ℕ := agent.toList.flatMap entrySerials

def activeSerials (s : PlaybackService) : List ℕ :=
  s.responseSenders.toList.flatMap fun entry => agentSerials entry.2

/-- The numbers in use. -/
def inUse (s : PlaybackService) : List ℕ :=
  s.fetching.map (·.serial) ++ s.activeSerials ++ s.takenSerials

theorem mem_agentSerials_iff {n : ℕ} :
    n ∈ agentSerials agent ↔
      ∃ (id : ClientQueryId) (a : ActiveQuery), agent[id]? = some a ∧ a.serial = n := by
  unfold agentSerials entrySerials
  simp only [List.mem_flatMap, List.mem_singleton, Prod.exists,
    Std.ExtTreeMap.mem_toList_iff_getElem?_eq_some, eq_comm]

theorem mem_activeSerials_iff {n : ℕ} :
    n ∈ s.activeSerials ↔ ∃ e id a, s.active? e id = some a ∧ a.serial = n := by
  unfold activeSerials
  simp only [List.mem_flatMap, Prod.exists, Std.ExtTreeMap.mem_toList_iff_getElem?_eq_some,
    mem_agentSerials_iff]
  constructor
  · rintro ⟨e, agent, hagent, id, a, ha, hn⟩
    exact ⟨e, id, a, (active?_of_agent hagent id).trans ha, hn⟩
  · rintro ⟨e, id, a, ha, hn⟩
    obtain ⟨agent, hagent, ha⟩ := exists_agent ha
    exact ⟨e, agent, hagent, id, a, ha, hn⟩

theorem perm_activeSerials_setAgent (h : s.responseSenders[e]? = some agent)
    (agent' : QueryResponseAgent) :
    ((s.setAgent e agent').activeSerials ++ agentSerials agent).Perm
      (s.activeSerials ++ agentSerials agent') :=
  OrderedMap.perm_flatMap_replace (fun entry => agentSerials entry.2) h agent'

theorem perm_activeSerials_insert (h : s.responseSenders[e]? = some agent)
    (hnew : agent[id]? = none) (a : ActiveQuery) :
    (s.setAgent e (agent.insert id a)).activeSerials.Perm (s.activeSerials ++ [a.serial]) := by
  have hagent : (agentSerials (agent.insert id a)).Perm ([a.serial] ++ agentSerials agent) :=
    (OrderedMap.perm_flatMap_insert_new entrySerials hnew a).trans
      List.perm_append_comm
  apply (List.perm_append_right_iff (agentSerials agent)).mp
  rw [List.append_assoc]
  exact (perm_activeSerials_setAgent h _).trans (hagent.append_left _)

theorem perm_activeSerials_replace (h : s.responseSenders[e]? = some agent)
    (hold : agent[id]? = some b) (hserial : a.serial = b.serial) :
    (s.setAgent e (agent.insert id a)).activeSerials.Perm s.activeSerials := by
  have hagent : (agentSerials (agent.insert id a)).Perm (agentSerials agent) := by
    have hreplace := OrderedMap.perm_flatMap_replace entrySerials hold a
    rw [entrySerials, entrySerials, hserial] at hreplace
    exact (List.perm_append_right_iff _).mp hreplace
  apply (List.perm_append_right_iff (agentSerials agent)).mp
  exact (perm_activeSerials_setAgent h _).trans (hagent.append_left _)

theorem perm_activeSerials_erase (h : s.responseSenders[e]? = some agent)
    (hold : agent[id]? = some b) :
    s.activeSerials.Perm ((s.setAgent e (agent.erase id)).activeSerials ++ [b.serial]) := by
  have hagent : (agentSerials agent).Perm ([b.serial] ++ agentSerials (agent.erase id)) :=
    OrderedMap.perm_flatMap_of_getElem? entrySerials hold
  apply (List.perm_append_right_iff (agentSerials (agent.erase id))).mp
  rw [List.append_assoc]
  exact (perm_activeSerials_setAgent h _).symm.trans (hagent.append_left _)

end Active

/-! ### The invariant -/

/-- What a request for the archive is found by. -/
def key (r : ArchiveReadingRequest) : Endpoint × ClientQueryId := (r.queryResponseAgent, r.queryId)

/-- What every step keeps. -/
structure Kept (s : PlaybackService) : Prop where
  placed : ∀ e id a, s.active? e id = some a →
    a.query.endpoint = e ∧ a.query.query_id = id ∧ a.Right
  taken_whole : ∀ a ∈ s.taken, a.ready = true ∧ a.Right
  /-- No two requests on their way are for the same query. -/
  apart : (s.outstanding.map key).Nodup
  awaited : ∀ r ∈ s.outstanding, ∃ a, s.active? r.queryResponseAgent r.queryId = some a ∧
    a.ready = false ∧ a.request = r
  underway : ∀ e id a, s.active? e id = some a → a.ready = false → a.request.isValid = true →
    a.request ∈ s.outstanding
  worked : ∀ r ∈ s.inHand, r.isValid = true
  serials : s.inUse.Nodup
  serials_lt : ∀ n ∈ s.inUse, n < s.serials
  accepted : ∀ n ∈ s.accepted ++ s.stashed.map (·.serial), n ∈ s.activeSerials ++ s.takenSerials

theorem kept_initial : Kept {} where
  placed := by
    intro e id a h
    simp [active?] at h
  taken_whole := by simp
  apart := by simp [outstanding]
  awaited := by simp [outstanding]
  underway := by
    intro e id a h
    simp [active?] at h
  worked := by simp
  serials := (List.nodup_nil : ([] : List ℕ).Nodup)
  serials_lt := by simp [inUse, activeSerials, takenSerials]
  accepted := by simp

/-- The facts about the queries and their requests, where neither changes. -/
theorem Kept.of_same {s s' : PlaybackService} (h : Kept s)
    (hactive : ∀ e id, s'.active? e id = s.active? e id) (htaken : s'.taken = s.taken)
    (houtstanding : s'.outstanding.Perm s.outstanding)
    (hworked : ∀ r ∈ s'.inHand, r.isValid = true)
    (hserials : s'.inUse.Nodup) (hserials_lt : ∀ n ∈ s'.inUse, n < s'.serials)
    (haccepted : ∀ n ∈ s'.accepted ++ s'.stashed.map (·.serial),
      n ∈ s'.activeSerials ++ s'.takenSerials) : Kept s' where
  placed := by simpa only [hactive] using h.placed
  taken_whole := by simpa only [htaken] using h.taken_whole
  apart := ((houtstanding.map key).nodup_iff).mpr h.apart
  awaited := by
    intro r hr
    simpa only [hactive] using h.awaited r (houtstanding.mem_iff.mp hr)
  underway := by
    intro e id a ha hready hvalid
    rw [hactive] at ha
    exact houtstanding.mem_iff.mpr (h.underway e id a ha hready hvalid)
  worked := hworked
  serials := hserials
  serials_lt := hserials_lt
  accepted := haccepted

section Steps

variable {s s' : PlaybackService} {e : Endpoint} {id : ClientQueryId} {a : ActiveQuery}
  {agent : QueryResponseAgent}

theorem Kept.beginFetch (h : Kept s) (q : StoryPlaybackRequest) : Kept (s.beginFetch q) := by
  have huse : (s.beginFetch q).inUse.Perm (s.serials :: s.inUse) := by
    have hfetching :
        ((s.fetching ++ [(⟨s.serials, q⟩ : FetchingCall)]).map FetchingCall.serial).Perm
        (s.serials :: s.fetching.map FetchingCall.serial) := by
      rw [List.map_append]
      exact List.perm_append_singleton _ _
    exact (hfetching.append_right s.activeSerials).append_right s.takenSerials
  refine h.of_same (fun _ _ => rfl) rfl (.refl _) h.worked ?_ ?_ h.accepted
  · rw [huse.nodup_iff, List.nodup_cons]
    exact ⟨fun hmem => Nat.lt_irrefl _ (h.serials_lt _ hmem), h.serials⟩
  · intro n hn
    rcases List.mem_cons.mp (huse.mem_iff.mp hn) with rfl | hn
    · exact Nat.lt_succ_self _
    · exact Nat.lt_succ_of_lt (h.serials_lt n hn)

/-- An agent for a receiver that has none holds no queries. -/
theorem Kept.createAgent (h : Kept s) (hnone : s.responseSenders[e]? = none) :
    Kept (s.setAgent e ∅) := by
  have hserials : (s.setAgent e ∅).activeSerials.Perm s.activeSerials := by
    have hnew := OrderedMap.perm_flatMap_insert_new
      (fun entry : Endpoint × QueryResponseAgent => agentSerials entry.2) hnone ∅
    rwa [show agentSerials ∅ = [] from rfl, List.append_nil] at hnew
  have huse : (s.setAgent e ∅).inUse.Perm s.inUse :=
    (hserials.append_left _).append_right _
  refine h.of_same ?_ rfl (.refl _) h.worked (huse.nodup_iff.mpr h.serials) ?_ ?_
  · intro e' id
    rw [active?_setAgent]
    split
    · next he =>
      subst he
      simp [active?, hnone]
    · rfl
  · intro n hn
    exact h.serials_lt n (huse.mem_iff.mp hn)
  · intro n hn
    exact ((hserials.append_right s.takenSerials).mem_iff).mpr (h.accepted n hn)

theorem Kept.requestStep (h : Kept s) (q : StoryPlaybackRequest) (created : Bool) :
    Kept (s.requestStep q created) := by
  unfold PlaybackService.requestStep
  split
  · exact h.beginFetch q
  · next hnone =>
    split
    · exact (h.createAgent hnone).beginFetch q
    · exact h

/-- A response is left with the agent just where its id is not active. -/
theorem stashQueryResponseRecord_eq (a : ActiveQuery) :
    agent.stashQueryResponseRecord a =
      if agent[a.query.query_id]? = none then some (agent.insert a.query.query_id a) else none := by
  unfold QueryResponseAgent.stashQueryResponseRecord
  simp only [Std.ExtTreeMap.mem_iff_isSome_getElem?]
  cases agent[a.query.query_id]? with
  | none => rfl
  | some b => rfl

theorem stashStep_eq_some {i : ℕ} {fetched : Fetched} (h : s.stashStep i fetched = some s') :
    ∃ call agent, s.fetching[i]? = some call ∧
      s.responseSenders[call.query.endpoint]? = some agent ∧
      ((s' = { s with fetching := s.fetching.eraseIdx i }) ∨
        agent[call.query.query_id]? = none ∧
          s' = s.leaveResponse i call fetched
            (agent.insert call.query.query_id (call.activeQuery fetched))) := by
  unfold stashStep at h
  obtain ⟨call, hcall, h⟩ := Option.bind_eq_some_iff.mp h
  obtain ⟨agent, hagent, h⟩ := Option.bind_eq_some_iff.mp h
  refine ⟨call, agent, hcall, hagent, ?_⟩
  rw [stashQueryResponseRecord_eq] at h
  by_cases hnew : agent[(call.activeQuery fetched).query.query_id]? = none
  · rw [if_pos hnew] at h
    exact .inr ⟨hnew, (Option.some.inj h).symm⟩
  · rw [if_neg hnew] at h
    exact .inl (Option.some.inj h).symm

/-- The numbers of the calls without one of them. -/
theorem perm_fetching_eraseIdx {i : ℕ} {call : FetchingCall} (h : s.fetching[i]? = some call) :
    (s.fetching.map (·.serial)).Perm
      (call.serial :: (s.fetching.eraseIdx i).map (·.serial)) := by
  obtain ⟨hi, hget⟩ := List.getElem?_eq_some_iff.mp h
  have hperm := (List.getElem_cons_eraseIdx_perm hi).symm.map (FetchingCall.serial)
  rwa [hget, List.map_cons] at hperm

theorem right_activeQuery (call : FetchingCall) (fetched : Fetched) :
    (call.activeQuery fetched).Right where
  response := rfl
  ready := rfl
  archive := nofun

theorem Kept.stashStep (h : Kept s) {i : ℕ} {fetched : Fetched}
    (hstep : s.stashStep i fetched = some s') : Kept s' := by
  obtain ⟨call, agent, hcall, hagent, rfl | ⟨hnew, rfl⟩⟩ := stashStep_eq_some hstep
  · have hsub : ((s.fetching.eraseIdx i).map (·.serial) ++ s.activeSerials ++
        s.takenSerials).Sublist s.inUse :=
      (((s.fetching.eraseIdx_sublist i).map _).append_right _).append_right _
    exact h.of_same (fun _ _ => rfl) rfl (.refl _) h.worked (h.serials.sublist hsub)
      (fun n hn => h.serials_lt n (hsub.subset hn)) h.accepted
  · let s' := s.leaveResponse i call fetched
      (agent.insert call.query.query_id (call.activeQuery fetched))
    have hactive : ∀ e id, s'.active? e id =
        if call.query.endpoint = e ∧ call.query.query_id = id then some (call.activeQuery fetched)
        else s.active? e id :=
      active?_insert hagent _ _
    have hnone : s.active? call.query.endpoint call.query.query_id = none :=
      (active?_of_agent hagent _).trans hnew
    have hserials : s'.activeSerials.Perm (s.activeSerials ++ [call.serial]) :=
      perm_activeSerials_insert hagent hnew (call.activeQuery fetched)
    -- the number of the call goes from the calls to the queries
    have huse : s'.inUse.Perm s.inUse := by
      apply List.Perm.append_right
      refine ((hserials.trans List.perm_append_comm).append_left _).trans ?_
      refine List.perm_middle.trans ?_
      exact (perm_fetching_eraseIdx hcall).symm.append_right s.activeSerials
    have hout : s'.outstanding.Perm ((call.stashed fetched).request.toList ++ s.outstanding) := by
      have hstashed : s'.stashed.flatMap (·.request.toList) =
          s.stashed.flatMap (·.request.toList) ++ (call.stashed fetched).request.toList := by
        show (s.stashed ++ [call.stashed fetched]).flatMap _ = _
        rw [List.flatMap_append, List.flatMap_singleton]
      unfold outstanding
      rw [hstashed]
      exact ((List.perm_append_comm.append_right _).trans
        (.of_eq (List.append_assoc _ _ _))).append_right _ |>.trans
        (.of_eq (List.append_assoc _ _ _))
    -- a request comes with the response just where the response is not ready
    have hrequest : ∀ r, r ∈ (call.stashed fetched).request.toList ↔
        (call.activeQuery fetched).ready = false ∧ (call.activeQuery fetched).request = r := by
      intro r
      unfold FetchingCall.stashed FetchingCall.activeQuery
      cases (call.query.plan fetched).archiveNeeded with
      | true => simp [ActiveQuery.request, eq_comm]
      | false => simp
    have hkey : ∀ r, (call.activeQuery fetched).request = r →
        r.queryResponseAgent = call.query.endpoint ∧ r.queryId = call.query.query_id := by
      rintro r rfl
      exact ⟨rfl, rfl⟩
    refine ⟨?_, h.taken_whole, ?_, ?_, ?_, h.worked, huse.nodup_iff.mpr h.serials, ?_, ?_⟩
    · intro e id a ha
      rw [hactive] at ha
      split at ha
      · next hk =>
        cases ha
        exact ⟨hk.1, hk.2, right_activeQuery call fetched⟩
      · exact h.placed e id a ha
    · rw [((hout.map key).nodup_iff), List.map_append, List.nodup_append]
      refine ⟨?_, h.apart, ?_⟩
      · cases (call.stashed fetched).request <;> simp
      · -- the id was not active, so no request is on its way for it
        intro k hk k' hk' heq
        obtain ⟨r, hr, rfl⟩ := List.mem_map.mp hk
        obtain ⟨r', hr', rfl⟩ := List.mem_map.mp hk'
        obtain ⟨a, ha, -⟩ := h.awaited r' hr'
        obtain ⟨he, hid⟩ := hkey r ((hrequest r).mp hr).2
        rw [key, key, Prod.mk.injEq] at heq
        rw [← heq.1, ← heq.2, he, hid, hnone] at ha
        cases ha
    · intro r hr
      rcases List.mem_append.mp (hout.mem_iff.mp hr) with hr | hr
      · obtain ⟨hready, heq⟩ := (hrequest r).mp hr
        refine ⟨call.activeQuery fetched, ?_, hready, heq⟩
        rw [hactive, if_pos]
        exact ⟨(hkey r heq).1.symm, (hkey r heq).2.symm⟩
      · obtain ⟨a, ha, hawait⟩ := h.awaited r hr
        refine ⟨a, ?_, hawait⟩
        rw [hactive, if_neg, ha]
        rintro ⟨he, hid⟩
        rw [← he, ← hid, hnone] at ha
        cases ha
    · intro e id a ha hready hvalid
      apply hout.mem_iff.mpr
      rw [hactive] at ha
      split at ha
      · cases ha
        exact List.mem_append_left _ ((hrequest _).mpr ⟨hready, rfl⟩)
      · exact List.mem_append_right _ (h.underway e id a ha hready hvalid)
    · intro n hn
      exact h.serials_lt n (huse.mem_iff.mp hn)
    · intro n hn
      have hmem : n ∈ s.activeSerials ++ [call.serial] ++ s.takenSerials := by
        have hsplit : n ∈ (s.accepted ++ s.stashed.map (·.serial)) ++ [call.serial] := by
          have hmap : (s.stashed ++ [call.stashed fetched]).map StashedCall.serial =
              s.stashed.map (·.serial) ++ [call.serial] := List.map_append
          rw [List.append_assoc, ← hmap]
          exact hn
        rcases List.mem_append.mp hsplit with hn | hn
        · rcases List.mem_append.mp (h.accepted n hn) with hn | hn
          · exact List.mem_append_left _ (List.mem_append_left _ hn)
          · exact List.mem_append_right _ hn
        · exact List.mem_append_left _ (List.mem_append_right _ hn)
      exact (hserials.append_right _).mem_iff.mpr hmem

theorem Kept.pushStep (h : Kept s) {i : ℕ} (hstep : s.pushStep i = some s') : Kept s' := by
  unfold PlaybackService.pushStep at hstep
  obtain ⟨call, hcall, hstep⟩ := Option.bind_eq_some_iff.mp hstep
  cases hstep
  obtain ⟨hi, hget⟩ := List.getElem?_eq_some_iff.mp hcall
  have hperm := List.getElem_cons_eraseIdx_perm hi
  rw [hget] at hperm
  refine h.of_same (fun _ _ => rfl) rfl ?_ h.worked h.serials h.serials_lt ?_
  · -- the request goes from the call to the queue
    have hstashed := hperm.symm.flatMap_right fun call : StashedCall => call.request.toList
    rw [List.flatMap_cons] at hstashed
    unfold outstanding
    apply List.Perm.append_right
    refine List.perm_append_comm.trans ?_
    rw [List.append_assoc]
    refine List.perm_append_comm.trans ?_
    exact hstashed.symm.append_right _
  · intro n hn
    apply h.accepted n
    have hserials := hperm.map StashedCall.serial
    rw [List.map_cons] at hserials
    rw [List.mem_append] at hn ⊢
    rw [← hserials.mem_iff, List.mem_cons]
    rcases hn with hn | hn
    · rcases List.mem_append.mp hn with hn | hn
      · exact .inl hn
      · exact .inr (.inl (List.mem_singleton.mp hn))
    · exact .inr (.inr hn)

theorem Kept.popStep (h : Kept s) (hstep : s.popStep = some s') : Kept s' := by
  unfold PlaybackService.popStep at hstep
  split at hstep
  · cases hstep
  next r rest hqueue =>
  cases hstep
  have hsplit : s.outstanding =
      s.stashed.flatMap (·.request.toList) ++ r :: (rest ++ s.inHand) := by
    rw [outstanding, hqueue, List.append_assoc, List.cons_append]
  by_cases hvalid : r.isValid = true
  · refine h.of_same (fun _ _ => rfl) rfl ?_ ?_ h.serials h.serials_lt h.accepted
    · rw [hsplit]
      unfold outstanding
      dsimp only
      rw [if_pos hvalid, List.append_assoc]
      apply List.Perm.append_left
      rw [← List.append_assoc]
      exact List.perm_append_singleton _ _
    · intro r' hr'
      dsimp only at hr'
      rw [if_pos hvalid] at hr'
      rcases List.mem_append.mp hr' with hr' | hr'
      · exact h.worked r' hr'
      · rw [List.mem_singleton.mp hr']
        exact hvalid
  · -- a request that is dropped is no longer on its way, and its query stays
    have hout : s.outstanding.Perm (r ::
        (s.stashed.flatMap (·.request.toList) ++ rest ++ s.inHand)) := by
      rw [hsplit, List.append_assoc]
      exact List.perm_middle
    have hsub : ∀ r', r' ∈ s.stashed.flatMap (·.request.toList) ++ rest ++ s.inHand →
        r' ∈ s.outstanding :=
      fun r' hr' => hout.mem_iff.mpr (List.mem_cons_of_mem _ hr')
    refine ⟨h.placed, h.taken_whole, ?_, ?_, ?_, ?_, h.serials, h.serials_lt, h.accepted⟩
    · have hapart := h.apart
      rw [((hout.map key).nodup_iff), List.map_cons, List.nodup_cons] at hapart
      unfold outstanding
      dsimp only
      rw [if_neg hvalid]
      exact hapart.2
    · intro r' hr'
      unfold outstanding at hr'
      dsimp only at hr'
      rw [if_neg hvalid] at hr'
      exact h.awaited r' (hsub r' hr')
    · intro e id a ha hready hvalid'
      have hmem := h.underway e id a ha hready hvalid'
      rw [hout.mem_iff, List.mem_cons] at hmem
      unfold outstanding
      dsimp only
      rw [if_neg hvalid]
      refine hmem.resolve_left ?_
      rintro rfl
      exact hvalid hvalid'
    · intro r' hr'
      dsimp only at hr'
      rw [if_neg hvalid] at hr'
      exact h.worked r' hr'

/-- A response that is not ready waits for its archive part. -/
theorem right_addArchived (h : a.Right) (hready : a.ready = false) (read : ArchiveRead) :
    (a.addArchived read).Right := by
  have hwait := h.ready
  rw [hready, eq_comm, Bool.or_eq_false_iff, Option.isSome_eq_false_iff, Option.isNone_iff_eq_none,
    Bool.not_eq_false'] at hwait
  refine ⟨?_, rfl, fun _ => hwait.2⟩
  show a.response.addArchived read = _
  rw [h.response, hwait.1]
  rfl

/-- The step of a reading thread, whose query waits for it. -/
theorem Kept.addStep_eq_some (h : Kept s) {i : ℕ} {read : ArchiveRead}
    (hstep : s.addStep i read = some s') :
    ∃ r agent a, s.inHand[i]? = some r ∧ s.responseSenders[r.queryResponseAgent]? = some agent ∧
      agent[r.queryId]? = some a ∧ a.ready = false ∧ a.request = r ∧
      s' = { s with inHand := s.inHand.eraseIdx i }.setAgent r.queryResponseAgent
        (agent.insert r.queryId (a.addArchived read)) := by
  unfold PlaybackService.addStep at hstep
  obtain ⟨r, hr, hstep⟩ := Option.bind_eq_some_iff.mp hstep
  obtain ⟨agent, hagent, hstep⟩ := Option.bind_eq_some_iff.mp hstep
  have hmem : r ∈ s.outstanding := List.mem_append_right _ (List.mem_of_getElem? hr)
  obtain ⟨a, ha, hready, hrequest⟩ := h.awaited r hmem
  rw [active?_of_agent hagent] at ha
  refine ⟨r, agent, a, hr, hagent, ha, hready, hrequest, ?_⟩
  rw [QueryResponseAgent.addArchivedEventsToQueryResponse, ha] at hstep
  exact (Option.some.inj hstep).symm

theorem Kept.addStep (h : Kept s) {i : ℕ} {read : ArchiveRead}
    (hstep : s.addStep i read = some s') : Kept s' := by
  obtain ⟨r, agent, a, hr, hagent, ha, hready, hrequest, rfl⟩ := h.addStep_eq_some hstep
  let s' := { s with inHand := s.inHand.eraseIdx i }.setAgent r.queryResponseAgent
    (agent.insert r.queryId (a.addArchived read))
  have hactive : ∀ e id, s'.active? e id =
      if r.queryResponseAgent = e ∧ r.queryId = id then some (a.addArchived read)
      else s.active? e id :=
    active?_insert hagent _ _
  have hold : s.active? r.queryResponseAgent r.queryId = some a :=
    (active?_of_agent hagent _).trans ha
  have hserials : s'.activeSerials.Perm s.activeSerials :=
    perm_activeSerials_replace hagent ha rfl
  have huse : s'.inUse.Perm s.inUse := (hserials.append_left _).append_right _
  have hout : s.outstanding.Perm (r :: s'.outstanding) := by
    obtain ⟨hi, hget⟩ := List.getElem?_eq_some_iff.mp hr
    have hhand := List.getElem_cons_eraseIdx_perm hi
    rw [hget] at hhand
    exact (hhand.symm.append_left _).trans List.perm_middle
  -- no other request on its way has the key of this one
  have hapart := h.apart
  rw [(hout.map key).nodup_iff, List.map_cons, List.nodup_cons] at hapart
  refine ⟨?_, h.taken_whole, hapart.2, ?_, ?_, ?_, huse.nodup_iff.mpr h.serials, ?_, ?_⟩
  · intro e id b hb
    rw [hactive] at hb
    split at hb
    · next hk =>
      cases hb
      obtain ⟨he, hid⟩ := hk
      obtain ⟨hplace, hid', hright⟩ := h.placed _ _ _ hold
      exact ⟨hplace.trans he, hid'.trans hid, right_addArchived hright hready read⟩
    · exact h.placed e id b hb
  · intro r' hr'
    obtain ⟨b, hb, hwait⟩ := h.awaited r' (hout.mem_iff.mpr (List.mem_cons_of_mem _ hr'))
    refine ⟨b, ?_, hwait⟩
    rw [hactive, if_neg, hb]
    rintro ⟨he, hid⟩
    apply hapart.1
    rw [key, he, hid]
    exact List.mem_map_of_mem hr'
  · intro e id b hb hnot hvalid
    rw [hactive] at hb
    split at hb
    · cases hb
      cases hnot
    · next hk =>
      have hmem := h.underway e id b hb hnot hvalid
      rw [hout.mem_iff, List.mem_cons] at hmem
      refine hmem.resolve_left ?_
      rintro rfl
      obtain ⟨hplace, hid, -⟩ := h.placed e id b hb
      exact hk ⟨hplace, hid⟩
  · intro r' hr'
    exact h.worked r' (List.mem_of_mem_eraseIdx hr')
  · intro n hn
    exact h.serials_lt n (huse.mem_iff.mp hn)
  · intro n hn
    exact (hserials.append_right _).mem_iff.mpr (h.accepted n hn)

/-- The step of a response thread. -/
theorem drainStep_eq_some (hstep : s.drainStep e = some s') :
    ∃ agent id a, s.responseSenders[e]? = some agent ∧ agent[id]? = some a ∧ a.ready = true ∧
      s' = s.takeResponse e (agent.erase id) a := by
  unfold drainStep QueryResponseAgent.drainQueryResponse at hstep
  obtain ⟨agent, hagent, hstep⟩ := Option.bind_eq_some_iff.mp hstep
  obtain ⟨⟨a, rest⟩, hdrain, hstep⟩ := Option.bind_eq_some_iff.mp hstep
  obtain ⟨⟨id, b⟩, hfind, heq⟩ := Option.map_eq_some_iff.mp hdrain
  cases heq
  have hready := List.find?_some hfind
  have hmem := Std.ExtTreeMap.mem_toList_iff_getElem?_eq_some.mp (List.mem_of_find?_eq_some hfind)
  exact ⟨agent, id, b, hagent, hmem, hready, (Option.some.inj hstep).symm⟩

theorem Kept.drainStep (h : Kept s) (hstep : s.drainStep e = some s') : Kept s' := by
  obtain ⟨agent, id, a, hagent, ha, hready, rfl⟩ := drainStep_eq_some hstep
  let s' := s.takeResponse e (agent.erase id) a
  have hactive : ∀ e' id', s'.active? e' id' =
      if e = e' ∧ id = id' then none else s.active? e' id' :=
    active?_erase hagent _
  have hold : s.active? e id = some a := (active?_of_agent hagent _).trans ha
  have hserials : s.activeSerials.Perm (s'.activeSerials ++ [a.serial]) :=
    perm_activeSerials_erase hagent ha
  have htaken : s'.takenSerials = s.takenSerials ++ [a.serial] := List.map_append
  -- the number of the call goes from the queries to the responses that were taken
  have hboth : (s'.activeSerials ++ s'.takenSerials).Perm (s.activeSerials ++ s.takenSerials) := by
    rw [htaken]
    refine (List.perm_append_comm.append_left _).trans ?_
    rw [← List.append_assoc]
    exact hserials.symm.append_right _
  have huse : s'.inUse.Perm s.inUse := by
    unfold inUse
    rw [List.append_assoc, List.append_assoc]
    exact hboth.append_left _
  -- a query that waits is not the one that was taken
  have hstays : ∀ e' id' b, s.active? e' id' = some b → b.ready = false →
      s'.active? e' id' = some b := by
    intro e' id' b hb hnot
    rw [hactive, if_neg, hb]
    rintro ⟨rfl, rfl⟩
    rw [hold, Option.some.injEq] at hb
    rw [← hb, hready] at hnot
    cases hnot
  have hwas : ∀ e' id' b, s'.active? e' id' = some b → s.active? e' id' = some b := by
    intro e' id' b hb
    rw [hactive] at hb
    split at hb
    · cases hb
    · exact hb
  refine ⟨fun e' id' b hb => h.placed e' id' b (hwas e' id' b hb), ?_, h.apart, ?_, ?_, h.worked,
    huse.nodup_iff.mpr h.serials, ?_, ?_⟩
  · intro b hb
    rcases List.mem_append.mp hb with hb | hb
    · exact h.taken_whole b hb
    · rw [List.mem_singleton.mp hb]
      exact ⟨hready, (h.placed e id a hold).2.2⟩
  · intro r hr
    obtain ⟨b, hb, hnot, hrequest⟩ := h.awaited r hr
    exact ⟨b, hstays _ _ b hb hnot, hnot, hrequest⟩
  · intro e' id' b hb hnot hvalid
    exact h.underway e' id' b (hwas e' id' b hb) hnot hvalid
  · intro n hn
    exact h.serials_lt n (huse.mem_iff.mp hn)
  · intro n hn
    exact hboth.mem_iff.mpr (h.accepted n hn)

/-- **What every step keeps.** -/
theorem Kept.step (h : Kept s) {l : PlaybackStep} (hstep : s.step l = some s') : Kept s' := by
  cases l with
  | request q created =>
    cases hstep
    exact h.requestStep q created
  | stash i fetched => exact h.stashStep hstep
  | push i => exact h.pushStep hstep
  | pop => exact h.popStep hstep
  | add i read => exact h.addStep hstep
  | drain e => exact h.drainStep hstep

theorem Kept.run (h : Kept s) {ls : List PlaybackStep} (hrun : system.run s ls = some s') :
    Kept s' :=
  Transition.System.run_induction (M := system) (fun _ _ _ hk hs => hk.step hs) h hrun

/-! ### What becomes of a query -/

/-- A step leaves an active query as it is, adds its archive part to it, or takes it. -/
theorem Kept.active?_step (h : Kept s) {l : PlaybackStep} (hstep : s.step l = some s')
    (ha : s.active? e id = some a) :
    s'.active? e id = some a ∨
      (a.ready = false ∧ a.request.isValid = true ∧
        ∃ read, s'.active? e id = some (a.addArchived read)) ∨
      a.ready = true ∧ s'.taken = s.taken ++ [a] := by
  cases l with
  | request q created =>
    cases hstep
    left
    unfold PlaybackService.requestStep
    split
    · exact ha
    · next hnone =>
      split
      · show (s.setAgent q.endpoint ∅).active? e id = some a
        rw [active?_setAgent, if_neg, ha]
        rintro rfl
        rw [active?, hnone] at ha
        cases ha
      · exact ha
  | stash i fetched =>
    left
    obtain ⟨call, agent, -, hagent, rfl | ⟨hnew, rfl⟩⟩ := stashStep_eq_some hstep
    · exact ha
    · refine (active?_insert hagent _ _ e id).trans ?_
      rw [if_neg, ha]
      rintro ⟨rfl, rfl⟩
      rw [active?_of_agent hagent, hnew] at ha
      cases ha
  | push i =>
    left
    obtain ⟨call, -, hstep⟩ := Option.bind_eq_some_iff.mp hstep
    cases hstep
    exact ha
  | pop =>
    left
    change s.popStep = some s' at hstep
    unfold PlaybackService.popStep at hstep
    split at hstep
    · cases hstep
    · cases hstep
      exact ha
  | add i read =>
    obtain ⟨r, agent, b, hr, hagent, hb, hready, hrequest, rfl⟩ := h.addStep_eq_some hstep
    have hactive := active?_insert (s := { s with inHand := s.inHand.eraseIdx i }) hagent r.queryId
      (b.addArchived read) e id
    by_cases hk : r.queryResponseAgent = e ∧ r.queryId = id
    · right
      left
      obtain ⟨rfl, rfl⟩ := hk
      rw [active?_of_agent hagent, hb, Option.some.injEq] at ha
      subst ha
      refine ⟨hready, ?_, read, ?_⟩
      · rw [hrequest]
        exact h.worked r (List.mem_of_getElem? hr)
      · rw [hactive, if_pos ⟨rfl, rfl⟩]
    · left
      rw [hactive, if_neg hk]
      exact ha
  | drain e' =>
    obtain ⟨agent, id', b, hagent, hb, hready, rfl⟩ := drainStep_eq_some hstep
    by_cases hk : e' = e ∧ id' = id
    · right
      right
      obtain ⟨rfl, rfl⟩ := hk
      rw [active?_of_agent hagent, hb, Option.some.injEq] at ha
      subst ha
      exact ⟨hready, rfl⟩
    · left
      refine (active?_erase hagent id' e id).trans ?_
      rw [if_neg hk, ha]

/-- A query that is active was not taken. -/
theorem Kept.notMem_takenSerials (h : Kept s) (ha : s.active? e id = some a) :
    a.serial ∉ s.takenSerials := by
  intro hmem
  have hactive : a.serial ∈ s.fetching.map (·.serial) ++ s.activeSerials :=
    List.mem_append_right _ (mem_activeSerials_iff.mpr ⟨e, id, a, ha, rfl⟩)
  exact (List.nodup_append.mp h.serials).2.2 _ hactive _ hmem rfl

/-- A query that waits for a request that was not valid stays. -/
theorem Kept.active?_run (h : Kept s) {ls : List PlaybackStep} (hrun : system.run s ls = some s')
    (ha : s.active? e id = some a) (hready : a.ready = false) (hvalid : a.request.isValid = false) :
    s'.active? e id = some a := by
  have hboth : Kept s' ∧ s'.active? e id = some a := by
    refine Transition.System.run_induction (M := system)
      (P := fun s => Kept s ∧ s.active? e id = some a) ?_ ⟨h, ha⟩ hrun
    rintro s l s' ⟨hk, ha⟩ hs
    refine ⟨hk.step hs, ?_⟩
    rcases hk.active?_step hs ha with hsame | ⟨-, hvalid', -⟩ | ⟨hready', -⟩
    · exact hsame
    · rw [hvalid] at hvalid'
      cases hvalid'
    · rw [hready] at hready'
      cases hready'
  exact hboth.2

theorem CanBeTaken.of_step {n : ℕ} {l : PlaybackStep} (h : s'.CanBeTaken n)
    (hstep : s.step l = some s') : s.CanBeTaken n := by
  obtain ⟨ls, s'', hrun, hmem⟩ := h
  exact ⟨l :: ls, s'', Transition.System.run_cons_eq_some.mpr ⟨s', hstep, hrun⟩, hmem⟩

/-- A ready response is taken after the ready ones before it. -/
theorem Kept.canBeTaken_of_ready (h : Kept s) (ha : s.active? e id = some a)
    (hready : a.ready = true) : s.CanBeTaken a.serial := by
  obtain ⟨agent, hagent, hget⟩ := exists_agent ha
  -- by induction on the number of the agent's responses
  induction hn : agent.toList.length using Nat.strong_induction_on generalizing s agent with
  | _ n ih =>
  subst hn
  cases hfind : agent.toList.find? fun entry => entry.2.ready with
  | none =>
    have hmem := Std.ExtTreeMap.mem_toList_iff_getElem?_eq_some.mpr hget
    exact absurd hready (List.find?_eq_none.mp hfind _ hmem)
  | some entry =>
    let s' := s.takeResponse e (agent.erase entry.1) entry.2
    have hstep : s.step (.drain e) = some s' := by
      show s.drainStep e = _
      rw [PlaybackService.drainStep, hagent, Option.bind_eq_bind, Option.bind_some,
        QueryResponseAgent.drainQueryResponse, hfind]
      rfl
    refine CanBeTaken.of_step ?_ hstep
    have hentry : agent[entry.1]? = some entry.2 :=
      Std.ExtTreeMap.mem_toList_iff_getElem?_eq_some.mp (List.mem_of_find?_eq_some hfind)
    by_cases hid : entry.1 = id
    · rw [hid, hget, Option.some.injEq] at hentry
      refine ⟨[], s', rfl, ?_⟩
      rw [hentry]
      exact List.mem_map_of_mem (List.mem_append_right _ (List.mem_singleton_self _))
    · have hrest : (agent.erase entry.1)[id]? = some a := by
        rw [Std.ExtTreeMap.getElem?_erase, if_neg, hget]
        simpa using hid
      have hagent' : s'.responseSenders[e]? = some (agent.erase entry.1) :=
        Std.ExtTreeMap.getElem?_insert_self
      have hlength := (OrderedMap.perm_toList_of_getElem? hentry).length_eq
      rw [List.length_cons] at hlength
      refine ih _ ?_ (h.step hstep) ?_ _ hagent' hrest rfl
      · omega
      · rw [active?_of_agent hagent', hrest]

/-- A query whose request a reading thread works on. -/
theorem Kept.canBeTaken_of_inHand (h : Kept s) (ha : s.active? e id = some a)
    (hmem : a.request ∈ s.inHand) : s.CanBeTaken a.serial := by
  obtain ⟨i, hi⟩ := List.mem_iff_getElem?.mp hmem
  obtain ⟨hplace, hid, -⟩ := h.placed e id a ha
  obtain ⟨agent, hagent, hget⟩ := exists_agent ha
  have hsender : s.responseSenders[a.request.queryResponseAgent]? = some agent := by
    rw [← hagent, ← hplace]
    rfl
  have hentry : agent[a.request.queryId]? = some a := by
    rw [← hget, ← hid]
    rfl
  have hstep : s.step (.add i ⟨[], true⟩) =
      some ({ s with inHand := s.inHand.eraseIdx i }.setAgent a.request.queryResponseAgent
        (agent.insert a.request.queryId (a.addArchived ⟨[], true⟩))) := by
    show s.addStep i ⟨[], true⟩ = _
    rw [PlaybackService.addStep, hi, Option.bind_eq_bind, Option.bind_some, hsender,
      Option.bind_eq_bind, Option.bind_some,
      QueryResponseAgent.addArchivedEventsToQueryResponse, hentry]
  refine CanBeTaken.of_step ?_ hstep
  refine (h.step hstep).canBeTaken_of_ready (a := a.addArchived ⟨[], true⟩)
    ((active?_insert hsender _ _ _ _).trans (if_pos ⟨rfl, rfl⟩)) rfl

/-- A query whose request is queued: the requests before it are popped. -/
theorem Kept.canBeTaken_of_queued (h : Kept s) (ha : s.active? e id = some a)
    (hvalid : a.request.isValid = true) (hmem : a.request ∈ s.readingRequestQueue) :
    s.CanBeTaken a.serial := by
  -- by induction on the length of the queue
  induction hn : s.readingRequestQueue.length generalizing s with
  | zero =>
    rw [List.length_eq_zero_iff] at hn
    rw [hn] at hmem
    cases hmem
  | succ n ih =>
    obtain ⟨r, rest, hqueue⟩ := List.exists_cons_of_length_eq_add_one hn
    have hstep : s.step .pop = some { s with
        readingRequestQueue := rest
        inHand := if r.isValid then s.inHand ++ [r] else s.inHand } := by
      show s.popStep = _
      rw [PlaybackService.popStep, hqueue]
    refine CanBeTaken.of_step ?_ hstep
    rw [hqueue] at hmem hn
    rcases List.mem_cons.mp hmem with rfl | hmem
    · refine @Kept.canBeTaken_of_inHand _ e id a (h.step hstep) ha ?_
      rw [if_pos hvalid]
      exact List.mem_append_right _ (List.mem_singleton_self _)
    · exact ih (h.step hstep) ha hmem (Nat.succ.inj hn)

theorem Kept.canBeTaken_of_isValid (h : Kept s) (ha : s.active? e id = some a)
    (hready : a.ready = false) (hvalid : a.request.isValid = true) : s.CanBeTaken a.serial := by
  have hmem := h.underway e id a ha hready hvalid
  rcases List.mem_append.mp hmem with hmem | hmem
  · rcases List.mem_append.mp hmem with hmem | hmem
    · obtain ⟨call, hcall, hrequest⟩ := List.mem_flatMap.mp hmem
      obtain ⟨i, hi⟩ := List.mem_iff_getElem?.mp hcall
      have hstep : s.step (.push i) = some { s with
          stashed := s.stashed.eraseIdx i
          readingRequestQueue := s.readingRequestQueue ++ call.request.toList
          accepted := s.accepted ++ [call.serial] } := by
        show s.pushStep i = _
        rw [PlaybackService.pushStep, hi]
        rfl
      refine CanBeTaken.of_step ?_ hstep
      exact @Kept.canBeTaken_of_queued _ e id a (h.step hstep) ha hvalid
        (List.mem_append_right _ hrequest)
    · exact h.canBeTaken_of_queued ha hvalid hmem
  · exact h.canBeTaken_of_inHand ha hmem

/-- **A response can be taken just when it is ready or its archive request is valid.** -/
theorem Kept.canBeTaken_iff (h : Kept s) (ha : s.active? e id = some a) :
    s.CanBeTaken a.serial ↔ a.ready = true ∨ a.request.isValid = true := by
  constructor
  · rintro ⟨ls, s', hrun, hmem⟩
    by_contra hnot
    rw [not_or, Bool.not_eq_true, Bool.not_eq_true] at hnot
    exact (h.run hrun).notMem_takenSerials (h.active?_run hrun ha hnot.1 hnot.2) hmem
  · intro hor
    cases hready : a.ready with
    | true => exact h.canBeTaken_of_ready ha hready
    | false =>
      rw [hready] at hor
      exact h.canBeTaken_of_isValid ha hready (hor.resolve_left Bool.false_ne_true)

/-- One request is on its way for a query that waits. -/
theorem Kept.filter_outstanding (h : Kept s) (ha : s.active? e id = some a)
    (hready : a.ready = false) (hvalid : a.request.isValid = true) :
    s.outstanding.filter (fun r => r.queryResponseAgent = e ∧ r.queryId = id) = [a.request] := by
  have hmem := h.underway e id a ha hready hvalid
  obtain ⟨hplace, hid, -⟩ := h.placed e id a ha
  have hof : ∀ r ∈ s.outstanding.filter (fun r => r.queryResponseAgent = e ∧ r.queryId = id),
      r = a.request := by
    intro r hr
    obtain ⟨hr, hk⟩ := List.mem_filter.mp hr
    obtain ⟨b, hb, -, rfl⟩ := h.awaited r hr
    obtain ⟨he, hid'⟩ := of_decide_eq_true hk
    rw [he, hid', ha, Option.some.injEq] at hb
    rw [hb]
  have hnodup : (s.outstanding.filter
      (fun r => r.queryResponseAgent = e ∧ r.queryId = id)).Nodup :=
    (h.apart.of_map _).filter _
  have hin : a.request ∈ s.outstanding.filter
      (fun r => r.queryResponseAgent = e ∧ r.queryId = id) :=
    List.mem_filter.mpr ⟨hmem, decide_eq_true ⟨hplace, hid⟩⟩
  exact List.perm_singleton.mp
    ((List.perm_ext_iff_of_nodup hnodup (List.nodup_singleton _)).mpr fun r =>
      ⟨fun hr => List.mem_singleton.mpr (hof r hr), fun hr => List.mem_singleton.mp hr ▸ hin⟩)

end Steps

/-- **Every accepted query is taken for sending once and whole, or it is with its agent, where it
can still be taken just when it is ready or its archive request is valid.** -/
theorem queries_kept {s : PlaybackService} (hs : system.Reachable s) : s.Bookkeeping := by
  have h : Kept s :=
    hs.induction (fun s₀ h₀ => h₀ ▸ kept_initial) fun _ _ _ hk hstep => hk.step hstep
  have htaken : s.takenSerials.Nodup := h.serials.sublist (List.sublist_append_right _ _)
  refine ⟨?_, htaken, h.taken_whole, fun e id a => h.filter_outstanding,
    fun e id a => h.canBeTaken_iff⟩
  intro n hn
  rcases List.mem_append.mp (h.accepted n (List.mem_append_left _ hn)) with hn | hn
  · exact .inr (mem_activeSerials_iff.mp hn)
  · exact .inl hn

/-- Two playbacks of a story without keepers; the second one starts at the time 0. -/
def twoPlaybacks : List PlaybackStep :=
  let receiver : ServiceId := ⟨"ofi+sockets", 0, 0, 0⟩
  [.request ⟨receiver, 7, 1, "c", "s", 10, 20⟩ true, .stash 0 [], .push 0,
    .request ⟨receiver, 8, 1, "c", "s", 0, 20⟩ true, .stash 0 [], .push 0,
    .pop, .pop, .add 0 ⟨[], true⟩, .drain receiver.getServiceEndpoint]

theorem queries_kept_twoPlaybacks :
    ∃ s, system.run {} twoPlaybacks = some s ∧ s.accepted = [0, 1] ∧ s.takenSerials = [0] ∧
      s.outstanding = [] ∧ s.Bookkeeping := by
  have hfacts : (system.run {} twoPlaybacks).any (fun s =>
      s.accepted = [0, 1] ∧ s.takenSerials = [0] ∧ s.outstanding = []) = true := by
    decide +kernel
  obtain ⟨s, hrun, hs⟩ := (Option.any_eq_true _ _).mp hfacts
  obtain ⟨haccepted, htaken, hout⟩ := of_decide_eq_true hs
  exact ⟨s, hrun, haccepted, htaken, hout, queries_kept ⟨{}, twoPlaybacks, rfl, hrun⟩⟩

end PlaybackService

end ChronoLog.Player
