import ChronoLog.Event

/-!
# The write path of a client

An acquired story has a handle with a list of recording clients, one for each keeper that
the visor listed.  A write chooses one of them by the remainder of its time by the length
of the list.  A recording client that could not be created is a null pointer, which the
client map keeps and the handle takes like any other.

What the source leaves undefined ends a call with a `Fault` here.

## Main definitions

* `StorytellerClient.initializeStoryHandle` — the handle of an acquired story.
* `chooseKeeper`, `logEvent`, `logEventWith`, `logDurableEvent` — the writes.
* `clientFor` — the client the endpoint of a listed keeper stands for.
* `WritePathSafe` — acquiring, removing and writing do what they should.
* `Provided`, `Remaining` — each listed keeper has its client, and one is left.

## Main results

* `initializeStoryHandle_eq` — the handle holds the clients of the listed keepers; no
  entry past the end is read.
* `exists_logEventWith` — a write with options never computes a remainder by zero.
* `write_path_faults` — a write on an emptied list, and a null pointer in the handle.
* `writePathSafe_iff` — **the write path is safe when each listed keeper has its client and
  the removals leave one, and only then.**
-/

namespace ChronoLog.Client

/-- `ServiceId`. -/
structure ServiceId where
  protocol : String
  ip_addr : BitVec 32
  port : BitVec 16
  provider_id : UInt16
  deriving DecidableEq, Repr

/-- The pair of the address and the port. -/
def ServiceId.getServiceEndpoint (id : ServiceId) : BitVec 48 := id.ip_addr ++ id.port

/-- What the source does not define. -/
inductive Fault where
  | pastTheEnd
  | nullDereference
  | remainderByZero
  deriving DecidableEq, Repr

/-- How the construction of a recording client ends: the engine may refuse to look the
address up or to define a call. -/
inductive Construction where
  | created
  | lookupFailed
  | defineFailed
  deriving DecidableEq, Repr

structure KeeperRecordingClient where
  recordingServiceId : ServiceId
  deriving DecidableEq, Repr

/-- A `KeeperRecordingClient *`. -/
abbrev KeeperPointer := Option KeeperRecordingClient

/-- `createKeeperRecordingClient` catches the engine's exceptions. -/
def createKeeperRecordingClient (keeper_service_id : ServiceId) : Construction → KeeperPointer
  | .created => some ⟨keeper_service_id⟩
  | .lookupFailed => none
  | .defineFailed => none

/-- `recordingClientMap`. -/
abbrev RecordingClientMap := OrdMap (BitVec 48) KeeperPointer

/-- `StorytellerClient`; a handle is the list of its keepers. -/
structure StorytellerClient where
  recordingClientMap : RecordingClientMap := ∅
  acquiredStoryHandles : String × String → Option (List KeeperPointer) := fun _ => none

/-- `addKeeperRecordingClient`, and what it returns. -/
def addKeeperRecordingClient (clients : RecordingClientMap) (keeper_service_id : ServiceId)
    (construction : Construction) : RecordingClientMap × ℕ :=
  let keeperRecordingClient := createKeeperRecordingClient keeper_service_id construction
  if keeper_service_id.getServiceEndpoint ∈ clients then (clients, 0)
  else (clients.insert keeper_service_id.getServiceEndpoint keeperRecordingClient, 1)

/-- A round of the loop of `initializeStoryHandle`. -/
def addListedKeeper (handle : RecordingClientMap × List KeeperPointer)
    (keeper : ServiceId × Construction) : Except Fault (RecordingClientMap × List KeeperPointer) :=
  let endpoint := keeper.1.getServiceEndpoint
  let added := if endpoint ∈ handle.1 then (handle.1, 1)
    else addKeeperRecordingClient handle.1 keeper.1 keeper.2
  if added.2 = 0 then .ok (added.1, handle.2)
  else
    match added.1[endpoint]? with
    | some client => .ok (added.1, handle.2 ++ [client])
    | none => .error .pastTheEnd

/-- `initializeStoryHandle`; with each keeper comes how the construction of its client ends,
if one is constructed. -/
def StorytellerClient.initializeStoryHandle (client : StorytellerClient) (story : String × String)
    (vectorOfKeepers : List (ServiceId × Construction)) :
    Except Fault (StorytellerClient × List KeeperPointer) :=
  match client.acquiredStoryHandles story with
  | some storyKeepers => .ok (client, storyKeepers)
  | none =>
    (vectorOfKeepers.foldlM addListedKeeper (client.recordingClientMap, [])).map fun handle =>
      ({ recordingClientMap := handle.1
         acquiredStoryHandles :=
           Function.update client.acquiredStoryHandles story (some handle.2) },
        handle.2)

/-- `removeRecordingClient`: the first client with that id leaves the list. -/
def removeRecordingClient (storyKeepers : List KeeperPointer) (keeper_service_id : ServiceId) :
    Except Fault (List KeeperPointer) :=
  match storyKeepers with
  | [] => .ok []
  | none :: _ => .error .nullDereference
  | some client :: rest =>
    if client.recordingServiceId = keeper_service_id then .ok rest
    else (removeRecordingClient rest keeper_service_id).map (some client :: ·)

/-! ### Writes -/

/-- `chooseKeeper`. -/
def chooseKeeper (vectorOfKeepers : List KeeperPointer) (chrono_tick : ℕ) :
    Except Fault KeeperPointer :=
  if h : vectorOfKeepers.length = 0 then .error .remainderByZero
  else .ok (vectorOfKeepers.get
    ⟨chrono_tick % vectorOfKeepers.length, Nat.mod_lt _ (Nat.pos_of_ne_zero h)⟩)

def CL_SUCCESS : ℤ := 0
def CL_ERR_INVALID_ARG : ℤ := -2
def CL_ERR_NO_KEEPERS : ℤ := -7
def CL_ERR_DURABILITY_UNAVAILABLE : ℤ := -19
def CL_ERR_DURABILITY_FULL : ℤ := -20
def CL_ERR_DURABILITY_UNKNOWN : ℤ := -21

/-- An event sent to a keeper, which was chosen from the list. -/
structure Send where
  storyKeepers : List KeeperPointer
  keeper : KeeperRecordingClient
  event : LogEvent

/-- `log_event(record)`: the time of the event, or 0. -/
def logEvent (storyKeepers : List KeeperPointer) (event : LogEvent)
    (send_event_msg : KeeperRecordingClient → ℤ) : Except Fault (List Send × ℕ) :=
  (chooseKeeper storyKeepers event.time).map fun
    | none => ([], 0)
    | some keeper =>
      ([⟨storyKeepers, keeper, event⟩],
        if send_event_msg keeper = CL_SUCCESS then event.time else 0)

/-- `Durability`, any byte. -/
abbrev Durability := UInt8

def Durability.Accepted : Durability := 1
def Durability.Durable : Durability := 2

/-- `LogEventOptions`. -/
structure LogEventOptions where
  durability : Durability := Durability.Accepted
  timeout_ms : UInt32 := 10000
  attempts : UInt32 := 3

/-- `DurableSendOutcome`, an answer with the keeper's code. -/
inductive DurableSendOutcome where
  | Answered (keeper_code : ℤ)
  | TimedOut
  | NotRegistered
  | TransportError
  deriving DecidableEq, Repr

/-- What an attempt of a durable write finds: the keepers the handle has then, and how the
attempt ends. -/
structure Round where
  storyKeepers : List KeeperPointer
  outcome : DurableSendOutcome

/-- A durable write: what it sent, and its code and time once it has returned. -/
structure DurableWrite where
  sends : List Send := []
  returned : Option (ℤ × ℕ) := none

/-- The end of `log_durable_event` after its loop. -/
def afterAttempts (event : LogEvent) (may_be_stored : Bool) : ℤ × ℕ :=
  if may_be_stored then (CL_ERR_DURABILITY_UNKNOWN, event.time) else (CL_ERR_NO_KEEPERS, 0)

/-- The code and the time for an answer of a keeper. -/
def onAnswer (event : LogEvent) (may_be_stored : Bool) (keeper_code : ℤ) : ℤ × ℕ :=
  let keeper_code :=
    if may_be_stored ∧ (keeper_code = CL_ERR_DURABILITY_UNAVAILABLE ∨
        keeper_code = CL_ERR_DURABILITY_FULL) then CL_ERR_DURABILITY_UNKNOWN else keeper_code
  (keeper_code,
    if keeper_code = CL_SUCCESS ∨ keeper_code = CL_ERR_DURABILITY_UNKNOWN then event.time else 0)

/-- The code and the time for a keeper without the call. -/
def onNotRegistered (event : LogEvent) (may_be_stored : Bool) : ℤ × ℕ :=
  if may_be_stored then (CL_ERR_DURABILITY_UNKNOWN, event.time)
  else (CL_ERR_DURABILITY_UNAVAILABLE, 0)

/-- The loop of `log_durable_event` from an attempt on; it waits where no round is given. -/
def logDurableEvent (options : LogEventOptions) (event : LogEvent) (rounds : List Round)
    (attempt : UInt32) (may_be_stored : Bool) : Except Fault DurableWrite :=
  if attempt ≤ options.attempts then
    match rounds with
    | [] => .ok {}
    | round :: rounds =>
      if round.storyKeepers.isEmpty then
        .ok { returned := some (afterAttempts event may_be_stored) }
      else
        match chooseKeeper round.storyKeepers event.time with
        | .error fault => .error fault
        | .ok none => .ok { returned := some (afterAttempts event may_be_stored) }
        | .ok (some keeper) =>
          let send : Send := ⟨round.storyKeepers, keeper, event⟩
          match round.outcome with
          | .Answered keeper_code =>
            .ok ⟨[send], some (onAnswer event may_be_stored keeper_code)⟩
          | .NotRegistered => .ok ⟨[send], some (onNotRegistered event may_be_stored)⟩
          | .TimedOut | .TransportError =>
            (logDurableEvent options event rounds (attempt + 1) true).map fun write =>
              { write with sends := send :: write.sends }
  else .ok { returned := some (afterAttempts event may_be_stored) }

/-- The first checks of `log_event(record, options, event_time)`. -/
def LogEventOptions.valid (options : LogEventOptions) (event : LogEvent) : Bool :=
  (options.durability = Durability.Accepted || options.durability = Durability.Durable) &&
  !(options.durability = Durability.Durable && (options.attempts = 0 || options.timeout_ms = 0)) &&
  !(options.durability = Durability.Durable && event.logRecord.isEmpty)

/-- `log_event(record, options, event_time)`. -/
def logEventWith (storyKeepers : List KeeperPointer) (options : LogEventOptions)
    (event : LogEvent) (send_event_msg : KeeperRecordingClient → ℤ) (rounds : List Round) :
    Except Fault DurableWrite :=
  if !options.valid event then .ok { returned := some (CL_ERR_INVALID_ARG, 0) }
  else if storyKeepers.isEmpty then .ok { returned := some (CL_ERR_NO_KEEPERS, 0) }
  else if options.durability = Durability.Durable then
    logDurableEvent options event rounds 1 false
  else
    (chooseKeeper storyKeepers event.time).map fun
      | none => { returned := some (CL_ERR_NO_KEEPERS, 0) }
      | some keeper =>
        { sends := [⟨storyKeepers, keeper, event⟩]
          returned := some (send_event_msg keeper,
            if send_event_msg keeper = CL_SUCCESS then event.time else 0) }

/-! ### The handle of an acquired story -/

/-- The client that an endpoint stands for: the entry it has in the client map, or what
becomes of the first listed keeper there. -/
def clientFor (clients : RecordingClientMap) (keepers : List (ServiceId × Construction))
    (endpoint : BitVec 48) : KeeperPointer :=
  match clients[endpoint]? with
  | some client => client
  | none =>
    (keepers.find? fun keeper => keeper.1.getServiceEndpoint = endpoint).bind fun keeper =>
      createKeeperRecordingClient keeper.1 keeper.2

section

variable {clients : RecordingClientMap} {keepers : List (ServiceId × Construction)}
  {keeper : ServiceId × Construction} {endpoint : BitVec 48}

/-- The client map after a listed keeper. -/
def withListed (clients : RecordingClientMap) (keeper : ServiceId × Construction) :
    RecordingClientMap :=
  if keeper.1.getServiceEndpoint ∈ clients then clients
  else clients.insert keeper.1.getServiceEndpoint (createKeeperRecordingClient keeper.1 keeper.2)

/-- The first of the listed keepers is as good as its entry. -/
theorem clientFor_cons (endpoint : BitVec 48) :
    clientFor clients (keeper :: keepers) endpoint =
      clientFor (withListed clients keeper) keepers endpoint := by
  by_cases h : keeper.1.getServiceEndpoint ∈ clients
  · rw [withListed, if_pos h]
    unfold clientFor
    split
    · rfl
    · next hnone =>
      have hne : keeper.1.getServiceEndpoint ≠ endpoint := by
        rintro rfl
        rw [Std.ExtTreeMap.mem_iff_isSome_getElem?, hnone] at h
        cases h
      rw [List.find?_cons_of_neg (by simpa using hne)]
  · rw [withListed, if_neg h]
    unfold clientFor
    rw [Std.ExtTreeMap.getElem?_insert]
    by_cases heq : keeper.1.getServiceEndpoint = endpoint
    · subst heq
      rw [Std.ExtTreeMap.getElem?_eq_none h]
      simp
    · simp [heq]

/-- After the first lookup and the addition the endpoint has an entry. -/
theorem addListedKeeper_eq (storyKeepers : List KeeperPointer) :
    addListedKeeper (clients, storyKeepers) keeper =
      .ok (withListed clients keeper, storyKeepers ++
        [clientFor clients (keeper :: keepers) keeper.1.getServiceEndpoint]) := by
  unfold addListedKeeper
  by_cases h : keeper.1.getServiceEndpoint ∈ clients
  · simp [h, withListed, clientFor]
  · simp [h, withListed, clientFor, addKeeperRecordingClient]

/-- **The handle takes the client of each listed keeper**, and no entry past the end is
read. -/
theorem foldlM_addListedKeeper (storyKeepers : List KeeperPointer) :
    ∃ clients', keepers.foldlM addListedKeeper (clients, storyKeepers) =
      .ok (clients', storyKeepers ++
        keepers.map fun keeper => clientFor clients keepers keeper.1.getServiceEndpoint) := by
  induction keepers generalizing clients storyKeepers with
  | nil =>
    refine ⟨clients, ?_⟩
    rw [List.map_nil, List.append_nil]
    rfl
  | cons keeper keepers ih =>
    obtain ⟨clients', hrest⟩ := @ih (withListed clients keeper) (storyKeepers ++
      [clientFor clients (keeper :: keepers) keeper.1.getServiceEndpoint])
    refine ⟨clients', ?_⟩
    rw [List.foldlM_cons, @addListedKeeper_eq _ keepers]
    refine hrest.trans ?_
    simp only [clientFor_cons, List.map_cons, List.append_assoc, List.singleton_append]

/-- **No entry past the end is read**, whatever the list and however the constructions end. -/
theorem initializeStoryHandle_eq (client : StorytellerClient) {story : String × String}
    (hnew : client.acquiredStoryHandles story = none) :
    ∃ client', client.initializeStoryHandle story keepers =
      .ok (client', keepers.map fun keeper =>
        clientFor client.recordingClientMap keepers keeper.1.getServiceEndpoint) := by
  obtain ⟨clients', h⟩ := @foldlM_addListedKeeper client.recordingClientMap keepers []
  rw [StorytellerClient.initializeStoryHandle, hnew]
  dsimp only
  rw [h]
  exact ⟨_, rfl⟩

/-- The pointer is a live client of a listed keeper. -/
def IsListedClient (keepers : List (ServiceId × Construction)) (pointer : KeeperPointer) : Prop :=
  ∃ client, pointer = some client ∧ client.recordingServiceId ∈ keepers.map Prod.fst

/-- Each listed keeper has its client: an entry that its endpoint has already is the client of
a listed keeper, and the first keeper listed with a new endpoint is created. -/
def Provided (clients : RecordingClientMap) (keepers : List (ServiceId × Construction)) : Prop :=
  ∀ before keeper after, keepers = before ++ keeper :: after →
    (∀ pointer : KeeperPointer, clients[keeper.1.getServiceEndpoint]? = some pointer →
      IsListedClient keepers pointer) ∧
    (clients[keeper.1.getServiceEndpoint]? = none →
      (∀ earlier ∈ before, earlier.1.getServiceEndpoint ≠ keeper.1.getServiceEndpoint) →
        keeper.2 = .created)

theorem clientFor_of_some {pointer : KeeperPointer} (h : clients[endpoint]? = some pointer) :
    clientFor clients keepers endpoint = pointer := by
  rw [clientFor, h]

theorem clientFor_of_none (h : clients[endpoint]? = none) :
    clientFor clients keepers endpoint =
      (keepers.find? fun keeper => keeper.1.getServiceEndpoint = endpoint).bind fun keeper =>
        createKeeperRecordingClient keeper.1 keeper.2 := by
  rw [clientFor, h]

theorem provided_iff :
    Provided clients keepers ↔ ∀ keeper ∈ keepers,
      IsListedClient keepers (clientFor clients keepers keeper.1.getServiceEndpoint) := by
  constructor
  · intro h keeper hkeeper
    cases hentry : clients[keeper.1.getServiceEndpoint]? with
    | some pointer =>
      obtain ⟨before, after, heq⟩ := List.append_of_mem hkeeper
      rw [clientFor_of_some hentry]
      exact (h before keeper after heq).1 pointer hentry
    | none =>
      rw [clientFor_of_none hentry]
      cases hfirst :
          keepers.find? fun k => k.1.getServiceEndpoint = keeper.1.getServiceEndpoint with
      | none => exact absurd (List.find?_eq_none.mp hfirst keeper hkeeper) (by simp)
      | some first =>
        obtain ⟨hendpoint, before, after, heq, hbefore⟩ := List.find?_eq_some_iff_append.mp hfirst
        rw [decide_eq_true_eq] at hendpoint
        have hcreated := (h before first after heq).2 (by rw [hendpoint, hentry])
          fun earlier hearlier => by simpa [hendpoint] using hbefore earlier hearlier
        rw [Option.bind_some, hcreated]
        refine ⟨⟨first.1⟩, rfl, List.mem_map_of_mem ?_⟩
        rw [heq]
        exact List.mem_append_right _ List.mem_cons_self
  · intro h before keeper after heq
    have hkeeper : keeper ∈ keepers := heq ▸ List.mem_append_right _ List.mem_cons_self
    have hlisted := h keeper hkeeper
    refine ⟨fun pointer hentry => ?_, fun hentry hbefore => ?_⟩
    · rwa [clientFor_of_some hentry] at hlisted
    · have hfirst : keepers.find? (fun k =>
          k.1.getServiceEndpoint = keeper.1.getServiceEndpoint) = some keeper := by
        refine List.find?_eq_some_iff_append.mpr ⟨by simp, before, after, heq, ?_⟩
        intro earlier hearlier
        simpa using hbefore earlier hearlier
      rw [clientFor_of_none hentry, hfirst, Option.bind_some] at hlisted
      obtain ⟨client, hclient, -⟩ := hlisted
      cases hconstruction : keeper.2 <;> rw [hconstruction] at hclient <;> trivial

end

/-! ### Removals -/

/-- The list without the first client of a keeper. -/
def without (clients : List KeeperRecordingClient) (keeper_service_id : ServiceId) :
    List KeeperRecordingClient :=
  clients.eraseP fun client => client.recordingServiceId = keeper_service_id

theorem removeRecordingClient_map_some (clients : List KeeperRecordingClient)
    (keeper_service_id : ServiceId) :
    removeRecordingClient (clients.map some) keeper_service_id =
      .ok ((without clients keeper_service_id).map some) := by
  induction clients with
  | nil => rfl
  | cons client clients ih =>
    rw [List.map_cons, removeRecordingClient, without, List.eraseP_cons]
    by_cases h : client.recordingServiceId = keeper_service_id
    · simp [h]
    · simp [h, ih, without, Except.map]

theorem foldlM_removeRecordingClient (clients : List KeeperRecordingClient)
    (removals : List ServiceId) :
    removals.foldlM removeRecordingClient (clients.map some) =
      .ok ((removals.foldl without clients).map some) := by
  induction removals generalizing clients with
  | nil => rfl
  | cons id removals ih =>
    rw [List.foldlM_cons, removeRecordingClient_map_some]
    exact ih _

theorem map_without (clients : List KeeperRecordingClient) (keeper_service_id : ServiceId) :
    (without clients keeper_service_id).map (·.recordingServiceId) =
      (clients.map (·.recordingServiceId)).erase keeper_service_id := by
  induction clients with
  | nil => rfl
  | cons client clients ih =>
    rw [without, List.eraseP_cons, List.map_cons, List.erase_cons]
    by_cases h : client.recordingServiceId = keeper_service_id
    · simp [h]
    · simpa [h, without] using ih

theorem map_foldl_without (clients : List KeeperRecordingClient) (removals : List ServiceId) :
    (removals.foldl without clients).map (·.recordingServiceId) =
      (clients.map (·.recordingServiceId)).diff removals := by
  induction removals generalizing clients with
  | nil => rfl
  | cons id removals ih => rw [List.foldl_cons, ih, map_without, List.diff_cons]

/-! ### The choice of a keeper -/

section

variable {storyKeepers : List KeeperPointer} {event : LogEvent} {options : LogEventOptions}

/-- The choice is of a member, where there is one. -/
theorem exists_chooseKeeper (h : storyKeepers ≠ []) (chrono_tick : ℕ) :
    ∃ keeper ∈ storyKeepers, chooseKeeper storyKeepers chrono_tick = .ok keeper := by
  have hlength : storyKeepers.length ≠ 0 := fun hzero => h (List.length_eq_zero_iff.mp hzero)
  rw [chooseKeeper, dif_neg hlength]
  exact ⟨_, List.get_mem _ _, rfl⟩

/-- What was sent went to a member of the list it was chosen from. -/
def Send.Chosen (send : Send) : Prop := some send.keeper ∈ send.storyKeepers

/-- **A durable write never computes a remainder by zero**, whatever the keepers of the handle
become between its attempts: it sends to members only, and when it has returned without
sending it reports that there is no keeper. -/
theorem exists_logDurableEvent (rounds : List Round) (attempt : UInt32) (may_be_stored : Bool) :
    ∃ write, logDurableEvent options event rounds attempt may_be_stored = .ok write ∧
      (∀ send ∈ write.sends, send.Chosen ∧ ∃ round ∈ rounds,
        send.storyKeepers = round.storyKeepers) ∧
      (write.sends = [] → write.returned = some (afterAttempts event may_be_stored) ∨
        rounds = [] ∧ write.returned = none) := by
  induction rounds generalizing attempt may_be_stored with
  | nil =>
    rw [logDurableEvent]
    split
    · exact ⟨_, rfl, by simp⟩
    · exact ⟨_, rfl, by simp⟩
  | cons round rounds ih =>
    rw [logDurableEvent]
    split
    · dsimp only
      split
      · exact ⟨_, rfl, by simp⟩
      · next hsome =>
        obtain ⟨keeper, hmem, hchoice⟩ := exists_chooseKeeper
          (fun hnil => hsome (List.isEmpty_iff.mpr hnil)) event.time
        rw [hchoice]
        cases keeper with
        | none => exact ⟨_, rfl, by simp⟩
        | some keeper =>
          have hfirst : Send.Chosen ⟨round.storyKeepers, keeper, event⟩ := hmem
          dsimp only
          split
          · exact ⟨_, rfl, by simpa using hfirst⟩
          · exact ⟨_, rfl, by simpa using hfirst⟩
          all_goals
            obtain ⟨write, hwrite, hsends, -⟩ := ih (attempt + 1) true
            rw [hwrite]
            refine ⟨_, rfl, fun send hsend => ?_, by simp⟩
            rcases List.mem_cons.mp hsend with rfl | hsend
            · exact ⟨hfirst, round, List.mem_cons_self, rfl⟩
            · obtain ⟨hchosen, other, hother, heq⟩ := hsends send hsend
              exact ⟨hchosen, other, List.mem_cons_of_mem _ hother, heq⟩
    · exact ⟨_, rfl, by simp⟩

/-- **A write with options never computes a remainder by zero.** -/
theorem exists_logEventWith (storyKeepers : List KeeperPointer) (options : LogEventOptions)
    (event : LogEvent) (send_event_msg : KeeperRecordingClient → ℤ) (rounds : List Round) :
    ∃ write, logEventWith storyKeepers options event send_event_msg rounds = .ok write ∧
      (∀ send ∈ write.sends, send.Chosen ∧ (send.storyKeepers = storyKeepers ∨
        ∃ round ∈ rounds, send.storyKeepers = round.storyKeepers)) ∧
      (write.sends = [] → write.returned = some (CL_ERR_NO_KEEPERS, 0) ∨
        options.valid event = false ∧ write.returned = some (CL_ERR_INVALID_ARG, 0) ∨
        rounds = [] ∧ write.returned = none) := by
  unfold logEventWith
  split
  · next hinvalid =>
    exact ⟨_, rfl, by simp, fun _ => Or.inr (Or.inl ⟨by simpa using hinvalid, rfl⟩)⟩
  · split
    · exact ⟨_, rfl, by simp⟩
    · next hsome =>
      split
      · obtain ⟨write, hwrite, hsends, hreport⟩ :=
          @exists_logDurableEvent event options rounds 1 false
        refine ⟨write, hwrite, fun send hsend => ?_, fun hnone => ?_⟩
        · exact ⟨(hsends send hsend).1, Or.inr (hsends send hsend).2⟩
        · rcases hreport hnone with h | h
          · exact Or.inl h
          · exact Or.inr (Or.inr h)
      · obtain ⟨keeper, hmem, hchoice⟩ := exists_chooseKeeper
          (fun hnil => hsome (List.isEmpty_iff.mpr hnil)) event.time
        rw [hchoice]
        cases keeper with
        | none => exact ⟨_, rfl, by simp⟩
        | some keeper =>
          have hfirst : Send.Chosen ⟨storyKeepers, keeper, event⟩ := hmem
          exact ⟨_, rfl, by simpa using hfirst⟩

/-- A write without options sends to a member or reports that there is no keeper. -/
def SendsOrReports (storyKeepers : List KeeperPointer) (event : LogEvent)
    (result : Except Fault (List Send × ℕ)) : Prop :=
  (∃ send time, result = .ok ([send], time) ∧ send.Chosen ∧ send.storyKeepers = storyKeepers ∧
    send.event = event) ∨ result = .ok ([], 0)

/-- It does where the handle has a keeper, and only there. -/
theorem sendsOrReports_iff (send_event_msg : KeeperRecordingClient → ℤ) :
    SendsOrReports storyKeepers event (logEvent storyKeepers event send_event_msg) ↔
      storyKeepers ≠ [] := by
  constructor
  · rintro h rfl
    rcases h with ⟨send, time, h, -⟩ | h <;> cases h
  · intro h
    obtain ⟨keeper, hmem, hchoice⟩ := exists_chooseKeeper h event.time
    rw [logEvent, hchoice]
    cases keeper with
    | none => exact Or.inr rfl
    | some keeper => exact Or.inl ⟨⟨storyKeepers, keeper, event⟩, _, rfl, hmem, rfl, rfl⟩

end

/-! ### From the acquisition to a write -/

/-- The story is acquired with the listed keepers, clients are removed, and an event is
written: no fault, live clients of listed keepers in the handle, and each write sends to a
member of the handle's list or reports that it has none. -/
def WritePathSafe (client : StorytellerClient) (story : String × String)
    (keepers : List (ServiceId × Construction)) (removals : List ServiceId) : Prop :=
  ∃ client' storyKeepers storyKeepers',
    client.initializeStoryHandle story keepers = .ok (client', storyKeepers) ∧
    (∀ pointer ∈ storyKeepers, IsListedClient keepers pointer) ∧
    removals.foldlM removeRecordingClient storyKeepers = .ok storyKeepers' ∧
    (∀ event send_event_msg,
      SendsOrReports storyKeepers' event (logEvent storyKeepers' event send_event_msg)) ∧
    ∀ options event send_event_msg rounds,
      ∃ write, logEventWith storyKeepers' options event send_event_msg rounds = .ok write ∧
        (∀ send ∈ write.sends, send.Chosen ∧ (send.storyKeepers = storyKeepers' ∨
          ∃ round ∈ rounds, send.storyKeepers = round.storyKeepers)) ∧
        (write.sends = [] → write.returned = some (CL_ERR_NO_KEEPERS, 0) ∨
          options.valid event = false ∧ write.returned = some (CL_ERR_INVALID_ARG, 0) ∨
          rounds = [] ∧ write.returned = none)

/-- Some keeper's client is in the handle more often than it was removed. -/
def Remaining (clients : RecordingClientMap) (keepers : List (ServiceId × Construction))
    (removals : List ServiceId) : Prop :=
  ∃ id, removals.count id < keepers.countP fun keeper =>
    (clientFor clients keepers keeper.1.getServiceEndpoint).map (·.recordingServiceId) = some id

theorem diff_ne_nil_iff {α : Type*} [DecidableEq α] {l₁ l₂ : List α} :
    l₁.diff l₂ ≠ [] ↔ ∃ a, l₂.count a < l₁.count a := by
  have hcount : ∀ a, a ∈ l₁.diff l₂ ↔ l₂.count a < l₁.count a := by
    intro a
    rw [← List.count_pos_iff, List.count_diff]
    omega
  constructor
  · intro h
    obtain ⟨a, ha⟩ := List.exists_mem_of_ne_nil _ h
    exact ⟨a, (hcount a).mp ha⟩
  · rintro ⟨a, ha⟩
    exact List.ne_nil_of_mem ((hcount a).mpr ha)

/-- A list of live clients. -/
theorem exists_eq_map_some {storyKeepers : List KeeperPointer}
    (h : ∀ pointer ∈ storyKeepers, ∃ client, pointer = some client) :
    ∃ clients : List KeeperRecordingClient, storyKeepers = clients.map some := by
  induction storyKeepers with
  | nil => exact ⟨[], rfl⟩
  | cons pointer storyKeepers ih =>
    obtain ⟨client, rfl⟩ := h pointer List.mem_cons_self
    obtain ⟨clients, rfl⟩ := ih fun p hp => h p (List.mem_cons_of_mem _ hp)
    exact ⟨client :: clients, rfl⟩

section

variable {client : StorytellerClient} {story : String × String}
  {keepers : List (ServiceId × Construction)} {removals : List ServiceId}

/-- The clients that the removals leave, counted in the inputs. -/
theorem foldl_without_ne_nil_iff {map : RecordingClientMap} {clients : List KeeperRecordingClient}
    (h : keepers.map (fun keeper => clientFor map keepers keeper.1.getServiceEndpoint) =
      clients.map some) :
    removals.foldl without clients ≠ [] ↔ Remaining map keepers removals := by
  rw [← (List.map_eq_nil_iff (f := KeeperRecordingClient.recordingServiceId)).ne,
    map_foldl_without, diff_ne_nil_iff]
  refine exists_congr fun id => ?_
  have hids := congrArg (List.countP fun pointer : KeeperPointer =>
    pointer.map (·.recordingServiceId) = some id) h
  rw [List.countP_map, List.countP_map] at hids
  rw [List.count, List.countP_map]
  refine iff_of_eq (congrArg (removals.count id < ·) ?_)
  refine Eq.trans ?_ hids.symm
  refine List.countP_congr fun c _ => ?_
  simp

/-- **The write path is safe when each listed keeper has its client and the removals leave
one, and only then.** -/
theorem writePathSafe_iff (hnew : client.acquiredStoryHandles story = none) :
    WritePathSafe client story keepers removals ↔
      Provided client.recordingClientMap keepers ∧
        Remaining client.recordingClientMap keepers removals := by
  obtain ⟨client', hinit⟩ := @initializeStoryHandle_eq keepers client story hnew
  rw [provided_iff]
  constructor
  · rintro ⟨_, storyKeepers, storyKeepers', hhandle, hlive, hremoved, hplain, -⟩
    rw [hinit, Except.ok.injEq, Prod.mk.injEq] at hhandle
    obtain ⟨-, rfl⟩ := hhandle
    obtain ⟨clients, hclients⟩ := exists_eq_map_some fun pointer hpointer => by
      obtain ⟨c, hc, -⟩ := hlive pointer hpointer
      exact ⟨c, hc⟩
    refine ⟨fun keeper hkeeper => hlive _ (List.mem_map_of_mem hkeeper), ?_⟩
    rw [hclients, foldlM_removeRecordingClient, Except.ok.injEq] at hremoved
    rw [← foldl_without_ne_nil_iff hclients]
    rintro hnil
    rw [hnil] at hremoved
    exact (sendsOrReports_iff _).mp (hplain ⟨0, 0, 0, 0, []⟩ fun _ => 0) hremoved.symm
  · rintro ⟨hlive, hremaining⟩
    obtain ⟨clients, hclients⟩ := @exists_eq_map_some
      (keepers.map fun keeper => clientFor client.recordingClientMap keepers
        keeper.1.getServiceEndpoint) fun pointer hpointer => by
      obtain ⟨keeper, hkeeper, rfl⟩ := List.mem_map.mp hpointer
      obtain ⟨c, hc, -⟩ := hlive keeper hkeeper
      exact ⟨c, hc⟩
    refine ⟨client', _, (removals.foldl without clients).map some, hinit, ?_, ?_, ?_, ?_⟩
    · intro pointer hpointer
      obtain ⟨keeper, hkeeper, rfl⟩ := List.mem_map.mp hpointer
      exact hlive keeper hkeeper
    · rw [hclients]
      exact foldlM_removeRecordingClient clients removals
    · intro event send_event_msg
      refine (sendsOrReports_iff send_event_msg).mpr fun hnil => ?_
      exact (foldl_without_ne_nil_iff hclients).mpr hremaining (List.map_eq_nil_iff.mp hnil)
    · exact fun options event send_event_msg rounds =>
        exists_logEventWith _ options event send_event_msg rounds

end

/-- A keeper. -/
def harbour : ServiceId := ⟨"ofi+sockets", 0x7f000001, 4444, 22⟩

/-- A second one, at an address that the engine cannot look up. -/
def pier : ServiceId := ⟨"ofi+sockets", 0x7f000002, 4444, 22⟩

/-- The client of the second keeper, from an earlier acquisition. -/
def pierClients : RecordingClientMap :=
  (∅ : RecordingClientMap).insert pier.getServiceEndpoint (some ⟨pier⟩)

/-- One of the listed keepers has its client, the other one gets it, and one is removed. -/
theorem writePathSafe_harbour :
    WritePathSafe { recordingClientMap := pierClients } ("sea", "salt")
      [(harbour, .created), (pier, .lookupFailed)] [pier] := by
  have hharbour : clientFor pierClients [(harbour, .created), (pier, .lookupFailed)]
      harbour.getServiceEndpoint = some ⟨harbour⟩ := by
    decide +kernel
  have hpier : clientFor pierClients [(harbour, .created), (pier, .lookupFailed)]
      pier.getServiceEndpoint = some ⟨pier⟩ := by
    decide +kernel
  refine (writePathSafe_iff rfl).mpr ⟨?_, harbour, ?_⟩
  · rw [provided_iff]
    intro keeper hkeeper
    rcases List.mem_pair.mp hkeeper with rfl | rfl
    · exact ⟨⟨harbour⟩, hharbour, by decide⟩
    · exact ⟨⟨pier⟩, hpier, by decide⟩
  · show 0 < _
    rw [List.countP_cons_of_pos (by simp [hharbour])]
    exact Nat.succ_pos _

/-- **A write on a list that a removal has emptied computes a remainder by zero, and a keeper
whose address cannot be looked up leaves a null pointer in the handle.** -/
theorem write_path_faults :
    ¬WritePathSafe {} ("sea", "salt") [(harbour, .created)] [harbour] ∧
      ¬WritePathSafe {} ("sea", "salt") [(harbour, .lookupFailed)] [] := by
  constructor
  · rintro ⟨_, storyKeepers, storyKeepers', hhandle, -, hremoved, hplain, -⟩
    obtain ⟨client', hinit⟩ :=
      @initializeStoryHandle_eq [(harbour, .created)] {} ("sea", "salt") rfl
    rw [hinit, Except.ok.injEq, Prod.mk.injEq] at hhandle
    obtain ⟨-, rfl⟩ := hhandle
    have hhandle : ([(harbour, Construction.created)].map fun keeper =>
        clientFor ∅ [(harbour, .created)] keeper.1.getServiceEndpoint) = [⟨harbour⟩].map some := by
      simp [clientFor, createKeeperRecordingClient]
    rw [hhandle, foldlM_removeRecordingClient, Except.ok.injEq] at hremoved
    refine (sendsOrReports_iff _).mp (hplain ⟨0, 0, 0, 0, []⟩ fun _ => 0) ?_
    rw [← hremoved]
    simp [without]
  · rintro ⟨_, storyKeepers, -, hhandle, hlive, -⟩
    obtain ⟨client', hinit⟩ :=
      @initializeStoryHandle_eq [(harbour, .lookupFailed)] {} ("sea", "salt") rfl
    rw [hinit, Except.ok.injEq, Prod.mk.injEq] at hhandle
    obtain ⟨-, rfl⟩ := hhandle
    obtain ⟨client, hclient, -⟩ := hlive _ List.mem_cons_self
    simp [clientFor, createKeeperRecordingClient] at hclient

end ChronoLog.Client
