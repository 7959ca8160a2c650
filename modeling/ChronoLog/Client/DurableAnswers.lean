import ChronoLog.Client.StoryHandle
import ChronoLog.Lib.Transition
import ChronoLog.Wal.DurableWriter

/-!
# The answers to a durable write

A durable write sends the same event again where an attempt gets no answer, perhaps to
another keeper.  A request that was sent may reach its keeper before, during or after the
later attempts, or never, so an answer that a later attempt gets says nothing of the earlier
ones.

The steps here are those of one call of `log_event` with its requests in flight.  A keeper
runs a request in one step: what its log, its retention store and its data store answer there
comes with the step, as the interface of the log allows it.

## Main definitions

* `KeeperView`, `recordEventDurable` — a keeper's handler and what it finds.
* `KeeperView.truthful` — what the interface of the log promises.
* `sendDurableEventMsg` — how an attempt ends.
* `durableWrite` — the write and its requests, in every order of steps.
* `Sound` — what the caller may conclude from the code and the time.

## Main results

* `logEventWith_of_reachable` — the steps do what the loop of `log_durable_event` does.
* `durable_answers_sound_iff` — **every answer is sound unless the number of attempts is the
  greatest of its type or the clock reads zero.**
* `attempts_wrap` — with the greatest number of attempts the loop does not end.
-/

namespace ChronoLog.Client

/-! ### The keeper -/

/-- What a durable write names: the arguments of `record_event_durable`. -/
structure DurableMessage where
  chronicle : Bytes
  story : Bytes
  event : LogEvent

/-- What `record_event_durable` finds at its keeper. -/
structure KeeperView where
  writeGateOpen : Bool := true
  /-- Whether there is a log. -/
  theLog : Bool := true
  lookupDurable : Option ℤ := none
  walAdmit : KeeperWal.WalAdmit := .Ok
  unconfirmedByteCount : ℕ := 0
  durableCapBytes : ℕ := 0
  overCap : Bool := false
  hasStoryIngestionHandle : Bool := true
  ensureStoryPipeline : ℤ := CL_SUCCESS
  /-- The status, and `wrote`. -/
  appendDurable : ℤ × Bool := (CL_SUCCESS, true)

/-- The check of the cap of what the grapher has not confirmed. -/
def KeeperView.refusedByCap (view : KeeperView) : Bool :=
  let durableResumeBytes := view.durableCapBytes / 4 * 3
  view.durableCapBytes < view.unconfirmedByteCount ||
    view.overCap && durableResumeBytes < view.unconfirmedByteCount

/-- The answer before `appendDurable`, if there is one. -/
def KeeperView.refusal (storyIdOf : Bytes → Bytes → StoryId) (m : DurableMessage)
    (view : KeeperView) : Option ℤ :=
  if !view.writeGateOpen then some CL_ERR_DURABILITY_UNAVAILABLE
  else if !view.theLog then some CL_ERR_DURABILITY_UNAVAILABLE
  else if m.event.storyId ≠ storyIdOf m.chronicle m.story then some CL_ERR_INVALID_ARG
  else
    match view.lookupDurable with
    | some earlier => some earlier
    | none =>
      if m.event.logRecord.isEmpty then some CL_ERR_INVALID_ARG
      else
        match view.walAdmit with
        | .Unavailable => some CL_ERR_DURABILITY_UNAVAILABLE
        | .Full => some CL_ERR_DURABILITY_FULL
        | .Ok =>
          if view.refusedByCap then some CL_ERR_DURABILITY_FULL
          else if !view.hasStoryIngestionHandle && view.ensureStoryPipeline ≠ CL_SUCCESS then
            some CL_ERR_DURABILITY_UNAVAILABLE
          else none

/-- `record_event_durable` and `KeeperDurableWriter::write`: the keeper's code. -/
def recordEventDurable (storyIdOf : Bytes → Bytes → StoryId) (m : DurableMessage)
    (view : KeeperView) : ℤ :=
  (view.refusal storyIdOf m).getD view.appendDurable.1

/-- The event and the names fit into records of the log. -/
def DurableMessage.fits (m : DurableMessage) : Bool :=
  (Wal.encodeEvent m.event []).isSome &&
    (Wal.encodeNames ⟨m.event.storyId, m.chronicle, m.story⟩).isSome

/-- What the interface of the log promises, where the event is `stored` there already or not
and this call's record is `synced` or not: a lookup answers success for a stored event only,
and else the result of an attempt that failed; an append that answers success leaves the event
stored, one that answers that the log is unavailable leaves no record of its own, and only an
event that does not fit is invalid. -/
def KeeperView.truthful (fits stored synced : Bool) (view : KeeperView) : Bool :=
  (view.lookupDurable.all fun status => status = CL_SUCCESS && stored ||
    status = CL_ERR_DURABILITY_UNAVAILABLE || status = CL_ERR_DURABILITY_UNKNOWN) &&
  (view.appendDurable.1 = CL_SUCCESS && (stored || synced) ||
    view.appendDurable.1 = CL_ERR_DURABILITY_UNAVAILABLE && !synced ||
    view.appendDurable.1 = CL_ERR_DURABILITY_UNKNOWN ||
    view.appendDurable.1 = CL_ERR_INVALID_ARG && !fits) &&
  (fits || !synced)

/-- An event that some keeper may store: the others are refused everywhere. -/
def DurableMessage.Storable (storyIdOf : Bytes → Bytes → StoryId) (m : DurableMessage) : Prop :=
  m.event.storyId = storyIdOf m.chronicle m.story ∧ m.event.logRecord ≠ [] ∧ m.fits = true

/-! ### The client -/

/-- How the remote call of an attempt ends: `noMatch` is `HG_NO_MATCH`. -/
inductive SendResult where
  | answer (keeper_code : ℤ)
  | timeout
  | noMatch
  | failure
  deriving DecidableEq, Repr

/-- `send_durable_event_msg`; `keeperIsAlive` is what the probe finds, if it is made. -/
def sendDurableEventMsg (answeredDurable keeperIsAlive : Bool) : SendResult → DurableSendOutcome
  | .answer keeper_code => .Answered keeper_code
  | .timeout => .TimedOut
  | .noMatch => if !answeredDurable && keeperIsAlive then .NotRegistered else .TransportError
  | .failure => .TransportError

/-- Where a call of `log_event` stands. -/
inductive WriteStage where
  | called
  | attempting (attempt : UInt32) (may_be_stored : Bool)
  | awaiting (attempt : UInt32) (may_be_stored : Bool)
  | returned (code : ℤ) (event_time : ℕ)
  deriving DecidableEq

/-- What became of a request: its keeper may still run it, has run it, or has no such call. -/
inductive RequestState where
  | inFlight
  | ran (keeper_code : ℤ)
  | refused
  deriving DecidableEq

/-- A durable write and its requests, the latest first. -/
structure DurableWriteState where
  stage : WriteStage := .called
  requests : List (Send × RequestState) := []
  answeredDurable : KeeperRecordingClient → Bool := fun _ => false
  /-- The keepers whose logs have held the event on disk. -/
  stored : KeeperRecordingClient → Bool := fun _ => false

def DurableWriteState.finish (s : DurableWriteState) (result : ℤ × ℕ) : DurableWriteState :=
  { s with stage := .returned result.1 result.2 }

/-- What can happen. -/
inductive DurableLabel where
  /-- The checks of `log_event`, with the keepers of the handle. -/
  | check (storyKeepers : List KeeperPointer)
  /-- The start of a round of the loop, with the keepers of the handle. -/
  | attempt (storyKeepers : List KeeperPointer)
  /-- A request is run by its keeper, and its record is synced or not. -/
  | run (i : ℕ) (view : KeeperView) (synced : Bool)
  /-- The remote call of the attempt ends. -/
  | outcome (result : SendResult) (keeperIsAlive : Bool)

/-- A keeper's answer is the code it has run the request with, and a keeper that has no such
call has not run it. -/
def SendResult.agrees : SendResult → RequestState → Bool
  | .answer keeper_code, request => request = .ran keeper_code
  | .noMatch, request => request = .inFlight
  | .timeout, _ => true
  | .failure, _ => true

/-- What becomes of the request when the remote call ends. -/
def SendResult.after : SendResult → RequestState → RequestState
  | .noMatch, _ => .refused
  | _, request => request

def SendResult.isAnswer : SendResult → Bool
  | .answer _ => true
  | _ => false

/-- The state after the remote call of an attempt. -/
def DurableWriteState.heard (s : DurableWriteState) (send : Send) (request : RequestState)
    (earlier : List (Send × RequestState)) (result : SendResult) : DurableWriteState :=
  { s with
    requests := (send, result.after request) :: earlier
    answeredDurable := Function.update s.answeredDurable send.keeper
      (s.answeredDurable send.keeper || result.isAnswer) }

/-- The state after a keeper has run a request. -/
def DurableWriteState.ranAt (storyIdOf : Bytes → Bytes → StoryId) (m : DurableMessage)
    (s : DurableWriteState) (i : ℕ) (send : Send) (view : KeeperView) (synced : Bool) :
    DurableWriteState :=
  { s with
    requests := s.requests.set i (send, .ran (recordEventDurable storyIdOf m view))
    stored := Function.update s.stored send.keeper
      (s.stored send.keeper || (view.refusal storyIdOf m).isNone && synced) }

/-- One step of a durable write. -/
def durableStep (storyIdOf : Bytes → Bytes → StoryId) (options : LogEventOptions)
    (m : DurableMessage) (s : DurableWriteState) : DurableLabel → Option DurableWriteState
  | .check storyKeepers =>
    if s.stage = .called then
      if !options.valid m.event then some (s.finish (CL_ERR_INVALID_ARG, 0))
      else if storyKeepers.isEmpty then some (s.finish (CL_ERR_NO_KEEPERS, 0))
      else if options.durability = Durability.Durable then
        some { s with stage := .attempting 1 false }
      else none
    else none
  | .attempt storyKeepers =>
    match s.stage with
    | .attempting attempt may_be_stored =>
      if attempt ≤ options.attempts then
        if storyKeepers.isEmpty then some (s.finish (afterAttempts m.event may_be_stored))
        else
          match chooseKeeper storyKeepers m.event.time with
          | .error _ => none
          | .ok none => some (s.finish (afterAttempts m.event may_be_stored))
          | .ok (some keeper) =>
            some { s with
              stage := .awaiting attempt may_be_stored
              requests := (⟨storyKeepers, keeper, m.event⟩, .inFlight) :: s.requests }
      else some (s.finish (afterAttempts m.event may_be_stored))
    | _ => none
  | .run i view synced =>
    match s.requests[i]? with
    | some (send, .inFlight) =>
      if view.truthful m.fits (s.stored send.keeper) synced then
        some (s.ranAt storyIdOf m i send view synced)
      else none
    | _ => none
  | .outcome result keeperIsAlive =>
    match s.stage, s.requests with
    | .awaiting attempt may_be_stored, (send, request) :: earlier =>
      if result.agrees request then
        let heard := s.heard send request earlier result
        match sendDurableEventMsg (s.answeredDurable send.keeper) keeperIsAlive result with
        | .Answered keeper_code => some (heard.finish (onAnswer m.event may_be_stored keeper_code))
        | .NotRegistered => some (heard.finish (onNotRegistered m.event may_be_stored))
        | .TimedOut | .TransportError => some { heard with stage := .attempting (attempt + 1) true }
      else none
    | _, _ => none

/-- **A durable write**, from a state in which no keeper has stored the event. -/
def durableWrite (storyIdOf : Bytes → Bytes → StoryId) (options : LogEventOptions)
    (m : DurableMessage) : Transition.System DurableWriteState DurableLabel where
  Initial s := s.stage = .called ∧ s.requests = [] ∧ ∀ keeper, s.stored keeper = false
  step := durableStep storyIdOf options m

/-! ### What the caller may conclude -/

/-- The codes that say that nothing was stored. -/
def SaysNothingStored (code : ℤ) : Prop :=
  code = CL_ERR_DURABILITY_UNAVAILABLE ∨ code = CL_ERR_DURABILITY_FULL ∨
    code = CL_ERR_NO_KEEPERS ∨ code = CL_ERR_INVALID_ARG

/-- The codes that come with a time. -/
def ComesWithTime (code : ℤ) : Prop :=
  code = CL_SUCCESS ∨ code = CL_ERR_DURABILITY_UNKNOWN

instance (code : ℤ) : Decidable (SaysNothingStored code) :=
  inferInstanceAs (Decidable (_ ∨ _ ∨ _ ∨ _))

instance (code : ℤ) : Decidable (ComesWithTime code) := inferInstanceAs (Decidable (_ ∨ _))

/-- Success is returned when a keeper has stored the event, a code that says that nothing was
stored when none has and none will, and a time just with the codes that come with one; every
request carries the event, and there are no more than the options say. -/
structure Sound (options : LogEventOptions) (m : DurableMessage) (s : DurableWriteState) :
    Prop where
  success : ∀ event_time, s.stage = .returned CL_SUCCESS event_time →
    ∃ keeper, s.stored keeper = true
  nothing : ∀ code event_time, s.stage = .returned code event_time → SaysNothingStored code →
    ∀ keeper, s.stored keeper = false
  time : ∀ code event_time, s.stage = .returned code event_time →
    (event_time ≠ 0 ↔ ComesWithTime code)
  identity : ∀ request ∈ s.requests, request.1.event = m.event
  attempts : s.requests.length ≤ options.attempts.toNat

/-! ### What a keeper answers -/

section

variable {storyIdOf : Bytes → Bytes → StoryId} {m : DurableMessage} {view : KeeperView}
  {stored synced : Bool}

/-- What the codes of a keeper say of the event. -/
structure AnswersRight (storyIdOf : Bytes → Bytes → StoryId) (m : DurableMessage)
    (stored storedAfter : Bool) (keeper_code : ℤ) : Prop where
  success : keeper_code = CL_SUCCESS → storedAfter = true
  storing : storedAfter = true → stored = true ∨
    m.Storable storyIdOf ∧ ComesWithTime keeper_code
  invalid : keeper_code = CL_ERR_INVALID_ARG → ¬m.Storable storyIdOf
  keepers : keeper_code ≠ CL_ERR_NO_KEEPERS

/-- A refusal stores nothing. -/
theorem answersRight_of_refused {keeper_code : ℤ} (hsuccess : keeper_code ≠ CL_SUCCESS)
    (hinvalid : keeper_code = CL_ERR_INVALID_ARG → ¬m.Storable storyIdOf)
    (hkeepers : keeper_code ≠ CL_ERR_NO_KEEPERS) :
    AnswersRight storyIdOf m stored stored keeper_code :=
  ⟨fun h => absurd h hsuccess, Or.inl, hinvalid, hkeepers⟩

/-- What a lookup answers. -/
theorem answersRight_of_lookup (htruthful : view.truthful m.fits stored synced = true)
    {earlier : ℤ} (hearlier : view.lookupDurable = some earlier) :
    AnswersRight storyIdOf m stored stored earlier := by
  simp only [KeeperView.truthful, hearlier, Option.all_some, Bool.and_eq_true, Bool.or_eq_true,
    decide_eq_true_eq] at htruthful
  obtain ⟨⟨hlookup, -⟩, -⟩ := htruthful
  rcases hlookup with (⟨rfl, hstored⟩ | rfl) | rfl
  · exact ⟨fun _ => hstored, Or.inl, fun h => absurd h (by decide), by decide⟩
  · exact answersRight_of_refused (by decide) (fun h => absurd h (by decide)) (by decide)
  · exact answersRight_of_refused (by decide) (fun h => absurd h (by decide)) (by decide)

/-- What an append answers. -/
theorem answersRight_of_append (htruthful : view.truthful m.fits stored synced = true)
    (hnamed : m.event.storyId = storyIdOf m.chronicle m.story) (hrecord : m.event.logRecord ≠ []) :
    AnswersRight storyIdOf m stored (stored || synced) view.appendDurable.1 := by
  simp only [KeeperView.truthful, Bool.and_eq_true, Bool.or_eq_true, decide_eq_true_eq,
    Bool.not_eq_true'] at htruthful
  obtain ⟨⟨-, happend⟩, hfits⟩ := htruthful
  have hstorable : synced = true → m.Storable storyIdOf := fun hsynced =>
    ⟨hnamed, hrecord, hfits.resolve_right (by rw [hsynced]; decide)⟩
  rcases happend with ((⟨hcode, h⟩ | ⟨hcode, rfl⟩) | hcode) | ⟨hcode, h⟩
  · rw [hcode]
    refine ⟨fun _ => Bool.or_eq_true_iff.mpr h, fun hafter => ?_,
      fun h => absurd h (by decide), by decide⟩
    exact (Bool.or_eq_true_iff.mp hafter).imp_right fun hsynced => ⟨hstorable hsynced, Or.inl rfl⟩
  · rw [hcode, Bool.or_false]
    exact answersRight_of_refused (by decide) (fun h => absurd h (by decide)) (by decide)
  · rw [hcode]
    refine ⟨fun h => absurd h (by decide), fun hafter => ?_, fun h => absurd h (by decide),
      by decide⟩
    exact (Bool.or_eq_true_iff.mp hafter).imp_right fun hsynced => ⟨hstorable hsynced, Or.inr rfl⟩
  · -- an event that does not fit has no record of its own
    have hsynced : synced = false := hfits.resolve_left (by rw [h]; decide)
    rw [hcode, hsynced, Bool.or_false]
    refine answersRight_of_refused (by decide) (fun _ hstorable => ?_) (by decide)
    exact absurd hstorable.2.2 (by rw [h]; decide)

/-- Where a keeper refuses the event, and where it appends it. -/
theorem refusal_cases (view : KeeperView) :
    view.refusal storyIdOf m = some CL_ERR_DURABILITY_UNAVAILABLE ∨
      view.refusal storyIdOf m = some CL_ERR_DURABILITY_FULL ∨
      (view.refusal storyIdOf m = some CL_ERR_INVALID_ARG ∧ ¬m.Storable storyIdOf) ∨
      (∃ earlier, view.lookupDurable = some earlier ∧
        view.refusal storyIdOf m = some earlier) ∨
      (view.refusal storyIdOf m = none ∧ m.event.storyId = storyIdOf m.chronicle m.story ∧
        m.event.logRecord ≠ []) := by
  unfold KeeperView.refusal
  split
  · exact Or.inl rfl
  split
  · exact Or.inl rfl
  split
  · next hnamed => exact Or.inr (Or.inr (Or.inl ⟨rfl, fun h => hnamed h.1⟩))
  next hnamed =>
  cases hearlier : view.lookupDurable with
  | some earlier => exact Or.inr (Or.inr (Or.inr (Or.inl ⟨earlier, rfl, rfl⟩)))
  | none =>
    dsimp only
    split
    · next hempty =>
      exact Or.inr (Or.inr (Or.inl ⟨rfl, fun h => h.2.1 (List.isEmpty_iff.mp hempty)⟩))
    next hrecord =>
    cases view.walAdmit with
    | Unavailable => exact Or.inl rfl
    | Full => exact Or.inr (Or.inl rfl)
    | Ok =>
      dsimp only
      split
      · exact Or.inr (Or.inl rfl)
      split
      · exact Or.inl rfl
      · refine Or.inr (Or.inr (Or.inr (Or.inr ⟨rfl, not_ne_iff.mp hnamed, fun hnil => ?_⟩)))
        exact hrecord (List.isEmpty_iff.mpr hnil)

/-- **What a keeper's code says of the event.** -/
theorem answersRight_recordEventDurable (htruthful : view.truthful m.fits stored synced = true) :
    AnswersRight storyIdOf m stored (stored || (view.refusal storyIdOf m).isNone && synced)
      (recordEventDurable storyIdOf m view) := by
  rw [recordEventDurable]
  rcases @refusal_cases storyIdOf m view with
    h | h | ⟨h, hstorable⟩ | ⟨earlier, hearlier, h⟩ | ⟨h, hnamed, hrecord⟩
  all_goals simp only [h, Option.getD_some, Option.getD_none, Option.isNone_some,
    Option.isNone_none, Bool.false_and, Bool.true_and, Bool.or_false]
  · exact answersRight_of_refused (by decide) (fun h => absurd h (by decide)) (by decide)
  · exact answersRight_of_refused (by decide) (fun h => absurd h (by decide)) (by decide)
  · exact answersRight_of_refused (by decide) (fun _ => hstorable) (by decide)
  · exact answersRight_of_lookup htruthful hearlier
  · exact answersRight_of_append htruthful hnamed hrecord

end

/-! ### What holds in every state -/

/-- The request has ended, and its keeper did not store the event for it. -/
def RequestState.StoredNothing : RequestState → Prop
  | .inFlight => False
  | .ran keeper_code => ¬ComesWithTime keeper_code
  | .refused => True

/-- The call of a durable write passes the checks of its arguments. -/
def LogEventOptions.Begins (options : LogEventOptions) (event : LogEvent) : Prop :=
  options.valid event = true ∧ options.durability = Durability.Durable

/-- The number of attempts is not the greatest of its type, and the clock does not read zero. -/
def LogEventOptions.Bounded (options : LogEventOptions) (event : LogEvent) : Prop :=
  options.attempts.toNat < 2 ^ 32 - 1 ∧ event.time ≠ 0

/-- What the stage of the call says of its requests. -/
def StageOk (storyIdOf : Bytes → Bytes → StoryId) (options : LogEventOptions) (m : DurableMessage)
    (s : DurableWriteState) : WriteStage → Prop
  | .called => s.requests = []
  | .attempting attempt may_be_stored =>
    options.Begins m.event ∧ attempt.toNat = s.requests.length + 1 ∧
      s.requests.length ≤ options.attempts.toNat ∧ (may_be_stored = false → s.requests = [])
  | .awaiting attempt may_be_stored =>
    options.Begins m.event ∧ attempt.toNat = s.requests.length ∧
      s.requests.length ≤ options.attempts.toNat ∧ (may_be_stored = false → s.requests.length = 1)
  | .returned code event_time =>
    s.requests.length ≤ options.attempts.toNat ∧
      (code = CL_SUCCESS → ∃ keeper, s.stored keeper = true) ∧
      (SaysNothingStored code →
        ¬m.Storable storyIdOf ∨ ∀ request ∈ s.requests, request.2.StoredNothing) ∧
      (event_time ≠ 0 ↔ ComesWithTime code)

/-- **The invariant**: a keeper that has stored the event has run a request with a code that
says so, and the codes are right. -/
structure Kept (storyIdOf : Bytes → Bytes → StoryId) (options : LogEventOptions)
    (m : DurableMessage) (s : DurableWriteState) : Prop where
  stage : StageOk storyIdOf options m s s.stage
  stored : ∀ keeper, s.stored keeper = true → m.Storable storyIdOf ∧
    ∃ request ∈ s.requests, request.1.keeper = keeper ∧
      ∃ keeper_code, request.2 = .ran keeper_code ∧ ComesWithTime keeper_code
  ran : ∀ request ∈ s.requests, ∀ keeper_code, request.2 = .ran keeper_code →
    (keeper_code = CL_SUCCESS → s.stored request.1.keeper = true) ∧
      (keeper_code = CL_ERR_INVALID_ARG → ¬m.Storable storyIdOf) ∧
      keeper_code ≠ CL_ERR_NO_KEEPERS
  identity : ∀ request ∈ s.requests, request.1.event = m.event

section

variable {storyIdOf : Bytes → Bytes → StoryId} {options : LogEventOptions} {m : DurableMessage}
  {s s' : DurableWriteState} {may_be_stored : Bool}

theorem Kept.sound (h : Kept storyIdOf options m s) : Sound options m s where
  success event_time hstage := by
    have hreturned := h.stage
    rw [hstage] at hreturned
    exact hreturned.2.1 rfl
  nothing code event_time hstage hcode keeper := by
    have hreturned := h.stage
    rw [hstage] at hreturned
    refine Bool.eq_false_iff.mpr fun hstored => ?_
    obtain ⟨hstorable, request, hrequest, -, keeper_code, hran, htime⟩ := h.stored keeper hstored
    rcases hreturned.2.2.1 hcode with hnot | hnothing
    · exact hnot hstorable
    · have hended := hnothing request hrequest
      rw [hran] at hended
      exact hended htime
  time code event_time hstage := by
    have hreturned := h.stage
    rw [hstage] at hreturned
    exact hreturned.2.2.2
  identity := h.identity
  attempts := by
    have hstage := h.stage
    cases hs : s.stage with
    | called =>
      rw [hs] at hstage
      rw [hstage]
      exact Nat.zero_le _
    | attempting attempt may_be_stored =>
      rw [hs] at hstage
      exact hstage.2.2.1
    | awaiting attempt may_be_stored =>
      rw [hs] at hstage
      exact hstage.2.2.1
    | returned code event_time =>
      rw [hs] at hstage
      exact hstage.1

/-- Only the stage changes. -/
theorem Kept.goTo (h : Kept storyIdOf options m s) {stage : WriteStage}
    (hstage : StageOk storyIdOf options m s stage) :
    Kept storyIdOf options m { s with stage := stage } :=
  ⟨hstage, h.stored, h.ran, h.identity⟩

/-- The caller is told that the event may be stored. -/
theorem stageOk_unknown (htime : m.event.time ≠ 0)
    (hlength : s.requests.length ≤ options.attempts.toNat) :
    StageOk storyIdOf options m s (.returned CL_ERR_DURABILITY_UNKNOWN m.event.time) :=
  ⟨hlength, fun h => absurd h (by decide), fun h => absurd h (by decide),
    iff_of_true htime (by decide)⟩

/-- The caller gets a code without a time. -/
theorem stageOk_of_nothing {code : ℤ} (hcode : ¬ComesWithTime code)
    (hlength : s.requests.length ≤ options.attempts.toNat)
    (hnothing : SaysNothingStored code →
      ¬m.Storable storyIdOf ∨ ∀ request ∈ s.requests, request.2.StoredNothing) :
    StageOk storyIdOf options m s (.returned code 0) :=
  ⟨hlength, fun h => absurd (Or.inl h) hcode, hnothing, iff_of_false (fun h => h rfl) hcode⟩

/-- The call ends after its loop. -/
theorem Kept.finish_afterAttempts (h : Kept storyIdOf options m s) (htime : m.event.time ≠ 0)
    (hlength : s.requests.length ≤ options.attempts.toNat)
    (hnone : may_be_stored = false → s.requests = []) :
    Kept storyIdOf options m (s.finish (afterAttempts m.event may_be_stored)) := by
  cases may_be_stored with
  | true => exact h.goTo (stageOk_unknown htime hlength)
  | false =>
    have hcode : ¬ComesWithTime CL_ERR_NO_KEEPERS := by decide
    refine h.goTo (stageOk_of_nothing hcode hlength fun _ => Or.inr fun request hmem => ?_)
    rw [hnone rfl] at hmem
    cases hmem

/-- **The checks of `log_event`.** -/
theorem Kept.check (h : Kept storyIdOf options m s) {storyKeepers : List KeeperPointer}
    (hstep : durableStep storyIdOf options m s (.check storyKeepers) = some s') :
    Kept storyIdOf options m s' := by
  simp only [durableStep] at hstep
  split at hstep
  · next hcalled =>
    have hnone : s.requests = [] := by
      have hstage := h.stage
      rwa [hcalled] at hstage
    have hlength : s.requests.length ≤ options.attempts.toNat := by
      rw [hnone]
      exact Nat.zero_le _
    have hnothing : ∀ request ∈ s.requests, request.2.StoredNothing := by
      intro request hrequest
      rw [hnone] at hrequest
      cases hrequest
    split at hstep
    · cases hstep
      exact h.goTo (stageOk_of_nothing (by decide) hlength fun _ => Or.inr hnothing)
    next hvalid =>
    split at hstep
    · cases hstep
      exact h.goTo (stageOk_of_nothing (by decide) hlength fun _ => Or.inr hnothing)
    split at hstep
    · next hdurable =>
      cases hstep
      refine h.goTo ⟨⟨by simpa using hvalid, hdurable⟩, ?_, hlength, fun _ => hnone⟩
      rw [hnone]
      rfl
    · cases hstep
  · cases hstep

/-- **The start of a round.** -/
theorem Kept.attempt (h : Kept storyIdOf options m s)
    (hbounded : options.Begins m.event → options.Bounded m.event)
    {storyKeepers : List KeeperPointer}
    (hstep : durableStep storyIdOf options m s (.attempt storyKeepers) = some s') :
    Kept storyIdOf options m s' := by
  simp only [durableStep] at hstep
  split at hstep
  · next attempt may_be_stored hattempting =>
    obtain ⟨hbegins, hattempt, hlength, hnone⟩ : StageOk storyIdOf options m s
        (.attempting attempt may_be_stored) := hattempting ▸ h.stage
    have hfinish := @Kept.finish_afterAttempts storyIdOf options m s may_be_stored h
      (hbounded hbegins).2 hlength hnone
    split at hstep
    · next hmore =>
      split at hstep
      · cases hstep
        exact hfinish
      split at hstep
      · cases hstep
      · cases hstep
        exact hfinish
      · next keeper hchoice =>
        cases hstep
        have hle : attempt.toNat ≤ options.attempts.toNat := UInt32.le_iff_toNat_le.mp hmore
        refine ⟨⟨hbegins, ?_, ?_, fun hmay => ?_⟩, fun k hk => ?_,
          fun request hrequest keeper_code hran => ?_, fun request hrequest => ?_⟩
        · exact hattempt
        · simp only [List.length_cons]
          omega
        · simp only [List.length_cons, hnone hmay, List.length_nil]
        · obtain ⟨hstorable, request, hrequest, hkeeper⟩ := h.stored k hk
          exact ⟨hstorable, request, List.mem_cons_of_mem _ hrequest, hkeeper⟩
        · rcases List.mem_cons.mp hrequest with rfl | hrequest
          · cases hran
          · exact h.ran request hrequest keeper_code hran
        · rcases List.mem_cons.mp hrequest with rfl | hrequest
          · rfl
          · exact h.identity request hrequest
    · cases hstep
      exact hfinish
  · cases hstep

/-- Another entry stays in the list. -/
theorem mem_set_of_ne {α : Type*} {l : List α} {i : ℕ} {a b c : α} (ha : l[i]? = some a)
    (hc : c ∈ l) (hne : c ≠ a) : c ∈ l.set i b := by
  obtain ⟨j, hj⟩ := List.mem_iff_getElem?.mp hc
  have hij : i ≠ j := by
    rintro rfl
    exact hne (Option.some.inj (hj.symm.trans ha))
  exact List.mem_iff_getElem?.mpr ⟨j, (List.getElem?_set_ne hij).trans hj⟩

/-- **A keeper runs a request.** -/
theorem Kept.run (h : Kept storyIdOf options m s) {i : ℕ} {view : KeeperView} {synced : Bool}
    (hstep : durableStep storyIdOf options m s (.run i view synced) = some s') :
    Kept storyIdOf options m s' := by
  simp only [durableStep] at hstep
  split at hstep
  · next send hrequest =>
    split at hstep
    · next htruthful =>
      cases hstep
      have hright := @answersRight_recordEventDurable storyIdOf m view _ synced htruthful
      have hmem : (send, RequestState.inFlight) ∈ s.requests := List.mem_of_getElem? hrequest
      have hstored : ∀ keeper, s.stored keeper = true →
          (s.ranAt storyIdOf m i send view synced).stored keeper = true := by
        intro keeper hkeeper
        by_cases heq : keeper = send.keeper
        · subst heq
          simp only [DurableWriteState.ranAt, Function.update_self, hkeeper, Bool.true_or]
        · simpa only [DurableWriteState.ranAt, Function.update_of_ne heq] using hkeeper
      refine ⟨?_, fun keeper hkeeper => ?_, fun request hset keeper_code hran => ?_,
        fun request hset => ?_⟩
      · have hlength : (s.ranAt storyIdOf m i send view synced).requests.length =
            s.requests.length := List.length_set ..
        have hstage := h.stage
        change StageOk storyIdOf options m _ s.stage
        cases hs : s.stage with
        | called =>
          rw [hs] at hstage
          rw [hstage] at hmem
          cases hmem
        | attempting attempt may_be_stored =>
          rw [hs] at hstage
          obtain ⟨hbegins, hattempt, hle, hnone⟩ := hstage
          refine ⟨hbegins, by rw [hlength, hattempt], by rw [hlength]; exact hle, fun hmay => ?_⟩
          rw [hnone hmay] at hmem
          cases hmem
        | awaiting attempt may_be_stored =>
          rw [hs] at hstage
          simpa only [StageOk, hlength] using hstage
        | returned code event_time =>
          rw [hs] at hstage
          obtain ⟨hle, hsuccess, hnothing, htime⟩ := hstage
          refine ⟨by rw [hlength]; exact hle, fun hcode => ?_, fun hcode => ?_, htime⟩
          · obtain ⟨keeper, hkeeper⟩ := hsuccess hcode
            exact ⟨keeper, hstored keeper hkeeper⟩
          · -- a request that is still in flight cannot store the event
            refine Or.inl ((hnothing hcode).resolve_right fun hended => ?_)
            exact hended _ hmem
      · have hold : s.stored keeper = true → m.Storable storyIdOf ∧
            ∃ request ∈ (s.ranAt storyIdOf m i send view synced).requests,
              request.1.keeper = keeper ∧
              ∃ keeper_code, request.2 = .ran keeper_code ∧ ComesWithTime keeper_code := by
          intro hbefore
          obtain ⟨hstorable, request, hin, hkeeper, keeper_code, hran, htime⟩ :=
            h.stored keeper hbefore
          refine ⟨hstorable, request, mem_set_of_ne hrequest hin ?_, hkeeper, keeper_code, hran,
            htime⟩
          rintro rfl
          cases hran
        by_cases heq : keeper = send.keeper
        · subst heq
          simp only [DurableWriteState.ranAt, Function.update_self] at hkeeper
          rcases hright.storing hkeeper with hbefore | ⟨hstorable, hcode⟩
          · exact hold hbefore
          · have hlt : i < s.requests.length := (List.getElem?_eq_some_iff.mp hrequest).1
            exact ⟨hstorable, _, List.mem_set hlt _, rfl, _, rfl, hcode⟩
        · simp only [DurableWriteState.ranAt, Function.update_of_ne heq] at hkeeper
          exact hold hkeeper
      · rcases List.mem_or_eq_of_mem_set hset with hold | rfl
        · obtain ⟨hsuccess, hcodes⟩ := h.ran request hold keeper_code hran
          exact ⟨fun hcode => hstored _ (hsuccess hcode), hcodes⟩
        · cases hran
          refine ⟨fun hcode => ?_, hright.invalid, hright.keepers⟩
          simp only [DurableWriteState.ranAt, Function.update_self]
          exact hright.success hcode
      · rcases List.mem_or_eq_of_mem_set hset with hold | rfl
        · exact h.identity request hold
        · exact h.identity (send, .inFlight) hmem
    · cases hstep
  · cases hstep

/-- The state of an attempt's request when its remote call ends. -/
theorem Kept.heard (h : Kept storyIdOf options m s) {send : Send} {request : RequestState}
    {earlier : List (Send × RequestState)} {result : SendResult} {stage : WriteStage}
    (hrequests : s.requests = (send, request) :: earlier)
    (hagrees : result.agrees request = true)
    (hstage : StageOk storyIdOf options m (s.heard send request earlier result) stage) :
    Kept storyIdOf options m { s.heard send request earlier result with stage := stage } := by
  have hmem : (send, request) ∈ s.requests := hrequests ▸ List.mem_cons_self
  have hearlier : ∀ r ∈ earlier, r ∈ s.requests := fun r hr =>
    hrequests ▸ List.mem_cons_of_mem _ hr
  -- a request that its keeper has run keeps its code
  have hkeeps : ∀ keeper_code, request = .ran keeper_code → result.after request = request := by
    rintro keeper_code rfl
    cases result with
    | noMatch => cases hagrees
    | _ => rfl
  have hran : ∀ keeper_code, result.after request = .ran keeper_code →
      request = .ran keeper_code := by
    intro keeper_code hafter
    cases result with
    | noMatch => cases hafter
    | _ => exact hafter
  refine ⟨hstage, fun keeper hkeeper => ?_, fun r hr keeper_code hcode => ?_, fun r hr => ?_⟩
  · obtain ⟨hstorable, r, hr, hsent, keeper_code, hcode, htime⟩ := h.stored keeper hkeeper
    rw [hrequests] at hr
    rcases List.mem_cons.mp hr with rfl | hr
    · exact ⟨hstorable, _, List.mem_cons_self, hsent, keeper_code,
        (hkeeps _ hcode).trans hcode, htime⟩
    · exact ⟨hstorable, r, List.mem_cons_of_mem _ hr, hsent, keeper_code, hcode, htime⟩
  · rcases List.mem_cons.mp hr with rfl | hr
    · exact h.ran _ hmem keeper_code (hran _ hcode)
    · exact h.ran r (hearlier r hr) keeper_code hcode
  · rcases List.mem_cons.mp hr with rfl | hr
    · exact h.identity (send, request) hmem
    · exact h.identity r (hearlier r hr)

/-- The keeper's answer is passed on. -/
theorem Kept.stageOk_onAnswer (h : Kept storyIdOf options m s) (htime : m.event.time ≠ 0)
    {send : Send} {earlier : List (Send × RequestState)} {keeper_code : ℤ}
    (hrequests : s.requests = (send, .ran keeper_code) :: earlier)
    (hlength : s.requests.length ≤ options.attempts.toNat)
    (hone : may_be_stored = false → s.requests.length = 1) :
    StageOk storyIdOf options m s (.returned (onAnswer m.event may_be_stored keeper_code).1
      (onAnswer m.event may_be_stored keeper_code).2) := by
  obtain ⟨hsuccess, hinvalid, hkeepers⟩ :=
    h.ran (send, .ran keeper_code) (hrequests ▸ List.mem_cons_self) keeper_code rfl
  by_cases hdoubt : may_be_stored ∧ (keeper_code = CL_ERR_DURABILITY_UNAVAILABLE ∨
      keeper_code = CL_ERR_DURABILITY_FULL)
  · rw [onAnswer, if_pos hdoubt]
    exact stageOk_unknown htime hlength
  rw [onAnswer, if_neg hdoubt]
  by_cases hcode : keeper_code = CL_SUCCESS ∨ keeper_code = CL_ERR_DURABILITY_UNKNOWN
  · rw [if_pos hcode]
    refine ⟨hlength, fun heq => ⟨_, hsuccess heq⟩, fun hsays => ?_, iff_of_true htime hcode⟩
    have htold : ¬SaysNothingStored keeper_code := by
      rcases hcode with rfl | rfl <;> decide
    exact absurd hsays htold
  · rw [if_neg hcode]
    refine stageOk_of_nothing hcode hlength fun hsays => ?_
    -- a refusal is passed on by the only request
    have hrefused : (keeper_code = CL_ERR_DURABILITY_UNAVAILABLE ∨
        keeper_code = CL_ERR_DURABILITY_FULL) →
        ∀ request ∈ s.requests, request.2.StoredNothing := by
      intro heq request hrequest
      have hmay : may_be_stored = false := Bool.eq_false_iff.mpr fun hmay => hdoubt ⟨hmay, heq⟩
      have hlast := hone hmay
      rw [hrequests, List.length_cons, Nat.add_eq_right, List.length_eq_zero_iff] at hlast
      rw [hrequests, hlast, List.mem_singleton] at hrequest
      rw [hrequest]
      exact hcode
    rcases hsays with heq | heq | heq | heq
    · exact Or.inr (hrefused (Or.inl heq))
    · exact Or.inr (hrefused (Or.inr heq))
    · exact absurd heq hkeepers
    · exact Or.inl (hinvalid heq)

/-- The keeper has no such call. -/
theorem stageOk_onNotRegistered (htime : m.event.time ≠ 0)
    (hlength : s.requests.length ≤ options.attempts.toNat)
    (hnothing : may_be_stored = false → ∀ request ∈ s.requests, request.2.StoredNothing) :
    StageOk storyIdOf options m s (.returned (onNotRegistered m.event may_be_stored).1
      (onNotRegistered m.event may_be_stored).2) := by
  cases may_be_stored with
  | true => exact stageOk_unknown htime hlength
  | false =>
    have hcode : ¬ComesWithTime CL_ERR_DURABILITY_UNAVAILABLE := by decide
    exact stageOk_of_nothing hcode hlength fun _ => Or.inr (hnothing rfl)

/-- **The remote call of an attempt ends**: the number of the next attempt does not wrap. -/
theorem Kept.outcome (h : Kept storyIdOf options m s)
    (hbounded : options.Begins m.event → options.Bounded m.event)
    {result : SendResult} {keeperIsAlive : Bool}
    (hstep : durableStep storyIdOf options m s (.outcome result keeperIsAlive) = some s') :
    Kept storyIdOf options m s' := by
  simp only [durableStep] at hstep
  split at hstep
  · next attempt may_be_stored send request earlier hawaiting hrequests =>
    obtain ⟨hbegins, hattempt, hlength, hone⟩ : StageOk storyIdOf options m s
        (.awaiting attempt may_be_stored) := hawaiting ▸ h.stage
    obtain ⟨hattempts, htime⟩ := hbounded hbegins
    have hlength' : (s.heard send request earlier result).requests.length =
        s.requests.length := by
      rw [hrequests]
      rfl
    split at hstep
    · next hagrees =>
      split at hstep
      · next keeper_code houtcome =>
        cases hstep
        have hresult : result = .answer keeper_code := by
          cases result with
          | answer code => exact congrArg _ (DurableSendOutcome.Answered.inj houtcome)
          | noMatch =>
            simp only [sendDurableEventMsg] at houtcome
            split at houtcome <;> cases houtcome
          | _ => cases houtcome
        subst hresult
        have hran : request = .ran keeper_code := of_decide_eq_true hagrees
        subst hran
        refine h.heard hrequests hagrees ?_
        have hanswer := h.stageOk_onAnswer htime hrequests hlength hone
        simp only [StageOk, hrequests] at hanswer
        exact hanswer
      · next houtcome =>
        have hresult : result = .noMatch := by
          cases result with
          | noMatch => rfl
          | _ => cases houtcome
        subst hresult
        cases hstep
        refine h.heard hrequests hagrees (stageOk_onNotRegistered htime (hlength'.trans_le hlength)
          fun hmay r hr => ?_)
        have hlast := hone hmay
        rw [hrequests, List.length_cons, Nat.add_eq_right, List.length_eq_zero_iff] at hlast
        subst hlast
        rw [List.mem_singleton.mp hr]
        trivial
      all_goals
        cases hstep
        refine h.heard hrequests hagrees ⟨hbegins, ?_, hlength'.trans_le hlength,
          fun hmay => by cases hmay⟩
        rw [hlength', UInt32.toNat_add, hattempt]
        exact Nat.mod_eq_of_lt (by change s.requests.length + 1 < 2 ^ 32; omega)
    · cases hstep
  · cases hstep

/-- **One step.** -/
theorem Kept.step (h : Kept storyIdOf options m s)
    (hbounded : options.Begins m.event → options.Bounded m.event) {l : DurableLabel}
    (hstep : durableStep storyIdOf options m s l = some s') : Kept storyIdOf options m s' := by
  cases l with
  | check storyKeepers => exact h.check hstep
  | attempt storyKeepers => exact h.attempt hbounded hstep
  | run i view synced => exact h.run hstep
  | outcome result keeperIsAlive => exact h.outcome hbounded hstep

theorem kept_initial (h : (durableWrite storyIdOf options m).Initial s) :
    Kept storyIdOf options m s := by
  obtain ⟨hstage, hrequests, hstored⟩ := h
  have hnone : ∀ request, request ∉ s.requests := by
    intro request hrequest
    rw [hrequests] at hrequest
    cases hrequest
  refine ⟨?_, fun keeper hkeeper => ?_, fun request hrequest => absurd hrequest (hnone request),
    fun request hrequest => absurd hrequest (hnone request)⟩
  · rw [hstage]
    exact hrequests
  · rw [hstored keeper] at hkeeper
    cases hkeeper

end

/-! ### The end of the loop -/

section

variable {storyIdOf : Bytes → Bytes → StoryId} {options : LogEventOptions} {m : DurableMessage}
  {s : DurableWriteState} {keeper : KeeperRecordingClient}

theorem chooseKeeper_singleton (pointer : KeeperPointer) (chrono_tick : ℕ) :
    chooseKeeper [pointer] chrono_tick = .ok pointer := by
  obtain ⟨keeper, hkeeper, hchoice⟩ := exists_chooseKeeper (List.cons_ne_nil pointer []) chrono_tick
  rw [hchoice, List.mem_singleton.mp hkeeper]

/-- An attempt at the only keeper that gets no answer. -/
def unanswered (keeper : KeeperRecordingClient) : List DurableLabel :=
  [.attempt [some keeper], .outcome .timeout false]

/-- The state after it. -/
theorem run_unanswered {attempt : UInt32} {may_be_stored : Bool}
    (hstage : s.stage = .attempting attempt may_be_stored) (hmore : attempt ≤ options.attempts) :
    ∃ s', (durableWrite storyIdOf options m).run s (unanswered keeper) = some s' ∧
      s'.stage = .attempting (attempt + 1) true ∧
      s'.requests.length = s.requests.length + 1 := by
  have hsent : durableStep storyIdOf options m s (.attempt [some keeper]) = some { s with
      stage := .awaiting attempt may_be_stored
      requests := (⟨[some keeper], keeper, m.event⟩, .inFlight) :: s.requests } := by
    simp [durableStep, hstage, hmore, chooseKeeper_singleton]
  refine ⟨_, Transition.System.run_cons_eq_some.mpr ⟨_, hsent,
    Transition.System.run_cons_eq_some.mpr ⟨_, rfl, rfl⟩⟩, rfl, rfl⟩

/-- The greatest number of attempts is never passed. -/
theorem run_unanswered_replicate (hattempts : options.attempts.toNat = 2 ^ 32 - 1) (n : ℕ)
    {attempt : UInt32} {may_be_stored : Bool}
    (hstage : s.stage = .attempting attempt may_be_stored) :
    ∃ s', (durableWrite storyIdOf options m).run s
        (List.replicate n (unanswered keeper)).flatten = some s' ∧
      s'.requests.length = s.requests.length + n := by
  induction n generalizing s attempt may_be_stored with
  | zero => exact ⟨s, rfl, rfl⟩
  | succ n ih =>
    have hmore : attempt ≤ options.attempts := by
      have hlt := attempt.toNat_lt
      rw [UInt32.le_iff_toNat_le]
      omega
    obtain ⟨s₁, hrun, hstage', hlength⟩ :=
      @run_unanswered storyIdOf options m s keeper attempt may_be_stored hstage hmore
    obtain ⟨s₂, hrest, hlength'⟩ := ih hstage'
    refine ⟨s₂, ?_, by omega⟩
    rw [List.replicate_succ, List.flatten_cons, Transition.System.run_append, hrun]
    exact hrest

/-- The checks of a durable write with a keeper. -/
theorem run_check (keeper : KeeperRecordingClient) (hbegins : options.Begins m.event) :
    (durableWrite storyIdOf options m).run {} [.check [some keeper]] =
      some { stage := .attempting 1 false } := by
  simp [Transition.System.run, durableWrite, durableStep, hbegins.1, hbegins.2]

theorem initial_empty : (durableWrite storyIdOf options m).Initial {} :=
  ⟨rfl, rfl, fun _ => rfl⟩

/-- The labels lead on from the checks of a write with a keeper. -/
theorem reachable_of_begins (hbegins : options.Begins m.event) {labels : List DurableLabel}
    (hrun : (durableWrite storyIdOf options m).run { stage := .attempting 1 false } labels =
      some s) : (durableWrite storyIdOf options m).Reachable s := by
  refine ⟨{}, [.check [some ⟨harbour⟩]] ++ labels, initial_empty, ?_⟩
  rw [Transition.System.run_append, run_check _ hbegins]
  exact hrun

/-- With the greatest number of attempts there are more requests than attempts. -/
theorem exists_more_requests (keeper : KeeperRecordingClient) (hbegins : options.Begins m.event)
    (hattempts : options.attempts.toNat = 2 ^ 32 - 1) :
    ∃ s, (durableWrite storyIdOf options m).Reachable s ∧
      options.attempts.toNat < s.requests.length := by
  obtain ⟨s, hrun, hlength⟩ := @run_unanswered_replicate storyIdOf options m
    { stage := .attempting 1 false } keeper hattempts (2 ^ 32) 1 false rfl
  refine ⟨s, reachable_of_begins hbegins hrun, ?_⟩
  rw [hlength, hattempts, List.length_nil]
  decide

/-- A write at the time zero may return that the event may be stored, without a time. -/
theorem exists_without_time (keeper : KeeperRecordingClient) (hbegins : options.Begins m.event)
    (htime : m.event.time = 0) :
    ∃ s, (durableWrite storyIdOf options m).Reachable s ∧
      s.stage = .returned CL_ERR_DURABILITY_UNKNOWN 0 := by
  have hmore : (1 : UInt32) ≤ options.attempts := by
    have hvalid := hbegins.1
    have hsome : options.attempts ≠ 0 := by
      rintro hzero
      simp [LogEventOptions.valid, hbegins.2, hzero] at hvalid
    have hpos : options.attempts.toNat ≠ 0 := fun h => hsome (UInt32.toNat_inj.mp h)
    rw [UInt32.le_iff_toNat_le]
    change 1 ≤ options.attempts.toNat
    omega
  obtain ⟨s, hrun, hstage, -⟩ := @run_unanswered storyIdOf options m
    { stage := .attempting 1 false } keeper 1 false rfl hmore
  -- the next round finds no keeper in the handle
  have hlast : (durableWrite storyIdOf options m).step s (.attempt []) =
      some (s.finish (afterAttempts m.event true)) := by
    simp [durableWrite, durableStep, hstage]
  refine ⟨_, (reachable_of_begins hbegins hrun).step hlast, ?_⟩
  rw [DurableWriteState.finish, afterAttempts, if_pos rfl, htime]

/-- **Every answer of a durable write is sound unless the number of attempts is the greatest of
its type or the clock reads zero.** -/
theorem durable_answers_sound_iff (storyIdOf : Bytes → Bytes → StoryId) (options : LogEventOptions)
    (m : DurableMessage) :
    (∀ s, (durableWrite storyIdOf options m).Reachable s → Sound options m s) ↔
      (options.Begins m.event → options.Bounded m.event) := by
  constructor
  · intro h hbegins
    constructor
    · by_contra hattempts
      have hlt := options.attempts.toNat_lt
      obtain ⟨s, hs, hmore⟩ := @exists_more_requests storyIdOf options m ⟨harbour⟩ hbegins
        (by omega)
      have hfew := (h s hs).attempts
      omega
    · intro htime
      obtain ⟨s, hs, hstage⟩ := @exists_without_time storyIdOf options m ⟨harbour⟩ hbegins htime
      exact ((h s hs).time _ _ hstage).mpr (Or.inr rfl) rfl
  · intro hbounded s hs
    exact (hs.induction (fun _ h => kept_initial h) fun _ _ _ h hstep =>
      h.step hbounded hstep).sound

end

/-- A durable write with as many attempts as the type has. -/
def endless : LogEventOptions :=
  { durability := Durability.Durable, timeout_ms := 1, attempts := 4294967295 }

/-- A message of one byte. -/
def shortMessage : DurableMessage := ⟨[], [], ⟨7, 10, 1, 0, [65]⟩⟩

/-- **With the greatest number of attempts the loop does not end**: a keeper that never answers
gets more requests than the options say. -/
theorem attempts_wrap :
    ∃ s, (durableWrite (fun _ _ => 7) endless shortMessage).Reachable s ∧
      ¬Sound endless shortMessage s := by
  obtain ⟨s, hs, hmore⟩ := @exists_more_requests (fun _ _ => 7) endless shortMessage ⟨harbour⟩
    ⟨by decide, rfl⟩ (by decide)
  exact ⟨s, hs, fun h => absurd h.attempts (by omega)⟩

/-! ### The loop -/

section

variable {storyIdOf : Bytes → Bytes → StoryId} {options : LogEventOptions} {m : DurableMessage}
  {s s' : DurableWriteState}

/-- What was sent, the latest first, stands before what is sent from now on. -/
def sentBefore (sends : List Send) (write : DurableWrite) : DurableWrite :=
  { write with sends := sends.reverse ++ write.sends }

/-- The loop of `log_durable_event` comes to an attempt, with some sends behind it. -/
def LoopReaches (options : LogEventOptions) (m : DurableMessage) (sends : List Send)
    (attempt : UInt32) (may_be_stored : Bool) : Prop :=
  options.Begins m.event ∧ ∃ rounds, ∀ rest,
    logDurableEvent options m.event (rounds ++ rest) 1 false =
      (logDurableEvent options m.event rest attempt may_be_stored).map (sentBefore sends)

/-- `log_event` comes to where the call stands. -/
def Reaches (options : LogEventOptions) (m : DurableMessage) (sends : List Send) :
    WriteStage → Prop
  | .called => sends = []
  | .attempting attempt may_be_stored => LoopReaches options m sends attempt may_be_stored
  | .awaiting attempt may_be_stored => attempt ≤ options.attempts ∧
    ∃ storyKeepers keeper earlier, sends = ⟨storyKeepers, keeper, m.event⟩ :: earlier ∧
      storyKeepers ≠ [] ∧ chooseKeeper storyKeepers m.event.time = .ok (some keeper) ∧
      LoopReaches options m earlier attempt may_be_stored
  | .returned code event_time =>
    ∃ storyKeepers rounds, ∀ send_event_msg,
      logEventWith storyKeepers options m.event send_event_msg rounds =
        .ok ⟨sends.reverse, some (code, event_time)⟩

/-- A write that gets to its loop returns what the loop returns. -/
theorem LoopReaches.returned {sends : List Send} {attempt : UInt32} {may_be_stored : Bool}
    (h : LoopReaches options m sends attempt may_be_stored) {rest : List Round}
    {last : List Send} {code : ℤ} {event_time : ℕ}
    (hrest : logDurableEvent options m.event rest attempt may_be_stored =
      .ok ⟨last, some (code, event_time)⟩) :
    Reaches options m (last.reverse ++ sends) (.returned code event_time) := by
  obtain ⟨⟨hvalid, hdurable⟩, rounds, hrounds⟩ := h
  refine ⟨[none], rounds ++ rest, fun send_event_msg => ?_⟩
  rw [logEventWith, hvalid, hdurable, if_neg (by simp), if_neg (by simp), if_pos rfl, hrounds,
    hrest]
  simp [Except.map, sentBefore]

/-- A round of the loop at a keeper. -/
theorem logDurableEvent_round {attempt : UInt32} {may_be_stored : Bool}
    {storyKeepers : List KeeperPointer} {keeper : KeeperRecordingClient}
    (hmore : attempt ≤ options.attempts) (hsome : storyKeepers ≠ [])
    (hchoice : chooseKeeper storyKeepers m.event.time = .ok (some keeper))
    (outcome : DurableSendOutcome) (rest : List Round) :
    logDurableEvent options m.event (⟨storyKeepers, outcome⟩ :: rest) attempt may_be_stored =
      match outcome with
      | .Answered keeper_code =>
        .ok ⟨[⟨storyKeepers, keeper, m.event⟩], some (onAnswer m.event may_be_stored keeper_code)⟩
      | .NotRegistered =>
        .ok ⟨[⟨storyKeepers, keeper, m.event⟩], some (onNotRegistered m.event may_be_stored)⟩
      | .TimedOut | .TransportError =>
        (logDurableEvent options m.event rest (attempt + 1) true).map
          (sentBefore [⟨storyKeepers, keeper, m.event⟩]) := by
  have hempty : storyKeepers.isEmpty = false := List.isEmpty_eq_false_iff.mpr hsome
  rw [logDurableEvent, if_pos hmore]
  simp only [hempty, hchoice, Bool.false_eq_true, if_false]
  cases outcome <;> rfl

theorem Reaches.check (h : Reaches options m (s.requests.map Prod.fst) s.stage)
    {storyKeepers : List KeeperPointer}
    (hstep : durableStep storyIdOf options m s (.check storyKeepers) = some s') :
    Reaches options m (s'.requests.map Prod.fst) s'.stage := by
  simp only [durableStep] at hstep
  split at hstep
  · next hcalled =>
    have hsends : s.requests.map Prod.fst = [] := by rwa [hcalled] at h
    split at hstep
    · next hinvalid =>
      cases hstep
      refine ⟨storyKeepers, [], fun send_event_msg => ?_⟩
      rw [logEventWith, if_pos hinvalid, DurableWriteState.finish, hsends]
      rfl
    next hvalid =>
    split at hstep
    · next hempty =>
      cases hstep
      refine ⟨storyKeepers, [], fun send_event_msg => ?_⟩
      rw [logEventWith, if_neg hvalid, if_pos hempty, DurableWriteState.finish, hsends]
      rfl
    split at hstep
    · next hdurable =>
      cases hstep
      refine ⟨⟨by simpa using hvalid, hdurable⟩, [], fun rest => ?_⟩
      rw [hsends, List.nil_append]
      cases logDurableEvent options m.event rest 1 false with
      | error fault => rfl
      | ok write => rfl
    · cases hstep
  · cases hstep

theorem Reaches.attempt (h : Reaches options m (s.requests.map Prod.fst) s.stage)
    {storyKeepers : List KeeperPointer}
    (hstep : durableStep storyIdOf options m s (.attempt storyKeepers) = some s') :
    Reaches options m (s'.requests.map Prod.fst) s'.stage := by
  simp only [durableStep] at hstep
  split at hstep
  · next attempt may_be_stored hattempting =>
    rw [hattempting] at h
    have hreaches : LoopReaches options m (s.requests.map Prod.fst) attempt may_be_stored := h
    split at hstep
    · next hmore =>
      split at hstep
      · next hempty =>
        cases hstep
        have hlast : logDurableEvent options m.event [⟨storyKeepers, .TimedOut⟩] attempt
            may_be_stored = .ok ⟨[], some (afterAttempts m.event may_be_stored)⟩ := by
          rw [logDurableEvent, if_pos hmore]
          simp only [hempty, if_true]
        exact hreaches.returned hlast
      next hsome =>
      split at hstep
      · cases hstep
      · next hchoice =>
        cases hstep
        have hlast : logDurableEvent options m.event [⟨storyKeepers, .TimedOut⟩] attempt
            may_be_stored = .ok ⟨[], some (afterAttempts m.event may_be_stored)⟩ := by
          rw [logDurableEvent, if_pos hmore]
          simp only [hsome, hchoice, Bool.false_eq_true, if_false]
        exact hreaches.returned hlast
      · next keeper hchoice =>
        cases hstep
        exact ⟨hmore, storyKeepers, keeper, _, rfl, fun hnil => hsome (List.isEmpty_iff.mpr hnil),
          hchoice, hreaches⟩
    · next hover =>
      cases hstep
      have hlast : logDurableEvent options m.event [] attempt may_be_stored =
          .ok ⟨[], some (afterAttempts m.event may_be_stored)⟩ := by
        rw [logDurableEvent, if_neg hover]
      exact hreaches.returned hlast
  · cases hstep

theorem Reaches.run (h : Reaches options m (s.requests.map Prod.fst) s.stage) {i : ℕ}
    {view : KeeperView} {synced : Bool}
    (hstep : durableStep storyIdOf options m s (.run i view synced) = some s') :
    Reaches options m (s'.requests.map Prod.fst) s'.stage := by
  simp only [durableStep] at hstep
  split at hstep
  · next send hrequest =>
    split at hstep
    · cases hstep
      have hsends : (s.requests.set i (send,
          .ran (recordEventDurable storyIdOf m view))).map Prod.fst = s.requests.map Prod.fst := by
        obtain ⟨hlt, hi⟩ := List.getElem?_eq_some_iff.mp hrequest
        rw [List.map_set]
        refine (congrArg _ ?_).trans (List.set_getElem_self (i := i) (by simpa using hlt))
        rw [List.getElem_map, hi]
      rw [DurableWriteState.ranAt, hsends]
      exact h
    · cases hstep
  · cases hstep

theorem Reaches.outcome (h : Reaches options m (s.requests.map Prod.fst) s.stage)
    {result : SendResult} {keeperIsAlive : Bool}
    (hstep : durableStep storyIdOf options m s (.outcome result keeperIsAlive) = some s') :
    Reaches options m (s'.requests.map Prod.fst) s'.stage := by
  simp only [durableStep] at hstep
  split at hstep
  · next attempt may_be_stored send request earlier hawaiting hrequests =>
    rw [hawaiting, hrequests] at h
    obtain ⟨hmore, storyKeepers, keeper, _, hsends, hsome, hchoice, hreaches⟩ := h
    rw [List.map_cons, List.cons.injEq] at hsends
    obtain ⟨rfl, rfl⟩ := hsends
    have hround := @logDurableEvent_round options m attempt may_be_stored storyKeepers keeper hmore
      hsome hchoice
    split at hstep
    · split at hstep
      · next keeper_code _ =>
        cases hstep
        exact hreaches.returned (hround (.Answered keeper_code) [])
      · cases hstep
        exact hreaches.returned (hround .NotRegistered [])
      all_goals
        cases hstep
        obtain ⟨hbegins, rounds, hrounds⟩ := hreaches
        refine ⟨hbegins, rounds ++ [⟨storyKeepers, .TimedOut⟩], fun rest => ?_⟩
        rw [List.append_assoc, hrounds, List.singleton_append, hround]
        cases logDurableEvent options m.event rest (attempt + 1) true with
        | error fault => rfl
        | ok write => simp [Except.map, sentBefore, DurableWriteState.heard]
    · cases hstep
  · cases hstep

/-- **The steps do what the loop of `log_durable_event` does**: what a call returns and sends is
what the function returns and sends for some rounds. -/
theorem logEventWith_of_reachable (h : (durableWrite storyIdOf options m).Reachable s)
    {code : ℤ} {event_time : ℕ} (hreturned : s.stage = .returned code event_time) :
    ∃ storyKeepers rounds, ∀ send_event_msg,
      logEventWith storyKeepers options m.event send_event_msg rounds =
        .ok ⟨(s.requests.map Prod.fst).reverse, some (code, event_time)⟩ := by
  have hreaches : Reaches options m (s.requests.map Prod.fst) s.stage := by
    refine @Transition.System.Reachable.induction _ _ (durableWrite storyIdOf options m)
      (fun t => Reaches options m (t.requests.map Prod.fst) t.stage) (fun t ht => ?_)
      (fun t l t' ht hstep => ?_) s h
    · rw [ht.1, ht.2.1]
      rfl
    · change durableStep storyIdOf options m t l = some t' at hstep
      cases l with
      | check storyKeepers => exact ht.check hstep
      | attempt storyKeepers => exact ht.attempt hstep
      | run i view synced => exact ht.run hstep
      | outcome result keeperIsAlive => exact ht.outcome hstep
  rw [hreturned] at hreaches
  exact hreaches

end

end ChronoLog.Client
