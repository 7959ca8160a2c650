import ChronoLog.Wal.Quiet

/-!
# Identities in flight and their answers

The invariant behind the identity protocol of the write-ahead log: what is in
flight is exactly what is queued or in the committer's hands, each request waits
for a completion of its own, and nothing is called durable before the sync of a
group that holds it.

## Main definitions

* `Durable` — a record of the identity was synced before.
* `Observation.JustifiedBy`, `Justified` — what must have been observed before an
  observation.
* `Observation.Follows`, `Followed` — what a request returns after a lookup that found
  something.
* `Consistent` — the invariant of the shared state.
* `Step` — what each action of a thread keeps.
-/

namespace ChronoLog

/-- The E records a data sync made durable. -/
def Observation.recordsSynced : Observation → List QueuedEvent
  | .synced _ group _ => eventsOf group
  | _ => []

/-- The E records of every group that was synced. -/
def syncedRecords (trace : List Observation) : List QueuedEvent :=
  trace.flatMap Observation.recordsSynced

/-- A record of the identity was synced, by a group or by the recovery whose copies the
start registered. -/
def Durable (trace : List Observation) (identity : Identity) : Prop :=
  .recovered identity ∈ trace ∨ identity ∈ (syncedRecords trace).map QueuedEvent.identity

/-- The client whose request is observed. -/
def Observation.client? : Observation → Option ClientId
  | .called client => some client
  | .attempt client _ _ => some client
  | .ingested client _ => some client
  | .returned client _ _ => some client
  | _ => none

/-- A request queued the record. -/
def Asked (trace : List Observation) (record : QueuedEvent) : Prop :=
  ∃ client, .attempt client record.identity (.queued record) ∈ trace

/-- What was observed since the client's last call began. -/
def sinceCalled (client : ClientId) (trace : List Observation) : List Observation :=
  trace.takeWhile fun o => o ≠ .called client

/-- The client's call looked the identity up. -/
def LookedFor (client : ClientId) (identity : Identity) (trace : List Observation) : Prop :=
  ∃ outcome, .attempt client identity outcome ∈ sinceCalled client trace

/-- What must have been observed before an observation: a record is queued under a
completion of its own, synced at most once and before its answer, which is given once
and is success just where the record was synced; a request returns success where its
identity is durable, and looks that up unless it is invalid. -/
def Observation.JustifiedBy (older : List Observation) : Observation → Prop
  | .attempt _ identity (.settled .durable) => Durable older identity
  | .attempt _ identity (.queued record) =>
    record.identity = identity ∧
      ∀ client identity' record', .attempt client identity' (.queued record') ∈ older →
        record'.completion ≠ record.completion
  | .synced _ group _ =>
    ((eventsOf group).map QueuedEvent.completion).Nodup ∧
      ∀ record ∈ eventsOf group, Asked older record ∧
        record.completion ∉ (syncedRecords older).map QueuedEvent.completion ∧
        ∀ status, .answered record.completion status ∉ older
  | .answered completion status =>
    (∃ record, Asked older record ∧ record.completion = completion ∧
      (status = .CL_SUCCESS ↔ record ∈ syncedRecords older)) ∧
    ∀ status, .answered completion status ∉ older
  | .returned client identity status => (status = .CL_SUCCESS → Durable older identity) ∧
    (status ≠ .CL_ERR_INVALID_ARG → LookedFor client identity older)
  | _ => True

/-- Every observation is justified by those before it. -/
def Justified : List Observation → Prop
  | [] => True
  | o :: older => o.JustifiedBy older ∧ Justified older

/-- What the lookup of a request found, so that it needs no write of its own. -/
def Observation.settled? : Observation → Option (Identity × Settled)
  | .attempt _ identity (.settled why) => some (identity, why)
  | _ => none

/-- What the client's request is settled by: the last thing observed of the client is a
lookup that found this. -/
def settledBy (client : ClientId) (trace : List Observation) : Option (Identity × Settled) :=
  (trace.find? fun o => o.client? = some client).bind Observation.settled?

/-- The status is what a lookup that found this is answered with: the answer to the record
in flight, or success where the event is durable and pending. -/
def Settled.Answers (trace : List Observation) (status : ErrorCode) : Settled → Prop
  | .joined completion => .answered completion status ∈ trace
  | .durable => status = .CL_SUCCESS
  | .refused => status = .CL_ERR_DURABILITY_UNAVAILABLE

/-- Once a lookup found something, the next thing observed of its client is that the
request returns what the lookup is answered with. -/
def Observation.Follows (older : List Observation) (o : Observation) : Prop :=
  ∀ client identity why, o.client? = some client → settledBy client older = some (identity, why) →
    ∃ status, o = .returned client identity status ∧ why.Answers older status

/-- Every lookup that found something is followed by its answer. -/
def Followed : List Observation → Prop
  | [] => True
  | o :: older => o.Follows older ∧ Followed older

/-- None of the observations is of a request of the client. -/
def Foreign (client : ClientId) (newer : List Observation) : Prop :=
  ∀ o ∈ newer, o.client? ≠ some client

theorem settledBy_append {client : ClientId} {newer : List Observation}
    (h : Foreign client newer) (older : List Observation) :
    settledBy client (newer ++ older) = settledBy client older := by
  have hnone : (newer.find? fun o => o.client? = some client) = none := by
    rw [List.find?_eq_none]
    intro o ho
    simpa using h o ho
  rw [settledBy, List.find?_append, hnone, Option.none_or, settledBy]

theorem settledBy_cons {client : ClientId} {o : Observation} (h : o.client? = some client)
    (older : List Observation) : settledBy client (o :: older) = o.settled? := by
  rw [settledBy, List.find?_cons_of_pos (by simpa using h), Option.bind_some]

theorem mem_sinceCalled_append {client : ClientId} {newer older : List Observation}
    {o : Observation} (ho : o.client? = some client) (hnewer : Foreign client newer) :
    o ∈ sinceCalled client (newer ++ older) ↔ o ∈ sinceCalled client older := by
  have hall : ∀ o' ∈ newer, decide (o' ≠ .called client) = true := by
    intro o' ho'
    rw [decide_eq_true_eq]
    rintro rfl
    exact hnewer _ ho' rfl
  rw [sinceCalled, List.takeWhile_append_of_pos hall, List.mem_append]
  exact or_iff_right fun hmem => hnewer o hmem ho

theorem lookedFor_attempt (client : ClientId) (identity : Identity) (outcome : Outcome)
    (older : List Observation) :
    LookedFor client identity (.attempt client identity outcome :: older) := by
  refine ⟨outcome, ?_⟩
  rw [sinceCalled, List.takeWhile_cons_of_pos (by simp)]
  exact List.mem_cons_self

/-- What the client does next in its call. -/
theorem LookedFor.cons {client : ClientId} {identity : Identity} {older : List Observation}
    (h : LookedFor client identity older) {o : Observation} (ho : o ≠ .called client) :
    LookedFor client identity (o :: older) := by
  refine h.imp fun outcome hmem => ?_
  rw [sinceCalled, List.takeWhile_cons_of_pos (by simpa using ho)]
  exact List.mem_cons_of_mem _ hmem

theorem Settled.Answers.mono {why : Settled} {older : List Observation} {status : ErrorCode}
    (h : why.Answers older status) (newer : List Observation) :
    why.Answers (newer ++ older) status := by
  cases why with
  | joined completion => exact List.mem_append_right newer h
  | _ => exact h

theorem Followed.of_append {newer older : List Observation} {o : Observation}
    (h : Followed (newer ++ o :: older)) : o.Follows older := by
  induction newer with
  | nil => exact h.1
  | cons o' newer ih => exact ih h.2

/-- An observation of no request follows anything. -/
theorem Observation.follows_of_none {o : Observation} (ho : o.client? = none)
    (older : List Observation) : o.Follows older := by
  intro client identity why hclient
  rw [ho] at hclient
  cases hclient

/-- So does one of a client whose request is not settled. -/
theorem Observation.follows_of_unsettled {o : Observation} {client : ClientId}
    {older : List Observation} (ho : o.client? = some client)
    (h : settledBy client older = none) : o.Follows older := by
  intro client' identity why hclient hsettled
  cases ho.symm.trans hclient
  rw [h] at hsettled
  cases hsettled

theorem Followed.append {newer older : List Observation} (h : Followed older)
    (hnewer : ∀ o ∈ newer, o.client? = none) : Followed (newer ++ older) := by
  induction newer with
  | nil => exact h
  | cons o newer ih =>
    exact ⟨o.follows_of_none (hnewer o List.mem_cons_self) _,
      ih fun o ho => hnewer o (List.mem_cons_of_mem _ ho)⟩

theorem Observation.client?_of_neutral {o : Observation} (ho : o.neutral) : o.client? = none := by
  cases o with
  | released | storyDropped | dropsRecorded => rfl
  | _ => cases ho

theorem syncedRecords_append (newer older : List Observation) :
    syncedRecords (newer ++ older) = syncedRecords newer ++ syncedRecords older :=
  List.flatMap_append ..

theorem Durable.mono {older : List Observation} {identity : Identity}
    (h : Durable older identity) (newer : List Observation) :
    Durable (newer ++ older) identity := by
  rcases h with h | h
  · exact .inl (List.mem_append_right _ h)
  · refine .inr ?_
    rw [syncedRecords_append, List.map_append]
    exact List.mem_append_right _ h

theorem Asked.mono {older : List Observation} {record : QueuedEvent} (h : Asked older record)
    (newer : List Observation) : Asked (newer ++ older) record := by
  obtain ⟨client, hclient⟩ := h
  exact ⟨client, List.mem_append_right _ hclient⟩

/-- Each observation of a justified trace is justified by those before it. -/
theorem Justified.of_append {newer older : List Observation} {o : Observation}
    (h : Justified (newer ++ o :: older)) : o.JustifiedBy older := by
  induction newer with
  | nil => exact h.1
  | cons o' newer ih => exact ih h.2

theorem Justified.tail {newer older : List Observation} {o : Observation}
    (h : Justified (newer ++ o :: older)) : Justified older := by
  induction newer with
  | nil => exact h.2
  | cons o' newer ih => exact ih h.2

/-- A completion belongs to one record and one client. -/
theorem Justified.record_unique {trace : List Observation} (h : Justified trace)
    {client client' : ClientId} {identity identity' : Identity} {record record' : QueuedEvent}
    (hq : .attempt client identity (.queued record) ∈ trace)
    (hq' : .attempt client' identity' (.queued record') ∈ trace)
    (hcompletion : record.completion = record'.completion) :
    record = record' ∧ client = client' := by
  induction trace with
  | nil => cases hq
  | cons o older ih =>
    rcases List.mem_cons.mp hq with rfl | hold <;> rcases List.mem_cons.mp hq' with heq | hold'
    · cases heq
      exact ⟨rfl, rfl⟩
    · exact absurd hcompletion.symm (h.1.2 client' identity' record' hold')
    · subst heq
      exact absurd hcompletion (h.1.2 client identity record hold)
    · exact ih h.2 hold hold'

/-- What a record that was queued says about the answer to it. -/
theorem Justified.answered_iff {trace : List Observation} (h : Justified trace)
    {record : QueuedEvent} (hasked : Asked trace record) {newer older : List Observation}
    {status : ErrorCode} (htrace : trace = newer ++ .answered record.completion status :: older) :
    status = .CL_SUCCESS ↔ record ∈ syncedRecords older := by
  subst htrace
  obtain ⟨⟨record', ⟨client', hq'⟩, hcompletion, hiff⟩, -⟩ := h.of_append
  obtain ⟨client, hq⟩ := hasked
  have hq'' := List.mem_append_right newer
    (List.mem_cons_of_mem (.answered record.completion status) hq')
  obtain ⟨rfl, -⟩ := h.record_unique hq'' hq hcompletion
  exact hiff

/-- A successful answer is for a durable identity. -/
theorem Justified.durable_of_answered {trace : List Observation} (h : Justified trace)
    {record : QueuedEvent} (hasked : Asked trace record)
    (hanswered : .answered record.completion .CL_SUCCESS ∈ trace) :
    Durable trace record.identity := by
  obtain ⟨newer, older, htrace⟩ := List.append_of_mem hanswered
  have hsynced := (h.answered_iff hasked htrace).mp rfl
  have hdurable : Durable older record.identity := .inr (List.mem_map_of_mem hsynced)
  rw [htrace]
  exact (hdurable.mono [_]).mono newer

theorem Justified.asked_of_synced {trace : List Observation} (h : Justified trace)
    {record : QueuedEvent} (hrecord : record ∈ syncedRecords trace) : Asked trace record := by
  obtain ⟨o, ho, hmem⟩ := List.mem_flatMap.mp hrecord
  obtain ⟨newer, older, rfl⟩ := List.append_of_mem ho
  cases o with
  | synced segment group image =>
    exact (((h.of_append).2 record hmem).1.mono [_]).mono newer
  | _ => cases hmem

/-- What a lookup that found something says. -/
def Settled.Known (trace : List Observation) (identity : Identity) : Settled → Prop
  | .joined completion =>
    ∃ record, Asked trace record ∧ record.identity = identity ∧ record.completion = completion
  | .durable => Durable trace identity
  | .refused => True

/-- Neutral observations need no justification. -/
theorem Justified.append_neutral {newer older : List Observation}
    (hnewer : ∀ o ∈ newer, o.neutral) (h : Justified older) : Justified (newer ++ older) := by
  induction newer with
  | nil => exact h
  | cons o newer ih =>
    refine ⟨?_, ih fun o ho => hnewer o (List.mem_cons_of_mem _ ho)⟩
    have ho := hnewer o List.mem_cons_self
    cases o with
    | released | storyDropped | dropsRecorded => trivial
    | _ => cases ho

/-- Observations that are no syncs make nothing durable. -/
theorem syncedRecords_append_of_nil {newer : List Observation}
    (hnewer : ∀ o ∈ newer, o.recordsSynced = []) (older : List Observation) :
    syncedRecords (newer ++ older) = syncedRecords older := by
  rw [syncedRecords_append, syncedRecords, List.flatMap_eq_nil_iff.mpr hnewer, List.nil_append]

theorem Observation.recordsSynced_of_neutral {o : Observation} (ho : o.neutral) :
    o.recordsSynced = [] := by
  cases o with
  | synced => cases ho
  | _ => rfl

namespace KeeperWal

open Concurrent (Prog Rely)

/-- The E records that wait for an answer. -/
def unanswered (s : KeeperWal) : List QueuedEvent :=
  eventsOf (s.group ++ (s.refused ++ s.queue))

/-- The E records queued or in flight. -/
def recordsInFlight (s : KeeperWal) : List QueuedEvent := eventsOf (s.unregistered ++ s.queue)

/-- **The invariant of the identity protocol.** -/
structure Consistent (s : KeeperWal) : Prop where
  /-- What is in flight is what is queued or not yet registered. -/
  inFlight : ∀ identity completion, s.inFlight[identity]? = some completion ↔
    ∃ e ∈ s.recordsInFlight, e.identity = identity ∧ e.completion = completion
  /-- At most one record of an identity is in flight. -/
  identities : (s.recordsInFlight.map QueuedEvent.identity).Nodup
  /-- No two records wait for the same completion. -/
  completions : (s.unanswered.map QueuedEvent.completion).Nodup
  /-- The completions given out are those awaited and those set. -/
  awaited : ∀ completion, completion ∈ s.unanswered.map QueuedEvent.completion ↔
    completion < s.nextCompletion ∧ s.results[completion]? = none
  /-- What is not registered is not answered. -/
  held : ∀ entry ∈ s.unregistered, entry ∈ s.group
  /-- Every record that waits for an answer was queued by a request. -/
  asked : ∀ e ∈ s.unanswered, Asked s.trace e
  /-- What is not in the committer's hands was not synced. -/
  unsynced : ∀ e ∈ eventsOf (s.refused ++ s.queue),
    e.completion ∉ (syncedRecords s.trace).map QueuedEvent.completion
  /-- The completions that are set are the answers given. -/
  answered : ∀ completion status, s.results[completion]? = some status ↔
    .answered completion status ∈ s.trace
  /-- A completion that was given out is used up. -/
  given : ∀ client identity record,
    .attempt client identity (.queued record) ∈ s.trace → record.completion < s.nextCompletion
  /-- Where something is queued there is a committer, or is to be one. -/
  drained : s.queue ≠ [] → s.state = .Running ∨ s.committerAlive
  /-- What is pending is durable. -/
  pending : ∀ storyId event, s.tracker.isPending storyId event →
    Durable s.trace ⟨storyId, event⟩
  justified : Justified s.trace
  followed : Followed s.trace

/-- What a lookup of the identity must answer. -/
def RightOutcome (s : KeeperWal) (identity : Identity) (outcome : Outcome) : Prop :=
  (∀ completion, s.inFlight[identity]? = some completion →
    outcome = .settled (.joined completion)) ∧
  (s.inFlight[identity]? = none → s.tracker.isPending identity.storyId identity.sequence →
    outcome = .settled .durable)

/-- What an action may do to the queue: take records from its front and add new ones at
its end. -/
def QueueStep (s t : KeeperWal) : Prop :=
  ∃ dropped kept added, s.queue = dropped ++ kept ∧ t.queue = kept ++ added ∧
    ∀ e ∈ eventsOf added, s.nextCompletion ≤ e.completion

theorem QueueStep.of_eq {s t : KeeperWal} (h : t.queue = s.queue) : QueueStep s t :=
  ⟨[], s.queue, [], rfl, by rw [h, List.append_nil], fun e he => by cases he⟩

/-- What each action of a thread keeps. -/
structure Step (i : ThreadId) (s t : KeeperWal) : Prop where
  consistent : Consistent s → Consistent t
  /-- Observations are added, of no other client, and lookups answer right. -/
  grows : ∃ newer, t.trace = newer ++ s.trace ∧
    (∀ o ∈ newer, ∀ client, o.client? = some client → i = .client client) ∧
    ∀ client identity outcome, .attempt client identity outcome ∈ newer →
      s.RightOutcome identity outcome
  /-- Only the committer syncs records. -/
  synced : i ≠ .committer → syncedRecords t.trace = syncedRecords s.trace
  /-- The committer's group is its own. -/
  group : i ≠ .committer → t.group = s.group ∧ t.unregistered = s.unregistered
  /-- The owner's refusals are its own, and so are the states of the log. -/
  refused : i ≠ .owner → t.refused = s.refused ∧ t.state = s.state
  /-- The committer acts while its thread runs, and only it ends it. -/
  alive : (i = .committer → s.committerAlive) ∧
    (i ≠ .committer → s.committerAlive → t.committerAlive) ∧
    (i ≠ .owner → t.committerAlive → s.committerAlive)
  queue : QueueStep s t
  /-- What is refused was queued. -/
  refuses : ∀ entry ∈ t.refused, entry ∈ s.refused ∨ entry ∈ s.queue
  /-- The committer ends when nothing is queued and the log is stopped. -/
  ends : s.committerAlive → t.committerAlive = false → s.queue = [] ∧ s.state ≠ .Running

/-! ### Quiet actions -/

theorem Quiet.unanswered {s t : KeeperWal} (h : Quiet s t) : t.unanswered = s.unanswered := by
  simp only [KeeperWal.unanswered, h.group, h.refused, h.queue]

theorem Quiet.recordsInFlight {s t : KeeperWal} (h : Quiet s t) :
    t.recordsInFlight = s.recordsInFlight := by
  simp only [KeeperWal.recordsInFlight, h.unregistered, h.queue]

theorem Quiet.mem_trace {s t : KeeperWal} (h : Quiet s t) {o : Observation}
    (ho : o.neutral = false) : o ∈ t.trace ↔ o ∈ s.trace := by
  obtain ⟨newer, hnewer, hneutral⟩ := h.trace
  rw [hnewer, List.mem_append]
  refine or_iff_right fun hmem => ?_
  rw [hneutral o hmem] at ho
  cases ho

theorem Quiet.syncedRecords {s t : KeeperWal} (h : Quiet s t) :
    syncedRecords t.trace = syncedRecords s.trace := by
  obtain ⟨newer, hnewer, hneutral⟩ := h.trace
  rw [hnewer]
  exact syncedRecords_append_of_nil
    (fun o ho => Observation.recordsSynced_of_neutral (hneutral o ho)) s.trace

theorem Quiet.consistent {s t : KeeperWal} (h : Quiet s t) (hs : Consistent s) :
    Consistent t where
  inFlight := by rw [h.inFlight, h.recordsInFlight]; exact hs.inFlight
  identities := by rw [h.recordsInFlight]; exact hs.identities
  completions := by rw [h.unanswered]; exact hs.completions
  awaited := by rw [h.unanswered, h.nextCompletion, h.results]; exact hs.awaited
  held := by rw [h.unregistered, h.group]; exact hs.held
  asked e hmem := by
    rw [h.unanswered] at hmem
    obtain ⟨client, hclient⟩ := hs.asked e hmem
    exact ⟨client, (h.mem_trace rfl).mpr hclient⟩
  unsynced := by rw [h.refused, h.queue, h.syncedRecords]; exact hs.unsynced
  answered completion status := by
    rw [h.results, h.mem_trace rfl]
    exact hs.answered completion status
  given client identity record hmem := by
    rw [h.nextCompletion]
    exact hs.given client identity record ((h.mem_trace rfl).mp hmem)
  drained := by rw [h.queue, h.state, h.committerAlive]; exact hs.drained
  pending storyId event hp := by
    obtain ⟨newer, hnewer, -⟩ := h.trace
    rw [hnewer]
    exact (hs.pending storyId event (h.pending storyId event hp)).mono newer
  justified := by
    obtain ⟨newer, hnewer, hneutral⟩ := h.trace
    rw [hnewer]
    exact .append_neutral hneutral hs.justified
  followed := by
    obtain ⟨newer, hnewer, hneutral⟩ := h.trace
    rw [hnewer]
    exact hs.followed.append fun o ho => o.client?_of_neutral (hneutral o ho)

/-- A quiet action is within every thread's guarantee; the committer's needs its thread
to run. -/
theorem Quiet.step {s t : KeeperWal} (h : Quiet s t) {i : ThreadId}
    (hi : i = .committer → s.committerAlive) : Step i s t where
  consistent := h.consistent
  grows := by
    obtain ⟨newer, hnewer, hneutral⟩ := h.trace
    refine ⟨newer, hnewer, fun o ho client hclient => ?_, fun client identity outcome ho => ?_⟩
    · have hneutral := hneutral o ho
      cases o with
      | released | storyDropped | dropsRecorded => cases hclient
      | _ => cases hneutral
    · cases hneutral _ ho
  synced _ := h.syncedRecords
  group _ := ⟨h.group, h.unregistered⟩
  refused _ := ⟨h.refused, h.state⟩
  alive := ⟨hi, fun _ ha => h.committerAlive ▸ ha, fun _ ha => h.committerAlive ▸ ha⟩
  queue := .of_eq h.queue
  refuses entry hentry := .inl (h.refused ▸ hentry)
  ends ha ht := by
    rw [h.committerAlive, ha] at ht
    cases ht

/-! ### Observations -/

/-- An observation that neither queues, syncs nor answers a request keeps the invariant
where it is justified. -/
theorem Consistent.observe {s : KeeperWal} (hs : Consistent s) {o : Observation}
    (hjustified : o.JustifiedBy s.trace) (hfollows : o.Follows s.trace)
    (hqueued : ∀ client identity record, o ≠ .attempt client identity (.queued record))
    (hanswered : ∀ completion status, o ≠ .answered completion status)
    (hsynced : ∀ segment group image, o ≠ .synced segment group image) :
    Consistent (s.observe [o]) where
  inFlight := hs.inFlight
  identities := hs.identities
  completions := hs.completions
  awaited := hs.awaited
  held := hs.held
  asked e hmem := (hs.asked e hmem).mono [o]
  unsynced := by
    have hnil : o.recordsSynced = [] := by
      cases o with
      | synced segment group image => exact absurd rfl (hsynced segment group image)
      | _ => rfl
    show ∀ e ∈ eventsOf (s.refused ++ s.queue),
      e.completion ∉ (syncedRecords ([o] ++ s.trace)).map QueuedEvent.completion
    rw [syncedRecords_append_of_nil (by simpa using hnil)]
    exact hs.unsynced
  answered completion status := by
    refine (hs.answered completion status).trans ⟨List.mem_cons_of_mem _, fun hmem => ?_⟩
    exact (List.mem_cons.mp hmem).resolve_left (hanswered completion status).symm
  given client identity record hmem := by
    refine hs.given client identity record ?_
    exact (List.mem_cons.mp hmem).resolve_left (hqueued client identity record).symm
  drained := hs.drained
  pending storyId event hp := (hs.pending storyId event hp).mono [o]
  justified := ⟨hjustified, hs.justified⟩
  followed := ⟨hfollows, hs.followed⟩

theorem findIdentity_eq (s : KeeperWal) (identity : Identity) :
    s.findIdentity identity = match s.inFlight[identity]? with
      | some completion => some (.joined completion)
      | none => if s.tracker.isPending identity.storyId identity.sequence then some .durable
        else none := rfl

theorem findIdentity_none {s : KeeperWal} {identity : Identity}
    (h : s.findIdentity identity = none) :
    s.inFlight[identity]? = none ∧
      ¬s.tracker.isPending identity.storyId identity.sequence := by
  rw [findIdentity_eq] at h
  split at h
  · cases h
  · rename_i hnone
    split at h
    · cases h
    · rename_i hpending
      exact ⟨hnone, hpending⟩

theorem rightOutcome_findIdentity (s : KeeperWal) (identity : Identity) :
    s.RightOutcome identity (outcomeOf (s.findIdentity identity)) := by
  rw [findIdentity_eq]
  refine ⟨fun completion h => ?_, fun h hp => ?_⟩
  · simp only [h, outcomeOf]
  · simp only [h, hp, if_true, outcomeOf]

theorem rightOutcome_settled (s : KeeperWal) (identity : Identity) :
    s.RightOutcome identity (outcomeOf (s.settled identity)) := by
  simp only [settled]
  split
  · rename_i why hfind
    have h := s.rightOutcome_findIdentity identity
    rwa [hfind] at h
  · rename_i hfind
    obtain ⟨hnone, hpending⟩ := findIdentity_none hfind
    refine ⟨fun completion h => ?_, fun _ hp => absurd hp hpending⟩
    rw [hnone] at h
    cases h

theorem settled_none {s : KeeperWal} {identity : Identity} (h : s.settled identity = none) :
    s.findIdentity identity = none ∧ s.state = .Running := by
  simp only [settled] at h
  split at h
  · cases h
  · split at h
    · cases h
    · rename_i hfind hrunning
      exact ⟨hfind, by_contra fun hne => hrunning (.inl hne)⟩

theorem mem_eventsOf {e : QueuedEvent} {entries : List Queued} :
    e ∈ eventsOf entries ↔ .event e ∈ entries := by
  simp only [eventsOf, List.mem_filterMap]
  constructor
  · rintro ⟨entry, hentry, he⟩
    cases entry with
    | event e' => cases he; exact hentry
    | drop storyId => cases he
  · exact fun h => ⟨.event e, h, rfl⟩

@[simp] theorem eventsOf_append (entries entries' : List Queued) :
    eventsOf (entries ++ entries') = eventsOf entries ++ eventsOf entries' :=
  List.filterMap_append ..

theorem Consistent.unanswered_of_inFlight {s : KeeperWal} (hs : Consistent s)
    {e : QueuedEvent} (h : e ∈ s.recordsInFlight) : e ∈ s.unanswered := by
  rcases List.mem_append.mp (mem_eventsOf.mp h) with hmem | hmem
  · exact mem_eventsOf.mpr (List.mem_append_left _ (hs.held _ hmem))
  · exact mem_eventsOf.mpr (List.mem_append_right _ (List.mem_append_right _ hmem))

theorem Consistent.known_of_findIdentity {s : KeeperWal} (hs : Consistent s)
    {identity : Identity} {why : Settled} (h : s.findIdentity identity = some why) :
    why.Known s.trace identity := by
  rw [findIdentity_eq] at h
  split at h
  · rename_i completion hflight
    cases h
    obtain ⟨e, hmem, rfl, rfl⟩ := (hs.inFlight identity completion).mp hflight
    exact ⟨e, hs.asked e (hs.unanswered_of_inFlight hmem), rfl, rfl⟩
  · split at h
    · rename_i hpending
      cases h
      exact hs.pending _ _ hpending
    · cases h

theorem Consistent.known_of_settled {s : KeeperWal} (hs : Consistent s)
    {identity : Identity} {why : Settled} (h : s.settled identity = some why) :
    why.Known s.trace identity := by
  simp only [settled] at h
  split at h
  · rename_i why' hfind
    cases h
    exact hs.known_of_findIdentity hfind
  · split at h
    · cases h
      trivial
    · cases h

/-- A lookup keeps the invariant. -/
theorem Consistent.attempt {s : KeeperWal} (hs : Consistent s) {client : ClientId}
    (hunsettled : settledBy client s.trace = none) {identity : Identity} {found : Option Settled}
    (hknown : ∀ why, found = some why → why.Known s.trace identity) :
    Consistent (s.observe [.attempt client identity (outcomeOf found)]) := by
  refine hs.observe ?_ (Observation.follows_of_unsettled rfl hunsettled) ?_ ?_ ?_
  · rcases found with - | (completion | - | -)
    · trivial
    · trivial
    · exact hknown .durable rfl
    · trivial
  · intro client' identity' completion h
    rcases found with - | why <;> cases h
  · intro completion status h
    cases h
  · intro segment group image h
    cases h

/-! ### Queueing -/

/-- A completion that is not given out yet is not set. -/
theorem Consistent.results_next {s : KeeperWal} (hs : Consistent s) :
    s.results[s.nextCompletion]? = none := by
  rcases hres : s.results[s.nextCompletion]? with - | status
  · rfl
  · obtain ⟨newer, older, htrace⟩ := List.append_of_mem ((hs.answered _ _).mp hres)
    obtain ⟨⟨record, ⟨client, hq⟩, hcompletion, -⟩, -⟩ := (htrace ▸ hs.justified).of_append
    have hlt := hs.given client record.identity record
      (htrace ▸ List.mem_append_right _ (List.mem_cons_of_mem _ hq))
    exact absurd (hcompletion ▸ hlt) (Nat.lt_irrefl _)

/-- A record that was synced was given a completion. -/
theorem Consistent.lt_of_synced {s : KeeperWal} (hs : Consistent s) {e : QueuedEvent}
    (he : e ∈ syncedRecords s.trace) : e.completion < s.nextCompletion := by
  obtain ⟨client, hq⟩ := hs.justified.asked_of_synced he
  exact hs.given client e.identity e hq

/-- A new record keeps the invariant where the identity is not in flight. -/
theorem Consistent.enqueue {s : KeeperWal} (hs : Consistent s) {client : ClientId}
    (hunsettled : settledBy client s.trace = none) {identity : Identity} (frame : Wal.EventFrame)
    (namesFrame : Bytes)
    (hfind : s.findIdentity identity = none) (hrunning : s.state = .Running) :
    Consistent (s.enqueue client identity frame namesFrame) := by
  obtain ⟨hnone, -⟩ := findIdentity_none hfind
  have hrecords : (s.enqueue client identity frame namesFrame).recordsInFlight =
      s.recordsInFlight ++ [⟨identity, frame, namesFrame, s.nextCompletion⟩] := by
    simp only [recordsInFlight, KeeperWal.enqueue, eventsOf_append, List.append_assoc]
    rfl
  have hunanswered : (s.enqueue client identity frame namesFrame).unanswered =
      s.unanswered ++ [⟨identity, frame, namesFrame, s.nextCompletion⟩] := by
    simp only [unanswered, KeeperWal.enqueue, eventsOf_append, List.append_assoc]
    rfl
  have hfresh : ∀ e ∈ s.recordsInFlight, e.identity ≠ identity := by
    intro e he heq
    have hflight := (hs.inFlight identity e.completion).mpr ⟨e, he, heq, rfl⟩
    rw [hnone] at hflight
    cases hflight
  have hnotAwaited : s.nextCompletion ∉ s.unanswered.map QueuedEvent.completion := by
    intro hmem
    exact absurd ((hs.awaited _).mp hmem).1 (Nat.lt_irrefl _)
  exact
    { inFlight := by
        intro identity' completion
        rw [hrecords]
        show (s.inFlight.insert identity s.nextCompletion)[identity']? = _ ↔ _
        rw [Std.ExtTreeMap.getElem?_insert]
        simp only [Std.compare_eq_iff_eq, List.mem_append, List.mem_singleton]
        split
        · rename_i heq
          subst heq
          constructor
          · intro h
            cases h
            exact ⟨_, .inr rfl, rfl, rfl⟩
          · rintro ⟨e, he | rfl, heq, rfl⟩
            · exact absurd heq (hfresh e he)
            · rfl
        · rename_i hne
          rw [hs.inFlight identity' completion]
          constructor
          · rintro ⟨e, he, heq, rfl⟩
            exact ⟨e, .inl he, heq, rfl⟩
          · rintro ⟨e, he | rfl, rfl, rfl⟩
            · exact ⟨e, he, rfl, rfl⟩
            · exact absurd rfl hne
      identities := by
        rw [hrecords, List.map_append]
        refine List.nodup_append.mpr ⟨hs.identities, List.nodup_singleton _, ?_⟩
        intro a ha b hb
        obtain ⟨e, he, rfl⟩ := List.mem_map.mp ha
        rw [List.mem_singleton.mp hb]
        exact hfresh e he
      completions := by
        rw [hunanswered, List.map_append]
        refine List.nodup_append.mpr ⟨hs.completions, List.nodup_singleton _, ?_⟩
        intro a ha b hb hab
        have ha' : a = s.nextCompletion := hab.trans (List.mem_singleton.mp hb)
        exact hnotAwaited (ha' ▸ ha)
      awaited := by
        intro completion
        rw [hunanswered, List.map_append, List.mem_append, hs.awaited]
        show _ ↔ completion < s.nextCompletion + 1 ∧ s.results[completion]? = none
        simp only [List.map_cons, List.map_nil, List.mem_singleton]
        constructor
        · rintro (⟨hlt, hres⟩ | rfl)
          · exact ⟨Nat.lt_succ_of_lt hlt, hres⟩
          · exact ⟨Nat.lt_succ_self _, hs.results_next⟩
        · rintro ⟨hlt, hres⟩
          rcases Nat.lt_succ_iff_lt_or_eq.mp hlt with hlt | rfl
          · exact .inl ⟨hlt, hres⟩
          · exact .inr rfl
      held := hs.held
      asked := by
        intro e he
        rw [hunanswered] at he
        rcases List.mem_append.mp he with he | he
        · exact (hs.asked e he).mono [_]
        · rw [List.mem_singleton.mp he]
          exact ⟨client, List.mem_cons_self⟩
      unsynced := by
        intro e he
        have hsplit : eventsOf (s.refused ++ (s.enqueue client identity frame namesFrame).queue) =
            eventsOf (s.refused ++ s.queue) ++
              [⟨identity, frame, namesFrame, s.nextCompletion⟩] := by
          simp only [KeeperWal.enqueue, eventsOf_append, List.append_assoc]
          rfl
        have he' : e ∈ eventsOf (s.refused ++ s.queue) ++
            [⟨identity, frame, namesFrame, s.nextCompletion⟩] := hsplit ▸ he
        show e.completion ∉ (syncedRecords s.trace).map QueuedEvent.completion
        rcases List.mem_append.mp he' with he | he
        · exact hs.unsynced e he
        · intro hmem
          obtain ⟨e', he', heq⟩ := List.mem_map.mp hmem
          have hlt := hs.lt_of_synced he'
          rw [heq, List.mem_singleton.mp he] at hlt
          exact absurd hlt (Nat.lt_irrefl _)
      answered := by
        intro completion status
        refine (hs.answered completion status).trans ⟨List.mem_cons_of_mem _, fun hmem => ?_⟩
        exact (List.mem_cons.mp hmem).resolve_left (by simp)
      given := by
        intro client' identity' record hmem
        show record.completion < s.nextCompletion + 1
        rcases List.mem_cons.mp hmem with heq | hmem
        · cases heq
          exact Nat.lt_succ_self _
        · exact Nat.lt_succ_of_lt (hs.given client' identity' record hmem)
      drained := fun _ => .inl hrunning
      pending := fun storyId event hp => (hs.pending storyId event hp).mono [_]
      justified := by
        refine ⟨⟨rfl, fun client' identity' record hmem => ?_⟩, hs.justified⟩
        exact Nat.ne_of_lt (hs.given client' identity' record hmem)
      followed := ⟨Observation.follows_of_unsettled rfl hunsettled, hs.followed⟩ }

/-- The invariant reads the queues only through their E records. -/
theorem Consistent.congr {s t : KeeperWal} (hs : Consistent s)
    (hinFlight : t.inFlight = s.inFlight) (hrecords : t.recordsInFlight = s.recordsInFlight)
    (hunanswered : t.unanswered = s.unanswered) (hnext : t.nextCompletion = s.nextCompletion)
    (hresults : t.results = s.results) (hheld : ∀ entry ∈ t.unregistered, entry ∈ t.group)
    (hunsynced : eventsOf (t.refused ++ t.queue) = eventsOf (s.refused ++ s.queue))
    (hdrained : t.queue ≠ [] → t.state = .Running ∨ t.committerAlive)
    (htracker : t.tracker = s.tracker) (htrace : t.trace = s.trace) : Consistent t where
  inFlight := by rw [hinFlight, hrecords]; exact hs.inFlight
  identities := by rw [hrecords]; exact hs.identities
  completions := by rw [hunanswered]; exact hs.completions
  awaited := by rw [hunanswered, hnext, hresults]; exact hs.awaited
  held := hheld
  asked := by rw [hunanswered, htrace]; exact hs.asked
  unsynced := by rw [hunsynced, htrace]; exact hs.unsynced
  answered := by rw [hresults, htrace]; exact hs.answered
  given := by rw [hnext, htrace]; exact hs.given
  drained := hdrained
  pending := by rw [htracker, htrace]; exact hs.pending
  justified := by rw [htrace]; exact hs.justified
  followed := by rw [htrace]; exact hs.followed

/-- A D record at the end of the queue. -/
theorem Consistent.enqueueDrop {s : KeeperWal} (hs : Consistent s) (storyId : StoryId)
    (queuedBytes : ℕ) (hrunning : s.state = .Running) :
    Consistent { s with queuedBytes := queuedBytes, queue := s.queue ++ [.drop storyId] } := by
  have hdrop : eventsOf [.drop storyId] = [] := rfl
  refine hs.congr rfl ?_ ?_ rfl rfl hs.held ?_ (fun _ => .inl hrunning) rfl rfl
  · simp only [recordsInFlight, eventsOf_append, hdrop, List.append_nil]
  · simp only [unanswered, eventsOf_append, hdrop, List.append_nil]
  · simp only [eventsOf_append, hdrop, List.append_nil]

/-! ### The committer's group -/

theorem takeGroup_append (maxBytes : ℕ) (bytes : ℕ) (group queue : List Queued) :
    (takeGroup maxBytes bytes group queue).1 ++ (takeGroup maxBytes bytes group queue).2 =
      group ++ queue := by
  induction queue generalizing bytes group with
  | nil => simp [takeGroup]
  | cons entry queue ih =>
    rw [takeGroup]
    split
    · rw [ih, List.append_assoc]
      rfl
    · rfl

/-- The records of a group move from the queue to the committer. -/
theorem Consistent.takeGroup {s : KeeperWal} (hs : Consistent s) (hgroup : s.group = [])
    (hunregistered : s.unregistered = []) {entries queue : List Queued}
    (hsplit : entries ++ queue = s.queue) (queuedBytes : ℕ) :
    Consistent { s with
      queue := queue
      queuedBytes := queuedBytes
      group := entries
      unregistered := entries } := by
  have hrecords : eventsOf (entries ++ queue) = s.recordsInFlight := by
    simp only [recordsInFlight, hunregistered, hsplit, List.nil_append]
  have hpermutation : (eventsOf (entries ++ (s.refused ++ queue))).Perm s.unanswered := by
    simp only [unanswered, hgroup, ← hsplit, List.nil_append, eventsOf_append]
    exact List.perm_append_comm_assoc ..
  exact
    { inFlight := by
        show ∀ identity completion, s.inFlight[identity]? = some completion ↔
          ∃ e ∈ eventsOf (entries ++ queue), _
        rw [hrecords]
        exact hs.inFlight
      identities := by
        show ((eventsOf (entries ++ queue)).map QueuedEvent.identity).Nodup
        rw [hrecords]
        exact hs.identities
      completions := ((hpermutation.map _).nodup_iff).mpr hs.completions
      awaited := fun completion => ((hpermutation.map _).mem_iff).trans (hs.awaited completion)
      held := fun entry hentry => hentry
      asked := fun e he => hs.asked e (hpermutation.mem_iff.mp he)
      unsynced := by
        intro e he
        refine hs.unsynced e ?_
        simp only [← hsplit, eventsOf_append, List.mem_append] at he ⊢
        exact he.imp_right .inr
      answered := hs.answered
      given := hs.given
      drained := by
        intro hqueue
        refine hs.drained fun h => hqueue ?_
        exact (List.append_eq_nil_iff.mp (hsplit.trans h)).2
      pending := hs.pending
      justified := hs.justified
      followed := hs.followed }

/-- The sync of the committer's group keeps the invariant. -/
theorem Consistent.synced {s : KeeperWal} (hs : Consistent s) (segment : ℕ) (image : Bytes)
    (hunsynced : ∀ e ∈ eventsOf s.group,
      e.completion ∉ (syncedRecords s.trace).map QueuedEvent.completion) :
    Consistent (s.observe [.synced segment s.group image]) where
  inFlight := hs.inFlight
  identities := hs.identities
  completions := hs.completions
  awaited := hs.awaited
  held := hs.held
  asked e he := (hs.asked e he).mono [_]
  unsynced e he := by
    show e.completion ∉ (eventsOf s.group ++ syncedRecords s.trace).map QueuedEvent.completion
    rw [List.map_append, List.mem_append]
    rintro (hmem | hmem)
    · -- the completions of the group and of the queues are different
      have hnodup := hs.completions
      simp only [unanswered, eventsOf_append, List.map_append] at hnodup
      refine (List.nodup_append.mp hnodup).2.2 _ hmem _ ?_ rfl
      rw [← List.map_append, ← eventsOf_append]
      exact List.mem_map_of_mem he
    · exact hs.unsynced e he hmem
  answered completion status := by
    refine (hs.answered completion status).trans ⟨List.mem_cons_of_mem _, fun hmem => ?_⟩
    exact (List.mem_cons.mp hmem).resolve_left (fun h => by cases h)
  given client identity record hmem :=
    hs.given client identity record ((List.mem_cons.mp hmem).resolve_left (fun h => by cases h))
  drained := hs.drained
  pending storyId event hp := (hs.pending storyId event hp).mono [_]
  justified := by
    have hgroup : ∀ e ∈ eventsOf s.group, e ∈ s.unanswered := fun e he =>
      mem_eventsOf.mpr (List.mem_append_left _ (mem_eventsOf.mp he))
    refine ⟨⟨?_, fun e he => ⟨hs.asked e (hgroup e he), hunsynced e he, fun status h => ?_⟩⟩,
      hs.justified⟩
    · have hnodup := hs.completions
      rw [unanswered, eventsOf_append, List.map_append] at hnodup
      exact (List.nodup_append.mp hnodup).1
    · have hnone := ((hs.awaited e.completion).mp (List.mem_map_of_mem (hgroup e he))).2
      replace h : .answered e.completion status ∈ s.trace := h
      rw [← hs.answered, hnone] at h
      cases h
  followed := ⟨Observation.follows_of_none rfl _, hs.followed⟩

theorem isPending_addCopy {tracker : WalReleaseTracker} {storyId story : StoryId}
    {event other : EventSequence} {segment bytes : ℕ}
    (h : (tracker.addCopy storyId event segment bytes).isPending story other) :
    (storyId = story ∧ event = other) ∨ tracker.isPending story other := by
  rw [WalReleaseTracker.isPending_eq_isSome, WalReleaseTracker.copies_addCopy] at h
  split at h
  · exact .inl ‹_›
  · exact .inr (by rwa [WalReleaseTracker.isPending_eq_isSome])

/-- What the registering of records leaves alone, and what it may make pending. -/
structure Registers (identities : List Identity) (s t : KeeperWal) : Prop where
  conf : t.conf = s.conf
  state : t.state = s.state
  queue : t.queue = s.queue
  group : t.group = s.group
  refused : t.refused = s.refused
  results : t.results = s.results
  nextCompletion : t.nextCompletion = s.nextCompletion
  committerAlive : t.committerAlive = s.committerAlive
  trace : t.trace = s.trace
  pending : ∀ storyId event, t.tracker.isPending storyId event →
    s.tracker.isPending storyId event ∨ ⟨storyId, event⟩ ∈ identities

theorem Registers.refl (identities : List Identity) (s : KeeperWal) :
    Registers identities s s :=
  ⟨rfl, rfl, rfl, rfl, rfl, rfl, rfl, rfl, rfl, fun _ _ h => .inl h⟩

theorem Registers.trans {identities identities' : List Identity} {s t u : KeeperWal}
    (h : Registers identities s t) (h' : Registers identities' t u) :
    Registers (identities ++ identities') s u := by
  refine ⟨h'.conf.trans h.conf, h'.state.trans h.state, h'.queue.trans h.queue,
    h'.group.trans h.group, h'.refused.trans h.refused, h'.results.trans h.results,
    h'.nextCompletion.trans h.nextCompletion, h'.committerAlive.trans h.committerAlive,
    h'.trace.trans h.trace, fun storyId event hp => ?_⟩
  rcases h'.pending storyId event hp with hp | hmem
  · rcases h.pending storyId event hp with hp | hmem
    · exact .inl hp
    · exact .inr (List.mem_append_left _ hmem)
  · exact .inr (List.mem_append_right _ hmem)

theorem registers_registerEvent (s : KeeperWal) (status : ErrorCode) (segment : ℕ)
    (e : QueuedEvent) :
    Registers (if status = .CL_SUCCESS then [e.identity] else []) s
      (s.registerEvent status segment e) := by
  simp only [registerEvent]
  split
  · have hpending : ∀ storyId event,
        (s.tracker.addCopy e.identity.storyId e.identity.sequence segment
          e.frame.size).isPending storyId event →
        s.tracker.isPending storyId event ∨ (⟨storyId, event⟩ : Identity) ∈ [e.identity] := by
      intro storyId event h
      rcases isPending_addCopy h with ⟨rfl, rfl⟩ | h
      · exact .inr List.mem_cons_self
      · exact .inl h
    split
    · exact ⟨rfl, rfl, rfl, rfl, rfl, rfl, rfl, rfl, rfl, hpending⟩
    · exact ⟨rfl, rfl, rfl, rfl, rfl, rfl, rfl, rfl, rfl, hpending⟩
  · split
    · exact ⟨rfl, rfl, rfl, rfl, rfl, rfl, rfl, rfl, rfl, fun _ _ h => .inl h⟩
    · exact .refl _ s

theorem inFlight_registerEvent {s : KeeperWal} {e : QueuedEvent}
    (h : s.inFlight[e.identity]? = some e.completion) (status : ErrorCode) (segment : ℕ) :
    (s.registerEvent status segment e).inFlight = s.inFlight.erase e.identity := by
  simp only [registerEvent]
  by_cases hstatus : status = .CL_SUCCESS
  · simp only [hstatus, if_true, noteAdded, h]
  · simp only [hstatus, if_false, h, if_true]

/-- A record that is registered, or dropped, leaves the records in flight. -/
theorem Consistent.registerEvent {s : KeeperWal} {status : ErrorCode} {e : QueuedEvent}
    {entries : List Queued} (hs : Consistent { s with unregistered := .event e :: entries })
    (hdurable : status = .CL_SUCCESS → Durable s.trace e.identity) (segment : ℕ) :
    Consistent { s.registerEvent status segment e with unregistered := entries } := by
  have hregisters := s.registers_registerEvent status segment e
  have hrecords : eventsOf (.event e :: entries ++ s.queue) =
      e :: eventsOf (entries ++ s.queue) := rfl
  have hflight : s.inFlight[e.identity]? = some e.completion := by
    refine (hs.inFlight e.identity e.completion).mpr ⟨e, ?_, rfl, rfl⟩
    exact mem_eventsOf.mpr List.mem_cons_self
  have hnodup : (e.identity :: (eventsOf (entries ++ s.queue)).map QueuedEvent.identity).Nodup :=
    hs.identities
  have hfresh : ∀ e' ∈ eventsOf (entries ++ s.queue), e'.identity ≠ e.identity := by
    intro e' he' heq
    exact (List.nodup_cons.mp hnodup).1 (heq ▸ List.mem_map_of_mem he')
  exact
    { inFlight := by
        intro identity completion
        show (s.registerEvent status segment e).inFlight[identity]? = some completion ↔
          ∃ e' ∈ eventsOf (entries ++ (s.registerEvent status segment e).queue), _
        rw [inFlight_registerEvent hflight, hregisters.queue, Std.ExtTreeMap.getElem?_erase]
        have hold := hs.inFlight identity completion
        simp only [recordsInFlight, hrecords, List.mem_cons, exists_eq_or_imp] at hold
        simp only [Std.compare_eq_iff_eq]
        split
        · rename_i heq
          subst heq
          constructor
          · intro h
            cases h
          · rintro ⟨e', he', heq, -⟩
            exact absurd heq (hfresh e' he')
        · rename_i hne
          rw [hold]
          exact or_iff_right fun h => hne h.1
      identities := by
        show ((eventsOf (entries ++ (s.registerEvent status segment e).queue)).map _).Nodup
        rw [hregisters.queue]
        exact (List.nodup_cons.mp hnodup).2
      completions := by
        show ((eventsOf ((s.registerEvent status segment e).group ++
          ((s.registerEvent status segment e).refused ++
            (s.registerEvent status segment e).queue))).map _).Nodup
        rw [hregisters.group, hregisters.refused, hregisters.queue]
        exact hs.completions
      awaited := by
        intro completion
        show completion ∈ (eventsOf ((s.registerEvent status segment e).group ++
          ((s.registerEvent status segment e).refused ++
            (s.registerEvent status segment e).queue))).map _ ↔
          completion < (s.registerEvent status segment e).nextCompletion ∧
            (s.registerEvent status segment e).results[completion]? = none
        rw [hregisters.group, hregisters.refused, hregisters.queue, hregisters.nextCompletion,
          hregisters.results]
        exact hs.awaited completion
      held := by
        intro entry hentry
        show entry ∈ (s.registerEvent status segment e).group
        rw [hregisters.group]
        exact hs.held entry (List.mem_cons_of_mem _ hentry)
      asked := by
        intro e' he'
        replace he' : e' ∈ eventsOf ((s.registerEvent status segment e).group ++
          ((s.registerEvent status segment e).refused ++
            (s.registerEvent status segment e).queue)) := he'
        rw [hregisters.group, hregisters.refused, hregisters.queue] at he'
        show Asked (s.registerEvent status segment e).trace e'
        rw [hregisters.trace]
        exact hs.asked e' he'
      unsynced := by
        show ∀ e' ∈ eventsOf ((s.registerEvent status segment e).refused ++
            (s.registerEvent status segment e).queue), e'.completion ∉
          (syncedRecords (s.registerEvent status segment e).trace).map QueuedEvent.completion
        rw [hregisters.refused, hregisters.queue, hregisters.trace]
        exact hs.unsynced
      answered := by
        intro completion answer
        show (s.registerEvent status segment e).results[completion]? = some answer ↔
          _ ∈ (s.registerEvent status segment e).trace
        rw [hregisters.results, hregisters.trace]
        exact hs.answered completion answer
      given := by
        show ∀ client identity record,
          .attempt client identity (.queued record) ∈ (s.registerEvent status segment e).trace →
          record.completion < (s.registerEvent status segment e).nextCompletion
        rw [hregisters.trace, hregisters.nextCompletion]
        exact hs.given
      drained := by
        show (s.registerEvent status segment e).queue ≠ [] →
          (s.registerEvent status segment e).state = .Running ∨
            (s.registerEvent status segment e).committerAlive
        rw [hregisters.queue, hregisters.state, hregisters.committerAlive]
        exact hs.drained
      pending := by
        intro storyId event hp
        show Durable (s.registerEvent status segment e).trace ⟨storyId, event⟩
        rw [hregisters.trace]
        rcases hregisters.pending storyId event hp with hp | hmem
        · exact hs.pending storyId event hp
        · split at hmem
          · rw [List.mem_singleton.mp hmem]
            exact hdurable ‹_›
          · cases hmem
      justified := by
        show Justified (s.registerEvent status segment e).trace
        rw [hregisters.trace]
        exact hs.justified
      followed := by
        show Followed (s.registerEvent status segment e).trace
        rw [hregisters.trace]
        exact hs.followed }

/-- One hold of `finishGroup` keeps the invariant and gets on with the group. -/
theorem Consistent.registerBatch {status : ErrorCode} (segment : ℕ) (budget : ℕ)
    (entries : List Queued) {s : KeeperWal} (hs : Consistent { s with unregistered := entries })
    (hdurable : status = .CL_SUCCESS →
      ∀ e ∈ eventsOf entries, Durable s.trace e.identity) :
    let r := KeeperWal.registerBatch status segment budget entries s
    Consistent { r.2.2 with unregistered := r.2.1 } ∧ r.2.1 <:+ entries ∧
      (0 < budget → entries ≠ [] → r.2.1.length < entries.length) ∧
      ∃ identities, Registers identities s r.2.2 := by
  induction budget generalizing entries s with
  | zero => exact ⟨hs, List.suffix_refl _, fun h => absurd h (Nat.lt_irrefl 0), [], .refl _ s⟩
  | succ budget ih =>
    cases entries with
    | nil => exact ⟨hs, List.suffix_refl _, fun _ h => absurd rfl h, [], .refl _ s⟩
    | cons entry entries =>
      cases entry with
      | event e =>
        have hregisters := s.registers_registerEvent status segment e
        have hs' := hs.registerEvent (fun h => hdurable h e List.mem_cons_self) segment
        obtain ⟨h₁, h₂, -, identities, h₄⟩ := ih entries hs' (fun h e' he' => by
          rw [hregisters.trace]
          exact hdurable h e' (List.mem_cons_of_mem _ he'))
        refine ⟨h₁, h₂.trans (List.suffix_cons _ _), fun _ _ => ?_, _, hregisters.trans h₄⟩
        exact Nat.lt_succ_of_le h₂.length_le
      | drop storyId =>
        have hs' : Consistent { s with unregistered := entries } :=
          hs.congr rfl rfl rfl rfl rfl
            (fun entry hentry => hs.held entry (List.mem_cons_of_mem _ hentry)) rfl hs.drained
            rfl rfl
        simp only [KeeperWal.registerBatch]
        split
        · refine ⟨hs'.congr rfl rfl rfl rfl rfl hs'.held rfl hs'.drained rfl rfl,
            List.suffix_cons _ _, fun _ _ => Nat.lt_succ_self _, [], ?_⟩
          exact ⟨rfl, rfl, rfl, rfl, rfl, rfl, rfl, rfl, rfl, fun _ _ h => .inl h⟩
        · obtain ⟨h₁, h₂, -, h₄⟩ := ih entries hs' hdurable
          exact ⟨h₁, h₂.trans (List.suffix_cons _ _),
            fun _ _ => Nat.lt_succ_of_le h₂.length_le, h₄⟩

/-! ### Answers -/

/-- The answer to a record that waits for one, which is taken off the lists of those
that do. -/
theorem Consistent.setAnswer {s : KeeperWal} (hs : Consistent s) {e : QueuedEvent}
    {status : ErrorCode} (hmem : e ∈ s.unanswered)
    (hsynced : status = .CL_SUCCESS ↔ e ∈ syncedRecords s.trace) {group refused : List Queued}
    (hperm : s.unanswered.Perm (e :: eventsOf (group ++ (refused ++ s.queue))))
    (hheld : ∀ entry ∈ s.unregistered, entry ∈ group)
    (hrefused : ∀ entry ∈ refused, entry ∈ s.refused) :
    Consistent { s.setAnswer status (.event e) with group := group, refused := refused } := by
  have hcompletion : e.completion < s.nextCompletion ∧ s.results[e.completion]? = none :=
    (hs.awaited e.completion).mp (List.mem_map_of_mem hmem)
  have hnodup := ((hperm.map QueuedEvent.completion).nodup_iff).mp hs.completions
  have hother : ∀ completion, completion ∈
      (eventsOf (group ++ (refused ++ s.queue))).map QueuedEvent.completion →
      completion ≠ e.completion := by
    intro completion hc heq
    exact (List.nodup_cons.mp hnodup).1 (heq ▸ hc)
  have hresults : ∀ completion, (s.results.insert e.completion status)[completion]? =
      if e.completion = completion then some status else s.results[completion]? := by
    intro completion
    rw [Std.ExtTreeMap.getElem?_insert]
    simp only [Std.compare_eq_iff_eq]
  exact
    { inFlight := hs.inFlight
      identities := hs.identities
      completions := (List.nodup_cons.mp hnodup).2
      awaited := by
        intro completion
        show completion ∈ (eventsOf (group ++ (refused ++ s.queue))).map _ ↔
          completion < s.nextCompletion ∧
            (s.results.insert e.completion status)[completion]? = none
        have hold := (hs.awaited completion).symm.trans (hperm.map QueuedEvent.completion).mem_iff
        rw [hresults]
        constructor
        · intro hc
          have hne := hother completion hc
          rw [if_neg (Ne.symm hne)]
          exact hold.mpr (List.mem_cons_of_mem _ hc)
        · rintro ⟨hlt, hres⟩
          split at hres
          · cases hres
          · rename_i hne
            exact (List.mem_cons.mp (hold.mp ⟨hlt, hres⟩)).resolve_left (Ne.symm hne)
      held := hheld
      asked := by
        intro e' he'
        exact (hs.asked e' (hperm.mem_iff.mpr (List.mem_cons_of_mem _ he'))).mono [_]
      unsynced := by
        intro e' he'
        refine hs.unsynced e' ?_
        rw [mem_eventsOf, List.mem_append] at he' ⊢
        exact he'.imp_left (hrefused _)
      answered := by
        intro completion answer
        show (s.results.insert e.completion status)[completion]? = some answer ↔
          _ ∈ .answered e.completion status :: s.trace
        rw [hresults, List.mem_cons, ← hs.answered completion answer]
        split
        · rename_i heq
          subst heq
          rw [hcompletion.2]
          simp [eq_comm]
        · rename_i hne
          simp [Ne.symm hne]
      given := by
        intro client identity record hgiven
        refine hs.given client identity record ?_
        exact (List.mem_cons.mp hgiven).resolve_left (by simp)
      drained := hs.drained
      pending := fun storyId event hp => (hs.pending storyId event hp).mono [_]
      justified := by
        refine ⟨⟨⟨e, hs.asked e hmem, rfl, hsynced⟩, fun answer hanswer => ?_⟩, hs.justified⟩
        rw [← hs.answered, hcompletion.2] at hanswer
        cases hanswer
      followed := ⟨Observation.follows_of_none rfl _, hs.followed⟩ }

/-- The answer to the next record of the committer's group. -/
theorem Consistent.answerEntry {s : KeeperWal} (hs : Consistent s) {status : ErrorCode}
    {entry : Queued} {entries : List Queued} (hgroup : s.group = entry :: entries)
    (hunregistered : s.unregistered = [])
    (hsynced : ∀ e ∈ eventsOf s.group, status = .CL_SUCCESS ↔ e ∈ syncedRecords s.trace) :
    Consistent { s.setAnswer status entry with group := s.group.tail } := by
  rw [hgroup, List.tail_cons]
  have hheld : ∀ entry ∈ s.unregistered, entry ∈ entries := by simp [hunregistered]
  cases entry with
  | drop storyId =>
    refine hs.congr rfl rfl ?_ rfl rfl hheld rfl hs.drained rfl rfl
    simp only [unanswered, hgroup]
    rfl
  | event e =>
    have hunanswered : s.unanswered = e :: eventsOf (entries ++ (s.refused ++ s.queue)) := by
      simp only [unanswered, hgroup]
      rfl
    have hmem : e ∈ s.unanswered := by
      rw [hunanswered]
      exact List.mem_cons_self
    refine hs.setAnswer hmem (hsynced e ?_) (.of_eq hunanswered) hheld fun _ h => h
    rw [hgroup]
    exact List.mem_cons_self

/-- The refusal of the next record an abandoned start answers. -/
theorem Consistent.refuseEntry {s : KeeperWal} (hs : Consistent s) {entry : Queued}
    {entries : List Queued} (hrefused : s.refused = entry :: entries) :
    Consistent { s.setAnswer .CL_ERR_DURABILITY_UNAVAILABLE entry with
      refused := s.refused.tail } := by
  rw [hrefused, List.tail_cons]
  cases entry with
  | drop storyId =>
    refine hs.congr rfl rfl ?_ rfl rfl hs.held ?_ hs.drained rfl rfl
    · simp only [unanswered, KeeperWal.setAnswer, hrefused, eventsOf_append]
      rfl
    · simp only [KeeperWal.setAnswer, hrefused, eventsOf_append]
      rfl
  | event e =>
    have hperm : s.unanswered.Perm (e :: eventsOf (s.group ++ (entries ++ s.queue))) := by
      simp only [unanswered, hrefused, eventsOf_append]
      exact List.perm_middle
    have hmem : e ∈ s.unanswered := hperm.mem_iff.mpr List.mem_cons_self
    have hunsynced := hs.unsynced e (by
      rw [hrefused]
      exact mem_eventsOf.mpr List.mem_cons_self)
    refine hs.setAnswer hmem ?_ hperm hs.held fun entry h => hrefused ▸ List.mem_cons_of_mem _ h
    exact iff_of_false (fun h => by cases h) fun h => hunsynced (List.mem_map_of_mem h)

/-! ### Starting -/

/-- An abandoned start takes every queued record back. -/
theorem Consistent.abandon {s : KeeperWal} (hs : Consistent s) (hgroup : s.group = [])
    (hunregistered : s.unregistered = []) (hrefused : s.refused = []) :
    Consistent { s with
      state := .Created
      queue := []
      queuedBytes := 0
      inFlight := ∅
      tracker := .empty
      addOrder := ∅
      refused := s.queue } where
  inFlight identity completion := by
    show (∅ : OrdMap Identity CompletionId)[identity]? = some completion ↔ _
    simp [recordsInFlight, hunregistered, eventsOf]
  identities := by simp [recordsInFlight, hunregistered, eventsOf]
  completions := by
    have h := hs.completions
    simpa only [unanswered, hgroup, hrefused, List.append_nil, List.nil_append] using h
  awaited completion := by
    have h := hs.awaited completion
    simpa only [unanswered, hgroup, hrefused, List.append_nil, List.nil_append] using h
  held := by simp [hunregistered]
  asked := by
    have h := hs.asked
    simpa only [unanswered, hgroup, hrefused, List.append_nil, List.nil_append] using h
  unsynced := by
    have h := hs.unsynced
    simpa only [hrefused, List.append_nil, List.nil_append] using h
  answered := hs.answered
  given := hs.given
  drained h := absurd rfl h
  pending storyId event hp := by
    rw [WalReleaseTracker.isPending_eq_isSome, WalReleaseTracker.copies_empty] at hp
    cases hp
  justified := hs.justified
  followed := hs.followed

/-- The registering of recovered copies: nothing but observations of it and what they
make pending. -/
structure Recovers (s t : KeeperWal) : Prop where
  state : t.state = s.state
  queue : t.queue = s.queue
  group : t.group = s.group
  unregistered : t.unregistered = s.unregistered
  refused : t.refused = s.refused
  committerAlive : t.committerAlive = s.committerAlive
  trace : ∃ newer, t.trace = newer ++ s.trace ∧ ∀ o ∈ newer, ∃ identity, o = .recovered identity
  consistent : Consistent s → Consistent t

theorem Recovers.refl (s : KeeperWal) : Recovers s s :=
  ⟨rfl, rfl, rfl, rfl, rfl, rfl, ⟨[], rfl, by simp⟩, id⟩

theorem Recovers.trans {s t u : KeeperWal} (h : Recovers s t) (h' : Recovers t u) :
    Recovers s u := by
  obtain ⟨newer, hnewer, hrecovered⟩ := h.trace
  obtain ⟨newer', hnewer', hrecovered'⟩ := h'.trace
  refine ⟨h'.state.trans h.state, h'.queue.trans h.queue, h'.group.trans h.group,
    h'.unregistered.trans h.unregistered, h'.refused.trans h.refused,
    h'.committerAlive.trans h.committerAlive,
    ⟨newer' ++ newer, by rw [hnewer', hnewer, List.append_assoc], fun o ho => ?_⟩,
    fun hs => h'.consistent (h.consistent hs)⟩
  rcases List.mem_append.mp ho with ho | ho
  · exact hrecovered' o ho
  · exact hrecovered o ho

theorem isPending_foldl_addCopy {storyId story : StoryId} {event other : EventSequence}
    (copies : List (ℕ × ℕ)) {tracker : WalReleaseTracker}
    (h : (copies.foldl (fun tracker (copy : ℕ × ℕ) =>
      tracker.addCopy storyId event copy.1 copy.2) tracker).isPending story other) :
    (storyId = story ∧ event = other) ∨ tracker.isPending story other := by
  induction copies generalizing tracker with
  | nil => exact .inr h
  | cons copy copies ih =>
    rcases ih h with h | h
    · exact .inl h
    · exact isPending_addCopy h

/-- The copies of one recovered event. -/
theorem recovers_copies (s : KeeperWal) (storyId : StoryId) (event : EventSequence)
    (copies : List (ℕ × ℕ)) :
    Recovers s (({ s with tracker := copies.foldl (fun tracker (copy : ℕ × ℕ) =>
      tracker.addCopy storyId event copy.1 copy.2) s.tracker }.noteAdded storyId event).observe
        [.recovered ⟨storyId, event⟩]) := by
  refine ⟨rfl, rfl, rfl, rfl, rfl, rfl, ⟨[_], rfl, fun o ho => ⟨_, List.mem_singleton.mp ho⟩⟩,
    fun hs => ?_⟩
  have hobserved : Consistent (s.observe [.recovered ⟨storyId, event⟩]) :=
    hs.observe trivial (Observation.follows_of_none rfl _) (fun _ _ _ h => by cases h)
      (fun _ _ h => by cases h) (fun _ _ _ h => by cases h)
  exact
    { inFlight := hobserved.inFlight
      identities := hobserved.identities
      completions := hobserved.completions
      awaited := hobserved.awaited
      held := hobserved.held
      asked := hobserved.asked
      unsynced := hobserved.unsynced
      answered := hobserved.answered
      given := hobserved.given
      drained := hobserved.drained
      pending := by
        intro story other hp
        rcases isPending_foldl_addCopy copies hp with ⟨rfl, rfl⟩ | hp
        · exact .inl List.mem_cons_self
        · exact hobserved.pending story other hp
      justified := hobserved.justified
      followed := hobserved.followed }

theorem recovers_foldl {α : Type} {f : KeeperWal → α → KeeperWal}
    (hf : ∀ s a, Recovers s (f s a)) (l : List α) (s : KeeperWal) :
    Recovers s (l.foldl f s) := by
  induction l generalizing s with
  | nil => exact .refl s
  | cons a l ih => exact (hf s a).trans (ih (f s a))

theorem recovers_registerStory (s : KeeperWal) (storyId : StoryId) (story : RecoveredStory) :
    Recovers s (s.registerStory storyId story) := by
  rw [registerStory]
  refine recovers_foldl (fun s entry => ?_) _ s
  obtain ⟨event, copies⟩ := entry
  exact recovers_copies s storyId event copies

theorem recovers_registerRecovered (s : KeeperWal) (recovered : RecoveredState)
    (idOf : Option (RecoveredStory → StoryId)) :
    Recovers s (s.registerRecovered recovered idOf) := by
  rw [registerRecovered]
  refine recovers_foldl (fun s entry => ?_) _ s
  obtain ⟨walStoryId, story⟩ := entry
  simp only
  split
  · exact recovers_registerStory s _ story
  · exact .refl s

end KeeperWal

end ChronoLog
