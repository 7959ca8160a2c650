import ChronoLog.Wal.GroupImage
import ChronoLog.Wal.Identity

/-!
# Hand-overs to the ingestion queue

A write that queued a record owes the ingestion queue its event once the record is
synced.  What a trace says about that: which records clients still wait for, which
were handed over, and how the hand-overs of an event count against the synced
records of it.

## Main definitions

* `waiting` — the record a client waits for.
* `HandsOver` — every client hands over the record it queued, once it is answered
  with success, before anything else is observed of it.
* `handedOver` — the records that were handed over.
* `syncedEvents` — the events that the synced ranges of the segments hold.

## Main results

* `Imaged.eventsOf_synced` — these are the events of the synced records.
* `HandsOver.countIngested_le`, `HandsOver.countIngested_eq_countSynced` — an event is
  handed over as often as records of it were synced, up to those still waited for.
-/

namespace ChronoLog

/-- The record an observation saw queued. -/
def Observation.queued? : Observation → Option QueuedEvent
  | .attempt _ _ (.queued record) => some record
  | _ => none

/-- The record a client waits for: the last thing observed of it is that it queued
this record. -/
def waiting (client : ClientId) (trace : List Observation) : Option QueuedEvent :=
  (trace.find? fun o => o.client? = some client).bind Observation.queued?

/-- The client owes the ingestion queue nothing: it waits for no record, or for one that
was answered with an error. -/
def NothingDue (client : ClientId) (trace : List Observation) : Prop :=
  ∀ record, waiting client trace = some record →
    ∃ status, status ≠ .CL_SUCCESS ∧ .answered record.completion status ∈ trace

/-- The client's call handed over nothing. -/
def HandedNothing (client : ClientId) (trace : List Observation) : Prop :=
  ∀ event, .ingested client event ∉ sinceCalled client trace

/-- What must hold of a client before an observation of it: it hands over the event of
the record it queued after that was answered with success, and owes nothing when it does
anything else; where it returns an error it handed over nothing. -/
def Observation.DueAfter (older : List Observation) : Observation → Prop
  | .ingested client event => ∃ record, waiting client older = some record ∧
      .answered record.completion .CL_SUCCESS ∈ older ∧
      Wal.encodeEvent event [] = some record.frame
  | .returned client _ status =>
    NothingDue client older ∧ (status ≠ .CL_SUCCESS → HandedNothing client older)
  | .called client => NothingDue client older
  | .attempt client _ _ => NothingDue client older
  | _ => True

/-- Every client hands over what it owes. -/
def HandsOver : List Observation → Prop
  | [] => True
  | o :: older => o.DueAfter older ∧ HandsOver older

/-- The records that were handed over, newest first. -/
def handedOver : List Observation → List QueuedEvent
  | [] => []
  | .ingested client _ :: older => (waiting client older).toList ++ handedOver older
  | _ :: older => handedOver older

/-! ### What the others do -/

theorem waiting_append {client : ClientId} {newer : List Observation} (h : Foreign client newer)
    (older : List Observation) : waiting client (newer ++ older) = waiting client older := by
  have hnone : (newer.find? fun o => o.client? = some client) = none := by
    rw [List.find?_eq_none]
    intro o ho
    simpa using h o ho
  rw [waiting, List.find?_append, hnone, Option.none_or, waiting]

theorem waiting_cons {client : ClientId} {o : Observation} (h : o.client? = some client)
    (older : List Observation) : waiting client (o :: older) = o.queued? := by
  rw [waiting, List.find?_cons_of_pos (by simpa using h), Option.bind_some]

theorem waiting_cons_of_ne {client : ClientId} {o : Observation} (h : o.client? ≠ some client)
    (older : List Observation) : waiting client (o :: older) = waiting client older :=
  waiting_append (show Foreign client [o] by simpa [Foreign] using h) older

theorem NothingDue.append {client : ClientId} {newer older : List Observation}
    (h : NothingDue client older) (hnewer : Foreign client newer) :
    NothingDue client (newer ++ older) := by
  intro record hrecord
  rw [waiting_append hnewer] at hrecord
  obtain ⟨status, hstatus, hanswered⟩ := h record hrecord
  exact ⟨status, hstatus, List.mem_append_right _ hanswered⟩

theorem HandedNothing.append {client : ClientId} {newer older : List Observation}
    (h : HandedNothing client older) (hnewer : Foreign client newer) :
    HandedNothing client (newer ++ older) := by
  intro event
  rw [mem_sinceCalled_append rfl hnewer]
  exact h event

/-- Nor does an observation of the client itself that hands nothing over. -/
theorem HandedNothing.cons {client : ClientId} {older : List Observation} {o : Observation}
    (h : HandedNothing client older) (ho : ∀ event, o ≠ .ingested client event) :
    HandedNothing client (o :: older) := by
  intro event hmem
  rw [sinceCalled, List.takeWhile_cons] at hmem
  split at hmem
  · rcases List.mem_cons.mp hmem with heq | hmem
    · exact ho event heq.symm
    · exact h event hmem
  · cases hmem

theorem handedNothing_called (client : ClientId) (older : List Observation) :
    HandedNothing client (.called client :: older) := by
  intro event hmem
  rw [sinceCalled, List.takeWhile_cons_of_neg (by simp)] at hmem
  cases hmem

/-- Observations of no client change nothing. -/
theorem HandsOver.append {newer older : List Observation} (h : HandsOver older)
    (hnewer : ∀ o ∈ newer, o.client? = none) : HandsOver (newer ++ older) := by
  induction newer with
  | nil => exact h
  | cons o newer ih =>
    refine ⟨?_, ih fun o ho => hnewer o (List.mem_cons_of_mem _ ho)⟩
    have ho := hnewer o List.mem_cons_self
    cases o with
    | called | attempt | ingested | returned => cases ho
    | _ => trivial

theorem HandsOver.of_append {newer older : List Observation} {o : Observation}
    (h : HandsOver (newer ++ o :: older)) : o.DueAfter older := by
  induction newer with
  | nil => exact h.1
  | cons o' newer ih => exact ih h.2

/-! ### Synced records -/

theorem Justified.nodup_synced {trace : List Observation} (h : Justified trace) :
    (syncedRecords trace).Nodup := by
  induction trace with
  | nil => exact List.nodup_nil
  | cons o older ih =>
    cases o with
    | synced segment group image =>
      refine List.nodup_append.mpr ⟨h.1.1.of_map, ih h.2, fun record hmem record' hmem' heq => ?_⟩
      exact (h.1.2 record hmem).2.1 (heq ▸ List.mem_map_of_mem hmem')
    | _ => exact ih h.2

/-- The answer to a record that was synced is success. -/
theorem Justified.success_of_synced {trace : List Observation} (h : Justified trace)
    {record : QueuedEvent} (hrecord : record ∈ syncedRecords trace) {status : ErrorCode}
    (hanswered : .answered record.completion status ∈ trace) : status = .CL_SUCCESS := by
  induction trace with
  | nil => cases hanswered
  | cons o older ih =>
    rcases List.mem_cons.mp hanswered with rfl | hold
    · exact (h.answered_iff (h.asked_of_synced hrecord) (List.nil_append _).symm).mpr hrecord
    · clear hanswered
      cases o with
      | synced segment group image =>
        rcases List.mem_append.mp hrecord with hmem | hmem
        · exact absurd hold ((h.1.2 record hmem).2.2 status)
        · exact ih h.2 hmem hold
      | _ => exact ih h.2 hrecord hold

/-! ### Records that were handed over -/

theorem queued_of_waiting {client : ClientId} {trace : List Observation} {record : QueuedEvent}
    (h : waiting client trace = some record) :
    ∃ identity, .attempt client identity (.queued record) ∈ trace := by
  obtain ⟨o, hfind, hqueued⟩ := Option.bind_eq_some_iff.mp h
  have ho := List.mem_of_find?_eq_some hfind
  have hclient := List.find?_some hfind
  cases o with
  | attempt client' identity outcome =>
    cases outcome with
    | queued record' =>
      cases hqueued
      simp only [Observation.client?, decide_eq_true_eq, Option.some.injEq] at hclient
      exact ⟨identity, hclient ▸ ho⟩
    | _ => cases hqueued
  | _ => cases hqueued

theorem Justified.asked_of_waiting {client : ClientId} {trace : List Observation}
    (h : Justified trace) {record : QueuedEvent} (hw : waiting client trace = some record) :
    Asked trace record := by
  obtain ⟨identity, hmem⟩ := queued_of_waiting hw
  obtain ⟨newer, older, rfl⟩ := List.append_of_mem hmem
  have hidentity : record.identity = identity := h.of_append.1
  exact ⟨client, hidentity ▸ hmem⟩

theorem mem_handedOver_cons {o : Observation} {older : List Observation} {record : QueuedEvent}
    (h : record ∈ handedOver (o :: older)) :
    record ∈ handedOver older ∨ ∃ client event, o = .ingested client event ∧
      waiting client older = some record := by
  cases o with
  | ingested client event =>
    rcases List.mem_append.mp h with h | h
    · exact .inr ⟨client, event, rfl, Option.mem_toList.mp h⟩
    · exact .inl h
  | _ => exact .inl h

/-- What was handed over was queued by someone. -/
theorem queued_of_handedOver {trace : List Observation} {record : QueuedEvent}
    (h : record ∈ handedOver trace) :
    ∃ client identity, .attempt client identity (.queued record) ∈ trace := by
  induction trace with
  | nil => cases h
  | cons o older ih =>
    rcases mem_handedOver_cons h with h | ⟨client, event, -, hw⟩
    · obtain ⟨client, identity, hmem⟩ := ih h
      exact ⟨client, identity, List.mem_cons_of_mem _ hmem⟩
    · obtain ⟨identity, hmem⟩ := queued_of_waiting hw
      exact ⟨client, identity, List.mem_cons_of_mem _ hmem⟩

/-- Nobody waits for a record that was handed over. -/
theorem Justified.not_waiting_of_handedOver {trace : List Observation} (h : Justified trace)
    {record : QueuedEvent} (hrecord : record ∈ handedOver trace) (client : ClientId) :
    waiting client trace ≠ some record := by
  induction trace with
  | nil => cases hrecord
  | cons o older ih =>
    intro hw
    by_cases ho : o.client? = some client
    · -- the record is queued only now, so it was not handed over before
      rw [waiting_cons ho] at hw
      cases o with
      | attempt client' identity outcome =>
        cases outcome with
        | queued record' =>
          cases hw
          obtain ⟨c, i, hmem⟩ := queued_of_handedOver (show record ∈ handedOver older from hrecord)
          exact h.1.2 c i record hmem rfl
        | _ => cases hw
      | _ => cases hw
    · rw [waiting_cons_of_ne ho] at hw
      rcases mem_handedOver_cons hrecord with hmem | ⟨client', event, rfl, hw'⟩
      · exact ih h.2 hmem hw
      · obtain ⟨identity, hq⟩ := queued_of_waiting hw
        obtain ⟨identity', hq'⟩ := queued_of_waiting hw'
        obtain ⟨-, rfl⟩ := h.2.record_unique hq hq' rfl
        exact ho rfl

theorem Justified.nodup_handedOver {trace : List Observation} (h : Justified trace) :
    (handedOver trace).Nodup := by
  induction trace with
  | nil => exact List.nodup_nil
  | cons o older ih =>
    cases o with
    | ingested client event =>
      simp only [handedOver]
      rcases hw : waiting client older with - | record
      · exact ih h.2
      · exact List.nodup_cons.mpr
          ⟨fun hmem => h.2.not_waiting_of_handedOver hmem client hw, ih h.2⟩
    | _ => exact ih h.2

/-- Only synced records are handed over. -/
theorem HandsOver.synced_of_handedOver {trace : List Observation} (hdue : HandsOver trace)
    (h : Justified trace) {record : QueuedEvent} (hrecord : record ∈ handedOver trace) :
    record ∈ syncedRecords trace := by
  induction trace with
  | nil => cases hrecord
  | cons o older ih =>
    have hold : record ∈ syncedRecords older := by
      rcases mem_handedOver_cons hrecord with hmem | ⟨client, event, rfl, hw⟩
      · exact ih hdue.2 h.2 hmem
      · obtain ⟨record', hw', hanswered, -⟩ := hdue.1
        cases hw.symm.trans hw'
        obtain ⟨newer, older', rfl⟩ := List.append_of_mem hanswered
        have hsynced := (h.2.answered_iff (h.2.asked_of_waiting hw) rfl).mp rfl
        rw [syncedRecords_append]
        exact List.mem_append_right _ hsynced
    exact List.mem_append_right _ hold

/-- A record that was queued is handed over, still waited for or answered with an
error. -/
theorem HandsOver.handedOver_or_waiting {trace : List Observation} (hdue : HandsOver trace)
    {client : ClientId} {identity : Identity} {record : QueuedEvent}
    (hq : .attempt client identity (.queued record) ∈ trace) :
    record ∈ handedOver trace ∨ waiting client trace = some record ∨
      ∃ status, status ≠ .CL_SUCCESS ∧ .answered record.completion status ∈ trace := by
  induction trace with
  | nil => cases hq
  | cons o older ih =>
    rcases List.mem_cons.mp hq with rfl | hq
    · exact .inr (.inl (waiting_cons rfl older))
    · rcases ih hdue.2 hq with hmem | hw | ⟨status, hstatus, hanswered⟩
      · refine .inl ?_
        cases o with
        | ingested => exact List.mem_append_right _ hmem
        | _ => exact hmem
      · by_cases ho : o.client? = some client
        · cases o with
          | ingested client' event =>
            obtain rfl : client' = client := Option.some.inj ho
            refine .inl ?_
            simp only [handedOver, hw]
            exact List.mem_cons_self
          | called client' =>
            obtain rfl : client' = client := Option.some.inj ho
            obtain ⟨status, hstatus, hanswered⟩ := hdue.1 record hw
            exact .inr (.inr ⟨status, hstatus, List.mem_cons_of_mem _ hanswered⟩)
          | attempt client' =>
            obtain rfl : client' = client := Option.some.inj ho
            obtain ⟨status, hstatus, hanswered⟩ := hdue.1 record hw
            exact .inr (.inr ⟨status, hstatus, List.mem_cons_of_mem _ hanswered⟩)
          | returned client' =>
            obtain rfl : client' = client := Option.some.inj ho
            obtain ⟨status, hstatus, hanswered⟩ := hdue.1.1 record hw
            exact .inr (.inr ⟨status, hstatus, List.mem_cons_of_mem _ hanswered⟩)
          | _ => cases ho
        · exact .inr (.inl (by rw [waiting_cons_of_ne ho]; exact hw))
      · exact .inr (.inr ⟨status, hstatus, List.mem_cons_of_mem _ hanswered⟩)

/-- A synced record was handed over, or its client still waits for it. -/
theorem HandsOver.handedOver_of_synced {trace : List Observation} (hdue : HandsOver trace)
    (h : Justified trace) {record : QueuedEvent} (hrecord : record ∈ syncedRecords trace) :
    record ∈ handedOver trace ∨ ∃ client, waiting client trace = some record := by
  obtain ⟨client, hq⟩ := h.asked_of_synced hrecord
  rcases hdue.handedOver_or_waiting hq with hmem | hw | ⟨status, hstatus, hanswered⟩
  · exact .inl hmem
  · exact .inr ⟨client, hw⟩
  · exact absurd (h.success_of_synced hrecord hanswered) hstatus

/-! ### Counting -/

/-- The observation is a hand-over of the event. -/
def Observation.ingests (event : LogEvent) : Observation → Bool
  | .ingested _ event' => event' = event
  | _ => false

/-- The record is one of the event. -/
def QueuedEvent.isOf (event : LogEvent) (record : QueuedEvent) : Bool :=
  Wal.encodeEvent event [] = some record.frame

/-- The hand-overs of an event. -/
def countIngested (event : LogEvent) (trace : List Observation) : ℕ :=
  trace.countP (Observation.ingests event)

/-- The events of the E records in the range that a data sync made durable. -/
def Observation.eventsSynced : Observation → List LogEvent
  | .synced _ _ image => Wal.eventsIn image
  | _ => []

/-- The events that the synced ranges of the segments hold. -/
def syncedEvents (trace : List Observation) : List LogEvent :=
  trace.flatMap Observation.eventsSynced

/-- The records of an event that were written and synced. -/
def countSynced (event : LogEvent) (trace : List Observation) : ℕ :=
  (syncedEvents trace).count event

/-- Each synced range holds the E records of its group. -/
def Imaged (trace : List Observation) : Prop :=
  ∀ segment group image, .synced segment group image ∈ trace →
    EventsOf (Wal.eventsIn image) (eventsOf group)

theorem Imaged.older {newer older : List Observation} (h : Imaged (newer ++ older)) :
    Imaged older := fun segment group image hmem =>
  h segment group image (List.mem_append_right newer hmem)

theorem Imaged.tail {o : Observation} {older : List Observation} (h : Imaged (o :: older)) :
    Imaged older := fun segment group image hmem =>
  h segment group image (List.mem_cons_of_mem o hmem)

theorem EventsOf.append {events events' : List LogEvent} {records records' : List QueuedEvent}
    (h : EventsOf events records) (h' : EventsOf events' records') :
    EventsOf (events ++ events') (records ++ records') := List.rel_append h h'

/-- **The synced ranges hold the synced records** and no others. -/
theorem Imaged.eventsOf_synced {trace : List Observation} (h : Imaged trace) :
    EventsOf (syncedEvents trace) (syncedRecords trace) := by
  induction trace with
  | nil => exact .nil
  | cons o older ih =>
    have hold := ih h.tail
    cases o with
    | synced segment group image =>
      exact (h segment group image List.mem_cons_self).append hold
    | _ => exact hold

theorem EventsOf.map_ofEvent {events : List LogEvent} {records : List QueuedEvent}
    (h : EventsOf events records) :
    events.map Identity.ofEvent = records.map QueuedEvent.identity := by
  induction h with
  | nil => rfl
  | cons hrecord _ ih => rw [List.map_cons, List.map_cons, hrecord.2, ih]

theorem EventsOf.count_eq {events : List LogEvent} {records : List QueuedEvent}
    (h : EventsOf events records) (event : LogEvent) :
    events.count event = records.countP (QueuedEvent.isOf event) := by
  induction h with
  | nil => rfl
  | @cons event' record events records hrecord _ ih =>
    have hsame : (event' == event) = QueuedEvent.isOf event record := by
      rw [QueuedEvent.isOf, Bool.eq_iff_iff, beq_iff_eq, decide_eq_true_eq]
      exact ⟨fun heq => heq ▸ hrecord.1, fun hframe => Wal.encodeEvent_inj hrecord.1 hframe⟩
    rw [List.count_cons, List.countP_cons, ih, hsame]

/-- A durable identity was recovered, or a synced range holds an event of it. -/
theorem Imaged.exists_event {trace : List Observation} (h : Imaged trace) {identity : Identity}
    (hdurable : Durable trace identity) :
    .recovered identity ∈ trace ∨ ∃ segment group image, .synced segment group image ∈ trace ∧
      ∃ event ∈ Wal.eventsIn image, Identity.ofEvent event = identity := by
  refine hdurable.imp_right fun hmem => ?_
  rw [← h.eventsOf_synced.map_ofEvent] at hmem
  obtain ⟨event, hevent, heq⟩ := List.mem_map.mp hmem
  obtain ⟨o, ho, hevent⟩ := List.mem_flatMap.mp hevent
  cases o with
  | synced segment group image => exact ⟨segment, group, image, ho, event, hevent, heq⟩
  | _ => cases hevent

theorem EventsOf.mem_of_isOf {events : List LogEvent} {records : List QueuedEvent}
    (h : EventsOf events records) {event : LogEvent} {record : QueuedEvent}
    (hrecord : record ∈ records) (hframe : QueuedEvent.isOf event record) : event ∈ events := by
  rw [← List.count_pos_iff, h.count_eq event]
  exact List.countP_pos_iff.mpr ⟨record, hrecord, hframe⟩

/-- Every hand-over of an event is the hand-over of a record of it. -/
theorem HandsOver.countIngested_eq {trace : List Observation} (hdue : HandsOver trace)
    (event : LogEvent) :
    countIngested event trace = (handedOver trace).countP (QueuedEvent.isOf event) := by
  induction trace with
  | nil => rfl
  | cons o older ih =>
    have ih := ih hdue.2
    simp only [countIngested] at ih ⊢
    cases o with
    | ingested client event' =>
      obtain ⟨record, hw, -, hframe⟩ := hdue.1
      have hiff : event' = event ↔ Wal.encodeEvent event [] = some record.frame := by
        refine ⟨fun h => h ▸ hframe, fun h => Wal.encodeEvent_inj hframe h⟩
      have hsame : Observation.ingests event (.ingested client event') =
          QueuedEvent.isOf event record := by
        rw [Observation.ingests, QueuedEvent.isOf, decide_eq_decide]
        exact hiff
      simp only [handedOver, hw, Option.toList_some, List.singleton_append, List.countP_cons,
        ih, hsame]
    | _ => simpa [List.countP_cons, Observation.ingests, handedOver] using ih

/-- **An event is handed over at most as often as records of it were synced.** -/
theorem HandsOver.countIngested_le {trace : List Observation} (hdue : HandsOver trace)
    (h : Justified trace) (himaged : Imaged trace) (event : LogEvent) :
    countIngested event trace ≤ countSynced event trace := by
  rw [hdue.countIngested_eq, countSynced, himaged.eventsOf_synced.count_eq]
  have hsub : (handedOver trace).Subperm (syncedRecords trace) :=
    List.subperm_of_subset h.nodup_handedOver fun record => hdue.synced_of_handedOver h
  exact hsub.countP_le _

/-- **It is handed over as often as that once no client waits for a record.** -/
theorem HandsOver.countIngested_eq_countSynced {trace : List Observation}
    (hdue : HandsOver trace) (h : Justified trace) (himaged : Imaged trace)
    (hwaiting : ∀ client, NothingDue client trace) (event : LogEvent) :
    countIngested event trace = countSynced event trace := by
  rw [hdue.countIngested_eq, countSynced, himaged.eventsOf_synced.count_eq]
  refine List.Perm.countP_eq _ ?_
  rw [List.perm_ext_iff_of_nodup h.nodup_handedOver h.nodup_synced]
  refine fun record => ⟨hdue.synced_of_handedOver h, fun hrecord => ?_⟩
  rcases hdue.handedOver_of_synced h hrecord with hmem | ⟨client, hw⟩
  · exact hmem
  · -- a client that owes nothing waits for no synced record
    obtain ⟨status, hstatus, hanswered⟩ := hwaiting client record hw
    exact absurd (h.success_of_synced hrecord hanswered) hstatus

end ChronoLog
