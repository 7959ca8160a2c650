import ChronoLog.Lib.Transition
import ChronoLog.Wal.State

/-!
# The gate for writes at shutdown

A write counts itself in before it reads whether the gate is open, and `close` shuts the
gate before it reads the count.  Each atomic operation of the handshake is a step here, so
the steps of the writes and of `close` interleave in every order that sequential
consistency allows.

The calls of `record_event` are of an arbitrary type: any number of them may run at a
time.  The count is an integer that could go below zero; that it does not is proved.  The source
has an `std::atomic<int>`, which is the same as long as fewer than `2^31` writes are inside at a
time.

## Main definitions

* `WriteStage`, `CloseStage` — where a call stands between two of its atomic operations.
* `KeeperWriteGate.system` — `record_event` and `stopAcceptingWrites` in steps.
* `KeeperWriteGate.Counted` — the count is that of the writes that are counted in.

## Main results

* `KeeperWriteGate.waits_for_accepted_writes` — **when `close` returns true, every write
  that the gate let in has left, no other is let in, and every write that is ever answered
  `CL_SUCCESS` has put its event in the ingestion queue.**
-/

namespace ChronoLog

/-- Where a call of `record_event` stands. -/
inductive WriteStage where
  | notStarted
  /-- `++inside` is done. -/
  | counted
  /-- `open.load()` was false. -/
  | turnedAway
  /-- `enter` returned false, after its `--inside`. -/
  | refused
  /-- `enter` returned true. -/
  | entered
  /-- `ingestLogEvent` returned. -/
  | ingested
  /-- `leave` returned. -/
  | left
  | answered (code : ErrorCode)
  deriving DecidableEq

/-- Where the call of `close` stands. -/
inductive CloseStage where
  | notCalled
  /-- About to read the count. -/
  | waiting
  /-- The count was not zero: about to look at the clock. -/
  | sawWriters
  | returned (allLeft : Bool)
  deriving DecidableEq

/-- The gate, the calls under way and the ingestion queue behind them; `collected` are the
events that the data collection has taken out of the queue. -/
structure KeeperWriteGate (Call : Type*) where
  isOpen : Bool := true
  inside : ℤ := 0
  stage : Call → WriteStage := fun _ => .notStarted
  close : CloseStage := .notCalled
  queue : List LogEvent := []
  collected : List LogEvent := []

namespace WriteStage

/-- The write is between its `++inside` and its `--inside`. -/
def Inside : WriteStage → Prop
  | counted | turnedAway | entered | ingested => True
  | notStarted | refused | left | answered _ => False

/-- `enter` has returned true. -/
def Entered : WriteStage → Prop
  | entered | ingested | left | answered .CL_SUCCESS => True
  | _ => False

/-- `enter` has returned true, and `leave` has returned. -/
def HasLeft : WriteStage → Prop
  | left | answered .CL_SUCCESS => True
  | _ => False

/-- `ingestLogEvent` has returned. -/
def HasIngested : WriteStage → Prop
  | ingested | left | answered .CL_SUCCESS => True
  | _ => False

theorem Entered.inside_or_hasLeft {stage : WriteStage} (h : stage.Entered) :
    stage.Inside ∨ stage.HasLeft := by
  cases stage with
  | entered => exact Or.inl trivial
  | ingested => exact Or.inl trivial
  | left => exact Or.inr trivial
  | answered code =>
    cases code with
    | CL_SUCCESS => exact Or.inr trivial
    | _ => exact h.elim
  | _ => exact h.elim

theorem HasLeft.hasIngested {stage : WriteStage} (h : stage.HasLeft) : stage.HasIngested := by
  cases stage with
  | left => exact trivial
  | answered code =>
    cases code with
    | CL_SUCCESS => exact trivial
    | _ => exact h.elim
  | _ => exact h.elim

end WriteStage

namespace KeeperWriteGate

variable {Call : Type*} [DecidableEq Call]

/-- The steps: each atomic operation of a write `w`, its ingestion and its answer, the
operations of `close`, and the data collection that takes an event out of the queue. -/
inductive Label (Call : Type*) where
  | countIn (w : Call)
  | readOpen (w : Call)
  | countOutRefused (w : Call)
  | ingest (w : Call)
  | leave (w : Call)
  | answer (w : Call)
  | shut
  | readInside
  | lookAtClock (pastDeadline : Bool)
  | collect
  deriving DecidableEq

/-- The call goes on to another stage. -/
def goTo (g : KeeperWriteGate Call) (w : Call) (stage : WriteStage) : KeeperWriteGate Call :=
  { g with stage := Function.update g.stage w stage }

/-- One step; `event w` is the event of the call `w`. -/
def step (event : Call → LogEvent) (g : KeeperWriteGate Call) :
    Label Call → Option (KeeperWriteGate Call)
  -- `enter`: `++inside`
  | .countIn w =>
    if g.stage w = .notStarted then some { g.goTo w .counted with inside := g.inside + 1 }
    else none
  -- `enter`: `if(!open.load())`
  | .readOpen w =>
    if g.stage w = .counted then some (g.goTo w (if g.isOpen then .entered else .turnedAway))
    else none
  -- `enter`: `--inside` of a write that is turned away
  | .countOutRefused w =>
    if g.stage w = .turnedAway then some { g.goTo w .refused with inside := g.inside - 1 }
    else none
  | .ingest w =>
    if g.stage w = .entered then some { g.goTo w .ingested with queue := g.queue ++ [event w] }
    else none
  | .leave w =>
    if g.stage w = .ingested then some { g.goTo w .left with inside := g.inside - 1 } else none
  | .answer w =>
    if g.stage w = .left then some (g.goTo w (.answered .CL_SUCCESS))
    else if g.stage w = .refused then some (g.goTo w (.answered .CL_ERR_UNKNOWN))
    else none
  -- `close`: `open.store(false)`
  | .shut =>
    if g.close = .notCalled then some { g with isOpen := false, close := .waiting } else none
  -- `close`: `while(inside.load() != 0)`
  | .readInside =>
    if g.close = .waiting then
      some { g with close := if g.inside = 0 then .returned true else .sawWriters }
    else none
  | .lookAtClock pastDeadline =>
    if g.close = .sawWriters then
      some { g with close := if pastDeadline then .returned false else .waiting }
    else none
  | .collect =>
    match g.queue with
    | [] => none
    | e :: rest => some { g with queue := rest, collected := g.collected ++ [e] }

/-- The keeper's recording service: a new gate, then `record_event` and
`stopAcceptingWrites` in steps. -/
def system (event : Call → LogEvent) : Transition.System (KeeperWriteGate Call) (Label Call) where
  Initial := fun g => g = {}
  step := step event

/-- The event has reached the ingestion queue. -/
def Reached (g : KeeperWriteGate Call) (e : LogEvent) : Prop := e ∈ g.queue ∨ e ∈ g.collected

/-! ### What a step does -/

@[simp] theorem stage_goTo_self (g : KeeperWriteGate Call) (w : Call) (stage : WriteStage) :
    (g.goTo w stage).stage w = stage := Function.update_self _ _ _

theorem stage_goTo_of_ne {g : KeeperWriteGate Call} {w v : Call} (h : v ≠ w)
    (stage : WriteStage) : (g.goTo w stage).stage v = g.stage v := Function.update_of_ne h _ _

/-- A call counts itself in, or out. -/
def countAfter (inside : ℤ) : WriteStage → ℤ
  | .counted => inside + 1
  | .refused | .left => inside - 1
  | _ => inside

/-- The moves of a call at a gate. -/
inductive Move (isOpen : Bool) : WriteStage → WriteStage → Prop where
  | countIn : Move isOpen .notStarted .counted
  | enter : isOpen = true → Move isOpen .counted .entered
  | turnAway : isOpen = false → Move isOpen .counted .turnedAway
  | refuse : Move isOpen .turnedAway .refused
  | ingest : Move isOpen .entered .ingested
  | leave : Move isOpen .ingested .left
  | succeed : Move isOpen .left (.answered .CL_SUCCESS)
  | fail : Move isOpen .refused (.answered .CL_ERR_UNKNOWN)

/-- The moves of `close`, each with the flag that it leaves. -/
inductive CloseMove (g : KeeperWriteGate Call) : Bool → CloseStage → Prop where
  | shut : g.close = .notCalled → CloseMove g false .waiting
  | allLeft : g.close = .waiting → g.inside = 0 → CloseMove g g.isOpen (.returned true)
  | wait : g.close = .waiting → CloseMove g g.isOpen .sawWriters
  | again : g.close = .sawWriters → CloseMove g g.isOpen .waiting
  | giveUp : g.close = .sawWriters → CloseMove g g.isOpen (.returned false)

/-- The call has moved on, and what it moved through has changed. -/
def afterMove (event : Call → LogEvent) (g : KeeperWriteGate Call) (w : Call)
    (after : WriteStage) : KeeperWriteGate Call :=
  { g.goTo w after with
    inside := countAfter g.inside after
    queue := if after = .ingested then g.queue ++ [event w] else g.queue }

/-- **What a step can do**: one call moves, or `close` does, or the collection takes an event
out of the queue. -/
theorem step_cases {event : Call → LogEvent} {g g' : KeeperWriteGate Call} {l : Label Call}
    (h : step event g l = some g') :
    (∃ w after, Move g.isOpen (g.stage w) after ∧ g' = g.afterMove event w after) ∨
      (∃ isOpen close, CloseMove g isOpen close ∧ g' = { g with isOpen, close }) ∨
      ∃ e rest, g.queue = e :: rest ∧
        g' = { g with queue := rest, collected := g.collected ++ [e] } := by
  cases l with
  | countIn w =>
    obtain ⟨hw, rfl⟩ := Option.ite_some_none_eq_some.mp h
    exact Or.inl ⟨w, .counted, hw ▸ .countIn, rfl⟩
  | readOpen w =>
    obtain ⟨hw, rfl⟩ := Option.ite_some_none_eq_some.mp h
    left
    cases hopen : g.isOpen with
    | true => exact ⟨w, .entered, hw ▸ .enter rfl, rfl⟩
    | false => exact ⟨w, .turnedAway, hw ▸ .turnAway rfl, rfl⟩
  | countOutRefused w =>
    obtain ⟨hw, rfl⟩ := Option.ite_some_none_eq_some.mp h
    exact Or.inl ⟨w, .refused, hw ▸ .refuse, rfl⟩
  | ingest w =>
    obtain ⟨hw, rfl⟩ := Option.ite_some_none_eq_some.mp h
    exact Or.inl ⟨w, .ingested, hw ▸ .ingest, rfl⟩
  | leave w =>
    obtain ⟨hw, rfl⟩ := Option.ite_some_none_eq_some.mp h
    exact Or.inl ⟨w, .left, hw ▸ .leave, rfl⟩
  | answer w =>
    left
    rw [step] at h
    split at h
    · next hw =>
      exact ⟨w, .answered .CL_SUCCESS, hw ▸ .succeed, (Option.some.inj h).symm⟩
    · obtain ⟨hw, rfl⟩ := Option.ite_some_none_eq_some.mp h
      exact ⟨w, .answered .CL_ERR_UNKNOWN, hw ▸ .fail, rfl⟩
  | shut =>
    obtain ⟨hclose, rfl⟩ := Option.ite_some_none_eq_some.mp h
    exact Or.inr (Or.inl ⟨false, .waiting, .shut hclose, rfl⟩)
  | readInside =>
    obtain ⟨hclose, rfl⟩ := Option.ite_some_none_eq_some.mp h
    right; left
    by_cases hzero : g.inside = 0
    · exact ⟨g.isOpen, _, .allLeft hclose hzero, by rw [if_pos hzero]⟩
    · exact ⟨g.isOpen, _, .wait hclose, by rw [if_neg hzero]⟩
  | lookAtClock pastDeadline =>
    obtain ⟨hclose, rfl⟩ := Option.ite_some_none_eq_some.mp h
    right; left
    cases pastDeadline with
    | true => exact ⟨g.isOpen, _, .giveUp hclose, rfl⟩
    | false => exact ⟨g.isOpen, _, .again hclose, rfl⟩
  | collect =>
    right; right
    cases hqueue : g.queue with
    | nil => rw [step, hqueue] at h; cases h
    | cons e rest =>
      rw [step, hqueue] at h
      exact ⟨e, rest, rfl, (Option.some.inj h).symm⟩

/-! ### The count -/

/-- The count is that of the writes between their `++inside` and their `--inside`. -/
def Counted (g : KeeperWriteGate Call) : Prop :=
  ∃ inside : Finset Call, (∀ w, w ∈ inside ↔ (g.stage w).Inside) ∧ g.inside = inside.card

omit [DecidableEq Call] in
theorem Counted.nonneg {g : KeeperWriteGate Call} (h : g.Counted) : 0 ≤ g.inside := by
  obtain ⟨inside, -, hcard⟩ := h
  rw [hcard]
  exact Int.natCast_nonneg _

omit [DecidableEq Call] in
/-- A count of zero is one of no writes. -/
theorem Counted.not_inside {g : KeeperWriteGate Call} (h : g.Counted) (hzero : g.inside = 0)
    (w : Call) : ¬(g.stage w).Inside := by
  obtain ⟨inside, hmem, hcard⟩ := h
  rw [hzero, eq_comm, Nat.cast_eq_zero, Finset.card_eq_zero] at hcard
  rw [← hmem w, hcard]
  exact Finset.notMem_empty w

/-- A move takes its call in, or out, or leaves it where it is; the count follows. -/
theorem Move.count {isOpen : Bool} {before after : WriteStage} (h : Move isOpen before after)
    (inside : ℤ) :
    ¬before.Inside ∧ after.Inside ∧ countAfter inside after = inside + 1 ∨
      before.Inside ∧ ¬after.Inside ∧ countAfter inside after = inside - 1 ∨
      (before.Inside ↔ after.Inside) ∧ countAfter inside after = inside := by
  cases h <;> simp [WriteStage.Inside, countAfter]

theorem Counted.afterMove {event : Call → LogEvent} {g : KeeperWriteGate Call} (h : g.Counted)
    {w : Call} {after : WriteStage} (hmove : Move g.isOpen (g.stage w) after) :
    (g.afterMove event w after).Counted := by
  obtain ⟨inside, hmem, hcard⟩ := h
  have hother : ∀ v ≠ w, (g.afterMove event w after).stage v = g.stage v := fun v hv =>
    stage_goTo_of_ne hv after
  have hself : (g.afterMove event w after).stage w = after := stage_goTo_self g w after
  rcases hmove.count g.inside with ⟨hout, hin, hcount⟩ | ⟨hin, hout, hcount⟩ | ⟨hsame, hcount⟩
  · refine ⟨insert w inside, fun v => ?_, ?_⟩
    · rw [Finset.mem_insert, hmem]
      rcases eq_or_ne v w with rfl | hv
      · simp [hself, hin]
      · rw [hother v hv, or_iff_right hv]
    · rw [Finset.card_insert_of_notMem (fun hw => hout ((hmem w).mp hw)), Nat.cast_add_one, ← hcard]
      exact hcount
  · refine ⟨inside.erase w, fun v => ?_, ?_⟩
    · rw [Finset.mem_erase, hmem]
      rcases eq_or_ne v w with rfl | hv
      · simp [hself, hout]
      · rw [hother v hv, and_iff_right hv]
    · rw [Finset.cast_card_erase_of_mem ((hmem w).mpr hin), ← hcard]
      exact hcount
  · refine ⟨inside, fun v => ?_, hcount.trans hcard⟩
    rcases eq_or_ne v w with rfl | hv
    · rw [hmem, hself, hsame]
    · rw [hmem, hother v hv]

/-! ### The handshake -/

/-- What holds of the gate in every order of the steps. -/
structure Valid (event : Call → LogEvent) (g : KeeperWriteGate Call) : Prop where
  counted : g.Counted
  shut : g.close ≠ .notCalled → g.isOpen = false
  reached : ∀ w, (g.stage w).HasIngested → g.Reached (event w)
  allLeft : g.close = .returned true → ∀ w, (g.stage w).Entered → (g.stage w).HasLeft

omit [DecidableEq Call] in
theorem valid_init (event : Call → LogEvent) : ({} : KeeperWriteGate Call).Valid event where
  counted := ⟨∅, fun w => by simp [WriteStage.Inside], rfl⟩
  shut h := (h rfl).elim
  reached w h := h.elim
  allLeft h := by cases h

/-- Only the ingestion makes a call one that has ingested. -/
theorem Move.hasIngested {isOpen : Bool} {before after : WriteStage} (h : Move isOpen before after)
    (hingested : after.HasIngested) : before.HasIngested ∨ after = .ingested := by
  cases h <;> simp_all [WriteStage.HasIngested]

/-- A gate that is shut lets no call in. -/
theorem Move.entered {before after : WriteStage} (h : Move false before after)
    (hentered : after.Entered) : before.Entered := by
  cases h <;> simp_all [WriteStage.Entered]

/-- A call that has left stays so. -/
theorem Move.hasLeft {isOpen : Bool} {before after : WriteStage} (h : Move isOpen before after)
    (hleft : before.HasLeft) : after.HasLeft := by
  cases h <;> simp_all [WriteStage.HasLeft]

theorem Valid.afterMove {event : Call → LogEvent} {g : KeeperWriteGate Call} (h : g.Valid event)
    {w : Call} {after : WriteStage} (hmove : Move g.isOpen (g.stage w) after) :
    (g.afterMove event w after).Valid event := by
  have hself : (g.afterMove event w after).stage w = after := stage_goTo_self g w after
  have hother : ∀ v ≠ w, (g.afterMove event w after).stage v = g.stage v := fun v hv =>
    stage_goTo_of_ne hv after
  refine ⟨h.counted.afterMove hmove, h.shut, fun v hv => ?_, fun hclose v hv => ?_⟩
  · -- what was in the queue is still there, and an ingestion adds to it
    have hkept : ∀ e, g.Reached e → (g.afterMove event w after).Reached e := by
      rintro e (he | he)
      · left
        change e ∈ if after = .ingested then g.queue ++ [event w] else g.queue
        split
        · exact List.mem_append_left _ he
        · exact he
      · exact Or.inr he
    rcases eq_or_ne v w with rfl | hvw
    · rw [hself] at hv
      rcases hmove.hasIngested hv with hbefore | rfl
      · exact hkept _ (h.reached v hbefore)
      · exact Or.inl (List.mem_append_right _ (List.mem_singleton_self _))
    · rw [hother v hvw] at hv
      exact hkept _ (h.reached v hv)
  · rcases eq_or_ne v w with rfl | hvw
    · have hshut : g.isOpen = false := h.shut (by rw [show g.close = _ from hclose]; simp)
      rw [hself] at hv ⊢
      rw [hshut] at hmove
      exact hmove.hasLeft (h.allLeft hclose v (hmove.entered hv))
    · rw [hother v hvw] at hv ⊢
      exact h.allLeft hclose v hv

omit [DecidableEq Call] in
/-- `close` returns true only once no write is counted in, so all that were let in have
left. -/
theorem Valid.closeMove {event : Call → LogEvent} {g : KeeperWriteGate Call} (h : g.Valid event)
    {isOpen : Bool} {close : CloseStage} (hmove : CloseMove g isOpen close) :
    ({ g with isOpen, close } : KeeperWriteGate Call).Valid event := by
  refine ⟨h.counted, fun _ => ?_, h.reached, fun hclose w hw => ?_⟩
  · cases hmove with
    | shut => rfl
    | allLeft hwaiting => exact h.shut (by rw [hwaiting]; simp)
    | wait hwaiting => exact h.shut (by rw [hwaiting]; simp)
    | again hsaw => exact h.shut (by rw [hsaw]; simp)
    | giveUp hsaw => exact h.shut (by rw [hsaw]; simp)
  · have hzero : g.inside = 0 := by
      cases hmove with
      | allLeft _ hzero => exact hzero
      | _ => cases hclose
    exact (WriteStage.Entered.inside_or_hasLeft hw).resolve_left (h.counted.not_inside hzero w)

theorem Valid.step {event : Call → LogEvent} {g g' : KeeperWriteGate Call} {l : Label Call}
    (h : g.Valid event) (hstep : step event g l = some g') : g'.Valid event := by
  rcases step_cases hstep with ⟨w, after, hmove, rfl⟩ | ⟨isOpen, close, hmove, rfl⟩ |
    ⟨e, rest, hqueue, rfl⟩
  · exact h.afterMove hmove
  · exact h.closeMove hmove
  · refine ⟨h.counted, h.shut, fun w hw => ?_, h.allLeft⟩
    have hreached := h.reached w hw
    simp only [Reached, hqueue, List.mem_cons, List.mem_append, List.not_mem_nil, or_false] at *
    tauto

/-- Once the gate is shut it stays so, and no `enter` returns true any more. -/
theorem entered_of_step {event : Call → LogEvent} {g g' : KeeperWriteGate Call} {l : Label Call}
    (hshut : g.isOpen = false) (hstep : step event g l = some g') :
    g'.isOpen = false ∧ ∀ w, (g'.stage w).Entered → (g.stage w).Entered := by
  rcases step_cases hstep with ⟨w, after, hmove, rfl⟩ | ⟨isOpen, close, hmove, rfl⟩ |
    ⟨e, rest, hqueue, rfl⟩
  · refine ⟨hshut, fun v hv => ?_⟩
    rw [hshut] at hmove
    rcases eq_or_ne v w with rfl | hvw
    · exact hmove.entered (by rwa [← stage_goTo_self g v after])
    · rwa [← stage_goTo_of_ne hvw after]
  · refine ⟨?_, fun w hw => hw⟩
    cases hmove with
    | shut => rfl
    | _ => exact hshut
  · exact ⟨hshut, fun w hw => hw⟩

theorem entered_of_run {event : Call → LogEvent} {g g' : KeeperWriteGate Call}
    {ls : List (Label Call)} (hshut : g.isOpen = false)
    (hrun : (system event).run g ls = some g') (w : Call) (hw : (g'.stage w).Entered) :
    (g.stage w).Entered := by
  have h := Transition.System.run_induction (M := system event)
    (P := fun later => later.isOpen = false ∧ ∀ w, (later.stage w).Entered → (g.stage w).Entered)
    (fun s l s' hs hstep => by
      obtain ⟨hshut', hback⟩ := entered_of_step hs.1 hstep
      exact ⟨hshut', fun w hw => hs.2 w (hback w hw)⟩)
    ⟨hshut, fun _ hw => hw⟩ hrun
  exact h.2 w hw

/-- **The gate waits for every write that it let in.**  The count is never below zero.  When
`close` has returned true, every `enter` that returned true has been followed by its `leave`,
no later one returns true, and a write that is answered `CL_SUCCESS` at any time has its event
in the queue by then. -/
theorem waits_for_accepted_writes (event : Call → LogEvent) {ls : List (Label Call)}
    {g : KeeperWriteGate Call} (hrun : (system event).run {} ls = some g) :
    0 ≤ g.inside ∧
      (g.close = .returned true →
        (∀ w, (g.stage w).Entered → (g.stage w).HasLeft) ∧
        ∀ ls' g', (system event).run g ls' = some g' →
          (∀ w, (g'.stage w).Entered → (g.stage w).Entered) ∧
          ∀ w, g'.stage w = .answered .CL_SUCCESS → g.Reached (event w)) := by
  have hvalid : g.Valid event :=
    Transition.System.run_induction (fun _ _ _ h hstep => h.step hstep) (valid_init event) hrun
  refine ⟨hvalid.counted.nonneg, fun hclose => ⟨hvalid.allLeft hclose, fun ls' g' hlater => ?_⟩⟩
  have hshut : g.isOpen = false := hvalid.shut (by rw [hclose]; simp)
  refine ⟨entered_of_run hshut hlater, fun w hw => ?_⟩
  have hentered : (g.stage w).Entered := entered_of_run hshut hlater w (by rw [hw]; exact trivial)
  exact hvalid.reached w (hvalid.allLeft hclose w hentered).hasIngested

/-- The first write is let in before the gate is shut and leaves late; the second one finds
the gate shut. -/
theorem waits_for_accepted_writes_two :
    let event : Bool → LogEvent := fun w => ⟨1, if w then 2 else 1, 7, 1, [0]⟩
    let ls : List (Label Bool) := [.countIn false, .countIn true, .readOpen false, .shut,
      .readInside, .lookAtClock false, .readOpen true, .ingest false, .countOutRefused true,
      .leave false, .readInside]
    ∃ g, (system event).run {} ls = some g ∧ g.close = .returned true ∧
      (0 ≤ g.inside ∧
        (g.close = .returned true →
          (∀ w, (g.stage w).Entered → (g.stage w).HasLeft) ∧
          ∀ ls' g', (system event).run g ls' = some g' →
            (∀ w, (g'.stage w).Entered → (g.stage w).Entered) ∧
            ∀ w, g'.stage w = .answered .CL_SUCCESS → g.Reached (event w))) := by
  intro event ls
  exact ⟨_, rfl, rfl, @waits_for_accepted_writes Bool _ event ls _ rfl⟩

end KeeperWriteGate

end ChronoLog
