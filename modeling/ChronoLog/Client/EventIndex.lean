import ChronoLog.Event
import ChronoLog.Lib.Transition

/-!
# The indices of a client's events

`get_event_index` tests the index without the lock, resets it under the lock when it has
reached `INT_MAX`, and increments it.  Each of these is a step of its own here, the store
of the reset apart from the test before it, so the steps of any number of calls interleave
in every order.

The indices are those of 1 up to `INT_MAX`, over and over, as long as no call increments
the index while it stands at `INT_MAX`.  A call can do so: it passed the test before
another call took the index there.  Then the indices go on below zero, and they are still far
apart as long as no call that has found `INT_MAX` comes to its reset only when the index is
above zero again.

## Main definitions

* `IndexStage` — where a call stands between two of its steps.
* `EventIndexCounter.system` — the calls of `get_event_index` in steps.
* `EventIndexCounter.NotPastMax` — the step does not increment an index at `INT_MAX`.
* `EventIndexCounter.ResetInTime` — the step does not reset an index below it and above zero.

## Main results

* `EventIndexCounter.distinct_indices` — **calls less than a round of indices apart get
  different ones.**
* `EventIndexCounter.indices_repeat_and_wrap` — a full round apart they get the same one,
  and two calls that pass the test together take the index below zero.
-/

namespace ChronoLog

/-- `INT_MAX`. -/
def INT_MAX : ℤ := 2 ^ 31 - 1

/-- Where a call of `get_event_index` stands. -/
inductive IndexStage where
  | notStarted
  /-- The index was `INT_MAX` without the lock. -/
  | waiting
  /-- The call holds `recordingClientMapMutex`. -/
  | locked
  /-- The index was `INT_MAX` under the lock too. -/
  | resetting
  /-- About to unlock. -/
  | checked
  /-- About to increment the index. -/
  | passed
  | returned (index : ℤ)
  deriving DecidableEq

/-- The index, its mutex and the calls under way; `indices` are the indices returned, in the
order of the increments. -/
structure EventIndexCounter (Call : Type*) where
  atomic_index : ℤ := 0
  mutex : Option Call := none
  stage : Call → IndexStage := fun _ => .notStarted
  indices : List ℤ := []

namespace EventIndexCounter

variable {Call : Type*} [DecidableEq Call]

/-- The steps of a call `w`. -/
inductive Label (Call : Type*) where
  | test (w : Call)
  | lock (w : Call)
  | retest (w : Call)
  | reset (w : Call)
  | unlock (w : Call)
  | increment (w : Call)
  deriving DecidableEq

/-- `++atomic_index` on an `int` of 32 bits. -/
def incremented (index : ℤ) : ℤ := (index + 1).bmod (2 ^ 32)

/-- The call goes on to another stage. -/
def goTo (c : EventIndexCounter Call) (w : Call) (stage : IndexStage) : EventIndexCounter Call :=
  { c with stage := Function.update c.stage w stage }

/-- One step of `get_event_index`. -/
def step (c : EventIndexCounter Call) : Label Call → Option (EventIndexCounter Call)
  -- `if((atomic_index == INT_MAX))`
  | .test w =>
    if c.stage w = .notStarted then
      some (c.goTo w (if c.atomic_index = INT_MAX then .waiting else .passed))
    else none
  | .lock w =>
    if c.stage w = .waiting ∧ c.mutex = none then
      some { c.goTo w .locked with mutex := some w }
    else none
  -- `if(atomic_index == INT_MAX)`
  | .retest w =>
    if c.stage w = .locked then
      some (c.goTo w (if c.atomic_index = INT_MAX then .resetting else .checked))
    else none
  -- `atomic_index = 0`
  | .reset w =>
    if c.stage w = .resetting then some { c.goTo w .checked with atomic_index := 0 } else none
  | .unlock w =>
    if c.stage w = .checked then some { c.goTo w .passed with mutex := none } else none
  -- `return ++atomic_index`
  | .increment w =>
    if c.stage w = .passed then
      some { c.goTo w (.returned (incremented c.atomic_index)) with
        atomic_index := incremented c.atomic_index
        indices := c.indices ++ [incremented c.atomic_index] }
    else none

/-- The client's index and the calls of `get_event_index` in steps. -/
def system (Call : Type*) [DecidableEq Call] :
    Transition.System (EventIndexCounter Call) (Label Call) where
  Initial := fun c => c = {}
  step := step

/-- The step does not increment an index that stands at `INT_MAX`. -/
def NotPastMax (c : EventIndexCounter Call) : Label Call → Prop
  | .increment _ => c.atomic_index ≠ INT_MAX
  | _ => True

instance (c : EventIndexCounter Call) (l : Label Call) : Decidable (c.NotPastMax l) :=
  match l with
  | .increment _ => inferInstanceAs (Decidable (c.atomic_index ≠ INT_MAX))
  | .test _ | .lock _ | .retest _ | .reset _ | .unlock _ => isTrue trivial

/-- The step does not reset an index that stands between 0 and `INT_MAX`. -/
def ResetInTime (c : EventIndexCounter Call) : Label Call → Prop
  | .reset _ => c.atomic_index = INT_MAX ∨ c.atomic_index ≤ 0
  | _ => True

/-! ### The lock -/

/-- The call holds the lock. -/
def Holds (c : EventIndexCounter Call) (w : Call) : Prop :=
  c.stage w = .locked ∨ c.stage w = .resetting ∨ c.stage w = .checked

/-- Only the owner of the mutex is between its lock and its unlock. -/
def Exclusive (c : EventIndexCounter Call) : Prop := ∀ w, c.Holds w → c.mutex = some w

theorem stage_goTo (c : EventIndexCounter Call) (w v : Call) (stage : IndexStage) :
    (c.goTo w stage).stage v = if v = w then stage else c.stage v :=
  Function.update_apply _ _ _ _

theorem holds_goTo_of_ne {c : EventIndexCounter Call} {w v : Call} (h : v ≠ w)
    (stage : IndexStage) : (c.goTo w stage).Holds v ↔ c.Holds v := by
  simp only [Holds, stage_goTo, if_neg h]

omit [DecidableEq Call] in
theorem Exclusive.eq_of_holds {c : EventIndexCounter Call} (h : c.Exclusive) {w v : Call}
    (hw : c.Holds w) (hv : c.Holds v) : v = w :=
  Option.some.inj ((h v hv).symm.trans (h w hw))

theorem Exclusive.step {c c' : EventIndexCounter Call} {l : Label Call} (h : c.Exclusive)
    (hstep : step c l = some c') : c'.Exclusive := by
  intro v hv
  cases l with
  | test w =>
    obtain ⟨hw, rfl⟩ := Option.ite_some_none_eq_some.mp hstep
    refine h v ?_
    rcases eq_or_ne v w with rfl | hne
    · -- a call that tests does not get the lock by it
      simp only [Holds, stage_goTo, if_true] at hv
      split at hv <;> simp at hv
    · exact (holds_goTo_of_ne hne _).mp hv
  | lock w =>
    obtain ⟨⟨hw, hfree⟩, rfl⟩ := Option.ite_some_none_eq_some.mp hstep
    rcases eq_or_ne v w with rfl | hne
    · rfl
    · have hheld : c.mutex = some v := h v ((holds_goTo_of_ne hne _).mp hv)
      rw [hfree] at hheld
      cases hheld
  | retest w =>
    obtain ⟨hw, rfl⟩ := Option.ite_some_none_eq_some.mp hstep
    rcases eq_or_ne v w with rfl | hne
    · exact h v (Or.inl hw)
    · exact h v ((holds_goTo_of_ne hne _).mp hv)
  | reset w =>
    obtain ⟨hw, rfl⟩ := Option.ite_some_none_eq_some.mp hstep
    rcases eq_or_ne v w with rfl | hne
    · exact h v (Or.inr (Or.inl hw))
    · exact h v ((holds_goTo_of_ne hne _).mp hv)
  | unlock w =>
    obtain ⟨hw, rfl⟩ := Option.ite_some_none_eq_some.mp hstep
    rcases eq_or_ne v w with rfl | hne
    · simp [Holds, stage_goTo] at hv
    · -- two calls would hold the lock
      have hv' : c.Holds v := (holds_goTo_of_ne hne _).mp hv
      exact absurd (h.eq_of_holds (Or.inr (Or.inr hw)) hv') hne
  | increment w =>
    obtain ⟨hw, rfl⟩ := Option.ite_some_none_eq_some.mp hstep
    rcases eq_or_ne v w with rfl | hne
    · simp [Holds, stage_goTo] at hv
    · exact h v ((holds_goTo_of_ne hne _).mp hv)

/-! ### The rounds of the index -/

/-- The indices go through 1 up to `INT_MAX`, over and over, and the index is the number of
those of this round. -/
structure Cycles (c : EventIndexCounter Call) : Prop where
  exclusive : c.Exclusive
  resetting : ∀ w, c.stage w = .resetting → c.atomic_index = INT_MAX
  nonneg : 0 ≤ c.atomic_index
  le_max : c.atomic_index ≤ INT_MAX
  round : (c.atomic_index - c.indices.length) % INT_MAX = 0
  indices : ∀ (k : ℕ) (index : ℤ), c.indices[k]? = some index → index = k % INT_MAX + 1
  returned : ∀ w index, c.stage w = .returned index → index ∈ c.indices

omit [DecidableEq Call] in
theorem cycles_init : ({} : EventIndexCounter Call).Cycles where
  exclusive w h := by simp [Holds] at h
  resetting w h := by cases h
  nonneg := le_rfl
  le_max := by
    change (0 : ℤ) ≤ INT_MAX
    decide
  round := rfl
  indices k index h := by simp at h
  returned w index h := by cases h

/-- A step that changes the stage of a call only. -/
theorem Cycles.goTo {c : EventIndexCounter Call} (h : c.Cycles) {w : Call} {stage : IndexStage}
    {mutex : Option Call} (hreset : stage = .resetting → c.atomic_index = INT_MAX)
    (hreturned : ∀ index, stage ≠ .returned index)
    (hexclusive : ({ c.goTo w stage with mutex } : EventIndexCounter Call).Exclusive) :
    ({ c.goTo w stage with mutex } : EventIndexCounter Call).Cycles where
  exclusive := hexclusive
  resetting v hv := by
    change (c.goTo w stage).stage v = _ at hv
    rw [stage_goTo] at hv
    split at hv
    · exact hreset hv
    · exact h.resetting v hv
  nonneg := h.nonneg
  le_max := h.le_max
  round := h.round
  indices := h.indices
  returned v index hv := by
    change (c.goTo w stage).stage v = _ at hv
    rw [stage_goTo] at hv
    split at hv
    · exact absurd hv (hreturned index)
    · exact h.returned v index hv

theorem Cycles.reset {c : EventIndexCounter Call} (h : c.Cycles) {w : Call}
    (hw : c.stage w = .resetting)
    (hexclusive : ({ c.goTo w .checked with atomic_index := 0 } :
      EventIndexCounter Call).Exclusive) :
    ({ c.goTo w .checked with atomic_index := 0 } : EventIndexCounter Call).Cycles where
  exclusive := hexclusive
  resetting v hv := by
    change (c.goTo w _).stage v = _ at hv
    rw [stage_goTo] at hv
    split at hv
    · cases hv
    · -- only one call resets at a time
      next hne =>
      exact absurd (h.exclusive.eq_of_holds (Or.inr (Or.inl hw)) (Or.inr (Or.inl hv))) hne
  nonneg := le_rfl
  le_max := by
    change (0 : ℤ) ≤ INT_MAX
    decide
  round := by
    have hround := h.round
    rw [h.resetting w hw] at hround
    simp only [INT_MAX] at hround ⊢
    change ((0 : ℤ) - c.indices.length) % _ = 0
    omega
  indices := h.indices
  returned v index hv := by
    change (c.goTo w _).stage v = _ at hv
    rw [stage_goTo] at hv
    split at hv
    · cases hv
    · exact h.returned v index hv

theorem incremented_of_lt {index : ℤ} (h₀ : 0 ≤ index) (h : index < INT_MAX) :
    incremented index = index + 1 := by
  rw [incremented, Int.bmod_eq_of_le]
  · simp only [INT_MAX] at h
    omega
  · simp only [INT_MAX] at h
    omega

theorem Cycles.increment {c : EventIndexCounter Call} (h : c.Cycles) {w : Call}
    (hmax : c.atomic_index ≠ INT_MAX)
    (hexclusive : ({ c.goTo w (.returned (incremented c.atomic_index)) with
      atomic_index := incremented c.atomic_index
      indices := c.indices ++ [incremented c.atomic_index] } : EventIndexCounter Call).Exclusive) :
    ({ c.goTo w (.returned (incremented c.atomic_index)) with
      atomic_index := incremented c.atomic_index
      indices := c.indices ++ [incremented c.atomic_index] } : EventIndexCounter Call).Cycles := by
  have hlt : c.atomic_index < INT_MAX := lt_of_le_of_ne h.le_max hmax
  have hround := h.round
  have hnonneg := h.nonneg
  rw [incremented_of_lt hnonneg hlt] at hexclusive ⊢
  refine ⟨hexclusive, fun v hv => ?_, ?_, ?_, ?_, fun k index hk => ?_, fun v index hv => ?_⟩
  · change (c.goTo w _).stage v = _ at hv
    rw [stage_goTo] at hv
    split at hv
    · cases hv
    · exact absurd (h.resetting v hv) hmax
  · change 0 ≤ c.atomic_index + 1
    omega
  · change c.atomic_index + 1 ≤ INT_MAX
    omega
  · change (c.atomic_index + 1 - (c.indices ++ [c.atomic_index + 1]).length) % INT_MAX = 0
    rw [List.length_append, List.length_singleton]
    simp only [INT_MAX] at hround ⊢
    omega
  · change (c.indices ++ [c.atomic_index + 1])[k]? = some index at hk
    rw [List.getElem?_append] at hk
    split at hk
    · exact h.indices k index hk
    · next hlen =>
      -- the new index is the last one
      obtain ⟨hk0, hindex⟩ := List.getElem?_eq_some_iff.mp hk
      rw [List.length_singleton] at hk0
      rw [List.getElem_singleton] at hindex
      have hlast : (k : ℤ) = c.indices.length := by omega
      rw [hlast, ← hindex]
      simp only [INT_MAX] at hround hlt ⊢
      omega
  · change (c.goTo w _).stage v = _ at hv
    change index ∈ c.indices ++ [c.atomic_index + 1]
    rw [stage_goTo] at hv
    split at hv
    · cases hv
      exact List.mem_append_right _ (List.mem_singleton_self _)
    · exact List.mem_append_left _ (h.returned v index hv)

theorem Cycles.step {c c' : EventIndexCounter Call} {l : Label Call} (h : c.Cycles)
    (hmax : c.NotPastMax l) (hstep : step c l = some c') : c'.Cycles := by
  have hexclusive : c'.Exclusive := h.exclusive.step hstep
  cases l with
  | test w =>
    obtain ⟨hw, rfl⟩ := Option.ite_some_none_eq_some.mp hstep
    refine h.goTo (fun hreset => ?_) (fun index => ?_) hexclusive
    · split at hreset <;> cases hreset
    · split <;> simp
  | lock w =>
    obtain ⟨hw, rfl⟩ := Option.ite_some_none_eq_some.mp hstep
    exact h.goTo (fun hreset => by cases hreset) (fun index => by simp) hexclusive
  | retest w =>
    obtain ⟨hw, rfl⟩ := Option.ite_some_none_eq_some.mp hstep
    refine h.goTo (fun hreset => ?_) (fun index => ?_) hexclusive
    · split at hreset
      · assumption
      · cases hreset
    · split <;> simp
  | reset w =>
    obtain ⟨hw, rfl⟩ := Option.ite_some_none_eq_some.mp hstep
    exact h.reset hw hexclusive
  | unlock w =>
    obtain ⟨hw, rfl⟩ := Option.ite_some_none_eq_some.mp hstep
    exact h.goTo (fun hreset => by cases hreset) (fun index => by simp) hexclusive
  | increment w =>
    obtain ⟨hw, rfl⟩ := Option.ite_some_none_eq_some.mp hstep
    exact h.increment hmax hexclusive

omit [DecidableEq Call] in
theorem Cycles.mem_indices {c : EventIndexCounter Call} (h : c.Cycles) {index : ℤ}
    (hmem : index ∈ c.indices) : 1 ≤ index ∧ index ≤ INT_MAX := by
  obtain ⟨k, hk⟩ := List.mem_iff_getElem?.mp hmem
  have hindex := h.indices k index hk
  simp only [INT_MAX] at hindex ⊢
  omega

/-- **An index that stands at `INT_MAX` when it is reset is reset in time.** -/
theorem Cycles.resetInTime {c : EventIndexCounter Call} (h : c.Cycles) {l : Label Call}
    {c' : EventIndexCounter Call} (hstep : c.step l = some c') : c.ResetInTime l := by
  cases l with
  | reset w =>
    obtain ⟨hw, -⟩ := Option.ite_some_none_eq_some.mp hstep
    exact Or.inl (h.resetting w hw)
  | test w => exact trivial
  | lock w => exact trivial
  | retest w => exact trivial
  | unlock w => exact trivial
  | increment w => exact trivial

theorem resetInTime_of_notPastMax {ls : List (Label Call)} {c c' : EventIndexCounter Call}
    (h : c.Cycles) (hmax : (system Call).StepsMeet NotPastMax c ls)
    (hrun : (system Call).run c ls = some c') : (system Call).StepsMeet ResetInTime c ls := by
  induction ls generalizing c with
  | nil => exact trivial
  | cons l ls ih =>
    obtain ⟨c₁, h₁, hrest⟩ := Transition.System.run_cons_eq_some.mp hrun
    refine ⟨h.resetInTime h₁, ?_⟩
    intro c₂ h₂
    obtain rfl : c₁ = c₂ := Option.some.inj (h₁.symm.trans h₂)
    exact ih (h.step hmax.1 h₁) (hmax.2 c₁ h₁) hrest

/-! ### The distance of equal indices -/

/-- Calls with fewer than `n` others between them, in the order of the increments, got
different indices. -/
def DistinctWithin (c : EventIndexCounter Call) (n : ℕ) : Prop :=
  ∀ (i j : ℕ) (a b : ℤ), i < j → j - (i + 1) < n → c.indices[i]? = some a →
    c.indices[j]? = some b → a ≠ b

/-- How far the index has come since it had a value, in indices above zero: from the value up to
where it stands, or up to `INT_MAX` and from 1 on again. -/
def Since (value now : ℤ) (calls : ℕ) : Prop :=
  value ≤ now ∧ max now 0 - max value 0 ≤ calls ∨ INT_MAX - max value 0 + max now 0 ≤ calls

/-- What every step keeps, also of an index that has gone below zero. -/
structure Spaced (c : EventIndexCounter Call) : Prop where
  min_le : -2 ^ 31 ≤ c.atomic_index
  le_max : c.atomic_index ≤ INT_MAX
  bounds : ∀ index ∈ c.indices, -2 ^ 31 ≤ index ∧ index ≤ INT_MAX
  since : ∀ (k : ℕ) (index : ℤ), c.indices[k]? = some index →
    Since index c.atomic_index (c.indices.length - (k + 1))
  distinct : c.DistinctWithin (2 ^ 31 - 2)

omit [DecidableEq Call] in
theorem spaced_init : ({} : EventIndexCounter Call).Spaced where
  min_le := by
    change -2 ^ 31 ≤ (0 : ℤ)
    decide
  le_max := by
    change (0 : ℤ) ≤ INT_MAX
    decide
  bounds := List.forall_mem_nil _
  since k index h := by simp at h
  distinct i j a b hij hnear hi hj := by simp at hi

/-- An index that is reset in time has gone through all the others above zero. -/
theorem Since.reset {value now : ℤ} {calls : ℕ} (h : Since value now calls)
    (htime : now = INT_MAX ∨ now ≤ 0) : Since value 0 calls := by
  unfold Since INT_MAX at *
  omega

theorem incremented_cases {index : ℤ} (hmin : -2 ^ 31 ≤ index) (hmax : index ≤ INT_MAX) :
    incremented index = index + 1 ∧ index < INT_MAX ∨
      incremented index = -2 ^ 31 ∧ index = INT_MAX := by
  rcases lt_or_eq_of_le hmax with hlt | rfl
  · left
    refine ⟨?_, hlt⟩
    rw [incremented, Int.bmod_eq_of_le]
    · omega
    · simp only [INT_MAX] at hlt
      omega
  · right
    exact ⟨by decide, rfl⟩

/-- Where the index goes on, a value comes again only after all the others above zero. -/
theorem Since.increment {value now : ℤ} {calls : ℕ} (h : Since value now calls)
    (hmin : -2 ^ 31 ≤ now) (hmax : now ≤ INT_MAX) :
    Since value (incremented now) (calls + 1) ∧
      (value = incremented now → 2 ^ 31 - 2 ≤ calls) := by
  unfold Since at *
  rcases incremented_cases hmin hmax with ⟨heq, hlt⟩ | ⟨heq, rfl⟩
  · rw [heq]
    unfold INT_MAX at *
    omega
  · rw [heq]
    unfold INT_MAX at *
    omega

omit [DecidableEq Call] in
/-- A call gets the next index. -/
theorem Spaced.increment {c c' : EventIndexCounter Call} (h : c.Spaced)
    (hindex : c'.atomic_index = incremented c.atomic_index)
    (hindices : c'.indices = c.indices ++ [incremented c.atomic_index]) : c'.Spaced := by
  have hlength : c'.indices.length = c.indices.length + 1 := by
    rw [hindices, List.length_append, List.length_singleton]
  have hbounds : -2 ^ 31 ≤ incremented c.atomic_index ∧ incremented c.atomic_index ≤ INT_MAX := by
    rcases incremented_cases h.min_le h.le_max with ⟨heq, hlt⟩ | ⟨heq, -⟩
    · have hmin := h.min_le
      omega
    · rw [heq]
      exact ⟨le_rfl, by decide⟩
  have hcases : ∀ (k : ℕ) (index : ℤ), c'.indices[k]? = some index →
      k < c.indices.length ∧ c.indices[k]? = some index ∨
        k = c.indices.length ∧ index = incremented c.atomic_index := by
    intro k index hk
    rw [hindices, List.getElem?_append] at hk
    split at hk
    · next hlt => exact Or.inl ⟨hlt, hk⟩
    · next hge =>
      obtain ⟨hk0, hlast⟩ := List.getElem?_eq_some_iff.mp hk
      rw [List.length_singleton] at hk0
      rw [List.getElem_singleton] at hlast
      exact Or.inr ⟨by omega, hlast.symm⟩
  refine ⟨?_, ?_, ?_, ?_, ?_⟩
  · rw [hindex]
    exact hbounds.1
  · rw [hindex]
    exact hbounds.2
  · intro index hmem
    rw [hindices, List.mem_append, List.mem_singleton] at hmem
    rcases hmem with hmem | rfl
    · exact h.bounds index hmem
    · exact hbounds
  · intro k index hk
    rw [hindex, hlength]
    rcases hcases k index hk with ⟨hlt, hk⟩ | ⟨rfl, rfl⟩
    · have hsince := ((h.since k index hk).increment h.min_le h.le_max).1
      have hcalls : c.indices.length + 1 - (k + 1) = c.indices.length - (k + 1) + 1 := by omega
      rwa [hcalls]
    · exact Or.inl ⟨le_rfl, by omega⟩
  · intro i j a b hij hnear hi hj heq
    rcases hcases j b hj with ⟨hlt, hj⟩ | ⟨rfl, rfl⟩
    · rcases hcases i a hi with ⟨-, hi⟩ | ⟨rfl, -⟩
      · exact h.distinct i j a b hij hnear hi hj heq
      · omega
    · -- the new index, and an earlier one with the same value
      rcases hcases i a hi with ⟨-, hi⟩ | ⟨rfl, -⟩
      · have hfar := ((h.since i a hi).increment h.min_le h.le_max).2 heq
        omega
      · omega

theorem Spaced.step {c c' : EventIndexCounter Call} {l : Label Call} (h : c.Spaced)
    (htime : c.ResetInTime l) (hstep : step c l = some c') : c'.Spaced := by
  cases l with
  | test w | lock w | retest w | unlock w =>
    obtain ⟨-, rfl⟩ := Option.ite_some_none_eq_some.mp hstep
    exact ⟨h.min_le, h.le_max, h.bounds, h.since, h.distinct⟩
  | reset w =>
    obtain ⟨-, rfl⟩ := Option.ite_some_none_eq_some.mp hstep
    have hzero : ({} : EventIndexCounter Call).Spaced := spaced_init
    refine ⟨hzero.min_le, hzero.le_max, h.bounds, ?_, h.distinct⟩
    intro k index hk
    exact (h.since k index hk).reset htime
  | increment w =>
    obtain ⟨-, rfl⟩ := Option.ite_some_none_eq_some.mp hstep
    exact h.increment rfl rfl

/-- The indices that calls have returned. -/
theorem returned_step {c c' : EventIndexCounter Call} {l : Label Call}
    (h : ∀ w index, c.stage w = .returned index → index ∈ c.indices)
    (hstep : step c l = some c') :
    ∀ w index, c'.stage w = .returned index → index ∈ c'.indices := by
  intro v index hv
  cases l with
  | test w | lock w | retest w | reset w | unlock w =>
    obtain ⟨-, rfl⟩ := Option.ite_some_none_eq_some.mp hstep
    change (c.goTo w _).stage v = _ at hv
    rw [stage_goTo] at hv
    split at hv
    · first
      | cases hv
      | split at hv <;> cases hv
    · exact h v index hv
  | increment w =>
    obtain ⟨-, rfl⟩ := Option.ite_some_none_eq_some.mp hstep
    change (c.goTo w _).stage v = _ at hv
    change index ∈ c.indices ++ [incremented c.atomic_index]
    rw [stage_goTo] at hv
    split at hv
    · cases hv
      exact List.mem_append_right _ (List.mem_singleton_self _)
    · exact List.mem_append_left _ (h v index hv)

/-- Indices in 32 bits. -/
theorem ofInt_ne {a b : ℤ} (ha : -2 ^ 31 ≤ a ∧ a ≤ INT_MAX) (hb : -2 ^ 31 ≤ b ∧ b ≤ INT_MAX)
    (h : a ≠ b) : UInt32.ofInt a ≠ UInt32.ofInt b := by
  intro heq
  have htoNat := congrArg UInt32.toNat heq
  simp only [INT_MAX] at ha hb
  simp only [UInt32.ofInt, UInt32.toNat_ofNat'] at htoNat
  omega

/-! ### Calls one after another -/

/-- A call that finds the index below `INT_MAX` and is alone. -/
def alone (w : ℕ) : List (Label ℕ) := [.test w, .increment w]

/-- A call that finds the index at `INT_MAX` and is alone. -/
def aloneAtMax (w : ℕ) : List (Label ℕ) :=
  [.test w, .lock w, .retest w, .reset w, .unlock w, .increment w]

/-- The first `n` calls have returned, and no other call has started. -/
structure After (n : ℕ) (c : EventIndexCounter ℕ) : Prop where
  index : c.atomic_index = n
  free : c.mutex = none
  fresh : ∀ w, n ≤ w → c.stage w = .notStarted
  indices : c.indices = (List.range n).map fun k : ℕ => (k : ℤ) + 1

theorem run_alone {n : ℕ} {c : EventIndexCounter ℕ} (h : After n c) (hn : (n : ℤ) < INT_MAX) :
    (system ℕ).StepsMeet NotPastMax c (alone n) ∧
      ∃ c', (system ℕ).run c (alone n) = some c' ∧ After (n + 1) c' := by
  have htest : c.atomic_index ≠ INT_MAX := by
    rw [h.index]
    omega
  have hincremented : incremented c.atomic_index = n + 1 := by
    rw [h.index, incremented_of_lt (Int.natCast_nonneg n) hn]
  constructor
  · refine ⟨trivial, fun c₁ h₁ => ⟨?_, fun _ _ => trivial⟩⟩
    obtain ⟨-, rfl⟩ := Option.ite_some_none_eq_some.mp h₁
    exact htest
  simp only [alone, Transition.System.run, system, step, h.fresh n le_rfl, if_true,
    Option.bind_some, stage_goTo, htest, if_false]
  refine ⟨_, rfl, ?_, h.free, fun w hw => ?_, ?_⟩
  · exact hincremented.trans (Nat.cast_succ n).symm
  · have hne : w ≠ n := by omega
    simp only [stage_goTo, if_neg hne]
    exact h.fresh w (by omega)
  · rw [List.range_succ, List.map_append, ← h.indices]
    exact congrArg (fun index => c.indices ++ [index]) hincremented

/-- The calls before the first one at `INT_MAX`. -/
theorem run_alone_range {n : ℕ} (hn : (n : ℤ) ≤ INT_MAX) :
    (system ℕ).StepsMeet NotPastMax {} ((List.range n).flatMap alone) ∧
      ∃ c, (system ℕ).run {} ((List.range n).flatMap alone) = some c ∧ After n c := by
  induction n with
  | zero => exact ⟨trivial, {}, rfl, rfl, rfl, fun _ _ => rfl, rfl⟩
  | succ n ih =>
    obtain ⟨hmeet, c, hrun, hafter⟩ := ih (by omega)
    obtain ⟨hnextMeet, c', hnext, hafter'⟩ := run_alone hafter (by omega)
    rw [List.range_succ, List.flatMap_append, List.flatMap_singleton]
    refine ⟨?_, c', ?_, hafter'⟩
    · exact hmeet.append hrun hnextMeet
    · rw [Transition.System.run_append, hrun]
      exact hnext

/-- The call after a full round resets the index and starts again with 1. -/
theorem run_aloneAtMax {n : ℕ} {c : EventIndexCounter ℕ} (h : After n c) (hn : (n : ℤ) = INT_MAX) :
    (system ℕ).StepsMeet NotPastMax c (aloneAtMax n) ∧
      ∃ c', (system ℕ).run c (aloneAtMax n) = some c' ∧ c'.indices = c.indices ++ [1] := by
  have hindex : c.atomic_index = INT_MAX := h.index.trans hn
  constructor
  · refine ⟨trivial, fun c₁ _ => ⟨trivial, fun c₂ _ => ⟨trivial, fun c₃ _ => ⟨trivial,
      fun c₄ h₄ => ⟨trivial, fun c₅ h₅ => ⟨?_, fun _ _ => trivial⟩⟩⟩⟩⟩⟩
    -- the reset is the fourth step, and the unlock leaves the index at zero
    obtain ⟨-, rfl⟩ := Option.ite_some_none_eq_some.mp h₄
    obtain ⟨-, rfl⟩ := Option.ite_some_none_eq_some.mp h₅
    change (0 : ℤ) ≠ INT_MAX
    decide
  simp only [aloneAtMax, Transition.System.run, system, step, h.fresh n le_rfl, if_true,
    Option.bind_some, hindex, h.free, goTo, Function.update_self, and_self]
  exact ⟨_, rfl, rfl⟩

/-- Two calls pass the test together just below `INT_MAX`. -/
theorem run_together {n : ℕ} {c : EventIndexCounter ℕ} (h : After n c)
    (hn : (n : ℤ) = INT_MAX - 1) :
    ∃ c', (system ℕ).run c [.test n, .test (n + 1), .increment n, .increment (n + 1)] = some c' ∧
      c'.indices = c.indices ++ [INT_MAX] ++ [-2 ^ 31] := by
  have hindex : c.atomic_index = INT_MAX - 1 := h.index.trans hn
  have htest : c.atomic_index ≠ INT_MAX := by
    rw [hindex]
    decide
  have hfirst : c.stage n = .notStarted := h.fresh n le_rfl
  have hsecond : c.stage (n + 1) = .notStarted := h.fresh (n + 1) (by omega)
  have hne : n ≠ n + 1 := by omega
  simp only [Transition.System.run, system, step, hfirst, if_true, Option.bind_some, htest,
    if_false, goTo, Function.update_self, Function.update_of_ne hne,
    Function.update_of_ne hne.symm, hsecond]
  refine ⟨_, rfl, ?_⟩
  have hmax : incremented c.atomic_index = INT_MAX := by
    rw [hindex]
    decide
  have hmin : incremented INT_MAX = -2 ^ 31 := by decide
  rw [hmax, hmin]

/-- **The indices of a client are distinct within a round.**  In a run in which no call resets the
index while it stands between 0 and `INT_MAX`, two calls with fewer than `2^31 - 2` calls between
them get different indices, and their events have different sequences whatever their timestamps.
If no call increments the index while it stands at `INT_MAX`, the run is such a one, and every
index is between 1 and `INT_MAX`. -/
theorem distinct_indices {ls : List (Label Call)} {c : EventIndexCounter Call}
    (hrun : (system Call).run {} ls = some c) :
    (∀ w index, c.stage w = .returned index → index ∈ c.indices) ∧
      ((system Call).StepsMeet ResetInTime {} ls → c.DistinctWithin (2 ^ 31 - 2) ∧
        ∀ (i j : ℕ) (a b : ℤ) (time clientId : UInt64), i < j → j - (i + 1) < 2 ^ 31 - 2 →
          c.indices[i]? = some a → c.indices[j]? = some b →
          (⟨time, clientId, UInt32.ofInt a⟩ : EventSequence) ≠
            ⟨time, clientId, UInt32.ofInt b⟩) ∧
      ((system Call).StepsMeet NotPastMax {} ls → (system Call).StepsMeet ResetInTime {} ls ∧
        ∀ index ∈ c.indices, 1 ≤ index ∧ index ≤ INT_MAX) := by
  refine ⟨?_, ?_, ?_⟩
  · exact Transition.System.run_induction (M := system Call)
      (P := fun c => ∀ w index, c.stage w = .returned index → index ∈ c.indices)
      (fun _ _ _ h hstep => returned_step h hstep) cycles_init.returned hrun
  · intro htime
    have hspaced : c.Spaced := Transition.System.run_induction_of_stepsMeet
      (fun _ _ _ h hcond hstep => h.step hcond hstep) spaced_init htime hrun
    refine ⟨hspaced.distinct, ?_⟩
    intro i j a b time clientId hij hnear hi hj heq
    exact ofInt_ne (hspaced.bounds a (List.mem_of_getElem? hi))
      (hspaced.bounds b (List.mem_of_getElem? hj)) (hspaced.distinct i j a b hij hnear hi hj)
      (congrArg EventSequence.index heq)
  · intro hmax
    have hcycles : c.Cycles := Transition.System.run_induction_of_stepsMeet
      (fun _ _ _ h hcond hstep => h.step hcond hstep) cycles_init hmax hrun
    refine ⟨?_, fun index hmem => hcycles.mem_indices hmem⟩
    exact resetInTime_of_notPastMax cycles_init hmax hrun

/-- The first call after a full round resets the index. -/
theorem distinct_indices_round : ∃ (ls : List (Label ℕ)) (c : EventIndexCounter ℕ),
    (system ℕ).run {} ls = some c ∧ (∃ w, Label.reset w ∈ ls) ∧ c.indices.getLast? = some 1 ∧
      c.DistinctWithin (2 ^ 31 - 2) ∧ ∀ index ∈ c.indices, 1 ≤ index ∧ index ≤ INT_MAX := by
  obtain ⟨n, hn⟩ : ∃ n : ℕ, (n : ℤ) = INT_MAX := ⟨2 ^ 31 - 1, rfl⟩
  obtain ⟨hmeet, c, hrun, hafter⟩ := run_alone_range hn.le
  obtain ⟨hrest, c', hnext, hindices⟩ := run_aloneAtMax hafter hn
  have hwhole : (system ℕ).run {} ((List.range n).flatMap alone ++ aloneAtMax n) = some c' := by
    rw [Transition.System.run_append, hrun]
    exact hnext
  have hmax := hmeet.append hrun hrest
  have h := distinct_indices hwhole
  refine ⟨_, c', hwhole, ⟨n, ?_⟩, ?_, (h.2.1 (h.2.2 hmax).1).1, (h.2.2 hmax).2⟩
  · exact List.mem_append_right _ (by simp [aloneAtMax])
  · rw [hindices, List.getLast?_concat]

/-- **A full round apart two calls get the same index, and an index can be negative.**  Calls
made one after another return 1 for the first and for the `2^31`-th of them; two calls that
pass the test just below `INT_MAX` return `INT_MAX` and `-2^31`. -/
theorem indices_repeat_and_wrap :
    (∃ ls c, (system ℕ).run {} ls = some c ∧ ¬c.DistinctWithin (2 ^ 31 - 1)) ∧
      ∃ ls c, (system ℕ).run {} ls = some c ∧ -2 ^ 31 ∈ c.indices := by
  constructor
  · obtain ⟨n, hn⟩ : ∃ n : ℕ, (n : ℤ) = INT_MAX := ⟨2 ^ 31 - 1, rfl⟩
    obtain ⟨-, c, hrun, hafter⟩ := run_alone_range hn.le
    obtain ⟨-, c', hnext, hindices⟩ := run_aloneAtMax hafter hn
    refine ⟨(List.range n).flatMap alone ++ aloneAtMax n, c', ?_, fun hdistinct => ?_⟩
    · rw [Transition.System.run_append, hrun]
      exact hnext
    have hlen : c.indices.length = n := by rw [hafter.indices, List.length_map, List.length_range]
    have hpos : 0 < n := by
      simp only [INT_MAX] at hn
      omega
    refine hdistinct 0 n 1 1 hpos ?_ ?_ ?_ rfl
    · simp only [INT_MAX] at hn
      omega
    · rw [hindices, List.getElem?_append_left (by omega), hafter.indices, List.getElem?_map,
        List.getElem?_range hpos]
      rfl
    · rw [hindices, ← hlen, List.getElem?_concat_length]
  · obtain ⟨n, hn⟩ : ∃ n : ℕ, (n : ℤ) = INT_MAX - 1 := ⟨2 ^ 31 - 2, rfl⟩
    obtain ⟨-, c, hrun, hafter⟩ := run_alone_range (hn.trans_le (sub_le_self _ zero_le_one))
    obtain ⟨c', hnext, hindices⟩ := run_together hafter hn
    refine ⟨(List.range n).flatMap alone ++
      [.test n, .test (n + 1), .increment n, .increment (n + 1)], c', ?_, ?_⟩
    · rw [Transition.System.run_append, hrun]
      exact hnext
    · rw [hindices]
      exact List.mem_append_right _ (List.mem_singleton_self _)

end EventIndexCounter

end ChronoLog
