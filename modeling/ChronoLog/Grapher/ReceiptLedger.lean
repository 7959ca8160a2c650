import ChronoLog.Grapher.WatermarkRegistry

/-!
# Receipt reports are sound

The ledger is what the receipts are for, kept from the calls alone: a receipt is
open from the moment a chunk of the story gets it until the chunk is merged and
nothing holds its events any more, and destroying a story ends the receipts of
the story that was destroyed.  A receipt assigned after that belongs to the
story created again under the same id.

The registry agrees with the ledger as long as it forgets no receipt that is
open there.  Two of its calls can forget one: `registerStory`, where it starts a
story over whose drop was not reported yet, and `snapshotDirty`, where it
forgets the stories whose drop it reports.

## Main definitions

* `Ledger`, `Ledger.call` — the receipts as the history of calls has them.
* `Tracked`, `tracked` — a registry beside its ledger, as a transition system.
* `Tracked.SoundReports` — every report that is not a drop lists the open
  receipts up to its highest.
* `Tracked.ForgetsNothingOpen` — the condition on a call.

## Main results

* `reports_sound_of_forgetsNothingOpen` — **the reports are sound and no number
  is given out twice** in every run whose calls forget no open receipt.
* `recreated_receipt_forgotten` — a run of five calls whose report is not sound.
-/

namespace ChronoLog

open StoryWatermarkRegistry Transition

/-- A receipt whose chunk is not both merged and written. -/
structure OpenReceipt where
  storyId : StoryId
  number : ℕ
  state : ReceiptState := {}
  deriving DecidableEq, Repr

namespace OpenReceipt

/-- The receipt with this number of this story. -/
def Is (x : OpenReceipt) (storyId : StoryId) (number : ℕ) : Prop :=
  x.storyId = storyId ∧ x.number = number

instance (x : OpenReceipt) (storyId : StoryId) (number : ℕ) : Decidable (x.Is storyId number) :=
  inferInstanceAs (Decidable (_ ∧ _))

/-- One more chunk holds events of the receipt. -/
def hold (x : OpenReceipt) : OpenReceipt :=
  { x with state := { x.state with holders := x.state.holders + 1 } }

/-- One chunk less holds events of the receipt. -/
def release (x : OpenReceipt) : OpenReceipt :=
  { x with state := { x.state with holders := x.state.holders - 1 } }

/-- The receipt's chunk is merged. -/
def merge (x : OpenReceipt) : OpenReceipt := { x with state := { x.state with merged := true } }

/-- Merged and without holders. -/
def Settled (x : OpenReceipt) : Prop := x.state.merged = true ∧ x.state.holders = 0

instance (x : OpenReceipt) : Decidable x.Settled := inferInstanceAs (Decidable (_ ∧ _))

end OpenReceipt

/-- The receipts of a grapher process as the history of calls has them. -/
structure Ledger where
  /-- The receipts of stories that are not destroyed, up to their settlement. -/
  openReceipts : List OpenReceipt := []
  /-- Every number given out, the newest first. -/
  assigned : List ℕ := []
  deriving DecidableEq, Repr

namespace Ledger

/-- Change one receipt, and close it if it is settled then. -/
def update (l : Ledger) (storyId : StoryId) (number : ℕ) (f : OpenReceipt → OpenReceipt) :
    Ledger :=
  { l with
    openReceipts :=
      (l.openReceipts.map fun x => if x.Is storyId number then f x else x).filter
        fun x => ¬ x.Settled }

/-- The ledger after a call; `given` is the number an `assignReceipt` returns. -/
def call (l : Ledger) (given : ℕ) : Call → Ledger
  | .dropStory storyId =>
    { l with openReceipts := l.openReceipts.filter fun x => x.storyId ≠ storyId }
  | .assignReceipt storyId =>
    { openReceipts := { storyId, number := given } :: l.openReceipts
      assigned := given :: l.assigned }
  | .holdReceipt storyId number => l.update storyId number OpenReceipt.hold
  | .releaseReceipt storyId number => l.update storyId number OpenReceipt.release
  | .receiptMerged storyId number => l.update storyId number OpenReceipt.merge
  | _ => l

end Ledger

/-- A registry beside the ledger of its calls. -/
structure Tracked where
  registry : StoryWatermarkRegistry
  ledger : Ledger := {}

namespace Tracked

/-- A registry and its ledger after a call. -/
def call (t : Tracked) (c : Call) : Tracked where
  registry := t.registry.call c
  ledger := t.ledger.call t.registry.nextReceipt c

/-- Every report that is not a drop lists the open receipts of its story that
are not above its highest. -/
def SoundReports (t : Tracked) : Prop :=
  ∀ storyId report, (storyId, report) ∈ t.registry.snapshotDirty.2 →
    report.watermark ≠ kStoryDroppedWatermark →
    ∀ x ∈ t.ledger.openReceipts, x.storyId = storyId → x.number ≤ report.highestReceipt →
      x.number ∈ report.pendingReceipts

/-- The call forgets no open receipt and wraps no counter: a story that is
started over, or whose drop is reported, has no receipt open. -/
def ForgetsNothingOpen (t : Tracked) : Call → Prop
  | .registerStory storyId _ _ =>
    t.registry.stories.contains storyId = true → t.registry.dropped.contains storyId = true →
      ∀ x ∈ t.ledger.openReceipts, x.storyId ≠ storyId
  | .snapshotDirty =>
    ∀ x ∈ t.ledger.openReceipts, t.registry.dropped.contains x.storyId = false
  | .assignReceipt _ => t.registry.lastReceipt + 1 < 2 ^ 64
  | .holdReceipt storyId number =>
    ∀ x ∈ t.ledger.openReceipts, x.Is storyId number → x.state.holders + 1 < 2 ^ 32
  | _ => True

instance (t : Tracked) : (c : Call) → Decidable (t.ForgetsNothingOpen c)
  | .registerStory .. => inferInstanceAs (Decidable (_ → _ → ∀ x ∈ _, _))
  | .snapshotDirty => inferInstanceAs (Decidable (∀ x ∈ _, _))
  | .assignReceipt _ => inferInstanceAs (Decidable (_ < _))
  | .holdReceipt .. => inferInstanceAs (Decidable (∀ x ∈ _, _))
  | .dropStory _ | .persistFailed _ | .advancePersisted .. | .releaseReceipt ..
  | .receiptMerged .. | .markUndelivered _ => inferInstanceAs (Decidable True)

end Tracked

/-- A registry from the start of its process, under any calls. -/
def tracked : System Tracked Call where
  Initial t := ∃ instanceId, t = { registry := .fresh instanceId }
  step t c := some (t.call c)

/-! ### The registry agrees with the ledger -/

namespace Tracked

/-- The registry holds every open receipt as pending, in the state the ledger
has it in, and the counter is past every number in use. -/
structure Agrees (t : Tracked) : Prop where
  pending : ∀ x ∈ t.ledger.openReceipts,
    t.registry.findPending x.storyId x.number = some x.state
  pending_le : ∀ storyId number, (t.registry.findPending storyId number).isSome →
    number ≤ t.registry.lastReceipt
  assigned_le : ∀ number ∈ t.ledger.assigned, number ≤ t.registry.lastReceipt
  assigned_nodup : t.ledger.assigned.Nodup

/-- A call that gives out no number: it makes no receipt pending, and keeps the
state of those still open. -/
theorem Agrees.of_kept {t : Tracked} (h : t.Agrees) {r : StoryWatermarkRegistry} {l : Ledger}
    (hlast : r.lastReceipt = t.registry.lastReceipt)
    (hassigned : l.assigned = t.ledger.assigned)
    (hfind : ∀ storyId number, (r.findPending storyId number).isSome →
      (t.registry.findPending storyId number).isSome)
    (hopen : ∀ x ∈ l.openReceipts, r.findPending x.storyId x.number = some x.state) :
    Agrees ⟨r, l⟩ where
  pending := hopen
  pending_le storyId number hsome := by
    rw [hlast]
    exact h.pending_le storyId number (hfind storyId number hsome)
  assigned_le number hn := by
    rw [hlast]
    exact h.assigned_le number (hassigned ▸ hn)
  assigned_nodup := hassigned ▸ h.assigned_nodup

/-- A call that leaves the receipts and the ledger alone. -/
theorem Agrees.of_receipts_eq {t : Tracked} (h : t.Agrees) {r : StoryWatermarkRegistry}
    (hlast : r.lastReceipt = t.registry.lastReceipt)
    (hreceipts : r.receipts = t.registry.receipts) : Agrees ⟨r, t.ledger⟩ := by
  refine h.of_kept hlast rfl (fun storyId number => ?_) (fun x hx => ?_)
  · rw [findPending_congr storyId number hreceipts]
    exact id
  · rw [findPending_congr _ _ hreceipts]
    exact h.pending x hx

theorem agrees_fresh (instanceId : ℕ) : Agrees { registry := .fresh instanceId } where
  pending x hx := by cases hx
  pending_le storyId number h := by simp [findPending, fresh] at h
  assigned_le number h := by cases h
  assigned_nodup := List.nodup_nil

theorem Agrees.registerStory {t : Tracked} (h : t.Agrees) (storyId : StoryId) (startTime : ℕ)
    (freshPipeline : Bool)
    (hc : t.ForgetsNothingOpen (.registerStory storyId startTime freshPipeline)) :
    (t.call (.registerStory storyId startTime freshPipeline)).Agrees := by
  refine h.of_kept (lastReceipt_registerStory ..) rfl (fun other number => ?_) (fun x hx => ?_)
  · rw [StoryWatermarkRegistry.call, findPending_registerStory]
    split
    · intro hn
      cases hn
    · exact id
  · rw [StoryWatermarkRegistry.call, findPending_registerStory, if_neg]
    · exact h.pending x hx
    · rintro ⟨⟨hs, hd⟩, hid⟩
      exact hc hs hd x hx hid.symm

theorem Agrees.dropStory {t : Tracked} (h : t.Agrees) (storyId : StoryId) :
    (t.call (.dropStory storyId)).Agrees := by
  refine h.of_kept (lastReceipt_dropStory ..) rfl (fun other number => ?_) (fun x hx => ?_)
  · rw [StoryWatermarkRegistry.call, findPending_dropStory]
    split
    · intro hn
      cases hn
    · exact id
  · -- what the ledger keeps is of another story
    obtain ⟨hx, hne⟩ := List.mem_filter.mp hx
    rw [StoryWatermarkRegistry.call, findPending_dropStory, if_neg]
    · exact h.pending x hx
    · rintro ⟨-, hid⟩
      simp [hid] at hne

theorem Agrees.assignReceipt {t : Tracked} (h : t.Agrees) (storyId : StoryId)
    (hc : t.ForgetsNothingOpen (.assignReceipt storyId)) :
    (t.call (.assignReceipt storyId)).Agrees := by
  have hnext : t.registry.nextReceipt = t.registry.lastReceipt + 1 := Nat.mod_eq_of_lt hc
  -- the number is past every one in use, so it is not pending yet
  have hnew : ∀ other, t.registry.findPending other t.registry.nextReceipt = none := by
    intro other
    cases hf : t.registry.findPending other t.registry.nextReceipt with
    | none => rfl
    | some state =>
      have := h.pending_le other t.registry.nextReceipt (by rw [hf]; rfl)
      omega
  refine ⟨fun x hx => ?_, fun other number hsome => ?_, fun number hn => ?_, ?_⟩
  · change (t.registry.assignReceipt storyId).findPending _ _ = _
    rw [findPending_assignReceipt]
    rcases List.mem_cons.mp hx with rfl | hx
    · rw [if_pos ⟨rfl, rfl, hnew _⟩]
    · rw [h.pending x hx, if_neg]
      rintro ⟨-, -, hf⟩
      cases hf
  · change ((t.registry.assignReceipt storyId).findPending _ _).isSome at hsome
    change number ≤ t.registry.nextReceipt
    rw [findPending_assignReceipt] at hsome
    split at hsome
    · next hif => omega
    · have := h.pending_le other number hsome
      omega
  · change number ≤ t.registry.nextReceipt
    rcases List.mem_cons.mp hn with rfl | hn
    · exact Nat.le_refl _
    · have := h.assigned_le number hn
      omega
  · refine List.nodup_cons.mpr ⟨fun hmem => ?_, h.assigned_nodup⟩
    have := h.assigned_le _ hmem
    omega

/-- Changing one receipt in the registry and in the ledger alike. -/
theorem Agrees.update {t : Tracked} (h : t.Agrees) {storyId : StoryId} {number : ℕ}
    {f : OpenReceipt → OpenReceipt} {r : StoryWatermarkRegistry}
    (hf : ∀ x, (f x).storyId = x.storyId ∧ (f x).number = x.number)
    (hlast : r.lastReceipt = t.registry.lastReceipt)
    (hfind : ∀ other n, (r.findPending other n).isSome → (t.registry.findPending other n).isSome)
    (hother : ∀ other n, ¬ (storyId = other ∧ number = n) →
      r.findPending other n = t.registry.findPending other n)
    (hthis : ∀ x ∈ t.ledger.openReceipts, x.Is storyId number → ¬ (f x).Settled →
      r.findPending storyId number = some (f x).state) :
    Agrees ⟨r, t.ledger.update storyId number f⟩ := by
  refine h.of_kept hlast rfl hfind (fun y hy => ?_)
  obtain ⟨hy, hset⟩ := List.mem_filter.mp hy
  obtain ⟨x, hx, rfl⟩ := List.mem_map.mp hy
  rw [decide_eq_true_eq] at hset
  by_cases his : x.Is storyId number
  · rw [if_pos his] at hset ⊢
    rw [(hf x).1, (hf x).2, his.1, his.2]
    exact hthis x hx his hset
  · rw [if_neg his]
    rw [hother _ _ (fun heq => his ⟨heq.1.symm, heq.2.symm⟩)]
    exact h.pending x hx

theorem Agrees.holdReceipt {t : Tracked} (h : t.Agrees) (storyId : StoryId) (number : ℕ)
    (hc : t.ForgetsNothingOpen (.holdReceipt storyId number)) :
    (t.call (.holdReceipt storyId number)).Agrees := by
  change Agrees ⟨t.registry.holdReceipt storyId number, t.ledger.update storyId number .hold⟩
  unfold StoryWatermarkRegistry.holdReceipt
  cases hfp : t.registry.findPending storyId number with
  | none =>
    refine h.update (fun x => ⟨rfl, rfl⟩) rfl (fun _ _ => id) (fun _ _ _ => rfl) ?_
    intro x hx his
    have := h.pending x hx
    rw [his.1, his.2, hfp] at this
    cases this
  | some state =>
    have hcontains := contains_of_findPending _ _ _ hfp
    refine h.update (fun x => ⟨rfl, rfl⟩) rfl (fun other n => ?_) (fun other n hne => ?_) ?_
    · dsimp only
      rw [findPending_setPending]
      split
      · next hif =>
        rw [← hif.1.1, ← hif.1.2, hfp]
        exact fun _ => rfl
      · exact id
    · rw [findPending_setPending, if_neg (fun hif => hne hif.1)]
    · intro x hx his _
      have hst := h.pending x hx
      rw [his.1, his.2, hfp, Option.some.injEq] at hst
      have hlt := hc x hx his
      dsimp only
      rw [findPending_setPending, if_pos ⟨⟨rfl, rfl⟩, hcontains⟩, hst, Nat.mod_eq_of_lt hlt]
      rfl

/-- The part of releasing and merging after the new state is in place. -/
theorem Agrees.setAndSettle {t : Tracked} (h : t.Agrees) {storyId : StoryId} {number : ℕ}
    {state state' : ReceiptState} (hfp : t.registry.findPending storyId number = some state)
    {f : OpenReceipt → OpenReceipt}
    (hf : ∀ x, (f x).storyId = x.storyId ∧ (f x).number = x.number)
    (hstate : ∀ x, x.state = state → (f x).state = state') :
    Agrees ⟨(t.registry.setPending storyId number state').settleIfWritten storyId number state',
      t.ledger.update storyId number f⟩ := by
  have hcontains := contains_of_findPending _ _ _ hfp
  refine h.update hf (by simp) (fun other n => ?_) (fun other n hne => ?_) ?_
  · rw [findPending_settleIfWritten, findPending_setPending]
    split
    · intro hn
      cases hn
    · split
      · next hif =>
        rw [← hif.1.1, ← hif.1.2, hfp]
        exact fun _ => rfl
      · exact id
  · rw [findPending_settleIfWritten, if_neg (fun hif => hne hif.1), findPending_setPending,
      if_neg (fun hif => hne hif.1)]
  · intro x hx his hset
    have hst := h.pending x hx
    rw [his.1, his.2, hfp, Option.some.injEq] at hst
    have hfx := hstate x hst.symm
    rw [OpenReceipt.Settled, hfx] at hset
    rw [findPending_settleIfWritten, if_neg (fun hif => hset hif.2), findPending_setPending,
      if_pos ⟨⟨rfl, rfl⟩, hcontains⟩, hfx]

/-- A change of a receipt that the registry does not have pending. -/
theorem Agrees.update_of_not_pending {t : Tracked} (h : t.Agrees) {storyId : StoryId}
    {number : ℕ} (hfp : t.registry.findPending storyId number = none)
    {f : OpenReceipt → OpenReceipt}
    (hf : ∀ x, (f x).storyId = x.storyId ∧ (f x).number = x.number) :
    Agrees ⟨t.registry, t.ledger.update storyId number f⟩ := by
  refine h.update hf rfl (fun _ _ => id) (fun _ _ _ => rfl) ?_
  intro x hx his
  have := h.pending x hx
  rw [his.1, his.2, hfp] at this
  cases this

theorem Agrees.releaseReceipt {t : Tracked} (h : t.Agrees) (storyId : StoryId) (number : ℕ) :
    (t.call (.releaseReceipt storyId number)).Agrees := by
  change Agrees ⟨t.registry.releaseReceipt storyId number,
    t.ledger.update storyId number .release⟩
  unfold StoryWatermarkRegistry.releaseReceipt
  cases hfp : t.registry.findPending storyId number with
  | none => exact h.update_of_not_pending hfp (fun x => ⟨rfl, rfl⟩)
  | some state =>
    dsimp only
    split
    · refine h.setAndSettle hfp (fun x => ⟨rfl, rfl⟩) (fun x hx => ?_)
      rw [← hx]
      rfl
    · next hz =>
      -- no holder to release: both sides keep the receipt as it is
      refine h.update (fun x => ⟨rfl, rfl⟩) rfl (fun _ _ => id) (fun _ _ _ => rfl) ?_
      intro x hx his _
      have hst := h.pending x hx
      rw [his.1, his.2, hfp, Option.some.injEq] at hst
      have hzero : x.state.holders - 1 = x.state.holders := by rw [← hst]; omega
      rw [hfp, hst, OpenReceipt.release, hzero]

theorem Agrees.receiptMerged {t : Tracked} (h : t.Agrees) (storyId : StoryId) (number : ℕ) :
    (t.call (.receiptMerged storyId number)).Agrees := by
  change Agrees ⟨t.registry.receiptMerged storyId number, t.ledger.update storyId number .merge⟩
  unfold StoryWatermarkRegistry.receiptMerged
  cases hfp : t.registry.findPending storyId number with
  | none => exact h.update_of_not_pending hfp (fun x => ⟨rfl, rfl⟩)
  | some state =>
    refine h.setAndSettle hfp (fun x => ⟨rfl, rfl⟩) (fun x hx => ?_)
    rw [← hx]
    rfl

theorem Agrees.snapshotDirty {t : Tracked} (h : t.Agrees)
    (hc : t.ForgetsNothingOpen .snapshotDirty) : (t.call .snapshotDirty).Agrees := by
  refine h.of_kept (lastReceipt_snapshotDirty _) rfl (fun other number => ?_) (fun x hx => ?_)
  · rw [StoryWatermarkRegistry.call, findPending_snapshotDirty]
    split
    · intro hn
      cases hn
    · exact id
  · rw [StoryWatermarkRegistry.call, findPending_snapshotDirty, hc x hx]
    exact h.pending x hx

/-- **A call that forgets no open receipt keeps the registry and the ledger in
agreement.** -/
theorem Agrees.call {t : Tracked} (h : t.Agrees) {c : Call} (hc : t.ForgetsNothingOpen c) :
    (t.call c).Agrees := by
  cases c with
  | registerStory storyId startTime freshPipeline => exact h.registerStory _ _ _ hc
  | dropStory storyId => exact h.dropStory storyId
  | persistFailed storyId =>
    exact h.of_receipts_eq (lastReceipt_persistFailed ..) (receipts_persistFailed ..)
  | advancePersisted storyId start stop =>
    exact h.of_receipts_eq (lastReceipt_advancePersisted ..) (receipts_advancePersisted ..)
  | assignReceipt storyId => exact h.assignReceipt storyId hc
  | holdReceipt storyId number => exact h.holdReceipt storyId number hc
  | releaseReceipt storyId number => exact h.releaseReceipt storyId number
  | receiptMerged storyId number => exact h.receiptMerged storyId number
  | markUndelivered reports =>
    exact h.of_receipts_eq (lastReceipt_markUndelivered ..) (receipts_markUndelivered ..)
  | snapshotDirty => exact h.snapshotDirty hc

/-- Where the two agree, the reports are sound. -/
theorem Agrees.soundReports {t : Tracked} (h : t.Agrees) : t.SoundReports := by
  intro storyId report hmem hw x hx hid _
  have hrep := reportOf_of_mem_dirtyReports _ _ hmem
  rw [mem_pendingReceipts_of_reportOf _ _ _ hrep hw, ← hid, h.pending x hx]
  rfl

end Tracked

/-- **Receipt reports are sound.**  In every run of a registry whose calls forget
no open receipt and wrap no counter, every report that is not a drop lists as
pending every open receipt of its story up to its highest, and no number was
given out twice. -/
theorem reports_sound_of_forgetsNothingOpen {t₀ t : Tracked} {calls : List Call}
    (hinit : tracked.Initial t₀)
    (hcalls : tracked.StepsMeet Tracked.ForgetsNothingOpen t₀ calls)
    (hrun : tracked.run t₀ calls = some t) :
    t.SoundReports ∧ t.ledger.assigned.Nodup := by
  obtain ⟨instanceId, rfl⟩ := hinit
  have hagrees : t.Agrees := by
    refine System.run_induction_of_stepsMeet ?_ (Tracked.agrees_fresh instanceId) hcalls hrun
    intro s c s' hs hc hstep
    rw [← Option.some.inj hstep]
    exact hs.call hc
  exact ⟨hagrees.soundReports, hagrees.assigned_nodup⟩

/-- A registry that has made some calls. -/
def afterCalls (calls : List Call) : Tracked :=
  calls.foldl Tracked.call { registry := .fresh 1 }

/-- A story is written and reported, a chunk of it is merged and held; then it
is destroyed, reported, and created again after its first chunk arrived. -/
def recreatedAfterReport : List Call :=
  [.registerStory 7 0 true, .assignReceipt 7, .holdReceipt 7 1, .receiptMerged 7 1,
    .releaseReceipt 7 1, .snapshotDirty, .dropStory 7, .snapshotDirty, .assignReceipt 7,
    .registerStory 7 10 true, .assignReceipt 7]

theorem reports_sound_recreatedAfterReport :
    (afterCalls recreatedAfterReport).SoundReports ∧
      (afterCalls recreatedAfterReport).ledger.assigned.Nodup :=
  @reports_sound_of_forgetsNothingOpen _ _ recreatedAfterReport ⟨1, rfl⟩
    (by
      simp only [recreatedAfterReport, System.StepsMeet, tracked, Option.some.injEq, forall_eq']
      decide +kernel)
    rfl

/-- The failing run: the story is destroyed, a chunk of the story created again
arrives, and the registration that follows forgets its receipt. -/
def recreatedBeforeReport : List Call :=
  [.registerStory 7 0 true, .dropStory 7, .assignReceipt 7, .registerStory 7 0 true,
    .assignReceipt 7]

/-- **A receipt of a story created again is forgotten by its registration.**  The
report names receipt 2 as the highest and leaves out receipt 1, which is open. -/
theorem recreated_receipt_forgotten :
    ¬ ∀ t₀ calls t, tracked.Initial t₀ → tracked.run t₀ calls = some t →
      t.SoundReports ∧ t.ledger.assigned.Nodup := by
  intro hall
  have hsound := (hall _ recreatedBeforeReport (afterCalls recreatedBeforeReport) ⟨1, rfl⟩ rfl).1
  have hlisted := hsound 7
    { watermark := 0, grapherInstance := 1, highestReceipt := 2, pendingReceipts := [2] }
    (by decide +kernel) (by decide) { storyId := 7, number := 1 } (by decide +kernel) rfl
    (by decide)
  exact absurd hlisted (by decide)

end ChronoLog
