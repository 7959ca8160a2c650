import ChronoLog.Basic

/-!
# Subscriptions to a topic

A subscription polls its topic from a watermark, sorts what the replay returned by timestamp,
passes it to the callback and moves the watermark past the greatest timestamp it has seen
(`chronopubsub_mapper.cpp`).

The watermark is one timestamp.  An event that becomes visible after one with a later or the
same timestamp was passed on stays below it and is never delivered.  A replay is over a range
without its end, so an event at the greatest timestamp is never asked for.

## Main definitions

* `Poll` — one round of the loop: what the replay answers, what the callback does, when the
  subscription is stopped.
* `messageLoop`, `pollOnce`, `runSubscription` — the loop over the messages, one round, the
  worker.
* `Delivered` — every visible message from a timestamp on was passed on exactly once.
* `Later` — what may become visible between two polls.
* `InRange` — what may be visible at all.

## Main results

* `pollOnce_spec` — what a round does to the calls and to the watermark.
* `Sound.perm_iff_later` — a round delivers exactly once just where the new messages are
  later and in range.
* `delivers_iff` — **so do all rounds of a run.**
-/

namespace ChronoLog.Plugins

/-- `Message`. -/
structure Message where
  timestamp : UInt64
  topic : String
  payload : List UInt8
  deriving DecidableEq, Repr

/-- `std::sort` by the timestamp, which puts equal ones in any order. -/
structure StdSort where
  sort : List Message → List Message
  perm : ∀ messages, (sort messages).Perm messages
  ascending : ∀ messages, (sort messages).Pairwise fun a b => a.timestamp ≤ b.timestamp

/-- What a call of the callback came to. -/
inductive CallbackOutcome where
  | returned
  /-- It threw a `std::exception`. -/
  | threw
  | threwUnknown
  deriving DecidableEq, Repr

/-- One round of the loop as the others decide it. -/
structure Poll where
  /-- `stop_requested` at the head of the loop. -/
  stopRequested : Bool := false
  /-- The messages of the topic that are visible, in the order of the replay; `none` where it
  fails. -/
  visible : Option (List Message)
  /-- `stop_requested` before each message. -/
  stopBefore : ℕ → Bool := fun _ => false
  outcome : ℕ → CallbackOutcome := fun _ => .returned

/-- A `Subscription`, with the calls of the callback in each round. -/
structure Subscription where
  watermark : UInt64
  calls : List (List (Message × CallbackOutcome)) := []

/-- `UINT64_MAX`. -/
def MAX_TIMESTAMP : UInt64 := 0xFFFFFFFFFFFFFFFF

/-- `replayEvents`: what is visible in the range `[start_ts, end_ts)`. -/
def replayEvents (visible : Option (List Message)) (start_ts end_ts : UInt64) :
    Option (List Message) :=
  visible.map fun messages => messages.filter fun message =>
    decide (start_ts ≤ message.timestamp) && decide (message.timestamp < end_ts)

/-- The loop over the messages: the calls it makes and the greatest timestamp it has seen. -/
def messageLoop (watermark : UInt64) (poll : Poll) :
    ℕ → UInt64 → List Message → List (Message × CallbackOutcome) × UInt64
  | _, maxSeen, [] => ([], maxSeen)
  | i, maxSeen, message :: rest =>
    if poll.stopBefore i then ([], maxSeen)
    else if message.timestamp < watermark then messageLoop watermark poll (i + 1) maxSeen rest
    else
      -- what the callback throws is caught and logged
      let seen := if message.timestamp > maxSeen then message.timestamp else maxSeen
      let later := messageLoop watermark poll (i + 1) seen rest
      ((message, poll.outcome i) :: later.1, later.2)

/-- One round of the loop. -/
def pollOnce (std : StdSort) (sub : Subscription) (poll : Poll) : Subscription :=
  match replayEvents poll.visible sub.watermark MAX_TIMESTAMP with
  | none => { sub with calls := sub.calls ++ [[]] }
  | some [] => { sub with calls := sub.calls ++ [[]] }
  | some (message :: messages) =>
    let round := messageLoop sub.watermark poll 0 sub.watermark (std.sort (message :: messages))
    { watermark := if round.2 ≠ MAX_TIMESTAMP then round.2 + 1 else sub.watermark
      calls := sub.calls ++ [round.1] }

/-- `runSubscription`. -/
def runSubscription (std : StdSort) (sub : Subscription) : List Poll → Subscription
  | [] => sub
  | poll :: polls =>
    if poll.stopRequested then sub else runSubscription std (pollOnce std sub poll) polls

/-- `subscribe_from`. -/
def subscribeFrom (since : UInt64) : Subscription := { watermark := since }

/-! ### What a subscription promises -/

/-- The messages that were passed to the callback, in the order of the calls. -/
def Subscription.messages (sub : Subscription) : List Message := sub.calls.flatten.map Prod.fst

/-- Every visible message from a timestamp on was passed on exactly once, those of the last
round in the order of their timestamps. -/
def Delivered (since : UInt64) (sub : Subscription) (visible : List Message) : Prop :=
  sub.messages.Perm (visible.filter fun message => since ≤ message.timestamp) ∧
    ∀ calls ∈ sub.calls.getLast?,
      (calls.map Prod.fst).Pairwise fun a b => a.timestamp ≤ b.timestamp

instance (since : UInt64) (sub : Subscription) (visible : List Message) :
    Decidable (Delivered since sub visible) := instDecidableAnd

/-- The subscription is not stopped in the round. -/
def Poll.Unstopped (poll : Poll) : Prop :=
  poll.stopRequested = false ∧ ∀ i, poll.stopBefore i = false

/-- What is visible in the rounds whose replay succeeds. -/
def visibles (polls : List Poll) : List (List Message) := polls.filterMap Poll.visible

/-- Nothing stops being visible. -/
def Grows (polls : List Poll) : Prop := (visibles polls).IsChain List.Subperm

/-- After every round whose replay succeeds everything visible has been delivered. -/
def Delivers (std : StdSort) (since : UInt64) (polls : List Poll) : Prop :=
  ∀ (before : List Poll) (poll : Poll) (visible : List Message),
    before ++ [poll] <+: polls → poll.visible = some visible →
    Delivered since (runSubscription std (subscribeFrom since) (before ++ [poll])) visible

/-- What becomes visible between two rounds has timestamps above those that were visible. -/
def Later (since : UInt64) (earlier later : List Message) : Prop :=
  ∀ message ∈ later.diff earlier, since ≤ message.timestamp →
    ∀ old ∈ earlier, since ≤ old.timestamp → old.timestamp < message.timestamp

/-- No message has the greatest timestamp, which is not in the range of any replay. -/
def InRange (visible : List Message) : Prop :=
  ∀ message ∈ visible, message.timestamp ≠ MAX_TIMESTAMP

theorem inRange_iff {visible : List Message} :
    InRange visible ↔ ∀ message ∈ visible, message.timestamp < MAX_TIMESTAMP := by
  refine forall₂_congr fun message _ => ?_
  have hbound := message.timestamp.toNat_lt
  have hmax : MAX_TIMESTAMP.toNat = 2 ^ 64 - 1 := rfl
  rw [UInt64.lt_iff_toNat_lt, ne_eq, ← UInt64.toNat_inj]
  omega

/-! ### One round -/

theorem messages_of_calls {sub sub' : Subscription} {round : List (Message × CallbackOutcome)}
    (h : sub'.calls = sub.calls ++ [round]) :
    sub'.messages = sub.messages ++ round.map Prod.fst := by
  simp [Subscription.messages, h]

/-- The loop of a subscription that is not stopped. -/
theorem messageLoop_spec {watermark maxSeen : UInt64} {poll : Poll} {i : ℕ}
    {messages : List Message} (hstop : ∀ i, poll.stopBefore i = false)
    (hfrom : ∀ message ∈ messages, watermark ≤ message.timestamp) :
    let round := messageLoop watermark poll i maxSeen messages
    round.1.map Prod.fst = messages ∧ maxSeen ≤ round.2 ∧
      (∀ message ∈ messages, message.timestamp ≤ round.2) ∧
      (round.2 = maxSeen ∨ ∃ message ∈ messages, message.timestamp = round.2) := by
  induction messages generalizing i maxSeen with
  | nil => simp [messageLoop]
  | cons message rest ih =>
    have hnot : ¬ message.timestamp < watermark :=
      UInt64.not_lt.mpr (hfrom message List.mem_cons_self)
    have hrest : ∀ m ∈ rest, watermark ≤ m.timestamp :=
      fun m hm => hfrom m (List.mem_cons_of_mem _ hm)
    simp only [messageLoop, hstop, Bool.false_eq_true, if_false, if_neg hnot]
    obtain ⟨seen, hseen⟩ : ∃ seen, seen =
      if message.timestamp > maxSeen then message.timestamp else maxSeen := ⟨_, rfl⟩
    have hmax : maxSeen ≤ seen ∧ message.timestamp ≤ seen ∧
        (seen = maxSeen ∨ message.timestamp = seen) := by
      rw [hseen]
      split
      · next h => exact ⟨UInt64.le_of_lt h, UInt64.le_refl _, Or.inr rfl⟩
      · next h => exact ⟨UInt64.le_refl _, UInt64.not_lt.mp h, Or.inl rfl⟩
    rw [← hseen]
    obtain ⟨hcalls, hle, hall, hattained⟩ := @ih seen (i + 1) hrest
    refine ⟨by rw [List.map_cons, hcalls], UInt64.le_trans hmax.1 hle, ?_, ?_⟩
    · intro m hm
      rcases List.mem_cons.mp hm with rfl | hm
      · exact UInt64.le_trans hmax.2.1 hle
      · exact hall m hm
    · rcases hattained with heq | ⟨m, hm, heq⟩
      · rw [heq]
        rcases hmax.2.2 with hold | hnew
        · exact Or.inl hold
        · exact Or.inr ⟨message, List.mem_cons_self, hnew⟩
      · exact Or.inr ⟨m, List.mem_cons_of_mem _ hm, heq⟩

/-- **What a round does.**  The callback gets what the replay returned, in order, and the
watermark passes the greatest of its timestamps. -/
theorem pollOnce_spec (std : StdSort) {sub : Subscription} {poll : Poll}
    {visible : List Message} (hstop : poll.Unstopped) (hvisible : poll.visible = some visible) :
    ∃ round : List (Message × CallbackOutcome),
      (pollOnce std sub poll).calls = sub.calls ++ [round] ∧
      (round.map Prod.fst).Perm (visible.filter fun message =>
        decide (sub.watermark ≤ message.timestamp) &&
          decide (message.timestamp < MAX_TIMESTAMP)) ∧
      (round.map Prod.fst).Pairwise (fun a b => a.timestamp ≤ b.timestamp) ∧
      ((pollOnce std sub poll).watermark = sub.watermark ∧ round = [] ∨
        ∃ m ∈ round.map Prod.fst,
          (pollOnce std sub poll).watermark.toNat = m.timestamp.toNat + 1 ∧
          ∀ m' ∈ round.map Prod.fst, m'.timestamp ≤ m.timestamp) := by
  unfold pollOnce
  rw [hvisible, replayEvents, Option.map_some]
  split
  · next h => cases h
  · next h =>
    rw [Option.some.inj h]
    exact ⟨[], rfl, .refl _, .nil, Or.inl ⟨rfl, rfl⟩⟩
  · next message rest h =>
    have hfilter := Option.some.inj h
    rw [hfilter]
    let messages := std.sort (message :: rest)
    have hperm : messages.Perm (message :: rest) := std.perm _
    have hrange : ∀ m ∈ messages, sub.watermark ≤ m.timestamp ∧ m.timestamp < MAX_TIMESTAMP := by
      intro m hm
      have hmem := hperm.subset hm
      rw [← hfilter] at hmem
      simpa using (List.mem_filter.mp hmem).2
    have hfrom : ∀ m ∈ messages, sub.watermark ≤ m.timestamp := fun m hm => (hrange m hm).1
    obtain ⟨hcalls, hle, hall, hattained⟩ :=
      @messageLoop_spec sub.watermark sub.watermark poll 0 messages hstop.2 hfrom
    obtain ⟨round, hround⟩ : ∃ round,
      messageLoop sub.watermark poll 0 sub.watermark messages = round := ⟨_, rfl⟩
    simp only [messages] at hround
    rw [hround]
    simp only [messages, hround] at hcalls hle hall hattained
    refine ⟨round.1, rfl, by rw [hcalls]; exact std.perm _, by rw [hcalls]; exact std.ascending _,
      ?_⟩
    -- the greatest timestamp is that of a message, as there is one
    have hgreatest : ∃ m ∈ std.sort (message :: rest), m.timestamp = round.2 := by
      rcases hattained with heq | hm
      · have hmem : message ∈ std.sort (message :: rest) :=
          hperm.symm.subset List.mem_cons_self
        refine ⟨message, hmem, UInt64.le_antisymm (hall message hmem) ?_⟩
        rw [heq]
        exact hfrom message hmem
      · exact hm
    obtain ⟨m, hm, htime⟩ := hgreatest
    rw [hcalls]
    dsimp only
    have hlt := UInt64.lt_iff_toNat_lt.mp (hrange m hm).2
    have hmax : MAX_TIMESTAMP.toNat = 2 ^ 64 - 1 := rfl
    have hne : round.2 ≠ MAX_TIMESTAMP := by
      intro heq
      rw [htime, heq] at hlt
      exact absurd hlt (Nat.lt_irrefl _)
    rw [if_pos hne, ← htime]
    refine Or.inr ⟨m, hm, ?_, fun m' hm' => htime ▸ hall m' hm'⟩
    rw [UInt64.toNat_add]
    exact Nat.mod_eq_of_lt (by rw [show (1 : UInt64).toNat = 1 from rfl]; omega)

/-- A round whose replay fails makes no call. -/
theorem pollOnce_failed (std : StdSort) {sub : Subscription} {poll : Poll}
    (h : poll.visible = none) :
    (pollOnce std sub poll).watermark = sub.watermark ∧
      (pollOnce std sub poll).messages = sub.messages := by
  have hpoll : pollOnce std sub poll = { sub with calls := sub.calls ++ [[]] } := by
    unfold pollOnce
    rw [h]
    rfl
  have hmessages := @messages_of_calls sub (pollOnce std sub poll) [] (by rw [hpoll])
  rw [List.map_nil, List.append_nil] at hmessages
  exact ⟨by rw [hpoll], hmessages⟩

/-! ### The watermark -/

/-- The watermark of a subscription: it is the timestamp asked for or the successor of one that
was delivered, and above all of these. -/
structure Sound (since : UInt64) (sub : Subscription) : Prop where
  since_le : since ≤ sub.watermark
  from_since : ∀ message ∈ sub.messages, since ≤ message.timestamp
  follows : sub.watermark = since ∨
    ∃ message ∈ sub.messages, sub.watermark.toNat = message.timestamp.toNat + 1
  above : ∀ message ∈ sub.messages, message.timestamp < sub.watermark

theorem sound_subscribeFrom (since : UInt64) : Sound since (subscribeFrom since) where
  since_le := UInt64.le_refl _
  from_since := nofun
  follows := Or.inl rfl
  above := nofun

theorem Sound.of_failed {std : StdSort} {since : UInt64} {sub : Subscription} {poll : Poll}
    (h : Sound since sub) (hfailed : poll.visible = none) :
    Sound since (pollOnce std sub poll) := by
  obtain ⟨hwatermark, hmessages⟩ := pollOnce_failed std hfailed
  constructor
  · rw [hwatermark]
    exact h.since_le
  · rw [hmessages]
    exact h.from_since
  · rw [hwatermark, hmessages]
    exact h.follows
  · rw [hwatermark, hmessages]
    exact h.above

theorem Sound.round {std : StdSort} {since : UInt64} {sub : Subscription} {poll : Poll}
    (h : Sound since sub) (hstop : poll.Unstopped) : Sound since (pollOnce std sub poll) := by
  cases hvisible : poll.visible with
  | none => exact h.of_failed hvisible
  | some visible =>
    obtain ⟨round, hcalls, hperm, -, hmark⟩ := @pollOnce_spec std sub poll visible hstop hvisible
    have hmessages := messages_of_calls hcalls
    have hround : ∀ m ∈ round.map Prod.fst, sub.watermark ≤ m.timestamp := by
      intro m hm
      have hrange := (List.mem_filter.mp (hperm.subset hm)).2
      exact of_decide_eq_true (Bool.and_eq_true_iff.mp hrange).1
    have hfrom : ∀ m ∈ (pollOnce std sub poll).messages, since ≤ m.timestamp := by
      rw [hmessages]
      intro m hm
      rcases List.mem_append.mp hm with hold | hnew
      · exact h.from_since m hold
      · exact UInt64.le_trans h.since_le (hround m hnew)
    rcases hmark with ⟨hsame, hnone⟩ | ⟨m, hm, hnext, hgreatest⟩
    · have hold : (pollOnce std sub poll).messages = sub.messages := by
        rw [hmessages, hnone, List.map_nil, List.append_nil]
      refine ⟨by rw [hsame]; exact h.since_le, hfrom, ?_, ?_⟩
      · rw [hsame, hold]
        exact h.follows
      · rw [hsame, hold]
        exact h.above
    · -- the watermark has moved past every message of the round
      have hmoved : sub.watermark < (pollOnce std sub poll).watermark := by
        have hle := UInt64.le_iff_toNat_le.mp (hround m hm)
        exact UInt64.lt_iff_toNat_lt.mpr (by omega)
      refine ⟨UInt64.le_trans h.since_le (UInt64.le_of_lt hmoved), hfrom, ?_, ?_⟩
      · rw [hmessages]
        exact Or.inr ⟨m, List.mem_append_right _ hm, hnext⟩
      · rw [hmessages]
        intro m' hm'
        rcases List.mem_append.mp hm' with hold | hnew
        · exact UInt64.lt_trans (h.above m' hold) hmoved
        · have hle := UInt64.le_iff_toNat_le.mp (hgreatest m' hnew)
          exact UInt64.lt_iff_toNat_lt.mpr (by omega)

/-! ### Exactly once -/

/-- What is in range is asked for from the watermark on. -/
theorem filter_inRange {visible : List Message} (h : InRange visible) (watermark : UInt64) :
    (visible.filter fun m => decide (watermark ≤ m.timestamp) &&
      decide (m.timestamp < MAX_TIMESTAMP)) = visible.filter fun m => watermark ≤ m.timestamp := by
  refine List.filter_congr fun m hm => ?_
  rw [decide_eq_true (inRange_iff.mp h m hm), Bool.and_true]

/-- **A round delivers exactly once just where what became visible is later and in range.** -/
theorem Sound.perm_iff_later {since : UInt64} {sub : Subscription}
    {earlier visible round : List Message} (h : Sound since sub)
    (hdelivered : sub.messages.Perm (earlier.filter fun m => since ≤ m.timestamp))
    (hgrows : earlier.Subperm visible)
    (hround : round.Perm (visible.filter fun m =>
      decide (sub.watermark ≤ m.timestamp) && decide (m.timestamp < MAX_TIMESTAMP))) :
    (sub.messages ++ round).Perm (visible.filter fun m => since ≤ m.timestamp) ↔
      InRange visible ∧ Later since earlier visible := by
  have hrange : (sub.messages ++ round).Perm (visible.filter fun m => since ≤ m.timestamp) →
      InRange visible := by
    intro hp m hm heq
    have hsince : since ≤ m.timestamp := by
      rw [heq, UInt64.le_iff_toNat_le, show MAX_TIMESTAMP.toNat = 2 ^ 64 - 1 from rfl]
      have hbound := since.toNat_lt
      omega
    have hin := hp.symm.subset (List.mem_filter.mpr ⟨hm, decide_eq_true hsince⟩)
    -- neither an older round nor this one has a message with that timestamp
    rcases List.mem_append.mp hin with hold | hnew
    · have hlt := UInt64.lt_iff_toNat_lt.mp (h.above m hold)
      have hbound := sub.watermark.toNat_lt
      rw [heq, show MAX_TIMESTAMP.toNat = 2 ^ 64 - 1 from rfl] at hlt
      omega
    · have hbelow := (List.mem_filter.mp (hround.subset hnew)).2
      simp [heq] at hbelow
  rw [← and_iff_right_of_imp hrange]
  refine and_congr_right fun hin => ?_
  rw [filter_inRange hin] at hround
  obtain ⟨new, hnew⟩ : ∃ new, visible.diff earlier = new := ⟨_, rfl⟩
  have hsplit : visible.Perm (earlier ++ new) := by
    rw [← hnew, ← Multiset.coe_eq_coe, ← Multiset.coe_add, ← Multiset.coe_sub,
      add_tsub_cancel_of_le hgrows]
  have hmem : ∀ m, m ∈ sub.messages ↔ m ∈ earlier ∧ since ≤ m.timestamp := by
    intro m
    rw [hdelivered.mem_iff, List.mem_filter, decide_eq_true_iff]
  -- the round is to have the new messages and no old one
  have hiff : (sub.messages ++ round).Perm (visible.filter fun m => since ≤ m.timestamp) ↔
      ((earlier.filter fun m => sub.watermark ≤ m.timestamp) ++
        new.filter fun m => sub.watermark ≤ m.timestamp).Perm
      (new.filter fun m => since ≤ m.timestamp) := by
    have hround' := hround.trans (hsplit.filter _)
    have hall := hsplit.filter fun m => decide (since ≤ m.timestamp)
    rw [List.filter_append] at hround' hall
    constructor
    · intro hp
      apply (List.perm_append_left_iff (earlier.filter fun m => since ≤ m.timestamp)).mp
      exact ((hdelivered.append hround').symm.trans hp).trans hall
    · intro hp
      exact ((hdelivered.append hround').trans (hp.append_left _)).trans hall.symm
  rw [hiff, Later, hnew]
  constructor
  · intro hp
    -- every message of the round is new
    have hnone : (earlier.filter fun m => sub.watermark ≤ m.timestamp) = [] := by
      have hlength := (hp.filter fun m => decide (sub.watermark ≤ m.timestamp)).length_eq
      have hfrom : ((new.filter fun m => since ≤ m.timestamp).filter
          fun m => sub.watermark ≤ m.timestamp) =
          new.filter fun m => sub.watermark ≤ m.timestamp := by
        rw [List.filter_filter]
        apply List.filter_congr
        intro m _
        have himp : sub.watermark ≤ m.timestamp → since ≤ m.timestamp :=
          UInt64.le_trans h.since_le
        simpa using himp
      rw [hfrom, List.filter_append, List.filter_filter, List.filter_filter] at hlength
      simp only [Bool.and_self, List.length_append] at hlength
      exact List.length_eq_zero_iff.mp (by omega)
    have hbelow : ∀ m ∈ earlier, m.timestamp < sub.watermark := by
      intro m hm
      have hnot := List.filter_eq_nil_iff.mp hnone m hm
      exact UInt64.not_le.mp (by simpa using hnot)
    intro m hm hsince old hold _
    rw [hnone, List.nil_append] at hp
    have hin := hp.symm.subset (List.mem_filter.mpr ⟨hm, decide_eq_true hsince⟩)
    have hmark : sub.watermark ≤ m.timestamp := of_decide_eq_true (List.mem_filter.mp hin).2
    exact UInt64.lt_of_lt_of_le (hbelow old hold) hmark
  · intro hlater
    have hnone : (earlier.filter fun m => sub.watermark ≤ m.timestamp) = [] := by
      apply List.filter_eq_nil_iff.mpr
      intro m hm hmark
      have hle : sub.watermark ≤ m.timestamp := of_decide_eq_true hmark
      exact UInt64.not_le.mpr (h.above m ((hmem m).mpr ⟨hm, UInt64.le_trans h.since_le hle⟩)) hle
    have hsame : (new.filter fun m => sub.watermark ≤ m.timestamp) =
        new.filter fun m => since ≤ m.timestamp := by
      apply List.filter_congr
      intro m hm
      rw [decide_eq_decide]
      constructor
      · exact UInt64.le_trans h.since_le
      · intro hsince
        rcases h.follows with heq | ⟨old, hold, heq⟩
        · rw [heq]
          exact hsince
        · obtain ⟨hold, hsinceOld⟩ := (hmem old).mp hold
          have hlt := UInt64.lt_iff_toNat_lt.mp (hlater m hm hsince old hold hsinceOld)
          exact UInt64.le_iff_toNat_le.mpr (by omega)
    rw [hnone, hsame, List.nil_append]

/-! ### Runs -/

/-- The rounds of a run deliver what is visible, from a state on. -/
def DeliversFrom (std : StdSort) (since : UInt64) (sub : Subscription) : List Poll → Prop
  | [] => True
  | poll :: polls =>
    (∀ visible, poll.visible = some visible → Delivered since (pollOnce std sub poll) visible) ∧
      DeliversFrom std since (pollOnce std sub poll) polls

theorem deliversFrom_iff_runs {std : StdSort} {since : UInt64} {sub : Subscription}
    {polls : List Poll} (hstop : ∀ poll ∈ polls, poll.Unstopped) :
    DeliversFrom std since sub polls ↔ ∀ (before : List Poll) (poll : Poll)
      (visible : List Message), before ++ [poll] <+: polls → poll.visible = some visible →
      Delivered since (runSubscription std sub (before ++ [poll])) visible := by
  induction polls generalizing sub with
  | nil => simp [DeliversFrom]
  | cons poll polls ih =>
    have hhead : poll.stopRequested = false := (hstop poll List.mem_cons_self).1
    have hrun : ∀ rest, runSubscription std sub (poll :: rest) =
        runSubscription std (pollOnce std sub poll) rest := by
      intro rest
      rw [runSubscription, hhead, if_neg (by decide)]
    rw [DeliversFrom, ih fun p hp => hstop p (List.mem_cons_of_mem _ hp)]
    constructor
    · rintro ⟨hfirst, hrest⟩ before last visible hprefix hvisible
      cases before with
      | nil =>
        obtain rfl := (List.cons_prefix_cons.mp hprefix).1
        rw [List.nil_append, hrun]
        exact hfirst visible hvisible
      | cons first before =>
        obtain ⟨rfl, htail⟩ := List.cons_prefix_cons.mp hprefix
        rw [List.cons_append, hrun]
        exact hrest before last visible htail hvisible
    · intro hall
      constructor
      · intro visible hvisible
        have hone := hall [] poll visible (List.cons_prefix_cons.mpr ⟨rfl, List.nil_prefix⟩)
          hvisible
        rwa [List.nil_append, hrun] at hone
      · intro before last visible htail hvisible
        have hlonger := hall (poll :: before) last visible
          (List.cons_prefix_cons.mpr ⟨rfl, htail⟩) hvisible
        rwa [List.cons_append, hrun] at hlonger

/-- The rounds deliver everything just where each shows later messages than the one before, in
range, from a state in which everything that was visible has been delivered. -/
theorem Sound.deliversFrom_iff {std : StdSort} {since : UInt64} {sub : Subscription}
    {earlier : List Message} {polls : List Poll} (h : Sound since sub)
    (hstop : ∀ poll ∈ polls, poll.Unstopped)
    (hdelivered : sub.messages.Perm (earlier.filter fun m => since ≤ m.timestamp))
    (hgrows : (earlier :: visibles polls).IsChain List.Subperm) :
    DeliversFrom std since sub polls ↔ (∀ visible ∈ visibles polls, InRange visible) ∧
      (earlier :: visibles polls).IsChain (Later since) := by
  induction polls generalizing sub earlier with
  | nil => simp [DeliversFrom, visibles]
  | cons poll polls ih =>
    have hunstopped := hstop poll List.mem_cons_self
    have hrest : ∀ p ∈ polls, p.Unstopped := fun p hp => hstop p (List.mem_cons_of_mem _ hp)
    rw [DeliversFrom]
    cases hvisible : poll.visible with
    | none =>
      have hvisibles : visibles (poll :: polls) = visibles polls := by simp [visibles, hvisible]
      rw [hvisibles] at hgrows ⊢
      rw [ih (h.round hunstopped) hrest
        (by rw [(pollOnce_failed std hvisible).2]; exact hdelivered) hgrows]
      exact and_iff_right nofun
    | some visible =>
      have hvisibles : visibles (poll :: polls) = visible :: visibles polls := by
        simp [visibles, hvisible]
      rw [hvisibles] at hgrows ⊢
      rw [List.isChain_cons_cons] at hgrows ⊢
      rw [List.forall_mem_cons]
      obtain ⟨round, hcalls, hperm, hascending, -⟩ := pollOnce_spec std hunstopped hvisible
      have hstep : Delivered since (pollOnce std sub poll) visible ↔
          InRange visible ∧ Later since earlier visible := by
        rw [← h.perm_iff_later hdelivered hgrows.1 hperm, Delivered, messages_of_calls hcalls]
        apply and_iff_left
        intro calls hlast
        rw [hcalls, List.getLast?_concat] at hlast
        cases hlast
        exact hascending
      have hfirst : (∀ v, some visible = some v → Delivered since (pollOnce std sub poll) v) ↔
          InRange visible ∧ Later since earlier visible := by
        rw [← hstep]
        exact ⟨fun hall => hall visible rfl, fun hd v hv => Option.some.inj hv ▸ hd⟩
      rw [hfirst, and_and_and_comm]
      apply and_congr_right
      intro hlater
      exact ih (h.round hunstopped) hrest (hstep.mpr hlater).1 hgrows.2

/-- **Delivery.**  A subscription that is not stopped has passed every visible message from the
timestamp on to the callback exactly once after every round whose replay succeeds, just where
nothing visible has the greatest timestamp, and what becomes visible between two such rounds has
timestamps above those visible before. -/
theorem delivers_iff (std : StdSort) (since : UInt64) (polls : List Poll)
    (hstop : ∀ poll ∈ polls, poll.Unstopped) (hgrows : Grows polls) :
    Delivers std since polls ↔ (∀ visible ∈ visibles polls, InRange visible) ∧
      (visibles polls).IsChain (Later since) := by
  have hfrom : ∀ {R : List Message → List Message → Prop}, (∀ visible, R [] visible) →
      (([] :: visibles polls).IsChain R ↔ (visibles polls).IsChain R) := by
    intro R hR
    cases visibles polls with
    | nil => simp
    | cons visible rest =>
      rw [List.isChain_cons_cons]
      exact and_iff_right (hR visible)
  rw [Delivers, ← deliversFrom_iff_runs hstop,
    (sound_subscribeFrom since).deliversFrom_iff hstop (.refl _)
      ((hfrom fun visible => List.nil_subperm).mpr hgrows)]
  exact and_congr_right fun _ => hfrom fun visible message _ _ old hold => by cases hold

/-- A sort that leaves equal timestamps as they are. -/
def insertionSort : StdSort where
  sort := List.insertionSort fun a b => a.timestamp ≤ b.timestamp
  perm := List.perm_insertionSort _
  ascending := by
    have : IsTrans Message fun a b => a.timestamp ≤ b.timestamp := ⟨fun _ _ _ => UInt64.le_trans⟩
    have : Std.Total fun a b : Message => a.timestamp ≤ b.timestamp :=
      ⟨fun a b => UInt64.le_total a.timestamp b.timestamp⟩
    exact List.pairwise_insertionSort _

/-- Two messages. -/
def early : Message := ⟨10, "topic", [1]⟩

@[inherit_doc early]
def late : Message := ⟨20, "topic", [2]⟩

/-- They become visible in the order of their timestamps. -/
theorem delivers_in_order :
    Delivers insertionSort 5 [⟨false, some [early], fun _ => false, fun _ => .threw⟩,
      { visible := none }, { visible := some [late, early] }] := by
  refine (delivers_iff insertionSort 5 _ ?_ ?_).mpr ⟨?_, ?_⟩
  · intro poll hpoll
    fin_cases hpoll <;> exact ⟨rfl, fun _ => rfl⟩
  · show [[early], [late, early]].IsChain List.Subperm
    decide
  · show ∀ visible ∈ [[early], [late, early]], InRange visible
    unfold InRange
    decide
  · show [[early], [late, early]].IsChain (Later 5)
    unfold Later
    decide

/-- **A message that becomes visible after a later one is lost.** -/
theorem late_message_lost :
    ¬ ∀ (std : StdSort) (since : UInt64) (polls : List Poll),
      (∀ poll ∈ polls, poll.Unstopped) → Grows polls → Delivers std since polls := by
  intro h
  have hdelivers := h insertionSort 5 [{ visible := some [late] },
    { visible := some [late, early] }] (by
      intro poll hpoll
      fin_cases hpoll <;> exact ⟨rfl, fun _ => rfl⟩) (by
      show [[late], [late, early]].IsChain List.Subperm
      decide)
  have hlast := hdelivers [{ visible := some [late] }] { visible := some [late, early] }
    [late, early] List.prefix_rfl rfl
  revert hlast
  decide

end ChronoLog.Plugins
