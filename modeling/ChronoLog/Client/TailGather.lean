import ChronoLog.Client.StoryHandle
import ChronoLog.Keeper.TailReads
import ChronoLog.Lib.Gather

/-!
# The tail of a story from all its keepers

A client asks every keeper of a story for the sequences of its most recent events, picks the most
recent ones of all, and asks each keeper for the events it picked of it (`KeeperTailReader.cpp`).
A keeper that does not answer is left out.  Between its two answers a keeper may seal, evict or
release anything.

A keeper answers each question in one step here, and the address of its client stands for it.

## Main definitions

* `gatherStoryTail` — the two phases, from what the calls return.
* `TailKeeper` — a keeper when it answers.
* `TailGathered` — what holds of a gathered tail.

## Main results

* `gatherStoryTail_inv` — what a gather returns.
* `story_tail_gathered` — **a tail that is reported whole is the end of what the keepers that
  answered held, and one that is reported partial is not**, whatever they do meanwhile.
* `hole_past_capacity` — a tail longer than a keeper's capacity may have a hole.
-/

namespace ChronoLog

/-- `Event::sequence`. -/
def Event.sequence (event : Event) : EventSequence :=
  ⟨event.eventTime, event.clientId, event.eventIndex⟩

@[simp] theorem LogEvent.sequence_toEvent (e : LogEvent) : e.toEvent.sequence = e.sequence := rfl

namespace Client

open Greatest (IsLast Keeps)
open KeeperChunkRetentionStore (HasSequence)

def CL_ERR_UNKNOWN : ℤ := -1
def CL_ERR_QUERY_TIMED_OUT : ℤ := -12
def CL_ERR_PARTIAL_RESULT : ℤ := -18

/-- How a call of a keeper ends. -/
inductive RpcAnswer (α : Type) where
  | answered (value : α)
  | timedOut
  /-- The call fails in another way, perhaps before it is sent. -/
  | failed

namespace RpcAnswer

variable {α β : Type}

def isAnswered : RpcAnswer α → Bool
  | answered _ => true
  | _ => false

def map (f : α → β) : RpcAnswer α → RpcAnswer β
  | answered value => answered (f value)
  | timedOut => timedOut
  | failed => failed

/-- What the call brings. -/
def items : RpcAnswer (List α) → List α
  | answered values => values
  | _ => []

@[simp] theorem isAnswered_map (f : α → β) (answer : RpcAnswer α) :
    (answer.map f).isAnswered = answer.isAnswered := by
  cases answer <;> rfl

theorem mem_items_map {f : α → List β} {answer : RpcAnswer α} {x : β} :
    x ∈ (answer.map f).items ↔ ∃ value, answer = answered value ∧ x ∈ f value := by
  cases answer with
  | answered value =>
    constructor
    · exact fun hx => ⟨value, rfl, hx⟩
    · rintro ⟨_, ⟨⟩, hx⟩
      exact hx
  | timedOut => simp [map, items]
  | failed => simp [map, items]

end RpcAnswer

/-- The outcomes of a phase. -/
structure Tally where
  timeouts : ℕ := 0
  errors : ℕ := 0
  responded : ℕ := 0

namespace Tally

def count {α : Type} (tally : Tally) : RpcAnswer α → Tally
  | .answered _ => { tally with responded := tally.responded + 1 }
  | .timedOut => { tally with timeouts := tally.timeouts + 1 }
  | .failed => { tally with errors := tally.errors + 1 }

/-- A question was asked in the phase, and no keeper answered. -/
def unanswered (tally : Tally) : Bool :=
  tally.responded = 0 && decide (0 < tally.timeouts + tally.errors)

/-- The code of a phase that no keeper answered. -/
def failure (tally : Tally) : ℤ :=
  if 0 < tally.timeouts then CL_ERR_QUERY_TIMED_OUT else CL_ERR_UNKNOWN

theorem failure_ne (tally : Tally) :
    tally.failure ≠ CL_SUCCESS ∧ tally.failure ≠ CL_ERR_PARTIAL_RESULT := by
  unfold failure
  split <;> decide

/-- What a phase counts. -/
theorem foldl_count {α γ : Type} (answer : γ → RpcAnswer α) (l : List γ) (tally : Tally) :
    (l.foldl (fun tally c => tally.count (answer c)) tally).responded =
        tally.responded + l.countP (fun c => (answer c).isAnswered) ∧
      (l.foldl (fun tally c => tally.count (answer c)) tally).timeouts +
          (l.foldl (fun tally c => tally.count (answer c)) tally).errors =
        tally.timeouts + tally.errors + l.countP fun c => !(answer c).isAnswered := by
  induction l generalizing tally with
  | nil => simp
  | cons c l ih =>
    obtain ⟨hresponded, hlost⟩ := ih (tally.count (answer c))
    rw [List.foldl_cons, hresponded, hlost, List.countP_cons, List.countP_cons]
    cases answer c <;> simp [count, RpcAnswer.isAnswered] <;> omega

end Tally

/-! ### The two phases -/

/-- The first phase: the sequences that keepers answered, each with the last keeper that named
it. -/
def firstPhase (calls : List (ℕ × RpcAnswer (List EventSequence))) :
    Tally × OrdMap EventSequence ℕ :=
  calls.foldl (fun acc call => (acc.1.count call.2,
    call.2.items.foldl (fun seqToKeeper seq => seqToKeeper.insert seq call.1) acc.2)) ({}, ∅)

/-- The last `take` entries, from the end. -/
def lastEntries (take : ℕ) (seqToKeeper : OrdMap EventSequence ℕ) : List (EventSequence × ℕ) :=
  seqToKeeper.toList.reverse.take take

/-- The selected sequences, for each keeper. -/
def perKeeper (entries : List (EventSequence × ℕ)) : OrdMap ℕ (List EventSequence) :=
  entries.foldl (fun perKeeper entry =>
    perKeeper.insert entry.2 (perKeeper[entry.2]?.getD [] ++ [entry.1])) ∅

/-- The second phase: the events that keepers answered. -/
def secondPhase (second : ℕ → List EventSequence → RpcAnswer (List LogEvent))
    (perKeeper : OrdMap ℕ (List EventSequence)) : Tally × OrdMap EventSequence Event :=
  perKeeper.toList.foldl (fun acc entry => (acc.1.count (second entry.1 entry.2),
    (second entry.1 entry.2).items.foldl (fun assembled e =>
      assembled.insert e.toEvent.sequence e.toEvent) acc.2)) ({}, ∅)

/-- `gather_story_tail`.  A keeper is listed with what its call returns in the first phase; a
null pointer is skipped. -/
def gatherStoryTail (keepers : List (Option (ℕ × RpcAnswer (List EventSequence)))) (n : ℕ)
    (second : ℕ → List EventSequence → RpcAnswer (List LogEvent)) : ℤ × List Event :=
  if keepers.isEmpty then (CL_ERR_NO_KEEPERS, [])
  else if n = 0 then (CL_SUCCESS, [])
  else
    let named := firstPhase (keepers.filterMap id)
    if named.1.unanswered then (named.1.failure, [])
    else if named.2.isEmpty then (CL_SUCCESS, [])
    else
      let take := min n named.2.size
      let fetched := secondPhase second (perKeeper (lastEntries take named.2))
      if fetched.1.unanswered then (fetched.1.failure, [])
      else if fetched.1.timeouts + fetched.1.errors = 0 ∧ fetched.2.size < take then
        (CL_ERR_PARTIAL_RESULT, fetched.2.toList.map Prod.snd)
      else (CL_SUCCESS, fetched.2.toList.map Prod.snd)

/-! ### What the phases find -/

section Phases

variable {calls : List (ℕ × RpcAnswer (List EventSequence))} {seq : EventSequence} {keeper n : ℕ}
  {second : ℕ → List EventSequence → RpcAnswer (List LogEvent)} {event : Event}
  {seqToKeeper : OrdMap EventSequence ℕ} {entries : List (EventSequence × ℕ)}
  {grouped : OrdMap ℕ (List EventSequence)}

theorem firstPhase_eq (calls : List (ℕ × RpcAnswer (List EventSequence))) :
    firstPhase calls = (calls.foldl (fun tally call => tally.count call.2) {},
      (calls.flatMap fun call => call.2.items.map fun seq => (seq, call.1)).foldl
        (fun seqToKeeper entry => seqToKeeper.insert entry.1 entry.2) ∅) := by
  rw [List.foldl_flatMap]
  simp only [List.foldl_map]
  exact Gather.foldl_pair
    (fun (tally : Tally) (call : ℕ × RpcAnswer (List EventSequence)) => tally.count call.2)
    (fun (seqToKeeper : OrdMap EventSequence ℕ) call =>
      call.2.items.foldl (fun seqToKeeper seq => seqToKeeper.insert seq call.1) seqToKeeper)
    calls {} ∅

/-- The first phase has the sequences that were answered. -/
theorem mem_firstPhase : seq ∈ (firstPhase calls).2 ↔ ∃ call ∈ calls, seq ∈ call.2.items := by
  rw [firstPhase_eq, Gather.mem_foldl_insert]
  simp [List.mem_flatMap]

/-- A sequence is asked of a keeper that named it. -/
theorem named_of_firstPhase (h : (firstPhase calls).2[seq]? = some keeper) :
    ∃ call ∈ calls, call.1 = keeper ∧ seq ∈ call.2.items := by
  rw [firstPhase_eq] at h
  rcases Gather.getElem?_foldl_insert _ _ _ h with hnone | ⟨entry, hentry, rfl, rfl⟩
  · simp at hnone
  · obtain ⟨call, hcall, hentry⟩ := List.mem_flatMap.mp hentry
    obtain ⟨seq, hseq, rfl⟩ := List.mem_map.mp hentry
    exact ⟨call, hcall, rfl, hseq⟩

/-- The selected sequences are the last ones. -/
theorem map_fst_lastEntries (seqToKeeper : OrdMap EventSequence ℕ) (n : ℕ) :
    (lastEntries (min n seqToKeeper.size) seqToKeeper).map Prod.fst =
      (seqToKeeper.keys.drop (seqToKeeper.keys.length - n)).reverse := by
  unfold lastEntries
  have hsize : seqToKeeper.keys.length - min n seqToKeeper.size = seqToKeeper.keys.length - n := by
    rw [Std.ExtTreeMap.length_keys]
    omega
  rw [List.map_take, List.map_reverse, Std.ExtTreeMap.map_fst_toList_eq_keys, List.take_reverse,
    hsize]

/-- What is asked of a keeper. -/
theorem asked_of_perKeeper {asked : List EventSequence}
    (h : (perKeeper entries)[keeper]? = some asked) :
    asked ≠ [] ∧ ∀ seq, seq ∈ asked ↔ (seq, keeper) ∈ entries := by
  refine ⟨Gather.ne_nil_of_foldl_group entries h, fun seq => ?_⟩
  have hmem : seq ∈ (perKeeper entries)[keeper]?.getD [] ↔ _ ∨ _ := Gather.mem_foldl_group entries
  rw [h] at hmem
  simpa using hmem

theorem secondPhase_eq (second : ℕ → List EventSequence → RpcAnswer (List LogEvent))
    (grouped : OrdMap ℕ (List EventSequence)) :
    secondPhase second grouped =
      (grouped.toList.foldl (fun tally entry => tally.count (second entry.1 entry.2)) {},
        (grouped.toList.flatMap fun entry => (second entry.1 entry.2).items).foldl
          (fun assembled e => assembled.insert e.toEvent.sequence e.toEvent) ∅) := by
  rw [List.foldl_flatMap]
  exact Gather.foldl_pair
    (fun (tally : Tally) (entry : ℕ × List EventSequence) =>
      tally.count (second entry.1 entry.2))
    (fun (assembled : OrdMap EventSequence Event) entry =>
      (second entry.1 entry.2).items.foldl (fun assembled e =>
        assembled.insert e.toEvent.sequence e.toEvent) assembled)
    grouped.toList {} ∅

/-- An event of the second phase was answered by a keeper. -/
theorem answered_of_secondPhase (h : (secondPhase second grouped).2[seq]? = some event) :
    ∃ entry ∈ grouped.toList, ∃ e ∈ (second entry.1 entry.2).items,
      e.sequence = seq ∧ e.toEvent = event := by
  rw [secondPhase_eq] at h
  rcases Gather.getElem?_foldl_insert _ _ _ h with hnone | ⟨e, he, hseq, hevent⟩
  · simp at hnone
  · obtain ⟨entry, hentry, he⟩ := List.mem_flatMap.mp he
    exact ⟨entry, hentry, e, he, hseq, hevent⟩

/-- The assembled events come in the order of their sequences. -/
theorem map_sequence_secondPhase :
    ((secondPhase second grouped).2.toList.map Prod.snd).map Event.sequence =
      (secondPhase second grouped).2.keys := by
  rw [← Std.ExtTreeMap.map_fst_toList_eq_keys, List.map_map]
  refine List.map_congr_left fun entry hentry => ?_
  obtain ⟨-, -, e, -, hseq, hevent⟩ :=
    answered_of_secondPhase (Std.ExtTreeMap.mem_toList_iff_getElem?_eq_some.mp hentry)
  rw [Function.comp_apply, ← hevent, ← hseq, LogEvent.sequence_toEvent]

end Phases

/-! ### What a gather returns -/

/-- **What a gather returns**: nothing, for a reason that its code tells, or the events of the
second phase. -/
theorem gatherStoryTail_inv (keepers : List (Option (ℕ × RpcAnswer (List EventSequence)))) (n : ℕ)
    (second : ℕ → List EventSequence → RpcAnswer (List LogEvent)) :
    let named := firstPhase (keepers.filterMap id)
    let fetched := secondPhase second (perKeeper (lastEntries (min n named.2.size) named.2))
    let result := gatherStoryTail keepers n second
    ((keepers = [] ∨ named.1.unanswered = true ∨ fetched.1.unanswered = true) ∧
        result.2 = [] ∧ result.1 ≠ CL_SUCCESS ∧ result.1 ≠ CL_ERR_PARTIAL_RESULT) ∨
      (result = (CL_SUCCESS, []) ∧ (n = 0 ∨ named.1.unanswered = false ∧ named.2 = ∅)) ∨
      (named.1.unanswered = false ∧ result.2 = fetched.2.toList.map Prod.snd ∧
        (result.1 = CL_ERR_PARTIAL_RESULT ∧ fetched.2.size < min n named.2.size ∨
          result.1 = CL_SUCCESS ∧
            (fetched.1.timeouts + fetched.1.errors = 0 →
              min n named.2.size ≤ fetched.2.size))) := by
  intro named fetched result
  -- the tests of the source, in its order
  have hresult : result = gatherStoryTail keepers n second := rfl
  unfold gatherStoryTail at hresult
  by_cases hkeepers : keepers.isEmpty = true
  · rw [if_pos hkeepers] at hresult
    rw [hresult]
    exact Or.inl ⟨Or.inl (List.isEmpty_iff.mp hkeepers), rfl, by decide, by decide⟩
  rw [if_neg hkeepers] at hresult
  by_cases hn : n = 0
  · rw [if_pos hn] at hresult
    exact Or.inr (Or.inl ⟨hresult, Or.inl hn⟩)
  rw [if_neg hn] at hresult
  change result = if named.1.unanswered = true then (named.1.failure, [])
    else if named.2.isEmpty = true then (CL_SUCCESS, [])
    else if fetched.1.unanswered = true then (fetched.1.failure, [])
    else if fetched.1.timeouts + fetched.1.errors = 0 ∧ fetched.2.size < min n named.2.size then
      (CL_ERR_PARTIAL_RESULT, fetched.2.toList.map Prod.snd)
    else (CL_SUCCESS, fetched.2.toList.map Prod.snd) at hresult
  by_cases hfirst : named.1.unanswered = true
  · rw [if_pos hfirst] at hresult
    rw [hresult]
    exact Or.inl ⟨Or.inr (Or.inl hfirst), rfl, named.1.failure_ne⟩
  rw [if_neg hfirst] at hresult
  rw [Bool.not_eq_true] at hfirst
  by_cases hnamed : named.2.isEmpty = true
  · rw [if_pos hnamed] at hresult
    exact Or.inr (Or.inl ⟨hresult, Or.inr ⟨hfirst, Std.ExtTreeMap.isEmpty_iff.mp hnamed⟩⟩)
  rw [if_neg hnamed] at hresult
  by_cases hsecond : fetched.1.unanswered = true
  · rw [if_pos hsecond] at hresult
    rw [hresult]
    exact Or.inl ⟨Or.inr (Or.inr hsecond), rfl, fetched.1.failure_ne⟩
  rw [if_neg hsecond] at hresult
  refine Or.inr (Or.inr ⟨hfirst, ?_⟩)
  split at hresult
  · next hshort =>
    rw [hresult]
    exact ⟨rfl, Or.inl ⟨rfl, hshort.2⟩⟩
  · next hwhole =>
    rw [hresult]
    exact ⟨rfl, Or.inr ⟨rfl, fun hall => not_lt.mp fun hlt => hwhole ⟨hall, hlt⟩⟩⟩

/-! ### The keepers -/

/-- A keeper when it answers: its store after a run, and the story's pipeline if it has one.  The
two are read one after the other, so they need not be of one moment: a chunk that is sealed in
between is in neither. -/
structure TailKeeper where
  tailCapacity : ℕ
  archiveVisibilityDelay : ℕ
  droppedStoryTtl : ℕ
  steps : List (RetentionStep × ℕ)
  liveTailRead : Bool
  active : Option StoryTimeline
  invariant : ∀ p ∈ active, p.Invariant

namespace TailKeeper

open KeeperChunkRetentionStore

def store (k : TailKeeper) : KeeperChunkRetentionStore :=
  (fresh k.tailCapacity k.archiveVisibilityDelay k.droppedStoryTtl).after k.steps

/-- The events of the story's tail: those sealed into it, and with `live_tail_read` those that are
not sealed yet. -/
def held (k : TailKeeper) (storyId : StoryId) : List LogEvent :=
  tailHistory storyId (fresh k.tailCapacity k.archiveVisibilityDelay k.droppedStoryTtl) k.steps ++
    unsealed k.liveTailRead k.active

/-- `tail_get_sequences`. -/
def tailGetSequences (k : TailKeeper) (storyId : StoryId) (n : ℕ) : List EventSequence :=
  k.store.getTailSequences k.liveTailRead k.active storyId n

/-- `tail_get_events`. -/
def tailGetEvents (k : TailKeeper) (storyId : StoryId) (seqs : List EventSequence) :
    List LogEvent :=
  k.store.getTailEvents k.liveTailRead k.active storyId seqs

variable {k : TailKeeper} {storyId : StoryId} {n : ℕ} {seqs : List EventSequence}

theorem holdsTail (k : TailKeeper) (storyId : StoryId) :
    HoldsTail k.tailCapacity storyId (tailHistory storyId
      (fresh k.tailCapacity k.archiveVisibilityDelay k.droppedStoryTtl) k.steps) k.store :=
  (tailInvariant_after k.tailCapacity k.archiveVisibilityDelay k.droppedStoryTtl storyId
    k.steps).holds

theorem isLast_tailGetSequences (hn : n ≤ k.tailCapacity) (storyId : StoryId) :
    IsLast n (HasSequence (k.held storyId)) (k.tailGetSequences storyId n) :=
  (k.holdsTail storyId).isLast_getTailSequences (fun _ => k.invariant) hn

/-- An event that the timeline finds is one of its events. -/
theorem mem_timelineEvents_of_find {p : StoryTimeline} {seq : EventSequence} {e : LogEvent}
    (h : KeeperStoryPipeline.findActiveEvent p seq = some e) :
    e.sequence = seq ∧ e ∈ StoryPipeline.timelineEvents p := by
  unfold KeeperStoryPipeline.findActiveEvent at h
  dsimp only at h
  split at h
  · cases h
  · obtain ⟨window, hwindow, hget⟩ := Option.bind_eq_some_iff.mp h
    obtain ⟨key, -, hwindow⟩ := Option.bind_eq_some_iff.mp hwindow
    have hseq : e.sequence = seq := (window.toStoryChunk.held seq e hget).1
    -- the window it is found in is one of the timeline's
    refine ⟨hseq, List.mem_flatMap.mpr ⟨window.toStoryChunk, List.mem_map_of_mem ?_, ?_⟩⟩
    · exact List.mem_map.mpr
        ⟨(key, window), Std.ExtTreeMap.mem_toList_iff_getElem?_eq_some.mpr hwindow, rfl⟩
    · rw [StoryChunk.mem_events, hseq]
      exact hget

/-- The keeper sends nothing but events of the tail that it was asked for. -/
theorem of_mem_tailGetEvents {e : LogEvent} (he : e ∈ k.tailGetEvents storyId seqs) :
    e.sequence ∈ seqs ∧ e ∈ k.held storyId := by
  rcases List.mem_append.mp he with he | he
  · obtain ⟨seq, hseq, hfind⟩ := List.mem_filterMap.mp he
    rcases (k.holdsTail storyId).sealedTailEvent_eq seq with ⟨-, hnone⟩ | ⟨e', he', rfl, hsome⟩
    · rw [hnone] at hfind
      cases hfind
    · rw [hsome] at hfind
      cases hfind
      exact ⟨hseq, List.mem_append_left _ he'⟩
  · split at he
    · next hlive =>
      obtain ⟨seq, hseq, hfind⟩ := List.mem_filterMap.mp he
      obtain ⟨p, hp, hfind⟩ := Option.bind_eq_some_iff.mp hfind
      obtain ⟨rfl, hmem⟩ := mem_timelineEvents_of_find hfind
      refine ⟨List.mem_of_mem_filter hseq, List.mem_append_right _ ?_⟩
      rw [unsealed, if_pos hlive, hp]
      exact hmem
    · cases he

/-- The keeper sends an event for every sequence that it named. -/
theorem sends_named (h : ∀ seq ∈ seqs, seq ∈ k.tailGetSequences storyId n) {seq : EventSequence}
    (hseq : seq ∈ seqs) : ∃ e ∈ k.tailGetEvents storyId seqs, e.sequence = seq := by
  rcases (k.holdsTail storyId).sealedTailEvent_eq seq with ⟨hmiss, hnone⟩ | ⟨e, -, rfl, hsome⟩
  · -- what the index does not find is one of the timeline's
    obtain ⟨e, -, rfl, hlive, hfind⟩ := mem_timeline (fun _ => k.invariant) (h seq hseq) hmiss
    refine ⟨e, List.mem_append_right _ ?_, rfl⟩
    rw [if_pos hlive]
    refine List.mem_filterMap.mpr ⟨e.sequence, List.mem_filter.mpr ⟨hseq, ?_⟩, hfind⟩
    rw [hnone, Option.isNone_none]
  · exact ⟨e, List.mem_append_left _ (List.mem_filterMap.mpr ⟨_, hseq, hsome⟩), rfl⟩

end TailKeeper

/-! ### The gathered tail -/

section Gathered

/-- What the calls of the first phase return. -/
def listedCalls (keepers : List (Option (ℕ × RpcAnswer TailKeeper))) (storyId : StoryId) (n : ℕ) :
    List (Option (ℕ × RpcAnswer (List EventSequence))) :=
  keepers.map (Option.map fun call => (call.1, call.2.map (·.tailGetSequences storyId n)))

/-- What the calls of the second phase return. -/
def secondCall (later : ℕ → RpcAnswer TailKeeper) (storyId : StoryId) (keeper : ℕ)
    (seqs : List EventSequence) : RpcAnswer (List LogEvent) :=
  (later keeper).map (·.tailGetEvents storyId seqs)

/-- `gather_story_tail` of listed keepers, each with the keeper that its call reaches in the first
phase; `later` has those that the calls of the second phase reach. -/
def gatherFrom (keepers : List (Option (ℕ × RpcAnswer TailKeeper)))
    (later : ℕ → RpcAnswer TailKeeper) (storyId : StoryId) (n : ℕ) : ℤ × List Event :=
  gatherStoryTail (listedCalls keepers storyId n) n (secondCall later storyId)

/-- A keeper that answers the first question has an event under the sequence. -/
def HeldBy (keepers : List (Option (ℕ × RpcAnswer TailKeeper))) (storyId : StoryId)
    (seq : EventSequence) : Prop :=
  ∃ call : ℕ × TailKeeper, some (call.1, .answered call.2) ∈ keepers ∧
    HasSequence (call.2.held storyId) seq

/-- **What holds of a gathered tail**: its events are in order, no more than were asked for, and of
the keepers' tails.  If every keeper that named sequences answers again, the code tells whether it
is the end of all that the keepers held.  It is that if they are undisturbed, and if no keeper
answers at all the code is not that of a success. -/
structure TailGathered (keepers : List (Option (ℕ × RpcAnswer TailKeeper)))
    (later : ℕ → RpcAnswer TailKeeper) (storyId : StoryId) (n : ℕ) (result : ℤ × List Event) :
    Prop where
  sorted : (result.2.map Event.sequence).Pairwise fun a b => compare a b = .lt
  length_le : result.2.length ≤ n
  sent : ∀ event ∈ result.2, ∃ (keeper : ℕ) (k k' : TailKeeper),
    some (keeper, .answered k) ∈ keepers ∧ later keeper = .answered k' ∧
      ∃ e ∈ k'.held storyId, e.toEvent = event
  whole : result.1 = CL_SUCCESS →
    (∀ (keeper : ℕ) (k : TailKeeper), some (keeper, .answered k) ∈ keepers →
      (later keeper).isAnswered = true) →
    IsLast n (HeldBy keepers storyId) (result.2.map Event.sequence)
  short : result.1 = CL_ERR_PARTIAL_RESULT →
    ¬IsLast n (HeldBy keepers storyId) (result.2.map Event.sequence)
  undisturbed : (∃ (keeper : ℕ) (k : TailKeeper), some (keeper, .answered k) ∈ keepers) →
    (∀ (keeper : ℕ) (k : TailKeeper), some (keeper, .answered k) ∈ keepers →
      later keeper = .answered k) → result.1 = CL_SUCCESS
  unread : 0 < n → (∃ call, some call ∈ keepers) →
    (∀ (keeper : ℕ) (k : TailKeeper), some (keeper, .answered k) ∉ keepers) →
    result.1 ≠ CL_SUCCESS

variable {keepers : List (Option (ℕ × RpcAnswer TailKeeper))} {later : ℕ → RpcAnswer TailKeeper}
  {storyId : StoryId} {n : ℕ} {seq : EventSequence}

/-- The calls of the first phase, without the null pointers. -/
def firstCalls (keepers : List (Option (ℕ × RpcAnswer TailKeeper))) (storyId : StoryId) (n : ℕ) :
    List (ℕ × RpcAnswer (List EventSequence)) :=
  (listedCalls keepers storyId n).filterMap id

/-- The first phase. -/
def named (keepers : List (Option (ℕ × RpcAnswer TailKeeper))) (storyId : StoryId) (n : ℕ) :
    Tally × OrdMap EventSequence ℕ :=
  firstPhase (firstCalls keepers storyId n)

/-- The sequences that the second phase asks for. -/
def selected (keepers : List (Option (ℕ × RpcAnswer TailKeeper))) (storyId : StoryId) (n : ℕ) :
    List EventSequence :=
  (named keepers storyId n).2.keys.drop ((named keepers storyId n).2.keys.length - n)

/-- What is asked of the keepers in the second phase. -/
def questions (keepers : List (Option (ℕ × RpcAnswer TailKeeper))) (storyId : StoryId) (n : ℕ) :
    OrdMap ℕ (List EventSequence) :=
  perKeeper (lastEntries (min n (named keepers storyId n).2.size) (named keepers storyId n).2)

/-- The second phase. -/
def fetched (keepers : List (Option (ℕ × RpcAnswer TailKeeper))) (later : ℕ → RpcAnswer TailKeeper)
    (storyId : StoryId) (n : ℕ) : Tally × OrdMap EventSequence Event :=
  secondPhase (secondCall later storyId) (questions keepers storyId n)

theorem mem_firstCalls {call : ℕ × RpcAnswer (List EventSequence)} :
    call ∈ firstCalls keepers storyId n ↔ ∃ listed, some listed ∈ keepers ∧
      (listed.1, listed.2.map (·.tailGetSequences storyId n)) = call := by
  unfold firstCalls listedCalls
  rw [List.filterMap_map, List.mem_filterMap]
  constructor
  · rintro ⟨listed?, hlisted, heq⟩
    obtain ⟨listed, rfl, rfl⟩ := Option.map_eq_some_iff.mp heq
    exact ⟨listed, hlisted, rfl⟩
  · rintro ⟨listed, hlisted, rfl⟩
    exact ⟨some listed, hlisted, rfl⟩

/-- The sequences that a call of the first phase brings are those of a keeper that answers. -/
theorem named_of_mem_firstCalls {call : ℕ × RpcAnswer (List EventSequence)}
    (hcall : call ∈ firstCalls keepers storyId n) (hseq : seq ∈ call.2.items) :
    ∃ k : TailKeeper, some (call.1, .answered k) ∈ keepers ∧
      seq ∈ k.tailGetSequences storyId n := by
  obtain ⟨⟨keeper, answer⟩, hlisted, rfl⟩ := mem_firstCalls.mp hcall
  obtain ⟨k, rfl, hseq⟩ := RpcAnswer.mem_items_map.mp hseq
  exact ⟨k, hlisted, hseq⟩

theorem mem_named : seq ∈ (named keepers storyId n).2.keys ↔
    ∃ call : ℕ × TailKeeper, some (call.1, .answered call.2) ∈ keepers ∧
      seq ∈ call.2.tailGetSequences storyId n := by
  rw [Std.ExtTreeMap.mem_keys, named, mem_firstPhase]
  constructor
  · rintro ⟨call, hcall, hseq⟩
    obtain ⟨k, hlisted, hseq⟩ := named_of_mem_firstCalls hcall hseq
    exact ⟨(call.1, k), hlisted, hseq⟩
  · rintro ⟨⟨keeper, k⟩, hlisted, hseq⟩
    refine ⟨_, mem_firstCalls.mpr ⟨_, hlisted, rfl⟩, ?_⟩
    exact (RpcAnswer.mem_items_map (f := (·.tailGetSequences storyId n))).mpr ⟨k, rfl, hseq⟩

/-- The selected sequences are the end of what the keepers hold. -/
theorem isLast_selected (hn : ∀ (keeper : ℕ) (k : TailKeeper),
      some (keeper, .answered k) ∈ keepers → n ≤ k.tailCapacity) (storyId : StoryId) :
    IsLast n (HeldBy keepers storyId) (selected keepers storyId n) := by
  have hlast : ∀ call : ℕ × TailKeeper, some (call.1, .answered call.2) ∈ keepers →
      IsLast n (HasSequence (call.2.held storyId)) (call.2.tailGetSequences storyId n) :=
    fun call hcall => call.2.isLast_tailGetSequences (hn _ _ hcall) storyId
  have hkeeps : Keeps n (HeldBy keepers storyId)
      (named keepers storyId n).2.keys :=
    Keeps.family (fun call hcall => (hlast call hcall).keeps)
      (fun call hcall => Greatest.nodup_of_sorted (hlast call hcall).sorted) fun seq => mem_named
  exact hkeeps.isLast Std.ExtTreeMap.ordered_keys le_rfl

theorem length_selected :
    (selected keepers storyId n).length =
      min n (named keepers storyId n).2.size := by
  rw [selected, List.length_drop, Std.ExtTreeMap.length_keys]
  omega

theorem mem_selected : seq ∈ selected keepers storyId n ↔
    seq ∈ (lastEntries (min n (named keepers storyId n).2.size)
      (named keepers storyId n).2).map Prod.fst := by
  rw [map_fst_lastEntries, List.mem_reverse, selected]

/-- **What is asked of a keeper** is selected, and the keeper named it. -/
theorem asked_of_questions {keeper : ℕ} {asked : List EventSequence}
    (h : (questions keepers storyId n)[keeper]? = some asked) :
    asked ≠ [] ∧ ∀ seq ∈ asked, seq ∈ selected keepers storyId n ∧
      ∃ k : TailKeeper, some (keeper, .answered k) ∈ keepers ∧
        seq ∈ k.tailGetSequences storyId n := by
  obtain ⟨hne, hasked⟩ := asked_of_perKeeper h
  refine ⟨hne, fun seq hseq => ?_⟩
  have hentry := (hasked seq).mp hseq
  refine ⟨mem_selected.mpr (List.mem_map_of_mem hentry), ?_⟩
  have hget := Std.ExtTreeMap.mem_toList_iff_getElem?_eq_some.mp
    (List.mem_reverse.mp (List.mem_of_mem_take hentry))
  obtain ⟨call, hcall, rfl, hseq⟩ := named_of_firstPhase hget
  exact named_of_mem_firstCalls hcall hseq

/-- Every selected sequence is asked of a keeper. -/
theorem exists_question (h : seq ∈ selected keepers storyId n) :
    ∃ (keeper : ℕ) (asked : List EventSequence),
      (questions keepers storyId n)[keeper]? = some asked ∧ seq ∈ asked := by
  obtain ⟨⟨seq, keeper⟩, hentry, rfl⟩ := List.mem_map.mp (mem_selected.mp h)
  have hmem : seq ∈ (questions keepers storyId n)[keeper]?.getD [] :=
    (Gather.mem_foldl_group _).mpr (Or.inr hentry)
  -- a keeper without a question would have been asked for nothing
  cases hget : (questions keepers storyId n)[keeper]? with
  | none =>
    rw [hget] at hmem
    cases hmem
  | some asked =>
    rw [hget] at hmem
    exact ⟨keeper, asked, hget, hmem⟩

/-- **What the second phase brings** was selected, and the keeper that sent it holds it. -/
theorem fetched_inv {event : Event}
    (h : (fetched keepers later storyId n).2[seq]? =
      some event) :
    seq ∈ selected keepers storyId n ∧ ∃ (keeper : ℕ) (k k' : TailKeeper),
      some (keeper, .answered k) ∈ keepers ∧ later keeper = .answered k' ∧
        ∃ e ∈ k'.held storyId, e.toEvent = event := by
  obtain ⟨⟨keeper, asked⟩, hquestion, e, he, rfl, rfl⟩ := answered_of_secondPhase h
  obtain ⟨-, hasked⟩ :=
    asked_of_questions (Std.ExtTreeMap.mem_toList_iff_getElem?_eq_some.mp hquestion)
  obtain ⟨k', hlater, he⟩ := RpcAnswer.mem_items_map.mp he
  obtain ⟨hseq, hheld⟩ := TailKeeper.of_mem_tailGetEvents he
  obtain ⟨hselected, k, hlisted, -⟩ := hasked _ hseq
  exact ⟨hselected, keeper, k, k', hlisted, hlater, e, hheld, rfl⟩

theorem fetched_subset (keepers : List (Option (ℕ × RpcAnswer TailKeeper)))
    (later : ℕ → RpcAnswer TailKeeper) (storyId : StoryId) (n : ℕ) :
    (fetched keepers later storyId n).2.keys ⊆ selected keepers storyId n := by
  intro seq hseq
  rw [Std.ExtTreeMap.mem_keys, Std.ExtTreeMap.mem_iff_isSome_getElem?] at hseq
  obtain ⟨event, hget⟩ := Option.isSome_iff_exists.mp hseq
  exact (fetched_inv hget).1

/-- If the keepers that named sequences answer again, no question is lost. -/
theorem no_failures (h : ∀ (keeper : ℕ) (k : TailKeeper), some (keeper, .answered k) ∈ keepers →
      (later keeper).isAnswered = true) :
    (fetched keepers later storyId n).1.timeouts +
      (fetched keepers later storyId n).1.errors = 0 := by
  have hanswered : (questions keepers storyId n).toList.countP
      (fun entry => !(secondCall later storyId entry.1 entry.2).isAnswered) = 0 := by
    rw [List.countP_eq_zero]
    rintro ⟨keeper, asked⟩ hquestion
    obtain ⟨hne, hasked⟩ :=
      asked_of_questions (Std.ExtTreeMap.mem_toList_iff_getElem?_eq_some.mp hquestion)
    obtain ⟨seq, hseq⟩ := List.exists_mem_of_ne_nil _ hne
    obtain ⟨-, k, hlisted, -⟩ := hasked seq hseq
    rw [secondCall, RpcAnswer.isAnswered_map, h keeper k hlisted]
    exact Bool.false_ne_true
  rw [fetched, secondPhase_eq, (Tally.foldl_count _ _ _).2, hanswered]
  rfl

/-- A keeper that is undisturbed sends all that it is asked for. -/
theorem selected_subset (h : ∀ (keeper : ℕ) (k : TailKeeper), some (keeper, .answered k) ∈ keepers →
      later keeper = .answered k) :
    selected keepers storyId n ⊆ (fetched keepers later storyId n).2.keys := by
  intro seq hseq
  obtain ⟨keeper, asked, hquestion, hseq⟩ := exists_question hseq
  obtain ⟨-, hasked⟩ := asked_of_questions hquestion
  obtain ⟨-, k, hlisted, -⟩ := hasked seq hseq
  -- a keeper that is listed twice named the sequences in the same state
  have hnamed : ∀ seq ∈ asked, seq ∈ k.tailGetSequences storyId n := by
    intro seq hseq
    obtain ⟨-, k', hlisted', hmem⟩ := hasked seq hseq
    have hsame := (h keeper k hlisted).symm.trans (h keeper k' hlisted')
    cases hsame
    exact hmem
  obtain ⟨e, he, rfl⟩ := TailKeeper.sends_named hnamed hseq
  rw [Std.ExtTreeMap.mem_keys, fetched, secondPhase_eq, Gather.mem_foldl_insert]
  refine Or.inr ⟨e, List.mem_flatMap.mpr ⟨(keeper, asked), ?_, ?_⟩, rfl⟩
  · exact Std.ExtTreeMap.mem_toList_iff_getElem?_eq_some.mpr hquestion
  · exact RpcAnswer.mem_items_map.mpr ⟨k, h keeper k hlisted, he⟩

/-- The first phase is a failure if a keeper was asked and none answered. -/
theorem unanswered_firstCalls :
    (named keepers storyId n).1.unanswered = true ↔
      (∃ call, some call ∈ keepers) ∧
        ∀ (keeper : ℕ) (k : TailKeeper), some (keeper, .answered k) ∉ keepers := by
  obtain ⟨hresponded, hlost⟩ := Tally.foldl_count Prod.snd (firstCalls keepers storyId n) {}
  rw [named, firstPhase_eq, Tally.unanswered, Bool.and_eq_true, decide_eq_true_eq,
    decide_eq_true_eq, hresponded, hlost, Nat.zero_add, Nat.zero_add, Nat.zero_add,
    List.countP_eq_zero, List.countP_pos_iff]
  constructor
  · rintro ⟨hnone, call, hcall, -⟩
    obtain ⟨listed, hlisted, -⟩ := mem_firstCalls.mp hcall
    exact ⟨⟨listed, hlisted⟩, fun keeper k hk => hnone _ (mem_firstCalls.mpr ⟨_, hk, rfl⟩) rfl⟩
  · rintro ⟨⟨listed, hlisted⟩, hnone⟩
    -- a call that is not answered is counted as lost, however it ends
    have hlost : ∀ listed : ℕ × RpcAnswer TailKeeper, some listed ∈ keepers →
        (listed.2.map (·.tailGetSequences storyId n)).isAnswered = false := by
      rintro ⟨keeper, answer⟩ hmem
      cases answer with
      | answered k => exact absurd hmem (hnone keeper k)
      | timedOut => rfl
      | failed => rfl
    refine ⟨fun call hcall => ?_, _, mem_firstCalls.mpr ⟨listed, hlisted, rfl⟩, ?_⟩
    · obtain ⟨listed, hlisted, rfl⟩ := mem_firstCalls.mp hcall
      rw [hlost listed hlisted]
      exact Bool.false_ne_true
    · rw [hlost listed hlisted]
      rfl

/-- A gather that fails: no keeper was listed, or none answered in a phase. -/
theorem gathered_of_failure {result : ℤ × List Event}
    (hwhy : keepers = [] ∨ (named keepers storyId n).1.unanswered = true ∨
      (fetched keepers later storyId n).1.unanswered = true) (hevents : result.2 = [])
    (hsuccess : result.1 ≠ CL_SUCCESS) (hshort : result.1 ≠ CL_ERR_PARTIAL_RESULT) :
    TailGathered keepers later storyId n result := by
  refine ⟨?_, ?_, ?_, fun h => absurd h hsuccess, fun h => absurd h hshort, ?_,
    fun _ _ _ => hsuccess⟩
  · rw [hevents]
    exact List.Pairwise.nil
  · rw [hevents]
    exact Nat.zero_le n
  · rw [hevents]
    intro event hevent
    cases hevent
  · rintro ⟨keeper, k, hlisted⟩ hsame
    rcases hwhy with rfl | hfirst | hsecond
    · cases hlisted
    · exact absurd hlisted ((unanswered_firstCalls.mp hfirst).2 keeper k)
    · have hanswers : ∀ (keeper : ℕ) (k : TailKeeper), some (keeper, .answered k) ∈ keepers →
          (later keeper).isAnswered = true := by
        intro keeper k hk
        rw [hsame keeper k hk]
        rfl
      rw [Tally.unanswered, no_failures hanswers, Bool.and_eq_true] at hsecond
      exact absurd (of_decide_eq_true hsecond.2) (Nat.lt_irrefl 0)

/-- A gather that finds nothing to read. -/
theorem gathered_of_nothing (hlast : IsLast n (HeldBy keepers storyId) (selected keepers storyId n))
    (hwhy : n = 0 ∨
      (named keepers storyId n).1.unanswered = false ∧ (named keepers storyId n).2 = ∅) :
    TailGathered keepers later storyId n (CL_SUCCESS, []) := by
  have hsize : min n (named keepers storyId n).2.size = 0 := by
    rcases hwhy with rfl | ⟨-, hnone⟩
    · exact Nat.zero_min _
    · rw [hnone, Std.ExtTreeMap.size_empty, Nat.min_zero]
  rw [List.eq_nil_of_length_eq_zero (length_selected.trans hsize)] at hlast
  refine ⟨List.Pairwise.nil, Nat.zero_le n, fun event hevent => (by cases hevent),
    fun _ _ => hlast, fun h => (by cases h), fun _ _ => rfl, fun hpos hasked hunread => ?_⟩
  rcases hwhy with rfl | ⟨hfirst, -⟩
  · exact absurd hpos (Nat.lt_irrefl 0)
  · rw [unanswered_firstCalls.mpr ⟨hasked, hunread⟩] at hfirst
    cases hfirst

/-- A gather that reads: the events of the second phase are all that were selected, unless some
are missing. -/
theorem gathered_of_fetched {result : ℤ × List Event}
    (hlast : IsLast n (HeldBy keepers storyId) (selected keepers storyId n))
    (hfirst : (named keepers storyId n).1.unanswered = false)
    (hevents : result.2 = (fetched keepers later storyId n).2.toList.map Prod.snd)
    (hcode : result.1 = CL_ERR_PARTIAL_RESULT ∧
        (fetched keepers later storyId n).2.size < min n (named keepers storyId n).2.size ∨
      result.1 = CL_SUCCESS ∧
        ((fetched keepers later storyId n).1.timeouts +
            (fetched keepers later storyId n).1.errors = 0 →
          min n (named keepers storyId n).2.size ≤ (fetched keepers later storyId n).2.size)) :
    TailGathered keepers later storyId n result := by
  have hsub := fetched_subset keepers later storyId n
  have hsorted : (fetched keepers later storyId n).2.keys.Pairwise
      fun a b => compare a b = .lt := Std.ExtTreeMap.ordered_keys
  have hle := ((Greatest.nodup_of_sorted hsorted).subperm hsub).length_le
  have hkeys : result.2.map Event.sequence = (fetched keepers later storyId n).2.keys := by
    rw [hevents, fetched, map_sequence_secondPhase]
  have hlength : result.2.length = (fetched keepers later storyId n).2.keys.length := by
    rw [← hkeys, List.length_map]
  rw [← length_selected, ← Std.ExtTreeMap.length_keys] at hcode
  have hcodes : CL_ERR_PARTIAL_RESULT ≠ CL_SUCCESS := by decide
  refine ⟨hkeys ▸ hsorted, hlength ▸ hle.trans hlast.length_le, ?_, fun hsuccess hall => ?_,
    fun hshort h => ?_, fun _ hsame => ?_, fun _ hasked hunread => ?_⟩
  · rw [hevents]
    intro event hevent
    obtain ⟨⟨seq, event⟩, hentry, rfl⟩ := List.mem_map.mp hevent
    exact (fetched_inv (Std.ExtTreeMap.mem_toList_iff_getElem?_eq_some.mp hentry)).2
  · rcases hcode with ⟨hshort, -⟩ | ⟨-, hwhole⟩
    · exact absurd (hshort.symm.trans hsuccess) hcodes
    · rw [hkeys, hlast.eq_of_subset hsorted hsub (hwhole (no_failures hall))]
      exact hlast
  · -- there is one end only, and it has as many sequences as were selected
    rcases hcode with ⟨-, hfewer⟩ | ⟨hsuccess, -⟩
    · rw [hkeys] at h
      rw [h.eq hlast] at hfewer
      exact absurd hfewer (Nat.lt_irrefl _)
    · exact absurd (hshort.symm.trans hsuccess) hcodes
  · rcases hcode with ⟨-, hfewer⟩ | ⟨hsuccess, -⟩
    · have hmore := ((Greatest.nodup_of_sorted hlast.sorted).subperm
        (selected_subset hsame)).length_le
      exact absurd hfewer (Nat.not_lt.mpr hmore)
    · exact hsuccess
  · rw [unanswered_firstCalls.mpr ⟨hasked, hunread⟩] at hfirst
    cases hfirst

/-- **A gathered tail has no holes that its code does not tell of**, whatever the stores of the
keepers went through up to each of their answers: for at most as many events as the keepers' tails
may hold. -/
theorem story_tail_gathered (keepers : List (Option (ℕ × RpcAnswer TailKeeper)))
    (later : ℕ → RpcAnswer TailKeeper) (storyId : StoryId) (n : ℕ)
    (hn : ∀ (keeper : ℕ) (k : TailKeeper), some (keeper, .answered k) ∈ keepers →
      n ≤ k.tailCapacity) :
    TailGathered keepers later storyId n (gatherFrom keepers later storyId n) := by
  have hlast := isLast_selected hn storyId
  rcases gatherStoryTail_inv (listedCalls keepers storyId n) n (secondCall later storyId) with
    ⟨hwhy, hevents, hsuccess, hshort⟩ | ⟨hresult, hwhy⟩ | ⟨hfirst, hevents, hcode⟩
  · exact gathered_of_failure (hwhy.imp_left List.map_eq_nil_iff.mp) hevents hsuccess hshort
  · have hnothing : gatherFrom keepers later storyId n = (CL_SUCCESS, []) := hresult
    rw [hnothing]
    exact gathered_of_nothing hlast hwhy
  · exact gathered_of_fetched hlast hfirst hevents hcode

end Gathered

/-- A keeper of story 7 with three chunks sealed out of order. -/
def sealedKeeper : TailKeeper where
  tailCapacity := 2
  archiveVisibilityDelay := 0
  droppedStoryTtl := 0
  steps := KeeperChunkRetentionStore.outOfOrder
  liveTailRead := false
  active := none
  invariant := fun p hp => by cases hp

/-- A keeper with events that are not sealed yet. -/
def activeKeeper : TailKeeper :=
  { sealedKeeper with
    steps := []
    liveTailRead := true
    active := some StoryTimeline.secondWindows
    invariant := fun _ hp => Option.mem_some.mp hp ▸ StoryTimeline.invariant_secondWindows }

/-- A null pointer, a keeper that does not answer and two that do. -/
def fourKeepers : List (Option (ℕ × RpcAnswer TailKeeper)) :=
  [none, some (1, .answered sealedKeeper), some (2, .timedOut), some (3, .answered activeKeeper)]

/-- The second keeper restarts between its answers. -/
def fourKeepersLater : ℕ → RpcAnswer TailKeeper
  | 1 => .answered sealedKeeper
  | 3 => .answered { sealedKeeper with steps := [] }
  | _ => .timedOut

/-- A gather with a keeper lost and one restarted. -/
theorem story_tail_gathered_fourKeepers :
    TailGathered fourKeepers fourKeepersLater 7 2
      (gatherFrom fourKeepers fourKeepersLater 7 2) := by
  refine story_tail_gathered fourKeepers fourKeepersLater 7 2 fun keeper k h => ?_
  simp only [fourKeepers, List.mem_cons, List.not_mem_nil, or_false, Option.some.injEq,
    Prod.mk.injEq, RpcAnswer.answered.injEq, reduceCtorEq, and_false, false_or] at h
  rcases h with ⟨-, rfl⟩ | ⟨-, rfl⟩ <;> exact le_rfl

/-- A keeper that may hold one event, after two were sealed. -/
def smallKeeper : TailKeeper :=
  { sealedKeeper with
    tailCapacity := 1
    steps := [(.sealChunk (oneEventChunk 15 25 20), 0), (.sealChunk (oneEventChunk 25 35 30), 1)] }

/-- A keeper with an older event. -/
def olderKeeper : TailKeeper :=
  { sealedKeeper with steps := [(.sealChunk (oneEventChunk 0 15 10), 0)] }

def shortTails : List (Option (ℕ × RpcAnswer TailKeeper)) :=
  [some (1, .answered smallKeeper), some (2, .answered olderKeeper)]

/-- What the two keepers are at their second answers: nothing has changed. -/
def shortTailsLater (keeper : ℕ) : RpcAnswer TailKeeper :=
  ((shortTails.filterMap id).lookup keeper).getD .timedOut

/-- **A tail longer than a keeper's capacity may have a hole** that its code does not tell of. -/
theorem hole_past_capacity :
    (gatherFrom shortTails shortTailsLater 7 2).1 = CL_SUCCESS ∧
      ¬IsLast 2 (HeldBy shortTails 7)
        ((gatherFrom shortTails shortTailsLater 7 2).2.map Event.sequence) := by
  refine ⟨by decide +kernel, fun h => ?_⟩
  have hread : (gatherFrom shortTails shortTailsLater 7 2).2.map Event.sequence =
      [(eventAt 10).sequence, (eventAt 30).sequence] := by
    decide +kernel
  rw [hread] at h
  have hheld : HeldBy shortTails 7 (eventAt 20).sequence :=
    ⟨(1, smallKeeper), List.mem_cons_self, eventAt 20, by decide +kernel, rfl⟩
  have habove := (h.top _ hheld (by decide +kernel)).2 _ List.mem_cons_self
  revert habove
  decide +kernel

end Client

end ChronoLog
