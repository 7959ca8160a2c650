import ChronoLog.Keeper.Sweeps
import ChronoLog.Lib.OrdMap

/-!
# What the retention store tells the WAL, and its byte counts

The store keeps two running totals beside its chunks: the bytes it owns and the
bytes of the chunks the WAL was not told about.  The second one gates the
admission of durable writes.  A chunk enters both totals when it is sealed,
leaves the second when it is first confirmed written, and leaves the first when
it goes.

The books of a store are the list of its chunks with what they put into the
totals, and what they say does not depend on the order of the list.  Every method
is a sequence of a few entries in the books.

## Main definitions

* `BookEntry`, `Books` — the books, and that the totals and the calls to the WAL
  agree with them.
* `WalAccounted` — what the totals and the calls are in a state.
* `StepAccounted` — what one call does to a chunk and to the calls about it.

## Main results

* `Books.tell`, `Books.forget`, `Books.take` — the entries.
* `wal_accounted` — **the totals are exact, the WAL is told once of each chunk and
  at the first call that can see it written, and no chunk goes unnoticed**, in
  every run.
* `released_chunk_is_dropped` — a chunk the WAL was told about goes with its story.
-/

namespace ChronoLog

namespace RetentionStep

open KeeperChunkRetentionStore

/-- The story the step destroys on the keeper. -/
def drops : RetentionStep → Option StoryId
  | call c => c.destroys
  | _ => none

/-- The state of a chunk with what the step delivers of it. -/
def delivered (storyId : StoryId) (id : ChunkId) (state : ChunkState) :
    RetentionStep → ChunkState
  | call (.markShipped storyId' id' grapherInstance receipt) =>
    if storyId' = storyId ∧ id' = id then
      { state with shipped := true, receiptInstance := grapherInstance, receipt := receipt }
    else state
  | _ => state

end RetentionStep

namespace KeeperChunkRetentionStore

open OrderedMap Transition

/-! ### The books -/

/-- What the books say of one chunk. -/
structure BookEntry where
  storyId : StoryId
  id : ChunkId
  bytes : ℕ
  released : Bool
  deriving DecidableEq, Repr

/-- The bytes of the chunks the WAL was not told about. -/
def unreleased (entries : List BookEntry) : ℕ :=
  ((entries.filter fun x => !x.released).map BookEntry.bytes).sum

/-- The totals and the chunks the WAL was told about agree with the books. -/
structure Books (entries : List BookEntry) (retainedBytes unconfirmedBytes nextChunk : ℕ)
    (written : List ChunkId) : Prop where
  retained : retainedBytes = (entries.map BookEntry.bytes).sum
  unconfirmed : unconfirmedBytes = unreleased entries
  distinct : (entries.map BookEntry.id).Nodup
  allocated : ∀ x ∈ entries, x.id < nextChunk
  released : ∀ x ∈ entries, x.released = true ↔ x.id ∈ written
  once : written.Nodup
  written_lt : ∀ id ∈ written, id < nextChunk

namespace Books

variable {entries entries' : List BookEntry} {R U n b : ℕ} {storyId : StoryId} {id : ChunkId}
  {w : List ChunkId} {x : BookEntry}

theorem unreleased_cons (x : BookEntry) (entries : List BookEntry) :
    unreleased (x :: entries) = (if x.released then 0 else x.bytes) + unreleased entries := by
  unfold unreleased
  cases hx : x.released <;> simp [hx]

theorem perm (h : Books entries R U n w) (hp : entries.Perm entries') : Books entries' R U n w where
  retained := h.retained.trans (hp.map _).sum_eq
  unconfirmed := h.unconfirmed.trans ((hp.filter _).map _).sum_eq
  distinct := (hp.map _).nodup_iff.mp h.distinct
  allocated := fun x hx => h.allocated x (hp.mem_iff.mpr hx)
  released := fun x hx => h.released x (hp.mem_iff.mpr hx)
  once := h.once
  written_lt := h.written_lt

/-- The WAL is told about a chunk. -/
theorem tell (h : Books (⟨storyId, id, b, false⟩ :: entries) R U n w) :
    Books (⟨storyId, id, b, true⟩ :: entries) R (U - min b U) n (w ++ [id]) := by
  have hself := h.released ⟨storyId, id, b, false⟩ List.mem_cons_self
  have hnew : id ∉ w := fun hmem => by simpa using hself.mpr hmem
  have hlt : id < n := h.allocated _ List.mem_cons_self
  have hdistinct := h.distinct
  rw [List.map_cons, List.nodup_cons] at hdistinct
  have hU := h.unconfirmed
  rw [unreleased_cons] at hU
  refine ⟨h.retained, ?_, h.distinct, ?_, ?_, ?_, ?_⟩
  · rw [unreleased_cons]
    simp only [Bool.false_eq_true, if_false, if_true] at hU ⊢
    omega
  · intro x hx
    rcases List.mem_cons.mp hx with rfl | hx
    · exact hlt
    · exact h.allocated x (List.mem_cons_of_mem _ hx)
  · intro x hx
    rcases List.mem_cons.mp hx with rfl | hrest
    · simp
    · have hne : x.id ≠ id := by
        intro heq
        exact hdistinct.1 (List.mem_map.mpr ⟨x, hrest, heq⟩)
      rw [h.released x (List.mem_cons_of_mem _ hrest)]
      simp [hne]
  · rw [List.nodup_append]
    refine ⟨h.once, by simp, ?_⟩
    intro a ha c hc heq
    rw [List.mem_singleton] at hc
    exact hnew (hc ▸ heq ▸ ha)
  · intro id' hid'
    rcases List.mem_append.mp hid' with hw | hw
    · exact h.written_lt id' hw
    · rw [List.mem_singleton] at hw
      exact hw ▸ hlt

/-- A chunk leaves the books, whether the WAL was told about it or not. -/
theorem forget (h : Books (x :: entries) R U n w) :
    Books entries (R - min x.bytes R) (if x.released then U else U - min x.bytes U) n w := by
  have hR := h.retained
  have hU := h.unconfirmed
  rw [List.map_cons, List.sum_cons] at hR
  rw [unreleased_cons] at hU
  refine ⟨by omega, ?_, ?_, ?_, ?_, h.once, h.written_lt⟩
  · split
    · next hx =>
      rw [hx, if_pos rfl] at hU
      omega
    · next hx =>
      rw [if_neg hx] at hU
      omega
  · exact (List.nodup_cons.mp h.distinct).2
  · exact fun y hy => h.allocated y (List.mem_cons_of_mem _ hy)
  · exact fun y hy => h.released y (List.mem_cons_of_mem _ hy)

/-- A sealed chunk is taken under the next allocation. -/
theorem take (h : Books entries R U n w) (storyId : StoryId) (b : ℕ) :
    Books (⟨storyId, n, b, false⟩ :: entries) (R + b) (U + b) (n + 1) w := by
  have hR := h.retained
  have hU := h.unconfirmed
  refine ⟨?_, ?_, ?_, ?_, ?_, h.once, fun id hid => Nat.lt_succ_of_lt (h.written_lt id hid)⟩
  · rw [List.map_cons, List.sum_cons]
    dsimp only
    omega
  · rw [unreleased_cons]
    simp only [Bool.false_eq_true, if_false]
    omega
  · rw [List.map_cons, List.nodup_cons]
    refine ⟨fun hmem => ?_, h.distinct⟩
    obtain ⟨x, hx, hid⟩ := List.mem_map.mp hmem
    have hlt := h.allocated x hx
    rw [hid] at hlt
    exact lt_irrefl _ hlt
  · intro x hx
    rcases List.mem_cons.mp hx with rfl | hx
    · exact Nat.lt_succ_self n
    · exact Nat.lt_succ_of_lt (h.allocated x hx)
  · intro x hx
    rcases List.mem_cons.mp hx with rfl | hx
    · refine ⟨fun hfalse => (by cases hfalse), fun hmem => ?_⟩
      exact absurd (h.written_lt n hmem) (lt_irrefl n)
    · exact h.released x hx

/-- Allocations the store does not keep. -/
theorem mono {n' : ℕ} (h : Books entries R U n w) (hn : n ≤ n') : Books entries R U n' w :=
  ⟨h.retained, h.unconfirmed, h.distinct, fun x hx => lt_of_lt_of_le (h.allocated x hx) hn,
    h.released, h.once, fun id hid => lt_of_lt_of_le (h.written_lt id hid) hn⟩

end Books

/-! ### The books of a store -/

/-- What a chunk puts into the totals. -/
def entryOf (storyId : StoryId) (entry : ChunkId × RetainedChunk) : BookEntry where
  storyId := storyId
  id := entry.1
  bytes := entry.2.state.approxBytes
  released := entry.2.state.walReleased

/-- The books of the store. -/
def book (s : KeeperChunkRetentionStore) : List BookEntry :=
  s.storyRetention.toList.flatMap fun entry => entry.2.chunks.toList.map (entryOf entry.1)

/-- The entry of a chunk, if the store tracks it. -/
def entryAt (s : KeeperChunkRetentionStore) (storyId : StoryId) (id : ChunkId) :
    Option BookEntry :=
  (s.retainedAt storyId id).map fun retained => entryOf storyId (id, retained)

/-- The books without one chunk. -/
def bookBut (s : KeeperChunkRetentionStore) (storyId : StoryId) (id : ChunkId) :
    List BookEntry :=
  s.book.filter fun x => ¬ (storyId = x.storyId ∧ id = x.id)

/-- The chunks the WAL was told about, in order. -/
def writtenIds (calls : List WalCall) : List ChunkId :=
  calls.filterMap fun
    | .chunkWritten _ id _ => some id
    | _ => none

/-- The stories the WAL was told are dropped, in order. -/
def droppedIds (calls : List WalCall) : List StoryId :=
  calls.filterMap fun
    | .storyDropped storyId => some storyId
    | _ => none

/-- The totals of the store and its calls agree with its books. -/
def Booked (s : KeeperChunkRetentionStore) : Prop :=
  Books s.book s.retainedBytes s.unconfirmedBytes s.nextChunk (writtenIds s.walCalls)

variable {s s' s'' : KeeperChunkRetentionStore} {storyId other : StoryId} {id id' : ChunkId}
  {story : StoryRetention} {x : BookEntry}

@[simp] theorem writtenIds_append (calls calls' : List WalCall) :
    writtenIds (calls ++ calls') = writtenIds calls ++ writtenIds calls' :=
  List.filterMap_append

@[simp] theorem droppedIds_append (calls calls' : List WalCall) :
    droppedIds (calls ++ calls') = droppedIds calls ++ droppedIds calls' :=
  List.filterMap_append

theorem mem_book : x ∈ s.book ↔ s.entryAt x.storyId x.id = some x := by
  unfold book entryAt retainedAt
  rw [List.mem_flatMap, Option.map_eq_some_iff]
  constructor
  · rintro ⟨⟨storyId, story⟩, hstory, hx⟩
    obtain ⟨⟨id, retained⟩, hget, rfl⟩ := List.mem_map.mp hx
    rw [Std.ExtTreeMap.mem_toList_iff_getElem?_eq_some] at hstory hget
    refine ⟨retained, ?_, rfl⟩
    exact Option.bind_eq_some_iff.mpr ⟨story, hstory, hget⟩
  · rintro ⟨retained, hat, heq⟩
    obtain ⟨story, hstory, hget⟩ := Option.bind_eq_some_iff.mp hat
    refine ⟨(x.storyId, story), ?_, List.mem_map.mpr ⟨(x.id, retained), ?_, heq⟩⟩
    · exact Std.ExtTreeMap.mem_toList_iff_getElem?_eq_some.mpr hstory
    · exact Std.ExtTreeMap.mem_toList_iff_getElem?_eq_some.mpr hget

theorem nodup_entries (storyId : StoryId) (chunks : OrdMap ChunkId RetainedChunk) :
    (chunks.toList.map (entryOf storyId)).Nodup :=
  nodup_map_toList chunks BookEntry.id fun _ => rfl

theorem nodup_book (s : KeeperChunkRetentionStore) : s.book.Nodup := by
  refine nodup_flatMap_toList BookEntry.storyId (fun _ => nodup_entries _ _) ?_
  intro entry x hx
  obtain ⟨_, -, rfl⟩ := List.mem_map.mp hx
  rfl

theorem entryAt_key (h : s.entryAt storyId id = some x) : x.storyId = storyId ∧ x.id = id := by
  obtain ⟨_, -, rfl⟩ := Option.map_eq_some_iff.mp h
  exact ⟨rfl, rfl⟩

theorem mem_bookBut :
    x ∈ s.bookBut storyId id ↔
      s.entryAt x.storyId x.id = some x ∧ ¬ (storyId = x.storyId ∧ id = x.id) := by
  unfold bookBut
  rw [List.mem_filter, mem_book, decide_eq_true_eq]

theorem nodup_bookBut (s : KeeperChunkRetentionStore) (storyId : StoryId) (id : ChunkId) :
    (s.bookBut storyId id).Nodup :=
  (nodup_book s).filter _

/-- The entry of a tracked chunk, and the rest of the books. -/
theorem book_perm_cons (h : s.entryAt storyId id = some x) :
    s.book.Perm (x :: s.bookBut storyId id) := by
  obtain ⟨rfl, rfl⟩ := entryAt_key h
  have hnew : x ∉ s.bookBut x.storyId x.id := fun hmem => (mem_bookBut.mp hmem).2 ⟨rfl, rfl⟩
  refine (List.perm_ext_iff_of_nodup (nodup_book s)
    (List.nodup_cons.mpr ⟨hnew, nodup_bookBut ..⟩)).mpr fun y => ?_
  rw [mem_book, List.mem_cons, mem_bookBut]
  constructor
  · intro hy
    by_cases hkey : x.storyId = y.storyId ∧ x.id = y.id
    · rw [← hkey.1, ← hkey.2, h, Option.some.injEq] at hy
      exact Or.inl hy.symm
    · exact Or.inr ⟨hy, hkey⟩
  · rintro (rfl | ⟨hy, -⟩)
    · exact h
    · exact hy

/-- The books do not hold a chunk that is not tracked. -/
theorem book_perm_bookBut (h : s.entryAt storyId id = none) :
    s.book.Perm (s.bookBut storyId id) := by
  refine (List.perm_ext_iff_of_nodup (nodup_book s) (nodup_bookBut ..)).mpr fun y => ?_
  rw [mem_book, mem_bookBut]
  refine ⟨fun hy => ⟨hy, ?_⟩, And.left⟩
  rintro ⟨rfl, rfl⟩
  rw [h] at hy
  cases hy

/-- The two stores agree in every chunk but one. -/
theorem bookBut_perm
    (h : ∀ other id', ¬ (storyId = other ∧ id = id') → s'.entryAt other id' = s.entryAt other id') :
    (s.bookBut storyId id).Perm (s'.bookBut storyId id) := by
  refine (List.perm_ext_iff_of_nodup (nodup_bookBut ..) (nodup_bookBut ..)).mpr ?_
  intro y
  rw [mem_bookBut, mem_bookBut]
  refine and_congr_left fun hkey => ?_
  rw [h y.storyId y.id hkey]

/-- The same entries, the same totals and the same calls. -/
theorem Booked.of_entryAt_eq (h : s.Booked)
    (hentry : ∀ storyId id, s'.entryAt storyId id = s.entryAt storyId id)
    (hR : s'.retainedBytes = s.retainedBytes) (hU : s'.unconfirmedBytes = s.unconfirmedBytes)
    (hn : s.nextChunk ≤ s'.nextChunk) (hw : writtenIds s'.walCalls = writtenIds s.walCalls) :
    s'.Booked := by
  have hperm : s.book.Perm s'.book := by
    refine (List.perm_ext_iff_of_nodup (nodup_book s) (nodup_book s')).mpr fun y => ?_
    rw [mem_book, mem_book, hentry]
  unfold Booked
  rw [hR, hU, hw]
  exact (Books.perm h hperm).mono hn

/-! ### The entries of a sweep -/

/-- The two states agree in the marks that `confirmedWritten` reads. -/
structure SameDelivery (state state' : ChunkState) : Prop where
  shipped : state'.shipped = state.shipped
  receiptInstance : state'.receiptInstance = state.receiptInstance
  receipt : state'.receipt = state.receipt

theorem SameDelivery.refl (state : ChunkState) : SameDelivery state state := ⟨rfl, rfl, rfl⟩

theorem SameDelivery.trans {a b c : ChunkState} (h : SameDelivery a b) (h' : SameDelivery b c) :
    SameDelivery a c :=
  ⟨h'.shipped.trans h.shipped, h'.receiptInstance.trans h.receiptInstance,
    h'.receipt.trans h.receipt⟩

theorem SameMarks.delivery {a b : ChunkState} (h : SameMarks a b) : SameDelivery a b :=
  ⟨h.shipped, h.receiptInstance, h.receipt⟩

theorem confirmedWritten_congr {story' : StoryRetention} {chunk : StoryChunk}
    {state state' : ChunkState} (hview : SameView story story')
    (hdelivery : SameDelivery state state') :
    confirmedWritten story' chunk state' = confirmedWritten story chunk state := by
  unfold confirmedWritten receiptSettled
  rw [hview.knownW, hview.reportInstance, hview.highestReceipt, hview.pendingReceipts,
    hdelivery.shipped, hdelivery.receiptInstance, hdelivery.receipt]

/-- What a sweep does with the books, the calls and the chunks. -/
structure Settled (s s' : KeeperChunkRetentionStore) : Prop where
  booked : s'.Booked
  calls : ∃ new, s'.walCalls = s.walCalls ++ new ∧ droppedIds new = []
  views : KeepsViews s s'
  kept : ∀ storyId id retained', s'.retainedAt storyId id = some retained' →
    ∃ retained, s.retainedAt storyId id = some retained ∧ retained'.chunk = retained.chunk ∧
      SameDelivery retained.state retained'.state ∧
      (retained.state.walReleased = true → retained'.state.walReleased = true)
  freed : ∀ storyId id, (s.retainedAt storyId id).isSome = true →
    s'.retainedAt storyId id = none → id ∈ writtenIds s'.walCalls
  told : ∀ id ∈ writtenIds s'.walCalls, id ∈ writtenIds s.walCalls ∨
    ∃ storyId retained, s.retainedAt storyId id = some retained ∧
      confirmedWritten (s.storyOf storyId) retained.chunk retained.state = true

theorem Settled.refl (h : s.Booked) : Settled s s where
  booked := h
  calls := ⟨[], (List.append_nil _).symm, rfl⟩
  views := KeepsViews.refl s
  kept := fun _ _ retained hat => ⟨retained, hat, rfl, SameDelivery.refl _, id⟩
  freed := fun storyId id hsome hnone => by rw [hnone] at hsome; cases hsome
  told := fun _ hid => Or.inl hid

theorem Settled.trans (h : Settled s s') (h' : Settled s' s'') : Settled s s'' := by
  obtain ⟨new, hcalls, hnew⟩ := h.calls
  obtain ⟨new', hcalls', hnew'⟩ := h'.calls
  refine ⟨h'.booked, ⟨new ++ new', ?_, ?_⟩, h.views.trans h'.views, ?_, ?_, ?_⟩
  · rw [hcalls', hcalls, List.append_assoc]
  · rw [droppedIds_append, hnew, hnew', List.append_nil]
  · intro storyId id r'' hat''
    obtain ⟨r', hat', hchunk', hdelivery', hreleased'⟩ := h'.kept storyId id r'' hat''
    obtain ⟨r, hat, hchunk, hdelivery, hreleased⟩ := h.kept storyId id r' hat'
    exact ⟨r, hat, hchunk'.trans hchunk, hdelivery.trans hdelivery',
      fun hr => hreleased' (hreleased hr)⟩
  · intro storyId id hsome hnone
    cases hat' : s'.retainedAt storyId id with
    | none =>
      rw [hcalls', writtenIds_append]
      exact List.mem_append_left _ (h.freed storyId id hsome hat')
    | some r' => exact h'.freed storyId id (by rw [hat']; rfl) hnone
  · intro id hid
    rcases h'.told id hid with hid | ⟨storyId, r', hat', hconfirmed⟩
    · exact h.told id hid
    · obtain ⟨r, hat, hchunk, hdelivery, -⟩ := h.kept storyId id r' hat'
      refine Or.inr ⟨storyId, r, hat, ?_⟩
      rw [← confirmedWritten_congr (h.views storyId) hdelivery, ← hchunk]
      exact hconfirmed

/-- `s'` tracks the chunks of `s`, with the same entries in the books. -/
structure KeepsBooks (s s' : KeeperChunkRetentionStore) : Prop where
  retainedBytes : s'.retainedBytes = s.retainedBytes
  unconfirmedBytes : s'.unconfirmedBytes = s.unconfirmedBytes
  nextChunk : s.nextChunk ≤ s'.nextChunk
  calls : ∃ new, s'.walCalls = s.walCalls ++ new ∧ writtenIds new = [] ∧
    droppedIds new = []
  views : KeepsViews s s'
  untracked : ∀ storyId id, s.retainedAt storyId id = none → s'.retainedAt storyId id = none
  tracked : ∀ storyId id retained, s.retainedAt storyId id = some retained →
    ∃ state, s'.retainedAt storyId id = some ⟨retained.chunk, state⟩ ∧
      SameDelivery retained.state state ∧ state.approxBytes = retained.state.approxBytes ∧
      state.walReleased = retained.state.walReleased

theorem entryAt_of_tracked
    (huntracked : s.retainedAt storyId id = none → s'.retainedAt storyId id = none)
    (htracked : ∀ retained, s.retainedAt storyId id = some retained →
      ∃ state, s'.retainedAt storyId id = some ⟨retained.chunk, state⟩ ∧
        state.approxBytes = retained.state.approxBytes ∧
        state.walReleased = retained.state.walReleased) :
    s'.entryAt storyId id = s.entryAt storyId id := by
  unfold entryAt
  cases hat : s.retainedAt storyId id with
  | none => rw [huntracked hat]
  | some retained =>
    obtain ⟨state, hat', hbytes, hreleased⟩ := htracked retained hat
    rw [hat', Option.map_some, Option.map_some, Option.some.injEq]
    unfold entryOf
    rw [hbytes, hreleased]

theorem KeepsBooks.settled (h : KeepsBooks s s') (hbooked : s.Booked) : Settled s s' := by
  obtain ⟨new, hcalls, hnew, hdropped⟩ := h.calls
  have hwritten : writtenIds s'.walCalls = writtenIds s.walCalls := by
    rw [hcalls, writtenIds_append, hnew, List.append_nil]
  have hentry : ∀ storyId id, s'.entryAt storyId id = s.entryAt storyId id := by
    intro storyId id
    refine entryAt_of_tracked (h.untracked storyId id) fun retained hat => ?_
    obtain ⟨state, hat', -, hbytes, hreleased⟩ := h.tracked storyId id retained hat
    exact ⟨state, hat', hbytes, hreleased⟩
  refine ⟨hbooked.of_entryAt_eq hentry h.retainedBytes h.unconfirmedBytes h.nextChunk hwritten,
    ⟨new, hcalls, hdropped⟩, h.views, ?_, ?_, ?_⟩
  · intro storyId id retained' hat'
    cases hat : s.retainedAt storyId id with
    | none =>
      rw [h.untracked storyId id hat] at hat'
      cases hat'
    | some retained =>
      obtain ⟨state, heq, hdelivery, -, hreleased⟩ := h.tracked storyId id retained hat
      rw [hat', Option.some.injEq] at heq
      subst heq
      exact ⟨retained, rfl, rfl, hdelivery, fun hr => hreleased.trans hr⟩
  · intro storyId id hsome hnone
    obtain ⟨retained, hat⟩ := Option.isSome_iff_exists.mp hsome
    obtain ⟨state, hat', -⟩ := h.tracked storyId id retained hat
    rw [hnone] at hat'
    cases hat'
  · intro id hid
    rw [hwritten] at hid
    exact Or.inl hid

theorem Remarks.keepsBooks (h : Remarks s s') : KeepsBooks s s' := by
  have hframe := h.frame
  refine ⟨by rw [hframe], by rw [hframe], by rw [hframe], ⟨[], ?_, rfl, rfl⟩, h.views,
    h.untracked, ?_⟩
  · rw [hframe, List.append_nil]
  · intro storyId id retained hat
    obtain ⟨state, hat', hmarks⟩ := h.tracked storyId id retained hat
    exact ⟨state, hat', hmarks.delivery, hmarks.approxBytes, hmarks.walReleased⟩

/-- What leaves the records and the totals alone. -/
theorem keepsBooks_of_storyRetention_eq {new : List WalCall}
    (h : s'.storyRetention = s.storyRetention) (hR : s'.retainedBytes = s.retainedBytes)
    (hU : s'.unconfirmedBytes = s.unconfirmedBytes) (hn : s.nextChunk ≤ s'.nextChunk)
    (hcalls : s'.walCalls = s.walCalls ++ new) (hnew : writtenIds new = [])
    (hdropped : droppedIds new = []) : KeepsBooks s s' := by
  refine ⟨hR, hU, hn, ⟨new, hcalls, hnew, hdropped⟩, KeepsViews.of_storyRetention_eq h, ?_, ?_⟩
  · intro storyId id hat
    rw [retainedAt_congr h, hat]
  · intro storyId id retained hat
    rw [retainedAt_congr h]
    exact ⟨retained.state, hat, SameDelivery.refl _, rfl, rfl⟩

theorem keepsBooks_deleteChunk (s : KeeperChunkRetentionStore) (id : ChunkId) :
    KeepsBooks s (s.deleteChunk id) :=
  keepsBooks_of_storyRetention_eq rfl rfl rfl le_rfl (List.append_nil s.walCalls).symm rfl
    rfl

theorem keepsBooks_stash (s : KeeperChunkRetentionStore) (chunks : List (ChunkId × StoryChunk)) :
    KeepsBooks s (s.stash chunks) :=
  keepsBooks_of_storyRetention_eq rfl rfl rfl le_rfl (List.append_nil s.walCalls).symm rfl
    rfl

theorem keepsBooks_clearDroppedStory (s : KeeperChunkRetentionStore) (storyId : StoryId) :
    KeepsBooks s (s.clearDroppedStory storyId) :=
  keepsBooks_of_storyRetention_eq rfl rfl rfl le_rfl (List.append_nil s.walCalls).symm rfl
    rfl

/-- Setting marks that the books do not hold. -/
theorem keepsBooks_markPicked (p : StoryRetention → RetainedChunk → Bool)
    {f : ChunkState → ChunkState} (hdelivery : ∀ state, SameDelivery state (f state))
    (hbytes : ∀ state, (f state).approxBytes = state.approxBytes)
    (hreleased : ∀ state, (f state).walReleased = state.walReleased) :
    KeepsBooks s (s.markPicked p f) := by
  refine ⟨rfl, rfl, le_rfl, ⟨[], (List.append_nil _).symm, rfl, rfl⟩,
    keepsViews_markPicked s p f, ?_, ?_⟩
  · intro storyId id hat
    rw [retainedAt_markPicked, hat, Option.map_none]
  · intro storyId id retained hat
    rw [retainedAt_markPicked, hat, Option.map_some]
    cases p (s.storyOf storyId) retained with
    | true => exact ⟨f retained.state, rfl, hdelivery _, hbytes _, hreleased _⟩
    | false => exact ⟨retained.state, rfl, SameDelivery.refl _, rfl, rfl⟩

theorem walCalls_tellWritten (s : KeeperChunkRetentionStore) (story : StoryRetention)
    (id : ChunkId) (chunk : StoryChunk) (state : ChunkState) :
    (s.tellWritten story id chunk state).walCalls = s.walCalls ∨
      ((s.tellWritten story id chunk state).walCalls =
          s.walCalls ++ [.chunkWritten chunk.storyId id chunk] ∧
        confirmedWritten story chunk state = true) := by
  unfold tellWritten
  split
  · next h => exact Or.inr ⟨rfl, (Bool.and_eq_true_iff.mp h).2⟩
  · exact Or.inl rfl

/-- `tellWritten` makes the entry that the chunk's mark asks for. -/
theorem books_tellWritten {rest : List BookEntry} {chunk : StoryChunk} {state : ChunkState}
    {n : ℕ} (story : StoryRetention)
    (h : Books (entryOf storyId (id, ⟨chunk, state⟩) :: rest) s.retainedBytes s.unconfirmedBytes n
      (writtenIds s.walCalls)) :
    Books (entryOf storyId (id, ⟨chunk, released story chunk state⟩) :: rest)
      (s.tellWritten story id chunk state).retainedBytes
      (s.tellWritten story id chunk state).unconfirmedBytes n
      (writtenIds (s.tellWritten story id chunk state).walCalls) := by
  unfold tellWritten
  by_cases htell : (!state.walReleased && confirmedWritten story chunk state) = true
  · rw [if_pos htell]
    simp only [Bool.and_eq_true, Bool.not_eq_true'] at htell
    have hentry : entryOf storyId (id, ⟨chunk, state⟩) =
        ⟨storyId, id, state.approxBytes, false⟩ := by
      unfold entryOf
      rw [htell.1]
    have hentry' : entryOf storyId (id, ⟨chunk, released story chunk state⟩) =
        ⟨storyId, id, state.approxBytes, true⟩ := by
      unfold entryOf released
      rw [htell.2, Bool.or_true]
    rw [hentry] at h
    rw [hentry', writtenIds_append]
    exact h.tell
  · rw [if_neg htell]
    have hentry : entryOf storyId (id, ⟨chunk, released story chunk state⟩) =
        entryOf storyId (id, ⟨chunk, state⟩) := by
      unfold entryOf released
      cases hr : state.walReleased with
      | true => rfl
      | false =>
        rw [hr] at htell
        simpa using htell
    rw [hentry]
    exact h

/-- The books open at a tracked chunk, after the WAL is told about it. -/
theorem books_open {chunk : StoryChunk} {state : ChunkState} (h : s.Booked)
    (hstory : s.storyRetention[storyId]? = some story)
    (hget : story.chunks[id]? = some ⟨chunk, state⟩) (now : ℕ) :
    Books (entryOf storyId (id, ⟨chunk, released story chunk (sighted story state now)⟩) ::
        s.bookBut storyId id)
      (s.tellWritten story id chunk (sighted story state now)).retainedBytes
      (s.tellWritten story id chunk (sighted story state now)).unconfirmedBytes s.nextChunk
      (writtenIds (s.tellWritten story id chunk (sighted story state now)).walCalls) := by
  have hmarks := sameMarks_sighted story state now
  refine books_tellWritten story (Books.perm h (book_perm_cons ?_))
  rw [entryAt, retainedAt_of_getElem? hstory, hget, Option.map_some, Option.some.injEq]
  unfold entryOf
  rw [hmarks.approxBytes, hmarks.walReleased]

/-- A chunk that is kept or freed, after the entry of its mark. -/
theorem booked_maybeFreeChunk (h : s.Booked) (storyId : StoryId) (id : ChunkId) (now : ℕ) :
    (s.maybeFreeChunk storyId id now).Booked := by
  rcases maybeFreeChunk_inv s storyId id now with
    ⟨-, heq⟩ | ⟨story, chunk, state, state', hstory, hget, hstate', hcases⟩
  · rw [heq]
    exact h
  have hafter := fun other id' =>
    @retainedAt_maybeFreeChunk s storyId other id id' now story ⟨chunk, state⟩ hstory hget
  have hrest : (s.bookBut storyId id).Perm
      ((s.maybeFreeChunk storyId id now).bookBut storyId id) := by
    refine bookBut_perm fun other id' hne => ?_
    rw [entryAt, hafter other id', if_neg hne, entryAt]
  have htold := (books_open h hstory hget now).perm (hrest.cons _)
  rw [← hstate'] at htold
  have hself := hafter storyId id
  rw [if_pos ⟨rfl, rfl⟩, ← hstate'] at hself
  unfold Booked
  rw [(maybeFreeChunk_frame s storyId id now).1]
  rcases hcases with ⟨hfree, hreleased, heq, -⟩ | ⟨hkeep, heq, -⟩
  · have hgone : (s.maybeFreeChunk storyId id now).book.Perm
        ((s.maybeFreeChunk storyId id now).bookBut storyId id) := by
      refine book_perm_bookBut ?_
      rw [entryAt, hself]
      exact congrArg _ (if_pos hfree)
    have hforget := htold.forget.perm hgone.symm
    rw [show (entryOf storyId (id, ⟨chunk, state'⟩)).released = true from hreleased,
      if_pos rfl] at hforget
    rw [heq] at hforget ⊢
    exact hforget
  · have hkept : (s.maybeFreeChunk storyId id now).book.Perm
        (entryOf storyId (id, ⟨chunk, state'⟩) ::
          (s.maybeFreeChunk storyId id now).bookBut storyId id) := by
      refine book_perm_cons ?_
      rw [entryAt, hself]
      dsimp only
      rw [if_neg (by rw [hkeep]; exact Bool.false_ne_true)]
      rfl
    have hstays := htold.perm hkept.symm
    rw [heq] at hstays ⊢
    exact hstays

theorem settled_maybeFreeChunk (h : s.Booked) (storyId : StoryId) (id : ChunkId) (now : ℕ) :
    Settled s (s.maybeFreeChunk storyId id now) := by
  have hbooked := booked_maybeFreeChunk h storyId id now
  rcases maybeFreeChunk_inv s storyId id now with
    ⟨-, heq⟩ | ⟨story, chunk, state, state', hstory, hget, hstate', hcases⟩
  · rw [heq]
    exact Settled.refl h
  have hat : s.retainedAt storyId id = some ⟨chunk, state⟩ := by
    rw [retainedAt_of_getElem? hstory, hget]
  have hafter := fun other id' =>
    @retainedAt_maybeFreeChunk s storyId other id id' now story ⟨chunk, state⟩ hstory hget
  have hcalls : (s.maybeFreeChunk storyId id now).walCalls =
      (s.tellWritten story id chunk (sighted story state now)).walCalls := by
    rcases hcases with ⟨-, -, heq, -⟩ | ⟨-, heq, -⟩ <;> rw [heq] <;> rfl
  have htell := walCalls_tellWritten s story id chunk (sighted story state now)
  rw [← hcalls] at htell
  refine ⟨hbooked, ?_, keepsViews_maybeFreeChunk s storyId id now, ?_, ?_, ?_⟩
  · rcases htell with hsame | ⟨hnew, -⟩
    · exact ⟨[], by rw [hsame, List.append_nil], rfl⟩
    · exact ⟨_, hnew, rfl⟩
  · intro other id' retained' hat'
    rw [hafter] at hat'
    split at hat'
    · next hif =>
      obtain ⟨rfl, rfl⟩ := hif
      refine ⟨_, hat, ?_⟩
      dsimp only at hat'
      split at hat'
      · cases hat'
      · rw [Option.some.injEq] at hat'
        subst hat'
        have hmarks := sameMarks_sighted story state now
        refine ⟨rfl, ⟨hmarks.shipped, hmarks.receiptInstance, hmarks.receipt⟩, fun hr => ?_⟩
        change (_ || _) = true
        rw [hmarks.walReleased, hr, Bool.true_or]
    · exact ⟨retained', hat', rfl, SameDelivery.refl _, fun hr => hr⟩
  · intro other id' hsome hnone
    rw [hafter] at hnone
    split at hnone
    · next hif =>
      obtain ⟨rfl, rfl⟩ := hif
      have hreleased : state'.walReleased = true := by
        rcases hcases with ⟨-, hreleased, -⟩ | ⟨hkeep, -⟩
        · exact hreleased
        · rw [hstate'] at hkeep
          dsimp only at hnone
          rw [hkeep] at hnone
          cases hnone
      have htold := (books_open h hstory hget now).released _ List.mem_cons_self
      rw [← hstate', ← hcalls] at htold
      exact htold.mp hreleased
    · rw [hnone] at hsome
      cases hsome
  · intro id' hid'
    rcases htell with hsame | ⟨hnew, hconfirmed⟩
    · rw [hsame] at hid'
      exact Or.inl hid'
    · rw [hnew, writtenIds_append, List.mem_append] at hid'
      refine hid'.imp_right fun hmem => ?_
      have heq : id' = id := by simpa [writtenIds] using hmem
      subst heq
      refine ⟨storyId, _, hat, ?_⟩
      rw [storyOf_of_getElem? hstory, ← confirmedWritten_sighted story chunk state now]
      exact hconfirmed

/-- **A sweep keeps the books.** -/
theorem Sweeps.settled (h : Sweeps s s') (hbooked : s.Booked) : Settled s s' := by
  refine Sweeps.induction (R := fun s s' => s.Booked → Settled s s') ?_ ?_ ?_ ?_ h hbooked
  · exact fun _ hb => Settled.refl hb
  · exact fun _ _ _ h h' hb => (h hb).trans (h' (h hb).booked)
  · exact fun _ _ hr hb => hr.keepsBooks.settled hb
  · exact fun _ storyId id now hb => settled_maybeFreeChunk hb storyId id now

/-! ### The WAL is told at the first call -/

/-- Every tracked chunk that is confirmed written is marked, those that `p` names
apart. -/
def ToldBut (p : StoryId → ChunkId → Prop) (s : KeeperChunkRetentionStore) : Prop :=
  ∀ storyId id retained, s.retainedAt storyId id = some retained →
    confirmedWritten (s.storyOf storyId) retained.chunk retained.state = true →
    retained.state.walReleased = true ∨ p storyId id

/-- Every tracked chunk that is confirmed written is marked. -/
def Told (s : KeeperChunkRetentionStore) : Prop := s.ToldBut fun _ _ => False

variable {p : StoryId → ChunkId → Prop}

theorem ToldBut.of_settled (h : s.ToldBut p) (hs : Settled s s') : s'.ToldBut p := by
  intro storyId id retained' hat' hconfirmed
  obtain ⟨retained, hat, hchunk, hdelivery, hreleased⟩ := hs.kept storyId id retained' hat'
  rw [hchunk, confirmedWritten_congr (hs.views storyId) hdelivery] at hconfirmed
  exact (h storyId id retained hat hconfirmed).imp_left hreleased

/-- `maybeFreeChunk` leaves its chunk marked if it is confirmed written. -/
theorem ToldBut.maybeFreeChunk (h : s.ToldBut p) (hbooked : s.Booked) (storyId : StoryId)
    (id : ChunkId) (now : ℕ) :
    (s.maybeFreeChunk storyId id now).ToldBut
      fun other id' => p other id' ∧ ¬ (storyId = other ∧ id = id') := by
  have hs := settled_maybeFreeChunk hbooked storyId id now
  intro other id' retained' hat' hconfirmed
  by_cases hkey : storyId = other ∧ id = id'
  · obtain ⟨rfl, rfl⟩ := hkey
    refine Or.inl ?_
    obtain ⟨retained, hat, hchunk, hdelivery, -⟩ := hs.kept storyId id retained' hat'
    rw [hchunk, confirmedWritten_congr (hs.views storyId) hdelivery] at hconfirmed
    obtain ⟨story, hstory, hget⟩ := Option.bind_eq_some_iff.mp hat
    rw [storyOf_of_getElem? hstory] at hconfirmed
    rw [retainedAt_maybeFreeChunk now hstory hget, if_pos ⟨rfl, rfl⟩] at hat'
    dsimp only at hat'
    split at hat'
    · cases hat'
    · rw [Option.some.injEq] at hat'
      subst hat'
      change (_ || _) = true
      rw [confirmedWritten_sighted, hconfirmed, Bool.or_true]
  · exact (h.of_settled hs other id' retained' hat' hconfirmed).imp_right fun hp => ⟨hp, hkey⟩

theorem told_foldl_maybeFreeChunk (ids : List ChunkId) (storyId : StoryId) (now : ℕ)
    (hbooked : s.Booked) (h : s.ToldBut fun other id => other = storyId ∧ id ∈ ids) :
    (ids.foldl (fun s id => s.maybeFreeChunk storyId id now) s).Told := by
  induction ids generalizing s with
  | nil =>
    intro other id retained hat hconfirmed
    exact (h other id retained hat hconfirmed).imp_right fun hp => by cases hp.2
  | cons id ids ih =>
    refine ih (booked_maybeFreeChunk hbooked storyId id now) ?_
    intro other id' retained hat hconfirmed
    refine (h.maybeFreeChunk hbooked storyId id now other id' retained hat hconfirmed).imp_right ?_
    rintro ⟨⟨rfl, hmem⟩, hkey⟩
    refine ⟨rfl, (List.mem_cons.mp hmem).resolve_left fun heq => hkey ⟨rfl, heq.symm⟩⟩

/-- A round over all chunks of a story leaves them marked. -/
theorem told_maybeFreeChunks (storyId : StoryId) (now : ℕ) (hbooked : s.Booked)
    (h : s.ToldBut fun other _ => other = storyId) :
    (s.maybeFreeChunks storyId now).Told := by
  refine told_foldl_maybeFreeChunk _ storyId now hbooked ?_
  intro other id retained hat hconfirmed
  refine (h other id retained hat hconfirmed).imp_right ?_
  rintro rfl
  refine ⟨rfl, ?_⟩
  rw [retainedAt_eq_storyOf] at hat
  rw [Std.ExtTreeMap.mem_keys, Std.ExtTreeMap.mem_iff_isSome_getElem?, hat]
  rfl

/-! ### Sealing, delivering, reporting and dropping -/

theorem Booked.retainedAt_nextChunk (h : s.Booked) (storyId : StoryId) :
    s.retainedAt storyId s.nextChunk = none := by
  cases hat : s.retainedAt storyId s.nextChunk with
  | none => rfl
  | some retained =>
    have hmem : entryOf storyId (s.nextChunk, retained) ∈ s.book := by
      rw [mem_book, entryAt]
      exact congrArg _ hat
    exact absurd (h.allocated _ hmem) (lt_irrefl _)

/-- Ids are not shared between stories. -/
theorem Booked.story_unique (h : s.Booked) {retained retained' : RetainedChunk}
    (hat : s.retainedAt storyId id = some retained)
    (hat' : s.retainedAt other id = some retained') : storyId = other := by
  have hmem : entryOf storyId (id, retained) ∈ s.book := by
    rw [mem_book, entryAt]
    exact congrArg _ hat
  have hmem' : entryOf other (id, retained') ∈ s.book := by
    rw [mem_book, entryAt]
    exact congrArg _ hat'
  exact congrArg BookEntry.storyId (List.inj_on_of_nodup_map h.distinct hmem hmem' rfl)

theorem Booked.released_iff (h : s.Booked) {retained : RetainedChunk}
    (hat : s.retainedAt storyId id = some retained) :
    retained.state.walReleased = true ↔ id ∈ writtenIds s.walCalls := by
  refine h.released (entryOf storyId (id, retained)) ?_
  rw [mem_book, entryAt]
  exact congrArg _ hat

theorem booked_adopt (h : s.Booked) (storyId : StoryId) (chunk : StoryChunk) (now : ℕ) :
    (s.adopt storyId chunk now).Booked := by
  have hentry : (s.adopt storyId chunk now).entryAt storyId s.nextChunk =
      some ⟨storyId, s.nextChunk, approxChunkBytes chunk, false⟩ := by
    rw [entryAt, retainedAt_adopt, if_pos ⟨rfl, rfl⟩]
    rfl
  have hnone : s.entryAt storyId s.nextChunk = none := by
    rw [entryAt, h.retainedAt_nextChunk, Option.map_none]
  have hrest : (s.bookBut storyId s.nextChunk).Perm
      ((s.adopt storyId chunk now).bookBut storyId s.nextChunk) := by
    refine bookBut_perm fun other id' hne => ?_
    rw [entryAt, retainedAt_adopt, if_neg hne, entryAt]
  have htake := (Books.perm h (book_perm_bookBut hnone)).take storyId (approxChunkBytes chunk)
  exact (htake.perm (hrest.cons _)).perm (book_perm_cons hentry).symm

theorem told_adopt (h : s.Told) (storyId : StoryId) (chunk : StoryChunk) (now : ℕ) :
    (s.adopt storyId chunk now).Told := by
  have hviews : KeepsViews s (s.adopt storyId chunk now) :=
    KeepsViews.of_insert rfl ⟨rfl, rfl, rfl, rfl⟩
  intro other id retained hat hconfirmed
  rw [retainedAt_adopt] at hat
  split at hat
  · -- the sealed chunk is not shipped yet
    rw [Option.some.injEq] at hat
    subst hat
    cases hconfirmed
  · rw [confirmedWritten_congr (hviews other) (SameDelivery.refl _)] at hconfirmed
    exact h other id retained hat hconfirmed

theorem booked_setState (h : s.Booked) (storyId : StoryId) (id : ChunkId)
    {f : ChunkState → ChunkState} (hbytes : ∀ state, (f state).approxBytes = state.approxBytes)
    (hreleased : ∀ state, (f state).walReleased = state.walReleased) :
    (s.setState storyId id f).Booked := by
  have hframe := setState_frame s storyId id f
  refine h.of_entryAt_eq (fun other id' => entryAt_of_tracked (fun hat => ?_) fun r hat => ?_)
    (by rw [hframe]) (by rw [hframe]) (by rw [hframe]) (by rw [hframe])
  · rw [retainedAt_setState]
    split
    · next hif => rw [hif.1, hif.2, hat, Option.map_none]
    · exact hat
  · rw [retainedAt_setState]
    split
    · next hif =>
      rw [hif.1, hif.2, hat]
      exact ⟨f r.state, rfl, hbytes _, hreleased _⟩
    · exact ⟨r.state, hat, rfl, rfl⟩

theorem toldBut_setState (h : s.Told) (storyId : StoryId) (id : ChunkId)
    (f : ChunkState → ChunkState) :
    (s.setState storyId id f).ToldBut fun other id' => storyId = other ∧ id = id' := by
  intro other id' retained hat hconfirmed
  rw [retainedAt_setState] at hat
  split at hat
  · next hif => exact Or.inr hif
  · rw [confirmedWritten_congr (keepsViews_setState s storyId id f other)
      (SameDelivery.refl _)] at hconfirmed
    exact (h other id' retained hat hconfirmed).imp_right False.elim

theorem booked_reported (h : s.Booked) (storyId : StoryId) (report : StoryWatermarkReport) :
    (s.setStory storyId (reported (s.storyOf storyId) report)).Booked := by
  refine h.of_entryAt_eq (fun other id => ?_) rfl rfl le_rfl rfl
  rw [entryAt, retainedAt_reported, entryAt]

theorem toldBut_reported (h : s.Told) (storyId : StoryId) (report : StoryWatermarkReport) :
    (s.setStory storyId (reported (s.storyOf storyId) report)).ToldBut
      fun other _ => other = storyId := by
  intro other id retained hat hconfirmed
  rw [retainedAt_reported] at hat
  rw [storyOf_setStory] at hconfirmed
  split at hconfirmed
  · next ho => exact Or.inr ho.symm
  · exact (h other id retained hat hconfirmed).imp_right False.elim

theorem walCalls_dropChunk (s : KeeperChunkRetentionStore) (entry : ChunkId × RetainedChunk) :
    (s.dropChunk entry).walCalls = s.walCalls := by
  unfold dropChunk
  dsimp only
  split <;> split <;> rfl

theorem walCalls_foldl_dropChunk (l : List (ChunkId × RetainedChunk))
    (s : KeeperChunkRetentionStore) : (l.foldl dropChunk s).walCalls = s.walCalls := by
  induction l generalizing s with
  | nil => rfl
  | cons entry l ih => rw [List.foldl_cons, ih, walCalls_dropChunk]

/-- The entries of the chunks that go with their story. -/
theorem books_foldl_dropChunk {rest : List BookEntry} {n : ℕ} {w : List ChunkId}
    (l : List (ChunkId × RetainedChunk)) (s : KeeperChunkRetentionStore)
    (h : Books (l.map (entryOf storyId) ++ rest) s.retainedBytes s.unconfirmedBytes n w) :
    Books rest (l.foldl dropChunk s).retainedBytes (l.foldl dropChunk s).unconfirmedBytes n w := by
  induction l generalizing s with
  | nil => exact h
  | cons entry l ih =>
    refine ih (s.dropChunk entry) ?_
    have hforget := Books.forget h
    unfold dropChunk
    dsimp only
    cases hr : entry.2.state.walReleased with
    | true =>
      rw [show (entryOf storyId entry).released = true from hr] at hforget
      split <;> exact hforget
    | false =>
      rw [show (entryOf storyId entry).released = false from hr] at hforget
      split <;> exact hforget

theorem walCalls_dropStory (s : KeeperChunkRetentionStore) (storyId : StoryId) (now : ℕ) :
    (s.dropStory storyId now).walCalls = s.walCalls ++ [.storyDropped storyId] := by
  unfold dropStory
  dsimp only
  split
  · rfl
  · exact walCalls_foldl_dropChunk _ _

theorem mem_entries (hstory : s.storyRetention[storyId]? = some story) :
    x ∈ story.chunks.toList.map (entryOf storyId) ↔
      s.entryAt x.storyId x.id = some x ∧ storyId = x.storyId := by
  constructor
  · intro hx
    obtain ⟨⟨id, retained⟩, hmem, rfl⟩ := List.mem_map.mp hx
    rw [Std.ExtTreeMap.mem_toList_iff_getElem?_eq_some] at hmem
    refine ⟨?_, rfl⟩
    rw [entryAt]
    change (s.retainedAt storyId id).map _ = _
    rw [retainedAt_of_getElem? hstory, hmem]
    rfl
  · rintro ⟨hentry, rfl⟩
    rw [entryAt, retainedAt_of_getElem? hstory] at hentry
    obtain ⟨retained, hget, heq⟩ := Option.map_eq_some_iff.mp hentry
    refine List.mem_map.mpr ⟨(x.id, retained), ?_, heq⟩
    exact Std.ExtTreeMap.mem_toList_iff_getElem?_eq_some.mpr hget

/-- The books of a story that goes, and the books that stay. -/
theorem book_perm_dropStory (now : ℕ) (hstory : s.storyRetention[storyId]? = some story) :
    s.book.Perm
      (story.chunks.toList.map (entryOf storyId) ++ (s.dropStory storyId now).book) := by
  have hstays : ∀ y : BookEntry, y ∈ (s.dropStory storyId now).book ↔
      s.entryAt y.storyId y.id = some y ∧ ¬ storyId = y.storyId := by
    intro y
    rw [mem_book, entryAt, retainedAt_dropStory, entryAt]
    by_cases hy : storyId = y.storyId
    · simp [hy]
    · simp [hy]
  have hdisjoint : (story.chunks.toList.map (entryOf storyId)).Disjoint
      (s.dropStory storyId now).book := by
    intro y hy hy'
    exact ((hstays y).mp hy').2 ((mem_entries hstory).mp hy).2
  refine (List.perm_ext_iff_of_nodup (nodup_book s)
    ((nodup_entries _ _).append (nodup_book _) hdisjoint)).mpr fun y => ?_
  rw [List.mem_append, mem_entries hstory, hstays, mem_book, ← and_or_left]
  simp [em]

theorem booked_dropStory (h : s.Booked) (storyId : StoryId) (now : ℕ) :
    (s.dropStory storyId now).Booked := by
  have hwritten : writtenIds (s.dropStory storyId now).walCalls = writtenIds s.walCalls := by
    rw [walCalls_dropStory, writtenIds_append]
    exact List.append_nil _
  have hnext : (s.dropStory storyId now).nextChunk = s.nextChunk :=
    (shrinks_dropStory now).nextChunk
  cases hstory : s.storyRetention[storyId]? with
  | none =>
    have hsame : s.dropStory storyId now =
        { s with
          droppedStories := s.droppedStories.insert storyId now
          walCalls := s.walCalls ++ [.storyDropped storyId] } := by
      unfold dropStory
      simp only [hstory]
    refine h.of_entryAt_eq (fun other id => ?_) (by rw [hsame]) (by rw [hsame]) hnext.ge hwritten
    rw [entryAt, hsame]
    rfl
  | some story =>
    have hbooks := Books.perm h (book_perm_dropStory now hstory)
    have hdrop := books_foldl_dropChunk story.chunks.toList
      { s with
        droppedStories := s.droppedStories.insert storyId now
        walCalls := s.walCalls ++ [.storyDropped storyId] } hbooks
    have heq : s.dropStory storyId now =
        { story.chunks.toList.foldl dropChunk
            { s with
              droppedStories := s.droppedStories.insert storyId now
              walCalls := s.walCalls ++ [.storyDropped storyId] } with
          storyRetention := (s.dropStory storyId now).storyRetention } := by
      unfold dropStory
      simp only [hstory]
    unfold Booked
    rw [hnext, hwritten, show (s.dropStory storyId now).retainedBytes = _ from
      congrArg retainedBytes heq, show (s.dropStory storyId now).unconfirmedBytes = _ from
      congrArg unconfirmedBytes heq]
    exact hdrop

theorem told_dropStory (h : s.Told) (storyId : StoryId) (now : ℕ) :
    (s.dropStory storyId now).Told := by
  intro other id retained hat hconfirmed
  rw [retainedAt_dropStory] at hat
  rw [storyOf_dropStory] at hconfirmed
  split at hat
  · cases hat
  · next ho =>
    rw [if_neg ho] at hconfirmed
    exact h other id retained hat hconfirmed

/-! ### Whole runs -/

/-- **The totals and the calls of a store**: each total is the sum over the chunks
it is about, so that no subtraction from it saturates; the WAL is told once about
a chunk, the mark says whether it was told, and it was told about every tracked
chunk that is confirmed written. -/
structure WalAccounted (s : KeeperChunkRetentionStore) : Prop where
  retainedBytes : s.retainedBytes = (s.book.map BookEntry.bytes).sum
  unconfirmedBytes : s.unconfirmedBytes =
    ((s.book.filter fun x => !x.released).map BookEntry.bytes).sum
  retained_unsaturated : ∀ entries : List BookEntry, entries.Sublist s.book →
    (entries.map BookEntry.bytes).sum ≤ s.retainedBytes
  unconfirmed_unsaturated : ∀ entries : List BookEntry, entries.Sublist s.book →
    ((entries.filter fun x => !x.released).map BookEntry.bytes).sum ≤ s.unconfirmedBytes
  once : (writtenIds s.walCalls).Nodup
  released : ∀ storyId id retained, s.retainedAt storyId id = some retained →
    (retained.state.walReleased = true ↔ id ∈ writtenIds s.walCalls)
  told : ∀ storyId id retained, s.retainedAt storyId id = some retained →
    confirmedWritten (s.storyOf storyId) retained.chunk retained.state = true →
    id ∈ writtenIds s.walCalls

/-- **What one call does to a tracked chunk.**  Unless the call destroys its story,
the WAL knows of the chunk afterwards exactly if it did before or the chunk is
confirmed written with what the call brought; a chunk that goes is one the WAL
knows of, and no story is dropped for it.  The call that destroys the story drops
all its chunks, and tells the WAL nothing but that. -/
structure StepAccounted (s : KeeperChunkRetentionStore) (x : RetentionStep)
    (s' : KeeperChunkRetentionStore) : Prop where
  told : ∀ storyId id retained, s.retainedAt storyId id = some retained →
    x.drops ≠ some storyId →
    (id ∈ writtenIds s'.walCalls ↔ id ∈ writtenIds s.walCalls ∨
      confirmedWritten (s'.storyOf storyId) retained.chunk
        (x.delivered storyId id retained.state) = true)
  freed : ∀ storyId id, (s.retainedAt storyId id).isSome = true → x.drops ≠ some storyId →
    s'.retainedAt storyId id = none →
    id ∈ writtenIds s'.walCalls ∧
      ∃ new, s'.walCalls = s.walCalls ++ new ∧ droppedIds new = []
  dropped : ∀ storyId, x.drops = some storyId →
    (∀ id, s'.retainedAt storyId id = none) ∧
      s'.walCalls = s.walCalls ++ [.storyDropped storyId]

theorem walAccounted_of_booked (h : s.Booked) (htold : s.Told) : s.WalAccounted where
  retainedBytes := h.retained
  unconfirmedBytes := h.unconfirmed
  retained_unsaturated := fun entries hsub => by
    rw [h.retained]
    exact List.Sublist.sum_le_sum (hsub.map _) fun _ _ => Nat.zero_le _
  unconfirmed_unsaturated := fun entries hsub => by
    rw [h.unconfirmed]
    exact List.Sublist.sum_le_sum ((hsub.filter _).map _) fun _ _ => Nat.zero_le _
  once := h.once
  released := fun _ _ _ hat => h.released_iff hat
  told := fun storyId id retained hat hconfirmed =>
    (h.released_iff hat).mp ((htold storyId id retained hat hconfirmed).resolve_right not_false)

/-- `s₁` is `s` with what the step brings, before the step sweeps. -/
structure Enters (x : RetentionStep) (s s₁ : KeeperChunkRetentionStore) : Prop where
  booked : s₁.Booked
  calls : s₁.walCalls = s.walCalls
  kept : ∀ storyId id retained, s.retainedAt storyId id = some retained →
    ∃ state, s₁.retainedAt storyId id = some ⟨retained.chunk, state⟩ ∧
      SameDelivery (x.delivered storyId id retained.state) state

theorem enters_refl {x : RetentionStep} (h : s.Booked)
    (hx : ∀ storyId id state, x.delivered storyId id state = state) : Enters x s s :=
  ⟨h, rfl, fun storyId id retained hat =>
    ⟨retained.state, hat, by rw [hx]; exact SameDelivery.refl _⟩⟩

/-- A step that drops no story brings something and sweeps. -/
theorem stepAccounted_of_enters {x : RetentionStep} {s₁ : KeeperChunkRetentionStore}
    (henters : Enters x s s₁) (hs : Settled s₁ s') (htold : s'.Told) (hdrops : x.drops = none) :
    StepAccounted s x s' := by
  have hfreed : ∀ storyId id, (s.retainedAt storyId id).isSome = true →
      s'.retainedAt storyId id = none → id ∈ writtenIds s'.walCalls := by
    intro storyId id hsome hnone
    obtain ⟨retained, hat⟩ := Option.isSome_iff_exists.mp hsome
    obtain ⟨state, hat₁, -⟩ := henters.kept storyId id retained hat
    exact hs.freed storyId id (by rw [hat₁]; rfl) hnone
  refine ⟨fun storyId id retained hat _ => ?_, fun storyId id hsome _ hnone => ?_,
    fun storyId hdrop => ?_⟩
  · obtain ⟨state, hat₁, hdelivery⟩ := henters.kept storyId id retained hat
    have hconfirmed : confirmedWritten (s'.storyOf storyId) retained.chunk
        (x.delivered storyId id retained.state) =
        confirmedWritten (s₁.storyOf storyId) retained.chunk state := by
      rw [confirmedWritten_congr (hs.views storyId) (SameDelivery.refl _),
        confirmedWritten_congr (SameView.refl _) hdelivery]
    rw [hconfirmed, ← henters.calls]
    constructor
    · intro hid
      refine (hs.told id hid).imp_right ?_
      rintro ⟨other, retained', hat', hc⟩
      obtain rfl := henters.booked.story_unique hat₁ hat'
      rw [hat₁, Option.some.injEq] at hat'
      subst hat'
      exact hc
    · rintro (hid | hc)
      · obtain ⟨new, hcalls, -⟩ := hs.calls
        rw [hcalls, writtenIds_append]
        exact List.mem_append_left _ hid
      · cases hat' : s'.retainedAt storyId id with
        | none => exact hfreed storyId id (by rw [hat]; rfl) hat'
        | some retained' =>
          -- still tracked, so its mark is set and the mark says that the WAL was told
          obtain ⟨r, hr, hchunk, hd, -⟩ := hs.kept storyId id retained' hat'
          rw [hat₁, Option.some.injEq] at hr
          subst hr
          rw [← confirmedWritten_congr (hs.views storyId) hd, ← hchunk] at hc
          have hmark := (htold storyId id retained' hat' hc).resolve_right not_false
          exact (hs.booked.released_iff hat').mp hmark
  · obtain ⟨new, hcalls, hnew⟩ := hs.calls
    exact ⟨hfreed storyId id hsome hnone, new, henters.calls ▸ hcalls, hnew⟩
  · rw [hdrops] at hdrop
    cases hdrop

/-- A step that brings nothing. -/
theorem accounted_of_settled {x : RetentionStep} (h : s.Booked ∧ s.Told) (hs : Settled s s')
    (hx : ∀ storyId id state, x.delivered storyId id state = state) (hdrops : x.drops = none) :
    (s'.Booked ∧ s'.Told) ∧ StepAccounted s x s' := by
  have htold : s'.Told := h.2.of_settled hs
  exact ⟨⟨hs.booked, htold⟩, stepAccounted_of_enters (enters_refl h.1 hx) hs htold hdrops⟩

theorem accounted_updateChunk {x : RetentionStep} (h : s.Booked ∧ s.Told) (storyId : StoryId)
    (id : ChunkId) {f : ChunkState → ChunkState} (now : ℕ)
    (hbytes : ∀ state, (f state).approxBytes = state.approxBytes)
    (hreleased : ∀ state, (f state).walReleased = state.walReleased)
    (hself : ∀ state, SameDelivery (x.delivered storyId id state) (f state))
    (hx : ∀ other id' state, ¬ (storyId = other ∧ id = id') → x.delivered other id' state = state)
    (hdrops : x.drops = none) :
    ((s.updateChunk storyId id f now).Booked ∧ (s.updateChunk storyId id f now).Told) ∧
      StepAccounted s x (s.updateChunk storyId id f now) := by
  have hbooked := booked_setState h.1 storyId id hbytes hreleased
  have henters : Enters x s (s.setState storyId id f) := by
    refine ⟨hbooked, by rw [setState_frame], fun other id' retained hat => ?_⟩
    rw [retainedAt_setState]
    split
    · next hif =>
      obtain ⟨rfl, rfl⟩ := hif
      exact ⟨f retained.state, by rw [hat]; rfl, hself _⟩
    · next hif => exact ⟨retained.state, hat, by rw [hx other id' _ hif]; exact SameDelivery.refl _⟩
  rcases updateChunk_cases s storyId id f now with ⟨hnone, heq⟩ | ⟨-, heq⟩
  · have hs := (keepsBooks_deleteChunk s id).settled h.1
    have htold : (s.deleteChunk id).Told := h.2.of_settled hs
    rw [heq]
    refine ⟨⟨hs.booked, htold⟩, stepAccounted_of_enters ⟨h.1, rfl, ?_⟩ hs htold hdrops⟩
    intro other id' retained hat
    refine ⟨retained.state, hat, ?_⟩
    rw [hx other id']
    · exact SameDelivery.refl _
    · rintro ⟨rfl, rfl⟩
      rw [hnone] at hat
      cases hat
  · have hs := settled_maybeFreeChunk hbooked storyId id now
    have htold : ((s.setState storyId id f).maybeFreeChunk storyId id now).Told := by
      intro other id' retained hat hconfirmed
      refine ((toldBut_setState h.2 storyId id f).maybeFreeChunk hbooked storyId id now other id'
        retained hat hconfirmed).imp_right ?_
      exact fun hp => hp.2 hp.1
    rw [heq]
    exact ⟨⟨hs.booked, htold⟩, stepAccounted_of_enters henters hs htold hdrops⟩

theorem accounted_ingestSealedChunk (h : s.Booked ∧ s.Told) (chunk : StoryChunk) (now : ℕ) :
    ((s.ingestSealedChunk chunk.storyId chunk now).Booked ∧
        (s.ingestSealedChunk chunk.storyId chunk now).Told) ∧
      StepAccounted s (.sealChunk chunk) (s.ingestSealedChunk chunk.storyId chunk now) := by
  unfold ingestSealedChunk
  split
  · refine accounted_of_settled h (KeepsBooks.settled ?_ h.1) (fun _ _ _ => rfl) rfl
    exact keepsBooks_of_storyRetention_eq rfl rfl rfl (Nat.le_succ _)
      (List.append_nil s.walCalls).symm rfl rfl
  · dsimp only
    split
    · refine accounted_of_settled h (KeepsBooks.settled ?_ h.1) (fun _ _ _ => rfl) rfl
      exact keepsBooks_of_storyRetention_eq rfl rfl rfl (Nat.le_succ _) rfl rfl rfl
    · have hpruned : (s.pruneDropped now).Booked ∧ (s.pruneDropped now).Told := h
      have hbooked := booked_adopt hpruned.1 chunk.storyId chunk now
      have htold := told_adopt hpruned.2 chunk.storyId chunk now
      have hs := (sweeps_enforceCapacity
        ((((s.pruneDropped now).adopt chunk.storyId chunk now).storyOf chunk.storyId).index.size -
          ((s.pruneDropped now).adopt chunk.storyId chunk now).tailCapacity)
        _ chunk.storyId now).settled hbooked
      have hstash := (keepsBooks_stash _ [(s.nextChunk, chunk)]).settled hs.booked
      have hafter := hs.trans hstash
      have hend := htold.of_settled hafter
      refine ⟨⟨hafter.booked, hend⟩, stepAccounted_of_enters ⟨hbooked, rfl, ?_⟩ hafter hend rfl⟩
      intro other id retained hat
      refine ⟨retained.state, ?_, SameDelivery.refl _⟩
      rw [retainedAt_adopt, if_neg]
      · exact hat
      · rintro ⟨rfl, rfl⟩
        rw [show s.retainedAt chunk.storyId (s.pruneDropped now).nextChunk = none from
          h.1.retainedAt_nextChunk chunk.storyId] at hat
        cases hat

theorem accounted_applyReport (h : s.Booked ∧ s.Told) (storyId : StoryId)
    (report : StoryWatermarkReport) (now : ℕ) :
    ((s.applyReport storyId report now).Booked ∧ (s.applyReport storyId report now).Told) ∧
      StepAccounted s (.call (.applyReport storyId report)) (s.applyReport storyId report now) := by
  by_cases hw : report.watermark = kStoryDroppedWatermark
  · have hdrops : RetentionStep.drops (.call (.applyReport storyId report)) = some storyId :=
      if_pos hw
    rw [show s.applyReport storyId report now = s.dropStory storyId now from if_pos hw]
    refine ⟨⟨booked_dropStory h.1 storyId now, told_dropStory h.2 storyId now⟩, ?_, ?_, ?_⟩
    · intro other id retained hat hne
      rw [hdrops, Ne, Option.some.injEq] at hne
      rw [storyOf_dropStory, if_neg hne, walCalls_dropStory, writtenIds_append]
      change id ∈ writtenIds s.walCalls ++ [] ↔ _
      rw [List.append_nil]
      -- a chunk of another story that is confirmed written was told about before
      refine ⟨Or.inl, fun hid => hid.elim (fun hw => hw) fun hc => ?_⟩
      have hmark := (h.2 other id retained hat hc).resolve_right not_false
      exact (h.1.released_iff hat).mp hmark
    · intro other id hsome hne hnone
      rw [hdrops, Ne, Option.some.injEq] at hne
      rw [retainedAt_dropStory, if_neg hne] at hnone
      rw [hnone] at hsome
      cases hsome
    · intro other hdrop
      rw [hdrops, Option.some.injEq] at hdrop
      subst hdrop
      refine ⟨fun id => ?_, walCalls_dropStory s storyId now⟩
      rw [retainedAt_dropStory, if_pos rfl]
  · have hbooked := booked_reported h.1 storyId report
    have hs := (sweeps_maybeFreeChunks _ storyId now).settled hbooked
    have htold := told_maybeFreeChunks storyId now hbooked (toldBut_reported h.2 storyId report)
    rw [applyReport_of_ne hw]
    refine ⟨⟨hs.booked, htold⟩, stepAccounted_of_enters ⟨hbooked, rfl, ?_⟩ hs htold (if_neg hw)⟩
    intro other id retained hat
    exact ⟨retained.state, by rw [retainedAt_reported, hat], SameDelivery.refl _⟩

/-- **Every call keeps the books**, and does with a tracked chunk what
`StepAccounted` says. -/
theorem accounted_step (h : s.Booked ∧ s.Told) (x : RetentionStep) (now : ℕ) :
    ((x.run s now).Booked ∧ (x.run s now).Told) ∧ StepAccounted s x (x.run s now) := by
  cases x with
  | sealChunk chunk => exact accounted_ingestSealedChunk h chunk now
  | discardEvent storyId event =>
    refine accounted_of_settled h (KeepsBooks.settled ?_ h.1) (fun _ _ _ => rfl) rfl
    exact keepsBooks_of_storyRetention_eq rfl rfl rfl le_rfl rfl rfl rfl
  | call c =>
    cases c with
    | markShipped storyId id grapherInstance receipt =>
      refine accounted_updateChunk h storyId id now (fun _ => rfl) (fun _ => rfl) ?_ ?_ rfl
      · intro state
        simp only [RetentionStep.delivered, and_self, if_true]
        exact ⟨rfl, rfl, rfl⟩
      · intro other id' state hne
        exact if_neg hne
    | markSendFailed storyId id =>
      exact accounted_updateChunk h storyId id now (fun _ => rfl) (fun _ => rfl)
        (fun _ => ⟨rfl, rfl, rfl⟩) (fun _ _ _ _ => rfl) rfl
    | applyReport storyId report => exact accounted_applyReport h storyId report now
    | freeDurableChunks =>
      exact accounted_of_settled h ((sweeps_freeDurableChunks s now).settled h.1)
        (fun _ _ _ => rfl) rfl
    | requeueStalled maxAge =>
      have hs := (keepsBooks_markPicked (s := s) (fun story r => stalled story r maxAge now)
        (f := fun state => { state with inQueue := true, lastActivity := now })
        (fun _ => ⟨rfl, rfl, rfl⟩) (fun _ => rfl) fun _ => rfl).settled h.1
      refine accounted_of_settled h (hs.trans ?_) (fun _ _ _ => rfl) rfl
      exact (keepsBooks_stash _ _).settled hs.booked
    | flushUnshippedChunks =>
      have hs := (keepsBooks_markPicked (s := s)
        (fun _ retained => !(retained.state.inQueue || retained.state.shipped))
        (f := fun state => { state with inQueue := true })
        (fun _ => ⟨rfl, rfl, rfl⟩) (fun _ => rfl) fun _ => rfl).settled h.1
      refine accounted_of_settled h (hs.trans ?_) (fun _ _ _ => rfl) rfl
      exact (keepsBooks_stash _ _).settled hs.booked
    | releaseStoryTail storyId =>
      exact accounted_of_settled h ((sweeps_releaseStoryTail s storyId now).settled h.1)
        (fun _ _ _ => rfl) rfl
    | clearDroppedStory storyId =>
      exact accounted_of_settled h ((keepsBooks_clearDroppedStory s storyId).settled h.1)
        (fun _ _ _ => rfl) rfl
    | fetchRange storyId =>
      exact accounted_of_settled h ((sweeps_afterFetchRange s storyId now).settled h.1)
        (fun _ _ _ => rfl) rfl

theorem booked_fresh (tailCapacity delay ttl : ℕ) :
    (fresh tailCapacity delay ttl).Booked ∧ (fresh tailCapacity delay ttl).Told := by
  have hat : ∀ storyId id, (fresh tailCapacity delay ttl).retainedAt storyId id = none := by
    intro storyId id
    simp [fresh, retainedAt]
  have hbook : (fresh tailCapacity delay ttl).book = [] := by
    refine List.eq_nil_iff_forall_not_mem.mpr fun x hx => ?_
    rw [mem_book, entryAt, hat] at hx
    cases hx
  refine ⟨?_, fun storyId id retained h => ?_⟩
  · unfold Booked
    rw [hbook]
    exact ⟨rfl, rfl, List.nodup_nil, (fun _ h => by cases h), (fun _ h => by cases h),
      List.nodup_nil, fun _ h => by cases h⟩
  · rw [hat] at h
    cases h

/-- **The store's accounts with the WAL are right in every run**: in every state
the totals are the sums over the tracked chunks and the WAL was told once about
each chunk it was told about, and every further call tells the WAL of a chunk
exactly if it is the first to see it confirmed written, frees only chunks the WAL
knows of, and drops the chunks of a story with the story. -/
theorem wal_accounted (tailCapacity delay ttl : ℕ) (steps : List (RetentionStep × ℕ)) :
    ((fresh tailCapacity delay ttl).after steps).WalAccounted ∧
      ∀ x now, StepAccounted ((fresh tailCapacity delay ttl).after steps) x
        (x.run ((fresh tailCapacity delay ttl).after steps) now) := by
  have h : ((fresh tailCapacity delay ttl).after steps).Booked ∧
      ((fresh tailCapacity delay ttl).after steps).Told := by
    refine System.run_induction (P := fun s => s.Booked ∧ s.Told) (fun s l s' hs hstep => ?_)
      (booked_fresh tailCapacity delay ttl) (run_eq_after _ steps)
    cases hstep
    exact (accounted_step hs l.1 l.2).1
  exact ⟨walAccounted_of_booked h.1 h.2, fun x now => (accounted_step h x now).2⟩

/-- A chunk that is sealed, acknowledged with no receipt and covered, while its
event is still in the tail. -/
def toldRun : List (RetentionStep × ℕ) :=
  [(.sealChunk (oneEventChunk 0 10 5), 0), (.call (.markShipped 7 0 0 0), 1),
    (.call (.applyReport 7 { watermark := 15 }), 2)]

/-- The grapher destroyed story 7. -/
def dropReport : RetentionStep :=
  .call (.applyReport 7 { watermark := kStoryDroppedWatermark })

/-- **A chunk that goes does not cause just one of the two calls**: the WAL is told
that the chunk is written while the tail still holds its event, and later that its
story is dropped. -/
theorem released_chunk_is_dropped :
    ¬ ∀ (tailCapacity delay ttl : ℕ) (steps : List (RetentionStep × ℕ)) (x : RetentionStep)
      (now : ℕ) (s s' : KeeperChunkRetentionStore),
      s = (fresh tailCapacity delay ttl).after steps → s' = x.run s now →
      ∀ storyId id, (s.retainedAt storyId id).isSome = true →
        s'.retainedAt storyId id = none →
        Xor (id ∈ writtenIds s'.walCalls) (storyId ∈ droppedIds s'.walCalls) := by
  intro h
  have hrun := h 1 0 0 toldRun dropReport 3 _ _ rfl rfl 7 0
  revert hrun
  decide +kernel

end KeeperChunkRetentionStore

end ChronoLog
