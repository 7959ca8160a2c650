import ChronoLog.Keeper.RetainedChunks

/-!
# What a keeper answers to a replay

## Main results

* `mergedRange_spec`, `isSome_mergedRange` — the merged range of `fetchRange` is
  the retained part of the range.
* `serve_spec` — an answer that was not cut short serves the whole range, but for
  the acknowledged events below the watermark.
* `fetchRange_spec` — **what an answer that was not cut short says of a retained
  event**.
-/

namespace ChronoLog

namespace KeeperChunkRetentionStore

/-- What is known of a merged range: its events are stored under their sequences
and satisfy `P`, the acknowledged ones also `Q`. -/
def RangeSatisfies (P Q : EventSequence → Prop)
    (merged : OrdMap EventSequence (LogEvent × Bool)) : Prop :=
  ∀ (sequence : EventSequence) (entry : LogEvent × Bool), merged[sequence]? = some entry →
    entry.1.sequence = sequence ∧ P sequence ∧ (entry.2 = true → Q sequence)

theorem rangeSatisfies_mergeRange {P Q : EventSequence → Prop} {acknowledged : Bool}
    {merged : OrdMap EventSequence (LogEvent × Bool)} (h : RangeSatisfies P Q merged)
    {es : List LogEvent}
    (hes : ∀ e ∈ es, P e.sequence ∧ (acknowledged = true → Q e.sequence)) :
    RangeSatisfies P Q (mergeRange acknowledged merged es) := by
  induction es generalizing merged with
  | nil => exact h
  | cons e es ih =>
    rw [mergeRange]
    refine ih ?_ fun e' he' => hes e' (List.mem_cons_of_mem e he')
    obtain ⟨hP, hQ⟩ := hes e List.mem_cons_self
    intro sequence entry hentry
    rw [Std.ExtTreeMap.getElem?_insert] at hentry
    split at hentry
    · next heq =>
      have hseq : e.sequence = sequence := Std.LawfulEqOrd.eq_of_compare heq
      subst hseq
      cases hm : merged[e.sequence]? with
      | none =>
        rw [hm] at hentry
        cases hentry
        refine ⟨rfl, hP, fun hack => hQ ?_⟩
        simpa using hack
      | some known =>
        rw [hm] at hentry
        cases hentry
        obtain ⟨hs, hPk, hQk⟩ := h e.sequence known hm
        refine ⟨hs, hPk, fun hack => ?_⟩
        rcases Bool.or_eq_true _ _ ▸ hack with hk | ha
        · exact hQk hk
        · exact hQ ha
    · exact h sequence entry hentry

theorem isSome_mergeRange {acknowledged : Bool} {sequence : EventSequence}
    {merged : OrdMap EventSequence (LogEvent × Bool)} {es : List LogEvent}
    (h : (merged[sequence]?).isSome ∨ ∃ e ∈ es, e.sequence = sequence) :
    ((mergeRange acknowledged merged es)[sequence]?).isSome := by
  induction es generalizing merged with
  | nil =>
    rcases h with h | ⟨e, he, -⟩
    · exact h
    · cases he
  | cons e es ih =>
    rw [mergeRange]
    refine ih ?_
    rw [Std.ExtTreeMap.getElem?_insert]
    by_cases heq : e.sequence = sequence
    · exact Or.inl (by simp [heq])
    · rcases h with h | ⟨e', he', hs⟩
      · exact Or.inl (by simpa [heq] using h)
      · rcases List.mem_cons.mp he' with rfl | he'
        · exact absurd hs heq
        · exact Or.inr ⟨e', he', hs⟩

/-- The story holds the sequence in the range, in a chunk that satisfies `p`. -/
def InRange (story : StoryRetention) (start stop : ℕ) (p : RetainedChunk → Prop)
    (sequence : EventSequence) : Prop :=
  ∃ (id : ChunkId) (retained : RetainedChunk), story.chunks[id]? = some retained ∧ p retained ∧
    ∃ e ∈ retained.chunk.events, e.sequence = sequence ∧ start ≤ e.time ∧ e.time < stop

/-- **The merged range is the retained part of the range**, and what it says is
acknowledged is in a chunk visible in the archive. -/
theorem mergedRange_spec (delay : ℕ) (story : StoryRetention) (start stop now : ℕ) :
    RangeSatisfies (InRange story start stop fun _ => True)
      (InRange story start stop fun retained =>
        visibleInArchive delay story retained.state now = true)
      (mergedRange delay story start stop now) := by
  unfold mergedRange
  have hall : ∀ l : List (ChunkId × RetainedChunk), (∀ entry ∈ l, entry ∈ story.chunks.toList) →
      ∀ merged, RangeSatisfies (InRange story start stop fun _ => True)
        (InRange story start stop fun retained =>
          visibleInArchive delay story retained.state now = true) merged →
      RangeSatisfies (InRange story start stop fun _ => True)
        (InRange story start stop fun retained =>
          visibleInArchive delay story retained.state now = true)
        (l.foldl (fun merged entry =>
          mergeRange (visibleInArchive delay story entry.2.state now) merged
            (entry.2.chunk.eventsFrom start stop)) merged) := by
    intro l
    induction l with
    | nil => exact fun _ _ h => h
    | cons entry l ih =>
      intro hl merged hm
      rw [List.foldl_cons]
      refine ih (fun e he => hl e (List.mem_cons_of_mem _ he)) _ (rangeSatisfies_mergeRange hm ?_)
      intro e he
      obtain ⟨hmem, hstart, hstop⟩ := StoryChunk.mem_eventsFrom.mp he
      have hget := Std.ExtTreeMap.mem_toList_iff_getElem?_eq_some.mp (hl entry List.mem_cons_self)
      exact ⟨⟨entry.1, entry.2, hget, trivial, e, hmem, rfl, hstart, hstop⟩,
        fun hack => ⟨entry.1, entry.2, hget, hack, e, hmem, rfl, hstart, hstop⟩⟩
  refine hall _ (fun _ h => h) _ ?_
  intro sequence entry h
  simp at h

theorem isSome_mergedRange (delay now : ℕ) {story : StoryRetention} {start stop : ℕ}
    {sequence : EventSequence} (h : InRange story start stop (fun _ => True) sequence) :
    ((mergedRange delay story start stop now)[sequence]?).isSome := by
  obtain ⟨id, retained, hget, -, e, hmem, hseq, hstart, hstop⟩ := h
  unfold mergedRange
  have hall : ∀ (l : List (ChunkId × RetainedChunk)) (merged : OrdMap EventSequence _),
      ((id, retained) ∈ l ∨ (merged[sequence]?).isSome) →
      ((l.foldl (fun merged entry =>
          mergeRange (visibleInArchive delay story entry.2.state now) merged
            (entry.2.chunk.eventsFrom start stop)) merged)[sequence]?).isSome := by
    intro l
    induction l with
    | nil =>
      rintro merged (h | h)
      · cases h
      · exact h
    | cons entry l ih =>
      intro merged h
      rw [List.foldl_cons]
      refine ih _ ?_
      rcases h with h | h
      · rcases List.mem_cons.mp h with rfl | h
        · right
          exact isSome_mergeRange
            (Or.inr ⟨e, StoryChunk.mem_eventsFrom.mpr ⟨hmem, hstart, hstop⟩, hseq⟩)
        · exact Or.inl h
      · exact Or.inr (isSome_mergeRange (Or.inl h))
  exact hall _ _ (Or.inl (Std.ExtTreeMap.mem_toList_iff_getElem?_eq_some.mpr hget))

theorem hotFloor_le {chunks : List StoryChunk} {chunk : StoryChunk} {e : LogEvent}
    (hc : chunk ∈ chunks) (he : e ∈ chunk.events) : hotFloor chunks ≤ e.time := by
  induction chunks with
  | nil => cases hc
  | cons c chunks ih =>
    rw [hotFloor]
    rcases List.mem_cons.mp hc with rfl | hc
    · have hfirst := StoryChunk.firstEventTime_le_of_mem he
      have hne := StoryChunk.empty_eq_false_of_mem he
      split
      · exact hfirst
      · next hif =>
        simp only [hne, Bool.not_false, Bool.true_and, decide_eq_true_eq] at hif
        omega
    · have hrest := ih hc
      split
      · next hif =>
        simp only [Bool.and_eq_true, decide_eq_true_eq] at hif
        omega
      · exact hrest

/-- The floor is the time of a retained event, or the largest number. -/
theorem hotFloor_cases (chunks : List StoryChunk) :
    hotFloor chunks = 2 ^ 64 - 1 ∨
      ∃ chunk ∈ chunks, ∃ e ∈ chunk.events, e.time = hotFloor chunks := by
  induction chunks with
  | nil => exact Or.inl rfl
  | cons c chunks ih =>
    rw [hotFloor]
    split
    · next hif =>
      simp only [Bool.and_eq_true, Bool.not_eq_true', decide_eq_true_eq] at hif
      obtain ⟨e, he, ht⟩ := StoryChunk.exists_mem_firstEventTime hif.1
      exact Or.inr ⟨c, List.mem_cons_self, e, he, ht⟩
    · rcases ih with h | ⟨chunk, hc, e, he, ht⟩
      · exact Or.inl h
      · exact Or.inr ⟨chunk, List.mem_cons_of_mem c hc, e, he, ht⟩

/-- Serving leaves the floor and the watermark of the answer alone. -/
theorem serve_fields (knownW maxEvents : ℕ) (l : List (LogEvent × Bool)) (served : ℕ)
    (response : HotRangeResponse) :
    (serve knownW maxEvents l served response).hotFloor = response.hotFloor ∧
      (serve knownW maxEvents l served response).knownW = response.knownW ∧
      (serve knownW maxEvents l served response).answered = response.answered := by
  induction l generalizing served response with
  | nil => exact ⟨rfl, rfl, rfl⟩
  | cons entry l ih =>
    obtain ⟨e, acknowledged⟩ := entry
    rw [serve]
    split
    · exact ih served response
    · split
      · exact ⟨rfl, rfl, rfl⟩
      · split
        · exact ih (served + 1) _
        · exact ih (served + 1) _

/-- What is served comes from the range, or was in the answer before. -/
theorem mem_of_mem_serve {knownW maxEvents : ℕ} {l : List (LogEvent × Bool)} {served : ℕ}
    {response : HotRangeResponse} {e : LogEvent}
    (h : e ∈ (serve knownW maxEvents l served response).events ∨
      e ∈ (serve knownW maxEvents l served response).unconfirmedEvents) :
    (∃ acknowledged, (e, acknowledged) ∈ l) ∨ e ∈ response.events ∨
      e ∈ response.unconfirmedEvents := by
  induction l generalizing served response with
  | nil => exact Or.inr h
  | cons entry l ih =>
    obtain ⟨x, acknowledged⟩ := entry
    rw [serve] at h
    have hrest : ∀ {served : ℕ} {response' : HotRangeResponse},
        (e ∈ (serve knownW maxEvents l served response').events ∨
          e ∈ (serve knownW maxEvents l served response').unconfirmedEvents) →
        (e ∈ response'.events ∨ e ∈ response'.unconfirmedEvents →
          e = x ∨ e ∈ response.events ∨ e ∈ response.unconfirmedEvents) →
        (∃ acknowledged_1, (e, acknowledged_1) ∈ (x, acknowledged) :: l) ∨
          e ∈ response.events ∨ e ∈ response.unconfirmedEvents := by
      intro served response' hmem hsub
      rcases ih hmem with ⟨a, ha⟩ | hr
      · exact Or.inl ⟨a, List.mem_cons_of_mem _ ha⟩
      · rcases hsub hr with rfl | hr
        · exact Or.inl ⟨acknowledged, List.mem_cons_self⟩
        · exact Or.inr hr
    split at h
    · exact hrest h Or.inr
    · split at h
      · exact Or.inr h
      · split at h
        · refine hrest h ?_
          rintro (hm | hm)
          · rcases List.mem_append.mp hm with hm | hm
            · exact Or.inr (Or.inl hm)
            · exact Or.inl (List.mem_singleton.mp hm)
          · exact Or.inr (Or.inr hm)
        · refine hrest h ?_
          rintro (hm | hm)
          · exact Or.inr (Or.inl hm)
          · rcases List.mem_append.mp hm with hm | hm
            · exact Or.inr (Or.inr hm)
            · exact Or.inl (List.mem_singleton.mp hm)

/-- Serving never takes an event out of the answer. -/
theorem subset_serve {knownW maxEvents : ℕ} (l : List (LogEvent × Bool)) (served : ℕ)
    (response : HotRangeResponse) (e : LogEvent) :
    (e ∈ response.events → e ∈ (serve knownW maxEvents l served response).events) ∧
      (e ∈ response.unconfirmedEvents →
        e ∈ (serve knownW maxEvents l served response).unconfirmedEvents) := by
  induction l generalizing served response with
  | nil => exact ⟨id, id⟩
  | cons entry l ih =>
    obtain ⟨x, acknowledged⟩ := entry
    rw [serve]
    split
    · exact ih served response
    · split
      · exact ⟨id, id⟩
      · split
        · obtain ⟨h₁, h₂⟩ := ih (served + 1) { response with events := response.events ++ [x] }
          exact ⟨fun h => h₁ (List.mem_append_left _ h), h₂⟩
        · obtain ⟨h₁, h₂⟩ := ih (served + 1)
            { response with unconfirmedEvents := response.unconfirmedEvents ++ [x] }
          exact ⟨h₁, fun h => h₂ (List.mem_append_left _ h)⟩

/-- **An answer that was not cut short serves the whole range**, but for the
acknowledged events below the watermark. -/
theorem serve_spec {knownW maxEvents : ℕ} {l : List (LogEvent × Bool)} {served : ℕ}
    {response : HotRangeResponse} {e : LogEvent} {acknowledged : Bool}
    (htrunc : (serve knownW maxEvents l served response).truncated = false)
    (hmem : (e, acknowledged) ∈ l) :
    if acknowledged then
      e.time < knownW ∨ e ∈ (serve knownW maxEvents l served response).events
    else e ∈ (serve knownW maxEvents l served response).unconfirmedEvents := by
  induction l generalizing served response with
  | nil => cases hmem
  | cons entry l ih =>
    obtain ⟨x, a⟩ := entry
    rw [serve] at htrunc ⊢
    rcases List.mem_cons.mp hmem with heq | hmem
    · cases heq
      split at htrunc
      · next hif =>
        simp only [Bool.and_eq_true, decide_eq_true_eq] at hif
        simp [hif.1, hif.2]
      · next hif =>
        rw [if_neg hif]
        split at htrunc
        · cases htrunc
        · next hserved =>
          rw [if_neg hserved]
          cases hack : acknowledged with
          | true => exact Or.inr ((subset_serve _ _ _ _).1 (by simp))
          | false => exact (subset_serve _ _ _ _).2 (by simp)
    · split at htrunc
      · next hif =>
        rw [if_pos hif]
        exact ih htrunc hmem
      · next hif =>
        rw [if_neg hif]
        split at htrunc
        · cases htrunc
        · next hserved =>
          rw [if_neg hserved]
          split at htrunc
          · next hack =>
            rw [if_pos hack]
            exact ih htrunc hmem
          · next hack =>
            rw [if_neg hack]
            exact ih htrunc hmem

section

variable {s : KeeperChunkRetentionStore} {storyId : StoryId} {story : StoryRetention}
  {start stop maxEvents now : ℕ} {sequence : EventSequence}

/-- **What an answer that was not cut short says of a retained event of the range**:
it serves it as unconfirmed, or a chunk visible in the archive holds it, and then
it serves it or the event is below the keeper's watermark. -/
theorem fetchRange_spec (hstory : s.storyRetention[storyId]? = some story)
    (htrunc : (s.fetchRange storyId start stop maxEvents now).truncated = false)
    (h : InRange story start stop (fun _ => True) sequence) :
    (∃ e ∈ (s.fetchRange storyId start stop maxEvents now).unconfirmedEvents,
        e.sequence = sequence) ∨
      InRange story start stop
        (fun retained =>
          visibleInArchive s.archiveVisibilityDelay story retained.state now = true) sequence ∧
      (sequence.time.toNat < story.knownW ∨
        ∃ e ∈ (s.fetchRange storyId start stop maxEvents now).events, e.sequence = sequence) := by
  unfold fetchRange at htrunc ⊢
  simp only [hstory] at htrunc ⊢
  have hspec := mergedRange_spec s.archiveVisibilityDelay story start stop now
  obtain ⟨⟨e, acknowledged⟩, hget⟩ :=
    Option.isSome_iff_exists.mp (isSome_mergedRange s.archiveVisibilityDelay now h)
  obtain ⟨hseq, -, hvisible⟩ := hspec sequence (e, acknowledged) hget
  have hmem : (e, acknowledged) ∈
      (mergedRange s.archiveVisibilityDelay story start stop now).toList.map Prod.snd :=
    List.mem_map.mpr ⟨_, Std.ExtTreeMap.mem_toList_iff_getElem?_eq_some.mpr hget, rfl⟩
  have hserved := serve_spec htrunc hmem
  cases acknowledged with
  | true =>
    right
    refine ⟨hvisible rfl, ?_⟩
    rcases hserved with hlt | hev
    · left
      rw [← hseq]
      exact hlt
    · exact Or.inr ⟨e, hev, hseq⟩
  | false => exact Or.inl ⟨e, hserved, hseq⟩

/-- What a keeper serves, it retains. -/
theorem inRange_of_mem_fetchRange (hstory : s.storyRetention[storyId]? = some story)
    {e : LogEvent}
    (h : e ∈ (s.fetchRange storyId start stop maxEvents now).events ∨
      e ∈ (s.fetchRange storyId start stop maxEvents now).unconfirmedEvents) :
    InRange story start stop (fun _ => True) e.sequence := by
  unfold fetchRange at h
  simp only [hstory] at h
  rcases mem_of_mem_serve h with ⟨acknowledged, hmem⟩ | hnone | hnone
  · obtain ⟨⟨sequence, entry⟩, hentry, heq⟩ := List.mem_map.mp hmem
    have hget := Std.ExtTreeMap.mem_toList_iff_getElem?_eq_some.mp hentry
    obtain ⟨hseq, hin, -⟩ :=
      mergedRange_spec s.archiveVisibilityDelay story start stop now sequence entry hget
    dsimp only at heq
    rw [heq] at hseq
    rw [hseq]
    exact hin
  · cases hnone
  · cases hnone

theorem knownW_fetchRange (s : KeeperChunkRetentionStore) (storyId : StoryId)
    (start stop maxEvents now : ℕ) :
    (s.fetchRange storyId start stop maxEvents now).knownW = s.knownPersisted storyId := by
  unfold fetchRange knownPersisted storyOf
  cases s.storyRetention[storyId]? with
  | none => rfl
  | some story => exact (serve_fields ..).2.1

theorem answered_fetchRange (s : KeeperChunkRetentionStore) (storyId : StoryId)
    (start stop maxEvents now : ℕ) :
    (s.fetchRange storyId start stop maxEvents now).answered = true := by
  unfold fetchRange
  split
  · rfl
  · exact (serve_fields ..).2.2

/-- A time is below the floor of an answer when every retained event is newer. -/
theorem lt_hotFloor_fetchRange_iff {t : ℕ} (ht : t < 2 ^ 64 - 1) :
    t < (s.fetchRange storyId start stop maxEvents now).hotFloor ↔
      ∀ id chunk, s.chunkAt storyId id = some chunk → ∀ e ∈ chunk.events, t < e.time := by
  unfold fetchRange chunkAt retainedAt
  cases hstory : s.storyRetention[storyId]? with
  | none => simpa using ht
  | some story =>
    simp only [Option.bind_some, (serve_fields ..).1]
    have hmem : ∀ chunk, chunk ∈ story.chunks.toList.map (fun entry => entry.2.chunk) ↔
        ∃ id : ChunkId, (story.chunks[id]?).map RetainedChunk.chunk = some chunk := by
      intro chunk
      rw [List.mem_map]
      constructor
      · rintro ⟨⟨id, retained⟩, hin, rfl⟩
        exact ⟨id, by rw [Std.ExtTreeMap.mem_toList_iff_getElem?_eq_some.mp hin]; rfl⟩
      · rintro ⟨id, hget⟩
        obtain ⟨retained, hret, rfl⟩ := Option.map_eq_some_iff.mp hget
        exact ⟨(id, retained), Std.ExtTreeMap.mem_toList_iff_getElem?_eq_some.mpr hret, rfl⟩
    constructor
    · intro h id chunk hget e he
      exact Nat.lt_of_lt_of_le h (hotFloor_le ((hmem chunk).mpr ⟨id, hget⟩) he)
    · intro h
      rcases hotFloor_cases (story.chunks.toList.map fun entry => entry.2.chunk) with
        heq | ⟨chunk, hc, e, he, heq⟩
      · rw [heq]
        exact ht
      · obtain ⟨id, hget⟩ := (hmem chunk).mp hc
        rw [← heq]
        exact h id chunk hget e he

end

end KeeperChunkRetentionStore

end ChronoLog
