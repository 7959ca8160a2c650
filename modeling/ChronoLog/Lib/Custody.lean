import Mathlib

/-!
# Custody of heap objects

An owner keeps track of objects on a heap and lends some of them to others, who
hold a pointer until they give it back.  An object is named by the number of its
allocation.  The owner files an object under a key that the object itself carries,
with a mark that says whether it is lent.  It may strike an object from its books
while it is lent; whoever gives it back then finds it untracked.

`Owned` says that this goes well: no object is deleted twice or while it is lent,
no pointer is out twice, the marks are right, and no object is lost.  The lemmas
are the moves of an owner.

## Main definitions

* `Owned` — the owner's books `T`, the pointers `P` that are out, the deleted
  objects `D` and the next allocation `n` fit together.
* `file` — change one entry of the books.

## Main results

* `Owned.take`, `Owned.refuse` — a new object is lent, or deleted at once.
* `Owned.release` — objects leave the books.
* `Owned.giveBack`, `Owned.discard` — a pointer comes back.
* `Owned.lend` — tracked objects are lent.
-/

namespace Custody

variable {κ α : Type*}

/-- The owner's books `T`, the pointers `P` that are out, the deleted objects `D`
and the next allocation `n`; `home` is the key an object carries. -/
structure Owned (home : α → κ) (T : κ → ℕ → Option (α × Bool)) (P : List (ℕ × α)) (D : List ℕ)
    (n : ℕ) : Prop where
  once : (P.map Prod.fst).Nodup
  deleted_once : D.Nodup
  deleted_lent : ∀ id ∈ D, id ∉ P.map Prod.fst
  deleted_tracked : ∀ k id x, T k id = some x → id ∉ D
  filed : ∀ k id x, T k id = some x → home x.1 = k
  unique : ∀ k k' id x x', T k id = some x → T k' id = some x' → k = k'
  lent : ∀ k id x, T k id = some x → (x.2 = true ↔ id ∈ P.map Prod.fst)
  object : ∀ k id x a, T k id = some x → (id, a) ∈ P → a = x.1
  lent_lt : ∀ id ∈ P.map Prod.fst, id < n
  deleted_lt : ∀ id ∈ D, id < n
  tracked_lt : ∀ k id x, T k id = some x → id < n
  whole : ∀ id < n, id ∈ P.map Prod.fst ∨ id ∈ D ∨ ∃ k, (T k id).isSome = true

/-- The books with one entry changed. -/
def file [DecidableEq κ] (T : κ → ℕ → Option (α × Bool)) (k : κ) (id : ℕ)
    (x : Option (α × Bool)) : κ → ℕ → Option (α × Bool) :=
  fun k' id' => if k = k' ∧ id = id' then x else T k' id'

section File

variable [DecidableEq κ] {T : κ → ℕ → Option (α × Bool)} {k k' : κ} {id id' : ℕ}

theorem file_self (x : Option (α × Bool)) : file T k id x k id = x := if_pos ⟨rfl, rfl⟩

theorem file_of_ne (x : Option (α × Bool)) (h : ¬ (k = k' ∧ id = id')) :
    file T k id x k' id' = T k' id' :=
  if_neg h

end File

namespace Owned

variable {home : α → κ} {T T' : κ → ℕ → Option (α × Bool)} {P P' : List (ℕ × α)}
  {D : List ℕ} {n id : ℕ} {k : κ} {a : α}

/-- The order of the pointers does not matter. -/
theorem perm (h : Owned home T P D n) (hp : P.Perm P') : Owned home T P' D n := by
  have hmem : ∀ id, id ∈ P'.map Prod.fst ↔ id ∈ P.map Prod.fst :=
    fun id => (hp.map Prod.fst).mem_iff.symm
  refine ⟨(hp.map _).nodup_iff.mp h.once, h.deleted_once, ?_, h.deleted_tracked, h.filed, h.unique,
    ?_, ?_, ?_, h.deleted_lt, h.tracked_lt, ?_⟩
  · exact fun id hid hmem' => h.deleted_lent id hid ((hmem id).mp hmem')
  · exact fun k id x hx => (h.lent k id x hx).trans (hmem id).symm
  · exact fun k id x a hx ha => h.object k id x a hx (hp.mem_iff.mpr ha)
  · exact fun id hid => h.lent_lt id ((hmem id).mp hid)
  · exact fun id hid => (h.whole id hid).imp_left (hmem id).mpr

/-- Nor does the order of the deletions. -/
theorem permDeleted {D' : List ℕ} (h : Owned home T P D n) (hp : D.Perm D') :
    Owned home T P D' n := by
  refine ⟨h.once, hp.nodup_iff.mp h.deleted_once, ?_, ?_, h.filed, h.unique, h.lent, h.object,
    h.lent_lt, ?_, h.tracked_lt, ?_⟩
  · exact fun id hid => h.deleted_lent id (hp.mem_iff.mpr hid)
  · exact fun k id x hx hid => h.deleted_tracked k id x hx (hp.mem_iff.mpr hid)
  · exact fun id hid => h.deleted_lt id (hp.mem_iff.mpr hid)
  · exact fun id hid => (h.whole id hid).imp_right (Or.imp_left hp.mem_iff.mp)

/-- Tracked objects that are not lent are lent: the books change in their marks
only, and the marks of the pointers that go out are set. -/
theorem lend {picks : List (ℕ × α)} (h : Owned home T P D n)
    (hnodup : (picks.map Prod.fst).Nodup)
    (hpicks : ∀ y ∈ picks, ∃ k, T k y.1 = some (y.2, false))
    (hbooks : ∀ k id x', T' k id = some x' ↔ ∃ x, T k id = some x ∧ x'.1 = x.1 ∧
      (x'.2 = true ↔ x.2 = true ∨ id ∈ picks.map Prod.fst)) :
    Owned home T' (P ++ picks) D n := by
  have hold : ∀ k id x', T' k id = some x' → ∃ x, T k id = some x ∧ x'.1 = x.1 ∧
      (x'.2 = true ↔ x.2 = true ∨ id ∈ picks.map Prod.fst) :=
    fun k id x' hx' => (hbooks k id x').mp hx'
  have hfile : ∀ id ∈ picks.map Prod.fst, ∃ k a, T k id = some (a, false) := by
    intro id hid
    obtain ⟨y, hy, rfl⟩ := List.mem_map.mp hid
    obtain ⟨k, hk⟩ := hpicks y hy
    exact ⟨k, y.2, hk⟩
  refine ⟨?_, h.deleted_once, ?_, ?_, ?_, ?_, ?_, ?_, ?_, h.deleted_lt, ?_, ?_⟩
  · rw [List.map_append, List.nodup_append]
    refine ⟨h.once, hnodup, ?_⟩
    rintro d hd e he rfl
    obtain ⟨k, a, hk⟩ := hfile d he
    simpa using (h.lent k d _ hk).mpr hd
  · intro d hd hmem
    rw [List.map_append, List.mem_append] at hmem
    rcases hmem with hmem | hmem
    · exact h.deleted_lent d hd hmem
    · obtain ⟨k, a, hk⟩ := hfile d hmem
      exact h.deleted_tracked k d _ hk hd
  · intro k id x' hx'
    obtain ⟨x, hx, -⟩ := hold k id x' hx'
    exact h.deleted_tracked k id x hx
  · intro k id x' hx'
    obtain ⟨x, hx, heq, -⟩ := hold k id x' hx'
    exact heq ▸ h.filed k id x hx
  · intro k₁ k₂ id x₁ x₂ h₁ h₂
    obtain ⟨y₁, hy₁, -⟩ := hold k₁ id x₁ h₁
    obtain ⟨y₂, hy₂, -⟩ := hold k₂ id x₂ h₂
    exact h.unique k₁ k₂ id y₁ y₂ hy₁ hy₂
  · intro k id x' hx'
    obtain ⟨x, hx, -, hmark⟩ := hold k id x' hx'
    rw [hmark, h.lent k id x hx, List.map_append, List.mem_append]
  · intro k id x' a hx' ha
    obtain ⟨x, hx, heq, -⟩ := hold k id x' hx'
    rcases List.mem_append.mp ha with ha | ha
    · rw [heq]
      exact h.object k id x a hx ha
    · obtain ⟨k', hk'⟩ := hpicks (id, a) ha
      obtain rfl := h.unique k k' id _ _ hx hk'
      rw [hx, Option.some.injEq] at hk'
      rw [heq, hk']
  · intro id hid
    rw [List.map_append, List.mem_append] at hid
    rcases hid with hid | hid
    · exact h.lent_lt id hid
    · obtain ⟨k, a, hk⟩ := hfile id hid
      exact h.tracked_lt k id _ hk
  · intro k id x' hx'
    obtain ⟨x, hx, -⟩ := hold k id x' hx'
    exact h.tracked_lt k id x hx
  · intro id hid
    rw [List.map_append, List.mem_append]
    rcases h.whole id hid with hp | hd | ⟨k, hk⟩
    · exact Or.inl (Or.inl hp)
    · exact Or.inr (Or.inl hd)
    · obtain ⟨x, hx⟩ := Option.isSome_iff_exists.mp hk
      by_cases hpick : id ∈ picks.map Prod.fst
      · exact Or.inl (Or.inr hpick)
      · refine Or.inr (Or.inr ⟨k, ?_⟩)
        rw [(hbooks k id x).mpr ⟨x, hx, rfl, by simp [hpick]⟩]
        rfl

/-- Objects are struck from the books.  Those that are not lent go out or are
deleted; those that are lent stay with whoever has them. -/
theorem release {S : κ → ℕ → Prop} {out : List (ℕ × α)} {gone : List ℕ}
    (h : Owned home T P D n) (hT' : ∀ k id x, T' k id = some x ↔ T k id = some x ∧ ¬ S k id)
    (hout : ∀ y ∈ out, ∃ k, S k y.1 ∧ T k y.1 = some (y.2, false))
    (hgone : ∀ id ∈ gone, ∃ k a, S k id ∧ T k id = some (a, false))
    (hnodup : (out.map Prod.fst ++ gone).Nodup)
    (hcover : ∀ k id a, S k id → T k id = some (a, false) → id ∈ out.map Prod.fst ++ gone) :
    Owned home T' (P ++ out) (D ++ gone) n := by
  obtain ⟨houtonce, hgoneonce, hapart⟩ := List.nodup_append.mp hnodup
  have hat : ∀ id ∈ out.map Prod.fst ++ gone, ∃ k a, S k id ∧ T k id = some (a, false) := by
    intro id hid
    rcases List.mem_append.mp hid with hid | hid
    · obtain ⟨y, hy, rfl⟩ := List.mem_map.mp hid
      obtain ⟨k, hS, hx⟩ := hout y hy
      exact ⟨k, y.2, hS, hx⟩
    · exact hgone id hid
  have hnotlent : ∀ id ∈ out.map Prod.fst ++ gone, id ∉ P.map Prod.fst := by
    intro id hid hmem
    obtain ⟨k, a, -, hx⟩ := hat id hid
    simpa using (h.lent k id _ hx).mpr hmem
  have hnotdeleted : ∀ id ∈ out.map Prod.fst ++ gone, id ∉ D := by
    intro id hid
    obtain ⟨k, a, -, hx⟩ := hat id hid
    exact h.deleted_tracked k id _ hx
  -- what stays in the books is neither handed out nor deleted
  have hstays : ∀ k id x, T' k id = some x → id ∉ out.map Prod.fst ++ gone := by
    intro k id x hx hid
    obtain ⟨hold, hS⟩ := (hT' k id x).mp hx
    obtain ⟨k', a, hS', hx'⟩ := hat id hid
    exact hS (h.unique k' k id _ _ hx' hold ▸ hS')
  refine ⟨?_, ?_, ?_, ?_, ?_, ?_, ?_, ?_, ?_, ?_, ?_, ?_⟩
  · rw [List.map_append]
    exact h.once.append houtonce fun id hp ho => hnotlent id (List.mem_append_left _ ho) hp
  · exact h.deleted_once.append hgoneonce
      fun id hd hg => hnotdeleted id (List.mem_append_right _ hg) hd
  · intro id hid hmem
    rw [List.map_append, List.mem_append] at hmem
    rcases List.mem_append.mp hid with hd | hg
    · rcases hmem with hp | ho
      · exact h.deleted_lent id hd hp
      · exact hnotdeleted id (List.mem_append_left _ ho) hd
    · rcases hmem with hp | ho
      · exact hnotlent id (List.mem_append_right _ hg) hp
      · exact hapart id ho id hg rfl
  · intro k id x hx hid
    rcases List.mem_append.mp hid with hd | hg
    · exact h.deleted_tracked k id x ((hT' k id x).mp hx).1 hd
    · exact hstays k id x hx (List.mem_append_right _ hg)
  · exact fun k id x hx => h.filed k id x ((hT' k id x).mp hx).1
  · exact fun k k' id x x' hx hx' =>
      h.unique k k' id x x' ((hT' k id x).mp hx).1 ((hT' k' id x').mp hx').1
  · intro k id x hx
    rw [h.lent k id x ((hT' k id x).mp hx).1, List.map_append, List.mem_append]
    refine (or_iff_left fun ho => ?_).symm
    exact hstays k id x hx (List.mem_append_left _ ho)
  · intro k id x a hx ha
    rcases List.mem_append.mp ha with ha | ha
    · exact h.object k id x a ((hT' k id x).mp hx).1 ha
    · exact absurd (List.mem_append_left _ (List.mem_map.mpr ⟨_, ha, rfl⟩)) (hstays k id x hx)
  · intro id hid
    rw [List.map_append, List.mem_append] at hid
    rcases hid with hp | ho
    · exact h.lent_lt id hp
    · obtain ⟨k, a, -, hx⟩ := hat id (List.mem_append_left _ ho)
      exact h.tracked_lt k id _ hx
  · intro id hid
    rcases List.mem_append.mp hid with hd | hg
    · exact h.deleted_lt id hd
    · obtain ⟨k, a, -, hx⟩ := hat id (List.mem_append_right _ hg)
      exact h.tracked_lt k id _ hx
  · exact fun k id x hx => h.tracked_lt k id x ((hT' k id x).mp hx).1
  · intro id hid
    rw [List.map_append, List.mem_append, List.mem_append]
    rcases h.whole id hid with hp | hd | ⟨k, hk⟩
    · exact Or.inl (Or.inl hp)
    · exact Or.inr (Or.inl (Or.inl hd))
    · obtain ⟨⟨a, b⟩, hx⟩ := Option.isSome_iff_exists.mp hk
      by_cases hS : S k id
      · cases b with
        | true => exact Or.inl (Or.inl ((h.lent k id _ hx).mp rfl))
        | false =>
          rcases List.mem_append.mp (hcover k id a hS hx) with ho | hg
          · exact Or.inl (Or.inr ho)
          · exact Or.inr (Or.inl (Or.inr hg))
      · exact Or.inr (Or.inr ⟨k, by rw [(hT' k id _).mpr ⟨hx, hS⟩]; rfl⟩)

/-- A new object is deleted at once. -/
theorem refuse (h : Owned home T P D n) : Owned home T P (D ++ [n]) (n + 1) := by
  refine ⟨h.once, ?_, ?_, ?_, h.filed, h.unique, h.lent, h.object, ?_, ?_, ?_, ?_⟩
  · refine h.deleted_once.append (List.nodup_singleton n) ?_
    exact List.disjoint_singleton.mpr fun hd => Nat.lt_irrefl n (h.deleted_lt n hd)
  · intro d hd hmem
    rcases List.mem_append.mp hd with hd | hd
    · exact h.deleted_lent d hd hmem
    · obtain rfl := List.mem_singleton.mp hd
      exact Nat.lt_irrefl d (h.lent_lt d hmem)
  · intro k' id' x hx hd
    rcases List.mem_append.mp hd with hd | hd
    · exact h.deleted_tracked k' id' x hx hd
    · obtain rfl := List.mem_singleton.mp hd
      exact Nat.lt_irrefl id' (h.tracked_lt k' id' x hx)
  · exact fun d hd => Nat.lt_succ_of_lt (h.lent_lt d hd)
  · intro d hd
    rcases List.mem_append.mp hd with hd | hd
    · exact Nat.lt_succ_of_lt (h.deleted_lt d hd)
    · obtain rfl := List.mem_singleton.mp hd
      exact Nat.lt_succ_self d
  · exact fun k' id' x hx => Nat.lt_succ_of_lt (h.tracked_lt k' id' x hx)
  · intro id' hid'
    rcases Nat.lt_succ_iff_lt_or_eq.mp hid' with hlt | rfl
    · exact (h.whole id' hlt).imp_right (Or.imp_left (List.mem_append_left _))
    · exact Or.inr (Or.inl (List.mem_append_right _ (List.mem_singleton_self _)))

/-- A pointer that comes back for an object the books do not hold: the object is
deleted. -/
theorem discard (h : Owned home T ((id, a) :: P) D n) (hx : T (home a) id = none) :
    Owned home T P (D ++ [id]) n := by
  have honce := List.nodup_cons.mp h.once
  have huntracked : ∀ k' x, T k' id ≠ some x := by
    intro k' x hx'
    have hsame : a = x.1 := h.object k' id x a hx' List.mem_cons_self
    rw [hsame, h.filed k' id x hx', hx'] at hx
    cases hx
  refine ⟨honce.2, ?_, ?_, ?_, h.filed, h.unique, ?_, ?_, ?_, ?_, h.tracked_lt, ?_⟩
  · refine h.deleted_once.append (List.nodup_singleton id) ?_
    exact List.disjoint_singleton.mpr fun hd => h.deleted_lent id hd List.mem_cons_self
  · intro d hd hmem
    rcases List.mem_append.mp hd with hd | hd
    · exact h.deleted_lent d hd (List.mem_cons_of_mem _ hmem)
    · obtain rfl := List.mem_singleton.mp hd
      exact honce.1 hmem
  · intro k' id' x hx' hd
    rcases List.mem_append.mp hd with hd | hd
    · exact h.deleted_tracked k' id' x hx' hd
    · obtain rfl := List.mem_singleton.mp hd
      exact huntracked k' x hx'
  · intro k' id' x hx'
    rw [h.lent k' id' x hx', List.map_cons, List.mem_cons]
    refine or_iff_right ?_
    rintro rfl
    exact huntracked k' x hx'
  · exact fun k' id' x b hx' hb => h.object k' id' x b hx' (List.mem_cons_of_mem _ hb)
  · exact fun d hd => h.lent_lt d (List.mem_cons_of_mem _ hd)
  · intro d hd
    rcases List.mem_append.mp hd with hd | hd
    · exact h.deleted_lt d hd
    · obtain rfl := List.mem_singleton.mp hd
      exact h.lent_lt d List.mem_cons_self
  · intro id' hid'
    rcases h.whole id' hid' with hp | hd | hk
    · rcases List.mem_cons.mp hp with rfl | hp
      · exact Or.inr (Or.inl (List.mem_append_right _ (List.mem_singleton_self _)))
      · exact Or.inl hp
    · exact Or.inr (Or.inl (List.mem_append_left _ hd))
    · exact Or.inr (Or.inr hk)

/-- Pointers to objects the books do not hold are deleted by whoever has them. -/
theorem discardAll {Q : List (ℕ × α)} (h : Owned home T (Q ++ P) D n)
    (hx : ∀ y ∈ Q, T (home y.2) y.1 = none) : Owned home T P (D ++ Q.map Prod.fst) n := by
  induction Q generalizing D with
  | nil => simpa using h
  | cons y Q ih =>
    have hrest := ih (h.discard (hx y List.mem_cons_self)) fun z hz =>
      hx z (List.mem_cons_of_mem _ hz)
    rwa [List.append_assoc] at hrest

variable [DecidableEq κ]

/-- A new object is filed and lent. -/
theorem take (h : Owned home T P D n) (hk : home a = k) :
    Owned home (file T k n (some (a, true))) (P ++ [(n, a)]) D (n + 1) := by
  have hout : n ∉ P.map Prod.fst := fun hmem => Nat.lt_irrefl n (h.lent_lt n hmem)
  have hnew : ∀ k, T k n = none := by
    intro k
    cases hx : T k n with
    | none => rfl
    | some x => exact absurd (h.tracked_lt k n x hx) (Nat.lt_irrefl n)
  have hcases : ∀ k' id' x, file T k n (some (a, true)) k' id' = some x →
      (k' = k ∧ id' = n ∧ x = (a, true)) ∨ (T k' id' = some x ∧ id' ≠ n) := by
    intro k' id' x hx
    by_cases hkey : k = k' ∧ n = id'
    · obtain ⟨rfl, rfl⟩ := hkey
      rw [file_self, Option.some.injEq] at hx
      exact Or.inl ⟨rfl, rfl, hx.symm⟩
    · rw [file_of_ne _ hkey] at hx
      refine Or.inr ⟨hx, ?_⟩
      rintro rfl
      rw [hnew] at hx
      cases hx
  refine ⟨?_, h.deleted_once, ?_, ?_, ?_, ?_, ?_, ?_, ?_, ?_, ?_, ?_⟩
  · rw [List.map_append]
    exact h.once.append (List.nodup_singleton n) (List.disjoint_singleton.mpr hout)
  · intro d hd hmem
    rw [List.map_append, List.mem_append] at hmem
    rcases hmem with hmem | hmem
    · exact h.deleted_lent d hd hmem
    · obtain rfl : d = n := List.mem_singleton.mp hmem
      exact Nat.lt_irrefl d (h.deleted_lt d hd)
  · intro k' id' x hx hd
    rcases hcases k' id' x hx with ⟨-, rfl, -⟩ | ⟨hold, -⟩
    · exact Nat.lt_irrefl _ (h.deleted_lt _ hd)
    · exact h.deleted_tracked k' id' x hold hd
  · intro k' id' x hx
    rcases hcases k' id' x hx with ⟨rfl, -, rfl⟩ | ⟨hold, -⟩
    · exact hk
    · exact h.filed k' id' x hold
  · intro k₁ k₂ id' x₁ x₂ h₁ h₂
    rcases hcases k₁ id' x₁ h₁ with ⟨rfl, rfl, -⟩ | ⟨hold₁, hne₁⟩
    · rcases hcases k₂ _ x₂ h₂ with ⟨rfl, -, -⟩ | ⟨-, hne₂⟩
      · rfl
      · exact absurd rfl hne₂
    · rcases hcases k₂ id' x₂ h₂ with ⟨-, heq, -⟩ | ⟨hold₂, -⟩
      · exact absurd heq hne₁
      · exact h.unique k₁ k₂ id' x₁ x₂ hold₁ hold₂
  · intro k' id' x hx
    rw [List.map_append, List.mem_append]
    rcases hcases k' id' x hx with ⟨-, rfl, rfl⟩ | ⟨hold, hne⟩
    · simp
    · rw [h.lent k' id' x hold]
      simp [hne]
  · intro k' id' x b hx hb
    rcases hcases k' id' x hx with ⟨-, rfl, rfl⟩ | ⟨hold, hne⟩
    · rcases List.mem_append.mp hb with hb | hb
      · exact absurd (List.mem_map.mpr ⟨_, hb, rfl⟩) hout
      · rw [List.mem_singleton] at hb
        exact congrArg Prod.snd hb
    · rcases List.mem_append.mp hb with hb | hb
      · exact h.object k' id' x b hold hb
      · rw [List.mem_singleton] at hb
        exact absurd (congrArg Prod.fst hb) hne
  · intro d hd
    rw [List.map_append, List.mem_append] at hd
    rcases hd with hd | hd
    · exact Nat.lt_succ_of_lt (h.lent_lt d hd)
    · obtain rfl : d = n := List.mem_singleton.mp hd
      exact Nat.lt_succ_self d
  · exact fun d hd => Nat.lt_succ_of_lt (h.deleted_lt d hd)
  · intro k' id' x hx
    rcases hcases k' id' x hx with ⟨-, rfl, -⟩ | ⟨hold, -⟩
    · exact Nat.lt_succ_self _
    · exact Nat.lt_succ_of_lt (h.tracked_lt k' id' x hold)
  · intro id' hid'
    rw [List.map_append, List.mem_append]
    rcases Nat.lt_succ_iff_lt_or_eq.mp hid' with hlt | rfl
    · rcases h.whole id' hlt with hp | hd | ⟨k', hk'⟩
      · exact Or.inl (Or.inl hp)
      · exact Or.inr (Or.inl hd)
      · refine Or.inr (Or.inr ⟨k', ?_⟩)
        rw [file_of_ne _ fun hkey => Nat.ne_of_gt hlt hkey.2]
        exact hk'
    · exact Or.inl (Or.inr (List.mem_singleton_self _))

/-- A pointer that comes back for an object the books hold: its mark is cleared. -/
theorem giveBack {b : Bool} (h : Owned home T ((id, a) :: P) D n)
    (hx : T (home a) id = some (a, b)) :
    Owned home (file T (home a) id (some (a, false))) P D n := by
  have honce := List.nodup_cons.mp h.once
  have hcases : ∀ k' id' x, file T (home a) id (some (a, false)) k' id' = some x →
      (k' = home a ∧ id' = id ∧ x = (a, false)) ∨ (T k' id' = some x ∧ id' ≠ id) := by
    intro k' id' x hx'
    by_cases hkey : home a = k' ∧ id = id'
    · obtain ⟨rfl, rfl⟩ := hkey
      rw [file_self, Option.some.injEq] at hx'
      exact Or.inl ⟨rfl, rfl, hx'.symm⟩
    · rw [file_of_ne _ hkey] at hx'
      refine Or.inr ⟨hx', ?_⟩
      rintro rfl
      exact hkey ⟨h.unique _ k' id' _ _ hx hx', rfl⟩
  -- every entry of the new books stands for one of the old
  have hold : ∀ k' id' x, file T (home a) id (some (a, false)) k' id' = some x →
      ∃ y, T k' id' = some y ∧ x.1 = y.1 := by
    intro k' id' x hx'
    rcases hcases k' id' x hx' with ⟨rfl, rfl, rfl⟩ | ⟨hsame, -⟩
    · exact ⟨(a, b), hx, rfl⟩
    · exact ⟨x, hsame, rfl⟩
  refine ⟨honce.2, h.deleted_once, ?_, ?_, ?_, ?_, ?_, ?_, ?_, h.deleted_lt, ?_, ?_⟩
  · exact fun d hd hmem => h.deleted_lent d hd (List.mem_cons_of_mem _ hmem)
  · intro k' id' x hx'
    obtain ⟨y, hy, -⟩ := hold k' id' x hx'
    exact h.deleted_tracked k' id' y hy
  · intro k' id' x hx'
    obtain ⟨y, hy, heq⟩ := hold k' id' x hx'
    exact heq ▸ h.filed k' id' y hy
  · intro k₁ k₂ id' x₁ x₂ h₁ h₂
    obtain ⟨y₁, hy₁, -⟩ := hold k₁ id' x₁ h₁
    obtain ⟨y₂, hy₂, -⟩ := hold k₂ id' x₂ h₂
    exact h.unique k₁ k₂ id' y₁ y₂ hy₁ hy₂
  · intro k' id' x hx'
    rcases hcases k' id' x hx' with ⟨-, rfl, rfl⟩ | ⟨hsame, hne⟩
    · simpa using honce.1
    · rw [h.lent k' id' x hsame, List.map_cons, List.mem_cons]
      exact or_iff_right hne
  · intro k' id' x c hx' hc
    obtain ⟨y, hy, heq⟩ := hold k' id' x hx'
    rw [heq]
    exact h.object k' id' y c hy (List.mem_cons_of_mem _ hc)
  · exact fun d hd => h.lent_lt d (List.mem_cons_of_mem _ hd)
  · intro k' id' x hx'
    obtain ⟨y, hy, -⟩ := hold k' id' x hx'
    exact h.tracked_lt k' id' y hy
  · intro id' hid'
    by_cases hid : id = id'
    · subst hid
      exact Or.inr (Or.inr ⟨home a, by rw [file_self]; rfl⟩)
    · rcases h.whole id' hid' with hp | hd | ⟨k', hk'⟩
      · exact Or.inl ((List.mem_cons.mp hp).resolve_left fun heq => hid heq.symm)
      · exact Or.inr (Or.inl hd)
      · refine Or.inr (Or.inr ⟨k', ?_⟩)
        rw [file_of_ne _ fun hkey => hid hkey.2]
        exact hk'

end Owned

end Custody
