import Mathlib

/-!
# Lists in the order of a key

Scanning a range of a list that is in the order of a numeric key, and the
series that sorting by a key and dropping repeated keys makes.

## Main definitions

* `sortUnique` — the elements in the order of their keys, one for each key:
  sorting followed by the removal of consecutive equal keys.

## Main results

* `dropWhile_lt_eq_filter`, `takeWhile_lt_eq_filter` — a scan from a lower bound, and up to
  an upper bound, finds the elements of the range.
* `isLE_of_head?`, `isLE_of_getLast?` — the ends of an ordered list.
* `mem_map_key_sortUnique`, `pairwise_sortUnique` — **every key exactly once and
  in order**.
-/

namespace SortedList

section Scan

variable {α : Type*} (f : α → ℕ) {l : List α} {x : α}

omit f in
/-- Passing over the elements of a test that no element behind one that fails it passes. -/
theorem dropWhile_eq_filter {p : α → Bool} (h : l.Pairwise fun a b => p b = true → p a = true) :
    l.dropWhile p = l.filter fun a => !p a := by
  induction l with
  | nil => rfl
  | cons a l ih =>
    obtain ⟨ha, hl⟩ := List.pairwise_cons.mp h
    by_cases hp : p a = true
    · rw [List.dropWhile_cons_of_pos hp, ih hl, List.filter_cons_of_neg (by simpa using hp)]
    · rw [List.dropWhile_cons_of_neg hp]
      refine (List.filter_eq_self.mpr fun x hx => ?_).symm
      rcases List.mem_cons.mp hx with rfl | hx
      · simpa using hp
      · simpa using mt (ha x hx) hp

omit f in
/-- The elements up to the first that fails such a test. -/
theorem takeWhile_eq_filter {p : α → Bool} (h : l.Pairwise fun a b => p b = true → p a = true) :
    l.takeWhile p = l.filter p := by
  induction l with
  | nil => rfl
  | cons a l ih =>
    obtain ⟨ha, hl⟩ := List.pairwise_cons.mp h
    by_cases hp : p a = true
    · rw [List.takeWhile_cons_of_pos hp, ih hl, List.filter_cons_of_pos hp]
    · rw [List.takeWhile_cons_of_neg hp]
      refine (List.filter_eq_nil_iff.mpr fun x hx => ?_).symm
      rcases List.mem_cons.mp hx with rfl | hx
      · exact hp
      · exact mt (ha x hx) hp

omit f in
theorem drop_length_takeWhile (l : List α) (p : α → Bool) :
    l.drop (l.takeWhile p).length = l.dropWhile p := by
  have hsplit := @List.takeWhile_append_dropWhile α p l
  generalize l.takeWhile p = before at hsplit ⊢
  generalize l.dropWhile p = after at hsplit ⊢
  rw [← hsplit, List.drop_left]

omit f in
/-- The elements between the ends of two scans, of which the second goes at least as far. -/
theorem take_drop_takeWhile {p q : α → Bool} (h : ∀ x ∈ l, p x = true → q x = true) :
    (l.takeWhile p).length ≤ (l.takeWhile q).length ∧
      (l.drop (l.takeWhile p).length).take
        ((l.takeWhile q).length - (l.takeWhile p).length) = (l.dropWhile p).takeWhile q := by
  have hall : ∀ x ∈ l.takeWhile p, q x = true := fun x hx =>
    h x ((List.takeWhile_sublist p).subset hx) (List.mem_takeWhile_imp hx)
  have hlong : l.takeWhile q = l.takeWhile p ++ (l.dropWhile p).takeWhile q := by
    nth_rewrite 1 [← @List.takeWhile_append_dropWhile α p l]
    exact List.takeWhile_append_of_pos hall
  rw [hlong, List.length_append, Nat.add_sub_cancel_left, drop_length_takeWhile]
  refine ⟨Nat.le_add_right _ _, ?_⟩
  exact (List.prefix_iff_eq_take.mp (List.takeWhile_prefix q)).symm

/-- A scan from a lower bound is the elements not below it. -/
theorem dropWhile_lt_eq_filter (h : l.Pairwise fun a b => f a ≤ f b) (n : ℕ) :
    l.dropWhile (fun a => f a < n) = l.filter fun a => n ≤ f a := by
  rw [dropWhile_eq_filter]
  · refine List.filter_congr fun a _ => ?_
    rw [← decide_not, decide_eq_decide, not_lt]
  · refine h.imp fun hle hlt => ?_
    rw [decide_eq_true_eq] at hlt ⊢
    omega

/-- A scan up to an upper bound is the elements below it. -/
theorem takeWhile_lt_eq_filter (h : l.Pairwise fun a b => f a ≤ f b) (n : ℕ) :
    l.takeWhile (fun a => f a < n) = l.filter fun a => f a < n := by
  refine takeWhile_eq_filter (h.imp fun hle hlt => ?_)
  rw [decide_eq_true_eq] at hlt ⊢
  omega

theorem mem_dropWhile_lt (h : l.Pairwise fun a b => f a ≤ f b) (n : ℕ) :
    x ∈ l.dropWhile (fun a => f a < n) ↔ x ∈ l ∧ n ≤ f x := by
  rw [dropWhile_lt_eq_filter f h, List.mem_filter, decide_eq_true_eq]

theorem mem_takeWhile_lt (h : l.Pairwise fun a b => f a ≤ f b) (n : ℕ) :
    x ∈ l.takeWhile (fun a => f a < n) ↔ x ∈ l ∧ f x < n := by
  rw [takeWhile_lt_eq_filter f h, List.mem_filter, decide_eq_true_eq]

theorem pairwise_dropWhile {r : α → α → Prop} (h : l.Pairwise r) (p : α → Bool) :
    (l.dropWhile p).Pairwise r :=
  h.sublist (List.dropWhile_sublist p)

end Scan

section Ends

variable {α κ : Type*} [Ord κ] [Std.TransOrd κ] (key : α → κ) {l : List α} {x first last : α}

/-- No key of an ordered list is below its first one. -/
theorem isLE_of_head? (h : l.Pairwise fun a b => compare (key a) (key b) = .lt)
    (hfirst : l.head? = some first) (hx : x ∈ l) :
    (compare (key first) (key x)).isLE = true := by
  obtain ⟨rest, rfl⟩ := List.head?_eq_some_iff.mp hfirst
  rcases List.mem_cons.mp hx with rfl | hx
  · exact Std.ReflCmp.isLE_rfl
  · rw [(List.pairwise_cons.mp h).1 x hx]
    rfl

/-- No key of an ordered list is above its last one. -/
theorem isLE_of_getLast? (h : l.Pairwise fun a b => compare (key a) (key b) = .lt)
    (hlast : l.getLast? = some last) (hx : x ∈ l) :
    (compare (key x) (key last)).isLE = true := by
  obtain ⟨front, rfl⟩ := List.getLast?_eq_some_iff.mp hlast
  rcases List.mem_append.mp hx with hx | hx
  · rw [(List.pairwise_append.mp h).2.2 x hx last (List.mem_singleton_self last)]
    rfl
  · rw [List.mem_singleton.mp hx]
    exact Std.ReflCmp.isLE_rfl

end Ends

section SortUnique

variable {α κ : Type*} [Ord κ] (key : α → κ)

/-- Leave out the elements that follow one with their key, up to the next key. -/
def uniqueAfter : α → List α → List α
  | _, [] => []
  | last, a :: l =>
    if compare (key last) (key a) = .eq then uniqueAfter last l else a :: uniqueAfter a l

/-- Keep the first of every run of elements with the same key (`std::unique`). -/
def unique : List α → List α
  | [] => []
  | a :: l => a :: uniqueAfter key a l

/-- Sort by the key, then keep one element for each key. -/
def sortUnique (l : List α) : List α :=
  unique key (l.insertionSort fun a b => (compare (key a) (key b)).isLE = true)

variable [Std.LawfulEqOrd κ]

theorem mem_map_key_uniqueAfter {last : α} {l : List α} {k : κ} :
    k ∈ key last :: (uniqueAfter key last l).map key ↔ k ∈ key last :: l.map key := by
  induction l generalizing last with
  | nil => rfl
  | cons a l ih =>
    rw [uniqueAfter]
    split
    · next heq =>
      have hkey : key last = key a := Std.LawfulEqOrd.eq_of_compare heq
      rw [ih]
      simp [hkey]
    · rw [List.map_cons, List.mem_cons, ih, List.map_cons, ← List.mem_cons]

theorem mem_map_key_sortUnique {l : List α} {k : κ} :
    k ∈ (sortUnique key l).map key ↔ k ∈ l.map key := by
  have hunique : ∀ l : List α, k ∈ (unique key l).map key ↔ k ∈ l.map key := by
    rintro (_ | ⟨a, l⟩)
    · rfl
    · exact mem_map_key_uniqueAfter key
  unfold sortUnique
  rw [hunique]
  simp only [List.mem_map, List.mem_insertionSort]

variable [Std.TransOrd κ]

omit [Std.LawfulEqOrd κ] in
theorem pairwise_uniqueAfter {last : α} {l : List α}
    (h : (last :: l).Pairwise fun a b => (compare (key a) (key b)).isLE = true) :
    (last :: uniqueAfter key last l).Pairwise fun a b => compare (key a) (key b) = .lt := by
  induction l generalizing last with
  | nil => exact List.pairwise_singleton _ _
  | cons a l ih =>
    obtain ⟨hlast, hrest⟩ := List.pairwise_cons.mp h
    rw [uniqueAfter]
    split
    · exact ih (h.sublist ((List.sublist_cons_self a l).cons_cons last))
    · next hne =>
      have hlt : compare (key last) (key a) = .lt := by
        have hle := hlast a List.mem_cons_self
        cases hcmp : compare (key last) (key a) with
        | lt => rfl
        | eq => exact absurd hcmp hne
        | gt => rw [hcmp] at hle; cases hle
      have hafter := ih hrest
      refine List.pairwise_cons.mpr ⟨fun c hc => ?_, hafter⟩
      rcases List.mem_cons.mp hc with rfl | hc
      · exact hlt
      · exact Std.TransCmp.lt_trans hlt ((List.pairwise_cons.mp hafter).1 c hc)

omit [Std.LawfulEqOrd κ] in
theorem pairwise_sortUnique (l : List α) :
    (sortUnique key l).Pairwise fun a b => compare (key a) (key b) = .lt := by
  let le : α → α → Prop := fun a b => (compare (key a) (key b)).isLE = true
  have htrans : IsTrans α le := ⟨fun _ _ _ hab hbc => Std.TransCmp.isLE_trans hab hbc⟩
  have htotal : Std.Total le := by
    refine ⟨fun a b => ?_⟩
    have hswap : compare (key b) (key a) = (compare (key a) (key b)).swap :=
      Std.OrientedCmp.eq_swap
    simp only [le, hswap]
    cases compare (key a) (key b) <;> simp
  have hsorted : (l.insertionSort le).Pairwise le := List.pairwise_insertionSort le l
  unfold sortUnique
  cases hl : l.insertionSort le with
  | nil => exact List.Pairwise.nil
  | cons a l' =>
    rw [hl] at hsorted
    exact pairwise_uniqueAfter key hsorted

omit [Std.LawfulEqOrd κ] [Std.TransOrd κ] in
theorem uniqueAfter_of_pairwise {last : α} {l : List α}
    (h : (last :: l).Pairwise fun a b => compare (key a) (key b) = .lt) :
    uniqueAfter key last l = l := by
  induction l generalizing last with
  | nil => rfl
  | cons a l ih =>
    obtain ⟨hlast, hrest⟩ := List.pairwise_cons.mp h
    rw [uniqueAfter, if_neg, ih hrest]
    rw [hlast a List.mem_cons_self]
    exact Ordering.noConfusion

omit [Std.LawfulEqOrd κ] [Std.TransOrd κ] in
/-- An ordered list stays as it is. -/
theorem sortUnique_of_pairwise {l : List α}
    (h : l.Pairwise fun a b => compare (key a) (key b) = .lt) : sortUnique key l = l := by
  have hsorted : l.Pairwise fun a b => (compare (key a) (key b)).isLE = true := by
    refine h.imp ?_
    intro a b hlt
    rw [hlt]
    rfl
  unfold sortUnique
  rw [hsorted.insertionSort_eq]
  cases l with
  | nil => rfl
  | cons a l => rw [unique, uniqueAfter_of_pairwise key h]

end SortUnique

end SortedList
