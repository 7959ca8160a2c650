import Mathlib

/-!
# Logs of lines

A log is a string of lines, each ended by a separator.  Writes only append to it, and a write
may be cut short.  A reader takes what is there up to the last separator, a piece at a time.

## Main definitions

* `lines`, `unlines` — the lines of a string, and the string of some lines.
* `Whole`, `wholePart` — a string that ends with a line, and the part of one that does.
* `records` — what the lines of a string are parsed to.
* `readPiece` — a piece of a string, longer where a line does not fit.

## Main results

* `lines_append` — the lines of a string that goes on after a whole one.
* `records_cut` — **a cut-short write, ended by a separator, adds records of its lines only.**
* `readPiece_spec` — a piece has a separator where the string has one.
-/

namespace LineLog

variable {α ρ : Type*} [DecidableEq α] (nl : α)

/-- The lines of a string; what follows the last separator is no line. -/
def lines : List α → List (List α)
  | [] => []
  | c :: s =>
    if c = nl then [] :: lines s
    else
      match lines s with
      | [] => []
      | l :: ls => (c :: l) :: ls

/-- The string of some lines. -/
def unlines (ls : List (List α)) : List α := ls.flatMap fun l => l ++ [nl]

/-- The string is empty or ends with a separator. -/
def Whole (s : List α) : Prop := s = [] ∨ s.getLast? = some nl

instance (s : List α) : Decidable (Whole nl s) := inferInstanceAs (Decidable (_ ∨ _))

/-- The string up to its last separator. -/
def wholePart (s : List α) : List α := (s.reverse.dropWhile (· ≠ nl)).reverse

/-- What the lines of a string are parsed to. -/
def records (parse : List α → Option ρ) (s : List α) : List ρ := (lines nl s).filterMap parse

variable {nl}

theorem lines_nl (s : List α) : lines nl (nl :: s) = [] :: lines nl s := by
  rw [lines, if_pos rfl]

theorem lines_eq_nil_iff {s : List α} : lines nl s = [] ↔ nl ∉ s := by
  induction s with
  | nil => simp [lines]
  | cons c s ih =>
    rw [lines]
    split
    · next hc => simp [hc]
    · next hc =>
      rw [List.mem_cons, not_or, ← ih]
      cases lines nl s with
      | nil => simp [Ne.symm hc]
      | cons l ls => simp

/-- The first line. -/
theorem lines_append_nl {l : List α} (hl : nl ∉ l) (s : List α) :
    lines nl (l ++ nl :: s) = l :: lines nl s := by
  induction l with
  | nil => exact lines_nl s
  | cons c l ih =>
    rw [List.mem_cons, not_or] at hl
    rw [List.cons_append, lines, if_neg (Ne.symm hl.1), ih hl.2]

theorem lines_unlines {ls : List (List α)} (hls : ∀ l ∈ ls, nl ∉ l) :
    lines nl (unlines nl ls) = ls := by
  induction ls with
  | nil => rfl
  | cons l ls ih =>
    rw [unlines, List.flatMap_cons, List.append_assoc, List.singleton_append,
      lines_append_nl (hls l List.mem_cons_self)]
    rw [← unlines, ih fun l hl => hls l (List.mem_cons_of_mem _ hl)]

omit [DecidableEq α] in
theorem whole_nil : Whole nl ([] : List α) := .inl rfl

omit [DecidableEq α] in
theorem whole_concat (s : List α) : Whole nl (s ++ [nl]) := .inr List.getLast?_concat

omit [DecidableEq α] in
theorem Whole.append {a b : List α} (ha : Whole nl a) (hb : Whole nl b) : Whole nl (a ++ b) := by
  rcases hb with rfl | hb
  · rwa [List.append_nil]
  · right
    rw [List.getLast?_append, hb]
    rfl

/-- **The lines of a string that goes on after a whole one.** -/
theorem lines_append {a : List α} (ha : Whole nl a) (b : List α) :
    lines nl (a ++ b) = lines nl a ++ lines nl b := by
  induction a with
  | nil => rfl
  | cons c a ih =>
    have hrest : a = [] ∧ c = nl ∨ a ≠ [] ∧ Whole nl a := by
      rcases ha with ha | ha
      · cases ha
      · cases a with
        | nil => exact .inl ⟨rfl, by simpa using ha⟩
        | cons d a =>
          rw [List.getLast?_cons_cons] at ha
          exact .inr ⟨List.cons_ne_nil d a, .inr ha⟩
    rcases hrest with ⟨rfl, rfl⟩ | ⟨hne, hwhole⟩
    · rw [List.cons_append, lines_nl, lines_nl]
      rfl
    · rw [List.cons_append, lines, lines, ih hwhole]
      -- the rest of the whole string has a line
      have hmem : nl ∈ a := by
        rcases hwhole with hnil | hlast
        · exact absurd hnil hne
        · exact List.mem_of_getLast? hlast
      cases hlines : lines nl a with
      | nil => exact absurd hmem (lines_eq_nil_iff.mp hlines)
      | cons l ls =>
        split
        · rfl
        · rfl

variable {parse : List α → Option ρ}

theorem records_append {a : List α} (ha : Whole nl a) (b : List α) :
    records nl parse (a ++ b) = records nl parse a ++ records nl parse b := by
  rw [records, lines_append ha, List.filterMap_append]
  rfl

theorem lines_prefix_append (s t : List α) : lines nl s <+: lines nl (s ++ t) := by
  induction s with
  | nil => exact List.nil_prefix
  | cons c s ih =>
    rw [List.cons_append, lines, lines]
    split
    · exact List.cons_prefix_cons.mpr ⟨rfl, ih⟩
    · cases hs : lines nl s with
      | nil => exact List.nil_prefix
      | cons l ls =>
        rw [hs] at ih
        obtain ⟨t', ht'⟩ := ih
        rw [← ht']
        exact List.prefix_append _ _

/-- A log that grows keeps its records. -/
theorem records_prefix_append (parse : List α → Option ρ) (s t : List α) :
    records nl parse s <+: records nl parse (s ++ t) :=
  (lines_prefix_append s t).filterMap parse

theorem records_unlines (parse : List α → Option ρ) {ls : List (List α)} (hls : ∀ l ∈ ls, nl ∉ l) :
    records nl parse (unlines nl ls) = ls.filterMap parse := by
  rw [records, lines_unlines hls]

/-- **A cut-short write, ended by a separator, adds records of its lines only.** -/
theorem records_cut {ls : List (List α)} (hls : ∀ l ∈ ls, nl ∉ l)
    (hcut : ∀ l ∈ ls, ∀ p, p <+: l → p ≠ l → parse p = none) (hempty : parse [] = none)
    {w : List α} (hw : w <+: unlines nl ls) :
    (records nl parse (w ++ [nl])).Sublist (ls.filterMap parse) := by
  induction ls generalizing w with
  | nil =>
    rw [List.prefix_nil.mp hw, records, List.nil_append, lines_nl]
    simp [lines, hempty]
  | cons l ls ih =>
    have hrest : ∀ l' ∈ ls, nl ∉ l' := fun l' hl' => hls l' (List.mem_cons_of_mem _ hl')
    have hl : nl ∉ l := hls l List.mem_cons_self
    -- a part of the line alone
    have hpart : ∀ p, p <+: l →
        (records nl parse (p ++ [nl])).Sublist ((l :: ls).filterMap parse) := by
      intro p hp
      have hnl : nl ∉ p := fun hmem => hl (hp.subset hmem)
      have hone : records nl parse (p ++ [nl]) = (parse p).toList := by
        rw [records, lines_append_nl hnl, lines, List.filterMap_cons]
        cases parse p <;> rfl
      rw [hone]
      by_cases heq : p = l
      · rw [heq, List.filterMap_cons]
        cases parse l with
        | none => exact List.nil_sublist _
        | some r => exact (List.nil_sublist _).cons_cons r
      · rw [hcut l List.mem_cons_self p hp heq]
        exact List.nil_sublist _
    obtain ⟨t, ht⟩ := hw
    have hsplit : w ++ t = l ++ nl :: unlines nl ls := by
      rw [ht, unlines, List.flatMap_cons, List.append_assoc]
      rfl
    rcases List.append_eq_append_iff.mp hsplit with ⟨p, hp, -⟩ | ⟨w', rfl, hw'⟩
    · exact hpart w ⟨p, hp.symm⟩
    · cases w' with
      | nil =>
        rw [List.append_nil]
        exact hpart l (List.prefix_refl l)
      | cons c w' =>
        rw [List.cons_append] at hw'
        obtain ⟨rfl, htail⟩ := List.cons_eq_cons.mp hw'
        have hlater := ih hrest (fun l' hl' => hcut l' (List.mem_cons_of_mem _ hl'))
          ⟨t, htail.symm⟩
        rw [List.append_assoc, List.cons_append, records, lines_append_nl hl,
          List.filterMap_cons, List.filterMap_cons]
        cases parse l with
        | none => exact hlater
        | some r => exact hlater.cons_cons r

/-! ### Reading -/

omit [DecidableEq α] in
theorem Whole.of_append {a b : List α} (h : Whole nl (a ++ b)) (hb : b ≠ []) : Whole nl b := by
  rcases h with h | h
  · exact absurd (List.append_eq_nil_iff.mp h).2 hb
  · right
    rwa [List.getLast?_append_of_ne_nil _ hb] at h

theorem prefix_wholePart (s : List α) : wholePart nl s <+: s := by
  unfold wholePart
  rw [← List.reverse_suffix, List.reverse_reverse]
  exact List.dropWhile_suffix _

/-- What follows the last separator has none. -/
theorem exists_wholePart (s : List α) : ∃ rest, s = wholePart nl s ++ rest ∧ nl ∉ rest := by
  refine ⟨(s.reverse.takeWhile (· ≠ nl)).reverse, ?_, ?_⟩
  · rw [wholePart, ← List.reverse_append, List.takeWhile_append_dropWhile, List.reverse_reverse]
  · intro hmem
    have hne := List.mem_takeWhile_imp (List.mem_reverse.mp hmem)
    simp at hne

theorem whole_wholePart (s : List α) : Whole nl (wholePart nl s) := by
  unfold wholePart
  cases h : s.reverse.dropWhile (· ≠ nl) with
  | nil => exact .inl rfl
  | cons c rest =>
    right
    have hhead := List.head?_dropWhile_not (· ≠ nl) s.reverse
    rw [h] at hhead
    rw [List.getLast?_reverse]
    simpa using hhead

theorem lines_wholePart (s : List α) : lines nl (wholePart nl s) = lines nl s := by
  obtain ⟨rest, hs, hrest⟩ : ∃ rest, s = wholePart nl s ++ rest ∧ nl ∉ rest := exists_wholePart s
  conv => rhs; rw [hs]
  rw [lines_append (whole_wholePart s), lines_eq_nil_iff.mpr hrest, List.append_nil]

/-- Read a piece, up to twice as long as the last one while no line ends in it. -/
def readPiece (nl : α) (s : List α) (want : ℕ) (h : 0 < want) : List α :=
  if hdone : nl ∈ s.take want ∨ s.length ≤ want then s.take want
  else readPiece nl s (min s.length (2 * want)) (by
    rw [not_or] at hdone
    omega)
termination_by s.length - want
decreasing_by
  rw [not_or] at hdone
  omega

/-- **A piece is a first part of the string, and has a separator where the string has one.** -/
theorem readPiece_spec (s : List α) (want : ℕ) (h : 0 < want) :
    readPiece nl s want h <+: s ∧ (nl ∈ s → nl ∈ readPiece nl s want h) := by
  fun_induction readPiece nl s want h with
  | case1 want h hdone =>
    refine ⟨List.take_prefix _ _, fun hmem => ?_⟩
    rcases hdone with hdone | hdone
    · exact hdone
    · rwa [List.take_of_length_le hdone]
  | case2 want h _ ih => exact ih

end LineLog
