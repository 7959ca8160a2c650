import Mathlib

/-!
# Parsers that look one token ahead

A parser walks over a list of tokens that ends in a marker.  It fails with an error of its
own, or by reading past the last token; that the second never happens is a condition on
what the parser reaches, which goes through a parser step by step.

A parser's language is given by two lemmas: what it takes is a word of the grammar, and it
takes a word of the grammar where what follows does not continue it.

## Main definitions

* `Parser` — a parser with its two ways to fail.
* `peek`, `advance`, `raise`, `commaList` — the head, the next token, an error, a list with
  separators.
* `Parser.Meets` — no read past the end, and a condition where the parser succeeds.
* `Ended` — a list of tokens that ends in a marker and has no other.
* `CommaList` — words with separators between them.

## Main results

* `bind_eq_ok` — a sequence succeeds step by step.
* `meets_bind`, `meets_peek`, `meets_advance`, `meets_commaList` — the rules for `Meets`.
* `commaList_sound`, `commaList_complete` — **the language of a list with separators.**
-/

namespace TokenParsers

variable {T E : Type} {α β : Type}

/-- How a parser fails. -/
inductive Failure (E : Type) where
  | error (e : E)
  /-- It reads past the last token. -/
  | pastEnd

/-- A parser over tokens. -/
def Parser (T E α : Type) := List T → Except (Failure E) (α × List T)

namespace Parser

/-- The parser that takes nothing. -/
def pure (a : α) : Parser T E α := fun ts => .ok (a, ts)

/-- One parser, then another. -/
def bind (p : Parser T E α) (f : α → Parser T E β) : Parser T E β := fun ts =>
  match p ts with
  | .ok (a, rest) => f a rest
  | .error e => .error e

end Parser

instance : Monad (Parser T E) where
  pure := Parser.pure
  bind := Parser.bind

/-- The next token, which stays. -/
def peek : Parser T E T
  | [] => .error .pastEnd
  | t :: ts => .ok (t, t :: ts)

/-- Past the next token. -/
def advance : Parser T E Unit := fun ts => .ok ((), ts.tail)

/-- An error. -/
def raise (e : E) : Parser T E α := fun _ => .error (.error e)

/-- Items with separators between them, at most `fuel` of them: an item takes a token. -/
def commaList (comma : T → Bool) (item : Parser T E α) : ℕ → Parser T E (List α)
  | 0 => fun _ => .error .pastEnd
  | fuel + 1 => do
    let a ← item
    let t ← peek
    if comma t then
      advance
      let as ← commaList comma item fuel
      return a :: as
    else return [a]

/-- As many items as there are tokens for. -/
def commaListAll (comma : T → Bool) (item : Parser T E α) : Parser T E (List α) := fun ts =>
  commaList comma item ts.length ts

/-! ### Success -/

@[simp] theorem pure_eq_ok {a b : α} {ts rest : List T} :
    (Pure.pure a : Parser T E α) ts = .ok (b, rest) ↔ a = b ∧ ts = rest := by
  show Except.ok (a, ts) = Except.ok (b, rest) ↔ _
  simp

/-- **A sequence succeeds step by step.** -/
@[simp] theorem bind_eq_ok {p : Parser T E α} {f : α → Parser T E β} {b : β} {ts rest : List T} :
    (p >>= f) ts = .ok (b, rest) ↔ ∃ a mid, p ts = .ok (a, mid) ∧ f a mid = .ok (b, rest) := by
  show Parser.bind p f ts = _ ↔ _
  unfold Parser.bind
  cases h : p ts with
  | ok r =>
    obtain ⟨a, mid⟩ := r
    simp
  | error e => simp

/-- The rest of a sequence whose first step has succeeded. -/
theorem bind_of_ok {p : Parser T E α} {f : α → Parser T E β} {a : α} {ts mid : List T}
    (h : p ts = .ok (a, mid)) : (p >>= f) ts = f a mid := by
  show Parser.bind p f ts = _
  rw [Parser.bind, h]

@[simp] theorem peek_bind_cons {f : T → Parser T E β} {t : T} {ts : List T} :
    (peek >>= f) (t :: ts) = f t (t :: ts) := rfl

@[simp] theorem advance_bind_cons {f : Unit → Parser T E β} {t : T} {ts : List T} :
    (advance >>= f) (t :: ts) = f () ts := rfl

@[simp] theorem pure_apply {a : α} {ts : List T} :
    (Pure.pure a : Parser T E α) ts = .ok (a, ts) := rfl

@[simp] theorem advance_cons {t : T} {ts : List T} :
    (advance : Parser T E Unit) (t :: ts) = .ok ((), ts) := rfl

/-- A parser that looks at the next token has one. -/
theorem peek_bind_eq_ok {f : T → Parser T E β} {b : β} {ts rest : List T} :
    (peek >>= f) ts = .ok (b, rest) ↔
      ∃ t tail, ts = t :: tail ∧ f t (t :: tail) = .ok (b, rest) := by
  cases ts with
  | nil =>
    constructor
    · intro h
      cases h
    · rintro ⟨t, tail, h, -⟩
      cases h
  | cons t tail => simp

@[simp] theorem peek_eq_ok {t : T} {ts rest : List T} :
    (peek : Parser T E T) ts = .ok (t, rest) ↔ ts = rest ∧ rest.head? = some t := by
  cases ts with
  | nil => simp only [peek, reduceCtorEq, false_iff]; rintro ⟨rfl, h⟩; cases h
  | cons u us =>
    simp only [peek, Except.ok.injEq, Prod.mk.injEq]
    constructor
    · rintro ⟨rfl, rfl⟩
      exact ⟨rfl, rfl⟩
    · rintro ⟨rfl, h⟩
      exact ⟨Option.some.inj h, rfl⟩

@[simp] theorem advance_eq_ok {u : Unit} {ts rest : List T} :
    (advance : Parser T E Unit) ts = .ok (u, rest) ↔ ts.tail = rest := by
  simp [advance]

@[simp] theorem raise_ne_ok {e : E} {a : α} {ts rest : List T} :
    ¬ (raise e : Parser T E α) ts = .ok (a, rest) := by
  simp [raise]

/-! ### No read past the end -/

/-- The parser does not read past the end, and where it succeeds the condition holds. -/
def Parser.Meets (p : Parser T E α) (ts : List T) (Q : α → List T → Prop) : Prop :=
  match p ts with
  | .ok (a, rest) => Q a rest
  | .error (.error _) => True
  | .error .pastEnd => False

theorem Parser.Meets.ne_pastEnd {p : Parser T E α} {ts : List T} {Q : α → List T → Prop}
    (h : p.Meets ts Q) : p ts ≠ .error .pastEnd := by
  intro hpast
  rw [Parser.Meets, hpast] at h
  exact h

@[simp] theorem meets_pure {a : α} {ts : List T} {Q : α → List T → Prop} :
    (Pure.pure a : Parser T E α).Meets ts Q ↔ Q a ts := Iff.rfl

@[simp] theorem meets_bind {p : Parser T E α} {f : α → Parser T E β} {ts : List T}
    {Q : β → List T → Prop} :
    (p >>= f).Meets ts Q ↔ p.Meets ts fun a rest => (f a).Meets rest Q := by
  show (Parser.bind p f).Meets ts Q ↔ _
  unfold Parser.Meets Parser.bind
  cases p ts with
  | ok r => rfl
  | error e => cases e <;> rfl

@[simp] theorem meets_raise {e : E} {ts : List T} {Q : α → List T → Prop} :
    (raise e : Parser T E α).Meets ts Q := trivial

@[simp] theorem meets_advance {ts : List T} {Q : Unit → List T → Prop} :
    (advance : Parser T E Unit).Meets ts Q ↔ Q () ts.tail := Iff.rfl

theorem Parser.Meets.mono {p : Parser T E α} {ts : List T} {Q Q' : α → List T → Prop}
    (h : p.Meets ts Q) (himp : ∀ a rest, Q a rest → Q' a rest) : p.Meets ts Q' := by
  unfold Parser.Meets at *
  split at h
  · exact himp _ _ h
  · trivial
  · exact h

/-- The tokens end in a marker, and there is no other. -/
inductive Ended (isEnd : T → Prop) : List T → Prop where
  | last {t : T} : isEnd t → Ended isEnd [t]
  | cons {t : T} {ts : List T} : ¬ isEnd t → Ended isEnd ts → Ended isEnd (t :: ts)

section

variable {isEnd : T → Prop} {ts : List T}

theorem Ended.meets_peek {Q : T → List T → Prop} (h : Ended isEnd ts)
    (hQ : ∀ t rest, ts = t :: rest → (¬ isEnd t → Ended isEnd rest) → Q t ts) :
    (peek : Parser T E T).Meets ts Q := by
  cases h with
  | last hlast => exact hQ _ _ rfl fun hnot => absurd hlast hnot
  | cons _ hrest => exact hQ _ _ rfl fun _ => hrest

/-- A list whose items leave the tokens ended, and take at least one. -/
theorem meets_commaList {comma : T → Bool} {item : Parser T E α}
    (hcomma : ∀ t, comma t = true → ¬ isEnd t)
    (hitem : ∀ {ts}, Ended isEnd ts →
      item.Meets ts fun _ rest => Ended isEnd rest ∧ rest.length < ts.length)
    {fuel : ℕ} (hts : Ended isEnd ts) (hfuel : ts.length ≤ fuel) :
    (commaList comma item fuel).Meets ts fun _ rest =>
      Ended isEnd rest ∧ rest.length < ts.length := by
  induction fuel generalizing ts with
  | zero =>
    have hnil := List.length_eq_zero_iff.mp (Nat.le_zero.mp hfuel)
    rw [hnil] at hts
    cases hts
  | succ fuel ih =>
    rw [commaList, meets_bind]
    refine (hitem hts).mono ?_
    rintro a rest ⟨hrest, hless⟩
    rw [meets_bind]
    apply hrest.meets_peek
    intro t tail heq htail
    split
    · next hsep =>
      have htail := htail (hcomma t hsep)
      rw [heq, List.length_cons] at hless
      rw [meets_bind, meets_advance, heq, List.tail_cons, meets_bind]
      refine (ih htail (by omega)).mono ?_
      rintro as rest' ⟨hrest', hless'⟩
      exact ⟨hrest', by omega⟩
    · exact ⟨hrest, hless⟩

end

/-! ### Lists with separators -/

/-- Words of items with separators between them. -/
inductive CommaList (comma : T → Prop) (G : α → List T → Prop) : List α → List T → Prop where
  | one {a : α} {used : List T} : G a used → CommaList comma G [a] used
  | cons {a : α} {as : List α} {t : T} {used rest : List T} : G a used → comma t →
      CommaList comma G as rest → CommaList comma G (a :: as) (used ++ t :: rest)

theorem CommaList.ne_nil {comma : T → Prop} {G : α → List T → Prop} {as : List α} {used : List T}
    (h : CommaList comma G as used) : as ≠ [] := by
  cases h with
  | one _ => exact List.cons_ne_nil _ _
  | cons _ _ _ => exact List.cons_ne_nil _ _

theorem CommaList.mono {comma : T → Prop} {G G' : α → List T → Prop} {as : List α}
    {used : List T} (h : CommaList comma G as used) (himp : ∀ a word, G a word → G' a word) :
    CommaList comma G' as used := by
  induction h with
  | one hG => exact .one (himp _ _ hG)
  | cons hG hcomma _ ih => exact .cons (himp _ _ hG) hcomma ih

/-- Words over what is seen of the tokens are words over the tokens. -/
theorem commaList_map_iff {S : Type} {f : T → S} {comma : S → Prop} {G : α → List S → Prop}
    {as : List α} {used : List T} :
    CommaList comma G as (used.map f) ↔
      CommaList (fun t => comma (f t)) (fun a word => G a (word.map f)) as used := by
  constructor
  · intro h
    generalize hword : used.map f = word at h
    induction h generalizing used with
    | one hG =>
      rw [← hword] at hG
      exact .one hG
    | cons hG hcomma _ ih =>
      obtain ⟨first, later, rfl, hfirst, hlater⟩ := List.map_eq_append_iff.mp hword
      obtain ⟨t, rest, rfl, rfl, hrest⟩ := List.map_eq_cons_iff.mp hlater
      rw [← hfirst] at hG
      exact .cons hG hcomma (ih hrest)
  · intro h
    induction h with
    | one hG => exact .one hG
    | cons hG hcomma _ ih =>
      rw [List.map_append, List.map_cons]
      exact .cons hG hcomma ih

section

variable {comma : T → Bool} {item : Parser T E α} {G : α → List T → Prop} {P : T → Prop}

/-- **What a list takes is a word of the grammar**, on tokens that all have a property. -/
theorem commaList_sound
    (hitem : ∀ {a ts rest}, (∀ t ∈ ts, P t) → item ts = .ok (a, rest) →
      ∃ used, ts = used ++ rest ∧ G a used)
    {fuel : ℕ} {as : List α} {ts rest : List T} (hts : ∀ t ∈ ts, P t)
    (h : commaList comma item fuel ts = .ok (as, rest)) :
    ∃ used, ts = used ++ rest ∧ CommaList (fun t => comma t = true) G as used := by
  induction fuel generalizing as ts with
  | zero => cases h
  | succ fuel ih =>
    rw [commaList, bind_eq_ok] at h
    obtain ⟨a, mid, ha, h⟩ := h
    obtain ⟨used, rfl, hG⟩ := hitem hts ha
    rw [peek_bind_eq_ok] at h
    obtain ⟨t, tail, rfl, h⟩ := h
    split at h
    · next hsep =>
      rw [advance_bind_cons] at h
      simp only [bind_eq_ok, pure_eq_ok] at h
      obtain ⟨as', last, hrest, rfl, rfl⟩ := h
      obtain ⟨used', rfl, hlist⟩ := ih
        (fun u hu => hts u (List.mem_append_right _ (List.mem_cons_of_mem _ hu))) hrest
      exact ⟨used ++ t :: used', by rw [List.append_assoc, List.cons_append],
        .cons hG hsep hlist⟩
    · rw [pure_eq_ok] at h
      obtain ⟨rfl, rfl⟩ := h
      exact ⟨used, rfl, .one hG⟩

/-- **A list takes a word of the grammar** where the items do before a separator and before
what follows, which is no separator. -/
theorem commaList_complete {follow : T → Prop}
    (hitem : ∀ {a used t rest}, G a used → (∀ u ∈ used, P u) → (comma t = true ∨ follow t) →
      used ≠ [] ∧ item (used ++ t :: rest) = .ok (a, t :: rest))
    (hfollow : ∀ t, follow t → comma t = false)
    {as : List α} {used : List T} (h : CommaList (fun t => comma t = true) G as used)
    (hused : ∀ u ∈ used, P u) {t : T} {rest : List T} (ht : follow t) {fuel : ℕ}
    (hfuel : used.length ≤ fuel) :
    commaList comma item fuel (used ++ t :: rest) = .ok (as, t :: rest) := by
  induction h generalizing fuel with
  | @one a used hG =>
    obtain ⟨hne, hitem⟩ := @hitem a used t rest hG hused (Or.inr ht)
    cases fuel with
    | zero => exact absurd (List.length_eq_zero_iff.mp (Nat.le_zero.mp hfuel)) hne
    | succ fuel =>
      rw [commaList, bind_of_ok hitem, peek_bind_cons, hfollow t ht, if_neg (by decide)]
      rfl
  | @cons a as sep used used' hG hsep _ ih =>
    obtain ⟨-, hitem⟩ := @hitem a used sep (used' ++ t :: rest) hG
      (fun u hu => hused u (List.mem_append_left _ hu)) (Or.inl hsep)
    rw [List.length_append, List.length_cons] at hfuel
    cases fuel with
    | zero => omega
    | succ fuel =>
      have hrest := @ih (fun u hu => hused u (List.mem_append_right _ (List.mem_cons_of_mem _ hu)))
        fuel (by omega)
      rw [List.append_assoc, List.cons_append, commaList, bind_of_ok hitem, peek_bind_cons,
        if_pos hsep, advance_bind_cons, bind_of_ok hrest]
      rfl

end

end TokenParsers
