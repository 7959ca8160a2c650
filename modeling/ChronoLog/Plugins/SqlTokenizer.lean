import ChronoLog.Lib.TokenParsers
import ChronoLog.Plugins.SqlTypes

/-!
# The tokens of an SQL statement

The tokenizer takes white space, punctuation, string literals with doubled quotes, signed
numbers and words, and rejects everything else (`chronosql_sql_parser.cpp`).

What the parser sees of a text are the kinds of its tokens and their texts, in lower case for
words.  Neither the case of letters outside literals nor the amount of white space changes
them.

## Main definitions

* `Token`, `tokenize` — the tokenizer.
* `readString`, `readDigits`, `readToken` — one token.
* `lex` — the kinds and texts of a statement's tokens.
* `CaseVariant`, `Between` — texts that differ in the case of letters, a place between two
  tokens.

## Main results

* `lex_caseVariant` — the case of letters outside literals does not matter.
* `lex_append_space` — **white space ends a token and is otherwise ignored.**
* `lex_respaced` — nor does it matter between two tokens.
* `tokenize_ended` — the tokens end in the marker, and there is no other.
-/

namespace ChronoLog.Plugins

inductive Tok where
  | Ident
  | StringLit
  | Integer
  | Decimal
  | LParen
  | RParen
  | Comma
  | Semicolon
  | Equals
  | Star
  | End
  deriving DecidableEq, Repr

/-- A token: its text, in lower case for a word, the text as it stands, and its offset. -/
structure Token where
  kind : Tok
  text : Bytes
  original : Bytes
  pos : ℕ
  deriving DecidableEq, Repr

/-- The `std::invalid_argument` of a parse error, which names an offset. -/
structure ParseError where
  pos : ℕ
  message : Bytes
  deriving DecidableEq, Repr

/-- The quote of a string literal. -/
def quote : UInt8 := 39

/-- A character of a word. -/
def isWord (c : UInt8) : Bool := isalnum c || c = 95

/-- `readString` after the opening quote: the content and what follows the closing one. -/
def readString : Bytes → Option (Bytes × Bytes)
  | [] => none
  | [c] => if c = quote then some ([], []) else none
  | c :: d :: rest =>
    if c = quote then
      if d = quote then (readString rest).map fun r => (quote :: r.1, r.2) else some ([], d :: rest)
    else (readString (d :: rest)).map fun r => (c :: r.1, r.2)

/-- The loop of `readNumber`: the digits with at most one dot, whether there was one, and what
follows. -/
def readDigits (seenDot : Bool) : Bytes → Bytes × Bool × Bytes
  | [] => ([], seenDot, [])
  | c :: rest =>
    if isdigit c then
      let r := readDigits seenDot rest
      (c :: r.1, r.2)
    else if c = 46 && !seenDot then
      let r := readDigits true rest
      (c :: r.1, r.2)
    else ([], seenDot, c :: rest)

/-- A sign. -/
def isSign (c : UInt8) : Bool := c = 45 || c = 43

/-- The punctuation marks. -/
def punctuation (c : UInt8) : Option Tok :=
  if c = 44 then some .Comma
  else if c = 40 then some .LParen
  else if c = 41 then some .RParen
  else if c = 59 then some .Semicolon
  else if c = 61 then some .Equals
  else if c = 42 then some .Star
  else none

/-- A token that was read, and what follows it. -/
structure Lexed where
  kind : Tok
  text : Bytes
  original : Bytes
  rest : Bytes

/-- The token that starts with a character that is no white space, or why there is none. -/
def readToken (c : UInt8) (tail : Bytes) : Except Bytes Lexed :=
  match punctuation c with
  | some kind => .ok ⟨kind, [c], [c], tail⟩
  | none =>
    if c = quote then
      match readString tail with
      | some (out, rest) => .ok ⟨.StringLit, out, out, rest⟩
      | none => .error (ascii "unterminated string literal")
    else if isdigit c || isSign c then
      if isSign c && !(tail.head?.any isdigit) then .error (ascii "unexpected character")
      else
        let r := if isSign c then readDigits false tail else readDigits false (c :: tail)
        let lex := if isSign c then c :: r.1 else r.1
        .ok ⟨if r.2.1 then .Decimal else .Integer, lex, lex, r.2.2⟩
    else if isalpha c || c = 95 then
      let original := (c :: tail).takeWhile isWord
      .ok ⟨.Ident, original.map tolower, original, (c :: tail).dropWhile isWord⟩
    else .error (ascii "unexpected character")

theorem length_readString {s out rest : Bytes} (h : readString s = some (out, rest)) :
    rest.length ≤ s.length := by
  fun_induction readString s generalizing out with
  | case1 => cases h
  | case2 =>
    cases h
    exact Nat.zero_le _
  | case3 c hc => cases h
  | case4 tail ih =>
    obtain ⟨r, hr, heq⟩ := Option.map_eq_some_iff.mp h
    cases heq
    have hle := @ih r.1 hr
    simp only [List.length_cons]
    omega
  | case5 d tail hd =>
    cases h
    simp
  | case6 c d tail hc ih =>
    obtain ⟨r, hr, heq⟩ := Option.map_eq_some_iff.mp h
    cases heq
    have hle := @ih r.1 hr
    simp only [List.length_cons] at *
    omega

theorem readDigits_append (seenDot : Bool) (s : Bytes) :
    (readDigits seenDot s).1 ++ (readDigits seenDot s).2.2 = s := by
  fun_induction readDigits seenDot s with
  | case1 => rfl
  | case2 seenDot c rest h r ih => simpa using ih
  | case3 seenDot c rest h h' r ih => simpa using ih
  | case4 => rfl

theorem readToken_punctuation {c : UInt8} {kind : Tok} (h : punctuation c = some kind)
    (tail : Bytes) : readToken c tail = .ok ⟨kind, [c], [c], tail⟩ := by
  rw [readToken, h]

theorem readToken_quote (tail : Bytes) : readToken quote tail =
    match readString tail with
    | some (out, rest) => .ok ⟨.StringLit, out, out, rest⟩
    | none => .error (ascii "unterminated string literal") := by
  rw [readToken, show punctuation quote = none by decide, if_pos rfl]

/-- A number, which starts with a digit or with a sign before one. -/
theorem readToken_number {c : UInt8} (h : isdigit c = true ∨ isSign c = true) (tail : Bytes) :
    readToken c tail =
      if isSign c && !(tail.head?.any isdigit) then .error (ascii "unexpected character")
      else
        let r := if isSign c then readDigits false tail else readDigits false (c :: tail)
        let lex := if isSign c then c :: r.1 else r.1
        .ok ⟨if r.2.1 then .Decimal else .Integer, lex, lex, r.2.2⟩ := by
  have hpunctuation : punctuation c = none := by
    simp only [punctuation, ← UInt8.toNat_inj]
    simp only [isdigit, isSign, ← UInt8.toNat_inj] at h
    simp at h ⊢
    grind
  have hquote : c ≠ quote := by
    rintro rfl
    revert h
    decide
  have hnumber : (isdigit c || isSign c) = true := by simpa using h
  rw [readToken, hpunctuation]
  simp only [if_neg hquote, hnumber, if_true]

/-- A word, which starts with a letter or an underscore. -/
theorem readToken_word {c : UInt8} (h : isalpha c = true ∨ c = 95) (tail : Bytes) :
    readToken c tail = .ok ⟨.Ident, ((c :: tail).takeWhile isWord).map tolower,
      (c :: tail).takeWhile isWord, (c :: tail).dropWhile isWord⟩ := by
  have hpunctuation : punctuation c = none := by
    simp only [punctuation, ← UInt8.toNat_inj]
    simp only [isalpha, isupper, islower, ← UInt8.toNat_inj] at h
    simp at h ⊢
    grind
  have hquote : c ≠ quote := by
    rintro rfl
    revert h
    decide
  have hnumber : (isdigit c || isSign c) = false := by
    simp only [isdigit, isSign, ← UInt8.toNat_inj]
    simp only [isalpha, isupper, islower, ← UInt8.toNat_inj] at h
    simp at h ⊢
    omega
  have hword : (isalpha c || c = 95) = true := by simpa using h
  rw [readToken, hpunctuation]
  simp only [if_neg hquote, hnumber, Bool.false_eq_true, if_false, hword, if_true]

/-- What a token starts with. -/
theorem head_cases (c : UInt8) : (∃ kind, punctuation c = some kind) ∨ c = quote ∨
    (isdigit c = true ∨ isSign c = true) ∨ (isalpha c = true ∨ c = 95) ∨
    ∀ tail, readToken c tail = .error (ascii "unexpected character") := by
  cases hp : punctuation c with
  | some kind => exact Or.inl ⟨kind, rfl⟩
  | none =>
    by_cases hq : c = quote
    · exact Or.inr (Or.inl hq)
    · by_cases hn : isdigit c = true ∨ isSign c = true
      · exact Or.inr (Or.inr (Or.inl hn))
      · by_cases hw : isalpha c = true ∨ c = 95
        · exact Or.inr (Or.inr (Or.inr (Or.inl hw)))
        · refine Or.inr (Or.inr (Or.inr (Or.inr fun tail => ?_)))
          rw [readToken, hp]
          simp only [if_neg hq]
          rw [if_neg (by simpa using hn), if_neg (by simpa using hw)]

/-- A character of a word is a letter, a digit or an underscore. -/
theorem isWord_of_head {c : UInt8} (h : isalpha c = true ∨ c = 95) : isWord c = true := by
  rcases h with ha | rfl
  · rw [isWord, isalnum, ha]
    rfl
  · decide

/-- A token takes a character at least. -/
theorem length_readToken {c : UInt8} {tail : Bytes} {lexed : Lexed}
    (h : readToken c tail = .ok lexed) : lexed.rest.length ≤ tail.length := by
  have hdigits : ∀ s, (readDigits false s).2.2.length ≤ s.length := by
    intro s
    have hlen := congrArg List.length (readDigits_append false s)
    rw [List.length_append] at hlen
    omega
  rcases head_cases c with ⟨kind, hp⟩ | rfl | hn | hw | herror
  · rw [readToken_punctuation hp] at h
    cases h
    exact Nat.le_refl _
  · rw [readToken_quote] at h
    split at h
    · next hstring =>
      cases h
      exact length_readString hstring
    · cases h
  · rw [readToken_number hn] at h
    split at h
    · cases h
    · cases h
      dsimp only
      split
      · exact hdigits tail
      · next hs =>
        -- the number starts with a digit
        have hdigit : isdigit c = true := hn.resolve_right hs
        have hle := hdigits tail
        simpa only [readDigits, hdigit, if_true] using hle
  · rw [readToken_word hw] at h
    cases h
    simp only [List.dropWhile_cons, isWord_of_head hw, if_true]
    exact List.length_dropWhile_le _ _
  · rw [herror] at h
    cases h

/-- `tokenize` from an offset. -/
def tokenizeFrom (pos : ℕ) : Bytes → Except ParseError (List Token)
  | [] => .ok [⟨.End, [], [], pos⟩]
  | c :: tail =>
    if isspace c then tokenizeFrom (pos + 1) tail
    else
      match _h : readToken c tail with
      | .error message => .error ⟨pos, message⟩
      | .ok lexed =>
        match tokenizeFrom (pos + (tail.length + 1 - lexed.rest.length)) lexed.rest with
        | .error e => .error e
        | .ok tokens => .ok (⟨lexed.kind, lexed.text, lexed.original, pos⟩ :: tokens)
termination_by s => s.length
decreasing_by
  · simp
  · have hle := length_readToken _h
    simp only [List.length_cons]
    omega

/-- `tokenize`. -/
def tokenize (src : Bytes) : Except ParseError (List Token) := tokenizeFrom 0 src

/-! ### Kinds and texts -/

/-- What the parser sees of a token. -/
structure Lexeme where
  kind : Tok
  text : Bytes
  deriving DecidableEq, Repr

/-- What the parser sees of a token. -/
def Token.lexeme (t : Token) : Lexeme := ⟨t.kind, t.text⟩

/-- The marker at the end. -/
def endMark : Lexeme := ⟨.End, []⟩

/-- The kinds and texts of a statement's tokens; `none` where the tokenizer throws. -/
def lex (src : Bytes) : Option (List Lexeme) :=
  (tokenize src).toOption.map fun tokens => tokens.map Token.lexeme

/-- They do not depend on the offset. -/
theorem lexeme_tokenizeFrom (pos : ℕ) (src : Bytes) :
    ((tokenizeFrom pos src).toOption.map fun tokens => tokens.map Token.lexeme) = lex src := by
  unfold lex tokenize
  generalize (0 : ℕ) = pos'
  induction hn : src.length using Nat.strong_induction_on generalizing src pos pos' with
  | _ n ih =>
    cases src with
    | nil => simp [tokenizeFrom, Except.toOption, Token.lexeme]
    | cons c tail =>
      rw [tokenizeFrom, tokenizeFrom]
      split
      · exact ih tail.length (by rw [← hn]; simp) _ _ _ rfl
      · split
        · rfl
        · next lexed h =>
          have hle := length_readToken h
          have hrest := fun pos pos' => ih lexed.rest.length
            (by rw [← hn, List.length_cons]; omega) pos lexed.rest pos' rfl
          have hsame := hrest (pos + (tail.length + 1 - lexed.rest.length))
            (pos' + (tail.length + 1 - lexed.rest.length))
          generalize tokenizeFrom (pos + (tail.length + 1 - lexed.rest.length)) lexed.rest = x
            at hsame ⊢
          generalize tokenizeFrom (pos' + (tail.length + 1 - lexed.rest.length)) lexed.rest = y
            at hsame ⊢
          cases x <;> cases y <;> simp_all [Except.toOption, Token.lexeme]

theorem lex_nil : lex [] = some [endMark] := by
  simp [lex, tokenize, tokenizeFrom, Except.toOption, Token.lexeme, endMark]

theorem lex_space {c : UInt8} (h : isspace c = true) (tail : Bytes) :
    lex (c :: tail) = lex tail := by
  rw [lex, tokenize, tokenizeFrom, if_pos h]
  exact lexeme_tokenizeFrom _ tail

theorem lex_cons {c : UInt8} {tail : Bytes} {lexed : Lexed} (hspace : isspace c = false)
    (h : readToken c tail = .ok lexed) :
    lex (c :: tail) = (lex lexed.rest).map (⟨lexed.kind, lexed.text⟩ :: ·) := by
  rw [lex, tokenize, tokenizeFrom, if_neg (by simp [hspace]),
    ← lexeme_tokenizeFrom (0 + (tail.length + 1 - lexed.rest.length)) lexed.rest]
  split
  · next h' => rw [h] at h'; cases h'
  · next h' =>
    rw [h] at h'
    cases h'
    cases tokenizeFrom (0 + (tail.length + 1 - lexed.rest.length)) lexed.rest with
    | error e => rfl
    | ok tokens => simp [Except.toOption, Token.lexeme]

theorem lex_error {c : UInt8} {tail message : Bytes} (hspace : isspace c = false)
    (h : readToken c tail = .error message) : lex (c :: tail) = none := by
  rw [lex, tokenize, tokenizeFrom, if_neg (by simp [hspace])]
  split
  · rfl
  · next h' => rw [h] at h'; cases h'

/-! ### The case of letters -/

/-- Texts that differ in the case of letters outside string literals; the flag says whether
they start within one. -/
def CaseVariant : Bool → Bytes → Bytes → Prop
  | _, [], [] => True
  | inside, c :: s, d :: s' =>
    (if inside then c = d else tolower c = tolower d) ∧
      CaseVariant (if c = quote then !inside else inside) s s'
  | _, [], _ :: _ => False
  | _, _ :: _, [] => False

theorem isspace_tolower (c : UInt8) : isspace (tolower c) = isspace c := by
  simp only [isspace, toNat_tolower]
  grind

theorem isdigit_tolower (c : UInt8) : isdigit (tolower c) = isdigit c := by
  simp only [isdigit, toNat_tolower]
  grind

theorem isalpha_tolower (c : UInt8) : isalpha (tolower c) = isalpha c := by
  simp only [isalpha, isupper, islower, toNat_tolower]
  grind

/-- The characters that are no letters have no case. -/
theorem tolower_of_not_alpha {c : UInt8} (h : isalpha c = false) : tolower c = c := by
  unfold tolower
  rw [isalpha, Bool.or_eq_false_iff] at h
  rw [h.1]
  rfl

theorem eq_of_tolower_eq {c d : UInt8} (h : tolower c = tolower d) (hc : isalpha c = false) :
    c = d := by
  have hd : isalpha d = false := by rw [← isalpha_tolower, ← h, isalpha_tolower, hc]
  rwa [tolower_of_not_alpha hc, tolower_of_not_alpha hd] at h

theorem isWord_congr {c d : UInt8} (h : tolower c = tolower d) : isWord c = isWord d := by
  cases hc : isalpha c with
  | false => rw [eq_of_tolower_eq h hc]
  | true =>
    have hd : isalpha d = true := by rw [← isalpha_tolower, ← h, isalpha_tolower, hc]
    simp [isWord, isalnum, hc, hd]

theorem eq_quote_iff {c d : UInt8} (h : tolower c = tolower d) : c = quote ↔ d = quote := by
  constructor
  · intro hc
    rw [← eq_of_tolower_eq h (by rw [hc]; decide), hc]
  · intro hd
    rw [← eq_of_tolower_eq h.symm (by rw [hd]; decide), hd]

theorem CaseVariant.symm {inside : Bool} {s s' : Bytes} (h : CaseVariant inside s s') :
    CaseVariant inside s' s := by
  induction s generalizing inside s' with
  | nil =>
    cases s' with
    | nil => trivial
    | cons d s' => exact h.elim
  | cons c s ih =>
    cases s' with
    | nil => exact h.elim
    | cons d s' =>
      obtain ⟨hhead, htail⟩ := h
      have hlower : tolower c = tolower d := by
        split at hhead
        · rw [hhead]
        · exact hhead
      refine ⟨?_, ?_⟩
      · split at hhead
        · next hinside => rw [if_pos hinside, hhead]
        · next hinside => rw [if_neg hinside, hhead]
      · simp only [eq_quote_iff hlower] at htail
        exact ih htail

theorem readString_caseVariant {s s' out rest : Bytes} (h : CaseVariant true s s')
    (hread : readString s = some (out, rest)) :
    ∃ rest', readString s' = some (out, rest') ∧ CaseVariant false rest rest' := by
  fun_induction readString s generalizing s' out with
  | case1 => cases hread
  | case2 =>
    cases hread
    cases s' with
    | nil => exact h.elim
    | cons c s' =>
      obtain ⟨rfl, htail⟩ := h
      cases s' with
      | nil => exact ⟨[], rfl, trivial⟩
      | cons d s' => exact htail.elim
  | case3 c hc => cases hread
  | case4 tail ih =>
    obtain ⟨r, hr, heq⟩ := Option.map_eq_some_iff.mp hread
    cases heq
    cases s' with
    | nil => exact h.elim
    | cons c s' =>
      obtain ⟨rfl, htail⟩ := h
      cases s' with
      | nil => exact htail.elim
      | cons d s' =>
        obtain ⟨hd, hrest⟩ := htail
        obtain rfl : d = quote := (eq_quote_iff (by simpa using hd)).mp rfl
        obtain ⟨rest', hread', hvariant⟩ := @ih s' r.1 (by simpa using hrest) hr
        exact ⟨rest', by simp [readString, hread'], hvariant⟩
  | case5 d tail hd =>
    cases hread
    cases s' with
    | nil => exact h.elim
    | cons c s' =>
      obtain ⟨rfl, htail⟩ := h
      cases s' with
      | nil => exact htail.elim
      | cons d' s' =>
        have hne : d' ≠ quote := by
          intro heq
          exact hd ((eq_quote_iff (by simpa using htail.1)).mpr heq)
        exact ⟨d' :: s', by simp [readString, hne], by simpa using htail⟩
  | case6 c d tail hc ih =>
    obtain ⟨r, hr, heq⟩ := Option.map_eq_some_iff.mp hread
    cases heq
    cases s' with
    | nil => exact h.elim
    | cons c' s' =>
      obtain ⟨rfl, htail⟩ := h
      simp only [hc, if_false] at htail
      obtain ⟨rest', hread', hvariant⟩ := @ih s' r.1 htail hr
      cases s' with
      | nil => exact htail.elim
      | cons d' s' => exact ⟨rest', by simp [readString, hc, hread'], hvariant⟩

/-- Within a text that starts outside literals, a head that is no quote is followed by one. -/
theorem CaseVariant.tail {c d : UInt8} {s s' : Bytes} (h : CaseVariant false (c :: s) (d :: s'))
    (hc : c ≠ quote) : CaseVariant false s s' := by
  have htail := h.2
  rwa [if_neg hc] at htail

theorem readDigits_caseVariant {seenDot : Bool} {s s' : Bytes} (h : CaseVariant false s s') :
    (readDigits seenDot s').1 = (readDigits seenDot s).1 ∧
      (readDigits seenDot s').2.1 = (readDigits seenDot s).2.1 ∧
      CaseVariant false (readDigits seenDot s).2.2 (readDigits seenDot s').2.2 := by
  induction s generalizing seenDot s' with
  | nil =>
    cases s' with
    | nil => exact ⟨rfl, rfl, trivial⟩
    | cons d s' => exact h.elim
  | cons c s ih =>
    cases s' with
    | nil => exact h.elim
    | cons d s' =>
      have hlower : tolower c = tolower d := by simpa using h.1
      have hdigit : isdigit d = isdigit c := by rw [← isdigit_tolower, ← hlower, isdigit_tolower]
      have hdot : d = 46 ↔ c = 46 := by
        constructor
        · intro hd
          rw [← eq_of_tolower_eq hlower.symm (by rw [hd]; decide), hd]
        · intro hc
          rw [← eq_of_tolower_eq hlower (by rw [hc]; decide), hc]
      -- a digit or a dot is the same in both
      have hsame : isdigit c = true ∨ c = 46 → d = c ∧ CaseVariant false s s' := by
        intro hor
        have halpha : isalpha c = false := by
          rcases hor with hdig | rfl
          · simp only [isdigit, isalpha, isupper, islower] at *
            grind
          · decide
        have hquote : c ≠ quote := by
          rintro rfl
          rcases hor with hdig | hd
          · revert hdig
            decide
          · revert hd
            decide
        exact ⟨(eq_of_tolower_eq hlower halpha).symm, h.tail hquote⟩
      unfold readDigits
      simp only [hdigit, hdot]
      split
      · next hdig =>
        obtain ⟨rfl, htail⟩ := hsame (Or.inl hdig)
        obtain ⟨hfst, hseen, hvariant⟩ := @ih seenDot s' htail
        exact ⟨by rw [hfst], hseen, hvariant⟩
      · split
        · next hdot' =>
          rw [Bool.and_eq_true, decide_eq_true_iff] at hdot'
          obtain ⟨rfl, htail⟩ := hsame (Or.inr hdot'.1)
          obtain ⟨hfst, hseen, hvariant⟩ := @ih true s' htail
          exact ⟨by rw [hfst], hseen, hvariant⟩
        · exact ⟨rfl, rfl, h⟩

theorem word_caseVariant {s s' : Bytes} (h : CaseVariant false s s') :
    (s'.takeWhile isWord).map tolower = (s.takeWhile isWord).map tolower ∧
      CaseVariant false (s.dropWhile isWord) (s'.dropWhile isWord) := by
  induction s generalizing s' with
  | nil =>
    cases s' with
    | nil => exact ⟨rfl, trivial⟩
    | cons d s' => exact h.elim
  | cons c s ih =>
    cases s' with
    | nil => exact h.elim
    | cons d s' =>
      have hlower : tolower c = tolower d := by simpa using h.1
      rw [List.takeWhile_cons, List.takeWhile_cons, List.dropWhile_cons, List.dropWhile_cons,
        ← isWord_congr hlower]
      split
      · next hw =>
        have hquote : c ≠ quote := by
          rintro rfl
          revert hw
          decide
        obtain ⟨hmap, hvariant⟩ := ih (h.tail hquote)
        exact ⟨by rw [List.map_cons, List.map_cons, hmap, hlower], hvariant⟩
      · exact ⟨rfl, h⟩

theorem readToken_caseVariant {c d : UInt8} {tail tail' : Bytes} {lexed : Lexed}
    (h : CaseVariant false (c :: tail) (d :: tail')) (hread : readToken c tail = .ok lexed) :
    ∃ lexed', readToken d tail' = .ok lexed' ∧ lexed'.kind = lexed.kind ∧
      lexed'.text = lexed.text ∧ CaseVariant false lexed.rest lexed'.rest := by
  have hlower : tolower c = tolower d := by simpa using h.1
  rcases head_cases c with ⟨kind, hp⟩ | rfl | hn | hw | herror
  · have hne : c ≠ quote ∧ isalpha c = false := by
      simp only [punctuation, ← UInt8.toNat_inj] at hp
      simp only [quote, ne_eq, ← UInt8.toNat_inj, isalpha, isupper, islower]
      simp at hp ⊢
      grind
    obtain rfl := eq_of_tolower_eq hlower hne.2
    rw [readToken_punctuation hp] at hread
    cases hread
    exact ⟨_, readToken_punctuation hp tail', rfl, rfl, h.tail hne.1⟩
  · obtain rfl := (eq_quote_iff hlower).mp rfl
    rw [readToken_quote] at hread
    split at hread
    · next out rest hstring =>
      cases hread
      obtain ⟨rest', hstring', hvariant⟩ := readString_caseVariant h.2 hstring
      exact ⟨⟨.StringLit, out, out, rest'⟩, by rw [readToken_quote, hstring'], rfl, rfl, hvariant⟩
    · cases hread
  · have hne : c ≠ quote ∧ isalpha c = false := by
      simp only [quote, ne_eq, isdigit, isSign, isalpha, isupper, islower, ← UInt8.toNat_inj] at *
      simp at hn ⊢
      omega
    obtain rfl := eq_of_tolower_eq hlower hne.2
    have htail := h.tail hne.1
    have hhead : tail'.head?.any isdigit = tail.head?.any isdigit := by
      cases tail with
      | nil =>
        cases tail' with
        | nil => rfl
        | cons e tail' => exact htail.elim
      | cons e tail =>
        cases tail' with
        | nil => exact htail.elim
        | cons e' tail' =>
          have hsame : tolower e = tolower e' := by simpa using htail.1
          rw [List.head?_cons, List.head?_cons, Option.any_some, Option.any_some,
            ← isdigit_tolower, ← hsame, isdigit_tolower]
    rw [readToken_number hn] at hread ⊢
    rw [hhead]
    split at hread
    · cases hread
    · next hdigit =>
      rw [if_neg hdigit]
      cases hread
      refine ⟨_, rfl, ?_⟩
      dsimp only
      split
      · obtain ⟨hfst, hseen, hvariant⟩ := @readDigits_caseVariant false _ _ htail
        rw [hfst, hseen]
        exact ⟨rfl, rfl, hvariant⟩
      · obtain ⟨hfst, hseen, hvariant⟩ := @readDigits_caseVariant false _ _ h
        rw [hfst, hseen]
        exact ⟨rfl, rfl, hvariant⟩
  · have hd : isalpha d = true ∨ d = 95 := by
      rcases hw with ha | rfl
      · exact Or.inl (by rw [← isalpha_tolower, ← hlower, isalpha_tolower, ha])
      · exact Or.inr (eq_of_tolower_eq hlower (by decide)).symm
    rw [readToken_word hw] at hread
    cases hread
    obtain ⟨hmap, hvariant⟩ := word_caseVariant h
    exact ⟨_, readToken_word hd tail', rfl, hmap, hvariant⟩
  · rw [herror] at hread
    cases hread

theorem lex_of_caseVariant {s s' : Bytes} {lexemes : List Lexeme} (h : CaseVariant false s s')
    (hlex : lex s = some lexemes) : lex s' = some lexemes := by
  induction hn : s.length using Nat.strong_induction_on generalizing s s' lexemes with
  | _ n ih =>
    cases s with
    | nil =>
      cases s' with
      | nil => exact hlex
      | cons d s' => exact h.elim
    | cons c tail =>
      cases s' with
      | nil => exact h.elim
      | cons d tail' =>
        have hlower : tolower c = tolower d := by simpa using h.1
        have hspace : isspace d = isspace c := by
          rw [← isspace_tolower, ← hlower, isspace_tolower]
        cases hc : isspace c with
        | true =>
          have hquote : c ≠ quote := by
            rintro rfl
            revert hc
            decide
          rw [lex_space hc] at hlex
          rw [lex_space (by rw [hspace, hc])]
          exact ih tail.length (by rw [← hn]; simp) (h.tail hquote) hlex rfl
        | false =>
          cases hread : readToken c tail with
          | error message =>
            rw [lex_error hc hread] at hlex
            cases hlex
          | ok lexed =>
            obtain ⟨lexed', hread', hkind, htext, hvariant⟩ := readToken_caseVariant h hread
            rw [lex_cons hc hread, Option.map_eq_some_iff] at hlex
            obtain ⟨rest, hrest, rfl⟩ := hlex
            have hle := length_readToken hread
            have hlater := ih lexed.rest.length (by rw [← hn, List.length_cons]; omega) hvariant
              hrest rfl
            rw [lex_cons (by rw [hspace, hc]) hread', hlater, hkind, htext]
            rfl

/-- **The case of letters outside literals does not matter.** -/
theorem lex_caseVariant {s s' : Bytes} (h : CaseVariant false s s') : lex s = lex s' := by
  apply Option.ext
  intro lexemes
  exact ⟨lex_of_caseVariant h, lex_of_caseVariant h.symm⟩

/-! ### White space -/

/-- Whether a text ends within a string literal. -/
def endsInside : Bool → Bytes → Bool
  | inside, [] => inside
  | inside, c :: s => endsInside (if c = quote then !inside else inside) s

/-- The character ends a token. -/
def Stops (c : UInt8) : Prop := isWord c = false ∧ isdigit c = false ∧ c ≠ 46 ∧ c ≠ quote

theorem stops_of_isspace {c : UInt8} (h : isspace c = true) : Stops c := by
  simp only [Stops, isWord, isalnum, isalpha, isupper, islower, isdigit, quote, isspace, ne_eq,
    ← UInt8.toNat_inj] at *
  simp at h ⊢
  omega

/-- A literal that is closed leaves the text after it outside. -/
theorem readString_append {s out rest : Bytes} {w : UInt8} {b : Bytes}
    (h : readString s = some (out, rest)) (hw : w ≠ quote) :
    readString (s ++ w :: b) = some (out, rest ++ w :: b) ∧
      endsInside true s = endsInside false rest := by
  fun_induction readString s generalizing out with
  | case1 => cases h
  | case2 =>
    cases h
    simp [readString, hw, endsInside]
  | case3 c hc => cases h
  | case4 tail ih =>
    obtain ⟨r, hr, heq⟩ := Option.map_eq_some_iff.mp h
    cases heq
    obtain ⟨happend, hinside⟩ := @ih r.1 hr
    simp [readString, happend, endsInside, hinside]
  | case5 d tail hd =>
    cases h
    simp [readString, hd, endsInside]
  | case6 c d tail hc ih =>
    obtain ⟨r, hr, heq⟩ := Option.map_eq_some_iff.mp h
    cases heq
    obtain ⟨happend, hinside⟩ := @ih r.1 hr
    rw [List.cons_append] at happend
    refine ⟨by simp [readString, hc, happend], ?_⟩
    rw [endsInside, if_neg hc]
    exact hinside

/-- A literal that is not closed leaves the text inside. -/
theorem endsInside_of_readString {s : Bytes} (h : readString s = none) :
    endsInside true s = true := by
  fun_induction readString s with
  | case1 => rfl
  | case2 => cases h
  | case3 c hc => simp [endsInside, hc]
  | case4 tail ih =>
    rw [Option.map_eq_none_iff] at h
    simpa [endsInside] using ih h
  | case5 d tail hd => cases h
  | case6 c d tail hc ih =>
    rw [Option.map_eq_none_iff] at h
    rw [endsInside, if_neg hc]
    exact ih h

theorem readDigits_append_stop {seenDot : Bool} {s : Bytes} {w : UInt8} {b : Bytes}
    (hw : Stops w) :
    readDigits seenDot (s ++ w :: b) =
      ((readDigits seenDot s).1, (readDigits seenDot s).2.1,
        (readDigits seenDot s).2.2 ++ w :: b) := by
  induction s generalizing seenDot with
  | nil =>
    obtain ⟨-, hdigit, hdot, -⟩ := hw
    simp [readDigits, hdigit, hdot]
  | cons c s ih =>
    simp only [List.cons_append, readDigits, ih]
    split
    · rfl
    · split <;> rfl

theorem endsInside_readDigits (seenDot : Bool) (s : Bytes) :
    endsInside false (readDigits seenDot s).2.2 = endsInside false s := by
  have hnot : ∀ c : UInt8, isdigit c = true ∨ c = 46 → c ≠ quote := by
    rintro c hor rfl
    revert hor
    decide
  fun_induction readDigits seenDot s with
  | case1 => rfl
  | case2 seenDot c rest h r ih =>
    rw [endsInside, if_neg (hnot c (Or.inl h))]
    exact ih
  | case3 seenDot c rest h h' r ih =>
    rw [Bool.and_eq_true, decide_eq_true_iff] at h'
    rw [endsInside, if_neg (hnot c (Or.inr h'.1))]
    exact ih
  | case4 => rfl

theorem word_append_stop {s : Bytes} {w : UInt8} {b : Bytes} (hw : isWord w = false) :
    (s ++ w :: b).takeWhile isWord = s.takeWhile isWord ∧
      (s ++ w :: b).dropWhile isWord = s.dropWhile isWord ++ w :: b := by
  induction s with
  | nil => simp [hw]
  | cons c s ih =>
    rw [List.cons_append, List.takeWhile_cons, List.takeWhile_cons, List.dropWhile_cons,
      List.dropWhile_cons]
    split
    · exact ⟨by rw [ih.1], ih.2⟩
    · exact ⟨rfl, rfl⟩

theorem endsInside_dropWhile (s : Bytes) :
    endsInside false (s.dropWhile isWord) = endsInside false s := by
  induction s with
  | nil => rfl
  | cons c s ih =>
    rw [List.dropWhile_cons]
    split
    · next hw =>
      have hquote : c ≠ quote := by
        rintro rfl
        revert hw
        decide
      rw [endsInside, if_neg hquote]
      exact ih
    · rfl

/-- **A token does not depend on what follows a character that ends it.** -/
theorem readToken_append {c w : UInt8} {tail b : Bytes} {lexed : Lexed} (hw : Stops w)
    (h : readToken c tail = .ok lexed) :
    readToken c (tail ++ w :: b) = .ok { lexed with rest := lexed.rest ++ w :: b } ∧
      endsInside false (c :: tail) = endsInside false lexed.rest := by
  rcases head_cases c with ⟨kind, hp⟩ | rfl | hn | hword | herror
  · rw [readToken_punctuation hp] at h ⊢
    cases h
    have hquote : c ≠ quote := by
      rintro rfl
      rw [show punctuation quote = none by decide] at hp
      cases hp
    exact ⟨rfl, by rw [endsInside, if_neg hquote]⟩
  · rw [readToken_quote] at h ⊢
    split at h
    · next out rest hstring =>
      cases h
      obtain ⟨happend, hinside⟩ := @readString_append _ _ _ w b hstring hw.2.2.2
      exact ⟨by rw [happend], by simpa [endsInside] using hinside⟩
    · cases h
  · have hquote : c ≠ quote := by
      rintro rfl
      revert hn
      decide
    rw [readToken_number hn] at h ⊢
    split at h
    · cases h
    · next hdigit =>
      cases h
      have hhead : ¬ (isSign c && !((tail ++ w :: b).head?.any isdigit)) = true := by
        cases tail with
        | nil => simpa [hw.2.1] using hdigit
        | cons d tail => simpa using hdigit
      rw [if_neg hhead]
      have hsign := @readDigits_append_stop false tail w b hw
      have hdigits := @readDigits_append_stop false (c :: tail) w b hw
      rw [List.cons_append] at hdigits
      have htail : endsInside false (c :: tail) = endsInside false tail := by
        rw [endsInside, if_neg hquote]
      dsimp only
      split
      · rw [hsign, endsInside_readDigits, htail]
        exact ⟨rfl, rfl⟩
      · rw [hdigits, endsInside_readDigits]
        exact ⟨rfl, rfl⟩
  · rw [readToken_word hword] at h ⊢
    cases h
    have happend := @word_append_stop (c :: tail) w b hw.1
    rw [List.cons_append] at happend
    rw [happend.1, happend.2]
    exact ⟨rfl, (endsInside_dropWhile _).symm⟩
  · rw [herror] at h
    cases h

/-- Nor does the lack of one, outside a literal. -/
theorem readToken_append_error {c w : UInt8} {tail b message : Bytes} (hw : Stops w)
    (houtside : endsInside false (c :: tail) = false) (h : readToken c tail = .error message) :
    ∃ message', readToken c (tail ++ w :: b) = .error message' := by
  rcases head_cases c with ⟨kind, hp⟩ | rfl | hn | hword | herror
  · rw [readToken_punctuation hp] at h
    cases h
  · rw [readToken_quote] at h
    split at h
    · cases h
    · next hstring =>
      have hinside := endsInside_of_readString hstring
      rw [endsInside, if_pos rfl] at houtside
      rw [Bool.not_false, hinside] at houtside
      cases houtside
  · rw [readToken_number hn] at h ⊢
    split at h
    · next hsign =>
      have hhead : (isSign c && !((tail ++ w :: b).head?.any isdigit)) = true := by
        cases tail with
        | nil => simpa [hw.2.1] using hsign
        | cons d tail => simpa using hsign
      exact ⟨_, by rw [if_pos hhead]⟩
    · cases h
  · rw [readToken_word hword] at h
    cases h
  · exact ⟨_, herror _⟩

/-- Two texts' tokens one after the other, the marker only at the end. -/
def joined (x y : Option (List Lexeme)) : Option (List Lexeme) :=
  x.bind fun lexemes => y.map fun rest => lexemes.dropLast ++ rest

/-- The marker is a token of every text. -/
theorem ne_nil_of_lex {s : Bytes} {lexemes : List Lexeme} (h : lex s = some lexemes) :
    lexemes ≠ [] := by
  induction hn : s.length using Nat.strong_induction_on generalizing s lexemes with
  | _ n ih =>
    cases s with
    | nil =>
      rw [lex_nil] at h
      cases h
      exact List.cons_ne_nil _ _
    | cons c tail =>
      cases hc : isspace c with
      | true =>
        rw [lex_space hc] at h
        exact ih tail.length (by rw [← hn]; simp) h rfl
      | false =>
        cases hread : readToken c tail with
        | error message =>
          rw [lex_error hc hread] at h
          cases h
        | ok lexed =>
          rw [lex_cons hc hread, Option.map_eq_some_iff] at h
          obtain ⟨rest, -, rfl⟩ := h
          exact List.cons_ne_nil _ _

/-- **White space ends a token and is otherwise ignored.** -/
theorem lex_append_space {a b : Bytes} {w : UInt8} (hw : isspace w = true)
    (houtside : endsInside false a = false) : lex (a ++ w :: b) = joined (lex a) (lex b) := by
  have hstops := stops_of_isspace hw
  induction hn : a.length using Nat.strong_induction_on generalizing a with
  | _ n ih =>
    cases a with
    | nil =>
      rw [List.nil_append, lex_space hw, lex_nil]
      simp [joined]
    | cons c tail =>
      rw [List.cons_append]
      cases hc : isspace c with
      | true =>
        have hquote : c ≠ quote := by
          rintro rfl
          revert hc
          decide
        rw [endsInside, if_neg hquote] at houtside
        rw [lex_space hc, lex_space hc]
        exact ih tail.length (by rw [← hn]; simp) houtside rfl
      | false =>
        cases hread : readToken c tail with
        | error message =>
          obtain ⟨message', hmessage⟩ :=
            @readToken_append_error c w tail b message hstops houtside hread
          rw [lex_error hc hread, lex_error hc hmessage]
          rfl
        | ok lexed =>
          obtain ⟨happend, hinside⟩ := @readToken_append c w tail b lexed hstops hread
          have hle := length_readToken hread
          rw [lex_cons hc hread, lex_cons hc happend,
            ih lexed.rest.length (by rw [← hn, List.length_cons]; omega)
              (by rw [← hinside, houtside]) rfl]
          cases hrest : lex lexed.rest with
          | none => rfl
          | some lexemes =>
            have hne := ne_nil_of_lex hrest
            cases lex b with
            | none => rfl
            | some rest => simp [joined, List.dropLast_cons_of_ne_nil hne]

theorem lex_spaces {w : Bytes} (hw : ∀ c ∈ w, isspace c = true) (b : Bytes) :
    lex (w ++ b) = lex b := by
  induction w with
  | nil => rfl
  | cons c w ih =>
    rw [List.cons_append, lex_space (hw c List.mem_cons_self)]
    exact ih fun d hd => hw d (List.mem_cons_of_mem _ hd)

/-- A text is cut between two tokens, or within the white space there. -/
def Between (a b : Bytes) : Prop :=
  endsInside false a = false ∧ lex (a ++ b) = joined (lex a) (lex b)

/-- **The amount of white space between two tokens does not matter.**  Where there is some on
either side, the texts before and after it need not be cut between tokens. -/
theorem lex_respaced {a b w w' : Bytes} (hw : ∀ c ∈ w, isspace c = true)
    (hw' : ∀ c ∈ w', isspace c = true) (houtside : endsInside false a = false)
    (hcut : w = [] ∨ w' = [] → Between a b) : lex (a ++ w ++ b) = lex (a ++ w' ++ b) := by
  have hone : ∀ v : Bytes, (∀ c ∈ v, isspace c = true) → (v = [] → Between a b) →
      lex (a ++ v ++ b) = joined (lex a) (lex b) := by
    intro v hv hnil
    cases v with
    | nil =>
      rw [List.append_nil]
      exact (hnil rfl).2
    | cons c v =>
      rw [List.append_assoc, List.cons_append, lex_append_space (hv c List.mem_cons_self) houtside,
        lex_spaces fun d hd => hv d (List.mem_cons_of_mem _ hd)]
  rw [hone w hw fun h => hcut (Or.inl h), hone w' hw' fun h => hcut (Or.inr h)]

/-! ### The tokens of a text -/

/-- The text of a word, in lower case. -/
structure IsIdent (text : Bytes) : Prop where
  word : ∀ c ∈ text, isWord c = true
  lower : text.map tolower = text
  head : ∃ c tail, text = c :: tail ∧ (isalpha c = true ∨ c = 95)

/-- The text of an integer. -/
def IsInteger (text : Bytes) : Prop :=
  ∃ digits : Bytes, digits ≠ [] ∧ (∀ c ∈ digits, isdigit c = true) ∧
    (text = digits ∨ ∃ sign, isSign sign = true ∧ text = sign :: digits)

/-- What a token's text is. -/
structure Token.Sound (t : Token) : Prop where
  ident : t.kind = .Ident → t.original.map tolower = t.text ∧ IsIdent t.text
  integer : t.kind = .Integer → IsInteger t.text

theorem isWord_tolower (c : UInt8) : isWord (tolower c) = isWord c :=
  isWord_congr (tolower_tolower c)

/-- Without a dot the loop takes digits only. -/
theorem isdigit_of_readDigits {seenDot : Bool} {s : Bytes}
    (h : (readDigits seenDot s).2.1 = false) :
    seenDot = false ∧ ∀ c ∈ (readDigits seenDot s).1, isdigit c = true := by
  have hseen : ∀ s : Bytes, (readDigits true s).2.1 = true := by
    intro s
    induction s with
    | nil => rfl
    | cons c s ih =>
      unfold readDigits
      split
      · exact ih
      · split
        · exact ih
        · rfl
  fun_induction readDigits seenDot s with
  | case1 => exact ⟨h, nofun⟩
  | case2 seenDot c rest hc r ih =>
    obtain ⟨hflag, hrest⟩ := ih h
    refine ⟨hflag, ?_⟩
    intro d hd
    rcases List.mem_cons.mp hd with rfl | hd
    · exact hc
    · exact hrest d hd
  | case3 seenDot c rest hc hdot r ih =>
    rw [hseen] at h
    cases h
  | case4 => exact ⟨h, nofun⟩

theorem sound_readToken {c : UInt8} {tail : Bytes} {lexed : Lexed}
    (h : readToken c tail = .ok lexed) (pos : ℕ) :
    lexed.kind ≠ .End ∧ Token.Sound ⟨lexed.kind, lexed.text, lexed.original, pos⟩ := by
  rcases head_cases c with ⟨kind, hp⟩ | rfl | hn | hw | herror
  · rw [readToken_punctuation hp] at h
    cases h
    have hkind : kind ≠ .End ∧ kind ≠ .Ident ∧ kind ≠ .Integer := by
      unfold punctuation at hp
      grind
    exact ⟨hkind.1, fun hk => absurd hk hkind.2.1, fun hk => absurd hk hkind.2.2⟩
  · rw [readToken_quote] at h
    split at h
    · cases h
      exact ⟨nofun, nofun, nofun⟩
    · cases h
  · rw [readToken_number hn] at h
    split at h
    · cases h
    · next hdigit =>
      cases h
      have hkinds : ∀ b : Bool, (if b then Tok.Decimal else Tok.Integer) ≠ .End ∧
          (if b then Tok.Decimal else Tok.Integer) ≠ .Ident ∧
          ((if b then Tok.Decimal else Tok.Integer) = .Integer → b = false) := by decide
      refine ⟨(hkinds _).1, fun hk => absurd hk (hkinds _).2.1, ?_⟩
      intro hkind
      have hdot := (hkinds _).2.2 hkind
      dsimp only
      split
      · next hs =>
        simp only [hs, if_true, Bool.true_and] at hdot hdigit
        have hall := (isdigit_of_readDigits hdot).2
        refine ⟨_, ?_, hall, Or.inr ⟨c, hs, rfl⟩⟩
        -- the digit after the sign is one of them
        cases tail with
        | nil => simp at hdigit
        | cons d tail =>
          have hd : isdigit d = true := by simpa using hdigit
          simp [readDigits, hd]
      · next hs =>
        rw [if_neg hs] at hdot
        have hall := (isdigit_of_readDigits hdot).2
        refine ⟨_, ?_, hall, Or.inl rfl⟩
        simp [readDigits, hn.resolve_right hs]
  · rw [readToken_word hw] at h
    cases h
    refine ⟨nofun, fun _ => ⟨rfl, ?_, ?_, ?_⟩, nofun⟩
    · intro d hd
      obtain ⟨e, he, rfl⟩ := List.mem_map.mp hd
      rw [isWord_tolower]
      exact List.mem_takeWhile_imp he
    · simp
    · refine ⟨tolower c, (tail.takeWhile isWord).map tolower, ?_, ?_⟩
      · rw [List.takeWhile_cons, isWord_of_head hw]
        rfl
      · rcases hw with ha | rfl
        · exact Or.inl (by rw [isalpha_tolower, ha])
        · exact Or.inr (by decide)
  · rw [herror] at h
    cases h

/-- **The tokens of a text end in the marker, and their texts are what their kinds say.** -/
theorem tokenize_ended {src : Bytes} {tokens : List Token} (h : tokenize src = .ok tokens) :
    TokenParsers.Ended (fun t : Token => t.kind = .End) tokens ∧ ∀ t ∈ tokens, t.Sound := by
  unfold tokenize at h
  generalize (0 : ℕ) = pos at h
  fun_induction tokenizeFrom pos src generalizing tokens with
  | case1 pos =>
    cases h
    refine ⟨.last rfl, ?_⟩
    intro t ht
    rw [List.mem_singleton.mp ht]
    exact ⟨nofun, nofun⟩
  | case2 pos c tail hspace ih => exact ih h
  | case3 pos c tail hspace message hread => cases h
  | case4 pos c tail hspace lexed hread e hrest ih => cases h
  | case5 pos c tail hspace lexed hread rest hrest ih =>
    cases h
    obtain ⟨hkind, hsound⟩ := sound_readToken hread pos
    obtain ⟨hended, hall⟩ := ih hrest
    refine ⟨.cons hkind hended, ?_⟩
    intro t ht
    rcases List.mem_cons.mp ht with rfl | ht
    · exact hsound
    · exact hall t ht

end ChronoLog.Plugins
