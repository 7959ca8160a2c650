import ChronoLog.Plugins.SqlGrammar

/-!
# SQL statements as text

A statement is printed with identifiers as they are, values as string literals, nulls and
bounds in decimal.  The printed text is one of the documented grammar, and the parser reads
the statement back from it.

The documented grammar has a table of types and takes integers from 0 to `2 ^ 64 - 1` as
bounds.  The parser takes the bounds through `std::stoull`, which reads a negative number
modulo `2 ^ 64`.

## Main definitions

* `print` — the text of a statement.
* `documentedType`, `documentedBound` — the types and bounds of the documentation.
* `ParsesAsDocumented` — what is said of the parser on a text.
* `TimeSelect`, `NoNegativeBound` — a selection by time stamps, and that it has no bound below
  zero.

## Main results

* `parseStatement_eq_ok` — the statement of a text depends on the words of the text.
* `parseStatement_print` — **a statement is read back from its text.**
* `parsesAsDocumented_iff` — the parser meets its documentation just where no bound is below
  zero.
-/

namespace ChronoLog.Plugins

open TokenParsers

/-! ### Printing -/

/-- The content of a literal, its quotes doubled. -/
def doubled (v : Bytes) : Bytes := v.flatMap fun c => if c = quote then [quote, quote] else [c]

def printValue (v : Bytes) (isNull : Bool) : Bytes :=
  if isNull then ascii "NULL" else quote :: (doubled v ++ [quote])

def printNumber (n : UInt64) : Bytes := (Nat.toDigits 10 n.toNat).map Char.toUInt8

/-- Words with commas between them. -/
def withCommas : List (List Bytes) → List Bytes
  | [] => []
  | [words] => words
  | words :: next :: rest => words ++ ascii "," :: withCommas (next :: rest)

def printColumn (c : Column) : List Bytes := [c.name, columnTypeToString c.type]

def printNames (names : List Bytes) : List Bytes := withCommas (names.map fun name => [name])

def printWhere : Where → List Bytes
  | .monostate => []
  | .eq w => [ascii "WHERE", w.column, ascii "=", printValue w.value w.isNull]
  | .tsBetween w => [ascii "WHERE", ascii "__ts", ascii "BETWEEN", printNumber w.lo, ascii "AND",
      printNumber w.hi]

/-- The words of a statement. -/
def printWords : ParsedStatement → List Bytes
  | .createTable p => ascii "CREATE" :: ascii "TABLE" :: p.table :: ascii "(" ::
      (withCommas (p.columns.map printColumn) ++ [ascii ")"])
  | .dropTable p => [ascii "DROP", ascii "TABLE", p.table]
  | .insert p => ascii "INSERT" :: ascii "INTO" :: p.table ::
      ((if p.columns = [] then [] else ascii "(" :: (printNames p.columns ++ [ascii ")"])) ++
        ascii "VALUES" :: ascii "(" ::
          (withCommas ((p.values.zipWith printValue p.isNull).map fun v => [v]) ++ [ascii ")"]))
  | .select p => ascii "SELECT" ::
      ((if p.projection = [] then [ascii "*"] else printNames p.projection) ++
        ascii "FROM" :: p.table :: printWhere p.where_)

/-- The text of words, with a space after each. -/
def spaced (words : List Bytes) : Bytes := words.flatMap fun word => word ++ [32]

/-- The text of a statement. -/
def print (stmt : ParsedStatement) : Bytes := spaced (printWords stmt)

/-! ### The documentation -/

/-- The types and the synonyms of the documentation. -/
def documentedType (s : Bytes) : Option ColumnType :=
  let up := s.map toupper
  if up = ascii "INT" then some .INT
  else if up = ascii "DOUBLE" then some .DOUBLE
  else if up = ascii "STRING" ∨ up = ascii "VARCHAR" ∨ up = ascii "TEXT" then some .STRING
  else if up = ascii "BOOL" then some .BOOL
  else none

/-- The value of an integer. -/
def intValue : Bytes → ℤ
  | [] => 0
  | c :: digits =>
    if c = 45 then -(decimal digits : ℤ)
    else if c = 43 then decimal digits
    else decimal (c :: digits)

/-- A bound is an integer from 0 to `2 ^ 64 - 1` and stands for its value. -/
def documentedBound (text : Bytes) : Option UInt64 :=
  if text ≠ [] ∧ 0 ≤ intValue text ∧ intValue text < 2 ^ 64 then
    some (UInt64.ofNat (intValue text).toNat)
  else none

/-- The parser knows the types of the documentation. -/
theorem columnTypeFromString_of_documentedType {s : Bytes} {type : ColumnType}
    (h : documentedType s = some type) : columnTypeFromString s = some type := by
  simp only [documentedType] at h
  unfold columnTypeFromString
  generalize s.map toupper = up at h ⊢
  split at h
  · next hint =>
    cases h
    simp [hint]
  · split at h
    · next hdouble =>
      cases h
      subst hdouble
      decide
    · split at h
      · next hstring =>
        cases h
        rcases hstring with rfl | rfl | rfl
        · decide
        · decide
        · decide
      · split at h
        · next hbool =>
          cases h
          subst hbool
          decide
        · cases h

/-- The conversion by the value of an integer. -/
theorem stoull_eq (text : Bytes) (hne : text ≠ []) : stoull text =
    if (intValue text).natAbs < 2 ^ 64 then
      some (if intValue text < 0 then 0 - UInt64.ofNat (intValue text).natAbs
        else UInt64.ofNat (intValue text).natAbs)
    else none := by
  cases text with
  | nil => exact absurd rfl hne
  | cons c digits =>
    have hnot : ∀ n : ℕ, ¬ (n : ℤ) < 0 := by omega
    by_cases hminus : c = 45
    · subst hminus
      have hzero : decimal digits = 0 → UInt64.ofNat (decimal digits) = 0 := by
        intro h
        rw [h]
        rfl
      simp only [stoull, intValue, isSign, if_true, decide_true, Bool.true_or, Int.natAbs_neg,
        Int.natAbs_natCast]
      split
      · split
        · rfl
        · next hpos => rw [hzero (by omega)]; rfl
      · rfl
    · by_cases hplus : c = 43
      · subst hplus
        simp [stoull, intValue, isSign, hnot]
      · simp [stoull, intValue, isSign, hminus, hplus, hnot]

/-- The parser reads an integer that is not below zero as documented. -/
theorem stoull_of_nonneg {text : Bytes} (h : 0 ≤ intValue text) :
    stoull text = documentedBound text := by
  by_cases hne : text = []
  · subst hne
    rfl
  · rw [stoull_eq text hne, documentedBound]
    by_cases hlt : intValue text < 2 ^ 64
    · have hnat : (intValue text).natAbs = (intValue text).toNat := by omega
      rw [if_pos (by omega), if_neg (by omega), if_pos ⟨hne, h, hlt⟩, hnat]
    · rw [if_neg (by omega), if_neg (fun hand => hlt hand.2.2)]

theorem nonneg_of_documentedBound {text : Bytes} {n : UInt64} (h : documentedBound text = some n) :
    0 ≤ intValue text := by
  unfold documentedBound at h
  split at h
  · next hand => exact hand.2.1
  · cases h

/-! ### The words of a text -/

theorem endsInside_of_notMem {inside : Bool} {s : Bytes} (h : quote ∉ s) :
    endsInside inside s = inside := by
  induction s with
  | nil => rfl
  | cons c s ih =>
    rw [List.mem_cons, not_or] at h
    rw [endsInside, if_neg (Ne.symm h.1)]
    exact ih h.2

theorem readDigits_digits {seenDot : Bool} {s : Bytes} (h : ∀ c ∈ s, isdigit c = true) :
    readDigits seenDot s = (s, seenDot, []) := by
  induction s with
  | nil => rfl
  | cons c s ih =>
    rw [readDigits, if_pos (h c List.mem_cons_self),
      ih fun d hd => h d (List.mem_cons_of_mem _ hd)]

theorem doubled_cons (c : UInt8) (v : Bytes) :
    doubled (c :: v) = (if c = quote then [quote, quote] else [c]) ++ doubled v := rfl

/-- A literal is read back. -/
theorem readString_doubled (v : Bytes) : readString (doubled v ++ [quote]) = some (v, []) := by
  induction v with
  | nil => rfl
  | cons c v ih =>
    rw [doubled_cons]
    split
    · next hc =>
      show readString (quote :: quote :: (doubled v ++ [quote])) = _
      rw [readString, if_pos rfl, if_pos rfl, ih, hc]
      rfl
    · next hc =>
      show readString (c :: (doubled v ++ [quote])) = _
      cases hrest : doubled v ++ [quote] with
      | nil => simp at hrest
      | cons d rest =>
        rw [readString, if_neg hc, ← hrest, ih]
        rfl

theorem endsInside_doubled (inside : Bool) (v s : Bytes) :
    endsInside inside (doubled v ++ s) = endsInside inside s := by
  induction v with
  | nil => rfl
  | cons c v ih =>
    rw [doubled_cons]
    split
    · show endsInside inside (quote :: quote :: (doubled v ++ s)) = _
      rw [endsInside, endsInside, if_pos rfl, if_pos rfl, Bool.not_not, ih]
    · next hc =>
      show endsInside inside (c :: (doubled v ++ s)) = _
      rw [endsInside, if_neg hc, ih]

/-- A word is the text of one token, and closes its literals. -/
structure Spells (word : Bytes) (l : Lexeme) : Prop where
  lex : lex word = some [l, endMark]
  outside : endsInside false word = false

theorem spells_punctuation {c : UInt8} {kind : Tok} (h : punctuation c = some kind) :
    Spells [c] ⟨kind, [c]⟩ := by
  have hnot : isspace c = false ∧ c ≠ quote := by
    simp only [punctuation, ← UInt8.toNat_inj] at h
    simp only [isspace, quote, ne_eq, ← UInt8.toNat_inj]
    simp at h ⊢
    grind
  refine ⟨?_, ?_⟩
  · rw [lex_cons hnot.1 (readToken_punctuation h []), lex_nil]
    rfl
  · rw [endsInside, if_neg hnot.2]
    rfl

theorem spells_word {word : Bytes} (hword : ∀ c ∈ word, isWord c = true)
    (hhead : ∃ c tail, word = c :: tail ∧ (isalpha c = true ∨ c = 95)) :
    Spells word ⟨.Ident, word.map tolower⟩ := by
  obtain ⟨c, tail, rfl, hc⟩ := hhead
  have hspace : isspace c = false := by
    simp only [isspace]
    simp only [isalpha, isupper, islower, ← UInt8.toNat_inj] at hc
    simp at hc ⊢
    omega
  have htake : (c :: tail).takeWhile isWord = c :: tail := List.takeWhile_eq_self_iff.mpr hword
  have hdrop : (c :: tail).dropWhile isWord = [] := List.dropWhile_eq_nil_iff.mpr hword
  refine ⟨?_, ?_⟩
  · rw [lex_cons hspace (readToken_word hc tail)]
    simp only [htake, hdrop, lex_nil]
    rfl
  · apply endsInside_of_notMem
    intro hmem
    have hquote := hword quote hmem
    revert hquote
    decide

theorem spells_ident {name : Bytes} (h : IsIdent name) : Spells name ⟨.Ident, name⟩ := by
  have hspells := spells_word h.word h.head
  rwa [h.lower] at hspells

theorem spells_literal (v : Bytes) : Spells (quote :: (doubled v ++ [quote])) ⟨.StringLit, v⟩ := by
  refine ⟨?_, ?_⟩
  · have hread : readToken quote (doubled v ++ [quote]) = .ok ⟨.StringLit, v, v, []⟩ := by
      rw [readToken_quote, readString_doubled]
    rw [lex_cons (by decide) hread, lex_nil]
    rfl
  · rw [endsInside, if_pos rfl, endsInside_doubled]
    rfl

theorem spells_number {digits : Bytes} (hne : digits ≠ []) (h : ∀ c ∈ digits, isdigit c = true) :
    Spells digits ⟨.Integer, digits⟩ := by
  cases digits with
  | nil => exact absurd rfl hne
  | cons c tail =>
    have hc := h c List.mem_cons_self
    have hnot : isspace c = false ∧ isSign c = false := by
      simp only [isSign, ← UInt8.toNat_inj]
      simp only [isdigit] at hc
      simp [isspace] at hc ⊢
      omega
    have hread : readToken c tail = .ok ⟨.Integer, c :: tail, c :: tail, []⟩ := by
      rw [readToken_number (Or.inl hc)]
      simp [hnot.2, readDigits_digits h]
    refine ⟨?_, ?_⟩
    · rw [lex_cons hnot.1 hread, lex_nil]
      rfl
    · apply endsInside_of_notMem
      intro hmem
      have hquote := h quote hmem
      revert hquote
      decide

/-- **The tokens of words with spaces after them are those of the words.** -/
theorem lex_spaced {words : List Bytes} {ls : List Lexeme} (h : List.Forall₂ Spells words ls) :
    lex (spaced words) = some (ls ++ [endMark]) := by
  induction h with
  | nil => exact lex_nil
  | @cons word l words ls hhead _ ih =>
    have hsplit : spaced (word :: words) = word ++ 32 :: spaced words := by
      rw [spaced, List.flatMap_cons, List.append_assoc]
      rfl
    rw [hsplit, lex_append_space (by decide) hhead.outside, hhead.lex, ih]
    rfl

/-! ### Numbers -/

/-- The byte of a digit. -/
theorem toNat_toUInt8 {c : Char} (h : c.isDigit = true) :
    c.toUInt8.toNat = c.toNat ∧ 48 ≤ c.toNat ∧ c.toNat ≤ 57 := by
  have hrange : 48 ≤ c.toNat ∧ c.toNat ≤ 57 := by
    simpa [Char.isDigit, UInt32.le_iff_toNat_le] using h
  have hbyte : c.toUInt8.toNat = c.toNat % 2 ^ 8 := UInt32.toNat_toUInt8 c.val
  exact ⟨by omega, hrange⟩

theorem isdigit_printNumber {n : UInt64} {c : UInt8} (h : c ∈ printNumber n) :
    isdigit c = true := by
  obtain ⟨d, hd, rfl⟩ := List.mem_map.mp h
  obtain ⟨hbyte, hrange⟩ := toNat_toUInt8 (Nat.isDigit_of_mem_toDigits (by omega) (by omega) hd)
  rw [isdigit, hbyte, Bool.and_eq_true, decide_eq_true_iff, decide_eq_true_iff]
  exact hrange

theorem printNumber_ne_nil (n : UInt64) : printNumber n ≠ [] := by
  simp [printNumber]

theorem decimal_printNumber (n : UInt64) : decimal (printNumber n) = n.toNat := by
  have hdigits : ∀ (cs : List Char) (acc : ℕ), (∀ c ∈ cs, c.isDigit = true) →
      (cs.map Char.toUInt8).foldl (fun n d => 10 * n + (d.toNat - 48)) acc =
        Nat.ofDigitChars 10 cs acc := by
    intro cs
    induction cs with
    | nil => intro acc _; rfl
    | cons c cs ih =>
      intro acc hcs
      have hbyte := (toNat_toUInt8 (hcs c List.mem_cons_self)).1
      rw [List.map_cons, List.foldl_cons, Nat.ofDigitChars_cons, hbyte,
        ih _ fun d hd => hcs d (List.mem_cons_of_mem _ hd)]
      rfl
  rw [decimal, printNumber, hdigits _ 0 fun c hc =>
    Nat.isDigit_of_mem_toDigits (by omega) (by omega) hc, Nat.ofDigitChars_ten_toDigits]

/-- A printed bound stands for its number. -/
theorem documentedBound_printNumber (n : UInt64) : documentedBound (printNumber n) = some n := by
  have hvalue : intValue (printNumber n) = n.toNat := by
    have hdecimal := decimal_printNumber n
    have hdigit := fun c => @isdigit_printNumber n c
    cases hnumber : printNumber n with
    | nil => exact absurd hnumber (printNumber_ne_nil n)
    | cons c digits =>
      rw [hnumber] at hdecimal hdigit
      have hc := hdigit c List.mem_cons_self
      have hminus : c ≠ 45 := by
        rintro rfl
        revert hc
        decide
      have hplus : c ≠ 43 := by
        rintro rfl
        revert hc
        decide
      rw [intValue, if_neg hminus, if_neg hplus, hdecimal]
  have hlt := n.toNat_lt
  rw [documentedBound, hvalue, if_pos ⟨printNumber_ne_nil n, by omega, by omega⟩,
    Int.toNat_natCast, UInt64.ofNat_toNat]

/-! ### The words of a statement -/

section

variable {types types' : Bytes → Option ColumnType} {bound bound' : Bytes → Option UInt64}

theorem ColumnWords.mono {c : Column} {words : List Lexeme} (h : ColumnWords types c words)
    (htypes : ∀ s type, types s = some type → types' s = some type) :
    ColumnWords types' c words := by
  cases h with
  | untyped => exact .untyped
  | typed ht => exact .typed (htypes _ _ ht)
  | sized ht hl hlen hr => exact .sized (htypes _ _ ht) hl hlen hr

/-- A grammar that knows more types and bounds has the words of one that knows less. -/
theorem StatementWords.mono {stmt : ParsedStatement} {words : List Lexeme}
    (h : StatementWords types bound stmt words)
    (htypes : ∀ s type, types s = some type → types' s = some type)
    (hbound : ∀ s n, bound s = some n → bound' s = some n) :
    StatementWords types' bound' stmt words := by
  cases h with
  | createTable hcreate htable hl hlist hr =>
    exact .createTable hcreate htable hl (hlist.mono fun _ _ hG => hG.mono htypes) hr
  | dropTable hdrop htable => exact .dropTable hdrop htable
  | insert hinsert hinto hnamed hvalues hl hlist hr hcount =>
    exact .insert hinsert hinto hnamed hvalues hl hlist hr hcount
  | select hselect hprojected hfrom hcondition =>
    refine .select hselect hprojected hfrom ?_
    cases hcondition with
    | monostate => exact .monostate
    | eq hkw hequals hvalue => exact .eq hkw hequals hvalue
    | tsBetween hkw hbetween hlo hn hand hhi hm =>
      exact .tsBetween hkw hbetween hlo (hbound _ _ hn) hand hhi (hbound _ _ hm)

theorem SentenceWords.mono {stmt : ParsedStatement} {words : List Lexeme}
    (h : SentenceWords types bound stmt words)
    (htypes : ∀ s type, types s = some type → types' s = some type)
    (hbound : ∀ s n, bound s = some n → bound' s = some n) :
    SentenceWords types' bound' stmt words := by
  cases h with
  | plain hstmt hlast => exact .plain (hstmt.mono htypes hbound) hlast
  | semicolon hstmt hsemi hlast => exact .semicolon (hstmt.mono htypes hbound) hsemi hlast

end

/-- The words of a text are in lower case. -/
def Named (l : Lexeme) : Prop := l.kind = .Ident → IsIdent l.text

theorem withCommas_cons (words : List Bytes) {rest : List (List Bytes)} (hne : rest ≠ []) :
    withCommas (words :: rest) = words ++ ascii "," :: withCommas rest := by
  cases rest with
  | nil => exact absurd rfl hne
  | cons next rest => rfl

theorem spells_comma : Spells (ascii ",") ⟨.Comma, ascii ","⟩ :=
  spells_punctuation (by decide)

/-- Printed items with commas between them are words of a list. -/
theorem spells_withCommas {α : Type} {G G' : α → List Lexeme → Prop} {printItem : α → List Bytes}
    (hitem : ∀ a word, G a word → (∀ l ∈ word, Named l) →
      ∃ word', List.Forall₂ Spells (printItem a) word' ∧ G' a word')
    {as : List α} {used : List Lexeme} (h : CommaList Comma G as used)
    (hused : ∀ l ∈ used, Named l) :
    ∃ used', List.Forall₂ Spells (withCommas (as.map printItem)) used' ∧
      CommaList Comma G' as used' := by
  induction h with
  | one hG =>
    obtain ⟨word', hspells, hG'⟩ := hitem _ _ hG hused
    exact ⟨word', hspells, .one hG'⟩
  | @cons a as t word rest hG _ hlist ih =>
    obtain ⟨word', hspells, hG'⟩ := hitem a word hG
      fun l hl => hused l (List.mem_append_left _ hl)
    obtain ⟨rest', hrest, hlist'⟩ := ih
      fun l hl => hused l (List.mem_append_right _ (List.mem_cons_of_mem _ hl))
    refine ⟨word' ++ ⟨.Comma, ascii ","⟩ :: rest', ?_, .cons hG' rfl hlist'⟩
    rw [List.map_cons, withCommas_cons _ (by simpa using hlist.ne_nil)]
    exact List.rel_append hspells (.cons spells_comma hrest)

/-- A keyword as it is printed. -/
def printed (word : String) : Lexeme := ⟨.Ident, (ascii word).map tolower⟩

theorem spells_printed {word : String}
    (h : (ascii word).all isWord = true ∧ (ascii word).head?.any isalpha = true) :
    Spells (ascii word) (printed word) := by
  refine spells_word (List.all_eq_true.mp h.1) ?_
  cases hword : ascii word with
  | nil =>
    rw [hword] at h
    cases h.2
  | cons c tail =>
    refine ⟨c, tail, rfl, Or.inl ?_⟩
    rw [hword] at h
    simpa using h.2

theorem spells_type (type : ColumnType) :
    Spells (columnTypeToString type) ⟨.Ident, (columnTypeToString type).map tolower⟩ := by
  cases type with
  | INT => exact spells_printed (by decide)
  | DOUBLE => exact spells_printed (by decide)
  | STRING => exact spells_printed (by decide)
  | BOOL => exact spells_printed (by decide)

theorem spells_column {types : Bytes → Option ColumnType} {c : Column} {word : List Lexeme}
    (h : ColumnWords types c word) (hword : ∀ l ∈ word, Named l) :
    ∃ word', List.Forall₂ Spells (printColumn c) word' ∧ ColumnWords documentedType c word' := by
  have htype : documentedType ((columnTypeToString c.type).map tolower) = some c.type := by
    cases c.type <;> decide
  have hname : IsIdent c.name := by
    cases h with
    | untyped => exact hword _ List.mem_cons_self rfl
    | typed _ => exact hword _ List.mem_cons_self rfl
    | sized _ _ _ _ => exact hword _ List.mem_cons_self rfl
  exact ⟨_, .cons (spells_ident hname) (.cons (spells_type c.type) .nil), .typed htype⟩

theorem spells_name {name : Bytes} {word : List Lexeme} (h : NameWords name word)
    (hword : ∀ l ∈ word, Named l) :
    ∃ word', List.Forall₂ Spells [name] word' ∧ NameWords name word' := by
  rw [NameWords] at h
  subst h
  exact ⟨_, .cons (spells_ident (hword _ List.mem_cons_self rfl)) .nil, rfl⟩

/-- A printed literal or null is the words of its value. -/
theorem spells_value (v : Option Bytes) :
    ∃ word, List.Forall₂ Spells [printValue (v.getD []) v.isNone] word ∧ ValueWords v word := by
  cases v with
  | none => exact ⟨_, .cons (spells_printed (by decide)) .nil, .null ⟨rfl, by decide⟩⟩
  | some v =>
    exact ⟨_, .cons (spells_literal v) .nil, @ValueWords.literal ⟨.StringLit, v⟩ (Or.inl rfl)⟩

theorem spells_names {names : List Bytes} {words : List Lexeme}
    (h : CommaList Comma NameWords names words) (hwords : ∀ l ∈ words, Named l) :
    ∃ words', List.Forall₂ Spells (printNames names) words' ∧
      CommaList Comma NameWords names words' :=
  spells_withCommas (fun _ _ h hw => spells_name h hw) h hwords

theorem spells_lparen : Spells (ascii "(") ⟨.LParen, ascii "("⟩ := spells_punctuation (by decide)

theorem spells_rparen : Spells (ascii ")") ⟨.RParen, ascii ")"⟩ := spells_punctuation (by decide)

theorem spells_insertColumns {columns : List Bytes} {words : List Lexeme}
    (h : InsertColumns columns words) (hwords : ∀ l ∈ words, Named l) :
    ∃ words', List.Forall₂ Spells
        (if columns = [] then [] else ascii "(" :: (printNames columns ++ [ascii ")"])) words' ∧
      InsertColumns columns words' := by
  cases h with
  | none => exact ⟨[], .nil, .none⟩
  | some _ hcolumns _ =>
    obtain ⟨word, hspells, hword⟩ := spells_names hcolumns fun l hl => hwords l (by simp [hl])
    rw [if_neg hcolumns.ne_nil]
    exact ⟨_, .cons spells_lparen (List.rel_append hspells (.cons spells_rparen .nil)),
      @InsertColumns.some columns word ⟨.LParen, ascii "("⟩ ⟨.RParen, ascii ")"⟩ rfl hword rfl⟩

theorem spells_projection {projection : List Bytes} {words : List Lexeme}
    (h : ProjectionWords projection words) (hwords : ∀ l ∈ words, Named l) :
    ∃ words', List.Forall₂ Spells
        (if projection = [] then [ascii "*"] else printNames projection) words' ∧
      ProjectionWords projection words' := by
  cases h with
  | star _ =>
    exact ⟨[⟨.Star, ascii "*"⟩], .cons (spells_punctuation (by decide)) .nil, .star rfl⟩
  | columns hcolumns =>
    obtain ⟨word, hspells, hword⟩ := spells_names hcolumns hwords
    rw [if_neg hcolumns.ne_nil]
    exact ⟨word, hspells, .columns hword⟩

theorem spells_where {bound : Bytes → Option UInt64} {condition : Where} {words : List Lexeme}
    (h : WhereWords bound condition words) (hwords : ∀ l ∈ words, Named l) :
    ∃ words', List.Forall₂ Spells (printWhere condition) words' ∧
      WhereWords documentedBound condition words' := by
  have hwhere : Spells (ascii "WHERE") (printed "WHERE") := spells_printed (by decide)
  cases h with
  | monostate => exact ⟨[], .nil, .monostate⟩
  | @eq kw equals column v used hkw hequals hvalue =>
    have hcolumn : IsIdent column := hwords ⟨.Ident, column⟩ (by simp) rfl
    obtain ⟨word, hspells, hword⟩ := spells_value v
    exact ⟨_, .cons hwhere (.cons (spells_ident hcolumn)
      (.cons (spells_punctuation (by decide)) hspells)), .eq ⟨rfl, by decide⟩ rfl hword⟩
  | @tsBetween kw between and_ lo hi n m hkw hbetween hlo hn hand hhi hm =>
    have hnumber := fun n => spells_number (printNumber_ne_nil n) fun c => isdigit_printNumber
    have hts : IsIdent (ascii "__ts") := hwords ⟨.Ident, ascii "__ts"⟩ (by simp) rfl
    exact ⟨_, .cons hwhere (.cons (spells_ident hts) (.cons (spells_printed (by decide))
      (.cons (hnumber n) (.cons (spells_printed (by decide)) (.cons (hnumber m) .nil))))),
      .tsBetween ⟨rfl, by decide⟩ ⟨rfl, by decide⟩ rfl (documentedBound_printNumber n)
        ⟨rfl, by decide⟩ rfl (documentedBound_printNumber m)⟩

/-- **The text of a statement of a grammar is one of the documented grammar.** -/
theorem spells_printWords {types : Bytes → Option ColumnType} {bound : Bytes → Option UInt64}
    {stmt : ParsedStatement} {words : List Lexeme} (h : StatementWords types bound stmt words)
    (hwords : ∀ l ∈ words, Named l) :
    ∃ words', List.Forall₂ Spells (printWords stmt) words' ∧
      StatementWords documentedType documentedBound stmt words' := by
  cases h with
  | @createTable create table lparen rparen name columns used hcreate htable hlp hlist hrp =>
    have hname : IsIdent name := hwords ⟨.Ident, name⟩ (by simp) rfl
    obtain ⟨used', hspells, hlist'⟩ := spells_withCommas (fun _ _ h hw => spells_column h hw) hlist
      fun l hl => hwords l (by simp [hl])
    exact ⟨_, .cons (spells_printed (by decide)) (.cons (spells_printed (by decide))
      (.cons (spells_ident hname) (.cons spells_lparen
        (List.rel_append hspells (.cons spells_rparen .nil))))),
      .createTable ⟨rfl, by decide⟩ ⟨rfl, by decide⟩ rfl hlist' rfl⟩
  | @dropTable drop table name hdrop htable =>
    have hname : IsIdent name := hwords ⟨.Ident, name⟩ (by simp) rfl
    exact ⟨_, .cons (spells_printed (by decide)) (.cons (spells_printed (by decide))
      (.cons (spells_ident hname) .nil)), .dropTable ⟨rfl, by decide⟩ ⟨rfl, by decide⟩⟩
  | @insert insert into values_ lparen rparen name columns values named used hinsert hinto hnamed
      hvalues hlp hlist hrp hcount =>
    have hname : IsIdent name := hwords ⟨.Ident, name⟩ (by simp) rfl
    obtain ⟨named', hspellsNamed, hnamed'⟩ := spells_insertColumns hnamed
      fun l hl => hwords l (by simp [hl])
    obtain ⟨used', hspells, hlist'⟩ := spells_withCommas
      (fun v _ _ _ => spells_value v) hlist fun l hl => hwords l (by simp [hl])
    have hvalueWords : ((values.map fun v => v.getD []).zipWith printValue
        (values.map Option.isNone)).map (fun v => [v]) =
        values.map fun v => [printValue (v.getD []) v.isNone] := by
      simp [List.zipWith_map, List.zipWith_self]
    have hinsert' : Keyword "insert" (printed "INSERT") := ⟨rfl, by decide⟩
    have hinto' : Keyword "into" (printed "INTO") := ⟨rfl, by decide⟩
    have hvalues' : Keyword "values" (printed "VALUES") := ⟨rfl, by decide⟩
    refine ⟨_, ?_, @StatementWords.insert _ _ _ _ _ ⟨.LParen, ascii "("⟩ ⟨.RParen, ascii ")"⟩ name
      columns values named' used' hinsert' hinto' hnamed' hvalues' rfl hlist' rfl hcount⟩
    rw [← hvalueWords] at hspells
    exact .cons (spells_printed (by decide)) (.cons (spells_printed (by decide))
      (.cons (spells_ident hname) (List.rel_append hspellsNamed
        (.cons (spells_printed (by decide)) (.cons spells_lparen
          (List.rel_append hspells (.cons spells_rparen .nil)))))))
  | @select select from_ name projection condition projected used hselect hprojected hfrom
      hcondition =>
    have hname : IsIdent name := hwords ⟨.Ident, name⟩ (by simp) rfl
    obtain ⟨projected', hspellsProjected, hprojected'⟩ := spells_projection hprojected
      fun l hl => hwords l (by simp [hl])
    obtain ⟨used', hspells, hcondition'⟩ := spells_where hcondition
      fun l hl => hwords l (by simp [hl])
    exact ⟨_, .cons (spells_printed (by decide)) (List.rel_append hspellsProjected
      (.cons (spells_printed (by decide)) (.cons (spells_ident hname) hspells))),
      .select ⟨rfl, by decide⟩ hprojected' ⟨rfl, by decide⟩ hcondition'⟩

/-! ### The parser -/

theorem named_of_sound {tokens : List Token} (h : ∀ t ∈ tokens, t.Sound) :
    ∀ l ∈ tokens.map Token.lexeme, Named l := by
  intro l hl hkind
  obtain ⟨t, ht, rfl⟩ := List.mem_map.mp hl
  exact ((h t ht).ident hkind).2

theorem named_of_lex {sql : Bytes} {ls : List Lexeme} (h : lex sql = some ls) :
    ∀ l ∈ ls, Named l := by
  unfold lex at h
  cases htokens : tokenize sql with
  | error e =>
    rw [htokens] at h
    cases h
  | ok tokens =>
    rw [htokens] at h
    cases h
    exact named_of_sound (tokenize_ended htokens).2

/-- **The statement of a text depends on the words of the text.** -/
theorem parseStatement_eq_ok {sql : Bytes} {stmt : ParsedStatement} :
    parseStatement sql = .ok stmt ↔
      ∃ ls, lex sql = some ls ∧ SentenceWords columnTypeFromString stoull stmt ls := by
  unfold parseStatement lex
  cases htokens : tokenize sql with
  | error e =>
    constructor
    · intro h
      cases h
    · rintro ⟨ls, h, -⟩
      cases h
  | ok tokens =>
    obtain ⟨hended, hsound⟩ := tokenize_ended htokens
    have hiff := @parse_iff stmt tokens hended hsound
    dsimp only
    constructor
    · intro h
      refine ⟨_, rfl, hiff.mp ?_⟩
      cases hparse : parse tokens with
      | error e =>
        rw [hparse] at h
        cases h
      | ok result =>
        obtain ⟨stmt', rest⟩ := result
        rw [hparse] at h
        cases h
        exact ⟨rest, rfl⟩
    · rintro ⟨ls, hls, hwords⟩
      cases hls
      obtain ⟨rest, hparse⟩ := hiff.mpr hwords
      rw [hparse]

/-- No token past the marker is read. -/
theorem parseStatement_ne_pastEnd (sql : Bytes) : parseStatement sql ≠ .error .pastEnd := by
  intro h
  unfold parseStatement at h
  cases htokens : tokenize sql with
  | error e =>
    rw [htokens] at h
    cases h
  | ok tokens =>
    have hne := (parse_meets (tokenize_ended htokens).1).ne_pastEnd
    rw [htokens] at h
    dsimp only at h
    cases hparse : parse tokens with
    | error e =>
      rw [hparse] at h
      cases h
      exact hne hparse
    | ok result =>
      rw [hparse] at h
      cases h

theorem toOption_parseStatement {sql : Bytes} {stmt : ParsedStatement} :
    (parseStatement sql).toOption = some stmt ↔ parseStatement sql = .ok stmt := by
  cases parseStatement sql with
  | error e => simp [Except.toOption]
  | ok stmt' => simp [Except.toOption]

/-- Texts of the same words have the same statement, or none. -/
theorem parseStatement_congr {sql sql' : Bytes} (h : lex sql = lex sql') :
    (parseStatement sql).toOption = (parseStatement sql').toOption := by
  apply Option.ext
  intro stmt
  rw [toOption_parseStatement, toOption_parseStatement, parseStatement_eq_ok,
    parseStatement_eq_ok, h]

theorem stoull_of_documentedBound {text : Bytes} {n : UInt64} (h : documentedBound text = some n) :
    stoull text = some n := by
  rw [stoull_of_nonneg (nonneg_of_documentedBound h), h]

/-- A statement the parser returns is one of the documented grammar, and its text is too. -/
theorem printed_of_parseStatement {sql : Bytes} {stmt : ParsedStatement}
    (h : parseStatement sql = .ok stmt) :
    ∃ words, List.Forall₂ Spells (printWords stmt) words ∧
      StatementWords documentedType documentedBound stmt words := by
  obtain ⟨ls, hls, hwords⟩ := parseStatement_eq_ok.mp h
  have hnamed := named_of_lex hls
  cases hwords with
  | plain hstmt _ =>
    exact spells_printWords hstmt fun l hl => hnamed l (List.mem_append_left _ hl)
  | semicolon hstmt _ _ =>
    exact spells_printWords hstmt fun l hl => hnamed l (List.mem_append_left _ hl)

/-- **A statement is read back from its text.** -/
theorem parseStatement_print {sql : Bytes} {stmt : ParsedStatement}
    (h : parseStatement sql = .ok stmt) : parseStatement (print stmt) = .ok stmt := by
  obtain ⟨words, hspells, hwords⟩ := printed_of_parseStatement h
  refine parseStatement_eq_ok.mpr ⟨words ++ [endMark], lex_spaced hspells, ?_⟩
  exact .plain (hwords.mono (fun _ _ => columnTypeFromString_of_documentedType)
    fun _ _ => stoull_of_documentedBound) rfl

/-! ### Bounds -/

/-- An optional semicolon and the marker. -/
inductive Ending : List Lexeme → Prop where
  | plain {last : Lexeme} : last.kind = .End → Ending [last]
  | semicolon {semicolon last : Lexeme} : semicolon.kind = .Semicolon → last.kind = .End →
      Ending [semicolon, last]

/-- A selection by time stamps between two integers. -/
inductive TimeSelect (lo hi : Bytes) : List Lexeme → Prop where
  | mk {select from_ kw between and_ : Lexeme} {name : Bytes} {projection : List Bytes}
      {projected ending : List Lexeme} :
      Keyword "select" select → ProjectionWords projection projected → Keyword "from" from_ →
      Keyword "where" kw → Keyword "between" between → Keyword "and" and_ → Ending ending →
      TimeSelect lo hi (select :: (projected ++ from_ :: ⟨.Ident, name⟩ ::
        [kw, ⟨.Ident, ascii "__ts"⟩, between, ⟨.Integer, lo⟩, and_, ⟨.Integer, hi⟩]) ++ ending)

/-- The bounds are the last words but two or three. -/
theorem TimeSelect.unique {lo hi lo' hi' : Bytes} {ls : List Lexeme} (h : TimeSelect lo hi ls)
    (h' : TimeSelect lo' hi' ls) : lo = lo' ∧ hi = hi' := by
  have hshape : ∀ {lo hi}, TimeSelect lo hi ls → ∃ front and_ ending,
      ls = front ++ [⟨.Integer, lo⟩, and_, ⟨.Integer, hi⟩] ++ ending ∧ Ending ending := by
    intro lo hi h
    cases h with
    | @mk select from_ kw between and_ name projection projected ending _ _ _ _ _ _ hending =>
      exact ⟨select :: (projected ++ [from_, ⟨.Ident, name⟩, kw, ⟨.Ident, ascii "__ts"⟩, between]),
        and_, ending, by simp, hending⟩
  obtain ⟨front, and_, ending, heq, hending⟩ := hshape h
  obtain ⟨front', and_', ending', heq', hending'⟩ := hshape h'
  have hrev := congrArg List.reverse (heq.symm.trans heq')
  cases hending with
  | plain hlast =>
    cases hending' with
    | plain hlast' =>
      simp at hrev
      exact ⟨hrev.2.2.2.1, hrev.2.1⟩
    | semicolon hsemi hlast' =>
      simp at hrev
      rw [← hrev.2.1] at hsemi
      cases hsemi
  | semicolon hsemi hlast =>
    cases hending' with
    | plain hlast' =>
      simp at hrev
      rw [hrev.2.1] at hsemi
      cases hsemi
    | semicolon hsemi' hlast' =>
      simp at hrev
      exact ⟨hrev.2.2.2.2.1, hrev.2.2.1⟩

section

variable {types : Bytes → Option ColumnType} {bound bound' : Bytes → Option UInt64}

theorem sentenceWords_iff {stmt : ParsedStatement} {ls : List Lexeme} :
    SentenceWords types bound stmt ls ↔
      ∃ words ending, ls = words ++ ending ∧ StatementWords types bound stmt words ∧
        Ending ending := by
  constructor
  · intro h
    cases h with
    | plain hstmt hlast => exact ⟨_, _, rfl, hstmt, .plain hlast⟩
    | semicolon hstmt hsemi hlast => exact ⟨_, _, rfl, hstmt, .semicolon hsemi hlast⟩
  · rintro ⟨words, ending, rfl, hstmt, hending⟩
    cases hending with
    | plain hlast => exact .plain hstmt hlast
    | semicolon hsemi hlast => exact .semicolon hstmt hsemi hlast

theorem TimeSelect.of_words {select from_ kw between lo and_ hi : Lexeme} {name : Bytes}
    {projection : List Bytes} {projected ending : List Lexeme} (hselect : Keyword "select" select)
    (hprojected : ProjectionWords projection projected) (hfrom : Keyword "from" from_)
    (hkw : Keyword "where" kw) (hbetween : Keyword "between" between) (hlo : lo.kind = .Integer)
    (hand : Keyword "and" and_) (hhi : hi.kind = .Integer) (hending : Ending ending) :
    TimeSelect lo.text hi.text (select :: (projected ++ from_ :: ⟨.Ident, name⟩ ::
      [kw, ⟨.Ident, ascii "__ts"⟩, between, lo, and_, hi]) ++ ending) := by
  have hlo' : lo = ⟨.Integer, lo.text⟩ := by rw [← hlo]
  have hhi' : hi = ⟨.Integer, hi.text⟩ := by rw [← hhi]
  rw [hlo', hhi']
  exact .mk hselect hprojected hfrom hkw hbetween hand hending

/-- A sentence is one under other bounds too, where a selection by time stamps has these. -/
theorem SentenceWords.change_bound {stmt : ParsedStatement} {ls : List Lexeme}
    (h : SentenceWords types bound stmt ls)
    (hbound : ∀ lo hi n m, TimeSelect lo hi ls → bound lo = some n → bound hi = some m →
      bound' lo = some n ∧ bound' hi = some m) :
    SentenceWords types bound' stmt ls := by
  obtain ⟨words, ending, rfl, hstmt, hending⟩ := sentenceWords_iff.mp h
  refine sentenceWords_iff.mpr ⟨words, ending, rfl, ?_, hending⟩
  cases hstmt with
  | createTable hcreate htable hl hlist hr => exact .createTable hcreate htable hl hlist hr
  | dropTable hdrop htable => exact .dropTable hdrop htable
  | insert hinsert hinto hnamed hvalues hl hlist hr hcount =>
    exact .insert hinsert hinto hnamed hvalues hl hlist hr hcount
  | select hselect hprojected hfrom hcondition =>
    refine .select hselect hprojected hfrom ?_
    cases hcondition with
    | monostate => exact .monostate
    | eq hkw hequals hvalue => exact .eq hkw hequals hvalue
    | tsBetween hkw hbetween hlo hn hand hhi hm =>
      obtain ⟨hn', hm'⟩ := hbound _ _ _ _ (.of_words hselect hprojected hfrom hkw hbetween hlo hand
        hhi hending) hn hm
      exact .tsBetween hkw hbetween hlo hn' hand hhi hm'

/-- A selection by time stamps is a sentence where its bounds are bounds. -/
theorem TimeSelect.sentenceWords {lo hi : Bytes} {ls : List Lexeme} {n m : UInt64}
    (h : TimeSelect lo hi ls) (hn : bound lo = some n) (hm : bound hi = some m) :
    ∃ name projection,
      SentenceWords types bound (.select ⟨name, projection, .tsBetween ⟨n, m⟩⟩) ls := by
  cases h with
  | mk hselect hprojected hfrom hkw hbetween hand hending =>
    exact ⟨_, _, sentenceWords_iff.mpr ⟨_, _, rfl, .select hselect hprojected hfrom
      (.tsBetween hkw hbetween rfl hn hand rfl hm), hending⟩⟩

/-- A sentence that selects by time stamps has bounds. -/
theorem SentenceWords.bounds {name : Bytes} {projection : List Bytes} {n m : UInt64}
    {ls : List Lexeme}
    (h : SentenceWords types bound (.select ⟨name, projection, .tsBetween ⟨n, m⟩⟩) ls) :
    ∃ lo hi, TimeSelect lo hi ls ∧ bound lo = some n ∧ bound hi = some m := by
  obtain ⟨words, ending, rfl, hstmt, hending⟩ := sentenceWords_iff.mp h
  cases hstmt with
  | select hselect hprojected hfrom hcondition =>
    cases hcondition with
    | tsBetween hkw hbetween hlo hn hand hhi hm =>
      exact ⟨_, _, .of_words hselect hprojected hfrom hkw hbetween hlo hand hhi hending, hn, hm⟩

end

/-- What is said of the parser on a text. -/
structure ParsesAsDocumented (sql : Bytes) : Prop where
  noReadPastEnd : parseStatement sql ≠ .error .pastEnd
  /-- A statement is one of the documented grammar. -/
  documented : ∀ stmt, parseStatement sql = .ok stmt →
    ∃ words, StatementWords documentedType documentedBound stmt words
  /-- A text has a statement where its words are such, with bounds that stand for their
  values. -/
  bounds : ∀ stmt, parseStatement sql = .ok stmt ↔
    ∃ ls, lex sql = some ls ∧ SentenceWords columnTypeFromString documentedBound stmt ls
  printed : ∀ stmt, parseStatement sql = .ok stmt → parseStatement (print stmt) = .ok stmt
  /-- The case of letters outside literals does not matter. -/
  anyCase : ∀ sql', CaseVariant false sql sql' →
    (parseStatement sql').toOption = (parseStatement sql).toOption
  /-- Nor does the white space between tokens. -/
  anySpace : ∀ a b w w', sql = a ++ w ++ b → (∀ c ∈ w, isspace c = true) →
    (∀ c ∈ w', isspace c = true) → endsInside false a = false →
    (w = [] ∨ w' = [] → Between a b) →
    (parseStatement (a ++ w' ++ b)).toOption = (parseStatement sql).toOption

/-- No bound of a selection by time stamps is below zero, where both have at most 64 bits. -/
def NoNegativeBound (sql : Bytes) : Prop :=
  ∀ ls lo hi, lex sql = some ls → TimeSelect lo hi ls → lo ≠ [] → hi ≠ [] →
    (intValue lo).natAbs < 2 ^ 64 → (intValue hi).natAbs < 2 ^ 64 →
    0 ≤ intValue lo ∧ 0 ≤ intValue hi

theorem stoull_isSome {text : Bytes} (hne : text ≠ []) (h : (intValue text).natAbs < 2 ^ 64) :
    ∃ n, stoull text = some n := by
  rw [stoull_eq text hne, if_pos h]
  exact ⟨_, rfl⟩

theorem of_stoull_eq_some {text : Bytes} {n : UInt64} (h : stoull text = some n) :
    text ≠ [] ∧ (intValue text).natAbs < 2 ^ 64 := by
  have hne : text ≠ [] := by
    rintro rfl
    cases h
  refine ⟨hne, ?_⟩
  rw [stoull_eq text hne] at h
  split at h
  · assumption
  · cases h

theorem ParsesAsDocumented.noNegativeBound {sql : Bytes} (h : ParsesAsDocumented sql) :
    NoNegativeBound sql := by
  intro ls lo hi hls hselect hlo hhi hlo64 hhi64
  obtain ⟨n, hn⟩ := stoull_isSome hlo hlo64
  obtain ⟨m, hm⟩ := stoull_isSome hhi hhi64
  -- the parser takes the text, so its bounds are as documented
  obtain ⟨name, projection, hwords⟩ := hselect.sentenceWords hn hm
  obtain ⟨ls', hls', hwords'⟩ := (h.bounds _).mp (parseStatement_eq_ok.mpr ⟨ls, hls, hwords⟩)
  rw [hls] at hls'
  cases hls'
  obtain ⟨lo', hi', hselect', hn', hm'⟩ := hwords'.bounds
  obtain ⟨rfl, rfl⟩ := hselect.unique hselect'
  exact ⟨nonneg_of_documentedBound hn', nonneg_of_documentedBound hm'⟩

/-- **The parser meets its documentation just where no bound is below zero**: a bound below
zero whose magnitude has 64 bits is taken modulo `2 ^ 64`. -/
theorem parsesAsDocumented_iff (sql : Bytes) : ParsesAsDocumented sql ↔ NoNegativeBound sql := by
  refine ⟨fun h => h.noNegativeBound, fun hbound => ?_⟩
  refine ⟨parseStatement_ne_pastEnd sql, ?_, ?_, fun _ => parseStatement_print, ?_, ?_⟩
  · intro stmt h
    obtain ⟨words, -, hwords⟩ := printed_of_parseStatement h
    exact ⟨words, hwords⟩
  · intro stmt
    rw [parseStatement_eq_ok]
    constructor
    · rintro ⟨ls, hls, hwords⟩
      refine ⟨ls, hls, hwords.change_bound ?_⟩
      intro lo hi n m hselect hn hm
      obtain ⟨hlo, hlo64⟩ := of_stoull_eq_some hn
      obtain ⟨hhi, hhi64⟩ := of_stoull_eq_some hm
      obtain ⟨hlo0, hhi0⟩ := hbound ls lo hi hls hselect hlo hhi hlo64 hhi64
      exact ⟨by rw [← stoull_of_nonneg hlo0, hn], by rw [← stoull_of_nonneg hhi0, hm]⟩
    · rintro ⟨ls, hls, hwords⟩
      exact ⟨ls, hls, hwords.mono (fun _ _ h => h) fun _ _ => stoull_of_documentedBound⟩
  · intro sql' h
    exact parseStatement_congr (lex_caseVariant h).symm
  · rintro a b w w' rfl hw hw' houtside hcut
    refine parseStatement_congr (lex_respaced hw' hw houtside ?_)
    rintro (h | h)
    · exact hcut (Or.inr h)
    · exact hcut (Or.inl h)

/-- A negative bound is taken for a large one. -/
theorem negative_bound_taken :
    (parseStatement (ascii "SELECT * FROM t WHERE __ts BETWEEN -1 AND 5")).toOption =
        some (.select ⟨ascii "t", [], .tsBetween ⟨18446744073709551615, 5⟩⟩) ∧
      ¬ ParsesAsDocumented (ascii "SELECT * FROM t WHERE __ts BETWEEN -1 AND 5") := by
  refine ⟨by decide +kernel, ?_⟩
  intro h
  have hlex : lex (ascii "SELECT * FROM t WHERE __ts BETWEEN -1 AND 5") =
      some ([⟨.Ident, ascii "select"⟩, ⟨.Star, ascii "*"⟩, ⟨.Ident, ascii "from"⟩,
        ⟨.Ident, ascii "t"⟩, ⟨.Ident, ascii "where"⟩, ⟨.Ident, ascii "__ts"⟩,
        ⟨.Ident, ascii "between"⟩, ⟨.Integer, ascii "-1"⟩, ⟨.Ident, ascii "and"⟩,
        ⟨.Integer, ascii "5"⟩, endMark]) := by
    decide +kernel
  have hselect := @TimeSelect.mk (ascii "-1") (ascii "5") ⟨.Ident, ascii "select"⟩
    ⟨.Ident, ascii "from"⟩ ⟨.Ident, ascii "where"⟩ ⟨.Ident, ascii "between"⟩ ⟨.Ident, ascii "and"⟩
    (ascii "t") [] [⟨.Star, ascii "*"⟩] [endMark] ⟨rfl, by decide⟩ (.star rfl) ⟨rfl, by decide⟩
    ⟨rfl, by decide⟩ ⟨rfl, by decide⟩ ⟨rfl, by decide⟩ (.plain rfl)
  have hnonneg := h.noNegativeBound _ _ _ hlex hselect (by decide) (by decide) (by decide)
    (by decide)
  revert hnonneg
  decide

end ChronoLog.Plugins
