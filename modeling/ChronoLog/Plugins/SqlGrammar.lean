import ChronoLog.Plugins.SqlParser

/-!
# The grammar of SQL statements

The statements of the plugin as words over kinds and texts of tokens, and that the parser
takes just these (`chronosql.h`, `chronosql_sql_parser.cpp`).

## Main definitions

* `ColumnWords`, `ValueWords`, `WhereWords`, `StatementWords` — the words of the parts and of
  a statement.
* `SentenceWords` — a statement with an optional semicolon and the marker.

## Main results

* `parse_iff` — **the parser takes the words of the grammar and gives their statements.**
-/

namespace ChronoLog.Plugins

open TokenParsers

/-! ### Words -/

/-- A word that is a keyword, in any case. -/
def Keyword (kw : String) (l : Lexeme) : Prop := l.kind = .Ident ∧ iequals l.text (ascii kw) = true

/-- A comma. -/
def Comma (l : Lexeme) : Prop := l.kind = .Comma

section

variable (types : Bytes → Option ColumnType) (bound : Bytes → Option UInt64)

/-- `col [type]`, where a type may have a length. -/
inductive ColumnWords : Column → List Lexeme → Prop where
  | untyped {name : Bytes} : ColumnWords ⟨name, .STRING⟩ [⟨.Ident, name⟩]
  | typed {name t : Bytes} {type : ColumnType} : types t = some type →
      ColumnWords ⟨name, type⟩ [⟨.Ident, name⟩, ⟨.Ident, t⟩]
  | sized {name t : Bytes} {type : ColumnType} {lparen length rparen : Lexeme} :
      types t = some type → lparen.kind = .LParen → length.kind = .Integer →
      rparen.kind = .RParen →
      ColumnWords ⟨name, type⟩ [⟨.Ident, name⟩, ⟨.Ident, t⟩, lparen, length, rparen]

/-- The name of a column. -/
def NameWords (name : Bytes) (ls : List Lexeme) : Prop := ls = [⟨.Ident, name⟩]

/-- A literal, or `none` for a null. -/
inductive ValueWords : Option Bytes → List Lexeme → Prop where
  | null {l : Lexeme} : Keyword "null" l → ValueWords none [l]
  | literal {l : Lexeme} : l.kind = .StringLit ∨ l.kind = .Integer ∨ l.kind = .Decimal →
      ValueWords (some l.text) [l]

/-- `[(col, ...)]`. -/
inductive InsertColumns : List Bytes → List Lexeme → Prop where
  | none : InsertColumns [] []
  | some {columns : List Bytes} {used : List Lexeme} {lparen rparen : Lexeme} :
      lparen.kind = .LParen → CommaList Comma NameWords columns used → rparen.kind = .RParen →
      InsertColumns columns (lparen :: (used ++ [rparen]))

/-- `* | col, ...`. -/
inductive ProjectionWords : List Bytes → List Lexeme → Prop where
  | star {star : Lexeme} : star.kind = .Star → ProjectionWords [] [star]
  | columns {columns : List Bytes} {used : List Lexeme} :
      CommaList Comma NameWords columns used → ProjectionWords columns used

/-- `[WHERE col = value | WHERE __ts BETWEEN n AND n]`. -/
inductive WhereWords : Where → List Lexeme → Prop where
  | monostate : WhereWords .monostate []
  | eq {kw equals : Lexeme} {column : Bytes} {v : Option Bytes} {used : List Lexeme} :
      Keyword "where" kw → equals.kind = .Equals → ValueWords v used →
      WhereWords (.eq ⟨column, v.getD [], v.isNone⟩) (kw :: ⟨.Ident, column⟩ :: equals :: used)
  | tsBetween {kw between and_ lo hi : Lexeme} {n m : UInt64} :
      Keyword "where" kw → Keyword "between" between → lo.kind = .Integer →
      bound lo.text = some n → Keyword "and" and_ → hi.kind = .Integer →
      bound hi.text = some m →
      WhereWords (.tsBetween ⟨n, m⟩) [kw, ⟨.Ident, ascii "__ts"⟩, between, lo, and_, hi]

/-- The four statements. -/
inductive StatementWords : ParsedStatement → List Lexeme → Prop where
  | createTable {create table lparen rparen : Lexeme} {name : Bytes} {columns : List Column}
      {used : List Lexeme} :
      Keyword "create" create → Keyword "table" table → lparen.kind = .LParen →
      CommaList Comma (ColumnWords types) columns used → rparen.kind = .RParen →
      StatementWords (.createTable ⟨name, columns⟩)
        (create :: table :: ⟨.Ident, name⟩ :: lparen :: (used ++ [rparen]))
  | dropTable {drop table : Lexeme} {name : Bytes} :
      Keyword "drop" drop → Keyword "table" table →
      StatementWords (.dropTable ⟨name⟩) [drop, table, ⟨.Ident, name⟩]
  | insert {insert into values_ lparen rparen : Lexeme} {name : Bytes} {columns : List Bytes}
      {values : List (Option Bytes)} {named used : List Lexeme} :
      Keyword "insert" insert → Keyword "into" into → InsertColumns columns named →
      Keyword "values" values_ → lparen.kind = .LParen → CommaList Comma ValueWords values used →
      rparen.kind = .RParen → (columns ≠ [] → columns.length = values.length) →
      StatementWords
        (.insert ⟨name, columns, values.map fun v => v.getD [], values.map Option.isNone⟩)
        (insert :: into :: ⟨.Ident, name⟩ ::
          (named ++ values_ :: lparen :: (used ++ [rparen])))
  | select {select from_ : Lexeme} {name : Bytes} {projection : List Bytes} {condition : Where}
      {projected used : List Lexeme} :
      Keyword "select" select → ProjectionWords projection projected → Keyword "from" from_ →
      WhereWords bound condition used →
      StatementWords (.select ⟨name, projection, condition⟩)
        (select :: (projected ++ from_ :: ⟨.Ident, name⟩ :: used))

/-- A statement, an optional semicolon and the marker. -/
inductive SentenceWords : ParsedStatement → List Lexeme → Prop where
  | plain {stmt : ParsedStatement} {used : List Lexeme} {last : Lexeme} :
      StatementWords types bound stmt used → last.kind = .End →
      SentenceWords stmt (used ++ [last])
  | semicolon {stmt : ParsedStatement} {used : List Lexeme} {semicolon last : Lexeme} :
      StatementWords types bound stmt used → semicolon.kind = .Semicolon → last.kind = .End →
      SentenceWords stmt (used ++ [semicolon, last])

end

/-! ### What the parser takes -/

theorem isKeyword_iff {kw : String} {t : Token} :
    isKeyword kw t = true ↔ Keyword kw t.lexeme := by
  simp [isKeyword, Keyword, Token.lexeme]

@[simp] theorem kind_lexeme (t : Token) : t.lexeme.kind = t.kind := rfl

@[simp] theorem text_lexeme (t : Token) : t.lexeme.text = t.text := rfl

theorem lexeme_eq {t : Token} {kind : Tok} (h : t.kind = kind) : t.lexeme = ⟨kind, t.text⟩ := by
  rw [← h]
  rfl

theorem fail_ne_ok {α : Type} {message : Bytes} {t : Token} {a : α} {ts rest : List Token}
    (h : (fail message t : Parse α) ts = .ok (a, rest)) : False := by
  cases h

theorem expectKeyword_eq_ok {kw : String} {u : Unit} {ts rest : List Token} :
    expectKeyword kw ts = .ok (u, rest) ↔ ∃ t, ts = t :: rest ∧ Keyword kw t.lexeme := by
  rw [expectKeyword, peek_bind_eq_ok]
  constructor
  · rintro ⟨t, tail, rfl, h⟩
    split at h
    · next hkw =>
      cases h
      exact ⟨t, rfl, isKeyword_iff.mp hkw⟩
    · exact (fail_ne_ok h).elim
  · rintro ⟨t, rfl, h⟩
    exact ⟨t, rest, rfl, by rw [if_pos (isKeyword_iff.mpr h)]; rfl⟩

theorem expectIdent_eq_ok {t : Token} {ts rest : List Token} :
    expectIdent ts = .ok (t, rest) ↔ ts = t :: rest ∧ t.kind = .Ident := by
  rw [expectIdent, peek_bind_eq_ok]
  constructor
  · rintro ⟨t', tail, rfl, h⟩
    split at h
    · next hkind =>
      cases h
      exact ⟨rfl, hkind⟩
    · exact (fail_ne_ok h).elim
  · rintro ⟨rfl, h⟩
    exact ⟨t, rest, rfl, by rw [if_pos h]; rfl⟩

theorem expect_eq_ok {kind : Tok} {what : String} {u : Unit} {ts rest : List Token} :
    expect kind what ts = .ok (u, rest) ↔ ∃ t, ts = t :: rest ∧ t.kind = kind := by
  rw [expect, peek_bind_eq_ok]
  constructor
  · rintro ⟨t, tail, rfl, h⟩
    split at h
    · next hkind =>
      cases h
      exact ⟨t, rfl, hkind⟩
    · exact (fail_ne_ok h).elim
  · rintro ⟨t, rfl, h⟩
    exact ⟨t, rest, rfl, by rw [if_pos h]; rfl⟩

theorem parseName_eq_ok {name : Bytes} {ts rest : List Token} :
    parseName ts = .ok (name, rest) ↔ ∃ t, ts = t :: rest ∧ t.lexeme = ⟨.Ident, name⟩ := by
  simp only [parseName, bind_eq_ok, expectIdent_eq_ok, pure_eq_ok]
  constructor
  · rintro ⟨t, mid, ⟨rfl, hkind⟩, rfl, rfl⟩
    exact ⟨t, rfl, lexeme_eq hkind⟩
  · rintro ⟨t, rfl, h⟩
    rw [Token.lexeme, Lexeme.mk.injEq] at h
    exact ⟨t, rest, ⟨rfl, h.1⟩, h.2, rfl⟩

section

variable {ts rest : List Token}

theorem parseName_sound {name : Bytes} (h : parseName ts = .ok (name, rest)) :
    ∃ used, ts = used ++ rest ∧ NameWords name (used.map Token.lexeme) := by
  obtain ⟨t, rfl, ht⟩ := parseName_eq_ok.mp h
  exact ⟨[t], rfl, by rw [NameWords, List.map_singleton, ht]⟩

/-- A list of items of the source is a list of words. -/
theorem commaListAll_sound {α : Type} {item : Parse α} {G : α → List Lexeme → Prop} {as : List α}
    (hitem : ∀ {a ts rest}, (∀ t ∈ ts, Token.Sound t) → item ts = .ok (a, rest) →
      ∃ used, ts = used ++ rest ∧ G a (used.map Token.lexeme))
    (hts : ∀ t ∈ ts, t.Sound) (h : commaListAll isComma item ts = .ok (as, rest)) :
    ∃ used, ts = used ++ rest ∧ CommaList Comma G as (used.map Token.lexeme) := by
  obtain ⟨used, rfl, hlist⟩ := commaList_sound hitem hts h
  refine ⟨used, rfl, commaList_map_iff.mpr ?_⟩
  simpa [isComma, Comma] using hlist

theorem commaListAll_complete {α : Type} {item : Parse α} {G : α → List Lexeme → Prop}
    {as : List α} {follow : Token → Prop}
    (hitem : ∀ {a used t rest}, G a (used.map Token.lexeme) → (∀ u ∈ used, Token.Sound u) →
      (isComma t = true ∨ follow t) →
      used ≠ [] ∧ item (used ++ t :: rest) = .ok (a, t :: rest))
    (hfollow : ∀ t, follow t → isComma t = false) {used : List Token}
    (h : CommaList Comma G as (used.map Token.lexeme)) (hused : ∀ u ∈ used, u.Sound) {t : Token}
    (ht : follow t) :
    commaListAll isComma item (used ++ t :: rest) = .ok (as, t :: rest) := by
  have hlist := commaList_map_iff.mp h
  refine @commaList_complete _ _ _ _ _ _ _ follow hitem hfollow as used ?_ hused t rest ht _ ?_
  · simpa [isComma, Comma] using hlist
  · rw [List.length_append]
    omega

theorem skipLength_sound {u : Unit} (h : skipLength ts = .ok (u, rest)) :
    ts = rest ∨ ∃ lparen length rparen, ts = lparen :: length :: rparen :: rest ∧
      lparen.kind = .LParen ∧ length.kind = .Integer ∧ rparen.kind = .RParen := by
  rw [skipLength, peek_bind_eq_ok] at h
  obtain ⟨t, tail, rfl, h⟩ := h
  split at h
  · next hlparen =>
    rw [advance_bind_cons] at h
    rw [peek_bind_eq_ok] at h
    obtain ⟨len, tail, rfl, h⟩ := h
    split at h
    · next hlen =>
      rw [advance_bind_cons] at h
      obtain ⟨rparen, rfl, hrparen⟩ := expect_eq_ok.mp h
      exact Or.inr ⟨t, len, rparen, rfl, hlparen, hlen, hrparen⟩
    · exact (fail_ne_ok h).elim
  · cases h
    exact Or.inl rfl

theorem parseColumn_sound {column : Column} (hts : ∀ t ∈ ts, t.Sound)
    (h : parseColumn ts = .ok (column, rest)) :
    ∃ used, ts = used ++ rest ∧
      ColumnWords columnTypeFromString column (used.map Token.lexeme) := by
  rw [parseColumn, bind_eq_ok] at h
  obtain ⟨name, mid, hname, h⟩ := h
  obtain ⟨rfl, hkind⟩ := expectIdent_eq_ok.mp hname
  rw [peek_bind_eq_ok] at h
  obtain ⟨maybeType, tail, rfl, h⟩ := h
  split at h
  · next htype =>
    rw [advance_bind_cons, bind_eq_ok] at h
    obtain ⟨u, mid, hskip, h⟩ := h
    have hsound := hts maybeType (List.mem_cons_of_mem _ List.mem_cons_self)
    -- the type is looked up as it was written, which is the same up to case
    have hcase : columnTypeFromString maybeType.original = columnTypeFromString maybeType.text := by
      rw [← columnTypeFromString_tolower, (hsound.ident htype).1]
    rw [hcase] at h
    cases hresolved : columnTypeFromString maybeType.text with
    | some type =>
      rw [hresolved] at h
      cases h
      rcases skipLength_sound hskip with rfl | ⟨lparen, length, rparen, rfl, hl, hlen, hr⟩
      · refine ⟨[name, maybeType], rfl, ?_⟩
        simp only [List.map_cons, List.map_nil, lexeme_eq hkind, lexeme_eq htype]
        exact .typed hresolved
      · refine ⟨[name, maybeType, lparen, length, rparen], rfl, ?_⟩
        simp only [List.map_cons, List.map_nil, lexeme_eq hkind, lexeme_eq htype]
        exact .sized hresolved hl hlen hr
    | none =>
      rw [hresolved] at h
      exact (fail_ne_ok h).elim
  · cases h
    refine ⟨[name], rfl, ?_⟩
    simp only [List.map_cons, List.map_nil, lexeme_eq hkind]
    exact .untyped

theorem parseValue_sound {message : String} {v : Option Bytes}
    (h : parseValue message ts = .ok (v, rest)) :
    ∃ used, ts = used ++ rest ∧ ValueWords v (used.map Token.lexeme) := by
  rw [parseValue, peek_bind_eq_ok] at h
  obtain ⟨t, tail, rfl, h⟩ := h
  split at h
  · next hnull =>
    cases h
    exact ⟨[t], rfl, .null (isKeyword_iff.mp hnull)⟩
  · split at h
    · next hliteral =>
      cases h
      exact ⟨[t], rfl, @ValueWords.literal t.lexeme hliteral⟩
    · exact (fail_ne_ok h).elim

theorem parseInsertColumns_sound {columns : List Bytes} (hts : ∀ t ∈ ts, t.Sound)
    (h : parseInsertColumns ts = .ok (columns, rest)) :
    ∃ used, ts = used ++ rest ∧ InsertColumns columns (used.map Token.lexeme) := by
  rw [parseInsertColumns, peek_bind_eq_ok] at h
  obtain ⟨t, tail, rfl, h⟩ := h
  split at h
  · next hlparen =>
    rw [advance_bind_cons, bind_eq_ok] at h
    obtain ⟨names, mid, hnames, h⟩ := h
    obtain ⟨used, rfl, hlist⟩ := commaListAll_sound (fun _ h => parseName_sound h)
      (fun u hu => hts u (List.mem_cons_of_mem _ hu)) hnames
    rw [bind_eq_ok] at h
    obtain ⟨u, mid, hrparen, h⟩ := h
    obtain ⟨rparen, rfl, hr⟩ := expect_eq_ok.mp hrparen
    cases h
    refine ⟨t :: (used ++ [rparen]), by simp, ?_⟩
    rw [List.map_cons, List.map_append, List.map_singleton]
    exact .some hlparen hlist hr
  · cases h
    exact ⟨[], rfl, .none⟩

theorem parseProjection_sound {projection : List Bytes} (hts : ∀ t ∈ ts, t.Sound)
    (h : parseProjection ts = .ok (projection, rest)) :
    ∃ used, ts = used ++ rest ∧ ProjectionWords projection (used.map Token.lexeme) := by
  rw [parseProjection, peek_bind_eq_ok] at h
  obtain ⟨t, tail, rfl, h⟩ := h
  split at h
  · next hstar =>
    cases h
    exact ⟨[t], rfl, .star hstar⟩
  · obtain ⟨used, hused, hlist⟩ := commaListAll_sound (fun _ h => parseName_sound h) hts h
    exact ⟨used, hused, .columns hlist⟩

theorem parseEq_sound {kw : Token} {condition : Where} (hkw : Keyword "where" kw.lexeme)
    (h : parseEq ts = .ok (condition, rest)) :
    ∃ used, ts = used ++ rest ∧ WhereWords stoull condition ((kw :: used).map Token.lexeme) := by
  simp only [parseEq, bind_eq_ok, expectIdent_eq_ok, expect_eq_ok, pure_eq_ok] at h
  obtain ⟨column, mid, ⟨rfl, hcolumn⟩, -, mid, ⟨equals, rfl, hequals⟩, v, mid, hv, rfl, rfl⟩ := h
  obtain ⟨used, rfl, hvalue⟩ := parseValue_sound hv
  refine ⟨column :: equals :: used, rfl, ?_⟩
  simp only [List.map_cons, lexeme_eq hcolumn]
  exact .eq hkw hequals hvalue

theorem parseBounds_sound {kw lhs between : Token} {condition : Where}
    (hkw : Keyword "where" kw.lexeme) (hlhs : lhs.lexeme = ⟨.Ident, ascii "__ts"⟩)
    (hbetween : Keyword "between" between.lexeme) (h : parseBounds ts = .ok (condition, rest)) :
    ∃ used, ts = used ++ rest ∧
      WhereWords stoull condition ((kw :: lhs :: between :: used).map Token.lexeme) := by
  rw [parseBounds, peek_bind_eq_ok] at h
  obtain ⟨lo, tail, rfl, h⟩ := h
  split at h
  · next hlo =>
    rw [advance_bind_cons, bind_eq_ok] at h
    obtain ⟨u, mid, hkeyword, h⟩ := h
    obtain ⟨and_, rfl, hand⟩ := expectKeyword_eq_ok.mp hkeyword
    rw [peek_bind_eq_ok] at h
    obtain ⟨hi, tail, rfl, h⟩ := h
    split at h
    · next hhi =>
      rw [advance_bind_cons] at h
      cases hn : stoull lo.text with
      | none =>
        rw [hn] at h
        exact (fail_ne_ok h).elim
      | some n =>
        cases hm : stoull hi.text with
        | none =>
          rw [hn, hm] at h
          exact (fail_ne_ok h).elim
        | some m =>
          rw [hn, hm] at h
          cases h
          refine ⟨[lo, and_, hi], rfl, ?_⟩
          simp only [List.map_cons, List.map_nil, hlhs]
          exact .tsBetween hkw hbetween hlo hn hand hhi hm
    · exact (fail_ne_ok h).elim
  · exact (fail_ne_ok h).elim

theorem parseWhere_sound {condition : Where} (h : parseWhere ts = .ok (condition, rest)) :
    ∃ used, ts = used ++ rest ∧ WhereWords stoull condition (used.map Token.lexeme) := by
  rw [parseWhere, peek_bind_eq_ok] at h
  obtain ⟨kw, tail, rfl, h⟩ := h
  split at h
  · next hkw =>
    have hkw := isKeyword_iff.mp hkw
    rw [advance_bind_cons, peek_bind_eq_ok] at h
    obtain ⟨lhs, tail, rfl, h⟩ := h
    split at h
    · next hlhs =>
      have hsecond : (peekSecond : Parse (Option Token)) (lhs :: tail) =
          .ok (tail.head?, lhs :: tail) := rfl
      rw [bind_of_ok hsecond] at h
      split at h
      · next hbetween =>
        obtain ⟨htext, hsecond⟩ := hbetween
        cases tail with
        | nil => simp at hsecond
        | cons between tail =>
          rw [advance_bind_cons, advance_bind_cons] at h
          have hword := isKeyword_iff.mp (by simpa using hsecond)
          obtain ⟨used, rfl, hwords⟩ := parseBounds_sound hkw
            (by rw [lexeme_eq hlhs, htext]) hword h
          exact ⟨kw :: lhs :: between :: used, rfl, hwords⟩
      · obtain ⟨used, hused, hwords⟩ := parseEq_sound hkw h
        exact ⟨kw :: used, by rw [hused]; rfl, hwords⟩
    · exact (fail_ne_ok h).elim
  · cases h
    exact ⟨[], rfl, .monostate⟩

theorem parseCreate_sound {kw : Token} {p : ParsedCreateTable} (hts : ∀ t ∈ ts, t.Sound)
    (hkw : Keyword "create" kw.lexeme) (h : parseCreate (kw :: ts) = .ok (p, rest)) :
    ∃ used, ts = used ++ rest ∧ StatementWords columnTypeFromString stoull (.createTable p)
      ((kw :: used).map Token.lexeme) := by
  simp only [parseCreate, advance_bind_cons, bind_eq_ok, expectKeyword_eq_ok, expectIdent_eq_ok,
    expect_eq_ok, pure_eq_ok] at h
  obtain ⟨-, mid, ⟨table, rfl, htable⟩, name, mid, ⟨rfl, hname⟩, -, mid, ⟨lparen, rfl, hlparen⟩,
    columns, mid, hcolumns, -, mid, ⟨rparen, rfl, hrparen⟩, rfl, rfl⟩ := h
  obtain ⟨used, rfl, hlist⟩ := commaListAll_sound parseColumn_sound
    (fun t ht => hts t (by simp [ht])) hcolumns
  refine ⟨table :: name :: lparen :: (used ++ [rparen]), by simp, ?_⟩
  simp only [List.map_cons, List.map_append, List.map_nil, lexeme_eq hname]
  exact .createTable hkw htable hlparen hlist hrparen

theorem parseDrop_sound {kw : Token} {p : ParsedDropTable} (hkw : Keyword "drop" kw.lexeme)
    (h : parseDrop (kw :: ts) = .ok (p, rest)) :
    ∃ used, ts = used ++ rest ∧ StatementWords columnTypeFromString stoull (.dropTable p)
      ((kw :: used).map Token.lexeme) := by
  simp only [parseDrop, advance_bind_cons, bind_eq_ok, expectKeyword_eq_ok, expectIdent_eq_ok,
    pure_eq_ok] at h
  obtain ⟨-, mid, ⟨table, rfl, htable⟩, name, mid, ⟨rfl, hname⟩, rfl, rfl⟩ := h
  refine ⟨[table, name], rfl, ?_⟩
  simp only [List.map_cons, List.map_nil, lexeme_eq hname]
  exact .dropTable hkw htable

theorem parseInsert_sound {kw : Token} {p : ParsedInsert} (hts : ∀ t ∈ ts, t.Sound)
    (hkw : Keyword "insert" kw.lexeme) (h : parseInsert (kw :: ts) = .ok (p, rest)) :
    ∃ used, ts = used ++ rest ∧ StatementWords columnTypeFromString stoull (.insert p)
      ((kw :: used).map Token.lexeme) := by
  simp only [parseInsert, advance_bind_cons, bind_eq_ok, expectKeyword_eq_ok, expectIdent_eq_ok,
    expect_eq_ok] at h
  obtain ⟨-, mid, ⟨into, rfl, hinto⟩, name, mid, ⟨rfl, hname⟩, columns, mid, hcolumns, -, mid,
    ⟨values_, rfl, hvalues⟩, -, mid, ⟨lparen, rfl, hlparen⟩, values, mid, hlist, -, mid,
    ⟨rparen, rfl, hrparen⟩, t, mid, hpeek, h⟩ := h
  obtain ⟨named, rfl, hnamed⟩ := parseInsertColumns_sound
    (fun t ht => hts t (by simp [ht])) hcolumns
  obtain ⟨used, rfl, hused⟩ := commaListAll_sound (fun _ h => parseValue_sound h)
    (fun t ht => hts t (by simp [ht])) hlist
  split at h
  · exact (fail_ne_ok h).elim
  · next hcount =>
    cases h
    obtain ⟨rfl, -⟩ := peek_eq_ok.mp hpeek
    refine ⟨into :: name :: (named ++ values_ :: lparen :: (used ++ [rparen])), by simp, ?_⟩
    simp only [List.map_cons, List.map_append, List.map_nil, lexeme_eq hname]
    refine .insert hkw hinto hnamed hvalues hlparen hused hrparen ?_
    intro hne
    by_contra hdiffer
    exact hcount ⟨hne, hdiffer⟩

theorem parseSelect_sound {kw : Token} {p : ParsedSelect} (hts : ∀ t ∈ ts, t.Sound)
    (hkw : Keyword "select" kw.lexeme) (h : parseSelect (kw :: ts) = .ok (p, rest)) :
    ∃ used, ts = used ++ rest ∧ StatementWords columnTypeFromString stoull (.select p)
      ((kw :: used).map Token.lexeme) := by
  simp only [parseSelect, advance_bind_cons, bind_eq_ok, expectKeyword_eq_ok, expectIdent_eq_ok,
    pure_eq_ok] at h
  obtain ⟨projection, mid, hprojection, -, mid, ⟨from_, rfl, hfrom⟩, name, mid, ⟨rfl, hname⟩,
    condition, mid, hcondition, rfl, rfl⟩ := h
  obtain ⟨projected, rfl, hprojected⟩ := parseProjection_sound hts hprojection
  obtain ⟨used, rfl, hused⟩ := parseWhere_sound hcondition
  refine ⟨projected ++ from_ :: name :: used, by simp, ?_⟩
  simp only [List.map_cons, List.map_append, lexeme_eq hname]
  exact .select hkw hprojected hfrom hused

theorem parseBody_sound {kw : Token} {stmt : ParsedStatement} (hkw : kw.kind = .Ident)
    (hts : ∀ t ∈ ts, t.Sound) (h : parseBody kw (kw :: ts) = .ok (stmt, rest)) :
    ∃ used, ts = used ++ rest ∧
      StatementWords columnTypeFromString stoull stmt ((kw :: used).map Token.lexeme) := by
  unfold parseBody at h
  split at h
  · next hword =>
    rw [bind_eq_ok] at h
    obtain ⟨p, mid, hp, h⟩ := h
    cases h
    exact parseCreate_sound hts ⟨hkw, hword⟩ hp
  · split at h
    · next hword =>
      rw [bind_eq_ok] at h
      obtain ⟨p, mid, hp, h⟩ := h
      cases h
      exact parseDrop_sound ⟨hkw, hword⟩ hp
    · split at h
      · next hword =>
        rw [bind_eq_ok] at h
        obtain ⟨p, mid, hp, h⟩ := h
        cases h
        exact parseInsert_sound hts ⟨hkw, hword⟩ hp
      · split at h
        · next hword =>
          rw [bind_eq_ok] at h
          obtain ⟨p, mid, hp, h⟩ := h
          cases h
          exact parseSelect_sound hts ⟨hkw, hword⟩ hp
        · exact (fail_ne_ok h).elim

/-- **What the parser takes is a sentence of the grammar.** -/
theorem parse_sound {stmt : ParsedStatement} (hended : Ended IsEnd ts) (hts : ∀ t ∈ ts, t.Sound)
    (h : parse ts = .ok (stmt, rest)) :
    SentenceWords columnTypeFromString stoull stmt (ts.map Token.lexeme) := by
  rw [parse, peek_bind_eq_ok] at h
  obtain ⟨kw, tail, rfl, h⟩ := h
  split at h
  · next hkw =>
    rw [bind_eq_ok] at h
    obtain ⟨out, mid, hbody, h⟩ := h
    obtain ⟨used, rfl, hwords⟩ := parseBody_sound hkw
      (fun t ht => hts t (List.mem_cons_of_mem _ ht)) hbody
    rw [bind_eq_ok] at h
    obtain ⟨u, mid', hsemicolon, h⟩ := h
    rw [peek_bind_eq_ok] at h
    obtain ⟨last, tail, rfl, h⟩ := h
    split at h
    · next hlast =>
      cases h
      -- nothing follows the marker
      have hnil : ∀ {a b : List Token} {c : Token}, Ended IsEnd (a ++ c :: b) →
          c.kind = .End → b = [] := by
        intro a b c hended hc
        induction a with
        | nil =>
          cases hended with
          | last => rfl
          | cons hnot _ => exact absurd hc hnot
        | cons d a ih =>
          cases hended' : a ++ c :: b with
          | nil => simp at hended'
          | cons e l =>
            rw [List.cons_append, hended'] at hended
            cases hended with
            | cons _ htail =>
              rw [← hended'] at htail
              exact ih htail
      rw [skipSemicolon, peek_bind_eq_ok] at hsemicolon
      obtain ⟨t, rest', rfl, hsemicolon⟩ := hsemicolon
      split at hsemicolon
      · next hsemi =>
        cases hsemicolon
        obtain rfl : tail = [] := @hnil (kw :: used ++ [t]) tail last
          (by simpa using hended) hlast
        rw [← List.cons_append, List.map_append]
        exact .semicolon hwords hsemi hlast
      · cases hsemicolon
        obtain rfl : tail = [] := @hnil (kw :: used) tail last (by simpa using hended) hlast
        rw [← List.cons_append, List.map_append]
        exact .plain hwords hlast
    · exact (fail_ne_ok h).elim
  · exact (fail_ne_ok h).elim

end

/-! ### What it takes besides -/

theorem lexeme_eq_iff {t : Token} {kind : Tok} {text : Bytes} :
    t.lexeme = ⟨kind, text⟩ ↔ t.kind = kind ∧ t.text = text := by
  rw [Token.lexeme, Lexeme.mk.injEq]

section

variable {t : Token} {used rest : List Token}

theorem expectKeyword_cons {kw : String} (h : Keyword kw t.lexeme) :
    expectKeyword kw (t :: rest) = .ok ((), rest) :=
  expectKeyword_eq_ok.mpr ⟨t, rfl, h⟩

theorem expectIdent_cons (h : t.kind = .Ident) : expectIdent (t :: rest) = .ok (t, rest) :=
  expectIdent_eq_ok.mpr ⟨rfl, h⟩

theorem expect_cons {kind : Tok} {what : String} (h : t.kind = kind) :
    expect kind what (t :: rest) = .ok ((), rest) :=
  expect_eq_ok.mpr ⟨t, rfl, h⟩

/-- What follows an item of a list in parentheses. -/
def Closes (t : Token) : Prop := t.kind = .RParen

theorem isComma_of_closes {t : Token} (h : Closes t) : isComma t = false := by
  rw [isComma, h]
  rfl

theorem parseName_complete {name : Bytes} (h : NameWords name (used.map Token.lexeme)) :
    used ≠ [] ∧ parseName (used ++ t :: rest) = .ok (name, t :: rest) := by
  obtain ⟨u, rfl, hu⟩ := List.map_eq_singleton_iff.mp h
  exact ⟨List.cons_ne_nil _ _, parseName_eq_ok.mpr ⟨u, rfl, hu⟩⟩

theorem parseValue_complete {message : String} {v : Option Bytes}
    (h : ValueWords v (used.map Token.lexeme)) :
    used ≠ [] ∧ parseValue message (used ++ t :: rest) = .ok (v, t :: rest) := by
  generalize hwords : used.map Token.lexeme = words at h
  cases h with
  | @null l hnull =>
    obtain ⟨u, rfl, rfl⟩ := List.map_eq_singleton_iff.mp hwords
    refine ⟨List.cons_ne_nil _ _, ?_⟩
    rw [parseValue, List.singleton_append, peek_bind_cons, if_pos (isKeyword_iff.mpr hnull)]
    rfl
  | @literal l hkind =>
    obtain ⟨u, rfl, rfl⟩ := List.map_eq_singleton_iff.mp hwords
    refine ⟨List.cons_ne_nil _ _, ?_⟩
    have hnot : ¬ isKeyword "null" u = true := by
      intro hnull
      have hident := kind_of_isKeyword hnull
      rw [kind_lexeme, hident] at hkind
      rcases hkind with h | h | h <;> cases h
    rw [kind_lexeme] at hkind
    rw [parseValue, List.singleton_append, peek_bind_cons, if_neg hnot, if_pos hkind]
    rfl

theorem parseColumn_complete {column : Column}
    (h : ColumnWords columnTypeFromString column (used.map Token.lexeme))
    (hused : ∀ u ∈ used, u.Sound) (ht : isComma t = true ∨ Closes t) :
    used ≠ [] ∧ parseColumn (used ++ t :: rest) = .ok (column, t :: rest) := by
  -- what follows is neither a type nor a length
  have hfollow : t.kind ≠ .Ident ∧ t.kind ≠ .LParen := by
    rcases ht with hcomma | hclose
    · have hkind : t.kind = .Comma := by simpa [isComma] using hcomma
      rw [hkind]
      exact ⟨by decide, by decide⟩
    · rw [hclose]
      exact ⟨by decide, by decide⟩
  have htype : ∀ {u : Token} {name : Bytes} {type : ColumnType}, u.Sound →
      u.lexeme = ⟨.Ident, name⟩ → columnTypeFromString name = some type →
      columnTypeFromString u.original = some type := by
    intro u name type hsound hu hresolved
    obtain ⟨hkind, rfl⟩ := lexeme_eq_iff.mp hu
    rw [← columnTypeFromString_tolower, (hsound.ident hkind).1, hresolved]
  generalize hwords : used.map Token.lexeme = words at h
  cases h with
  | untyped =>
    obtain ⟨name, rfl, hname⟩ := List.map_eq_singleton_iff.mp hwords
    obtain ⟨hkind, rfl⟩ := lexeme_eq_iff.mp hname
    refine ⟨List.cons_ne_nil _ _, ?_⟩
    rw [parseColumn, List.singleton_append, bind_of_ok (expectIdent_cons hkind), peek_bind_cons,
      if_neg hfollow.1]
    rfl
  | typed hresolved =>
    obtain ⟨name, tail, rfl, hname, htail⟩ := List.map_eq_cons_iff.mp hwords
    obtain ⟨u, rfl, hu⟩ := List.map_eq_singleton_iff.mp htail
    obtain ⟨hkind, rfl⟩ := lexeme_eq_iff.mp hname
    have horiginal := htype (hused u (by simp)) hu hresolved
    refine ⟨List.cons_ne_nil _ _, ?_⟩
    have hskip : skipLength (t :: rest) = .ok ((), t :: rest) := by
      rw [skipLength, peek_bind_cons, if_neg hfollow.2]
      rfl
    simp only [List.cons_append, List.nil_append]
    rw [parseColumn, bind_of_ok (expectIdent_cons hkind), peek_bind_cons,
      if_pos (lexeme_eq_iff.mp hu).1, advance_bind_cons, bind_of_ok hskip, horiginal]
    rfl
  | sized hresolved hl hlen hr =>
    simp only [List.map_eq_cons_iff, List.map_eq_nil_iff] at hwords
    obtain ⟨name, -, rfl, hname, u, -, rfl, hu, lparen, -, rfl, rfl, length, -, rfl, rfl, rparen, -,
      rfl, rfl, rfl⟩ := hwords
    rw [kind_lexeme] at hl hlen hr
    obtain ⟨hkind, rfl⟩ := lexeme_eq_iff.mp hname
    have horiginal := htype (hused u (by simp)) hu hresolved
    refine ⟨List.cons_ne_nil _ _, ?_⟩
    have hskip : skipLength (lparen :: length :: rparen :: t :: rest) = .ok ((), t :: rest) := by
      rw [skipLength, peek_bind_cons, if_pos hl, advance_bind_cons, peek_bind_cons, if_pos hlen,
        advance_bind_cons, expect_cons hr]
    simp only [List.cons_append, List.nil_append]
    rw [parseColumn, bind_of_ok (expectIdent_cons hkind), peek_bind_cons,
      if_pos (lexeme_eq_iff.mp hu).1, advance_bind_cons, bind_of_ok hskip, horiginal]
    rfl

theorem parseNames_complete {names : List Bytes} {follow : Token → Prop}
    (hfollow : ∀ t, follow t → isComma t = false)
    (h : CommaList Comma NameWords names (used.map Token.lexeme)) (hused : ∀ u ∈ used, u.Sound)
    (ht : follow t) :
    commaListAll isComma parseName (used ++ t :: rest) = .ok (names, t :: rest) :=
  commaListAll_complete (fun hG _ _ => parseName_complete hG) hfollow h hused ht

theorem parseInsertColumns_complete {columns : List Bytes}
    (h : InsertColumns columns (used.map Token.lexeme)) (hused : ∀ u ∈ used, u.Sound)
    (ht : t.kind = .Ident) :
    parseInsertColumns (used ++ t :: rest) = .ok (columns, t :: rest) := by
  generalize hwords : used.map Token.lexeme = words at h
  cases h with
  | none =>
    rw [List.map_eq_nil_iff.mp hwords, List.nil_append, parseInsertColumns, peek_bind_cons,
      if_neg (by rw [ht]; decide)]
    rfl
  | some hl hlist hr =>
    simp only [List.map_eq_cons_iff, List.map_eq_append_iff, List.map_eq_nil_iff] at hwords
    obtain ⟨lparen, -, rfl, rfl, names, -, rfl, rfl, rparen, -, rfl, rfl, rfl⟩ := hwords
    rw [kind_lexeme] at hl hr
    have hnames := @parseNames_complete rparen names (t :: rest) columns Closes
      (fun _ => isComma_of_closes) hlist (fun u hu => hused u (by simp [hu])) hr
    simp only [List.cons_append, List.append_assoc, List.nil_append]
    rw [parseInsertColumns, peek_bind_cons, if_pos hl, advance_bind_cons, bind_of_ok hnames,
      bind_of_ok (expect_cons hr)]
    rfl

theorem parseProjection_complete {projection : List Bytes}
    (h : ProjectionWords projection (used.map Token.lexeme)) (hused : ∀ u ∈ used, u.Sound)
    (ht : t.kind = .Ident) :
    parseProjection (used ++ t :: rest) = .ok (projection, t :: rest) := by
  generalize hwords : used.map Token.lexeme = words at h
  cases h with
  | star hstar =>
    obtain ⟨star, rfl, rfl⟩ := List.map_eq_singleton_iff.mp hwords
    rw [kind_lexeme] at hstar
    rw [List.singleton_append, parseProjection, peek_bind_cons, if_pos hstar]
    rfl
  | columns hlist =>
    rw [← hwords] at hlist
    have hnames := @parseNames_complete t used rest projection (fun t => t.kind = .Ident)
      (fun t h => by rw [isComma, h]; rfl) hlist hused ht
    have hhead : ∃ u tail, used = u :: tail ∧ u.kind = .Ident := by
      cases used with
      | nil =>
        generalize hnil : ([] : List Token).map Token.lexeme = words at hlist
        cases hlist with
        | one hG =>
          rw [← hnil] at hG
          cases hG
        | cons hG _ _ => simp at hnil
      | cons u tail =>
        refine ⟨u, tail, rfl, ?_⟩
        generalize hcons : (u :: tail).map Token.lexeme = words at hlist
        cases hlist with
        | one hG =>
          rw [hG, List.map_cons, List.cons.injEq] at hcons
          exact (lexeme_eq_iff.mp hcons.1).1
        | cons hG _ _ =>
          rw [hG, List.map_cons, List.singleton_append, List.cons.injEq] at hcons
          exact (lexeme_eq_iff.mp hcons.1).1
    obtain ⟨u, tail, rfl, hkind⟩ := hhead
    rw [List.cons_append] at hnames ⊢
    rw [parseProjection, peek_bind_cons, if_neg (by rw [hkind]; decide)]
    exact hnames

theorem parseWhere_complete {condition : Where}
    (h : WhereWords stoull condition (used.map Token.lexeme)) (ht : t.kind ≠ .Ident) :
    parseWhere (used ++ t :: rest) = .ok (condition, t :: rest) := by
  generalize hwords : used.map Token.lexeme = words at h
  cases h with
  | monostate =>
    have hnot : ¬ isKeyword "where" t = true := fun h => ht (kind_of_isKeyword h)
    rw [List.map_eq_nil_iff.mp hwords, List.nil_append, parseWhere, peek_bind_cons, if_neg hnot]
    rfl
  | eq hkw hequals hvalue =>
    simp only [List.map_eq_cons_iff] at hwords
    obtain ⟨kw, -, rfl, rfl, column, -, rfl, hcolumn, equals, value, rfl, rfl, rfl⟩ := hwords
    rw [kind_lexeme] at hequals
    obtain ⟨hkind, rfl⟩ := lexeme_eq_iff.mp hcolumn
    have hsecond : (peekSecond : Parse (Option Token)) (column :: equals :: (value ++ t :: rest)) =
        .ok (some equals, column :: equals :: (value ++ t :: rest)) := rfl
    have hnot : ¬ isKeyword "between" equals = true := by
      intro h
      rw [kind_of_isKeyword h] at hequals
      cases hequals
    simp only [List.cons_append]
    rw [parseWhere, peek_bind_cons, if_pos (isKeyword_iff.mpr hkw), advance_bind_cons,
      peek_bind_cons, if_pos hkind, bind_of_ok hsecond,
      if_neg (fun h => hnot (by simpa using h.2)), parseEq,
      bind_of_ok (expectIdent_cons hkind), bind_of_ok (expect_cons hequals),
      bind_of_ok (parseValue_complete hvalue).2]
    rfl
  | tsBetween hkw hbetween hlo hn hand hhi hm =>
    simp only [List.map_eq_cons_iff, List.map_eq_nil_iff] at hwords
    obtain ⟨kw, -, rfl, rfl, lhs, -, rfl, hlhs, between, -, rfl, rfl, lo, -, rfl, rfl, and_, -, rfl,
      rfl, hi, -, rfl, rfl, rfl⟩ := hwords
    rw [kind_lexeme] at hlo hhi
    obtain ⟨hkind, htext⟩ := lexeme_eq_iff.mp hlhs
    have hsecond : (peekSecond : Parse (Option Token))
        (lhs :: between :: lo :: and_ :: hi :: t :: rest) =
        .ok (some between, lhs :: between :: lo :: and_ :: hi :: t :: rest) := rfl
    have hword : (some between).any (isKeyword "between") = true := by
      simpa using isKeyword_iff.mpr hbetween
    rw [text_lexeme] at hn hm
    simp only [List.cons_append, List.nil_append]
    rw [parseWhere, peek_bind_cons, if_pos (isKeyword_iff.mpr hkw), advance_bind_cons,
      peek_bind_cons, if_pos hkind, bind_of_ok hsecond, if_pos ⟨htext, hword⟩,
      advance_bind_cons, advance_bind_cons, parseBounds, peek_bind_cons, if_pos hlo,
      advance_bind_cons, bind_of_ok (expectKeyword_cons hand), peek_bind_cons, if_pos hhi,
      advance_bind_cons, hn, hm]
    rfl

/-- A word is one keyword only. -/
theorem not_iequals {text : Bytes} {kw kw' : String} (h : iequals text (ascii kw) = true)
    (hne : (ascii kw).map tolower ≠ (ascii kw').map tolower) :
    ¬ iequals text (ascii kw') = true := by
  intro h'
  rw [iequals, decide_eq_true_iff] at h h'
  exact hne (h.symm.trans h')

theorem parseColumns_complete {columns : List Column}
    (h : CommaList Comma (ColumnWords columnTypeFromString) columns (used.map Token.lexeme))
    (hused : ∀ u ∈ used, u.Sound) (ht : t.kind = .RParen) :
    commaListAll isComma parseColumn (used ++ t :: rest) = .ok (columns, t :: rest) :=
  commaListAll_complete (fun hG hused ht => parseColumn_complete hG hused ht)
    (fun _ (h : Closes _) => isComma_of_closes h) h hused ht

theorem parseValues_complete {message : String} {values : List (Option Bytes)}
    (h : CommaList Comma ValueWords values (used.map Token.lexeme)) (hused : ∀ u ∈ used, u.Sound)
    (ht : t.kind = .RParen) :
    commaListAll isComma (parseValue message) (used ++ t :: rest) = .ok (values, t :: rest) :=
  commaListAll_complete (fun hG _ _ => parseValue_complete hG)
    (fun _ (h : Closes _) => isComma_of_closes h) h hused ht

theorem parseCreate_complete {kw table name lparen rparen : Token} {columns : List Column}
    (htable : Keyword "table" table.lexeme) (hname : name.kind = .Ident)
    (hl : lparen.kind = .LParen)
    (hlist : CommaList Comma (ColumnWords columnTypeFromString) columns (used.map Token.lexeme))
    (hused : ∀ u ∈ used, u.Sound) (hr : rparen.kind = .RParen) :
    parseCreate (kw :: table :: name :: lparen :: (used ++ rparen :: rest)) =
      .ok (⟨name.text, columns⟩, rest) := by
  rw [parseCreate, advance_bind_cons, bind_of_ok (expectKeyword_cons htable),
    bind_of_ok (expectIdent_cons hname), bind_of_ok (expect_cons hl),
    bind_of_ok (parseColumns_complete hlist hused hr), bind_of_ok (expect_cons hr)]
  rfl

theorem parseDrop_complete {kw table name : Token} (htable : Keyword "table" table.lexeme)
    (hname : name.kind = .Ident) :
    parseDrop (kw :: table :: name :: rest) = .ok (⟨name.text⟩, rest) := by
  rw [parseDrop, advance_bind_cons, bind_of_ok (expectKeyword_cons htable),
    bind_of_ok (expectIdent_cons hname)]
  rfl

theorem parseInsert_complete {kw into name values_ lparen rparen : Token} {named : List Token}
    {columns : List Bytes} {values : List (Option Bytes)} (hinto : Keyword "into" into.lexeme)
    (hname : name.kind = .Ident) (hnamed : InsertColumns columns (named.map Token.lexeme))
    (hnamedSound : ∀ u ∈ named, u.Sound) (hvalues : Keyword "values" values_.lexeme)
    (hl : lparen.kind = .LParen)
    (hlist : CommaList Comma ValueWords values (used.map Token.lexeme))
    (hused : ∀ u ∈ used, u.Sound) (hr : rparen.kind = .RParen)
    (hcount : columns ≠ [] → columns.length = values.length) :
    parseInsert (kw :: into :: name ::
        (named ++ values_ :: lparen :: (used ++ rparen :: t :: rest))) =
      .ok (⟨name.text, columns, values.map fun v => v.getD [], values.map Option.isNone⟩,
        t :: rest) := by
  have hcolumns := @parseInsertColumns_complete values_ named
    (lparen :: (used ++ rparen :: t :: rest)) columns hnamed hnamedSound hvalues.1
  have hmatch : ¬ (columns ≠ [] ∧ columns.length ≠ values.length) := fun h => h.2 (hcount h.1)
  rw [parseInsert, advance_bind_cons, bind_of_ok (expectKeyword_cons hinto),
    bind_of_ok (expectIdent_cons hname), bind_of_ok hcolumns,
    bind_of_ok (expectKeyword_cons hvalues), bind_of_ok (expect_cons hl),
    bind_of_ok (parseValues_complete hlist hused hr), bind_of_ok (expect_cons hr),
    peek_bind_cons, if_neg hmatch]
  rfl

theorem parseSelect_complete {kw from_ name : Token} {projected : List Token}
    {projection : List Bytes} {condition : Where}
    (hprojected : ProjectionWords projection (projected.map Token.lexeme))
    (hsound : ∀ u ∈ projected, u.Sound) (hfrom : Keyword "from" from_.lexeme)
    (hname : name.kind = .Ident)
    (hcondition : WhereWords stoull condition (used.map Token.lexeme)) (ht : t.kind ≠ .Ident) :
    parseSelect (kw :: (projected ++ from_ :: name :: (used ++ t :: rest))) =
      .ok (⟨name.text, projection, condition⟩, t :: rest) := by
  have hcolumns := @parseProjection_complete from_ projected (name :: (used ++ t :: rest))
    projection hprojected hsound hfrom.1
  rw [parseSelect, advance_bind_cons, bind_of_ok hcolumns, bind_of_ok (expectKeyword_cons hfrom),
    bind_of_ok (expectIdent_cons hname), bind_of_ok (parseWhere_complete hcondition ht)]
  rfl

theorem parseBody_complete {stmt : ParsedStatement}
    (h : StatementWords columnTypeFromString stoull stmt (used.map Token.lexeme))
    (hused : ∀ u ∈ used, u.Sound) (ht : t.kind ≠ .Ident) :
    ∃ kw tail, used = kw :: tail ∧ kw.kind = .Ident ∧
      parseBody kw (used ++ t :: rest) = .ok (stmt, t :: rest) := by
  generalize hwords : used.map Token.lexeme = words at h
  cases h with
  | createTable hcreate htable hl hlist hr =>
    simp only [List.map_eq_cons_iff, List.map_eq_append_iff, List.map_eq_nil_iff] at hwords
    obtain ⟨kw, -, rfl, rfl, table, -, rfl, rfl, name, -, rfl, hname, lparen, -, rfl, rfl, columns,
      -, rfl, rfl, rparen, -, rfl, rfl, rfl⟩ := hwords
    obtain ⟨hkind, rfl⟩ := lexeme_eq_iff.mp hname
    have hbody := @parseCreate_complete columns (t :: rest) kw table name lparen rparen _ htable
      hkind hl hlist (fun u hu => hused u (by simp [hu])) hr
    obtain ⟨hkw, hword⟩ := hcreate
    rw [text_lexeme] at hword
    refine ⟨kw, _, rfl, hkw, ?_⟩
    simp only [List.cons_append, List.append_assoc, List.nil_append]
    rw [parseBody, if_pos hword, bind_of_ok hbody]
    rfl
  | dropTable hdrop htable =>
    simp only [List.map_eq_cons_iff, List.map_eq_nil_iff] at hwords
    obtain ⟨kw, -, rfl, rfl, table, -, rfl, rfl, name, -, rfl, hname, rfl⟩ := hwords
    obtain ⟨hkind, rfl⟩ := lexeme_eq_iff.mp hname
    obtain ⟨hkw, hword⟩ := hdrop
    rw [text_lexeme] at hword
    refine ⟨kw, _, rfl, hkw, ?_⟩
    simp only [List.cons_append, List.nil_append]
    rw [parseBody, if_neg (@not_iequals kw.text "drop" "create" hword (by decide)), if_pos hword,
      bind_of_ok (parseDrop_complete htable hkind)]
    rfl
  | insert hinsert hinto hnamed hvalues hl hlist hr hcount =>
    simp only [List.map_eq_cons_iff, List.map_eq_append_iff, List.map_eq_nil_iff] at hwords
    obtain ⟨kw, -, rfl, rfl, into, -, rfl, rfl, name, -, rfl, hname, named, -, rfl, rfl, values_, -,
      rfl, rfl, lparen, -, rfl, rfl, values, -, rfl, rfl, rparen, -, rfl, rfl, rfl⟩ := hwords
    obtain ⟨hkind, rfl⟩ := lexeme_eq_iff.mp hname
    have hbody := @parseInsert_complete t values rest kw into name values_ lparen rparen named _ _
      hinto hkind hnamed (fun u hu => hused u (by simp [hu])) hvalues hl hlist
      (fun u hu => hused u (by simp [hu])) hr hcount
    obtain ⟨hkw, hword⟩ := hinsert
    rw [text_lexeme] at hword
    refine ⟨kw, _, rfl, hkw, ?_⟩
    simp only [List.cons_append, List.append_assoc, List.nil_append]
    rw [parseBody, if_neg (@not_iequals kw.text "insert" "create" hword (by decide)),
      if_neg (@not_iequals kw.text "insert" "drop" hword (by decide)), if_pos hword,
      bind_of_ok hbody]
    rfl
  | select hselect hprojected hfrom hcondition =>
    simp only [List.map_eq_cons_iff, List.map_eq_append_iff] at hwords
    obtain ⟨kw, -, rfl, rfl, projected, -, rfl, rfl, from_, -, rfl, rfl, name, used, rfl, hname,
      rfl⟩ := hwords
    obtain ⟨hkind, rfl⟩ := lexeme_eq_iff.mp hname
    have hbody := @parseSelect_complete t used rest kw from_ name projected _ _ hprojected
      (fun u hu => hused u (by simp [hu])) hfrom hkind hcondition ht
    obtain ⟨hkw, hword⟩ := hselect
    rw [text_lexeme] at hword
    refine ⟨kw, _, rfl, hkw, ?_⟩
    simp only [List.cons_append, List.append_assoc]
    rw [parseBody, if_neg (@not_iequals kw.text "select" "create" hword (by decide)),
      if_neg (@not_iequals kw.text "select" "drop" hword (by decide)),
      if_neg (@not_iequals kw.text "select" "insert" hword (by decide)),
      if_pos hword, bind_of_ok hbody]
    rfl

/-- **The parser takes every sentence of the grammar.** -/
theorem parse_complete {stmt : ParsedStatement} {ts : List Token} (hts : ∀ u ∈ ts, u.Sound)
    (h : SentenceWords columnTypeFromString stoull stmt (ts.map Token.lexeme)) :
    ∃ rest, parse ts = .ok (stmt, rest) := by
  generalize hwords : ts.map Token.lexeme = words at h
  cases h with
  | plain hstmt hlast =>
    simp only [List.map_eq_append_iff, List.map_eq_singleton_iff] at hwords
    obtain ⟨used, -, rfl, rfl, last, rfl, rfl⟩ := hwords
    rw [kind_lexeme] at hlast
    obtain ⟨kw, tail, rfl, hkw, hbody⟩ := @parseBody_complete last used [] stmt hstmt
      (fun u hu => hts u (by simp [hu])) (by rw [hlast]; decide)
    rw [List.cons_append] at hbody ⊢
    have hsemicolon : skipSemicolon [last] = .ok ((), [last]) := by
      rw [skipSemicolon, peek_bind_cons, if_neg (by rw [hlast]; decide)]
      rfl
    exact ⟨[last], by rw [parse, peek_bind_cons, if_pos hkw, bind_of_ok hbody,
      bind_of_ok hsemicolon, peek_bind_cons, if_pos hlast]; rfl⟩
  | semicolon hstmt hsemi hlast =>
    simp only [List.map_eq_append_iff, List.map_eq_cons_iff, List.map_eq_nil_iff] at hwords
    obtain ⟨used, -, rfl, rfl, semicolon, -, rfl, rfl, last, -, rfl, rfl, rfl⟩ := hwords
    rw [kind_lexeme] at hsemi hlast
    obtain ⟨kw, tail, rfl, hkw, hbody⟩ := @parseBody_complete semicolon used [last] stmt hstmt
      (fun u hu => hts u (by simp [hu])) (by rw [hsemi]; decide)
    rw [List.cons_append] at hbody ⊢
    have hsemicolon : skipSemicolon [semicolon, last] = .ok ((), [last]) := by
      rw [skipSemicolon, peek_bind_cons, if_pos hsemi]
      rfl
    exact ⟨[last], by rw [parse, peek_bind_cons, if_pos hkw, bind_of_ok hbody,
      bind_of_ok hsemicolon, peek_bind_cons, if_pos hlast]; rfl⟩

end

/-- **The parser takes the sentences of the grammar and gives their statements.** -/
theorem parse_iff {stmt : ParsedStatement} {ts : List Token} (hended : Ended IsEnd ts)
    (hts : ∀ t ∈ ts, t.Sound) :
    (∃ rest, parse ts = .ok (stmt, rest)) ↔
      SentenceWords columnTypeFromString stoull stmt (ts.map Token.lexeme) := by
  constructor
  · rintro ⟨rest, h⟩
    exact parse_sound hended hts h
  · exact parse_complete hts

end ChronoLog.Plugins
