import ChronoLog.Plugins.SqlTokenizer

/-!
# The parser of SQL statements

Four statements over the tokens of a text, by recursive descent with one token of look-ahead,
and two where a condition on the time stamp may follow (`chronosql_sql_parser.cpp`).

## Main definitions

* `parseCreate`, `parseDrop`, `parseInsert`, `parseSelect` — the statements.
* `stoull` — an integer as an unsigned one, as the standard library converts it.
* `parse`, `parseStatement` — the parser, and the statement of a text.

## Main results

* `parse_meets` — **no token past the marker is read.**
-/

namespace ChronoLog.Plugins

open TokenParsers

/-- The parser of `Token`s. -/
abbrev Parse := Parser Token ParseError

variable {α : Type}

def iequals (a b : Bytes) : Bool := a.map tolower = b.map tolower

def fail (message : Bytes) (t : Token) : Parse α := raise ⟨t.pos, message⟩

/-- A word that is a keyword. -/
def isKeyword (kw : String) (t : Token) : Bool := t.kind = .Ident && iequals t.text (ascii kw)

def expectKeyword (kw : String) : Parse Unit := do
  let t ← peek
  if isKeyword kw t then advance
  else fail (ascii "expected '" ++ ascii kw ++ ascii "'") t

def expectIdent : Parse Token := do
  let t ← peek
  if t.kind = .Ident then
    advance
    return t
  else fail (ascii "expected identifier") t

def expect (kind : Tok) (what : String) : Parse Unit := do
  let t ← peek
  if t.kind = kind then advance
  else fail (ascii "expected '" ++ ascii what ++ ascii "'") t

/-- A comma goes on with a list. -/
def isComma (t : Token) : Bool := t.kind = .Comma

/-- The optional length of a type, which is ignored. -/
def skipLength : Parse Unit := do
  let t ← peek
  if t.kind = .LParen then
    advance
    let len ← peek
    if len.kind = .Integer then
      advance
      expect .RParen ")"
    else fail (ascii "expected integer length") len
  else return ()

/-- A column with its optional type. -/
def parseColumn : Parse Column := do
  let name ← expectIdent
  let maybeType ← peek
  if maybeType.kind = .Ident then
    advance
    skipLength
    match columnTypeFromString maybeType.original with
    | some type => return ⟨name.text, type⟩
    | none => fail (ascii "unknown column type '" ++ maybeType.original ++ ascii "'") maybeType
  else return ⟨name.text, .STRING⟩

def parseCreate : Parse ParsedCreateTable := do
  advance
  expectKeyword "table"
  let table ← expectIdent
  expect .LParen "("
  let columns ← commaListAll isComma parseColumn
  expect .RParen ")"
  return ⟨table.text, columns⟩

def parseDrop : Parse ParsedDropTable := do
  advance
  expectKeyword "table"
  let table ← expectIdent
  return ⟨table.text⟩

/-- A literal, or `none` for a null. -/
def parseValue (message : String) : Parse (Option Bytes) := do
  let v ← peek
  if isKeyword "null" v then
    advance
    return none
  else if v.kind = .StringLit ∨ v.kind = .Integer ∨ v.kind = .Decimal then
    advance
    return some v.text
  else fail (ascii message) v

/-- The name of a column in a list. -/
def parseName : Parse Bytes := do
  let t ← expectIdent
  return t.text

/-- The optional columns of an `INSERT`. -/
def parseInsertColumns : Parse (List Bytes) := do
  let t ← peek
  if t.kind = .LParen then
    advance
    let columns ← commaListAll isComma parseName
    expect .RParen ")"
    return columns
  else return []

def parseInsert : Parse ParsedInsert := do
  advance
  expectKeyword "into"
  let table ← expectIdent
  let columns ← parseInsertColumns
  expectKeyword "values"
  expect .LParen "("
  let values ← commaListAll isComma (parseValue "expected value literal")
  expect .RParen ")"
  let t ← peek
  if columns ≠ [] ∧ columns.length ≠ values.length then
    fail (ascii "INSERT column count does not match value count") t
  else return ⟨table.text, columns, values.map fun v => v.getD [], values.map Option.isNone⟩

/-- The value of decimal digits. -/
def decimal (digits : Bytes) : ℕ := digits.foldl (fun n d => 10 * n + (d.toNat - 48)) 0

/-- `std::stoull` on an integer: a magnitude that does not fit is an error, and a negative
number is taken modulo `2 ^ 64`. -/
def stoull : Bytes → Option UInt64
  | [] => none
  | c :: digits =>
    let n := decimal (if isSign c then digits else c :: digits)
    if n < 2 ^ 64 then some (if c = 45 then 0 - UInt64.ofNat n else UInt64.ofNat n) else none

/-- The token after the next one, if there is one. -/
def peekSecond : Parse (Option Token) := fun ts => .ok (ts.tail.head?, ts)

/-- The bounds after `__ts BETWEEN`. -/
def parseBounds : Parse Where := do
  let lo ← peek
  if lo.kind = .Integer then
    advance
    expectKeyword "and"
    let hi ← peek
    if hi.kind = .Integer then
      advance
      match stoull lo.text, stoull hi.text with
      | some n, some m => return .tsBetween ⟨n, m⟩
      | _, _ => fail (ascii "BETWEEN bounds out of range") lo
    else fail (ascii "expected integer for BETWEEN upper bound") hi
  else fail (ascii "expected integer for BETWEEN lower bound") lo

def parseEq : Parse Where := do
  let column ← expectIdent
  expect .Equals "="
  let v ← parseValue "expected literal value in WHERE"
  return .eq ⟨column.text, v.getD [], v.isNone⟩

/-- The optional condition of a `SELECT`. -/
def parseWhere : Parse Where := do
  let t ← peek
  if isKeyword "where" t then
    advance
    let lhs ← peek
    if lhs.kind = .Ident then
      let second ← peekSecond
      if lhs.text = ascii "__ts" ∧ second.any (isKeyword "between") then
        advance
        advance
        parseBounds
      else parseEq
    else fail (ascii "expected column in WHERE") lhs
  else return .monostate

/-- The columns of a `SELECT`, none for a star. -/
def parseProjection : Parse (List Bytes) := do
  let t ← peek
  if t.kind = .Star then
    advance
    return []
  else commaListAll isComma parseName

def parseSelect : Parse ParsedSelect := do
  advance
  let projection ← parseProjection
  expectKeyword "from"
  let table ← expectIdent
  let condition ← parseWhere
  return ⟨table.text, projection, condition⟩

/-- The statement that starts with a keyword. -/
def parseBody (kw : Token) : Parse ParsedStatement :=
  if iequals kw.text (ascii "create") then do
    let p ← parseCreate
    return .createTable p
  else if iequals kw.text (ascii "drop") then do
    let p ← parseDrop
    return .dropTable p
  else if iequals kw.text (ascii "insert") then do
    let p ← parseInsert
    return .insert p
  else if iequals kw.text (ascii "select") then do
    let p ← parseSelect
    return .select p
  else fail (ascii "unsupported statement '" ++ kw.original ++ ascii "'") kw

/-- The optional semicolon. -/
def skipSemicolon : Parse Unit := do
  let t ← peek
  if t.kind = .Semicolon then advance else return ()

def parse : Parse ParsedStatement := do
  let kw ← peek
  if kw.kind = .Ident then
    let out ← parseBody kw
    skipSemicolon
    let t ← peek
    if t.kind = .End then return out
    else fail (ascii "trailing tokens after statement") t
  else fail (ascii "expected SQL keyword") kw

def parseStatement (sql : Bytes) : Except (Failure ParseError) ParsedStatement :=
  match tokenize sql with
  | .error e => .error (.error e)
  | .ok tokens =>
    match parse tokens with
    | .error e => .error e
    | .ok (stmt, _) => .ok stmt

/-! ### No token past the marker -/

/-- A token is the marker. -/
def IsEnd (t : Token) : Prop := t.kind = .End

/-- The parser keeps the marker in front of it. -/
def Stays (p : Parse α) : Prop :=
  ∀ ts : List Token, Ended IsEnd ts →
    p.Meets ts fun _ rest => Ended IsEnd rest ∧ rest.length ≤ ts.length

/-- The parser keeps the marker in front of it, and takes a token. -/
def Steps (p : Parse α) : Prop :=
  ∀ ts : List Token, Ended IsEnd ts →
    p.Meets ts fun _ rest => Ended IsEnd rest ∧ rest.length < ts.length

section

variable {β : Type} {p : Parse α} {f : α → Parse β}

theorem Steps.stays (h : Steps p) : Stays p :=
  fun ts hts => (h ts hts).mono fun _ _ hrest => ⟨hrest.1, hrest.2.le⟩

theorem stays_pure (a : α) : Stays (pure a : Parse α) := fun _ hts => ⟨hts, Nat.le_refl _⟩

theorem steps_fail (message : Bytes) (t : Token) : Steps (fail message t : Parse α) :=
  fun _ _ => trivial

theorem Stays.bind (h : Stays p) (hf : ∀ a, Stays (f a)) : Stays (p >>= f) := by
  intro ts hts
  rw [meets_bind]
  refine (h ts hts).mono ?_
  rintro a mid ⟨hmid, hle⟩
  refine (hf a mid hmid).mono ?_
  rintro b rest ⟨hrest, hle'⟩
  exact ⟨hrest, hle'.trans hle⟩

theorem Steps.bind (h : Steps p) (hf : ∀ a, Stays (f a)) : Steps (p >>= f) := by
  intro ts hts
  rw [meets_bind]
  refine (h ts hts).mono ?_
  rintro a mid ⟨hmid, hlt⟩
  refine (hf a mid hmid).mono ?_
  rintro b rest ⟨hrest, hle⟩
  exact ⟨hrest, hle.trans_lt hlt⟩

/-- The parser keeps the marker in front of it once a token has been taken that is not the
marker. -/
def Takes (t : Token) (p : Parse α) : Prop :=
  ∀ rest : List Token, Ended IsEnd (t :: rest) → (t.kind ≠ .End → Ended IsEnd rest) →
    p.Meets (t :: rest) fun _ rest' => Ended IsEnd rest' ∧ rest'.length < (t :: rest).length

theorem steps_peek {f : Token → Parse α} (h : ∀ t, Takes t (f t)) : Steps (peek >>= f) := by
  intro ts hts
  rw [meets_bind]
  apply hts.meets_peek
  intro t rest heq htail
  rw [heq] at hts ⊢
  exact h t rest hts htail

theorem takes_fail (message : Bytes) (t t' : Token) : Takes t' (fail message t : Parse α) :=
  fun _ _ _ => trivial

theorem takes_advance_bind {t : Token} (ht : t.kind ≠ .End) {g : Parse α} (hg : Stays g) :
    Takes t (advance >>= fun _ => g) := by
  intro rest _ htail
  rw [meets_bind, meets_advance]
  refine (hg rest (htail ht)).mono ?_
  rintro a rest' ⟨hrest, hle⟩
  exact ⟨hrest, by rw [List.length_cons]; omega⟩

theorem takes_advance {t : Token} (ht : t.kind ≠ .End) : Takes t (advance : Parse Unit) := by
  intro rest _ htail
  exact ⟨htail ht, Nat.lt_succ_self _⟩

/-- A token that is taken, or left for what does not need it. -/
theorem stays_peek {test : Token → Prop} [DecidablePred test] {f g : Token → Parse α}
    (hf : ∀ t, test t → Takes t (f t)) (hg : ∀ t, ¬ test t → Stays (g t)) :
    Stays (peek >>= fun t => if test t then f t else g t) := by
  intro ts hts
  rw [meets_bind]
  apply hts.meets_peek
  intro t rest heq htail
  split
  · next h =>
    rw [heq] at hts ⊢
    exact (hf t h rest hts htail).mono fun _ _ hrest => ⟨hrest.1, hrest.2.le⟩
  · next h => exact hg t h ts hts

end

theorem kind_ne_end {t : Token} {kind : Tok} (h : t.kind = kind) (hkind : kind ≠ .End) :
    t.kind ≠ .End := by
  rw [h]
  exact hkind

theorem kind_of_isKeyword {kw : String} {t : Token} (h : isKeyword kw t = true) :
    t.kind = .Ident := by
  simp only [isKeyword, Bool.and_eq_true, decide_eq_true_eq] at h
  exact h.1

theorem steps_expectKeyword (kw : String) : Steps (expectKeyword kw) := by
  refine steps_peek fun t => ?_
  split
  · next h => exact takes_advance (kind_ne_end (kind_of_isKeyword h) nofun)
  · exact takes_fail _ _ _

theorem steps_expectIdent : Steps expectIdent := by
  refine steps_peek fun t => ?_
  split
  · next h => exact takes_advance_bind (kind_ne_end h nofun) (stays_pure t)
  · exact takes_fail _ _ _

theorem steps_expect {kind : Tok} (hkind : kind ≠ .End) (what : String) :
    Steps (expect kind what) := by
  refine steps_peek fun t => ?_
  split
  · next h => exact takes_advance (kind_ne_end h hkind)
  · exact takes_fail _ _ _

theorem steps_commaListAll {item : Parse α} (h : Steps item) :
    Steps (commaListAll isComma item) := by
  intro ts hts
  refine meets_commaList ?_ (fun hts => h _ hts) hts (Nat.le_refl _)
  intro t hcomma hend
  rw [isComma, hend] at hcomma
  cases hcomma

theorem stays_skipLength : Stays skipLength := by
  refine stays_peek ?_ fun t _ => stays_pure ()
  intro t h
  refine takes_advance_bind (kind_ne_end h nofun) (Steps.stays (steps_peek fun len => ?_))
  split
  · next hlen =>
    exact takes_advance_bind (kind_ne_end hlen nofun) (steps_expect (by decide) _).stays
  · exact takes_fail _ _ _

theorem steps_parseColumn : Steps parseColumn := by
  refine steps_expectIdent.bind fun name => stays_peek ?_ fun _ _ => stays_pure _
  intro t h
  refine takes_advance_bind (kind_ne_end h nofun) (stays_skipLength.bind fun _ => ?_)
  cases columnTypeFromString t.original with
  | some type => exact stays_pure _
  | none => exact (steps_fail _ t).stays

theorem steps_parseName : Steps parseName :=
  steps_expectIdent.bind fun _ => stays_pure _

theorem steps_parseValue (message : String) : Steps (parseValue message) := by
  refine steps_peek fun t => ?_
  split
  · next h =>
    exact takes_advance_bind (kind_ne_end (kind_of_isKeyword h) nofun) (stays_pure none)
  · split
    · next h =>
      refine takes_advance_bind ?_ (stays_pure (some t.text))
      rcases h with h | h | h
      · exact kind_ne_end h nofun
      · exact kind_ne_end h nofun
      · exact kind_ne_end h nofun
    · exact takes_fail _ _ _

theorem stays_parseInsertColumns : Stays parseInsertColumns := by
  refine stays_peek ?_ fun _ _ => stays_pure []
  intro t h
  refine takes_advance_bind (kind_ne_end h nofun) ?_
  refine (steps_commaListAll steps_parseName).stays.bind fun columns => ?_
  exact (steps_expect (by decide) _).stays.bind fun _ => stays_pure columns

theorem stays_parseProjection : Stays parseProjection := by
  refine stays_peek ?_ fun _ _ => (steps_commaListAll steps_parseName).stays
  intro t h
  exact takes_advance_bind (kind_ne_end h nofun) (stays_pure [])

theorem steps_parseEq : Steps parseEq := by
  refine steps_expectIdent.bind fun column => ?_
  refine (steps_expect (by decide) _).stays.bind fun _ => ?_
  exact (steps_parseValue _).stays.bind fun v => stays_pure _

@[simp] theorem meets_peekSecond {ts : List Token} {Q : Option Token → List Token → Prop} :
    peekSecond.Meets ts Q ↔ Q ts.tail.head? ts := Iff.rfl

theorem stays_parseBounds : Stays parseBounds := by
  refine Steps.stays (steps_peek fun lo => ?_)
  split
  · next hlo =>
    refine takes_advance_bind (kind_ne_end hlo nofun) ?_
    refine (steps_expectKeyword _).stays.bind fun _ => Steps.stays (steps_peek fun hi => ?_)
    split
    · next hhi =>
      refine takes_advance_bind (kind_ne_end hhi nofun) ?_
      split
      · exact stays_pure _
      · exact (steps_fail _ _).stays
    · exact takes_fail _ _ _
  · exact takes_fail _ _ _

theorem stays_parseWhere : Stays parseWhere := by
  refine stays_peek ?_ fun _ _ => stays_pure _
  intro t h
  refine takes_advance_bind (kind_ne_end (kind_of_isKeyword h) nofun) (Steps.stays ?_)
  refine steps_peek fun lhs => ?_
  split
  · next hlhs =>
    intro rest hts htail
    rw [meets_bind, meets_peekSecond]
    split
    · next hbetween =>
      -- the token after the next one is the keyword, so neither is the marker
      obtain ⟨-, hsecond⟩ := hbetween
      have hrest := htail (kind_ne_end hlhs nofun)
      cases hrest with
      | @last second hend =>
        have hkind := kind_of_isKeyword (by simpa using hsecond)
        exact absurd hend (kind_ne_end hkind nofun)
      | @cons second rest _ hrest =>
        rw [meets_bind, meets_advance, List.tail_cons, meets_bind, meets_advance, List.tail_cons]
        refine (stays_parseBounds rest hrest).mono ?_
        rintro a rest' ⟨hrest', hle⟩
        exact ⟨hrest', by simp only [List.length_cons]; omega⟩
    · exact steps_parseEq _ hts
  · exact takes_fail _ _ _

theorem stays_parseBody (kw : Token) {rest : List Token} (hkw : kw.kind = .Ident)
    (hts : Ended IsEnd (kw :: rest)) :
    (parseBody kw).Meets (kw :: rest) fun _ rest' => Ended IsEnd rest' := by
  have hrest : Ended IsEnd rest := by
    cases hts with
    | last hend => exact absurd hend (kind_ne_end hkw nofun)
    | cons _ hrest => exact hrest
  -- each statement takes the keyword and goes on
  have htake : ∀ {β γ : Type} {g : Parse β} {f : β → γ}, Stays g →
      ((advance >>= fun _ => g) >>= fun b => pure (f b) : Parse γ).Meets (kw :: rest)
        fun _ rest' => Ended IsEnd rest' := by
    intro β γ g f hg
    rw [meets_bind, meets_bind, meets_advance]
    exact (hg rest hrest).mono fun _ _ h => h.1
  unfold parseBody
  split
  · refine htake ((steps_expectKeyword _).stays.bind fun _ => steps_expectIdent.stays.bind
      fun table => ?_)
    refine (steps_expect (by decide) _).stays.bind fun _ => ?_
    refine (steps_commaListAll steps_parseColumn).stays.bind fun columns => ?_
    exact (steps_expect (by decide) _).stays.bind fun _ => stays_pure _
  · split
    · exact htake ((steps_expectKeyword _).stays.bind fun _ => steps_expectIdent.stays.bind
        fun table => stays_pure _)
    · split
      · refine htake ((steps_expectKeyword _).stays.bind fun _ => steps_expectIdent.stays.bind
          fun table => stays_parseInsertColumns.bind fun columns => ?_)
        refine (steps_expectKeyword _).stays.bind fun _ => ?_
        refine (steps_expect (by decide) _).stays.bind fun _ => ?_
        refine (steps_commaListAll (steps_parseValue _)).stays.bind fun values => ?_
        refine (steps_expect (by decide) _).stays.bind fun _ => stays_peek ?_ ?_
        · intro t _
          exact takes_fail _ _ _
        · intro t _
          exact stays_pure _
      · split
        · refine htake (stays_parseProjection.bind fun projection => ?_)
          refine (steps_expectKeyword _).stays.bind fun _ => ?_
          refine steps_expectIdent.stays.bind fun table => ?_
          exact stays_parseWhere.bind fun condition => stays_pure _
        · trivial

/-- **No token past the marker is read.** -/
theorem parse_meets {tokens : List Token} (h : Ended IsEnd tokens) :
    parse.Meets tokens fun _ rest => Ended IsEnd rest := by
  unfold parse
  rw [meets_bind]
  apply h.meets_peek
  intro kw rest heq _
  split
  · next hkw =>
    rw [heq] at h ⊢
    rw [meets_bind]
    refine (stays_parseBody kw hkw h).mono ?_
    intro out rest hrest
    have hsemicolon : Stays skipSemicolon := by
      refine stays_peek ?_ fun _ _ => stays_pure ()
      intro t ht
      exact takes_advance (kind_ne_end ht nofun)
    rw [meets_bind]
    refine (hsemicolon _ hrest).mono ?_
    rintro u rest ⟨hrest, -⟩
    rw [meets_bind]
    apply hrest.meets_peek
    intro t tail _ _
    split
    · exact hrest
    · trivial
  · trivial

end ChronoLog.Plugins
