import ChronoLog.Plugins.SqlExecution

/-!
# The rows of a table

After a history of `INSERT`s a `SELECT` shows the rows that were inserted and satisfy its
condition, with the values they were given.

A row is lost where its append failed and where its timestamp is the last one, which no
half-open range of the replay reaches.  A value with a zero byte is cut there.  A column that is
named twice is taken with its first value, and an undeclared one is taken with a null.

## Main definitions

* `Executed`, `executeAll` — a statement with the outcome of its append, and a history.
* `Inserted`, `insertedRows` — the rows of the `INSERT`s that were taken.
* `RowsComeBack` — what is said of a history.
* `Storable` — the `INSERT`s after which it holds.

## Main results

* `story_executeAll` — the events of a table are those of its rows.
* `rowsComeBack_iff` — **the rows of a history come back just where every `INSERT` that is
  taken is storable.**
-/

namespace ChronoLog.Plugins

open TokenParsers

/-- A statement with the outcome of its append. -/
structure Executed where
  sql : Bytes
  log : LogOutcome

/-- The statements in order. -/
def executeAll (lib : JsonC) (db : Database) (history : List Executed) : Database :=
  history.foldl (fun db e => (execute lib db e.sql e.log).1) db

/-- A row as it was inserted. -/
structure Inserted where
  timestamp : UInt64
  values : List (Bytes × Bytes)

/-- The row that a statement has inserted into a table. -/
def insertedRow (lib : JsonC) (table : Bytes) (schema : Schema) (db : Database) (e : Executed) :
    Option Inserted :=
  match parseStatement e.sql, (execute lib db e.sql e.log).2 with
  | .ok (.insert p), .ok result =>
    if p.table = table then some ⟨result.last_insert_timestamp.getD 0, p.given schema⟩ else none
  | _, _ => none

/-- The rows that a history has inserted into a table. -/
def insertedRows (lib : JsonC) (table : Bytes) (schema : Schema) :
    Database → List Executed → List Inserted
  | _, [] => []
  | db, e :: history =>
    (insertedRow lib table schema db e).toList ++
      insertedRows lib table schema (execute lib db e.sql e.log).1 history

/-- A row satisfies a condition: a stored value is equal, a column is absent, or the timestamp is
between the bounds. -/
def Inserted.Satisfies (ins : Inserted) : Where → Prop
  | .monostate => True
  | .eq w => ins.values.lookup w.column = if w.isNull then none else some w.value
  | .tsBetween w => w.lo ≤ ins.timestamp ∧ ins.timestamp ≤ w.hi

instance (ins : Inserted) : (condition : Where) → Decidable (ins.Satisfies condition)
  | .monostate => .isTrue trivial
  | .eq w =>
    inferInstanceAs (Decidable (ins.values.lookup w.column =
      if w.isNull then none else some w.value))
  | .tsBetween w => inferInstanceAs (Decidable (w.lo ≤ ins.timestamp ∧ ins.timestamp ≤ w.hi))

/-- A row of a result shows the projected columns of an inserted row. -/
def Shows (cols : List Bytes) (ins : Inserted) (r : Row) : Prop :=
  r.timestamp = ins.timestamp ∧
    ∀ col : Bytes, r.values[col]? = if cols.contains col then ins.values.lookup col else none

/-- The `INSERT` names no column twice, and only declared ones. -/
def WellNamed (schema : Schema) (p : ParsedInsert) : Prop :=
  (namedColumns schema p).Nodup ∧
    ∀ name ∈ namedColumns schema p, name ∈ schema.columns.map Column.name

instance (schema : Schema) (p : ParsedInsert) : Decidable (WellNamed schema p) :=
  inferInstanceAs (Decidable (_ ∧ _))

/-- What is said of a history of `INSERT`s. -/
structure RowsComeBack (lib : JsonC) (table : Bytes) (schema : Schema) (db : Database)
    (history : List Executed) : Prop where
  /-- An `INSERT` that names a column twice or an undeclared one is refused. -/
  refused : ∀ before e after, history = before ++ e :: after →
    ∀ p, parseStatement e.sql = .ok (.insert p) → p.table = table → ¬ WellNamed schema p →
    ∃ thrown, (execute lib (executeAll lib db before) e.sql e.log).2 = .error thrown
  /-- A `SELECT` that is taken shows the rows that satisfy its condition. -/
  shown : ∀ sql p log result, parseStatement sql = .ok (.select p) → p.table = table →
    (execute lib (executeAll lib db history) sql log).2 = .ok result →
    List.Forall₂ (Shows (projectionColumns p schema))
      ((insertedRows lib table schema db history).filter fun ins => ins.Satisfies p.where_)
      result.rows

/-- An `INSERT` that is taken names no column twice and gives no null to an undeclared column, its
names and values have no zero byte, and its timestamp is not 0 nor the last one. -/
def Storable (table : Bytes) (schema : Schema) (e : Executed) : Prop :=
  ∀ p timestamp, parseStatement e.sql = .ok (.insert p) → p.table = table →
    (namedColumns schema p).length = p.values.length →
    (∀ kv ∈ p.given schema, kv.1 ∈ schema.columns.map Column.name) →
    e.log = .returned timestamp →
    WellNamed schema p ∧ (timestamp ≠ 0 ∧ timestamp ≠ MAX_TS) ∧
      ∀ kv ∈ p.given schema, 0 ∉ kv.1 ∧ 0 ∉ kv.2

/-! ### One statement -/

/-- The client has its schemas, and the table is among them. -/
structure Ready (table : Bytes) (schema : Schema) (db : Database) : Prop where
  loaded : db.schemas.loaded = true
  declared : db.schemas.metadata_.get table = some schema

/-- The event of a row; none where the append has failed. -/
def storedEvent (lib : JsonC) (ins : Inserted) : Option StoredEvent :=
  if ins.timestamp = 0 then none
  else some ⟨ins.timestamp, encodeRow lib (emplaceAll ins.values)⟩

section

variable {lib : JsonC} {table : Bytes} {schema : Schema} {db : Database}

theorem getSchema_of_loaded (h : db.schemas.loaded = true) (t : Bytes) :
    db.getSchema lib t = (db, .ok (db.schemas.metadata_.get t)) := by
  unfold Database.getSchema SchemaLog.ensureMetadataLoaded
  rw [if_pos h]
  rfl

theorem execute_insert {sql : Bytes} {p : ParsedInsert}
    (hparse : parseStatement sql = .ok (.insert p)) (log : LogOutcome) :
    execute lib db sql log = db.insert lib p log := by
  unfold execute
  rw [hparse]

theorem execute_select {sql : Bytes} {p : ParsedSelect}
    (hparse : parseStatement sql = .ok (.select p)) (log : LogOutcome) :
    execute lib db sql log = db.select lib p := by
  unfold execute
  rw [hparse]

/-- What an `INSERT` does, whatever its table is. -/
theorem execute_insert_cases (h : db.schemas.loaded = true) {e : Executed} {p : ParsedInsert}
    (hparse : parseStatement e.sql = .ok (.insert p)) :
    (∃ thrown, execute lib db e.sql e.log = (db, .error thrown)) ∨
      ∃ schema' row timestamp, db.schemas.metadata_.get p.table = some schema' ∧
        insertRow schema' p = .ok row ∧ e.log = .returned timestamp ∧
        execute lib db e.sql e.log =
          db.appendEvent p.table (encodeRow lib row) (.returned timestamp) := by
  rw [execute_insert hparse, Database.insert, getSchema_of_loaded h]
  cases hget : db.schemas.metadata_.get p.table with
  | none => exact Or.inl ⟨_, rfl⟩
  | some schema' =>
    dsimp only
    cases hrow : insertRow schema' p with
    | error thrown => exact Or.inl ⟨_, rfl⟩
    | ok row =>
      cases hlog : e.log with
      | returned timestamp => exact Or.inr ⟨schema', row, timestamp, rfl, hrow, rfl, rfl⟩
      | acquireFailed status => exact Or.inl ⟨_, rfl⟩

theorem schemas_appendEvent (t payload : Bytes) (log : LogOutcome) :
    (db.appendEvent t payload log).1.schemas = db.schemas := by
  cases log with
  | returned timestamp =>
    unfold Database.appendEvent
    dsimp only
    split
    · rfl
    · rfl
  | acquireFailed status => rfl

theorem schemas_execute (h : db.schemas.loaded = true) {e : Executed} {p : ParsedInsert}
    (hparse : parseStatement e.sql = .ok (.insert p)) :
    (execute lib db e.sql e.log).1.schemas = db.schemas := by
  rcases @execute_insert_cases lib db h e p hparse with ⟨thrown, heq⟩ | ⟨_, _, _, _, _, _, heq⟩
  · rw [heq]
  · rw [heq, schemas_appendEvent]

theorem Ready.execute (h : Ready table schema db) {e : Executed} {p : ParsedInsert}
    (hparse : parseStatement e.sql = .ok (.insert p)) :
    Ready table schema (execute lib db e.sql e.log).1 where
  loaded := by rw [schemas_execute h.loaded hparse, h.loaded]
  declared := by rw [schemas_execute h.loaded hparse, h.declared]

/-- **The event of a statement is that of its row.** -/
theorem stories_execute (h : Ready table schema db) {e : Executed} {p : ParsedInsert}
    (hparse : parseStatement e.sql = .ok (.insert p)) :
    (execute lib db e.sql e.log).1.stories table =
      db.stories table ++ ((insertedRow lib table schema db e).bind (storedEvent lib)).toList := by
  rcases @execute_insert_cases lib db h.loaded e p hparse with
    ⟨thrown, heq⟩ | ⟨schema', row, timestamp, hget, hrow, -, heq⟩
  · rw [insertedRow, hparse, heq]
    simp
  · by_cases htable : p.table = table
    · subst htable
      rw [h.declared, Option.some.injEq] at hget
      subst hget
      obtain ⟨-, -, rfl⟩ := insertRow_eq_ok.mp hrow
      rw [insertedRow, hparse, heq]
      by_cases hzero : timestamp = 0
      · simp [Database.appendEvent, storedEvent, hzero]
      · simp [Database.appendEvent, storedEvent, hzero]
    · rw [insertedRow, hparse, heq]
      by_cases hzero : timestamp = 0
      · simp [Database.appendEvent, hzero, htable]
      · simp [Database.appendEvent, hzero, htable, Function.update_of_ne (Ne.symm htable)]

/-- The rows that are inserted are those of the `INSERT`s that are taken. -/
theorem insertedRow_eq_some_iff (h : Ready table schema db) {e : Executed} {p : ParsedInsert}
    (hparse : parseStatement e.sql = .ok (.insert p)) {ins : Inserted} :
    insertedRow lib table schema db e = some ins ↔
      p.table = table ∧ (namedColumns schema p).length = p.values.length ∧
        (∀ kv ∈ p.given schema, kv.1 ∈ schema.columns.map Column.name) ∧
        e.log = .returned ins.timestamp ∧ ins.values = p.given schema := by
  constructor
  · intro hins
    rcases @execute_insert_cases lib db h.loaded e p hparse with
      ⟨thrown, heq⟩ | ⟨schema', row, timestamp, hget, hrow, hlog, heq⟩
    · rw [insertedRow, hparse, heq] at hins
      cases hins
    · rw [insertedRow, hparse, heq] at hins
      simp only [Database.appendEvent, Option.getD_some, Option.ite_none_right_eq_some,
        Option.some.injEq] at hins
      obtain ⟨rfl, rfl⟩ := hins
      rw [h.declared, Option.some.injEq] at hget
      subst hget
      obtain ⟨hlen, hdeclared, -⟩ := insertRow_eq_ok.mp hrow
      exact ⟨rfl, hlen, hdeclared, hlog, rfl⟩
  · rintro ⟨rfl, hlen, hdeclared, hlog, hvalues⟩
    have hrow : insertRow schema p = .ok (emplaceAll (p.given schema)) :=
      insertRow_eq_ok.mpr ⟨hlen, hdeclared, rfl⟩
    have hexecute : (execute lib db e.sql e.log).2 =
        .ok { last_insert_timestamp := some ins.timestamp } := by
      rw [execute_insert hparse, Database.insert, getSchema_of_loaded h.loaded, h.declared]
      dsimp only
      rw [hrow, hlog]
      rfl
    rw [insertedRow, hparse, hexecute]
    dsimp only
    rw [if_pos rfl, Option.getD_some, ← hvalues]

theorem executeAll_cons (e : Executed) (history : List Executed) :
    executeAll lib db (e :: history) = executeAll lib (execute lib db e.sql e.log).1 history := rfl

/-- The statements of a history are `INSERT`s. -/
def Inserts (history : List Executed) : Prop :=
  ∀ e ∈ history, ∃ p, parseStatement e.sql = .ok (.insert p)

/-- **The events of a table are those of its rows.** -/
theorem story_executeAll (h : Ready table schema db) {history : List Executed}
    (hinserts : Inserts history) :
    Ready table schema (executeAll lib db history) ∧
      (executeAll lib db history).stories table = db.stories table ++
        (insertedRows lib table schema db history).filterMap (storedEvent lib) := by
  induction history generalizing db with
  | nil => exact ⟨h, by simp [executeAll, insertedRows]⟩
  | cons e history ih =>
    obtain ⟨p, hparse⟩ := hinserts e List.mem_cons_self
    obtain ⟨hready, hstory⟩ := ih (h.execute hparse)
      fun e' he' => hinserts e' (List.mem_cons_of_mem _ he')
    refine ⟨hready, ?_⟩
    rw [executeAll_cons, hstory, stories_execute h hparse, insertedRows, List.filterMap_append,
      List.append_assoc]
    cases insertedRow lib table schema db e with
    | none => rfl
    | some ins => cases hevent : storedEvent lib ins <;> simp [hevent]

/-- A statement of a history, and the state before it. -/
theorem ready_before (h : Ready table schema db) {before after : List Executed} {e : Executed}
    (hinserts : Inserts (before ++ e :: after)) :
    Ready table schema (executeAll lib db before) :=
  (story_executeAll h fun e' he' => hinserts e' (List.mem_append_left _ he')).1

/-- The rows of a history, one statement after the other. -/
theorem mem_insertedRows_iff {history : List Executed} {ins : Inserted} :
    ins ∈ insertedRows lib table schema db history ↔
      ∃ before e after, history = before ++ e :: after ∧
        insertedRow lib table schema (executeAll lib db before) e = some ins := by
  induction history generalizing db with
  | nil => simp [insertedRows]
  | cons e history ih =>
    rw [insertedRows, List.mem_append, ih, Option.mem_toList]
    constructor
    · rintro (hins | ⟨before, e', after, rfl, hins⟩)
      · exact ⟨[], e, history, rfl, hins⟩
      · exact ⟨e :: before, e', after, rfl, hins⟩
    · rintro ⟨before, e', after, heq, hins⟩
      cases before with
      | nil =>
        cases heq
        exact Or.inl hins
      | cons e'' before =>
        cases heq
        exact Or.inr ⟨before, e', after, rfl, hins⟩

/-! ### The rows of a replay -/

/-- The row that a replay of a range makes of an inserted one. -/
def replayedRow (lib : JsonC) (start_ts end_ts : UInt64) (ins : Inserted) : Option Row :=
  (storedEvent lib ins).bind fun e =>
    if start_ts ≤ e.timestamp && e.timestamp < end_ts then
      (decodeRow lib e.payload).map fun values => ⟨e.timestamp, values⟩
    else none

theorem readRows_replayStory (rows : List Inserted) (start_ts end_ts : UInt64) :
    readRows lib (replayStory (rows.filterMap (storedEvent lib)) start_ts end_ts) =
      rows.filterMap (replayedRow lib start_ts end_ts) := by
  induction rows with
  | nil => rfl
  | cons ins rows ih =>
    cases hevent : storedEvent lib ins with
    | none =>
      rw [List.filterMap_cons_none hevent, ih, List.filterMap_cons_none]
      rw [replayedRow, hevent]
      rfl
    | some e =>
      have hrow : replayedRow lib start_ts end_ts ins =
          if start_ts ≤ e.timestamp && e.timestamp < end_ts then
            (decodeRow lib e.payload).map fun values => ⟨e.timestamp, values⟩
          else none := by
        rw [replayedRow, hevent]
        rfl
      rw [List.filterMap_cons_some hevent, List.filterMap_cons, hrow, ← ih]
      unfold replayStory readRows
      rw [List.filter_cons]
      split
      · rw [List.filterMap_cons]
      · rfl

/-- What can be stored of a row: a timestamp that a replay reaches, and no zero byte. -/
structure Inserted.Kept (ins : Inserted) : Prop where
  timestamp : ins.timestamp ≠ 0 ∧ ins.timestamp ≠ MAX_TS
  values : ∀ kv ∈ ins.values, 0 ∉ kv.1 ∧ 0 ∉ kv.2

/-- The row as it is read back. -/
def Inserted.row (ins : Inserted) : Row := ⟨ins.timestamp, emplaceAll ins.values⟩

theorem Inserted.Kept.replayedRow {ins : Inserted} (h : ins.Kept) (hlib : lib.RoundTrips)
    (start_ts end_ts : UInt64) : replayedRow lib start_ts end_ts ins =
      if start_ts ≤ ins.timestamp && ins.timestamp < end_ts then some ins.row else none := by
  have hdecode : decodeRow lib (encodeRow lib (emplaceAll ins.values)) =
      some (emplaceAll ins.values) := by
    apply decodeRow_encodeRow hlib
    intro k v hkv
    rw [getElem?_emplaceAll, List.lookup_eq_some_iff] at hkv
    obtain ⟨before, after, hsplit, -⟩ := hkv
    exact h.values (k, v) (by rw [hsplit]; simp)
  rw [ChronoLog.Plugins.replayedRow, storedEvent, if_neg h.timestamp.1, Option.bind_some]
  dsimp only
  rw [hdecode]
  rfl

/-- **A replay of kept rows shows those of the range.** -/
theorem readRows_of_kept (hlib : lib.RoundTrips) {rows : List Inserted}
    (h : ∀ ins ∈ rows, ins.Kept) (start_ts end_ts : UInt64) :
    readRows lib (replayStory (rows.filterMap (storedEvent lib)) start_ts end_ts) =
      (rows.filter fun ins => start_ts ≤ ins.timestamp && ins.timestamp < end_ts).map
        Inserted.row := by
  rw [readRows_replayStory]
  induction rows with
  | nil => rfl
  | cons ins rows ih =>
    have hins := (h ins List.mem_cons_self).replayedRow hlib start_ts end_ts
    have hrows := ih fun ins' h' => h ins' (List.mem_cons_of_mem _ h')
    by_cases hrange : (decide (start_ts ≤ ins.timestamp) && decide (ins.timestamp < end_ts)) = true
    · rw [if_pos hrange] at hins
      rw [List.filterMap_cons_some hins, hrows, List.filter_cons, if_pos hrange, List.map_cons]
    · rw [if_neg hrange] at hins
      rw [List.filterMap_cons_none hins, hrows, List.filter_cons, if_neg hrange]

/-- A full scan shows all of them. -/
theorem selectAll_of_kept (hlib : lib.RoundTrips) {rows : List Inserted}
    (h : ∀ ins ∈ rows, ins.Kept) :
    selectAll lib (rows.filterMap (storedEvent lib)) = rows.map Inserted.row := by
  rw [selectAll, readRows_of_kept hlib h]
  congr 1
  apply List.filter_eq_self.mpr
  intro ins hins
  obtain ⟨hzero, hlast⟩ := (h ins hins).timestamp
  simp only [MIN_TS, MAX_TS, ne_eq, ← UInt64.toNat_inj, Bool.and_eq_true, decide_eq_true_eq,
    UInt64.le_iff_toNat_le, UInt64.lt_iff_toNat_lt] at *
  have hlt := ins.timestamp.toNat_lt
  simp at *
  omega

/-- The half-open range of an inclusive one holds the same timestamps but the last one. -/
theorem lt_rangeEnd_iff {t hi : UInt64} (h : t ≠ MAX_TS) :
    t < (if hi = MAX_TS then MAX_TS else hi + 1) ↔ t ≤ hi := by
  have ht := t.toNat_lt
  have hhi := hi.toNat_lt
  simp only [MAX_TS, ne_eq, ← UInt64.toNat_inj, UInt64.le_iff_toNat_le, UInt64.lt_iff_toNat_lt] at *
  split
  · next heq =>
    simp at *
    omega
  · next hne =>
    rw [UInt64.toNat_add]
    simp at *
    omega

/-- **The rows of a condition are the inserted rows that satisfy it.** -/
theorem whereRows_of_kept (hlib : lib.RoundTrips) {rows : List Inserted}
    (h : ∀ ins ∈ rows, ins.Kept) {condition : Where} {result : List Row}
    (hresult : whereRows lib (rows.filterMap (storedEvent lib)) condition = .ok result) :
    result = (rows.filter fun ins => ins.Satisfies condition).map Inserted.row := by
  have hvalue : ∀ (ins : Inserted) (col : Bytes),
      ins.row.values[col]? = ins.values.lookup col := fun ins col => getElem?_emplaceAll _ _
  cases condition with
  | monostate =>
    rw [whereRows, selectAll_of_kept hlib h, Except.ok.injEq] at hresult
    rw [← hresult]
    congr 1
    exact (List.filter_eq_self.mpr fun _ _ => rfl).symm
  | eq w =>
    rw [whereRows] at hresult
    split at hresult
    · next hnull =>
      rw [selectAll_of_kept hlib h, Except.ok.injEq] at hresult
      rw [← hresult, List.filter_map]
      congr 1
      refine List.filter_congr fun ins _ => ?_
      rw [Function.comp_apply, hvalue, Bool.eq_iff_iff, decide_eq_true_iff, Inserted.Satisfies,
        if_pos hnull, Option.isNone_iff_eq_none]
    · next hnull =>
      rw [selectByKey, selectAll_of_kept hlib h, Except.ok.injEq] at hresult
      rw [← hresult, List.filter_map]
      congr 1
      refine List.filter_congr fun ins _ => ?_
      rw [Function.comp_apply, hvalue, Bool.eq_iff_iff, decide_eq_true_iff, decide_eq_true_iff,
        Inserted.Satisfies, if_neg hnull]
  | tsBetween w =>
    rw [whereRows] at hresult
    generalize hend : (if w.hi = MAX_TS then MAX_TS else w.hi + 1) = end_ts at hresult
    rw [selectRange] at hresult
    split at hresult
    · cases hresult
    · rw [readRows_of_kept hlib h, Except.ok.injEq] at hresult
      rw [← hresult]
      congr 1
      refine List.filter_congr fun ins hins => ?_
      have hiff := @lt_rangeEnd_iff ins.timestamp w.hi (h ins hins).timestamp.2
      rw [hend] at hiff
      rw [Bool.eq_iff_iff, Bool.and_eq_true, decide_eq_true_iff, decide_eq_true_iff,
        decide_eq_true_iff, Inserted.Satisfies, hiff]

/-! ### What is asked and what is shown -/

/-- What a replay of a range has made a row of. -/
theorem of_replayedRow_eq_some {start_ts end_ts : UInt64} {ins : Inserted} {r : Row}
    (h : replayedRow lib start_ts end_ts ins = some r) :
    ins.timestamp ≠ 0 ∧ ins.timestamp < end_ts ∧ ∃ values,
      decodeRow lib (encodeRow lib (emplaceAll ins.values)) = some values ∧
        r = ⟨ins.timestamp, values⟩ := by
  rw [replayedRow, storedEvent] at h
  split at h
  · cases h
  · next hzero =>
    rw [Option.bind_some] at h
    split at h
    · next hrange =>
      obtain ⟨values, hvalues, heq⟩ := Option.map_eq_some_iff.mp h
      rw [Bool.and_eq_true, decide_eq_true_iff, decide_eq_true_iff] at hrange
      exact ⟨hzero, hrange.2, values, hvalues, heq.symm⟩
    · cases h

/-- A list related to what a partial function makes of it loses nothing. -/
theorem forall₂_filterMap {α β : Type} {f : α → Option β} {R : α → β → Prop} {l : List α}
    (h : List.Forall₂ R l (l.filterMap f)) : ∀ a ∈ l, ∃ b, f a = some b ∧ R a b := by
  induction l with
  | nil => nofun
  | cons a l ih =>
    cases hfa : f a with
    | none =>
      rw [List.filterMap_cons_none hfa] at h
      have hlen := h.length_eq
      have hle := List.length_filterMap_le f l
      rw [List.length_cons] at hlen
      omega
    | some b =>
      rw [List.filterMap_cons_some hfa] at h
      cases h with
      | cons hR htail =>
        intro a' ha'
        rcases List.mem_cons.mp ha' with rfl | hmem
        · exact ⟨b, hfa, hR⟩
        · exact ih htail a' hmem

/-- The columns with a value are among the named ones, in their order. -/
theorem sublist_givenValues (names values : List Bytes) (nulls : List Bool) :
    ((givenValues names values nulls).map Prod.fst).Sublist names := by
  fun_induction givenValues names values nulls with
  | case1 name names v values nulls ih => exact ih.cons _
  | case2 name names v values isNull nulls hnull ih => exact ih.cons_cons _
  | case3 => exact List.nil_sublist _

/-- `__ts` is no column. -/
theorem notMem_ts_of_checkTable (h : checkTable table schema.columns = none) :
    ascii "__ts" ∉ schema.columns.map Column.name := by
  have hcolumns : ∀ (columns : List Column) (seen : List Bytes), checkColumns seen columns = none →
      ∀ c ∈ columns, isReservedName c.name = false := by
    intro columns
    induction columns with
    | nil => nofun
    | cons c columns ih =>
      intro seen hcheck
      change (if c.name = [] then some _ else if isReservedName c.name then some _
        else if c.name ∈ seen then some _
        else checkColumns (c.name :: seen) columns) = none at hcheck
      split at hcheck
      · cases hcheck
      · split at hcheck
        · cases hcheck
        · next hreserved =>
          split at hcheck
          · cases hcheck
          · intro c' hc'
            rcases List.mem_cons.mp hc' with rfl | hmem
            · simpa using hreserved
            · exact ih _ hcheck c' hmem
  intro hmem
  obtain ⟨c, hc, hname⟩ := List.mem_map.mp hmem
  have hreserved := hcolumns schema.columns [] (by
    unfold checkTable at h
    split at h
    · cases h
    · split at h
      · cases h
      · split at h
        · cases h
        · exact h) c hc
  rw [hname] at hreserved
  revert hreserved
  decide

/-- A row with declared columns only shows its projected columns. -/
theorem shows_projectRow {ins : Inserted} (hts : ascii "__ts" ∉ schema.columns.map Column.name)
    (hdeclared : ∀ kv ∈ ins.values, kv.1 ∈ schema.columns.map Column.name) (cols : List Bytes) :
    Shows cols ins (projectRow cols ins.row) := by
  refine ⟨rfl, fun col => ?_⟩
  rw [getElem?_projectRow]
  show (if _ then (emplaceAll ins.values)[col]? else none) = _
  rw [getElem?_emplaceAll]
  by_cases hcol : col = ascii "__ts"
  · subst hcol
    have hnone : ins.values.lookup (ascii "__ts") = none := by
      rw [List.lookup_eq_none_iff]
      intro kv hkv
      have hne : ascii "__ts" ≠ kv.1 := fun heq => hts (heq ▸ hdeclared kv hkv)
      exact bne_iff_ne.mpr hne
    simp [hnone]
  · simp [hcol]

/-- The name of the table of an `INSERT` can be written. -/
theorem isIdent_of_insert {sql : Bytes} {p : ParsedInsert}
    (h : parseStatement sql = .ok (.insert p)) : IsIdent p.table := by
  obtain ⟨ls, hls, hwords⟩ := parseStatement_eq_ok.mp h
  have hnamed := named_of_lex hls
  obtain ⟨words, ending, rfl, hstmt, -⟩ := sentenceWords_iff.mp hwords
  cases hstmt with
  | @insert _ _ _ _ _ name _ _ _ _ _ _ _ _ _ _ _ _ =>
    exact hnamed ⟨.Ident, name⟩ (by simp) rfl

/-- `SELECT *` from a table whose name can be written. -/
theorem exists_selectAll {name : Bytes} (h : IsIdent name) :
    ∃ sql, parseStatement sql = .ok (.select ⟨name, [], .monostate⟩) := by
  have hspells : List.Forall₂ Spells [ascii "SELECT", ascii "*", ascii "FROM", name]
      [printed "SELECT", ⟨.Star, ascii "*"⟩, printed "FROM", ⟨.Ident, name⟩] :=
    .cons (spells_printed (by decide)) (.cons (spells_punctuation (by decide))
      (.cons (spells_printed (by decide)) (.cons (spells_ident h) .nil)))
  have hselect : Keyword "select" (printed "SELECT") := ⟨rfl, by decide⟩
  have hfrom : Keyword "from" (printed "FROM") := ⟨rfl, by decide⟩
  refine ⟨_, parseStatement_eq_ok.mpr ⟨_, lex_spaced hspells, .plain ?_ rfl⟩⟩
  exact @StatementWords.select _ _ _ _ name [] .monostate [⟨.Star, ascii "*"⟩] [] hselect
    (.star rfl) hfrom .monostate

/-! ### Histories -/

/-- The rows of a result, on the events of a history. -/
theorem execute_select_eq (h : Ready table schema db) (hempty : db.stories table = [])
    {history : List Executed} (hinserts : Inserts history) {sql : Bytes} {p : ParsedSelect}
    (hparse : parseStatement sql = .ok (.select p)) (htable : p.table = table) (log : LogOutcome) :
    (execute lib (executeAll lib db history) sql log).2 = selectRows lib schema
      ((insertedRows lib table schema db history).filterMap (storedEvent lib)) p := by
  obtain ⟨hready, hstory⟩ := @story_executeAll lib table schema db h history hinserts
  rw [hempty, List.nil_append] at hstory
  rw [execute_select hparse, Database.select, getSchema_of_loaded hready.loaded, htable,
    hready.declared]
  dsimp only
  rw [hstory]

theorem selectRows_eq_ok {story : List StoredEvent} {p : ParsedSelect} {result : ResultSet}
    (h : selectRows lib schema story p = .ok result) :
    ∃ rows, whereRows lib story p.where_ = .ok rows ∧
      result.rows = rows.map (projectRow (projectionColumns p schema)) := by
  unfold selectRows at h
  split at h
  · cases h
  · next rows hrows =>
    cases h
    exact ⟨rows, hrows, rfl⟩

/-- A history whose `INSERT`s are storable gives its rows back. -/
theorem rowsComeBack_of_storable (hlib : lib.RoundTrips) (h : Ready table schema db)
    (hschema : checkTable table schema.columns = none) (hempty : db.stories table = [])
    {history : List Executed} (hinserts : Inserts history)
    (hstorable : ∀ e ∈ history, Storable table schema e) :
    RowsComeBack lib table schema db history := by
  -- an inserted row comes from an `INSERT` that is taken, and is kept with declared columns
  have hrows : ∀ ins ∈ insertedRows lib table schema db history,
      ins.Kept ∧ ∀ kv ∈ ins.values, kv.1 ∈ schema.columns.map Column.name := by
    intro ins hins
    obtain ⟨before, e, after, rfl, hrow⟩ := mem_insertedRows_iff.mp hins
    obtain ⟨p, hparse⟩ := hinserts e (by simp)
    obtain ⟨htable, hlen, hdeclared, hlog, hvalues⟩ :=
      (insertedRow_eq_some_iff (ready_before h hinserts) hparse).mp hrow
    obtain ⟨-, htimestamp, hbytes⟩ :=
      hstorable e (by simp) p ins.timestamp hparse htable hlen hdeclared hlog
    rw [← hvalues] at hbytes hdeclared
    exact ⟨⟨htimestamp, hbytes⟩, hdeclared⟩
  have hkept := fun ins hins => (hrows ins hins).1
  refine ⟨?_, ?_⟩
  · intro before e after heq p hparse htable hbad
    subst heq
    have hready := @ready_before lib table schema db h before after e hinserts
    cases hresult : (execute lib (executeAll lib db before) e.sql e.log).2 with
    | error thrown => exact ⟨thrown, rfl⟩
    | ok result =>
      have hrow : insertedRow lib table schema (executeAll lib db before) e =
          some ⟨result.last_insert_timestamp.getD 0, p.given schema⟩ := by
        rw [insertedRow, hparse, hresult]
        exact if_pos htable
      obtain ⟨-, hlen, hdeclared, hlog, -⟩ := (insertedRow_eq_some_iff hready hparse).mp hrow
      exact absurd (hstorable e (by simp) p _ hparse htable hlen hdeclared hlog).1 hbad
  · intro sql p log result hparse htable hresult
    rw [execute_select_eq h hempty hinserts hparse htable] at hresult
    obtain ⟨rows, hwhere, hresultRows⟩ := selectRows_eq_ok hresult
    rw [whereRows_of_kept hlib hkept hwhere, List.map_map] at hresultRows
    rw [hresultRows, List.forall₂_map_right_iff, List.forall₂_same]
    intro ins hins
    exact shows_projectRow (notMem_ts_of_checkTable hschema)
      (hrows ins (List.mem_filter.mp hins).1).2 _

/-- A history that gives its rows back has storable `INSERT`s. -/
theorem RowsComeBack.storable (hlib : lib.RoundTrips) (h : Ready table schema db)
    (hempty : db.stories table = []) {history : List Executed} (hinserts : Inserts history)
    (hrows : RowsComeBack lib table schema db history) :
    ∀ e ∈ history, Storable table schema e := by
  intro e he p timestamp hparse htable hlen hdeclared hlog
  obtain ⟨before, after, rfl⟩ := List.append_of_mem he
  have hready := @ready_before lib table schema db h before after e hinserts
  have hrow : insertedRow lib table schema (executeAll lib db before) e =
      some ⟨timestamp, p.given schema⟩ :=
    (insertedRow_eq_some_iff hready hparse).mpr ⟨htable, hlen, hdeclared, hlog, rfl⟩
  have hnamed : WellNamed schema p := by
    by_contra hbad
    obtain ⟨thrown, hthrown⟩ := hrows.refused before e after rfl p hparse htable hbad
    rw [insertedRow, hparse, hthrown] at hrow
    cases hrow
  -- the row is in the result of `SELECT *`
  obtain ⟨sql, hselect⟩ := exists_selectAll (isIdent_of_insert hparse)
  rw [htable] at hselect
  have hmem := mem_insertedRows_iff.mpr ⟨before, e, after, rfl, hrow⟩
  have hresult := @execute_select_eq lib table schema db h hempty _ hinserts _ _ hselect rfl
    (.returned 0)
  have hshown := hrows.shown sql _ _ _ hselect rfl hresult
  have hall : (insertedRows lib table schema db (before ++ e :: after)).filter
      (fun ins => ins.Satisfies .monostate) =
        insertedRows lib table schema db (before ++ e :: after) :=
    List.filter_eq_self.mpr fun _ _ => rfl
  dsimp only at hshown
  rw [hall, projectRows, selectAll, readRows_replayStory, List.map_filterMap] at hshown
  obtain ⟨r, hr, -, hvalues⟩ := forall₂_filterMap hshown _ hmem
  obtain ⟨replayed, hreplayed, rfl⟩ := Option.map_eq_some_iff.mp hr
  obtain ⟨hzero, hlast, values, hdecode, rfl⟩ := of_replayedRow_eq_some hreplayed
  refine ⟨hnamed, ⟨hzero, UInt64.ne_of_lt hlast⟩, ?_⟩
  rintro ⟨k, v⟩ hkv
  have hnodup : ((p.given schema).map Prod.fst).Nodup :=
    hnamed.1.sublist (sublist_givenValues _ _ _)
  have hcol := hvalues k
  have hproj : (projectionColumns ⟨table, [], .monostate⟩ schema).contains k = true :=
    List.contains_iff_mem.mpr (hdeclared _ hkv)
  rw [if_pos hproj,
    (lookup_eq_some_iff_mem hnodup).mpr hkv, getElem?_projectRow] at hcol
  split at hcol
  · exact notMem_of_decodeRow hlib hdecode hcol
  · cases hcol

/-- **The rows of a history come back just where every `INSERT` that is taken is storable.** -/
theorem rowsComeBack_iff (hlib : lib.RoundTrips) (h : Ready table schema db)
    (hschema : checkTable table schema.columns = none) (hempty : db.stories table = [])
    {history : List Executed} (hinserts : Inserts history) :
    RowsComeBack lib table schema db history ↔ ∀ e ∈ history, Storable table schema e :=
  ⟨fun hrows => hrows.storable hlib h hempty hinserts,
    rowsComeBack_of_storable hlib h hschema hempty hinserts⟩

/-- The condition of one statement, by the statement it is parsed to. -/
theorem storable_iff {e : Executed} {p : ParsedInsert} {timestamp : UInt64}
    (hparse : parseStatement e.sql = .ok (.insert p)) (hlog : e.log = .returned timestamp) :
    Storable table schema e ↔ (p.table = table →
      (namedColumns schema p).length = p.values.length →
      (∀ kv ∈ p.given schema, kv.1 ∈ schema.columns.map Column.name) →
      WellNamed schema p ∧ (timestamp ≠ 0 ∧ timestamp ≠ MAX_TS) ∧
        ∀ kv ∈ p.given schema, 0 ∉ kv.1 ∧ 0 ∉ kv.2) := by
  constructor
  · intro h htable hlen hdeclared
    exact h p timestamp hparse htable hlen hdeclared hlog
  · intro h p' timestamp' hparse' htable hlen hdeclared hlog'
    rw [hparse, Except.ok.injEq, ParsedStatement.insert.injEq] at hparse'
    rw [hlog, LogOutcome.returned.injEq] at hlog'
    subst hparse' hlog'
    exact h htable hlen hdeclared

end

/-! ### A table -/

/-- A client that has created a table. -/
def createdTable : Database :=
  (execute compactJson {} (ascii "CREATE TABLE t (a STRING, b INT)") (.returned 5)).1

/-- The schema of the table. -/
def createdSchema : Schema := ⟨ascii "t", [⟨ascii "a", .STRING⟩, ⟨ascii "b", .INT⟩]⟩

theorem ready_createdTable : Ready (ascii "t") createdSchema createdTable where
  loaded := by decide +kernel
  declared := by decide +kernel

theorem stories_createdTable : createdTable.stories (ascii "t") = [] := by decide +kernel

/-- Two rows that come back, one of them with a quote and one with a null. -/
theorem rowsComeBack_createdTable :
    RowsComeBack compactJson (ascii "t") createdSchema createdTable
      [⟨ascii "INSERT INTO t (b, a) VALUES (7, 'it''s')", .returned 10⟩,
        ⟨ascii "INSERT INTO t VALUES (NULL, 8)", .returned 11⟩] := by
  have hfirst : parseStatement (ascii "INSERT INTO t (b, a) VALUES (7, 'it''s')") =
      .ok (.insert ⟨ascii "t", [ascii "b", ascii "a"], [ascii "7", ascii "it's"],
        [false, false]⟩) := toOption_parseStatement.mp (by decide +kernel)
  have hsecond : parseStatement (ascii "INSERT INTO t VALUES (NULL, 8)") =
      .ok (.insert ⟨ascii "t", [], [[], ascii "8"], [true, false]⟩) :=
    toOption_parseStatement.mp (by decide +kernel)
  refine (rowsComeBack_iff compactJson_roundTrips ready_createdTable (by decide)
    stories_createdTable ?_).mpr ?_
  · intro e he
    simp only [List.mem_cons, List.not_mem_nil, or_false] at he
    rcases he with rfl | rfl
    · exact ⟨_, hfirst⟩
    · exact ⟨_, hsecond⟩
  · intro e he
    simp only [List.mem_cons, List.not_mem_nil, or_false] at he
    rcases he with rfl | rfl
    · exact (storable_iff hfirst rfl).mpr (by decide +kernel)
    · exact (storable_iff hsecond rfl).mpr (by decide +kernel)

theorem not_rowsComeBack {sql : Bytes} {p : ParsedInsert} {timestamp : UInt64}
    (hparse : (parseStatement sql).toOption = some (.insert p))
    (hbad : ¬ (p.table = ascii "t" →
      (namedColumns createdSchema p).length = p.values.length →
      (∀ kv ∈ p.given createdSchema, kv.1 ∈ createdSchema.columns.map Column.name) →
      WellNamed createdSchema p ∧ (timestamp ≠ 0 ∧ timestamp ≠ MAX_TS) ∧
        ∀ kv ∈ p.given createdSchema, 0 ∉ kv.1 ∧ 0 ∉ kv.2)) :
    ¬ RowsComeBack compactJson (ascii "t") createdSchema createdTable
      [⟨sql, .returned timestamp⟩] := by
  intro h
  have hparse' := toOption_parseStatement.mp hparse
  have hinserts : Inserts [⟨sql, .returned timestamp⟩] := by
    intro e he
    rw [List.mem_singleton] at he
    rw [he]
    exact ⟨p, hparse'⟩
  have hstorable := h.storable compactJson_roundTrips ready_createdTable stories_createdTable
    hinserts _ (List.mem_singleton_self _)
  exact hbad ((storable_iff hparse' rfl).mp hstorable)

/-- A column that is named twice and a null for an undeclared column are taken; a value is cut at
a zero byte; a row with the last timestamp is not shown, and one whose append has failed is not
there. -/
theorem rows_lost :
    ¬ RowsComeBack compactJson (ascii "t") createdSchema createdTable
        [⟨ascii "INSERT INTO t (a, a) VALUES ('x', 'y')", .returned 10⟩] ∧
      ¬ RowsComeBack compactJson (ascii "t") createdSchema createdTable
        [⟨ascii "INSERT INTO t (c) VALUES (NULL)", .returned 10⟩] ∧
      ¬ RowsComeBack compactJson (ascii "t") createdSchema createdTable
        [⟨ascii "INSERT INTO t (a) VALUES ('x" ++ 0 :: ascii "y')", .returned 10⟩] ∧
      ¬ RowsComeBack compactJson (ascii "t") createdSchema createdTable
        [⟨ascii "INSERT INTO t (a) VALUES ('x')", .returned MAX_TS⟩] ∧
      ¬ RowsComeBack compactJson (ascii "t") createdSchema createdTable
        [⟨ascii "INSERT INTO t (a) VALUES ('x')", .returned 0⟩] := by
  refine ⟨?_, ?_, ?_, ?_, ?_⟩
  · exact @not_rowsComeBack _ ⟨ascii "t", [ascii "a", ascii "a"], [ascii "x", ascii "y"],
      [false, false]⟩ _ (by decide +kernel) (by decide +kernel)
  · exact @not_rowsComeBack _ ⟨ascii "t", [ascii "c"], [[]], [true]⟩ _ (by decide +kernel)
      (by decide +kernel)
  · exact @not_rowsComeBack _ ⟨ascii "t", [ascii "a"], [[120, 0, 121]], [false]⟩ _
      (by decide +kernel) (by decide +kernel)
  · exact @not_rowsComeBack _ ⟨ascii "t", [ascii "a"], [ascii "x"], [false]⟩ _
      (by decide +kernel) (by decide +kernel)
  · exact @not_rowsComeBack _ ⟨ascii "t", [ascii "a"], [ascii "x"], [false]⟩ _
      (by decide +kernel) (by decide +kernel)

end ChronoLog.Plugins
