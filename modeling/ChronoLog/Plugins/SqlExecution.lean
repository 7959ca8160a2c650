import ChronoLog.Plugins.RowCodec
import ChronoLog.Plugins.SchemaLog
import ChronoLog.Plugins.SqlPrinter

/-!
# The execution of SQL statements

`execute` parses a statement and runs it on the tables of the client and on the stories that
hold their rows (`chronosql.cpp`, `chronosql_mapper.cpp`).  An `INSERT` appends one event, a
`SELECT` replays a range of the story, decodes the events and leaves out what the condition and
the projection do not ask for.

A replay returns the events of the story with a timestamp in the half-open range.

## Main definitions

* `Database` — the schemas and the stories of the rows.
* `insertRow` — the row of an `INSERT`.
* `selectAll`, `selectRange`, `selectByKey`, `projectRows` — the rows of a `SELECT`.
* `execute` — a statement.

## Main results

* `insertRow_eq_ok` — the `INSERT`s that are taken, and their rows.
* `getElem?_projectRow` — what a projection keeps of a row.
-/

namespace ChronoLog.Plugins

open JsonText

/-- An event of a story. -/
structure StoredEvent where
  timestamp : UInt64
  payload : Bytes
  deriving DecidableEq, Repr

structure Row where
  timestamp : UInt64
  values : RowValues

structure ResultSet where
  columns : List Bytes := []
  rows : List Row := []
  last_insert_timestamp : Option UInt64 := none

/-- What an append to a story came to; `log_event` returns 0 where it fails. -/
inductive LogOutcome where
  | returned (timestamp : UInt64)
  | acquireFailed (status : ℤ)
  deriving DecidableEq, Repr

/-- The same for the story of the schemas. -/
def LogOutcome.append : LogOutcome → AppendOutcome
  | .returned timestamp => if timestamp = 0 then .returnedZero else .logged
  | .acquireFailed status => .acquireFailed status

/-- The schemas, and the story of each table. -/
structure Database where
  schemas : SchemaLog := {}
  stories : Bytes → List StoredEvent := fun _ => []

def MIN_TS : UInt64 := 1

def MAX_TS : UInt64 := 0xFFFFFFFFFFFFFFFF

/-! ### `INSERT` -/

/-- The columns an `INSERT` names, all of the table if it names none. -/
def namedColumns (schema : Schema) (p : ParsedInsert) : List Bytes :=
  if p.columns = [] then schema.columns.map Column.name else p.columns

/-- The columns with a value: a null is omitted. -/
def givenValues : List Bytes → List Bytes → List Bool → List (Bytes × Bytes)
  | name :: names, v :: values, isNull :: nulls =>
    if isNull then givenValues names values nulls else (name, v) :: givenValues names values nulls
  | _, _, _ => []

/-- The values an `INSERT` gives. -/
def ParsedInsert.given (p : ParsedInsert) (schema : Schema) : List (Bytes × Bytes) :=
  givenValues (namedColumns schema p) p.values p.isNull

/-- The row of an `INSERT`, with `validateColumnsAgainstSchema`. -/
def insertRow (schema : Schema) (p : ParsedInsert) : Except Thrown RowValues :=
  if (namedColumns schema p).length ≠ p.values.length then
    .error (.invalidArgument (ascii "ChronoSQL: INSERT column count does not match value count"))
  else
    let row := emplaceAll (p.given schema)
    match row.toList.find? fun kv => !(schema.columns.map Column.name).contains kv.1 with
    | some kv =>
      .error (.invalidArgument (ascii "ChronoSQL: unknown column '" ++ kv.1 ++
        ascii "' for table '" ++ schema.table ++ ascii "'"))
    | none => .ok row

/-- `appendEvent`. -/
def Database.appendEvent (db : Database) (table payload : Bytes) :
    LogOutcome → Database × Except Thrown ResultSet
  | .returned timestamp =>
    -- the timestamp is passed on as it is, also a 0
    (if timestamp = 0 then db
      else { db with
        stories := Function.update db.stories table (db.stories table ++ [⟨timestamp, payload⟩]) },
      .ok { last_insert_timestamp := some timestamp })
  | .acquireFailed status =>
    (db, .error (.runtimeError (ascii "Failed to acquire story handle for story: " ++ table ++
      ascii (", error code: " ++ toString status))))

/-! ### `SELECT` -/

/-- `replayEvents`: the events of the half-open range. -/
def replayStory (story : List StoredEvent) (start_ts end_ts : UInt64) : List StoredEvent :=
  story.filter fun e => start_ts ≤ e.timestamp && e.timestamp < end_ts

/-- The rows of events; an event that cannot be decoded is skipped. -/
def readRows (lib : JsonC) (events : List StoredEvent) : List Row :=
  events.filterMap fun e => (decodeRow lib e.payload).map fun values => ⟨e.timestamp, values⟩

def selectAll (lib : JsonC) (story : List StoredEvent) : List Row :=
  readRows lib (replayStory story MIN_TS MAX_TS)

def selectRange (lib : JsonC) (story : List StoredEvent) (start_ts end_ts : UInt64) :
    Except Thrown (List Row) :=
  if start_ts ≥ end_ts then
    .error (.invalidArgument (ascii "ChronoSQL: invalid range, start_ts must be < end_ts"))
  else .ok (readRows lib (replayStory story start_ts end_ts))

def selectByKey (lib : JsonC) (story : List StoredEvent) (column value : Bytes) : List Row :=
  (selectAll lib story).filter fun r => r.values[column]? = some value

def projectionColumns (sel : ParsedSelect) (schema : Schema) : List Bytes :=
  if sel.projection = [] then schema.columns.map Column.name else sel.projection

/-- A row with the projected columns that it has; `__ts` is the timestamp of the row. -/
def projectRow (cols : List Bytes) (r : Row) : Row :=
  { r with values := emplaceAll (cols.filterMap fun c =>
      if c = ascii "__ts" then none else (r.values[c]?).map fun v => (c, v)) }

def projectRows (cols : List Bytes) (rows : List Row) : List Row := rows.map (projectRow cols)

/-- The rows that satisfy a condition. -/
def whereRows (lib : JsonC) (story : List StoredEvent) : Where → Except Thrown (List Row)
  | .tsBetween w =>
    -- `BETWEEN` is inclusive, the range of a replay is half-open
    selectRange lib story w.lo (if w.hi = MAX_TS then MAX_TS else w.hi + 1)
  | .eq w =>
    if w.isNull then .ok ((selectAll lib story).filter fun r => (r.values[w.column]?).isNone)
    else .ok (selectByKey lib story w.column w.value)
  | .monostate => .ok (selectAll lib story)

def selectRows (lib : JsonC) (schema : Schema) (story : List StoredEvent) (p : ParsedSelect) :
    Except Thrown ResultSet :=
  match whereRows lib story p.where_ with
  | .error e => .error e
  | .ok rows =>
    .ok { columns := projectionColumns p schema
          rows := projectRows (projectionColumns p schema) rows }

/-! ### Statements -/

/-- The result of a call that has no rows. -/
def CallResult.toResultSet : CallResult → Except Thrown ResultSet
  | .threw e => .error e
  | _ => .ok {}

/-- What the parser throws. -/
def parseError : TokenParsers.Failure ParseError → Thrown
  | .error e => .invalidArgument
      (ascii ("ChronoSQL parse error at offset " ++ toString e.pos ++ ": ") ++ e.message)
  | .pastEnd => .logicError

/-- The schema of a table, after the load. -/
def Database.getSchema (lib : JsonC) (db : Database) (table : Bytes) :
    Database × Except Thrown (Option Schema) :=
  let r := db.schemas.ensureMetadataLoaded lib
  ({ db with schemas := r.1 },
    if r.2 then .ok (r.1.metadata_.get table) else .error .logicError)

/-- The branch of an `INSERT`. -/
def Database.insert (lib : JsonC) (db : Database) (p : ParsedInsert) (log : LogOutcome) :
    Database × Except Thrown ResultSet :=
  match db.getSchema lib p.table with
  | (db', .error e) => (db', .error e)
  | (db', .ok none) =>
    (db', .error (.runtimeError
      (ascii "ChronoSQL: cannot insert into unknown table '" ++ p.table ++ ascii "'")))
  | (db', .ok (some schema)) =>
    match insertRow schema p with
    | .error e => (db', .error e)
    | .ok row => db'.appendEvent p.table (encodeRow lib row) log

/-- The branch of a `SELECT`. -/
def Database.select (lib : JsonC) (db : Database) (p : ParsedSelect) :
    Database × Except Thrown ResultSet :=
  match db.getSchema lib p.table with
  | (db', .error e) => (db', .error e)
  | (db', .ok none) =>
    (db', .error (.runtimeError
      (ascii "ChronoSQL: cannot SELECT from unknown table '" ++ p.table ++ ascii "'")))
  | (db', .ok (some schema)) => (db', selectRows lib schema (db'.stories p.table) p)

def execute (lib : JsonC) (db : Database) (sql : Bytes) (log : LogOutcome) :
    Database × Except Thrown ResultSet :=
  match parseStatement sql with
  | .error e => (db, .error (parseError e))
  | .ok (.createTable p) =>
    let r := db.schemas.createTable lib p.table p.columns log.append
    ({ db with schemas := r.1 }, r.2.toResultSet)
  | .ok (.dropTable p) =>
    let r := db.schemas.dropTable lib p.table log.append
    ({ db with schemas := r.1 }, r.2.toResultSet)
  | .ok (.insert p) => db.insert lib p log
  | .ok (.select p) => db.select lib p

/-! ### What each part does -/

/-- **The `INSERT`s that are taken, and their rows.** -/
theorem insertRow_eq_ok {schema : Schema} {p : ParsedInsert} {row : RowValues} :
    insertRow schema p = .ok row ↔
      (namedColumns schema p).length = p.values.length ∧
        (∀ kv ∈ p.given schema, kv.1 ∈ schema.columns.map Column.name) ∧
        row = emplaceAll (p.given schema) := by
  unfold insertRow
  split
  · next hlen =>
    constructor
    · intro h
      cases h
    · rintro ⟨hlen', -⟩
      exact absurd hlen' hlen
  · next hlen =>
    -- the columns of the row are those with a value
    have hkeys : (∀ kv ∈ (emplaceAll (p.given schema)).toList,
        kv.1 ∈ schema.columns.map Column.name) ↔
          ∀ kv ∈ p.given schema, kv.1 ∈ schema.columns.map Column.name := by
      constructor
      · intro h kv hkv
        have hsome : ((p.given schema).lookup kv.1).isSome = true := by
          rw [List.lookup_isSome_iff]
          exact ⟨kv, hkv, by simp⟩
        obtain ⟨v, hv⟩ := Option.isSome_iff_exists.mp hsome
        rw [← getElem?_emplaceAll] at hv
        exact h (kv.1, v) (Std.ExtTreeMap.mem_toList_iff_getElem?_eq_some.mpr hv)
      · intro h kv hkv
        have hv := Std.ExtTreeMap.mem_toList_iff_getElem?_eq_some.mp hkv
        rw [getElem?_emplaceAll, List.lookup_eq_some_iff] at hv
        obtain ⟨before, after, hsplit, -⟩ := hv
        have hmem : (kv.1, kv.2) ∈ p.given schema := by
          rw [hsplit]
          simp
        exact h _ hmem
    dsimp only
    cases hfind : (emplaceAll (p.given schema)).toList.find? fun kv =>
        !(schema.columns.map Column.name).contains kv.1 with
    | some kv =>
      constructor
      · intro h
        cases h
      · rintro ⟨-, hdeclared, -⟩
        have hnot := List.find?_some hfind
        exact absurd (hkeys.mpr hdeclared kv (List.mem_of_find?_eq_some hfind))
          (by simpa using hnot)
    | none =>
      have hdeclared : ∀ kv ∈ (emplaceAll (p.given schema)).toList,
          kv.1 ∈ schema.columns.map Column.name := by
        intro kv hkv
        simpa using List.find?_eq_none.mp hfind kv hkv
      constructor
      · intro h
        cases h
        exact ⟨not_not.mp hlen, hkeys.mp hdeclared, rfl⟩
      · rintro ⟨-, -, rfl⟩
        rfl

/-- **What a projection keeps of a row.** -/
theorem getElem?_projectRow (cols : List Bytes) (r : Row) (col : Bytes) :
    (projectRow cols r).values[col]? =
      if col ∈ cols ∧ col ≠ ascii "__ts" then r.values[col]? else none := by
  show (emplaceAll _)[col]? = _
  rw [getElem?_emplaceAll]
  induction cols with
  | nil => simp
  | cons c cols ih =>
    rw [List.filterMap_cons]
    by_cases hts : c = ascii "__ts"
    · rw [if_pos hts]
      dsimp only
      rw [ih]
      by_cases hcol : col = c
      · simp [hcol, hts]
      · simp [hcol]
    · rw [if_neg hts]
      cases hv : r.values[c]? with
      | none =>
        simp only [Option.map_none]
        rw [ih]
        by_cases hcol : col = c
        · subst hcol
          simp [hv]
        · simp [hcol]
      | some v =>
        simp only [Option.map_some]
        rw [List.lookup_cons]
        by_cases hcol : col = c
        · subst hcol
          simp [hv, hts]
        · have hbeq : (col == c) = false := beq_eq_false_iff_ne.mpr hcol
          simp [hbeq, hcol, ih]

end ChronoLog.Plugins
