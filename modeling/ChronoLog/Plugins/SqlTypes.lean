import ChronoLog.Wal.Codec

/-!
# Tables and statements of the SQL plugin

The columns of a table, the statements its parser returns and the rows it gives back
(`chronosql_types.h`, `chronosql_sql_parser.h`).

Strings are bytes, and characters are classified as in the C locale.

## Main definitions

* `tolower`, `toupper` — the case of a letter.
* `ColumnType`, `Column`, `Schema` — the declaration of a table.
* `columnTypeFromString`, `columnTypeToString` — the names of a column's type.
* `ParsedStatement` — what the parser returns.

## Main results

* `columnTypeFromString_tolower` — the case of a type's name does not matter.
* `columnTypeFromString_toString` — a type is read back from its name.
-/

namespace ChronoLog.Plugins

/-- The bytes of a text in ASCII. -/
def ascii (text : String) : Bytes := text.toList.map Char.toUInt8

/-! ### Characters -/

def isspace (c : UInt8) : Bool := c.toNat = 32 || (9 ≤ c.toNat && c.toNat ≤ 13)

def isdigit (c : UInt8) : Bool := 48 ≤ c.toNat && c.toNat ≤ 57

def isupper (c : UInt8) : Bool := 65 ≤ c.toNat && c.toNat ≤ 90

def islower (c : UInt8) : Bool := 97 ≤ c.toNat && c.toNat ≤ 122

def isalpha (c : UInt8) : Bool := isupper c || islower c

def isalnum (c : UInt8) : Bool := isalpha c || isdigit c

def tolower (c : UInt8) : UInt8 := if isupper c then UInt8.ofNat (c.toNat + 32) else c

def toupper (c : UInt8) : UInt8 := if islower c then UInt8.ofNat (c.toNat - 32) else c

theorem toNat_tolower (c : UInt8) :
    (tolower c).toNat = if 65 ≤ c.toNat ∧ c.toNat ≤ 90 then c.toNat + 32 else c.toNat := by
  have hlt := c.toNat_lt
  simp only [tolower, isupper, Bool.and_eq_true, decide_eq_true_eq]
  split
  · rw [UInt8.toNat_ofNat']
    omega
  · rfl

theorem toNat_toupper (c : UInt8) :
    (toupper c).toNat = if 97 ≤ c.toNat ∧ c.toNat ≤ 122 then c.toNat - 32 else c.toNat := by
  have hlt := c.toNat_lt
  simp only [toupper, islower, Bool.and_eq_true, decide_eq_true_eq]
  split
  · rw [UInt8.toNat_ofNat']
    omega
  · rfl

@[simp] theorem tolower_tolower (c : UInt8) : tolower (tolower c) = tolower c := by
  apply UInt8.toNat_inj.mp
  rw [toNat_tolower, toNat_tolower]
  grind

@[simp] theorem toupper_tolower (c : UInt8) : toupper (tolower c) = toupper c := by
  apply UInt8.toNat_inj.mp
  rw [toNat_toupper, toNat_toupper, toNat_tolower]
  grind

/-! ### Declarations -/

inductive ColumnType where
  | INT
  | DOUBLE
  | STRING
  | BOOL
  deriving DecidableEq, Repr

structure Column where
  name : Bytes
  type : ColumnType := .STRING
  deriving DecidableEq, Repr

structure Schema where
  table : Bytes
  columns : List Column
  deriving DecidableEq, Repr

def columnTypeToString : ColumnType → Bytes
  | .INT => ascii "INT"
  | .DOUBLE => ascii "DOUBLE"
  | .STRING => ascii "STRING"
  | .BOOL => ascii "BOOL"

def columnTypeFromString (s : Bytes) : Option ColumnType :=
  let up := s.map toupper
  if up = ascii "INT" ∨ up = ascii "INTEGER" ∨ up = ascii "BIGINT" then some .INT
  else if up = ascii "DOUBLE" ∨ up = ascii "FLOAT" ∨ up = ascii "REAL" then some .DOUBLE
  else if up = ascii "STRING" ∨ up = ascii "TEXT" ∨ up = ascii "VARCHAR" ∨ up = ascii "CHAR" then
    some .STRING
  else if up = ascii "BOOL" ∨ up = ascii "BOOLEAN" then some .BOOL
  else none

/-- The case of a type's name does not matter. -/
theorem columnTypeFromString_tolower (s : Bytes) :
    columnTypeFromString (s.map tolower) = columnTypeFromString s := by
  unfold columnTypeFromString
  rw [List.map_map, show toupper ∘ tolower = toupper from funext toupper_tolower]

/-- A type is read back from its name. -/
theorem columnTypeFromString_toString (type : ColumnType) :
    columnTypeFromString (columnTypeToString type) = some type := by
  cases type <;> decide

/-! ### Statements -/

structure ParsedCreateTable where
  table : Bytes
  columns : List Column
  deriving DecidableEq, Repr

structure ParsedDropTable where
  table : Bytes
  deriving DecidableEq, Repr

/-- `columns` is empty where the statement names none; a null has an empty value. -/
structure ParsedInsert where
  table : Bytes
  columns : List Bytes
  values : List Bytes
  isNull : List Bool
  deriving DecidableEq, Repr

structure WhereEq where
  column : Bytes
  value : Bytes := []
  isNull : Bool := false
  deriving DecidableEq, Repr

structure WhereTsBetween where
  lo : UInt64
  /-- Inclusive. -/
  hi : UInt64
  deriving DecidableEq, Repr

inductive Where where
  | monostate
  | eq (w : WhereEq)
  | tsBetween (w : WhereTsBetween)
  deriving DecidableEq, Repr

/-- `projection` is empty for `SELECT *`. -/
structure ParsedSelect where
  table : Bytes
  projection : List Bytes
  where_ : Where
  deriving DecidableEq, Repr

inductive ParsedStatement where
  | createTable (p : ParsedCreateTable)
  | dropTable (p : ParsedDropTable)
  | insert (p : ParsedInsert)
  | select (p : ParsedSelect)
  deriving DecidableEq, Repr

end ChronoLog.Plugins
