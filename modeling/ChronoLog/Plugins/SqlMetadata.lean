import ChronoLog.Plugins.JsonC

/-!
# The tables of an SQL client and their payloads

A client keeps its tables in memory.  It appends each creation and each drop as a JSON payload
to a story, and a client that starts later builds the same tables from these payloads
(`chronosql_metadata.cpp`).

Names go into a payload as C strings, and come out of one through `std::string`s that are made
from what the library returns, which is a null pointer for a null.

## Main definitions

* `encodeCreateOp`, `encodeDropOp` — the payloads.
* `MetadataState`, `MetadataState.apply` — the tables, and what a payload does to them.
* `describedOp`, `readsNull` — the operation a payload describes, and a null where a string is
  made.

## Main results

* `apply_eq` — **what a payload does.**
* `apply_encodeCreateOp`, `apply_encodeDropOp` — what a later client reads from a payload.
* `Ordered.listTables_recordCreate`, `Ordered.listTables_recordDrop` — the list of tables after
  an operation.
-/

namespace ChronoLog.Plugins

open JsonText

/-! ### Payloads -/

structure MetaCreateOp where
  table : Bytes
  columns : List Column
  deriving DecidableEq, Repr

structure MetaDropOp where
  table : Bytes
  deriving DecidableEq, Repr

def columnsToJson (cols : List Column) : Json :=
  .array (cols.map fun c =>
    .object [(ascii "name", newString c.name),
      (ascii "type", newString (columnTypeToString c.type))])

def encodeCreateOp (lib : JsonC) (op : MetaCreateOp) : Bytes :=
  lib.print (.object [(ascii "op", newString (ascii "create_table")),
    (ascii "name", newString op.table), (ascii "columns", columnsToJson op.columns)])

def encodeDropOp (lib : JsonC) (op : MetaDropOp) : Bytes :=
  lib.print (.object [(ascii "op", newString (ascii "drop_table")),
    (ascii "name", newString op.table)])

/-- The tables of a client; `order_` keeps the names of dropped tables. -/
structure MetadataState where
  order_ : List Bytes := []
  schemas_ : Std.ExtTreeMap Bytes Schema := ∅

namespace MetadataState

def has (st : MetadataState) (table : Bytes) : Bool := st.schemas_[table]?.isSome

def get (st : MetadataState) (table : Bytes) : Option Schema := st.schemas_[table]?

def listTables (st : MetadataState) : List Bytes := st.order_.filter st.has

def recordCreate (st : MetadataState) (op : MetaCreateOp) : MetadataState :=
  if st.has op.table then st
  else
    { schemas_ := st.schemas_.insert op.table ⟨op.table, op.columns⟩
      order_ := if op.table ∈ st.order_ then st.order_ else st.order_ ++ [op.table] }

def recordDrop (st : MetadataState) (op : MetaDropOp) : MetadataState :=
  { st with schemas_ := st.schemas_.erase op.table }

end MetadataState

/-- The column of an item of `columns`: nothing for an item that is skipped, and `none` where
a string is made from a null pointer. -/
def readColumn (lib : JsonC) (item : Json) : Option (List Column) :=
  match item.member (ascii "name") with
  | none => some []
  | some cname =>
    (lib.getString cname).bind fun name =>
      match item.member (ascii "type") with
      | none => some [⟨name, .STRING⟩]
      | some ctype =>
        (lib.getString ctype).map fun type => [⟨name, (columnTypeFromString type).getD .STRING⟩]

def readColumns (lib : JsonC) : List Json → Option (List Column)
  | [] => some []
  | item :: items =>
    (readColumn lib item).bind fun c => (readColumns lib items).map fun cs => c ++ cs

/-- `MetadataState::apply`; `none` where a string is made from a null pointer, which leaves the
tables as they are. -/
def MetadataState.apply (lib : JsonC) (st : MetadataState) (payload : Bytes) :
    Option MetadataState :=
  match lib.parse payload with
  | none => some st
  | some root =>
    match root.member (ascii "op"), root.member (ascii "name") with
    | some opObj, some nameObj =>
      (lib.getString opObj).bind fun op => (lib.getString nameObj).bind fun table =>
        if op = ascii "create_table" then
          match root.member (ascii "columns") with
          | some (.array items) =>
            (readColumns lib items).map fun columns => st.recordCreate ⟨table, columns⟩
          | _ => some st
        else if op = ascii "drop_table" then some (st.recordDrop ⟨table⟩)
        else some st
    | _, _ => some st

/-! ### What a payload describes -/

inductive MetaOp where
  | create (op : MetaCreateOp)
  | drop (op : MetaDropOp)
  deriving DecidableEq, Repr

def MetadataState.perform (st : MetadataState) : MetaOp → MetadataState
  | .create op => st.recordCreate op
  | .drop op => st.recordDrop op

/-- The operation a payload describes; none for a malformed one. -/
def describedOp (lib : JsonC) (payload : Bytes) : Option MetaOp :=
  (lib.parse payload).bind fun root =>
    ((root.member (ascii "op")).bind lib.getString).bind fun op =>
      ((root.member (ascii "name")).bind lib.getString).bind fun table =>
        if op = ascii "create_table" then
          match root.member (ascii "columns") with
          | some (.array items) =>
            (readColumns lib items).map fun columns => .create ⟨table, columns⟩
          | _ => none
        else if op = ascii "drop_table" then some (.drop ⟨table⟩)
        else none

/-- The item has a null for its name or its type. -/
def nullColumn (item : Json) : Bool :=
  match item.member (ascii "name") with
  | none => false
  | some cname => cname.isNull || (item.member (ascii "type")).any Json.isNull

/-- The payload has a null where a string is made of it. -/
def readsNull (lib : JsonC) (payload : Bytes) : Bool :=
  (lib.parse payload).any fun root =>
    match root.member (ascii "op"), root.member (ascii "name") with
    | some opObj, some nameObj =>
      opObj.isNull || nameObj.isNull ||
        (decide (lib.getString opObj = some (ascii "create_table")) &&
          match root.member (ascii "columns") with
          | some (.array items) => items.any nullColumn
          | _ => false)
    | _, _ => false

section

variable {lib : JsonC} {st : MetadataState} {payload : Bytes}

theorem readColumn_eq_none_iff {item : Json} :
    readColumn lib item = none ↔ nullColumn item = true := by
  unfold readColumn nullColumn
  cases item.member (ascii "name") with
  | none => simp
  | some cname =>
    cases hname : lib.getString cname with
    | none => simp [hname, JsonC.getString_eq_none_iff.mp hname]
    | some name =>
      have hnull : cname.isNull = false := by
        rw [Bool.eq_false_iff]
        intro h
        rw [JsonC.getString_eq_none_iff.mpr h] at hname
        cases hname
      cases item.member (ascii "type") with
      | none => simp [hname, hnull]
      | some ctype => simp [hname, hnull, JsonC.getString_eq_none_iff]

theorem readColumns_eq_none_iff {items : List Json} :
    readColumns lib items = none ↔ items.any nullColumn = true := by
  induction items with
  | nil => simp [readColumns]
  | cons item items ih =>
    rw [readColumns, List.any_cons, Bool.or_eq_true, ← @readColumn_eq_none_iff lib, ← ih]
    cases readColumn lib item with
    | none => simp
    | some c => simp

theorem isNull_of_getString {j : Json} {text : Bytes} (h : lib.getString j = some text) :
    j.isNull = false := by
  rw [Bool.eq_false_iff]
  intro hnull
  rw [JsonC.getString_eq_none_iff.mpr hnull] at h
  cases h

/-- **What a payload does**: the operation it describes, unless a null is read. -/
theorem apply_eq : st.apply lib payload =
    if readsNull lib payload then none
    else some ((describedOp lib payload).elim st st.perform) := by
  unfold MetadataState.apply readsNull describedOp
  cases lib.parse payload with
  | none => rfl
  | some root =>
    simp only [Option.any_some, Option.bind_some]
    cases root.member (ascii "op") with
    | none => rfl
    | some opObj =>
      cases root.member (ascii "name") with
      | none => simp
      | some nameObj =>
        cases hop : lib.getString opObj with
        | none =>
          have hnull := JsonC.getString_eq_none_iff.mp hop
          simp only [Option.bind_some, hop, Option.bind_none, hnull, Bool.true_or, if_true]
        | some op =>
          cases hname : lib.getString nameObj with
          | none =>
            have hnull := JsonC.getString_eq_none_iff.mp hname
            simp only [Option.bind_some, hop, hname, Option.bind_none, hnull, Bool.true_or,
              Bool.or_true, if_true]
          | some table =>
            simp only [Option.bind_some, hop, hname, isNull_of_getString hop,
              isNull_of_getString hname, Bool.false_or, Option.some.injEq]
            by_cases hcreate : op = ascii "create_table"
            · subst hcreate
              simp only [if_true, decide_true, Bool.true_and]
              cases root.member (ascii "columns") with
              | none => rfl
              | some columns =>
                cases columns with
                | array items =>
                  cases hcolumns : readColumns lib items with
                  | none => simp [hcolumns, readColumns_eq_none_iff.mp hcolumns]
                  | some cs =>
                    have hany : items.any nullColumn = false := by
                      rw [Bool.eq_false_iff]
                      intro hnull
                      rw [readColumns_eq_none_iff.mpr hnull] at hcolumns
                      cases hcolumns
                    simp [hcolumns, hany, MetadataState.perform]
                | _ => rfl
            · simp only [hcreate, if_false, decide_false, Bool.false_and, Bool.false_eq_true]
              split
              · rfl
              · rfl

/-- A malformed payload without a null does nothing. -/
theorem apply_of_malformed (h : describedOp lib payload = none)
    (hnull : readsNull lib payload = false) : st.apply lib payload = some st := by
  rw [apply_eq, hnull, h]
  rfl

/-! ### The payloads of the client -/

/-- An object whose keys and values are checked in order. -/
theorem plain_object {members : List (Bytes × Json)} {keys : List Bytes} {values : List Json}
    (hkeys : members.map Prod.fst = keys) (hvalues : members.map Prod.snd = values)
    (h : keys.Nodup ∧ ∀ key ∈ keys, 0 ∉ key) (hplain : ∀ j ∈ values, j.Plain) :
    (Json.object members).Plain := by
  subst hkeys hvalues
  exact .object h.1 (fun m hm => h.2 _ (List.mem_map_of_mem hm))
    fun m hm => hplain _ (List.mem_map_of_mem hm)

theorem plain_columnsToJson (cols : List Column) : (columnsToJson cols).Plain := by
  refine .array fun j hj => ?_
  obtain ⟨c, -, rfl⟩ := List.mem_map.mp hj
  refine @plain_object _ [ascii "name", ascii "type"] _ rfl rfl (by decide) ?_
  simp only [List.map_cons, List.map_nil, List.forall_mem_cons]
  exact ⟨plain_newString _, plain_newString _, nofun⟩

/-- A column as it goes through a payload. -/
def Column.throughPayload (c : Column) : Column := { c with name := c_str c.name }

theorem readColumns_columnsToJson (cols : List Column) :
    readColumns lib (cols.map fun c => .object [(ascii "name", newString c.name),
      (ascii "type", newString (columnTypeToString c.type))]) =
        some (cols.map Column.throughPayload) := by
  induction cols with
  | nil => rfl
  | cons c cols ih =>
    have htype :
        columnTypeFromString (c_str (c_str (columnTypeToString c.type))) = some c.type := by
      cases c.type <;> decide
    have hread : readColumn lib (.object [(ascii "name", newString c.name),
        (ascii "type", newString (columnTypeToString c.type))]) = some [c.throughPayload] := by
      have hname : (Json.object [(ascii "name", newString c.name),
          (ascii "type", newString (columnTypeToString c.type))]).member (ascii "name") =
          some (newString c.name) := rfl
      have hsecond : (Json.object [(ascii "name", newString c.name),
          (ascii "type", newString (columnTypeToString c.type))]).member (ascii "type") =
          some (newString (columnTypeToString c.type)) := rfl
      rw [readColumn, hname, hsecond]
      dsimp only
      rw [newString, newString, JsonC.getString_string, JsonC.getString_string, Option.bind_some,
        Option.map_some, htype, c_str_c_str]
      rfl
    rw [List.map_cons, readColumns, hread, ih]
    rfl

/-- What a later client reads from the payload of a creation. -/
theorem apply_encodeCreateOp (hlib : lib.RoundTrips) (op : MetaCreateOp) :
    st.apply lib (encodeCreateOp lib op) =
      some (st.recordCreate ⟨c_str op.table, op.columns.map Column.throughPayload⟩) := by
  have hparse := hlib (.object [(ascii "op", newString (ascii "create_table")),
    (ascii "name", newString op.table), (ascii "columns", columnsToJson op.columns)])
    (@plain_object _ [ascii "op", ascii "name", ascii "columns"] _ rfl rfl (by decide) (by
      simp only [List.map_cons, List.map_nil, List.forall_mem_cons]
      exact ⟨plain_newString _, plain_newString _, plain_columnsToJson _, nofun⟩))
  have hop : lib.getString (newString (ascii "create_table")) = some (ascii "create_table") := rfl
  have hname : lib.getString (newString op.table) = some (c_str op.table) := by
    rw [newString, JsonC.getString_string, c_str_c_str]
  rw [MetadataState.apply, encodeCreateOp, hparse]
  show (lib.getString (newString (ascii "create_table"))).bind _ = _
  rw [hop, Option.bind_some]
  show (lib.getString (newString op.table)).bind _ = _
  rw [hname, Option.bind_some, if_pos rfl]
  show (readColumns lib (op.columns.map _)).map _ = _
  rw [readColumns_columnsToJson]
  rfl

/-- What a later client reads from the payload of a drop. -/
theorem apply_encodeDropOp (hlib : lib.RoundTrips) (op : MetaDropOp) :
    st.apply lib (encodeDropOp lib op) = some (st.recordDrop ⟨c_str op.table⟩) := by
  have hparse := hlib (.object [(ascii "op", newString (ascii "drop_table")),
    (ascii "name", newString op.table)])
    (@plain_object _ [ascii "op", ascii "name"] _ rfl rfl (by decide) (by
      simp only [List.map_cons, List.map_nil, List.forall_mem_cons]
      exact ⟨plain_newString _, plain_newString _, nofun⟩))
  have hop : lib.getString (newString (ascii "drop_table")) = some (ascii "drop_table") := rfl
  have hname : lib.getString (newString op.table) = some (c_str op.table) := by
    rw [newString, JsonC.getString_string, c_str_c_str]
  rw [MetadataState.apply, encodeDropOp, hparse]
  show (lib.getString (newString (ascii "drop_table"))).bind _ = _
  rw [hop, Option.bind_some]
  show (lib.getString (newString op.table)).bind _ = _
  rw [hname, Option.bind_some, if_neg (by decide), if_pos rfl]

/-- Names without a zero byte go through a payload unchanged. -/
theorem throughPayload_of_notMem {op : MetaCreateOp} (hname : 0 ∉ op.table)
    (hcolumns : ∀ c ∈ op.columns, 0 ∉ c.name) :
    (⟨c_str op.table, op.columns.map Column.throughPayload⟩ : MetaCreateOp) = op := by
  have hmap : op.columns.map Column.throughPayload = op.columns := by
    calc op.columns.map Column.throughPayload = op.columns.map id := by
          refine List.map_congr_left fun c hc => ?_
          rw [Column.throughPayload, c_str_eq_self_iff.mpr (hcolumns c hc)]
          rfl
      _ = op.columns := List.map_id _
  rw [c_str_eq_self_iff.mpr hname, hmap]

end

/-! ### The tables -/

namespace MetadataState

variable {st : MetadataState}

/-- No table stands after the name in the order. -/
def lastInOrder (st : MetadataState) (name : Bytes) : Bool :=
  (st.order_.dropWhile (· ≠ name)).tail.all fun t => !st.has t

theorem has_recordCreate (op : MetaCreateOp) (t : Bytes) :
    (st.recordCreate op).has t = (decide (op.table = t) || st.has t) := by
  unfold recordCreate
  split
  · next h =>
    by_cases heq : op.table = t
    · rw [← heq, h]
      simp
    · simp [heq]
  · simp only [has, Std.ExtTreeMap.getElem?_insert]
    by_cases heq : op.table = t
    · simp [heq]
    · simp [heq]

theorem has_recordDrop (op : MetaDropOp) (t : Bytes) :
    (st.recordDrop op).has t = (!decide (op.table = t) && st.has t) := by
  simp only [recordDrop, has, Std.ExtTreeMap.getElem?_erase]
  by_cases heq : op.table = t
  · simp [heq]
  · simp [heq]

/-- The names in the order are different, and every table is among them. -/
structure Ordered (st : MetadataState) : Prop where
  nodup : st.order_.Nodup
  mem : ∀ t, st.has t = true → t ∈ st.order_

theorem ordered_empty : Ordered {} where
  nodup := List.nodup_nil
  mem t h := by simp [has] at h

theorem Ordered.recordCreate (h : st.Ordered) (op : MetaCreateOp) :
    (st.recordCreate op).Ordered := by
  by_cases hhas : st.has op.table = true
  · rwa [MetadataState.recordCreate, if_pos hhas]
  · refine ⟨?_, ?_⟩
    · rw [MetadataState.recordCreate, if_neg hhas]
      dsimp only
      split
      · exact h.nodup
      · next hnot =>
        exact List.nodup_append.mpr ⟨h.nodup, List.nodup_singleton _, fun a ha b hb => by
          rw [List.mem_singleton] at hb
          rintro rfl
          exact hnot (hb ▸ ha)⟩
    · intro t ht
      rw [has_recordCreate, Bool.or_eq_true, decide_eq_true_iff] at ht
      rw [MetadataState.recordCreate, if_neg hhas]
      dsimp only
      split
      · next hmem =>
        rcases ht with rfl | ht
        · exact hmem
        · exact h.mem t ht
      · rcases ht with rfl | ht
        · simp
        · exact List.mem_append_left _ (h.mem t ht)

theorem Ordered.recordDrop (h : st.Ordered) (op : MetaDropOp) : (st.recordDrop op).Ordered := by
  refine ⟨h.nodup, fun t ht => ?_⟩
  rw [has_recordDrop, Bool.and_eq_true] at ht
  exact h.mem t ht.2

theorem Ordered.nodup_listTables (h : st.Ordered) : st.listTables.Nodup := h.nodup.filter _

/-- A new table is listed last where no table stands after its name. -/
theorem Ordered.listTables_recordCreate (h : st.Ordered) {op : MetaCreateOp}
    (hhas : st.has op.table = false) (hlast : st.lastInOrder op.table = true) :
    (st.recordCreate op).listTables = st.listTables ++ [op.table] := by
  have hfilter : ∀ l : List Bytes, op.table ∉ l →
      l.filter (st.recordCreate op).has = l.filter st.has := by
    intro l hl
    refine List.filter_congr fun t ht => ?_
    have hne : op.table ≠ t := by
      rintro rfl
      exact hl ht
    rw [has_recordCreate]
    simp [hne]
  have hself : (st.recordCreate op).has op.table = true := by simp [has_recordCreate]
  have horder : (st.recordCreate op).order_ =
      if op.table ∈ st.order_ then st.order_ else st.order_ ++ [op.table] := by
    rw [MetadataState.recordCreate, if_neg (by simp [hhas])]
  unfold listTables
  rw [horder]
  split
  · next hmem =>
    obtain ⟨before, after, hsplit⟩ := List.append_of_mem hmem
    have hnodup := h.nodup
    rw [hsplit, List.nodup_append, List.nodup_cons] at hnodup
    have hbefore : op.table ∉ before := by
      intro hin
      exact hnodup.2.2 op.table hin op.table List.mem_cons_self rfl
    -- the names after the first place of the name are those after it
    have hdrop : st.order_.dropWhile (· ≠ op.table) = op.table :: after := by
      rw [hsplit, List.dropWhile_append_of_pos]
      · simp
      · intro t ht
        have hne : t ≠ op.table := by
          rintro rfl
          exact hbefore ht
        simpa using hne
    have hafter : after.filter st.has = [] := by
      rw [lastInOrder, hdrop, List.tail_cons, List.all_eq_true] at hlast
      exact List.filter_eq_nil_iff.mpr fun t ht => by simpa using hlast t ht
    rw [hsplit, List.filter_append, List.filter_cons, if_pos hself, hfilter before hbefore,
      hfilter after hnodup.2.1.1, hafter, List.filter_append, List.filter_cons, hhas, hafter]
    simp
  · next hnot =>
    rw [List.filter_append, hfilter _ hnot, List.filter_cons, if_pos hself]
    rfl

theorem Ordered.listTables_recordDrop (h : st.Ordered) (op : MetaDropOp) :
    (st.recordDrop op).listTables = st.listTables.erase op.table := by
  rw [h.nodup_listTables.erase_eq_filter]
  unfold listTables
  rw [List.filter_filter]
  refine List.filter_congr fun t _ => ?_
  rw [has_recordDrop]
  by_cases heq : op.table = t
  · simp [heq]
  · simp [heq, Ne.symm heq]

end MetadataState

end ChronoLog.Plugins
