import ChronoLog.Lib.Transition
import ChronoLog.Plugins.SqlMetadata

/-!
# The schema log of the SQL plugin

One client creates and drops tables, each by an append to the story of the schemas and then in
memory, and others may append malformed payloads (`chronosql_mapper.cpp`).  The result of the
append is not looked at.

## Main definitions

* `SchemaLog`, `SchemaLog.call` — the story with the client, and the client's calls.
* `Replays`, `FailsCleanly` — a later client has the client's tables, and a call whose append
  fails throws and changes no table.
* `Meets` — the calls after which this holds.

## Main results

* `Kept.call` — a call that meets the condition keeps the invariant.
* `replays_of_meets` — **in every run whose calls meet the condition a later client has the
  client's tables.**
-/

namespace ChronoLog.Plugins

open JsonText Transition

/-! ### The client -/

/-- What is thrown. -/
inductive Thrown where
  | invalidArgument (message : Bytes)
  | runtimeError (message : Bytes)
  /-- A string made from a null pointer. -/
  | logicError
  deriving DecidableEq, Repr

/-- What an append to the story came to. -/
inductive AppendOutcome where
  | logged
  /-- `log_event` returned 0. -/
  | returnedZero
  /-- The story could not be acquired. -/
  | acquireFailed (status : ℤ)
  deriving DecidableEq, Repr

/-- The payloads of the story and the client.  `performed` is a ghost: the operations of the
calls that returned. -/
structure SchemaLog where
  log : List Bytes := []
  metadata_ : MetadataState := {}
  loaded : Bool := false
  performed : List MetaOp := []

/-- What a call came to. -/
inductive CallResult where
  | done
  | tables (names : List Bytes)
  | threw (e : Thrown)
  deriving DecidableEq, Repr

/-- `apply` on payloads in order, up to the first that throws; the flag says whether none
does. -/
def applyAll (lib : JsonC) (st : MetadataState) : List Bytes → MetadataState × Bool
  | [] => (st, true)
  | payload :: payloads =>
    match st.apply lib payload with
    | some st' => applyAll lib st' payloads
    | none => (st, false)

/-- The calls of the client, and what others do. -/
inductive Call where
  | createTable (name : Bytes) (columns : List Column) (append : AppendOutcome)
  | dropTable (name : Bytes) (append : AppendOutcome)
  | listTables
  /-- Somebody else appends a payload to the story. -/
  | foreign (payload : Bytes)

def isReservedName (s : Bytes) : Bool := s.take 2 = ascii "__"

/-- The checks of a table's columns, with the names seen so far: the message of the first that
fails. -/
def checkColumns (seen : List Bytes) : List Column → Option Bytes
  | [] => none
  | c :: columns =>
    if c.name = [] then some (ascii "ChronoSQL: column name cannot be empty")
    else if isReservedName c.name then
      some (ascii "ChronoSQL: column names cannot start with '__' (reserved)")
    else if c.name ∈ seen then some (ascii "ChronoSQL: duplicate column '" ++ c.name ++ ascii "'")
    else checkColumns (c.name :: seen) columns

/-- The checks of a table before the tables are looked at. -/
def checkTable (name : Bytes) (columns : List Column) : Option Bytes :=
  if name = [] then some (ascii "ChronoSQL: table name cannot be empty")
  else if isReservedName name then some (ascii "ChronoSQL: table names cannot start with '__'")
  else if columns = [] then some (ascii "ChronoSQL: table must declare at least one column")
  else checkColumns [] columns

namespace SchemaLog

/-- The replay of the story and its payloads, at the first call that needs the tables; the flag
is set only where nothing throws. -/
def ensureMetadataLoaded (lib : JsonC) (s : SchemaLog) : SchemaLog × Bool :=
  if s.loaded then (s, true)
  else
    let r := applyAll lib s.metadata_ s.log
    ({ s with metadata_ := r.1, loaded := r.2 }, r.2)

/-- `appendEvent` to the story of the schemas: the story after it, or what it throws. -/
def appendMetadata (s : SchemaLog) (payload : Bytes) : AppendOutcome → Except Thrown SchemaLog
  | .logged => .ok { s with log := s.log ++ [payload] }
  | .returnedZero => .ok s
  | .acquireFailed status => .error (.runtimeError (ascii ("Failed to acquire story handle for " ++
      "story: __chronosql_metadata, error code: " ++ toString status)))

def createTable (lib : JsonC) (s : SchemaLog) (name : Bytes) (columns : List Column)
    (append : AppendOutcome) : SchemaLog × CallResult :=
  match checkTable name columns with
  | some message => (s, .threw (.invalidArgument message))
  | none =>
    let r := s.ensureMetadataLoaded lib
    if r.2 then
      if r.1.metadata_.has name then
        (r.1, .threw (.runtimeError
          (ascii "ChronoSQL: table '" ++ name ++ ascii "' already exists")))
      else
        match r.1.appendMetadata (encodeCreateOp lib ⟨name, columns⟩) append with
        | .error e => (r.1, .threw e)
        | .ok s' =>
          ({ s' with
              metadata_ := s'.metadata_.recordCreate ⟨name, columns⟩
              performed := s'.performed ++ [.create ⟨name, columns⟩] }, .done)
    else (r.1, .threw .logicError)

def dropTable (lib : JsonC) (s : SchemaLog) (name : Bytes) (append : AppendOutcome) :
    SchemaLog × CallResult :=
  let r := s.ensureMetadataLoaded lib
  if r.2 then
    if r.1.metadata_.has name then
      match r.1.appendMetadata (encodeDropOp lib ⟨name⟩) append with
      | .error e => (r.1, .threw e)
      | .ok s' =>
        ({ s' with
            metadata_ := s'.metadata_.recordDrop ⟨name⟩
            performed := s'.performed ++ [.drop ⟨name⟩] }, .done)
    else
      (r.1, .threw (.runtimeError
        (ascii "ChronoSQL: cannot drop unknown table '" ++ name ++ ascii "'")))
  else (r.1, .threw .logicError)

def listTables (lib : JsonC) (s : SchemaLog) : SchemaLog × CallResult :=
  let r := s.ensureMetadataLoaded lib
  if r.2 then (r.1, .tables r.1.metadata_.listTables) else (r.1, .threw .logicError)

def call (lib : JsonC) (s : SchemaLog) : Call → SchemaLog × CallResult
  | .createTable name columns append => s.createTable lib name columns append
  | .dropTable name append => s.dropTable lib name append
  | .listTables => s.listTables lib
  | .foreign payload => ({ s with log := s.log ++ [payload] }, .done)

end SchemaLog

/-- The runs of the client and of those that append to its story. -/
def schemaLogSystem (lib : JsonC) : System SchemaLog Call where
  Initial s := s = {}
  step s c := some (s.call lib c).1

/-! ### What is said of the client -/

/-- The tables in the order of their last creation, after operations in order. -/
def inCreationOrder (ops : List MetaOp) : List Bytes :=
  ops.foldl (fun tables op =>
    match op with
    | .create op => tables.erase op.table ++ [op.table]
    | .drop op => tables.erase op.table) []

/-- A later client has the client's tables, and they are listed in the order of their last
creation. -/
structure Replays (lib : JsonC) (s : SchemaLog) : Prop where
  replayed : applyAll lib {} s.log = (s.metadata_, true)
  listed : s.metadata_.listTables = inCreationOrder s.performed

/-- The append of the call fails, if there is one. -/
def Call.Fails : Call → Prop
  | .createTable _ _ append => append ≠ .logged
  | .dropTable _ append => append ≠ .logged
  | _ => False

/-- A call whose append fails throws and changes no table. -/
def FailsCleanly (lib : JsonC) (s : SchemaLog) (c : Call) : Prop :=
  c.Fails → (∃ e, (s.call lib c).2 = .threw e) ∧ (s.call lib c).1.metadata_ = s.metadata_

/-- A creation that gets to its append does not see it return 0, and where it succeeds its names
have no zero byte and no table stands after an earlier place of its name.  A drop that gets to
its append does not see it return 0.  A payload of somebody else has no null that is read. -/
def Meets (lib : JsonC) (s : SchemaLog) : Call → Prop
  | .createTable name columns append =>
    checkTable name columns = none → s.metadata_.has name = false →
      append ≠ .returnedZero ∧ (append = .logged →
        (0 ∉ name ∧ ∀ c ∈ columns, 0 ∉ c.name) ∧ s.metadata_.lastInOrder name = true)
  | .dropTable name append => s.metadata_.has name = true → append ≠ .returnedZero
  | .listTables => True
  | .foreign payload => readsNull lib payload = false

instance (lib : JsonC) (s : SchemaLog) : (c : Call) → Decidable (Meets lib s c)
  | .createTable name columns append =>
    inferInstanceAs (Decidable (checkTable name columns = none → s.metadata_.has name = false →
      append ≠ .returnedZero ∧ (append = .logged →
        (0 ∉ name ∧ ∀ c ∈ columns, 0 ∉ c.name) ∧ s.metadata_.lastInOrder name = true)))
  | .dropTable name append =>
    inferInstanceAs (Decidable (s.metadata_.has name = true → append ≠ .returnedZero))
  | .listTables => .isTrue trivial
  | .foreign payload => inferInstanceAs (Decidable (readsNull lib payload = false))

/-- The payloads of others are malformed. -/
def Call.Malformed (lib : JsonC) : Call → Prop
  | .foreign payload => describedOp lib payload = none
  | _ => True

/-! ### Runs -/

section

variable {lib : JsonC}

theorem applyAll_append (st : MetadataState) (ps qs : List Bytes) :
    applyAll lib st (ps ++ qs) =
      if (applyAll lib st ps).2 then applyAll lib (applyAll lib st ps).1 qs
      else applyAll lib st ps := by
  induction ps generalizing st with
  | nil => rfl
  | cons p ps ih =>
    rw [List.cons_append, applyAll, applyAll]
    cases st.apply lib p with
    | none => rfl
    | some st' => exact ih st'

/-- A payload more, where those before it and it are read. -/
theorem applyAll_concat {st st' st'' : MetadataState} {ps : List Bytes} {p : Bytes}
    (h : applyAll lib st ps = (st', true)) (hp : st'.apply lib p = some st'') :
    applyAll lib st (ps ++ [p]) = (st'', true) := by
  rw [applyAll_append, h]
  show applyAll lib st' [p] = _
  rw [applyAll, hp]
  rfl

theorem inCreationOrder_concat (ops : List MetaOp) (op : MetaOp) :
    inCreationOrder (ops ++ [op]) =
      match op with
      | .create op => (inCreationOrder ops).erase op.table ++ [op.table]
      | .drop op => (inCreationOrder ops).erase op.table := by
  rw [inCreationOrder, List.foldl_append]
  rfl

/-- The invariant of the runs: a later client has the tables, and the names of the tables go
through a payload. -/
structure Kept (lib : JsonC) (s : SchemaLog) : Prop where
  replays : Replays lib s
  ordered : s.metadata_.Ordered
  named : ∀ t, s.metadata_.has t = true → 0 ∉ t
  fresh : s.loaded = false → s.metadata_ = {}

theorem kept_empty : Kept lib {} where
  replays := ⟨rfl, rfl⟩
  ordered := MetadataState.ordered_empty
  named t h := by simp [MetadataState.has] at h
  fresh _ := rfl

/-- The first call finds the tables as they are. -/
theorem Kept.ensureMetadataLoaded {s : SchemaLog} (h : Kept lib s) :
    s.ensureMetadataLoaded lib = ({ s with loaded := true }, true) := by
  rw [SchemaLog.ensureMetadataLoaded]
  split
  · next hloaded =>
    rw [← hloaded]
  · next hnot =>
    have hempty := h.fresh (by simpa using hnot)
    have hreplayed := h.replays.replayed
    rw [hempty] at hreplayed ⊢
    rw [hreplayed]

theorem Kept.loaded {s : SchemaLog} (h : Kept lib s) : Kept lib { s with loaded := true } where
  replays := ⟨h.replays.replayed, h.replays.listed⟩
  ordered := h.ordered
  named := h.named
  fresh h := by cases h

/-- After a creation. -/
theorem Kept.recordCreate {s : SchemaLog} (h : Kept lib s) (hlib : lib.RoundTrips)
    {op : MetaCreateOp} (hhas : s.metadata_.has op.table = false) (hname : 0 ∉ op.table)
    (hcolumns : ∀ c ∈ op.columns, 0 ∉ c.name)
    (hlast : s.metadata_.lastInOrder op.table = true) :
    Kept lib { log := s.log ++ [encodeCreateOp lib op], metadata_ := s.metadata_.recordCreate op,
               loaded := true, performed := s.performed ++ [.create op] } where
  replays := by
    refine ⟨?_, ?_⟩
    · refine applyAll_concat h.replays.replayed ?_
      rw [apply_encodeCreateOp hlib, throughPayload_of_notMem hname hcolumns]
    · have hnot : op.table ∉ inCreationOrder s.performed := by
        rw [← h.replays.listed]
        intro hmem
        rw [(List.mem_filter.mp hmem).2] at hhas
        cases hhas
      rw [h.ordered.listTables_recordCreate hhas hlast, inCreationOrder_concat, h.replays.listed]
      dsimp only
      rw [List.erase_of_not_mem hnot]
  ordered := h.ordered.recordCreate op
  named t ht := by
    rw [MetadataState.has_recordCreate, Bool.or_eq_true, decide_eq_true_iff] at ht
    rcases ht with rfl | ht
    · exact hname
    · exact h.named t ht
  fresh h := by cases h

/-- After a drop. -/
theorem Kept.recordDrop {s : SchemaLog} (h : Kept lib s) (hlib : lib.RoundTrips)
    {op : MetaDropOp} (hhas : s.metadata_.has op.table = true) :
    Kept lib { log := s.log ++ [encodeDropOp lib op], metadata_ := s.metadata_.recordDrop op,
               loaded := true, performed := s.performed ++ [.drop op] } where
  replays := by
    refine ⟨?_, ?_⟩
    · refine applyAll_concat h.replays.replayed ?_
      rw [apply_encodeDropOp hlib, c_str_eq_self_iff.mpr (h.named _ hhas)]
    · rw [h.ordered.listTables_recordDrop, inCreationOrder_concat, h.replays.listed]
  ordered := h.ordered.recordDrop op
  named t ht := by
    rw [MetadataState.has_recordDrop, Bool.and_eq_true] at ht
    exact h.named t ht.2
  fresh h := by cases h

/-- A payload of somebody else. -/
theorem Kept.foreign {s : SchemaLog} (h : Kept lib s) {payload : Bytes}
    (hmalformed : describedOp lib payload = none) (hnull : readsNull lib payload = false) :
    Kept lib { s with log := s.log ++ [payload] } where
  replays := ⟨applyAll_concat h.replays.replayed (apply_of_malformed hmalformed hnull),
    h.replays.listed⟩
  ordered := h.ordered
  named := h.named
  fresh := h.fresh

/-- **Every call keeps the invariant, and throws without a change where its append fails.** -/
theorem Kept.call {s : SchemaLog} (h : Kept lib s) (hlib : lib.RoundTrips) {c : Call}
    (hmalformed : c.Malformed lib) (hmeets : Meets lib s c) :
    Kept lib (s.call lib c).1 := by
  cases c with
  | createTable name columns append =>
    show Kept lib (s.createTable lib name columns append).1
    rw [SchemaLog.createTable]
    cases hcheck : checkTable name columns with
    | some message => exact h
    | none =>
      dsimp only
      rw [h.ensureMetadataLoaded, if_pos rfl]
      dsimp only
      split
      · exact h.loaded
      · next hnot =>
        obtain ⟨hzero, hnames⟩ := hmeets hcheck (by simpa using hnot)
        cases append with
        | logged =>
          obtain ⟨⟨hname, hcolumns⟩, hlast⟩ := hnames rfl
          exact h.recordCreate hlib (by simpa using hnot) hname hcolumns hlast
        | returnedZero => exact absurd rfl hzero
        | acquireFailed status => exact h.loaded
  | dropTable name append =>
    show Kept lib (s.dropTable lib name append).1
    rw [SchemaLog.dropTable, h.ensureMetadataLoaded, if_pos rfl]
    dsimp only
    split
    · next hhas =>
      have hzero := hmeets hhas
      cases append with
      | logged => exact h.recordDrop hlib hhas
      | returnedZero => exact absurd rfl hzero
      | acquireFailed status => exact h.loaded
    · exact h.loaded
  | listTables =>
    show Kept lib (s.listTables lib).1
    rw [SchemaLog.listTables, h.ensureMetadataLoaded, if_pos rfl]
    exact h.loaded
  | foreign payload => exact h.foreign hmalformed hmeets

/-- A call whose append fails throws and changes no table. -/
theorem Kept.failsCleanly {s : SchemaLog} (h : Kept lib s) {c : Call} (hmeets : Meets lib s c) :
    FailsCleanly lib s c := by
  intro hfails
  cases c with
  | createTable name columns append =>
    show (∃ e, (s.createTable lib name columns append).2 = .threw e) ∧
      (s.createTable lib name columns append).1.metadata_ = s.metadata_
    rw [SchemaLog.createTable]
    cases hcheck : checkTable name columns with
    | some message => exact ⟨⟨_, rfl⟩, rfl⟩
    | none =>
      dsimp only
      rw [h.ensureMetadataLoaded, if_pos rfl]
      dsimp only
      split
      · exact ⟨⟨_, rfl⟩, rfl⟩
      · next hnot =>
        obtain ⟨hzero, -⟩ := hmeets hcheck (by simpa using hnot)
        cases append with
        | logged => exact absurd rfl hfails
        | returnedZero => exact absurd rfl hzero
        | acquireFailed status => exact ⟨⟨_, rfl⟩, rfl⟩
  | dropTable name append =>
    show (∃ e, (s.dropTable lib name append).2 = .threw e) ∧
      (s.dropTable lib name append).1.metadata_ = s.metadata_
    rw [SchemaLog.dropTable, h.ensureMetadataLoaded, if_pos rfl]
    dsimp only
    split
    · next hhas =>
      have hzero := hmeets hhas
      cases append with
      | logged => exact absurd rfl hfails
      | returnedZero => exact absurd rfl hzero
      | acquireFailed status => exact ⟨⟨_, rfl⟩, rfl⟩
    · exact ⟨⟨_, rfl⟩, rfl⟩
  | listTables => exact hfails.elim
  | foreign payload => exact hfails.elim

/-- **In every run whose calls meet the condition a later client has the client's tables**, they
are listed in the order of their last creation, and a call whose append fails throws and
changes no table. -/
theorem replays_of_meets (hlib : lib.RoundTrips) {calls : List Call} {s : SchemaLog}
    (hmalformed : ∀ c ∈ calls, c.Malformed lib)
    (hmeets : (schemaLogSystem lib).StepsMeet (Meets lib) {} calls)
    (hrun : (schemaLogSystem lib).run {} calls = some s) :
    Replays lib s ∧ ∀ c, Meets lib s c → FailsCleanly lib s c := by
  have hkept : Kept lib s := by
    refine System.run_induction_of_stepsMeet ?_ kept_empty (hmeets.and_of_forall hmalformed) hrun
    intro s c s' h hcond hstep
    cases hstep
    exact h.call hlib hcond.1 hcond.2
  exact ⟨hkept.replays, fun c hc => hkept.failsCleanly hc⟩

end

/-- A client that creates and drops tables, with a failed append and a payload that is no JSON. -/
theorem replays_of_client :
    ∃ s, (schemaLogSystem compactJson).run {}
        [.foreign (ascii "oops"), .createTable (ascii "a") [⟨ascii "x", .INT⟩] .logged,
          .createTable (ascii "b") [⟨ascii "y", .BOOL⟩] (.acquireFailed (-3)),
          .createTable (ascii "b") [⟨ascii "y", .BOOL⟩] .logged,
          .dropTable (ascii "a") .logged, .listTables] = some s ∧
      (Replays compactJson s ∧ ∀ c, Meets compactJson s c → FailsCleanly compactJson s c) ∧
      s.metadata_.listTables = [ascii "b"] := by
  have hrun : (schemaLogSystem compactJson).run {}
      [.foreign (ascii "oops"), .createTable (ascii "a") [⟨ascii "x", .INT⟩] .logged,
        .createTable (ascii "b") [⟨ascii "y", .BOOL⟩] (.acquireFailed (-3)),
        .createTable (ascii "b") [⟨ascii "y", .BOOL⟩] .logged,
        .dropTable (ascii "a") .logged, .listTables] = some _ := rfl
  refine ⟨_, hrun, replays_of_meets compactJson_roundTrips ?_ ?_ hrun, by decide +kernel⟩
  · simp only [List.forall_mem_cons]
    exact ⟨show describedOp compactJson (ascii "oops") = none by decide +kernel, trivial, trivial,
       trivial, trivial, trivial, nofun⟩
  · exact System.stepsMeet_of_check (by decide +kernel)

/-- A creation whose append returned 0 succeeds, and a later client has no such table; a later
client has another name for a table whose name has a zero byte; a table that is created again is
listed at its first place. -/
theorem schema_log_diverges :
    (¬ FailsCleanly compactJson {} (.createTable (ascii "t") [⟨ascii "x", .INT⟩] .returnedZero) ∧
      ¬ Replays compactJson (SchemaLog.call compactJson {}
        (.createTable (ascii "t") [⟨ascii "x", .INT⟩] .returnedZero)).1) ∧
    ¬ Replays compactJson (SchemaLog.call compactJson {}
        (.createTable [116, 0, 117] [⟨ascii "x", .INT⟩] .logged)).1 ∧
    ∃ s, (schemaLogSystem compactJson).run {}
        [.createTable (ascii "a") [⟨ascii "x", .INT⟩] .logged,
          .createTable (ascii "b") [⟨ascii "x", .INT⟩] .logged, .dropTable (ascii "a") .logged,
          .createTable (ascii "a") [⟨ascii "x", .INT⟩] .logged] = some s ∧
      s.metadata_.listTables = [ascii "a", ascii "b"] ∧
      inCreationOrder s.performed = [ascii "b", ascii "a"] := by
  have hlist : ∀ {s : SchemaLog}, Replays compactJson s →
      (applyAll compactJson {} s.log).1.listTables = s.metadata_.listTables := by
    intro s h
    rw [h.replayed]
  refine ⟨⟨?_, ?_⟩, ?_, ?_⟩
  · intro h
    obtain ⟨⟨e, he⟩, -⟩ := h nofun
    cases he
  · intro h
    have heq := hlist h
    revert heq
    decide +kernel
  · intro h
    have heq := hlist h
    revert heq
    decide +kernel
  · exact ⟨_, rfl, by decide +kernel, by decide +kernel⟩

end ChronoLog.Plugins
