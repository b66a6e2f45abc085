import ScriptEngine.Assoc
import ScriptEngine.Host.Sql.Evaluate

/-!
# Database handles

A handle owns one private database in memory. A table keeps its rows in the order of their
identities, which count up from one unless a row brings its own. A statement that fails leaves
the tables as they were.
-/

namespace ScriptEngine.Host

open Sql

structure DataTable where
  columns : List Column
  /-- The rows in ascending order of their identities. -/
  rows : List Row

/-- A database handle. -/
structure Database where
  driver : String
  source : String
  isOpen : Bool
  tables : Assoc String DataTable
  lastInsert : Int64
  /-- How many rows the last statement that writes rows has touched. -/
  changes : Nat

namespace DataTable

/-- The rows with one more in its place. -/
def place (row : Row) : List Row → List Row
  | [] => [row]
  | r :: rest => if row.id < r.id then row :: r :: rest else r :: place row rest

def has (t : DataTable) (id : Int64) : Bool := t.rows.any (·.id == id)

/-- The identity of the next row. -/
def nextId (t : DataTable) : Int64 :=
  match t.rows.getLast? with
  | some r => r.id + 1
  | none => 1

end DataTable

namespace Database

/-- Why a handle cannot be opened or used. -/
inductive Error where
  | closed (source : String)
  | unsupportedDriver (driver : String)
  | flaw (f : Flaw) (sql : String)
  | parameterCount (given wanted : Nat)
  | hasRows

def Error.message : Error → String
  | closed source => "database '" ++ source ++ "' is closed"
  | unsupportedDriver driver => "unsupported database driver '" ++ driver ++ "'"
  | flaw f sql => f.text sql
  | parameterCount given wanted =>
    "Wrong number of parameters passed to query. Got " ++ toString given ++ ", needed " ++
      toString wanted
  | hasRows => "Execute returned results - did you mean to call query?"

/-- Opens a database with a driver. -/
def open? (driver source : String) : Except Error Database :=
  if driver = "sqlite" ∨ driver = "sqlite3" then .ok ⟨driver, source, true, .empty, 0, 0⟩
  else .error (.unsupportedDriver driver)

def close (d : Database) : Database := { d with isOpen := false }

/-- A flaw without a place. -/
def refuse {α : Type} (message : String) : Except Flaw α := .error ⟨message, none⟩

/-! ### Tables -/

/-- The table of a name and the name it was made with. -/
def table? (d : Database) (name : String) : Option (String × DataTable) :=
  d.tables.entries.find? fun (n, _) => sameName n name

def table (d : Database) (name : String) : Except Flaw (String × DataTable) :=
  match d.table? name with
  | some t => .ok t
  | none => refuse ("no such table: " ++ name)

def setTable (d : Database) (name : String) (t : DataTable) : Database :=
  { d with tables := d.tables.insert name t }

/-- The number of rows that a statement has touched. -/
def changed (d : Database) (n : Nat) : Database := { d with changes := n }

/-- The rows of a result: titles and cells. -/
abbrev Rows := List (List (String × Cell))

/-- A statement whose names are known to be right: what it does with its parameters. -/
abbrev Plan := List Cell → Except Flaw (Rows × Database)

/-! ### Queries -/

/-- The titles and cells that a row gives for one result. -/
def resultCells (parameters : List Cell) (columns : List Column) (row : Row) :
    ResultColumn → List (String × Cell)
  | .all => row.all columns
  | .one e title source =>
    let own := match e with
      | .column name _ => ((findColumn? columns name).map (·.2.name)).getD name
      | _ => source
    [(title.getD own, e.value parameters columns row)]

/-- What an expression to order by means: a result by its number or title, or itself. -/
def orderKey (results : List ResultColumn) (e : Formula) : Formula :=
  match e with
  | .literal (.int n) =>
    match results[n.toInt.toNat - 1]? with
    | some (.one r _ _) => r
    | _ => e
  | .column name _ =>
    let titled : ResultColumn → Option Formula
      | .one r (some title) _ => if sameName title name then some r else none
      | _ => none
    (results.findSome? titled).getD e
  | e => e

/-- Whether a list of keys comes before or with another. -/
def inOrder : List (Cell × Bool) → List (Cell × Bool) → Bool
  | (a, down) :: as, (b, _) :: bs =>
    match if down then (a.cmp b).swap else a.cmp b with
    | .lt => true
    | .gt => false
    | .eq => inOrder as bs
  | _, _ => true

def planSelect (d : Database) (results : List ResultColumn) (name : Option String)
    (filter : Option Formula) (order : List (Formula × Bool)) : Except Flaw Plan := do
  let table ← name.mapM fun n => return (← d.table n).2
  let scope := table.map (·.columns)
  for r in results do
    match r with
    | .all => if table.isNone then refuse "no tables specified"
    | .one e _ _ => e.check scope
  for e in filter.toList do e.check scope
  let keys := order.map fun (e, down) => (orderKey results e, down)
  for (e, _) in keys do e.check scope
  let columns := scope.getD []
  return fun parameters =>
    let rows := (table.map (·.rows)).getD [⟨0, []⟩]
    let rows := rows.filter (Formula.passes parameters columns filter)
    let keyed := rows.map fun row =>
      (keys.map fun (e, down) => (e.value parameters columns row, down), row)
    let sorted := (keyed.mergeSort fun a b => inOrder a.1 b.1).map (·.2)
    .ok (sorted.map fun row => results.flatMap (resultCells parameters columns row), d)

/-! ### Statements that write -/

/-- The identity that a cell gives to a row; an empty one leaves it open. -/
def identityOf (c : Cell) : Except Flaw (Option Int64) :=
  match c.stored .integer with
  | .null => .ok none
  | .int n => .ok (some n)
  | _ => refuse "datatype mismatch"

/-- The row that holds given cells, one for every column. -/
def makeRow (table : String) (columns : List Column) (cells : List Cell) (next : Int64) :
    Except Flaw Row := do
  let pairs := columns.zip cells
  let stored := pairs.map fun (c, cell) => cell.stored c.affinity
  let id ← match pairs.find? (·.1.isKey) with
    | some (_, cell) => do pure ((← identityOf cell).getD next)
    | none => pure next
  for (c, cell) in pairs do
    if c.notNull && !c.isKey && Formula.isEmptyCell cell then
      refuse ("NOT NULL constraint failed: " ++ table ++ "." ++ c.name)
  return ⟨id, stored⟩

/-- The table with a new row. -/
def addRow (name : String) (t : DataTable) (row : Row) : Except Flaw DataTable :=
  if t.has row.id then
    let key := ((t.columns.find? (·.isKey)).map (·.name)).getD "rowid"
    refuse ("UNIQUE constraint failed: " ++ name ++ "." ++ key)
  else .ok { t with rows := DataTable.place row t.rows }

/-- The cells of a row that is given for some of the columns. -/
def spread (columns : List Column) (names : List String) (cells : List Cell) : List Cell :=
  columns.map fun c => (((names.zip cells).find? fun (n, _) => sameName n c.name).map (·.2)).getD .null

def planInsert (d : Database) (name : String) (names : Option (List String))
    (rows : List (List Formula)) : Except Flaw Plan := do
  let (name, t) ← d.table name
  let names ← match names with
    | none => do
      for row in rows do
        if row.length ≠ t.columns.length then
          refuse ("table " ++ name ++ " has " ++ toString t.columns.length ++ " columns but " ++
            toString row.length ++ " values were supplied")
      pure (t.columns.map (·.name))
    | some names => do
      for n in names do
        if (findColumn? t.columns n).isNone then
          refuse ("table " ++ name ++ " has no column named " ++ n)
      for row in rows do
        if row.length ≠ names.length then
          refuse (toString row.length ++ " values for " ++ toString names.length ++ " columns")
      pure names
  for row in rows do
    for e in row do e.check none
  return fun parameters => do
    let add (state : DataTable × Int64) (row : List Formula) : Except Flaw (DataTable × Int64) := do
      let cells := row.map (·.value parameters [] ⟨0, []⟩)
      let row ← makeRow name t.columns (spread t.columns names cells) state.1.nextId
      return (← addRow name state.1 row, row.id)
    let (t, last) ← rows.foldlM add (t, d.lastInsert)
    return ([], (({ d with lastInsert := last }).setTable name t).changed rows.length)

def planUpdate (d : Database) (name : String) (sets : List (String × Formula))
    (filter : Option Formula) : Except Flaw Plan := do
  let (name, t) ← d.table name
  for (c, e) in sets do
    e.check (some t.columns)
    if (findColumn? t.columns c).isNone then refuse ("no such column: " ++ c)
  for e in filter.toList do e.check (some t.columns)
  return fun parameters => do
    let (touched, kept) := t.rows.partition (Formula.passes parameters t.columns filter)
    let change (t' : DataTable) (row : Row) : Except Flaw DataTable := do
      let cells := t.columns.map fun c =>
        match sets.reverse.find? fun (n, _) => sameName n c.name with
        | some (_, e) => e.value parameters t.columns row
        | none => row.cell t.columns c.name
      addRow name t' (← makeRow name t.columns cells row.id)
    let t' ← touched.foldlM change { t with rows := kept }
    return ([], (d.setTable name t').changed touched.length)

def planDelete (d : Database) (name : String) (filter : Option Formula) : Except Flaw Plan := do
  let (name, t) ← d.table name
  for e in filter.toList do e.check (some t.columns)
  return fun parameters =>
    let (gone, kept) := t.rows.partition (Formula.passes parameters t.columns filter)
    .ok ([], (d.setTable name { t with rows := kept }).changed gone.length)

/-- Checks the names of a statement. -/
def plan (d : Database) : Statement → Except Flaw Plan
  | .empty => .ok fun _ => .ok ([], d)
  | .select results table filter order => d.planSelect results table filter order
  | .create name place ifMissing columns =>
    match d.table? name with
    | none => .ok fun _ => .ok ([], d.setTable name ⟨columns, []⟩)
    | some (made, _) =>
      if ifMissing then .ok fun _ => .ok ([], d)
      else .error ⟨"table " ++ made ++ " already exists", some place⟩
  | .drop name => do
    let (name, _) ← d.table name
    return fun _ => .ok ([], { d with tables := d.tables.erase name })
  | .insert name names rows => d.planInsert name names rows
  | .update name sets filter => d.planUpdate name sets filter
  | .delete name filter => d.planDelete name filter

/-! ### Running statements -/

/-- Runs the first statement of a text: its rows, and the database after it. A statement that
fails has touched no rows. -/
def run (d : Database) (sql : String) (parameters : List Cell) : Except Error Rows × Database :=
  if !d.isOpen then (.error (.closed d.source), d)
  else
    match (do
      let (s, wanted) ← Statement.read sql
      return (← d.plan s, wanted) : Except Flaw (Plan × Nat)) with
    | .error f => (.error (.flaw f sql), d)
    | .ok (plan, wanted) =>
      if parameters.length ≠ wanted then
        (.error (.parameterCount (min parameters.length (wanted + 1)) wanted), d)
      else
        match plan parameters with
        | .ok (rows, d) => (.ok rows, d)
        | .error f => (.error (.flaw f sql), d.changed 0)

/-- Runs a statement that gives no rows: how many rows were touched last. -/
def exec (d : Database) (sql : String) (parameters : List Cell) : Except Error Nat × Database :=
  match d.run sql parameters with
  | (.ok [], d) => (.ok d.changes, d)
  | (.ok (_ :: _), d) => (.error .hasRows, d)
  | (.error e, d) => (.error e, d)

end Database

end ScriptEngine.Host
