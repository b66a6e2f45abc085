import ScriptEngine.Method.Sequence
import ScriptEngine.Calendar.Format

/-!
# Methods of database handles

The values behind a statement are bound to its parameters in order. A row comes back as a hash
by column, in the order of the columns.
-/

namespace ScriptEngine.Method

open Eval

/-- A value as a parameter. -/
def cellOf (site : CallSite) (v : Value) : Eval Host.Sql.Cell :=
  match v with
  | .nil => return .null
  | .bool b => return .int (if b then 1 else 0)
  | .int n => return .int n
  | .uint n =>
    return if n.toNat < 9223372036854775808 then .int (Int64.ofNat n.toNat) else .text (toString n.toNat)
  | .float x => return if x.isNaN then .null else .real x
  | .decimal d => return .text d.toText
  | .text s => return .text s
  | .time t => return .text (String.ofList (Calendar.Format.standardText t))
  | other => do site.fail (.scanType (← gets (·.typeName other)))

/-- A cell as a value. Bytes have to be a text. -/
def valueOf (site : CallSite) (c : Host.Sql.Cell) : Eval Value :=
  match c with
  | .null => return .nil
  | .int n => return .int n
  | .real x => return .float x
  | .text s => return .text s
  | .blob b =>
    match Host.decode b with
    | .ok s => return .text s
    | .error _ => site.fail (.scanType "BLOB")

def database (r : Ref .database) : Eval Host.Database :=
  gets fun s => (s.host.databases.get? r).getD ⟨"", "", false, .empty, 0, 0⟩

def setDatabase (r : Ref .database) (d : Host.Database) : Eval Unit :=
  modify fun s => { s with host := { s.host with databases := s.host.databases.set r d } }

/-- A result of a database, or the fault that tells why there is none. -/
def databaseResult {α : Type} (site : CallSite) (r : Except Host.Database.Error α) : Eval α :=
  match r with
  | .ok a => pure a
  | .error e => site.fail (.database e.message)

/-- The text of a statement and its parameters. -/
def statement (site : CallSite) (args : List Value) : Eval (String × List Host.Sql.Cell) := do
  site.atLeast 1 args
  let sql ← site.textArg args 0
  return (sql, ← mapList (cellOf site) args.tail)

/-- A row as a hash. -/
def rowValue (site : CallSite) (row : List (String × Host.Sql.Cell)) : Eval Value := do
  let entries ← mapList (fun (title, c) => do return (Key.text title, ← valueOf site c)) row
  newHash (.ofList entries)

/-- The rows of a query. -/
def rows (site : CallSite) (r : Ref .database) (args : List Value) : Eval Host.Database.Rows := do
  let (sql, cells) ← statement site args
  let (result, d) := (← database r).run sql cells
  setDatabase r d
  databaseResult site result

def ofDatabase : MethodTable (Ref .database) := [
  ("exec", fun _ site r args => do
    let (sql, cells) ← statement site args
    let (result, d) := (← database r).exec sql cells
    setDatabase r d
    return countValue (← databaseResult site result)),
  ("query", fun _ site r args => do
    newArrayOf (← mapList (rowValue site) (← rows site r args))),
  ("queryRow", fun _ site r args => do
    match (← rows site r args).head? with
    | some row => rowValue site row
    | none => return .nil),
  ("lastInsertId", plain fun site r => do
    let d ← database r
    if d.isOpen then return .int d.lastInsert
    else databaseResult site (.error (.closed d.source))),
  ("ping", plain fun _ r => return .bool (← database r).isOpen),
  ("close", plain fun _ r => do
    setDatabase r (← database r).close
    return .nil),
  ("driver", plain fun _ r => return .text (← database r).driver)]

end ScriptEngine.Method
