import ScriptEngine.Host.Sql.Statement

/-!
# Values of query expressions

An expression has a value for a row of a table and the parameters of its statement. Names are
checked before any row is looked at. Logic knows true, false and unknown, which the empty cell
stands for.
-/

namespace ScriptEngine.Host.Sql

/-- A row with its identity. -/
structure Row where
  id : Int64
  cells : List Cell
deriving Inhabited

/-- Whether two names are one, in any letter case. -/
def sameName (a b : String) : Bool := a.toLower == b.toLower

/-- The column of a name and its place. -/
def findColumn? (columns : List Column) (name : String) : Option (Nat × Column) :=
  ((List.range columns.length).zip columns).find? fun (_, c) => sameName c.name name

/-- Whether a name stands for the identity of a row. -/
def isIdentity (name : String) : Bool := ["rowid", "oid", "_rowid_"].contains name.toLower

/-- The cell of a column: the identity of the row if the column is that. -/
def Row.cell (columns : List Column) (row : Row) (name : String) : Cell :=
  match findColumn? columns name with
  | some (i, c) => if c.isKey then .int row.id else (row.cells[i]?).getD .null
  | none => .int row.id

/-- The cells of all columns with their names. -/
def Row.all (columns : List Column) (row : Row) : List (String × Cell) :=
  columns.map fun c => (c.name, row.cell columns c.name)

namespace Formula

/-- Refuses names that are no columns; without a table there are none. -/
def check (columns : Option (List Column)) : Formula → Except Flaw Unit
  | .literal _ => return ()
  | .parameter _ => return ()
  | .column name place =>
    let known := match columns with
      | none => false
      | some cs => (findColumn? cs name).isSome || isIdentity name
    if known then return () else throw ⟨"no such column: " ++ name, some place⟩
  | .unary _ e => e.check columns
  | .binary _ a b => do
    a.check columns
    b.check columns

/-- What a column that an expression is makes of what it is compared with. -/
def affinity? (columns : List Column) : Formula → Option Affinity
  | .column name _ =>
    match findColumn? columns name with
    | some (_, c) => some (if c.isKey then .integer else c.affinity)
    | none => some .integer
  | .unary .same e => e.affinity? columns
  | _ => none

/-- Whether an affinity is one of the numeric ones. -/
def prefersNumbers (a : Option Affinity) : Bool :=
  a == some .integer || a == some .real || a == some .numeric

/-- A cell as it is compared with an expression of the other affinity. -/
def adapted (own other : Option Affinity) (c : Cell) : Cell :=
  if prefersNumbers other && !prefersNumbers own then c.asNumeric
  else if other == some .text && own.isNone then c.asText
  else c

/-- The result of an operation on doubles; there is none when it is no number. -/
def ofReal (x : Float) : Cell := if x.isNaN then .null else .real x

/-- A number as a double. -/
def toReal : Cell → Float
  | .int n => n.toFloat
  | .real x => x
  | _ => 0.0

/-- A number as an integer: a double loses its fraction and stays in the range. -/
def toInteger : Cell → Int64
  | .int n => n
  | .real x => x.toInt64
  | _ => 0

/-- An operation on integers, in doubles when the result is out of range. -/
def exact (a b : Int64) (f : Int → Int → Int) (g : Float → Float → Float) : Cell :=
  match Cell.ofInteger (f a.toInt b.toInt) with
  | .int n => .int n
  | _ => ofReal (g a.toFloat b.toFloat)

/-- Arithmetic of numbers. -/
def arithmetic (op : BinaryOp) (a b : Cell) : Cell :=
  match op, a, b with
  | .add, .int a, .int b => exact a b (· + ·) (· + ·)
  | .sub, .int a, .int b => exact a b (· - ·) (· - ·)
  | .mul, .int a, .int b => exact a b (· * ·) (· * ·)
  | .div, .int a, .int b => if b = 0 then .null else exact a b Int.tdiv (· / ·)
  | .mod, .int a, .int b => if b = 0 then .null else exact a b Int.tmod (· / ·)
  | .add, a, b => ofReal (toReal a + toReal b)
  | .sub, a, b => ofReal (toReal a - toReal b)
  | .mul, a, b => ofReal (toReal a * toReal b)
  | .div, a, b => if toReal b == 0.0 then .null else ofReal (toReal a / toReal b)
  | .mod, a, b =>
    if toInteger b = 0 then .null
    else .real (Float.ofInt (Int.tmod (toInteger a).toInt (toInteger b).toInt))
  | _, _, _ => .null

/-- The text of a cell for joining; none for an empty one. -/
def joinText? (c : Cell) : Option String :=
  match c.asText with
  | .text s => some s
  | .blob b => some (((decode b).toOption).getD "")
  | _ => none

/-- Conjunction with unknowns. -/
def both : Option Bool → Option Bool → Option Bool
  | some false, _ => some false
  | _, some false => some false
  | some true, some true => some true
  | _, _ => none

/-- Disjunction with unknowns. -/
def either (a b : Option Bool) : Option Bool := (both (a.map (!·)) (b.map (!·))).map (!·)

def isEmptyCell : Cell → Bool
  | .null => true
  | _ => false

/-- Whether two cells compare in one of the given ways; unknown if one is empty. -/
def compared (holds : Ordering → Bool) (a b : Cell) : Option Bool :=
  if isEmptyCell a || isEmptyCell b then none else some (holds (a.cmp b))

/-- The value of a binary operation on cells, which are adapted to each other for a
comparison. -/
def binaryValue (op : BinaryOp) (a b : Cell) : Cell :=
  match op with
  | .or => .ofTruth (either a.truth? b.truth?)
  | .and => .ofTruth (both a.truth? b.truth?)
  | .eq => .ofTruth (compared (· == .eq) a b)
  | .ne => .ofTruth (compared (· != .eq) a b)
  | .lt => .ofTruth (compared (· == .lt) a b)
  | .le => .ofTruth (compared (· != .gt) a b)
  | .gt => .ofTruth (compared (· == .gt) a b)
  | .ge => .ofTruth (compared (· != .lt) a b)
  | .is => .ofTruth (some (a.cmp b == .eq))
  | .isNot => .ofTruth (some (a.cmp b != .eq))
  | .concat =>
    match joinText? a, joinText? b with
    | some s, some t => .text (s ++ t)
    | _, _ => .null
  | op =>
    match a.number?, b.number? with
    | some a, some b => arithmetic op a b
    | _, _ => .null

/-- Whether an operator compares. -/
def isComparison : BinaryOp → Bool
  | .eq => true
  | .ne => true
  | .lt => true
  | .le => true
  | .gt => true
  | .ge => true
  | .is => true
  | .isNot => true
  | _ => false

/-- The value of an expression. -/
def value (parameters : List Cell) (columns : List Column) (row : Row) : Formula → Cell
  | .literal c => c
  | .parameter n => (parameters[n - 1]?).getD .null
  | .column name _ => row.cell columns name
  | .unary op e =>
    let c := e.value parameters columns row
    match op with
    | .same => c
    | .not => .ofTruth (c.truth?.map (!·))
    | .isNull => .ofTruth (some (isEmptyCell c))
    | .notNull => .ofTruth (some !(isEmptyCell c))
    | .negate =>
      match c.number? with
      | some (.int n) => Cell.ofInteger (-n.toInt)
      | some (.real x) => .real (-x)
      | _ => .null
  | .binary op a b =>
    let x := a.value parameters columns row
    let y := b.value parameters columns row
    if isComparison op then
      let own := a.affinity? columns
      let other := b.affinity? columns
      binaryValue op (adapted own other x) (adapted other own y)
    else binaryValue op x y

/-- Whether a row passes a filter. -/
def passes (parameters : List Cell) (columns : List Column) (filter : Option Formula) (row : Row) :
    Bool :=
  match filter with
  | none => true
  | some e => (e.value parameters columns row).truth? == some true

end Formula

end ScriptEngine.Host.Sql
