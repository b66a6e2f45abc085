import ScriptEngine.Host.Sql.Cell
import ScriptEngine.Host.Sql.Token

/-!
# Statements of the query language

The part of the language that makes, fills, reads and changes single tables. A statement is
read from its tokens by recursive descent; reading stops at the first token that cannot follow
what stands before it, and that token is the flaw. What follows the semicolon behind a
statement is not looked at.
-/

namespace ScriptEngine.Host.Sql

/-- What is wrong with a statement, and the place in its text if there is one. -/
structure Flaw where
  message : String
  place : Option Nat
deriving DecidableEq, Repr

/-- The message about a statement. -/
def Flaw.text (f : Flaw) (sql : String) : String :=
  match f.place with
  | some place => f.message ++ " in " ++ sql ++ " at offset " ++ toString place
  | none => f.message

inductive UnaryOp where
  | negate
  | same
  | not
  | isNull
  | notNull
deriving DecidableEq, Repr

inductive BinaryOp where
  | or
  | and
  | eq
  | ne
  | is
  | isNot
  | lt
  | le
  | gt
  | ge
  | add
  | sub
  | mul
  | div
  | mod
  | concat
deriving DecidableEq, Repr

inductive Formula where
  | literal (c : Cell)
  /-- A parameter by its number, from one. -/
  | parameter (index : Nat)
  | column (name : String) (place : Nat)
  | unary (op : UnaryOp) (e : Formula)
  | binary (op : BinaryOp) (a b : Formula)

/-- What a query asks for. -/
inductive ResultColumn where
  | all
  | one (e : Formula) (title : Option String) (source : String)

/-- A column of a table. -/
structure Column where
  name : String
  affinity : Affinity
  /-- Whether the column is the identity of the row. -/
  isKey : Bool
  notNull : Bool
deriving DecidableEq, Repr

inductive Statement where
  | empty
  | select (results : List ResultColumn) (table : Option String) (filter : Option Formula)
      (order : List (Formula × Bool))
  | create (table : String) (place : Nat) (ifMissing : Bool) (columns : List Column)
  | drop (table : String)
  | insert (table : String) (columns : Option (List String)) (rows : List (List Formula))
  | update (table : String) (sets : List (String × Formula)) (filter : Option Formula)
  | delete (table : String) (filter : Option Formula)

/-- The words that cannot be names. -/
def reserved : List String := [
  "ADD", "ALL", "ALTER", "AND", "AS", "BETWEEN", "CASE", "CHECK", "COLLATE", "COMMIT",
  "CONSTRAINT", "CREATE", "DEFAULT", "DELETE", "DISTINCT", "DROP", "ELSE", "ESCAPE", "EXISTS",
  "FOREIGN", "FROM", "GROUP", "HAVING", "IN", "INDEX", "INSERT", "INTO", "IS", "ISNULL", "JOIN",
  "LIMIT", "NOT", "NOTNULL", "NULL", "ON", "OR", "ORDER", "PRIMARY", "REFERENCES", "SELECT",
  "SET", "TABLE", "THEN", "TO", "TRANSACTION", "UNION", "UNIQUE", "UPDATE", "USING", "VALUES",
  "WHEN", "WHERE"]

/-! ### Reading -/

/-- How far a statement has been read. -/
structure Progress where
  tokens : List Token
  /-- The place behind the last token. -/
  done : Nat
  /-- The largest number of a parameter so far. -/
  parameters : Nat

abbrev Reader := StateT Progress (Except Flaw)

namespace Reader

variable {α : Type}

/-- The next token is a flaw. -/
def unexpected : Reader α := do
  match (← get).tokens with
  | [] => throw ⟨"incomplete input", none⟩
  | t :: _ =>
    match t.kind with
    | .bad => throw ⟨"unrecognized token: \"" ++ t.source ++ "\"", some t.place⟩
    | _ => throw ⟨"near \"" ++ t.source ++ "\": syntax error", some t.place⟩

def peek : Reader (Option Token) := do return (← get).tokens.head?

/-- Goes on behind the next token. -/
def skip : Reader Unit :=
  modify fun p =>
    match p.tokens with
    | [] => p
    | t :: rest => { p with tokens := rest, done := t.place + t.source.utf8ByteSize }

/-- Whether the next token is a word; if it is, goes on behind it. -/
def word? (w : String) : Reader Bool := do
  if ((← peek).map (·.isWord w)).getD false then
    skip
    return true
  else return false

/-- Whether the next token is a sign; if it is, goes on behind it. -/
def sign? (s : String) : Reader Bool := do
  if ((← peek).map (·.isSign s)).getD false then
    skip
    return true
  else return false

def word (w : String) : Reader Unit := do if !(← word? w) then unexpected

def sign (s : String) : Reader Unit := do if !(← sign? s) then unexpected

/-- The name that a token is, if it is one. -/
def nameOf? (t : Token) : Option String :=
  match t.kind with
  | .word => if reserved.contains t.source.toUpper then none else some t.source
  | .name s => some s
  | _ => none

/-- A name, if one comes next. -/
def name? : Reader (Option String) := do
  match (← peek).bind nameOf? with
  | some s =>
    skip
    return some s
  | none => return none

def name : Reader String := do
  match ← name? with
  | some s => return s
  | none => unexpected

/-- Items with commas between them; `fuel` bounds their number. -/
def commas (item : Reader α) : Nat → Reader (List α)
  | 0 => return [← item]
  | fuel + 1 => do
    let x ← item
    if ← sign? "," then return x :: (← commas item fuel) else return [x]

/-- Items with commas between them. -/
def list (item : Reader α) : Reader (List α) := do commas item (← get).tokens.length

/-- The cell that a word stands for. -/
def wordCell? (w : String) : Option Cell :=
  match w.toUpper with
  | "NULL" => some .null
  | "TRUE" => some (.int 1)
  | "FALSE" => some (.int 0)
  | _ => none

/-- The number of a parameter; one without a number takes the next. -/
def parameter (index : Option Nat) : Reader Formula := do
  let n := index.getD ((← get).parameters + 1)
  modify fun p => { p with parameters := max p.parameters n }
  return .parameter n

/-- An expression that is one token. -/
def atom : Reader Formula := do
  match ← peek with
  | none => unexpected
  | some t =>
    let literal (c : Cell) : Reader Formula := do
      skip
      return .literal c
    match t.kind with
    | .integer => literal (Cell.ofInteger (Text.natOfDigits t.source.toList))
    | .real => literal ((Cell.readNumber t.source.toList).1.getD .null)
    | .text s => literal (.text s)
    | .blob b => literal (.blob b)
    | .parameter index =>
      skip
      parameter index
    | .word =>
      match wordCell? t.source with
      | some c => literal c
      | none => return .column (← name) t.place
    | .name s =>
      skip
      return .column s t.place
    | .sign => unexpected
    | .bad => unexpected

/-- The operator that a token is between operands of a level. -/
def operator? (level : Nat) (t : Token) : Option BinaryOp :=
  let words : List (String × BinaryOp) := match level with
    | 0 => [("OR", .or)]
    | 1 => [("AND", .and)]
    | 3 => [("IS", .is)]
    | _ => []
  let signs : List (String × BinaryOp) := match level with
    | 3 => [("=", .eq), ("==", .eq), ("<>", .ne), ("!=", .ne)]
    | 4 => [("<", .lt), ("<=", .le), (">", .gt), (">=", .ge)]
    | 5 => [("+", .add), ("-", .sub)]
    | 6 => [("*", .mul), ("/", .div), ("%", .mod)]
    | 7 => [("||", .concat)]
    | _ => []
  ((words.find? fun (w, _) => t.isWord w) <|> (signs.find? fun (s, _) => t.isSign s)).map (·.2)

/-- The operator that a token is behind an operand of a level. -/
def suffix? (level : Nat) (t : Token) : Option UnaryOp :=
  if level ≠ 3 then none
  else if t.isWord "ISNULL" then some .isNull
  else if t.isWord "NOTNULL" then some .notNull
  else none

/-- The level of a negation in words. -/
def notLevel : Nat := 2

/-- The level of a sign before an operand. -/
def signLevel : Nat := 8

mutual

/-- An expression of a level: operators of a higher level bind closer. -/
def exprAt : Nat → Nat → Reader Formula
  | 0, _ => unexpected
  | fuel + 1, level => do
    if level = notLevel then
      if ← word? "NOT" then return .unary .not (← exprAt fuel notLevel)
      else exprAt fuel (level + 1)
    else if level = signLevel then
      if ← sign? "-" then return .unary .negate (← exprAt fuel signLevel)
      else if ← sign? "+" then return .unary .same (← exprAt fuel signLevel)
      else if ← sign? "(" then
        let e ← exprAt fuel 0
        sign ")"
        return e
      else atom
    else operands fuel level (← exprAt fuel (level + 1))

/-- The operators of a level behind their first operand. -/
def operands : Nat → Nat → Formula → Reader Formula
  | 0, _, a => return a
  | fuel + 1, level, a => do
    match (← peek).bind (suffix? level) with
    | some op =>
      skip
      operands fuel level (.unary op a)
    | none =>
      match (← peek).bind (operator? level) with
      | none => return a
      | some op =>
        skip
        let op ← if op = .is then
            if ← word? "NOT" then pure BinaryOp.isNot else pure BinaryOp.is
          else pure op
        operands fuel level (.binary op a (← exprAt fuel (level + 1)))

end

/-- An expression. Every token is met at most once on every level. -/
def expr : Reader Formula := do exprAt (10 * (← get).tokens.length + 10) 0

/-- The clause behind `WHERE`, if there is one. -/
def filter : Reader (Option Formula) := do
  if ← word? "WHERE" then return some (← expr) else return none

/-- The text between two places. -/
def between (sql : Bytes) (start stop : Nat) : String :=
  ((decode ((sql.drop start).take (stop - start))).toOption).getD ""

/-- A result of a query, with an optional title. -/
def result (sql : Bytes) : Reader ResultColumn := do
  if ← sign? "*" then return .all
  let start := ((← peek).map (·.place)).getD 0
  let e ← expr
  let source := between sql start (← get).done
  if ← word? "AS" then
    match ← peek with
    | some ⟨.text s, _, _⟩ =>
      skip
      return .one e (some s) source
    | _ => return .one e (some (← name)) source
  else return .one e (← name?) source

/-- An expression to order by, and whether downwards. -/
def ordering : Reader (Formula × Bool) := do
  let e ← expr
  if ← word? "DESC" then return (e, true)
  discard <| word? "ASC"
  return (e, false)

def select (sql : Bytes) : Reader Statement := do
  let results ← list (result sql)
  let table ← if ← word? "FROM" then some <$> name else pure none
  let filter ← filter
  let order ← if ← word? "ORDER" then
      word "BY"
      list ordering
    else pure []
  return .select results table filter order

/-- The words of a declared type, with a length in brackets that counts for nothing. -/
def typeWords : Nat → Reader String
  | 0 => return ""
  | fuel + 1 => do
    match ← name? with
    | some w => return w ++ " " ++ (← typeWords fuel)
    | none =>
      if ← sign? "(" then
        discard <| list atom
        sign ")"
      return ""

/-- The constraints of a column that is declared with a type. -/
def constraints (type : String) : Nat → Column → Reader Column
  | 0, c => return c
  | fuel + 1, c => do
    if ← word? "PRIMARY" then
      word "KEY"
      discard <| word? "AUTOINCREMENT"
      constraints type fuel { c with isKey := type.toUpper == "INTEGER" }
    else if ← word? "NOT" then
      word "NULL"
      constraints type fuel { c with notNull := true }
    else return c

def columnDef : Reader Column := do
  let title ← name
  let type := String.trimAscii (← typeWords (← get).tokens.length) |>.toString
  constraints type (← get).tokens.length ⟨title, .ofType type, false, false⟩

def create : Reader Statement := do
  word "TABLE"
  let ifMissing ← word? "IF"
  if ifMissing then
    word "NOT"
    word "EXISTS"
  let place := ((← peek).map (·.place)).getD 0
  let table ← name
  sign "("
  let columns ← list columnDef
  sign ")"
  return .create table place ifMissing columns

/-- A row of values in brackets. -/
def values : Reader (List Formula) := do
  sign "("
  let row ← list expr
  sign ")"
  return row

def insert : Reader Statement := do
  word "INTO"
  let table ← name
  let columns ← if ← sign? "(" then do
      let names ← list name
      sign ")"
      pure (some names)
    else pure none
  word "VALUES"
  return .insert table columns (← list values)

def update : Reader Statement := do
  let table ← name
  word "SET"
  let sets ← list do
    let column ← name
    sign "="
    return (column, ← expr)
  return .update table sets (← filter)

def delete : Reader Statement := do
  word "FROM"
  let table ← name
  return .delete table (← filter)

/-- Skips semicolons; `fuel` bounds their number. -/
def semicolons : Nat → Reader Unit
  | 0 => return ()
  | fuel + 1 => do if ← sign? ";" then semicolons fuel

/-- The first statement, up to its semicolon. -/
def statement (sql : Bytes) : Reader Statement := do
  semicolons (← get).tokens.length
  if (← peek).isNone then return .empty
  let s ←
    if ← word? "SELECT" then select sql
    else if ← word? "CREATE" then create
    else if ← word? "DROP" then
      word "TABLE"
      pure (Statement.drop (← name))
    else if ← word? "INSERT" then insert
    else if ← word? "UPDATE" then update
    else if ← word? "DELETE" then delete
    else unexpected
  if (← peek).isSome then sign ";"
  return s

end Reader

/-- Reads a statement, and the number of its parameters. -/
def Statement.read (sql : String) : Except Flaw (Statement × Nat) := do
  let (s, p) ← (Reader.statement (encode sql)).run ⟨Token.scan sql, 0, 0⟩
  return (s, p.parameters)

end ScriptEngine.Host.Sql
