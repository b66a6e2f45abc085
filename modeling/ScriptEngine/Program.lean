import ScriptEngine.Span

/-!
# Programs

A program is a list of statements; statements hold expressions, and expressions hold
statements again through function bodies. Every node carries the `Span` of the source
text it stands for.
-/

namespace ScriptEngine

/-- Operators in front of their operand. -/
inductive PrefixOp where
  | negate
  | not
  | plus
deriving DecidableEq, Repr

/-- Operators behind their operand. -/
inductive PostfixOp where
  | increment
  | decrement
deriving DecidableEq, Repr

/-- Operators between their operands. -/
inductive InfixOp where
  | add
  | subtract
  | multiply
  | divide
  | modulo
  | power
  | equal
  | notEqual
  | less
  | lessEqual
  | greater
  | greaterEqual
  | and
  | or
deriving DecidableEq, Repr

/-- Assignment: plain, or through an operator that combines the old value with the new
operand. -/
inductive AssignOp where
  | plain
  | add
  | subtract
  | multiply
  | divide
  | modulo
deriving DecidableEq, Repr

def PrefixOp.text : PrefixOp → String
  | negate => "-"
  | not => "!"
  | plus => "+"

def PostfixOp.text : PostfixOp → String
  | increment => "++"
  | decrement => "--"

def InfixOp.text : InfixOp → String
  | add => "+"
  | subtract => "-"
  | multiply => "*"
  | divide => "/"
  | modulo => "%"
  | power => "**"
  | equal => "=="
  | notEqual => "!="
  | less => "<"
  | lessEqual => "<="
  | greater => ">"
  | greaterEqual => ">="
  | and => "&&"
  | or => "||"

/-- The operator a compound assignment applies. -/
def AssignOp.combine? : AssignOp → Option InfixOp
  | plain => none
  | add => some .add
  | subtract => some .subtract
  | multiply => some .multiply
  | divide => some .divide
  | modulo => some .modulo

def AssignOp.text (op : AssignOp) : String :=
  match op.combine? with
  | some combine => combine.text ++ "="
  | none => "="

/-- Who may use a class member. -/
inductive Visibility where
  | isPublic
  | isPrivate
  | isProtected
deriving DecidableEq, Repr

/-- Classes of objects, and classes that annotate methods. -/
inductive Category where
  | normal
  | marking
deriving DecidableEq, Repr

def Category.text : Category → String
  | normal => "class"
  | marking => "annotation"

/-- What an import binds. -/
inductive ImportNames where
  /-- Every exported name. -/
  | all
  /-- The listed names, each with the name it is bound to if that differs. -/
  | named (items : List (String × Option String))
  /-- The package itself, under a name. -/
  | whole (binder : String)
deriving Repr

mutual

/-- An expression with the place it stands at. -/
inductive Expr where
  | mk (form : ExprForm) (span : Span)

/-- The forms of expressions. -/
inductive ExprForm where
  | nil
  | bool (b : Bool)
  | int (n : Int64)
  | uint (n : UInt64)
  | float (x : Float)
  /-- A decimal literal, still as text. -/
  | decimal (text : String)
  | text (s : String)
  | array (items : List Expr)
  | tuple (items : List Expr)
  | hash (pairs : List (Expr × Expr))
  | name (name : String)
  | prefixed (op : PrefixOp) (operand : Expr)
  | binary (op : InfixOp) (left right : Expr)
  | postfixed (op : PostfixOp) (target : Expr)
  | assign (op : AssignOp) (target value : Expr)
  /-- The integers from `start` up to `stop`, without it. -/
  | range (start stop : Expr)
  | index (object index : Expr)
  | slice (object : Expr) (start stop : Option Expr)
  | member (object : Expr) (name : String)
  | methodCall (object : Expr) (method : String) (args : List Expr)
  | call (callee : Expr) (args : List Expr)
  | function (name : Option String) (params : List Param) (body : List Stmt)
  | new (cls : Expr) (args : List Expr)
  | super (method : String) (args : List Expr)
  | spawn (task : Expr)
  | conditional (condition yes no : Expr)

/-- A parameter and the expression that supplies it when the caller does not. -/
inductive Param where
  | mk (name : String) (default? : Option Expr)

/-- A statement with the place it stands at. -/
inductive Stmt where
  | mk (form : StmtForm) (span : Span)

/-- The forms of statements. -/
inductive StmtForm where
  | expr (e : Expr)
  | declare (name : String) (value : Option Expr)
  | constant (name : String) (value : Expr)
  | block (body : List Stmt)
  | branch (condition : Expr) (yes : List Stmt) (no : Option (List Stmt))
  | while (condition : Expr) (body : List Stmt)
  | forIn (key : Option String) (value : String) (items : Expr) (body : List Stmt)
  | break
  | continue
  | return (value : Option Expr)
  | throw (value : Expr)
  | try (body : List Stmt) (handler : Option (String × List Stmt)) (last : Option (List Stmt))
  | defer (call : Expr)
  | function (name : String) (params : List Param) (body : List Stmt)
  | classDef (decl : ClassDecl)
  | importFrom (path : String) (names : ImportNames)

/-- A class declaration. -/
inductive ClassDecl where
  | mk (name : String) (parent : Option String) (category : Category)
      (members : List MemberDecl) (span : Span)

/-- A member of a class declaration. -/
inductive MemberDecl where
  | mk (visibility : Visibility) (isStatic : Bool) (annotations : List String)
      (form : MemberForm) (span : Span)

/-- The forms of class members. Setters come with the name of their parameter. -/
inductive MemberForm where
  | field (name : String) (value : Option Expr)
  | method (name : String) (params : List Param) (body : List Stmt)
  | property (name : String) (getter : Option (List Stmt)) (setter : Option (String × List Stmt))
  | indexer (param type : String) (getter : Option (List Stmt))
      (setter : Option (String × List Stmt))

end

/-- A program is the list of its statements. -/
abbrev Program := List Stmt

def Expr.form : Expr → ExprForm
  | mk form _ => form

def Expr.span : Expr → Span
  | mk _ span => span

def Stmt.form : Stmt → StmtForm
  | mk form _ => form

def Stmt.span : Stmt → Span
  | mk _ span => span

def Param.name : Param → String
  | mk name _ => name

def Param.default? : Param → Option Expr
  | mk _ default? => default?

instance : Inhabited Expr := ⟨.mk .nil .unknown⟩

instance : Inhabited Stmt := ⟨.mk .break .unknown⟩

instance : Inhabited Param := ⟨.mk "" none⟩

end ScriptEngine
