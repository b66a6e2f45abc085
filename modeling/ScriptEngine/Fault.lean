import ScriptEngine.Span

/-!
# Faults

Everything that can go wrong while a program runs, for reasons of the program. A `Cause`
says what happened; `Cause.code` is its stable identifier and `Cause.message` its text. A
`Fault` is a cause together with the place in the program that raised it.
-/

namespace ScriptEngine

/-- Why a program failed. -/
inductive Cause where
  | prefixOperand (op operand : String)
  | infixOperands (left op right : String)
  | postfixOperand (op operand : String)
  | compoundOperands (left op right : String)
  | unknownName (name : String)
  | unknownNameLike (name suggestions : String)
  | noMethod (method object : String)
  | noMethodLike (method object suggestions : String)
  | notIndexable (type : String)
  | notHashable (type : String)
  | indexRange (index : Int)
  | sliceRange (start stop : Int)
  | argumentCount (expected : String) (got : Nat)
  | unsupportedInput (input func : String)
  | parameterType (ordinal func expected got : String)
  | inputLength (func : String) (max got : Nat)
  | invalidArgument (text : String)
  | divideByZero
  | notThrowable (type : String)
  | thrown (message : String)
  | notIterable (type : String)
  | rangeType (expected got : String)
  | badDefer
  | badSpawn
  | assertion
  | isNull (name : String)
  | json (message : String)
  | callbackArity (expected : String) (got : Nat)
  | fileMode (mode : String)
  | fileOpen (message : String)
  | notClass (text : String)
  | parentUnknown (name : String)
  | classUnknown (name : String)
  | memberPrivate (member owner : String)
  | methodPrivate (method owner : String)
  | propertyUse (property owner : String)
  | memberUse (member owner : String)
  | indexerUse (owner : String)
  | indexerType (owner : String)
  | indexerStatic (owner : String)
  | indexerMissing (owner : String)
  | methodNotStatic (method owner : String)
  | classCategory (name category : String)
  | classNeedsNew (name : String)
  | parentNotMarking (name parent : String)
  | noOverride (method owner : String)
  | constant (name : String)
  | notExported (module name : String)
  | importFailed (message : String)
  | scanType (type : String)
  | database (message : String)
  | xml (message : String)
  | general (message : String)
deriving DecidableEq, Repr, Inhabited

/-- The stable identifier of a cause, whatever its details are. -/
def Cause.code : Cause → String
  | prefixOperand .. => "PREFIX_OP"
  | infixOperands .. => "INFIX_OP"
  | postfixOperand .. => "POSTFIX_OP"
  | compoundOperands .. => "MOD_ASSIGN_OP"
  | unknownName .. => "UNKNOWN_IDENT"
  | unknownNameLike .. => "UNKNOWN_IDENT_EX"
  | noMethod .. => "NO_METHOD"
  | noMethodLike .. => "NO_METHOD_EX"
  | notIndexable .. => "NO_INDEX"
  | notHashable .. => "KEY_ERROR"
  | indexRange .. => "INDEX_ERROR"
  | sliceRange .. => "SLICE_ERROR"
  | argumentCount .. => "ARGUMENT_ERROR"
  | unsupportedInput .. => "INPUT_ERROR"
  | parameterType .. => "PARAM_TYPE_ERROR"
  | inputLength .. => "INPUT_LENGTH_ERROR"
  | invalidArgument .. => "INVALID_ARGUMENT"
  | divideByZero => "DIVIDE_BY_ZERO"
  | notThrowable .. => "THROW_ERROR"
  | thrown .. => "THROW_NOT_HANDLED"
  | notIterable .. => "NOT_ITERABLE"
  | rangeType .. => "RANGE_TYPE_ERROR"
  | badDefer => "DEFER_ERROR"
  | badSpawn => "SPAWN_ERROR"
  | assertion => "ASSERTION_ERROR"
  | isNull .. => "NULLABLE_ERROR"
  | json .. => "JSON_ERROR"
  | callbackArity .. => "FUNC_CALLBACK_ERROR"
  | fileMode .. => "FILE_MODE_ERROR"
  | fileOpen .. => "FILE_OPEN_ERROR"
  | notClass .. => "NOT_CLASS_ERROR"
  | parentUnknown .. => "PARENT_NOT_DECLARED"
  | classUnknown .. => "CLASS_NOT_DEFINED"
  | memberPrivate .. => "CLS_MEMBER_PRIVATE"
  | methodPrivate .. => "CLS_CALL_PRIVATE"
  | propertyUse .. => "PROPERTY_USE_ERROR"
  | memberUse .. => "MEMBER_USE_ERROR"
  | indexerUse .. => "INDEXER_USE_ERROR"
  | indexerType .. => "INDEXER_TYPE_ERROR"
  | indexerStatic .. => "INDEXER_STATIC_ERROR"
  | indexerMissing .. => "INDEX_NOT_FOUND_ERROR"
  | methodNotStatic .. => "CALL_NON_STATIC_ERROR"
  | classCategory .. => "CLASS_CATEGORY_ERROR"
  | classNeedsNew .. => "CLASS_CREATE_ERROR"
  | parentNotMarking .. => "PARENT_NOT_ANNOTATION"
  | noOverride .. => "OVERRIDE_ERROR"
  | constant .. => "CONST_NOT_ASSIGN_ERROR"
  | notExported .. => "NAME_NOT_EXPORTED"
  | importFailed .. => "IMPORT_ERROR"
  | scanType .. => "DB_SCAN_ERROR"
  | database .. => "DB_ERROR"
  | xml .. => "XML_ERROR"
  | general .. => "GENERIC"

/-- The text of a cause. -/
def Cause.message : Cause → String
  | prefixOperand op operand =>
    "unsupported operator for prefix expression:'" ++ op ++ "' and type: " ++ operand
  | infixOperands left op right =>
    "unsupported operator for infix expression: " ++ left ++ " '" ++ op ++ "' " ++ right
  | postfixOperand op operand =>
    "unsupported operator for postfix expression:'" ++ op ++ "' and type: " ++ operand
  | compoundOperands left op right =>
    "unsupported operator for compound assignment: " ++ left ++ " '" ++ op ++ "' " ++ right
  | unknownName name => "unknown identifier: '" ++ name ++ "' is not defined"
  | unknownNameLike name suggestions =>
    "identifier '" ++ name ++ "' not found. \n\nDid you mean one of: \n\n  " ++ suggestions ++ "\n"
  | noMethod method object => "undefined method '" ++ method ++ "' for object " ++ object
  | noMethodLike method object suggestions =>
    "undefined method '" ++ method ++ "' for object '" ++ object ++
      "'. \n\nDid you mean one of: \n\n  " ++ suggestions ++ "\n"
  | notIndexable type => "index error: type " ++ type ++ " is not indexable"
  | notHashable type => "key error: type " ++ type ++ " is not hashable"
  | indexRange index => "index error: '" ++ toString index ++ "' out of range"
  | sliceRange start stop =>
    "index error: slice '" ++ toString start ++ ":" ++ toString stop ++ "' out of range"
  | argumentCount expected got =>
    "wrong number of arguments. expected=" ++ expected ++ ", got=" ++ toString got
  | unsupportedInput input func =>
    "unsupported input type '" ++ input ++ "' for function or method: " ++ func
  | parameterType ordinal func expected got =>
    ordinal ++ " argument for '" ++ func ++ "' should be type " ++ expected ++ ". got=" ++ got
  | inputLength func max got =>
    "function " ++ func ++ " takes input with max length " ++ toString max ++ ", got=" ++ toString got
  | invalidArgument text => "invalid argument supplied: " ++ text
  | divideByZero => "divide by zero"
  | notThrowable type => "only string type can be thrown, got=" ++ type
  | thrown message => "throw object '" ++ message ++ "' not handled"
  | notIterable type => "foreach's operating type must be iterable, got=" ++ type
  | rangeType expected got =>
    "range(..) type should be " ++ expected ++ " type, got='" ++ got ++ "'"
  | badDefer => "defer outside function or defer statement not a function"
  | badSpawn => "spawn must be followed by a function"
  | assertion => "assertion failed"
  | isNull name => "'" ++ name ++ "' is null"
  | json message => "json error: " ++ message
  | callbackArity expected got =>
    "callback function must have " ++ expected ++ " arguments, got=" ++ toString got
  | fileMode mode => "unknown file mode supplied: '" ++ mode ++ "'"
  | fileOpen message => "file open error: " ++ message
  | notClass text => "'" ++ text ++ "' is not a class"
  | parentUnknown name => "Parent class " ++ name ++ " not declared"
  | classUnknown name => "Class " ++ name ++ " not defined"
  | memberPrivate member owner => "Variable(" ++ member ++ ") of class(" ++ owner ++ ") is private"
  | methodPrivate method owner => "Method (" ++ method ++ ") of class(" ++ owner ++ ") is private"
  | propertyUse property owner =>
    "Invalid use of Property(" ++ property ++ ") of class(" ++ owner ++ ")"
  | memberUse member owner => "Invalid use of member(" ++ member ++ ") of class(" ++ owner ++ ")"
  | indexerUse owner => "Invalid use of Indexer of class(" ++ owner ++ ")"
  | indexerType owner =>
    "Invalid use of Indexer of class(" ++ owner ++ "), Only interger type of Indexer is supported"
  | indexerStatic owner =>
    "Invalid use of Indexer of class(" ++ owner ++ "), Indexer cannot declared as static"
  | indexerMissing owner => "Indexer not found for class(" ++ owner ++ ")"
  | methodNotStatic method owner =>
    "Non-static method '" ++ method ++ "' of class(" ++ owner ++
      ") cannot be called through the class"
  | classCategory name category =>
    "No class(" ++ name ++ ") found for category(" ++ category ++ ")"
  | classNeedsNew name => "You must use 'new' to create class('" ++ name ++ "')"
  | parentNotMarking name parent =>
    "Annotation class '" ++ name ++ "' must have an annotation parent, got '" ++ parent ++ "'"
  | noOverride method owner =>
    "Method(" ++ method ++ ") of class(" ++ owner ++ ") must override a superclass method"
  | constant name => "Const variable '" ++ name ++ "' cannot be modified"
  | notExported module name => "Cannot refer to unexported name '" ++ module ++ "." ++ name ++ "'"
  | importFailed message => "Import error: " ++ message
  | scanType type => "scan type not supported: " ++ type
  | database message => "database error: " ++ message
  | xml message => "xml error: " ++ message
  | general message => message

/-- A failure at a place in the program. -/
structure Fault where
  cause : Cause
  span : Span
deriving DecidableEq, Repr, Inhabited

namespace Fault

/-- The cause's text and the line. -/
def message (f : Fault) : String := f.cause.message ++ " at line " ++ toString f.span.line

/-- Whether the fault is a thrown text that nothing caught. -/
def isThrow (f : Fault) : Bool :=
  match f.cause with
  | .thrown _ => true
  | _ => false

/-- The escape code that switches to a style, and back. -/
def styled (code text : String) : String := "\x1b[" ++ code ++ "m" ++ text ++ "\x1b[0m"

/-- One line for a fault that ended a program, with terminal colours if wanted. -/
def report (colour : Bool) (f : Fault) : String :=
  let tag := "[" ++ f.cause.code ++ "]"
  if colour then styled "1;31" "error" ++ " " ++ styled "2" tag ++ " " ++ f.message
  else "error " ++ tag ++ " " ++ f.message

end Fault

end ScriptEngine
