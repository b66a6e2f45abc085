import ScriptEngine.Builtin.Arguments

/-!
# Methods of functions and of faults
-/

namespace ScriptEngine.Method

open Eval

def ofCallable : MethodTable Value := [
  ("call", fun E site f args => site.call E f args),
  ("name", plain fun _ f => gets fun s => .text (s.callableName f))]

def ofFault : MethodTable Fault := [
  ("message", reading fun f => .text f.cause.message),
  ("kind", reading fun f => .text f.cause.code),
  ("line", reading fun f => .int (Int64.ofNat f.span.line))]

end ScriptEngine.Method
