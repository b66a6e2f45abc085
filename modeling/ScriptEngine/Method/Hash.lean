import ScriptEngine.Method.Sequence

/-!
# Methods of hashes
-/

namespace ScriptEngine.Method

open Eval

def ofHash : MethodTable (Ref .hash) := [
  ("len", plain fun _ r => return countValue (← hashEntries r).size),
  ("keys", plain fun _ r => do newArrayOf ((← hashEntries r).keys.map Key.toValue)),
  ("values", plain fun _ r => do newArrayOf (← hashEntries r).values),
  ("get", fun _ site r args => do
    site.oneOf [1, 2] args
    let key ← site.keyArg (args.headD .nil)
    return ((← hashEntries r).get? key).getD (args.getD 1 .nil)),
  ("set", fun _ site r args => do
    site.exactly 2 args
    let key ← site.keyArg (args.headD .nil)
    modifyHash r (·.insert key (args.getD 1 .nil))
    return .hash r),
  ("has", fun _ site r args => do
    site.exactly 1 args
    let key ← site.keyArg (args.headD .nil)
    return .bool ((← hashEntries r).contains key)),
  ("delete", fun _ site r args => do
    site.exactly 1 args
    let key ← site.keyArg (args.headD .nil)
    let old := (← hashEntries r).get? key
    modifyHash r (·.erase key)
    return old.getD .nil),
  ("merge", fun _ site r args => do
    site.exactly 1 args
    match args.headD .nil with
    | .hash other => newHash ((← hashEntries r).merge (← hashEntries other))
    | v => site.wrongType 0 "*Hash" v),
  ("each", fun E site r args => do
    site.exactly 1 args
    let entries := (← hashEntries r).entries
    forList (fun (k, v) => do discard <| site.call E (args.headD .nil) [k.toValue, v]) entries
    return .hash r)]

end ScriptEngine.Method
