import ScriptEngine.Builtin.Arguments

/-!
# Methods of arrays, tuples and lists

Arrays and lists change in place; callbacks see the items as they were when the method was
called. Tuples do not change.
-/

namespace ScriptEngine.Method

open Eval

/-- A count as a value. -/
def countValue (n : Nat) : Value := .int (Int64.ofNat n)

/-- The place of the first item equal to a value. -/
def placeOf? (s : State) (items : Array Value) (v : Value) : Option Nat :=
  items.toList.findIdx? fun item => s.equal item v

/-- Calls a callback with every item and goes on with what `keep` makes of the item and the
answer. -/
def collect (E : Engine) (site : CallSite) (callback : Value)
    (keep : Value → Value → Eval (List Value)) : List Value → Eval (List Value)
  | [] => return []
  | item :: rest => do
    let answer ← site.call E callback [item]
    let kept ← keep item answer
    return kept ++ (← collect E site callback keep rest)

/-- Folds items into a value by a callback. -/
def fold (E : Engine) (site : CallSite) (callback : Value) : Value → List Value → Eval Value
  | acc, [] => return acc
  | acc, item :: rest => do
    let acc ← site.call E callback [acc, item]
    fold E site callback acc rest

/-- The array method that calls a callback with every item and makes an array of what is
kept. -/
def collecting (keep : Value → Value → Eval (List Value)) : Method (Ref .array) :=
  fun E site r args => do
    site.exactly 1 args
    let items ← arrayItems r
    let kept ← collect E site (args.headD .nil) keep items.toList
    newArrayOf kept

def ofArray : MethodTable (Ref .array) := [
  ("len", plain fun _ r => return countValue (← arrayItems r).size),
  ("push", fun _ site r args => do
    site.atLeast 1 args
    modifyArray r (· ++ args.toArray)
    return .array r),
  ("pop", plain fun _ r => do
    let items ← arrayItems r
    modifyArray r (·.pop)
    return items.back?.getD .nil),
  ("shift", plain fun _ r => do
    let items ← arrayItems r
    modifyArray r fun items => items.extract 1 items.size
    return items[0]?.getD .nil),
  ("first", plain fun _ r => return (← arrayItems r)[0]?.getD .nil),
  ("last", plain fun _ r => return (← arrayItems r).back?.getD .nil),
  ("join", fun _ site r args => do
    site.oneOf [0, 1] args
    let sep ← if args.isEmpty then pure "" else site.textArg args 0
    let items ← arrayItems r
    gets fun s => .text (String.intercalate sep (items.toList.map s.inspect))),
  ("contains", fun _ site r args => do
    site.exactly 1 args
    let items ← arrayItems r
    gets fun s => .bool (placeOf? s items (args.headD .nil)).isSome),
  ("indexOf", fun _ site r args => do
    site.exactly 1 args
    let items ← arrayItems r
    gets fun s =>
      match placeOf? s items (args.headD .nil) with
      | some i => countValue i
      | none => .int (-1)),
  ("reverse", plain fun _ r => do newArray (← arrayItems r).reverse),
  ("slice", fun _ site r args => do
    site.oneOf [1, 2] args
    let items ← arrayItems r
    let start ← site.intArg args 0
    let stop ← if args.length = 2 then site.intArg args 1 else pure (Int64.ofNat items.size)
    if start < 0 ∨ (items.size : Int) < stop.toInt ∨ stop < start then
      site.fail (.sliceRange start.toInt stop.toInt)
    else newArray (items.extract start.toInt.toNat stop.toInt.toNat)),
  ("map", collecting fun _ answer => return [answer]),
  ("filter", collecting fun item answer => do
    if ← CallSite.isTrue answer then return [item] else return []),
  ("each", fun E site r args => do
    site.exactly 1 args
    let items ← arrayItems r
    forList (fun item => do discard <| site.call E (args.headD .nil) [item]) items.toList
    return .array r),
  ("reduce", fun E site r args => do
    site.oneOf [1, 2] args
    let items ← arrayItems r
    match args, items.toList with
    | [callback, first], all => fold E site callback first all
    | [callback], first :: rest => fold E site callback first rest
    | _, _ => return .nil)]

def ofTuple : MethodTable (Ref .tuple) := [
  ("len", plain fun _ r => return countValue (← tupleItems r).size),
  ("get", fun _ site r args => do
    site.exactly 1 args
    let index ← site.intArg args 0
    let items ← tupleItems r
    if index < 0 then site.fail (.indexRange index.toInt)
    else
      match items[index.toInt.toNat]? with
      | some v => return v
      | none => site.fail (.indexRange index.toInt)),
  ("contains", fun _ site r args => do
    site.exactly 1 args
    let items ← tupleItems r
    gets fun s => .bool (placeOf? s items (args.headD .nil)).isSome),
  ("toArray", plain fun _ r => do newArray (← tupleItems r))]

/-! ### Lists -/

/-- The place an index means among `size` items; negative ones count from the back. -/
def listPlace? (index : Int64) (size : Nat) : Option Nat :=
  let place := if index < 0 then index.toInt + size else index.toInt
  if place < 0 then none else some place.toNat

def ofList : MethodTable (Ref .list) := [
  ("pushBack", fun _ site r args => do
    site.atLeast 1 args
    modifyList r (· ++ args.toArray)
    return .list r),
  ("pushFront", fun _ site r args => do
    site.atLeast 1 args
    modifyList r (args.reverse.toArray ++ ·)
    return .list r),
  ("popBack", plain fun _ r => do
    let items ← listItems r
    modifyList r (·.pop)
    return items.back?.getD .nil),
  ("popFront", plain fun _ r => do
    let items ← listItems r
    modifyList r fun items => items.extract 1 items.size
    return items[0]?.getD .nil),
  ("front", plain fun _ r => return (← listItems r)[0]?.getD .nil),
  ("back", plain fun _ r => return (← listItems r).back?.getD .nil),
  ("len", plain fun _ r => return countValue (← listItems r).size),
  ("isEmpty", plain fun _ r => return .bool (← listItems r).isEmpty),
  ("clear", plain fun _ r => do
    modifyList r fun _ => #[]
    return .list r),
  ("toArray", plain fun _ r => do newArray (← listItems r)),
  ("get", fun _ site r args => do
    site.exactly 1 args
    let index ← site.intArg args 0
    let items ← listItems r
    match (listPlace? index items.size).bind (items[·]?) with
    | some v => return v
    | none => site.fail (.indexRange index.toInt)),
  ("insert", fun _ site r args => do
    site.exactly 2 args
    let index ← site.intArg args 0
    let items ← listItems r
    match listPlace? index items.size with
    | some i =>
      if i ≤ items.size then
        modifyList r fun items =>
          items.extract 0 i ++ #[args.getD 1 .nil] ++ items.extract i items.size
        return .list r
      else site.fail (.indexRange index.toInt)
    | none => site.fail (.indexRange index.toInt)),
  ("remove", fun _ site r args => do
    site.exactly 1 args
    let index ← site.intArg args 0
    let items ← listItems r
    match (listPlace? index items.size).bind fun i => (items[i]?).map fun v => (i, v) with
    | some (i, v) =>
      modifyList r fun items => items.extract 0 i ++ items.extract (i + 1) items.size
      return v
    | none => site.fail (.indexRange index.toInt))]

end ScriptEngine.Method
