import ScriptEngine.Json.Read
import ScriptEngine.Machine.Alloc

/-!
# Values as JSON

Which document a value is written as, and which value a document reads as. Hash keys become
member names by their texts; objects are written with their fields in the order of the
names. Values with an identity of their own, such as functions or files, have no document.
Neither has a container that contains itself: the host would write it for ever, and never come
to the failure that is answered here once `fuel` is used up.
-/

namespace ScriptEngine.Json

/-- Applies a function to every item, up to the first failure. -/
def eachOf {α β : Type} (f : α → Except String β) : List α → Except String (List β)
  | [] => .ok []
  | a :: rest =>
    match f a with
    | .error e => .error e
    | .ok b => (eachOf f rest).map (b :: ·)

/-- The entries in the order of their names. -/
def sortedByName (entries : List (String × Value)) : List (String × Value) :=
  entries.mergeSort fun a b => !decide (b.1 < a.1)

/-- The document of a value, at most `fuel` containers deep. Whatever is deeper than the
containers there are contains itself. -/
def ofValueWithin (s : State) : Nat → Value → Except String Json
  | _, .nil => .ok .null
  | _, .bool b => .ok (.bool b)
  | _, .int n => .ok (.int n.toInt)
  | _, .uint n => .ok (.int n.toNat)
  | _, .float x =>
    if x.isFinite then .ok (.real x)
    else .error ("cannot convert float " ++ Binary64.display x ++ " to JSON")
  | _, .decimal d => ofText (d.jsonText s.settings.bareDecimals)
  | _, .text t => .ok (.text t)
  | 0, v => .error ("cannot convert " ++ s.typeName v ++ " to JSON")
  | fuel + 1, .array r =>
    (eachOf (ofValueWithin s fuel) ((s.heap.arrays.get? r).getD #[]).toList).map .array
  | fuel + 1, .tuple r =>
    (eachOf (ofValueWithin s fuel) ((s.heap.tuples.get? r).getD #[]).toList).map .array
  | fuel + 1, .hash r =>
    (eachOf (fun (e : Key × Value) => (ofValueWithin s fuel e.2).map fun j => (e.1.toText, j))
      ((s.heap.hashes.get? r).getD .empty).entries).map fun ms => .object (Assoc.ofList ms).entries
  | fuel + 1, .object r =>
    (eachOf (fun (e : String × Value) => (ofValueWithin s fuel e.2).map fun j => (e.1, j))
      (sortedByName (((s.heap.objects.get? r).map (·.fields.entries)).getD []))).map .object
  | _, v => .error ("cannot convert " ++ s.typeName v ++ " to JSON")

/-- The document of a value. -/
def ofValue (s : State) (v : Value) : Except String Json := ofValueWithin s s.heap.depth v

/-- The integer as a value: signed if it fits. -/
def intValue (n : Int) : Value :=
  if n < 9223372036854775808 then .int (Int64.ofInt n) else .uint (UInt64.ofNat n.toNat)

mutual

/-- The value of a document. -/
def toValue : Json → Eval Value
  | .null => return .nil
  | .bool b => return .bool b
  | .int n => return intValue n
  | .real x => return .float x
  | .text s => return .text s
  | .array items => do Eval.newArrayOf (← itemValues items)
  | .object members => do Eval.newHash (.ofList (← memberValues members))

/-- The values of items. -/
def itemValues : List Json → Eval (List Value)
  | [] => return []
  | j :: rest => do
    let v ← toValue j
    return v :: (← itemValues rest)

/-- The entries of members. -/
def memberValues : List (String × Json) → Eval (List (Key × Value))
  | [] => return []
  | (k, j) :: rest => do
    let v ← toValue j
    return (.text k, v) :: (← memberValues rest)

end

end ScriptEngine.Json
