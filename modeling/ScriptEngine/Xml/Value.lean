import ScriptEngine.Machine.Alloc
import ScriptEngine.Xml.Read

/-!
# Values as XML

Which element a value is written as, and which value the contents of an element read as. A
hash has one element per entry, named by the key; a sequence under a key becomes several
elements of that name. A container that contains itself has no document: the host would write
it for ever, and never come to the failure that is answered here once `fuel` is used up.
-/

namespace ScriptEngine.Xml

/-- The text of a value that is written as text. -/
def scalar? (s : State) (v : Value) : Option String :=
  match v with
  | .bool _ => some (s.inspect v)
  | .int _ => some (s.inspect v)
  | .uint _ => some (s.inspect v)
  | .float _ => some (s.inspect v)
  | .decimal _ => some (s.inspect v)
  | .text t => some t
  | .time t => some t.standard
  | _ => none

/-- The items of a value that is written as several elements. -/
def sequence? (s : State) (v : Value) : Option (List Value) :=
  match v with
  | .array _ => s.items? v
  | .tuple _ => s.items? v
  | .list _ => s.items? v
  | _ => none

/-- Writes several elements one after another. -/
def concat {α : Type} (f : α → Except String (List Char)) : List α → Except String (List Char)
  | [] => .ok []
  | a :: rest =>
    match f a with
    | .error e => .error e
    | .ok front => (concat f rest).map (front ++ ·)

/-- The element of a value, at most `fuel` containers deep. Whatever is deeper than the
containers there are contains itself. -/
def writeWithin (s : State) : Nat → String → Value → Except String (List Char)
  | fuel, name, v =>
    if !isName name.toList then .error ("invalid element name '" ++ name ++ "'")
    else if v.isNil then .ok (emptyElement name.toList)
    else
      match scalar? s v with
      | some text => .ok (element name.toList (escape text.toList))
      | none =>
        match fuel, v with
        | fuel + 1, .hash r =>
          (concat (fun (e : Key × Value) =>
              match sequence? s e.2 with
              | some items => concat (writeWithin s fuel e.1.toText) items
              | none => writeWithin s fuel e.1.toText e.2)
            ((s.heap.hashes.get? r).getD .empty).entries).map (element name.toList)
        | fuel + 1, v =>
          match sequence? s v with
          | some items => (concat (writeWithin s fuel itemName) items).map (element name.toList)
          | none => .error ("cannot convert " ++ s.typeName v ++ " to XML")
        | 0, v => .error ("cannot convert " ++ s.typeName v ++ " to XML")
termination_by fuel => fuel

/-- The document of a value under a root name. -/
def ofValue (s : State) (root : String) (v : Value) : Except String String :=
  (writeWithin s (2 * s.heap.depth + 1) root v).map String.ofList

mutual

/-- The value of an element's contents. -/
def toValue : Content → Eval Value
  | .nothing => return .nil
  | .text t => return .text t
  | .parts members => do Eval.newHash (.ofList (← memberValues members))
  | .several items => do Eval.newArrayOf (← itemValues items)

/-- The values of items. -/
def itemValues : List Content → Eval (List Value)
  | [] => return []
  | c :: rest => do
    let v ← toValue c
    return v :: (← itemValues rest)

/-- The entries of members. -/
def memberValues : List (String × Content) → Eval (List (Key × Value))
  | [] => return []
  | (k, c) :: rest => do
    let v ← toValue c
    return (.text k, v) :: (← memberValues rest)

end

/-- The hash of a document: its contents under the name of its element. -/
def documentValue (name : List Char) (c : Content) : Eval Value := do
  let v ← toValue c
  Eval.newHash (.ofList [(.text (String.ofList name), v)])

end ScriptEngine.Xml
