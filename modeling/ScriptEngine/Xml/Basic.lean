import ScriptEngine.Assoc
import ScriptEngine.Text.Blank
import ScriptEngine.Text.CharClass

/-!
# XML documents

The contents of an element: nothing, a text, or named parts. Attributes are parts whose names
start with `@`; text between child elements is the part `_text`; the children of one name are
one part.
-/

namespace ScriptEngine.Xml

/-- The contents of an element. -/
inductive Content where
  | nothing
  | text (s : String)
  | parts (members : List (String × Content))
  /-- Several elements of one name. -/
  | several (items : List Content)
deriving Inhabited

/-- The name of the part that holds text between child elements. -/
def textPart : String := "_text"

/-- The element name of an item without a name of its own. -/
def itemName : String := "item"

/-! ### Writing -/

/-- Whether an element can be written under a name. -/
def isName (name : List Char) : Bool :=
  match name with
  | [] => false
  | c :: rest =>
    (Text.isLetter c || c == '_') &&
      rest.all fun c => Text.isLetter c || Text.isNumeral c || c == '_' || c == '-' || c == '.'

/-- A character as it stands in text. -/
def escapeChar (c : Char) : List Char :=
  match c with
  | '<' => ['&', 'l', 't', ';']
  | '>' => ['&', 'g', 't', ';']
  | '\'' => ['&', 'a', 'p', 'o', 's', ';']
  | '&' => ['&', 'a', 'm', 'p', ';']
  | '"' => ['&', 'q', 'u', 'o', 't', ';']
  | c => [c]

/-- A text with its special characters as references. -/
def escape (s : List Char) : List Char := s.flatMap escapeChar

/-- An element without contents. -/
def emptyElement (name : List Char) : List Char := '<' :: (name ++ ['/', '>'])

/-- An element around its contents. -/
def element (name body : List Char) : List Char :=
  '<' :: (name ++ '>' :: (body ++ '<' :: '/' :: (name ++ ['>'])))

end ScriptEngine.Xml
