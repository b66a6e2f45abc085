import ScriptEngine.Text.Blank

/-!
# Layouts of times

A layout is a text with conversions such as `%Y` or `%-d`; `Layout.items` splits it into
items. A conversion that is not known, or a padding flag on something that is no number,
becomes an item that stands for the mistake.
-/

namespace ScriptEngine.Calendar

/-- Parts of a time that are numbers. -/
inductive NumberPart where
  | year
  | century
  | yearOfCentury
  | isoYear
  | isoYearOfCentury
  | quarter
  | month
  | day
  | weekFromSunday
  | weekFromMonday
  | isoWeek
  | daysFromSunday
  | weekdayFromMonday
  | dayOfYear
  | hour
  | hour12
  | minute
  | second
  | nanosecond
  | timestamp
deriving DecidableEq, Repr

/-- Parts of a time that are not plain numbers. -/
inductive NamePart where
  | shortMonth
  | longMonth
  | shortWeekday
  | longWeekday
  | lowerHalf
  | upperHalf
  /-- A point and as many digits as the fraction needs, in threes. -/
  | fraction
  /-- A given number of digits of the fraction, with a point in front if wanted. -/
  | digits (count : Nat) (point : Bool)
  | zoneName
  /-- The offset: with colons between how many of its parts. -/
  | zone (colons : Nat)
  /-- An offset in any of its forms. -/
  | anyZone
  | standard
deriving DecidableEq, Repr

/-- How a number is brought to its width. -/
inductive Padding where
  | none
  | zero
  | blank
deriving DecidableEq, Repr

/-- An item of a layout. -/
inductive Item where
  | literal (s : List Char)
  | space (s : List Char)
  | number (part : NumberPart) (padding : Padding)
  | name (part : NamePart)
  | mistake
deriving DecidableEq, Repr

namespace Layout

open NumberPart NamePart

def zeroed (p : NumberPart) : Item := .number p .zero

def blanked (p : NumberPart) : Item := .number p .blank

def plain (p : NumberPart) : Item := .number p .none

def lit (c : Char) : Item := .literal [c]

def clock : List Item := [zeroed hour, lit ':', zeroed minute, lit ':', zeroed second]

def shortDate : List Item := [zeroed month, lit '/', zeroed day, lit '/', zeroed yearOfCentury]

/-- The items a conversion letter stands for. -/
def conversion : Char → List Item
  | 'A' => [.name longWeekday]
  | 'B' => [.name longMonth]
  | 'C' => [zeroed century]
  | 'D' => shortDate
  | 'F' => [zeroed year, lit '-', zeroed month, lit '-', zeroed day]
  | 'G' => [zeroed isoYear]
  | 'H' => [zeroed hour]
  | 'I' => [zeroed hour12]
  | 'M' => [zeroed minute]
  | 'P' => [.name lowerHalf]
  | 'R' => [zeroed hour, lit ':', zeroed minute]
  | 'S' => [zeroed second]
  | 'T' => clock
  | 'U' => [zeroed weekFromSunday]
  | 'V' => [zeroed NumberPart.isoWeek]
  | 'W' => [zeroed weekFromMonday]
  | 'X' => clock
  | 'Y' => [zeroed year]
  | 'Z' => [.name zoneName]
  | 'a' => [.name shortWeekday]
  | 'b' => [.name shortMonth]
  | 'c' => [.name shortWeekday, .space [' '], .name shortMonth, .space [' '], blanked day,
      .space [' ']] ++ clock ++ [.space [' '], zeroed year]
  | 'd' => [zeroed day]
  | 'e' => [blanked day]
  | 'f' => [zeroed nanosecond]
  | 'g' => [zeroed isoYearOfCentury]
  | 'h' => [.name shortMonth]
  | 'j' => [zeroed dayOfYear]
  | 'k' => [blanked hour]
  | 'l' => [blanked hour12]
  | 'm' => [zeroed month]
  | 'n' => [.space ['\n']]
  | 'p' => [.name upperHalf]
  | 'q' => [plain quarter]
  | 'r' => [zeroed hour12, lit ':', zeroed minute, lit ':', zeroed second, .space [' '],
      .name upperHalf]
  | 's' => [plain timestamp]
  | 't' => [.space ['\t']]
  | 'u' => [plain weekdayFromMonday]
  | 'v' => [blanked day, lit '-', .name shortMonth, lit '-', zeroed year]
  | 'w' => [plain daysFromSunday]
  | 'x' => shortDate
  | 'y' => [zeroed yearOfCentury]
  | 'z' => [.name (zone 0)]
  | '+' => [.name standard]
  | '%' => [lit '%']
  | _ => [.mistake]

/-- A conversion with what follows it: the letter after an optional point, digit or run of
colons. -/
def specifier (c : Char) (rest : List Char) : List Item × List Char :=
  let digitCount? : Char → Option Nat
    | '3' => some 3
    | '6' => some 6
    | '9' => some 9
    | _ => none
  match c, rest with
  | ':', ':' :: ':' :: 'z' :: after => ([.name (zone 3)], after)
  | ':', ':' :: 'z' :: after => ([.name (zone 2)], after)
  | ':', 'z' :: after => ([.name (zone 1)], after)
  | ':', _ => ([.mistake], rest)
  | '.', 'f' :: after => ([.name fraction], after)
  | '.', d :: 'f' :: after =>
    match digitCount? d with
    | some n => ([.name (digits n true)], after)
    | none => ([.mistake], 'f' :: after)
  | '.', d :: after => ([.mistake], if (digitCount? d).isSome then after.drop 1 else after)
  | '.', [] => ([.mistake], [])
  | d, 'f' :: after =>
    match digitCount? d with
    | some n => ([.name (digits n false)], after)
    | none => (conversion d, rest)
  | d, _ =>
    if (digitCount? d).isSome then ([.mistake], rest.drop 1) else (conversion d, rest)

/-- A single number with another padding; anything else takes none. -/
def padded (padding : Padding) : List Item → List Item
  | [.number part _] => [.number part padding]
  | _ => [.mistake]

/-- The first items of a layout, and the rest of it. -/
def step (c : Char) (rest : List Char) : List Item × List Char :=
  if c = '%' then
    match rest with
    | [] => ([.mistake], [])
    | '-' :: d :: after => let (items, tail) := specifier d after; (padded .none items, tail)
    | '0' :: d :: after => let (items, tail) := specifier d after; (padded .zero items, tail)
    | '_' :: d :: after => let (items, tail) := specifier d after; (padded .blank items, tail)
    | '#' :: 'z' :: after => ([.name anyZone], after)
    | '#' :: _ :: after => ([.mistake], after)
    | ['-'] => ([.mistake], [])
    | ['0'] => ([.mistake], [])
    | ['_'] => ([.mistake], [])
    | ['#'] => ([.mistake], [])
    | d :: after => specifier d after
  else if Text.isBlank c then
    ([.space (c :: rest.takeWhile Text.isBlank)], rest.dropWhile Text.isBlank)
  else
    let ordinary (d : Char) : Bool := !Text.isBlank d && d != '%'
    ([.literal (c :: rest.takeWhile ordinary)], rest.dropWhile ordinary)

/-- The items of a layout; the first argument bounds their number. -/
def itemsWithin : Nat → List Char → List Item
  | 0, _ => []
  | _, [] => []
  | fuel + 1, c :: rest => let (items, tail) := step c rest; items ++ itemsWithin fuel tail

/-- The items of a layout. -/
def items (layout : List Char) : List Item := itemsWithin layout.length layout

end Layout

end ScriptEngine.Calendar
