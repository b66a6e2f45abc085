import ScriptEngine.Calendar.Fields

/-!
# Reading times

`Moment.parse? layout text` reads a text by the items of a layout, the inverse of formatting
with some tolerance: blanks may stand in front of numbers, names of months and weekdays are
read in any letter case and in either length, and an offset may have a colon or not.
-/

namespace ScriptEngine.Calendar.Scan

/-- The text without the blanks in front. -/
def skipBlanks (s : List Char) : List Char := s.dropWhile Text.isBlank

/-- The number that digits stand for. -/
def valueOf (digits : List Char) : Int :=
  (digits.foldl (fun n c => n * 10 + (c.toNat - 48)) 0 : Nat)

/-- A number of one to `width` digits that fits into 64 bits. -/
def number? (width : Option Nat) (s : List Char) : Option (Int × List Char) :=
  let run := s.takeWhile Char.isDigit
  let digits := match width with
    | some w => run.take w
    | none => run
  if digits.isEmpty then none
  else (within64 (valueOf digits)).map fun n => (n, s.drop digits.length)

/-- A number that may carry a sign, in which case it may have any length. -/
def signed? (width : Nat) (s : List Char) : Option (Int × List Char) :=
  match s with
  | '-' :: rest => (number? none rest).map fun (n, rest) => (-n, rest)
  | '+' :: rest => number? none rest
  | _ => number? (some width) s

/-- A fraction of a second: its first nine digits count. -/
def fraction? (s : List Char) : Option (Int × List Char) :=
  let run := s.takeWhile Char.isDigit
  let digits := run.take 9
  if digits.isEmpty then none
  else some (valueOf digits * (Nat.pow 10 (9 - digits.length) : Nat), s.drop run.length)

/-- A fraction of a second in a given number of digits. -/
def fixedFraction? (count : Nat) (s : List Char) : Option (Int × List Char) :=
  let digits := s.take count
  if digits.length = count && digits.all Char.isDigit then
    some (valueOf digits * (Nat.pow 10 (9 - count) : Nat), s.drop count)
  else none

/-- What follows a word at the start of a text, whatever the letter case. -/
def word? (word : String) (s : List Char) : Option (List Char) :=
  let w := word.toList.map Char.toLower
  if (s.take w.length).map Char.toLower = w then some (s.drop w.length) else none

/-- The place of the name whose first three letters the text starts with, and the rest. With
`long`, the remaining letters of the name are taken too if they are there. -/
def name? (long : Bool) (names : List String) (s : List Char) : Option (Nat × List Char) :=
  (names.zipIdx.findSome? fun (name, i) => (word? (String.ofList (name.toList.take 3)) s).map (i, ·)).map
    fun (i, rest) =>
      let remaining := String.ofList ((names.getD i "").toList.drop 3)
      if long then (i, (word? remaining rest).getD rest) else (i, rest)

/-- Two digits that stand for a number of at most `limit`. -/
def two? (limit : Int) (s : List Char) : Option (Int × List Char) :=
  match s with
  | a :: b :: rest =>
    if a.isDigit && b.isDigit then
      if valueOf [a, b] ≤ limit then some (valueOf [a, b], rest) else none
    else none
  | _ => none

/-- An offset from universal time: a sign, hours, colons or blanks, minutes. With `relaxed`,
the minutes may be missing at the end. -/
def offset? (zulu relaxed : Bool) (s : List Char) : Option (Int × List Char) := do
  let unsigned (s : List Char) : Option (Int × List Char) := do
    let (hours, rest) ← two? 99 s
    let rest := rest.dropWhile fun c => c == ':' || Text.isBlank c
    if relaxed && rest.isEmpty then some (hours * 3600, [])
    else
      let (minutes, rest) ← two? 59 rest
      some (hours * 3600 + minutes * 60, rest)
  match s with
  | '+' :: rest => unsigned rest
  | '-' :: rest => (unsigned rest).map fun (n, rest) => (-n, rest)
  | '−' :: rest => (unsigned rest).map fun (n, rest) => (-n, rest)
  | c :: rest => if zulu && (c == 'Z' || c == 'z') then some (0, rest) else none
  | [] => none

/-- Fields read so far, and the rest of the text. -/
abbrev Progress := Fields × List Char

/-- Stores a value that was read. -/
def store (fs : Fields) (f : Field) (r : Option (Int × List Char)) : Option Progress := do
  let (v, rest) ← r
  return (← fs.set? f v, rest)

/-- Reads a part that is a number. -/
def part? (fs : Fields) (part : NumberPart) (s : List Char) : Option Progress :=
  let s := skipBlanks s
  let plain (f : Field) (width : Nat) : Option Progress := store fs f (number? (some width) s)
  match part with
  | .year => store fs .year (signed? 4 s)
  | .century => plain .century 2
  | .yearOfCentury => plain .yearOfCentury 2
  | .isoYear => store fs .isoYear (signed? 4 s)
  | .isoYearOfCentury => plain .isoYearOfCentury 2
  | .quarter => plain .quarter 1
  | .month => plain .month 2
  | .day => plain .day 2
  | .weekFromSunday => plain .weekFromSunday 2
  | .weekFromMonday => plain .weekFromMonday 2
  | .isoWeek => plain .isoWeek 2
  | .daysFromSunday => do
    let (v, rest) ← number? (some 1) s
    if v ≤ 6 then return (← fs.set? .weekday ((v + 6) % 7), rest) else none
  | .weekdayFromMonday => do
    let (v, rest) ← number? (some 1) s
    return (← fs.set? .weekday (v - 1), rest)
  | .dayOfYear => plain .dayOfYear 3
  | .hour => do
    let (v, rest) ← number? (some 2) s
    return (← fs.setHour? v, rest)
  | .hour12 => do
    let (v, rest) ← number? (some 2) s
    return (← fs.setHour12? v, rest)
  | .minute => plain .minute 2
  | .second => plain .second 2
  | .nanosecond => plain .nanosecond 9
  | .timestamp => store fs .timestamp (number? none s)

/-- Reads the half of the day. -/
def half? (fs : Fields) (s : List Char) : Option Progress := do
  match word? "am" s, word? "pm" s with
  | some rest, _ => return (← fs.set? .half 0, rest)
  | _, some rest => return (← fs.set? .half 1, rest)
  | none, none => none

/-- Reads a fraction after a point, if there is a point. -/
def pointFraction? (fs : Fields) : List Char → Option Progress
  | '.' :: rest => store fs .nanosecond (fraction? rest)
  | s => some (fs, s)

/-- Reads a character that has to be there. -/
def char? (c : Char) : List Char → Option (List Char)
  | d :: rest => if c = d then some rest else none
  | [] => none

/-- Reads date and time as the internet standard writes them. -/
def standard? (fs : Fields) (s : List Char) : Option Progress := do
  let (fs, s) ← part? fs .year s
  let s ← char? '-' (skipBlanks s)
  let (fs, s) ← part? fs .month s
  let s ← char? '-' (skipBlanks s)
  let (fs, s) ← part? fs .day s
  let s ← char? 'T' s <|> char? 't' s <|> char? ' ' s
  let (fs, s) ← part? fs .hour s
  let s ← char? ':' (skipBlanks s)
  let (fs, s) ← part? fs .minute s
  let s ← char? ':' (skipBlanks s)
  let (fs, s) ← part? fs .second s
  let (fs, s) ← pointFraction? fs s
  let s := skipBlanks s
  match word? "utc" s with
  | some rest => return (← fs.set? .offset 0, rest)
  | none => store fs .offset (offset? true false s)

/-- Reads a part that is no plain number. -/
def named? (fs : Fields) (part : NamePart) (s : List Char) : Option Progress :=
  let storePlace (f : Field) (first : Int) (r : Option (Nat × List Char)) : Option Progress := do
    let (i, rest) ← r
    return (← fs.set? f (first + i), rest)
  match part with
  | .shortMonth => storePlace .month 1 (name? false monthNames s)
  | .longMonth => storePlace .month 1 (name? true monthNames s)
  | .shortWeekday => storePlace .weekday 0 (name? false weekdayNames s)
  | .longWeekday => storePlace .weekday 0 (name? true weekdayNames s)
  | .lowerHalf => half? fs s
  | .upperHalf => half? fs s
  | .fraction => pointFraction? fs s
  | .digits _ true => pointFraction? fs s
  | .digits count false => store fs .nanosecond (fixedFraction? count s)
  | .zoneName => some (fs, s.dropWhile fun c => !Text.isBlank c)
  | .zone _ => store fs .offset (offset? false false (skipBlanks s))
  | .anyZone => store fs .offset (offset? true true (skipBlanks s))
  | .standard => standard? fs s

/-- Reads a text by an item. -/
def item? (fs : Fields) (item : Item) (s : List Char) : Option Progress :=
  match item with
  | .literal l => if s.take l.length = l then some (fs, s.drop l.length) else none
  | .space _ => some (fs, skipBlanks s)
  | .number part _ => part? fs part s
  | .name part => named? fs part s
  | .mistake => none

/-- Reads a text by items; it has to end with them. -/
def items? : Fields → List Item → List Char → Option Fields
  | fs, [], s => if s.isEmpty then some fs else none
  | fs, item :: rest, s => do
    let (fs, s) ← item? fs item s
    items? fs rest s

end Scan

/-- The moment that a text stands for by a layout. -/
def Moment.parse? (layout text : String) : Option Moment :=
  (Scan.items? .empty (Layout.items layout.toList) text.toList).bind Fields.moment?

end ScriptEngine.Calendar
