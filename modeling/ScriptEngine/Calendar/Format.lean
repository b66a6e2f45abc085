import ScriptEngine.Calendar.Layout
import ScriptEngine.Calendar.Moment

/-!
# Writing times

A moment written after a layout. Years outside of four digits carry a sign; the fraction of
a second is written in groups of three digits.
-/

namespace ScriptEngine.Calendar

def monthNames : List String :=
  ["January", "February", "March", "April", "May", "June", "July", "August", "September",
    "October", "November", "December"]

def weekdayNames : List String :=
  ["Monday", "Tuesday", "Wednesday", "Thursday", "Friday", "Saturday", "Sunday"]

namespace Format

/-- The digits of a number, filled up in front to a width. -/
def fill (width : Nat) (c : Char) (s : List Char) : List Char :=
  List.replicate (width - s.length) c ++ s

def natChars (n : Nat) : List Char := n.repr.toList

/-- An integer with at least `width` digits, the sign counting as one of them; with
`signed`, a plus is written too and the width is one more. -/
def integer (width : Nat) (padding : Padding) (signed : Bool) (n : Int) : List Char :=
  let sign := if n < 0 then ['-'] else if signed then ['+'] else []
  let digits := natChars n.natAbs
  let width := if signed then width + 1 else width
  match padding with
  | .none => sign ++ digits
  | .zero => sign ++ fill (width - sign.length) '0' digits
  | .blank => fill width ' ' (sign ++ digits)

/-- A number below one hundred in two places. The tens may exceed nine. -/
def two (padding : Padding) (n : Nat) : List Char :=
  let ones := Char.ofNat (48 + n % 10)
  match n / 10, padding with
  | 0, .none => [ones]
  | 0, .blank => [' ', ones]
  | tens, _ => [Char.ofNat (48 + tens), ones]

/-- A year: four digits, or a sign and more. -/
def yearText (padding : Padding) (y : Int) : List Char :=
  integer 4 padding (!(decide (0 ≤ y ∧ y ≤ 9999))) y

/-- The number of weeks begun in a year when weeks start `shift` days after Monday. -/
def weeksFrom (day : Int) (shift : Nat) : Nat :=
  (((dayInYear day + 1) - (((weekday day + 7 - shift) % 7 : Nat) : Int) + 6) / 7).toNat

/-- The quarter of the year. -/
def quarterOf (day : Int) : Nat := ((civil day).2.1 + 2) / 3

def hour12 (h : Nat) : Nat := if h % 12 = 0 then 12 else h % 12

/-- A part that is a number. -/
def number (t : Moment) (padding : Padding) : NumberPart → List Char
  | .year => yearText padding t.year
  | .century => two padding ((t.year.fdiv 100) % 256).toNat
  | .yearOfCentury => two padding (t.year.fmod 100).toNat
  | .isoYear => yearText padding (isoWeek t.day).1
  | .isoYearOfCentury => two padding ((isoWeek t.day).1.fmod 100).toNat
  | .quarter => natChars (quarterOf t.day)
  | .month => two padding (civil t.day).2.1
  | .day => two padding (civil t.day).2.2
  | .weekFromSunday => two padding (weeksFrom t.day 6)
  | .weekFromMonday => two padding (weeksFrom t.day 0)
  | .isoWeek => two padding (isoWeek t.day).2
  | .daysFromSunday => natChars ((weekday t.day + 1) % 7)
  | .weekdayFromMonday => natChars (weekday t.day + 1)
  | .dayOfYear => integer 3 padding false (dayInYear t.day + 1)
  | .hour => two padding t.hour
  | .hour12 => two padding (hour12 t.hour)
  | .minute => two padding t.minute
  | .second => two padding (t.second + t.nanos / 1000000000)
  | .nanosecond => integer 9 padding false (t.nanos % 1000000000 : Nat)
  | .timestamp => integer 9 padding false t.seconds

/-- The fraction of the second in as few groups of three digits as hold it. -/
def fractionText (nanos : Nat) : List Char :=
  if nanos = 0 then []
  else if nanos % 1000000 = 0 then '.' :: fill 3 '0' (natChars (nanos / 1000000))
  else if nanos % 1000 = 0 then '.' :: fill 6 '0' (natChars (nanos / 1000))
  else '.' :: fill 9 '0' (natChars nanos)

/-- The offset from universal time, with a colon after the hours or not. -/
def zoneText (colons : Nat) (offset : Int) : List Char :=
  let sign := if offset < 0 then '-' else '+'
  let n := offset.natAbs
  let part (k : Nat) : List Char := fill 2 '0' (natChars k)
  match colons with
  | 0 => sign :: (part (n / 3600) ++ part (n / 60 % 60))
  | 1 => sign :: (part (n / 3600) ++ ':' :: part (n / 60 % 60))
  | 2 => sign :: (part (n / 3600) ++ ':' :: (part (n / 60 % 60) ++ ':' :: part (n % 60)))
  | _ => sign :: part (n / 3600)

/-- The offset as the name of a zone. -/
def zoneNameText (offset : Int) : List Char := zoneText (if offset % 60 = 0 then 1 else 2) offset

/-- Date and time as the internet standard writes them. -/
def standardText (t : Moment) : List Char :=
  let (y, m, d) := civil t.day
  yearText .zero y ++ '-' :: (two .zero m ++ '-' :: (two .zero d ++ 'T' :: (two .zero t.hour ++
    ':' :: (two .zero t.minute ++ ':' :: (two .zero (t.second + t.nanos / 1000000000) ++
      fractionText (t.nanos % 1000000000) ++ zoneText 1 t.offset)))))

/-- A part that is not a plain number. -/
def name (t : Moment) : NamePart → List Char
  | .shortMonth => ((monthNames.getD ((civil t.day).2.1 - 1) "").toList).take 3
  | .longMonth => (monthNames.getD ((civil t.day).2.1 - 1) "").toList
  | .shortWeekday => ((weekdayNames.getD (weekday t.day) "").toList).take 3
  | .longWeekday => (weekdayNames.getD (weekday t.day) "").toList
  | .lowerHalf => if t.hour < 12 then ['a', 'm'] else ['p', 'm']
  | .upperHalf => if t.hour < 12 then ['A', 'M'] else ['P', 'M']
  | .fraction => fractionText (t.nanos % 1000000000)
  | .digits count point =>
    let digits := fill count '0' (natChars (t.nanos % 1000000000 / Nat.pow 10 (9 - count)))
    if point then '.' :: digits else digits
  | .zoneName => zoneNameText t.offset
  | .zone colons => zoneText colons t.offset
  | .anyZone => zoneText 0 t.offset
  | .standard => standardText t

def item (t : Moment) : Item → List Char
  | .literal s => s
  | .space s => s
  | .number part padding => number t padding part
  | .name part => name t part
  | .mistake => []

end Format

/-- The text of a moment after a layout; `none` if the layout has a mistake. -/
def Moment.format? (t : Moment) (layout : String) : Option String :=
  let items := Layout.items layout.toList
  if items.any (· == .mistake) then none
  else some (String.ofList (items.flatMap (Format.item t)))

/-- The text of a moment after a layout without mistakes. -/
def Moment.format (t : Moment) (layout : String) : String := (t.format? layout).getD ""

/-- The text of a moment in the internet standard's form. -/
def Moment.standard (t : Moment) : String := String.ofList (Format.standardText t)

/-- The text of a moment as a value. -/
def Moment.text (t : Moment) : String := t.format "%Y-%m-%d %H:%M:%S%.f %z"

/-- The conversions of the classic set. -/
def classicConversions : List Char := "aAbCdDeFHIMmnpPrRStTYzZ%".toList

/-- Whether a layout has conversions of the classic set only. -/
def isClassic : List Char → Bool
  | [] => true
  | '%' :: c :: rest => classicConversions.contains c && isClassic rest
  | ['%'] => false
  | _ :: rest => isClassic rest

end ScriptEngine.Calendar
