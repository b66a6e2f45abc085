import ScriptEngine.Calendar.Date

/-!
# Moments

A `Moment` is an instant seen at a fixed distance from universal time. The instant is a
count of seconds from 1970 and of nanoseconds within the second; the second before a leap
second may hold up to two thousand million of them. Comparison looks at the instant only.
-/

namespace ScriptEngine.Calendar

/-- An instant with the offset, in seconds to the east, of the clock that shows it. -/
structure Moment where
  seconds : Int
  nanos : Nat
  offset : Int
deriving DecidableEq, Repr, Inhabited

/-- Nanoseconds of a second. -/
def billion : Int := 1000000000

namespace Moment

/-- The order of two instants. -/
def cmp (a b : Moment) : Ordering :=
  if a.seconds < b.seconds then .lt
  else if b.seconds < a.seconds then .gt
  else compare a.nanos b.nanos

/-- Whether two moments are one instant. -/
def same (a b : Moment) : Bool := a.cmp b == .eq

/-- The seconds the clock shows, from midnight of day zero. -/
def shown (t : Moment) : Int := t.seconds + t.offset

/-- The day the clock shows. -/
def day (t : Moment) : Int := t.shown.fdiv 86400

/-- The second of the day the clock shows. -/
def secondOfDay (t : Moment) : Int := t.shown.fmod 86400

def year (t : Moment) : Int := yearOf t.day

def hour (t : Moment) : Nat := (t.secondOfDay / 3600).toNat

def minute (t : Moment) : Nat := (t.secondOfDay / 60 % 60).toNat

def second (t : Moment) : Nat := (t.secondOfDay % 60).toNat

/-- The same instant on another clock. -/
def withOffset (t : Moment) (offset : Int) : Moment := { t with offset }

/-- The moment at which a clock shows `second` seconds after midnight of day zero. -/
def ofLocal (second : Int) (nanos : Nat) (offset : Int) : Moment := ⟨second - offset, nanos, offset⟩

/-- Midnight on the first day of year one, in universal time. -/
def zero : Moment := ⟨dayOfYearStart 1 * 86400, 0, 0⟩

/-- Whether the day the instant falls on in universal time lies in the calendar. -/
def isValid (t : Moment) : Bool := inRange (t.seconds.fdiv 86400)

end Moment

end ScriptEngine.Calendar
