import ScriptEngine.Calendar.Moment

/-!
# Durations between moments

Durations are whole nanoseconds. A moment within a leap second has a second thousand million
of them; adding a duration leaves the leap second, and enters an ordinary one, as soon as the
sum does not fit into it any more. Rounding goes by the time the clock shows.
-/

namespace ScriptEngine.Calendar

namespace Moment

/-- The moment with seconds and nanoseconds carried over. -/
def carry (seconds nanos offset : Int) : Moment :=
  ⟨seconds + nanos.fdiv billion, (nanos.fmod billion).toNat, offset⟩

/-- The moment `n` nanoseconds later. -/
def plus (t : Moment) (n : Int) : Moment :=
  let seconds := n.tdiv billion
  let nanos := n.tmod billion
  if t.nanos < billion then carry (t.seconds + seconds) (t.nanos + nanos) t.offset
  else if 0 < seconds ∨ (0 < nanos ∧ 2 * billion - nanos ≤ t.nanos) then
    carry (t.seconds + seconds) (t.nanos - billion + nanos) t.offset
  else if seconds < 0 then
    carry (t.seconds + 1 + seconds) (t.nanos - billion + nanos) t.offset
  else ⟨t.seconds, (t.nanos + nanos).toNat, t.offset⟩

/-- The moment `n` nanoseconds later, if it lies in the calendar. -/
def plus? (t : Moment) (n : Int) : Option Moment :=
  let later := t.plus n
  if later.isValid then some later else none

/-- The nanoseconds from `b` to `a`. A leap second between the two counts if one of them is
within it and the other one is later, or earlier, on the same clock. -/
def since (a b : Moment) : Int :=
  let second (t : Moment) : Int := t.seconds.fmod 86400
  let leap : Int :=
    if second b < second a ∧ billion ≤ b.nanos then 1
    else if second a < second b ∧ billion ≤ a.nanos then -1
    else 0
  (a.seconds - b.seconds + leap) * billion + (a.nanos - b.nanos)

/-- Nanoseconds from 1970, if they fit into 64 bits. -/
def nanoseconds? (t : Moment) : Option Int := within64 (t.seconds * billion + t.nanos)

/-- Milliseconds from 1970. -/
def milliseconds (t : Moment) : Int := t.seconds * 1000 + t.nanos / 1000000

/-- The moment at a number of milliseconds from 1970, in universal time. -/
def ofMilliseconds? (n : Int) : Option Moment :=
  let t : Moment := ⟨n.fdiv 1000, (n.fmod 1000).toNat * 1000000, 0⟩
  if t.isValid then some t else none

/-- The nanoseconds the clock shows beyond a multiple of `step`; none if the clock shows more
than 64 bits of nanoseconds. -/
def excess? (t : Moment) (step : Int) : Option Int :=
  (within64 (t.shown * billion + t.nanos)).map (·.fmod step)

/-- The last multiple of `step` on the clock. -/
def truncate? (t : Moment) (step : Int) : Option Moment :=
  (t.excess? step).map fun e => if e = 0 then t else t.plus (-e)

/-- The nearest multiple of `step` on the clock, the later one of two. -/
def round? (t : Moment) (step : Int) : Option Moment :=
  (t.excess? step).map fun e =>
    if e = 0 then t else if step - e ≤ e then t.plus (step - e) else t.plus (-e)

/-- The moment at which a clock at another offset shows the same time. -/
def reread (t : Moment) (offset : Int) : Moment := ofLocal t.shown t.nanos offset

/-- The moment at which the clock shows the same time of another date, with months and days
carried over. -/
def plusDate? (t : Moment) (years months days : Int) : Option Moment := do
  let (year, month, day) := civil t.day
  let y ← within64 (year + years)
  let m ← within64 (month + months)
  let d ← within64 (day + days)
  let date ← carriedDay y m d
  let moved := ofLocal (date * 86400 + t.secondOfDay) t.nanos t.offset
  if moved.isValid then some moved else none

/-- The sum of seconds from 1970, if it lies in the calendar. -/
def carrySeconds? (seconds more : Int) : Option Int :=
  if inRange ((seconds + more).fdiv 86400) then some (seconds + more) else none

/-- The seconds and nanoseconds from 1970 that a clock shows at a date and time of day, each
part of which may be out of its range. -/
def carriedClock? (year month day hour minute second nanos : Int) : Option (Int × Nat) := do
  let date ← carriedDay year month day
  let s ← carrySeconds? (date * 86400) (hour * 3600)
  let s ← carrySeconds? s (minute * 60)
  let s ← carrySeconds? s second
  let s ← carrySeconds? s (nanos.fdiv billion)
  return (s, (nanos.fmod billion).toNat)

/-- The moment at seconds and nanoseconds from 1970, if it lies in the calendar. -/
def ofSeconds? (seconds : Int) (nanos : Nat) (offset : Int) : Option Moment :=
  let t : Moment := ⟨seconds, nanos, offset⟩
  if t.isValid then some t else none

end Moment

end ScriptEngine.Calendar
