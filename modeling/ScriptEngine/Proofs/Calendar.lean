import Mathlib.Tactic.IntervalCases
import ScriptEngine.Proofs.Run.Answers

/-!
# Carrying months and days

The day numbers of the calendar count its days: every day has one date, which can be read off its number
(`civil_spec`, `civil_dayOf`), and the dates of consecutive days follow each other (`Follows`).

A month out of its range belongs to another year (`carriedYear`) and is one of twelve there
(`carriedMonth`). There is a carried day just if no intermediate result overflows (`Fits`) and it lies in
the calendar (`carriedDay_eq_some_iff`), so carrying is lawful (`carry_lawful`): twelve months are a
year, and days are counted. Adding to the date of a time carries its date and keeps the rest
(`Moment.plusDate?_eq_some_iff`).
-/

namespace ScriptEngine.Calendar

/-! ### Years -/

/-- The first day of a year, with the divisions that the decision procedures know. -/
theorem yearStart_eq (y : ℤ) :
    dayOfYearStart y = 365 * (y - 1) + (y - 1) / 4 - (y - 1) / 100 + (y - 1) / 400 - 719162 := by
  unfold dayOfYearStart
  simp only [Int.fdiv_eq_ediv_of_nonneg _ (by decide : (0 : ℤ) ≤ 4),
    Int.fdiv_eq_ediv_of_nonneg _ (by decide : (0 : ℤ) ≤ 100),
    Int.fdiv_eq_ediv_of_nonneg _ (by decide : (0 : ℤ) ≤ 400)]

/-- Every fourth year is a leap year, but of those that end a century only every fourth one. -/
theorem isLeap_iff (y : ℤ) : isLeap y = true ↔ y % 4 = 0 ∧ (y % 100 ≠ 0 ∨ y % 400 = 0) := by
  simp [isLeap]

/-- The number of days of a year. -/
def yearLength (y : ℤ) : ℕ := if isLeap y then 366 else 365

/-- A year begins where the one before has ended. -/
theorem yearStart_add_one (y : ℤ) : dayOfYearStart (y + 1) = dayOfYearStart y + yearLength y := by
  rw [yearStart_eq, yearStart_eq, yearLength]
  by_cases h : isLeap y = true
  · have hy := (isLeap_iff y).mp h
    rw [if_pos h]
    omega
  · have hy := mt (isLeap_iff y).mpr h
    rw [if_neg h]
    omega

/-- Years begin in their order. -/
theorem yearStart_mono {y z : ℤ} (h : y ≤ z) : dayOfYearStart y ≤ dayOfYearStart z := by
  rw [yearStart_eq, yearStart_eq]
  omega

/-- A year is about as long as the 400th part of 146097 days. -/
theorem yearStart_near (y : ℤ) :
    146097 * (y - 1) - 699 ≤ 400 * (dayOfYearStart y + 719162) ∧
      400 * (dayOfYearStart y + 719162) ≤ 146097 * (y - 1) + 396 := by
  rw [yearStart_eq]
  omega

/-- The year of a day has begun, and the next one has not. -/
theorem yearOf_spec (n : ℤ) :
    dayOfYearStart (yearOf n) ≤ n ∧ n < dayOfYearStart (yearOf n + 1) := by
  have hdiv : ((n + 719162) * 400).fdiv 146097 = (n + 719162) * 400 / 146097 :=
    Int.fdiv_eq_ediv_of_nonneg _ (by decide)
  unfold yearOf
  rw [hdiv]
  generalize hguess : (n + 719162) * 400 / 146097 + 1 = guess
  -- the guess is off by one year at most, since a year is about as long as the quotient says
  have hbefore := yearStart_near (guess - 1)
  have hbehind := yearStart_near (guess + 2)
  dsimp only
  split
  · next h =>
    rw [Int.sub_add_cancel]
    exact ⟨by omega, h⟩
  · next h =>
    split
    · next h' =>
      have hsum : guess + 1 + 1 = guess + 2 := by omega
      rw [hsum]
      exact ⟨h', by omega⟩
    · next h' => exact ⟨not_lt.mp h, not_le.mp h'⟩

/-- The year of a day is the one between whose first days it lies. -/
theorem yearOf_eq {n y : ℤ} (hfirst : dayOfYearStart y ≤ n) (hnext : n < dayOfYearStart (y + 1)) :
    yearOf n = y := by
  obtain ⟨h, h'⟩ := yearOf_spec n
  rcases lt_trichotomy (yearOf n) y with hlt | heq | hgt
  · have := yearStart_mono hlt
    omega
  · exact heq
  · have := yearStart_mono hgt
    omega

/-! ### Months -/

/-- A month begins where the one before ends. -/
theorem daysBeforeMonth_add_one (y : ℤ) {m : ℕ} (hm : 1 ≤ m ∧ m < 12) :
    daysBeforeMonth (isLeap y) (m + 1) = daysBeforeMonth (isLeap y) m + monthLength y m := by
  obtain ⟨hfirst, hlast⟩ := hm
  -- there are eleven months to look at, in both kinds of years
  interval_cases m <;> cases h : isLeap y <;> simp [daysBeforeMonth, monthLength, h]

/-- The year ends with its last month. -/
theorem yearLength_eq (y : ℤ) :
    (yearLength y : ℤ) = daysBeforeMonth (isLeap y) 12 + monthLength y 12 := by
  cases h : isLeap y <;> simp [yearLength, daysBeforeMonth, monthLength, h]

/-- No day is before the first month. -/
theorem daysBeforeMonth_one (leap : Bool) : daysBeforeMonth leap 1 = 0 := by cases leap <;> rfl

/-- Months begin in their order. -/
theorem daysBeforeMonth_mono (leap : Bool) {m k : ℕ} (hm : 1 ≤ m) (hmk : m ≤ k) (hk : k ≤ 12) :
    daysBeforeMonth leap m ≤ daysBeforeMonth leap k := by
  interval_cases k <;> interval_cases m <;> cases leap <;> decide

/-- No month goes beyond the end of its year. -/
theorem monthEnd_le (y : ℤ) {m : ℕ} (hm : 1 ≤ m ∧ m ≤ 12) :
    daysBeforeMonth (isLeap y) m + monthLength y m ≤ yearLength y := by
  rw [yearLength_eq]
  rcases Nat.lt_or_eq_of_le hm.2 with hlt | rfl
  · have hnext := daysBeforeMonth_add_one y ⟨hm.1, hlt⟩
    have hmono := daysBeforeMonth_mono (isLeap y) (m := m + 1) (k := 12) (by omega) (by omega) le_rfl
    omega
  · exact le_rfl

/-- A day is in the month that has begun last. -/
theorem monthAt_eq (y : ℤ) {m : ℕ} {place : ℤ} (hm : 1 ≤ m ∧ m ≤ 12)
    (hfirst : daysBeforeMonth (isLeap y) m ≤ place)
    (hlast : place < daysBeforeMonth (isLeap y) m + monthLength y m) :
    monthAt (isLeap y) place = m := by
  -- of the eleven months behind the first, those that have begun are the first `m - 1`
  have hbegun : ∀ k ∈ List.range 11,
      decide (daysBeforeMonth (isLeap y) (k + 2) ≤ place) = decide (k < m - 1) := by
    intro k hk
    rw [List.mem_range] at hk
    rw [decide_eq_decide]
    by_cases hkm : k + 2 ≤ m
    · have hmono := daysBeforeMonth_mono (isLeap y) (m := k + 2) (by omega) hkm hm.2
      omega
    · have hnext := daysBeforeMonth_add_one y (m := m) (by omega)
      have hmono := daysBeforeMonth_mono (isLeap y) (m := m + 1) (k := k + 2) (by omega) (by omega)
        (by omega)
      omega
  have hcount : ((List.range 11).filter fun k => decide (k < m - 1)).length = m - 1 := by
    obtain ⟨h, h'⟩ := hm
    interval_cases m <;> decide
  rw [monthAt, List.filter_congr hbegun, hcount]
  omega

/-! ### Dates -/

/-- There is a day of that number in that month. -/
structure IsDate (y : ℤ) (m d : ℕ) : Prop where
  month : 1 ≤ m ∧ m ≤ 12
  day : 1 ≤ d ∧ d ≤ monthLength y m

/-- A date is in its year. -/
theorem IsDate.within_year {y : ℤ} {m d : ℕ} (h : IsDate y m d) :
    dayOfYearStart y ≤ dayOf y m d ∧ dayOf y m d < dayOfYearStart (y + 1) := by
  have hfirst := daysBeforeMonth_mono (isLeap y) le_rfl h.month.1 h.month.2
  have hzero := daysBeforeMonth_one (isLeap y)
  have hend := monthEnd_le y h.month
  have hnext := yearStart_add_one y
  have hday := h.day
  unfold dayOf
  omega

/-- A date can be read off its day number. -/
theorem civil_dayOf {y : ℤ} {m d : ℕ} (h : IsDate y m d) : civil (dayOf y m d) = (y, m, d) := by
  have hyear : yearOf (dayOf y m d) = y := yearOf_eq h.within_year.1 h.within_year.2
  have hplace : dayInYear (dayOf y m d) = daysBeforeMonth (isLeap y) m + (d - 1) := by
    rw [dayInYear, hyear, dayOf]
    omega
  have hday := h.day
  have hmonth : monthAt (isLeap y) (daysBeforeMonth (isLeap y) m + (d - 1)) = m :=
    monthAt_eq y h.month (by omega) (by omega)
  have hback : (daysBeforeMonth (isLeap y) m + (d - 1) - daysBeforeMonth (isLeap y) m + 1).toNat =
      d := by
    omega
  rw [civil, hyear, hplace, hmonth, hback]

/-- Every place in a year is in one of its months. -/
theorem exists_month (y : ℤ) {place : ℤ} (hfirst : 0 ≤ place) (hlast : place < yearLength y) :
    ∃ m, (1 ≤ m ∧ m ≤ 12) ∧ daysBeforeMonth (isLeap y) m ≤ place ∧
      place < daysBeforeMonth (isLeap y) m + monthLength y m := by
  have hzero := daysBeforeMonth_one (isLeap y)
  -- the months are tried from the last one down
  have hdown : ∀ k ≤ 11, place < daysBeforeMonth (isLeap y) (k + 1) + monthLength y (k + 1) →
      ∃ m, (1 ≤ m ∧ m ≤ k + 1) ∧ daysBeforeMonth (isLeap y) m ≤ place ∧
        place < daysBeforeMonth (isLeap y) m + monthLength y m := by
    intro k hk hplace
    induction k with
    | zero => exact ⟨1, ⟨le_rfl, le_rfl⟩, by omega, hplace⟩
    | succ k ih =>
      by_cases hbegun : daysBeforeMonth (isLeap y) (k + 1 + 1) ≤ place
      · exact ⟨k + 1 + 1, ⟨by omega, le_rfl⟩, hbegun, hplace⟩
      · have hnext := daysBeforeMonth_add_one y (m := k + 1) (by omega)
        obtain ⟨m, hm, hin⟩ := ih (by omega) (by omega)
        exact ⟨m, ⟨hm.1, by omega⟩, hin⟩
  rw [yearLength_eq] at hlast
  exact hdown 11 le_rfl hlast

/-- Every day has a date. -/
theorem civil_spec (n : ℤ) : ∃ y m d, civil n = (y, m, d) ∧ IsDate y m d ∧ dayOf y m d = n := by
  obtain ⟨hbegun, hnext⟩ := yearOf_spec n
  have hlength := yearStart_add_one (yearOf n)
  have hplace : 0 ≤ n - dayOfYearStart (yearOf n) := by omega
  have hinside : n - dayOfYearStart (yearOf n) < yearLength (yearOf n) := by omega
  -- the day is the place in the month that its year and place give
  obtain ⟨m, hm, hfirst, hlast⟩ := exists_month (yearOf n) hplace hinside
  obtain ⟨d, hd⟩ : ∃ d : ℕ, (d : ℤ) =
      n - dayOfYearStart (yearOf n) - daysBeforeMonth (isLeap (yearOf n)) m + 1 :=
    ⟨_, Int.toNat_of_nonneg (by omega)⟩
  -- it is a day of the month, as the place is before the month's end
  have hdate : IsDate (yearOf n) m d := ⟨hm, by omega⟩
  have hday : dayOf (yearOf n) m d = n := by
    unfold dayOf
    omega
  have hcivil := civil_dayOf hdate
  rw [hday] at hcivil
  exact ⟨yearOf n, m, d, hcivil, hdate, hday⟩

/-- The date of the day behind that of a date. -/
inductive Follows : ℤ × ℕ × ℕ → ℤ × ℕ × ℕ → Prop
  | day {y : ℤ} {m d : ℕ} : d < monthLength y m → Follows (y, m, d) (y, m, d + 1)
  | month {y : ℤ} {m : ℕ} : m < 12 → Follows (y, m, monthLength y m) (y, m + 1, 1)
  | year {y : ℤ} : Follows (y, 12, 31) (y + 1, 1, 1)

/-- No month is empty. -/
theorem one_le_monthLength (y : ℤ) (m : ℕ) : 1 ≤ monthLength y m := by
  unfold monthLength
  split
  · split <;> decide
  all_goals decide

/-- Day numbers count the days of the calendar. -/
theorem civil_add_one (n : ℤ) : Follows (civil n) (civil (n + 1)) := by
  obtain ⟨y, m, d, hcivil, hdate, rfl⟩ := civil_spec n
  rw [hcivil]
  obtain ⟨hm, hd⟩ := hdate
  -- a day before the end of its month is followed by one of the same month
  rcases Nat.lt_or_eq_of_le hd.2 with hlt | rfl
  · have hday : dayOf y m d + 1 = dayOf y m ((d + 1 : ℕ) : ℤ) := by
      unfold dayOf
      omega
    rw [hday, civil_dayOf ⟨hm, by omega⟩]
    exact .day hlt
  -- the last day of a month is followed by the first of the next one, the last of the year by a new
  -- year's
  · rcases Nat.lt_or_eq_of_le hm.2 with hlt | rfl
    · have hnext := daysBeforeMonth_add_one y ⟨hm.1, hlt⟩
      have hday : dayOf y m (monthLength y m : ℕ) + 1 = dayOf y (m + 1) ((1 : ℕ) : ℤ) := by
        unfold dayOf
        omega
      rw [hday, civil_dayOf ⟨by omega, le_rfl, one_le_monthLength y (m + 1)⟩]
      exact .month hlt
    · have hday : dayOf y 12 (monthLength y 12 : ℕ) + 1 = dayOf (y + 1) 1 ((1 : ℕ) : ℤ) := by
        have hstart := yearStart_add_one y
        have hlength := yearLength_eq y
        have hzero := daysBeforeMonth_one (isLeap (y + 1))
        unfold dayOf
        omega
      rw [hday, civil_dayOf ⟨by omega, le_rfl, one_le_monthLength (y + 1) 1⟩]
      exact .year

/-! ### Carrying -/

/-- The intermediate results of carrying fit into 64 bits. -/
structure Fits (y m d : ℤ) : Prop where
  year : fits64 (y * 12)
  month : fits64 (m - 1)
  months : fits64 (y * 12 + (m - 1))
  day : fits64 (d - 1)

/-- The year that a month out of its range belongs to. -/
def carriedYear (y m : ℤ) : ℤ := y + (m - 1) / 12

/-- The month that one out of its range is, in the year it belongs to. -/
def carriedMonth (m : ℤ) : ℕ := ((m - 1) % 12).toNat + 1

/-- Twelve months more are a year more. -/
theorem carriedYear_add (y m k : ℤ) : carriedYear y (m + 12 * k) = carriedYear (y + k) m := by
  unfold carriedYear
  omega

/-- Twelve months more are the same month. -/
theorem carriedMonth_add (m k : ℤ) : carriedMonth (m + 12 * k) = carriedMonth m := by
  unfold carriedMonth
  omega

/-- Where a result is demanded to fit, it does, and the rest goes on. -/
theorem within64_bind_eq_some_iff {α : Type} {n : ℤ} {f : ℤ → Option α} {a : α} :
    (within64 n >>= f) = some a ↔ fits64 n ∧ f n = some a := by
  unfold within64
  split
  · next h => exact (and_iff_right h).symm
  · next h => exact iff_of_false nofun fun hf => h hf.1

/-- A day is in the calendar's range just if it is in one of its years. -/
theorem inRange_iff {n : ℤ} :
    inRange n = true ↔ dayOfYearStart minYear ≤ n ∧ n < dayOfYearStart (maxYear + 1) :=
  decide_eq_true_iff

/-- The dates of the calendar's years are in its range. -/
theorem IsDate.inRange {y : ℤ} {m d : ℕ} (h : IsDate y m d) (hy : minYear ≤ y ∧ y ≤ maxYear) :
    Calendar.inRange (dayOf y m d) = true := by
  have hin := h.within_year
  have hmin := yearStart_mono hy.1
  have hmax := yearStart_mono (Int.add_le_add_right hy.2 1)
  exact inRange_iff.mpr ⟨by omega, by omega⟩

/-- The first of a month. -/
theorem dayOf?_one_eq_some_iff {y n : ℤ} {m : ℕ} :
    dayOf? y m 1 = some n ↔
      (minYear ≤ y ∧ y ≤ maxYear) ∧ (1 ≤ m ∧ m ≤ 12) ∧ dayOf y m 1 = n := by
  have hlength := one_le_monthLength y m
  unfold dayOf?
  split
  · rw [Option.some.injEq]
    tauto
  · refine iff_of_false nofun ?_
    tauto

/-- There is a carried day just if nothing overflows and the day and the first of its month are in the
calendar, whatever the month and the day are. -/
theorem carriedDay_eq_some_iff {y m d n : ℤ} :
    carriedDay y m d = some n ↔
      Fits y m d ∧ (minYear ≤ carriedYear y m ∧ carriedYear y m ≤ maxYear) ∧
        dayOf (carriedYear y m) (carriedMonth m) d = n ∧ inRange n = true := by
  have hyear : (y * 12 + (m - 1)).fdiv 12 = carriedYear y m := by
    rw [Int.fdiv_eq_ediv_of_nonneg _ (by decide), carriedYear]
    omega
  have hmonth : ((y * 12 + (m - 1)).fmod 12).toNat + 1 = carriedMonth m := by
    rw [Int.fmod_eq_emod_of_nonneg _ (by decide), carriedMonth]
    omega
  have hmonths : 1 ≤ carriedMonth m ∧ carriedMonth m ≤ 12 := by
    unfold carriedMonth
    omega
  have hfirst : dayOf (carriedYear y m) (carriedMonth m) 1 + (d - 1) =
      dayOf (carriedYear y m) (carriedMonth m) d := by
    unfold dayOf
    omega
  -- the days that are added to the first of the month are bounded already by the days of the
  -- calendar
  have hspan : -maxDays ≤ -(dayOfYearStart (maxYear + 1) - dayOfYearStart minYear) ∧
      dayOfYearStart (maxYear + 1) - dayOfYearStart minYear ≤ maxDays := by decide
  unfold carriedDay
  rw [within64_bind_eq_some_iff, within64_bind_eq_some_iff, within64_bind_eq_some_iff, hyear,
    hmonth]
  constructor
  · rintro ⟨hy, hm, hsum, h⟩
    obtain ⟨-, h⟩ := Option.ite_none_right_eq_some.mp h
    obtain ⟨first, hone, h⟩ := Option.bind_eq_some_iff.mp h
    obtain ⟨hd, h⟩ := within64_bind_eq_some_iff.mp h
    obtain ⟨⟨-, -, hin⟩, h⟩ := Option.ite_none_right_eq_some.mp h
    obtain ⟨hyears, -, rfl⟩ := dayOf?_one_eq_some_iff.mp hone
    rw [hfirst] at h hin
    obtain rfl := Option.some.inj h
    exact ⟨⟨hy, hm, hsum, hd⟩, hyears, rfl, hin⟩
  · rintro ⟨⟨hy, hm, hsum, hd⟩, hyears, hday, hin⟩
    have hone := dayOf?_one_eq_some_iff.mpr ⟨hyears, hmonths, rfl⟩
    -- a year of the calendar has 32 bits
    have h32 : fits32 (carriedYear y m) = true := by
      unfold fits32 minYear maxYear at *
      exact decide_eq_true (by omega)
    have hstart : IsDate (carriedYear y m) (carriedMonth m) 1 :=
      ⟨hmonths, le_rfl, one_le_monthLength _ _⟩
    -- the first of the month is in range too, so the days between it and the carried day are few
    have hlow := inRange_iff.mp (hstart.inRange hyears)
    have hhigh := inRange_iff.mp hin
    rw [Nat.cast_one] at hlow
    refine ⟨hy, hm, hsum, ?_⟩
    rw [if_pos h32, hone]
    refine within64_bind_eq_some_iff.mpr ⟨hd, ?_⟩
    rw [hfirst, hday]
    exact if_pos ⟨by omega, by omega, hin⟩

/-- Twelve months are as good as a year, wherever both can be carried. -/
theorem carriedDay_add_months {y m d k : ℤ} (h : Fits y (m + 12 * k) d) (h' : Fits (y + k) m d) :
    carriedDay y (m + 12 * k) d = carriedDay (y + k) m d := by
  ext n
  rw [carriedDay_eq_some_iff, carriedDay_eq_some_iff, carriedYear_add, carriedMonth_add]
  exact and_congr_left fun _ => iff_of_true h h'

/-- So many days more are so many days later. -/
theorem carriedDay_add_days {y m d k first second : ℤ} (h : carriedDay y m d = some first)
    (h' : carriedDay y m (d + k) = some second) : second = first + k := by
  obtain ⟨-, -, rfl, -⟩ := carriedDay_eq_some_iff.mp h
  obtain ⟨-, -, rfl, -⟩ := carriedDay_eq_some_iff.mp h'
  unfold dayOf
  omega

/-- A month in its range is in its own year. -/
theorem carriedYear_of_month {y : ℤ} {m : ℕ} (hm : 1 ≤ m ∧ m ≤ 12) : carriedYear y m = y := by
  unfold carriedYear
  omega

/-- A month in its range is itself. -/
theorem carriedMonth_of_month {m : ℕ} (hm : 1 ≤ m ∧ m ≤ 12) : carriedMonth m = m := by
  unfold carriedMonth
  omega

/-- A month has 31 days at most. -/
theorem monthLength_le (y : ℤ) (m : ℕ) : monthLength y m ≤ 31 := by
  unfold monthLength
  split
  · split <;> decide
  all_goals decide

/-- A date of the calendar is carried to itself. -/
theorem carriedDay_of_isDate {y : ℤ} {m d : ℕ} (hy : minYear ≤ y ∧ y ≤ maxYear)
    (h : IsDate y m d) : carriedDay y m d = some (dayOf y m d) := by
  have hlength := monthLength_le y m
  have hm := h.month
  have hd := h.day
  have hin := h.inRange hy
  rw [carriedDay_eq_some_iff, carriedYear_of_month hm, carriedMonth_of_month hm]
  refine ⟨?_, hy, rfl, hin⟩
  unfold minYear maxYear at hy
  constructor <;> exact decide_eq_true (by omega)

/-! ### Times of day -/

namespace Moment

variable {t u v : Moment} {years months days : ℤ}

/-- The moment at which the clock shows the same time on another day. -/
def onDay (t : Moment) (n : ℤ) : Moment := ofLocal (n * 86400 + t.secondOfDay) t.nanos t.offset

/-- On another day the clock shows the same time. -/
theorem shown_onDay (t : Moment) (n : ℤ) : (t.onDay n).shown = n * 86400 + t.secondOfDay :=
  Int.sub_add_cancel _ _

/-- The time of day is what is left of the time shown by whole days. -/
theorem secondOfDay_eq (t : Moment) : t.secondOfDay = t.shown % 86400 :=
  Int.fmod_eq_emod_of_nonneg _ (by decide)

/-- On another day it is that day. -/
theorem day_onDay (t : Moment) (n : ℤ) : (t.onDay n).day = n := by
  have hsecond := secondOfDay_eq t
  rw [day, shown_onDay, Int.fdiv_eq_ediv_of_nonneg _ (by decide)]
  omega

/-- On another day it is the same time of day. -/
theorem secondOfDay_onDay (t : Moment) (n : ℤ) : (t.onDay n).secondOfDay = t.secondOfDay := by
  have hsecond := secondOfDay_eq t
  rw [secondOfDay_eq, shown_onDay]
  omega

/-- The last day it is put on counts. -/
theorem onDay_onDay (t : Moment) (n k : ℤ) : (t.onDay n).onDay k = t.onDay k := by
  rw [onDay, secondOfDay_onDay]
  rfl

/-- The intermediate results of adding to the date of a time fit into 64 bits. -/
structure Fits (t : Moment) (years months days : ℤ) : Prop where
  year : fits64 ((civil t.day).1 + years)
  month : fits64 ((civil t.day).2.1 + months)
  day : fits64 ((civil t.day).2.2 + days)
  carried : Calendar.Fits ((civil t.day).1 + years) ((civil t.day).2.1 + months)
    ((civil t.day).2.2 + days)

/-- A date that is added to is carried, and the clock is put on the carried day; the result is a
time of the calendar. -/
theorem plusDate?_eq_some_iff :
    t.plusDate? years months days = some u ↔ t.Fits years months days ∧
      ∃ n, carriedDay ((civil t.day).1 + years) ((civil t.day).2.1 + months)
        ((civil t.day).2.2 + days) = some n ∧ t.onDay n = u ∧ u.isValid = true := by
  unfold plusDate?
  dsimp only
  rw [within64_bind_eq_some_iff]
  constructor
  · rintro ⟨hyear, h⟩
    obtain ⟨hmonth, h⟩ := within64_bind_eq_some_iff.mp h
    obtain ⟨hday, h⟩ := within64_bind_eq_some_iff.mp h
    obtain ⟨n, hn, h⟩ := Option.bind_eq_some_iff.mp h
    obtain ⟨hvalid, h⟩ := Option.ite_none_right_eq_some.mp h
    obtain rfl := Option.some.inj h
    exact ⟨⟨hyear, hmonth, hday, (carriedDay_eq_some_iff.mp hn).1⟩, n, hn, rfl, hvalid⟩
  · rintro ⟨⟨hyear, hmonth, hday, -⟩, n, hn, rfl, hvalid⟩
    refine ⟨hyear, within64_bind_eq_some_iff.mpr ⟨hmonth, within64_bind_eq_some_iff.mpr ⟨hday, ?_⟩⟩⟩
    exact Option.bind_eq_some_iff.mpr ⟨n, hn, if_pos hvalid⟩

/-- Days are added to a time by counting them. -/
theorem plusDate?_days_eq_some_iff :
    t.plusDate? 0 0 days = some u ↔ t.Fits 0 0 days ∧
      (minYear ≤ (civil t.day).1 ∧ (civil t.day).1 ≤ maxYear) ∧ inRange (t.day + days) = true ∧
        t.onDay (t.day + days) = u ∧ u.isValid = true := by
  -- the date of a time is one of the calendar, so its year and month are carried to themselves
  obtain ⟨y, m, d, hcivil, hdate, hday⟩ := civil_spec t.day
  have hsum : dayOf y m (d + days) = t.day + days := by
    rw [← hday]
    unfold dayOf
    omega
  simp only [plusDate?_eq_some_iff, carriedDay_eq_some_iff, hcivil, add_zero,
    carriedYear_of_month hdate.month, carriedMonth_of_month hdate.month, hsum]
  constructor
  · rintro ⟨hfits, _, ⟨-, hy, rfl, hin⟩, hu, hvalid⟩
    exact ⟨hfits, hy, hin, hu, hvalid⟩
  · rintro ⟨hfits, hy, hin, hu, hvalid⟩
    have hcarried := hfits.carried
    rw [hcivil, add_zero, add_zero] at hcarried
    exact ⟨hfits, _, ⟨hcarried, hy, rfl, hin⟩, hu, hvalid⟩

/-- Days that are added twice are counted twice. -/
theorem plusDate?_add_days {more : ℤ} (hu : t.plusDate? 0 0 days = some u)
    (hv : u.plusDate? 0 0 more = some v) (hfits : t.Fits 0 0 (days + more)) :
    t.plusDate? 0 0 (days + more) = some v := by
  obtain ⟨-, hy, -, rfl, -⟩ := plusDate?_days_eq_some_iff.mp hu
  obtain ⟨-, -, hin, rfl, hvalid⟩ := plusDate?_days_eq_some_iff.mp hv
  rw [day_onDay, add_assoc] at hin
  refine plusDate?_days_eq_some_iff.mpr ⟨hfits, hy, hin, ?_, hvalid⟩
  rw [day_onDay, onDay_onDay, add_assoc]

/-- Years that are added are twelve months each. -/
theorem plusDate?_months (h : t.Fits years months days)
    (h' : t.Fits 0 (12 * years + months) days) :
    t.plusDate? years months days = t.plusDate? 0 (12 * years + months) days := by
  have hmonths : ((civil t.day).2.1 : ℤ) + (12 * years + months) =
      (civil t.day).2.1 + months + 12 * years := by
    omega
  have hcarried := h'.carried
  rw [hmonths, add_zero] at hcarried
  ext u
  rw [plusDate?_eq_some_iff, plusDate?_eq_some_iff, hmonths, add_zero,
    carriedDay_add_months hcarried h.carried]
  exact and_congr_left fun _ => iff_of_true h h'

/-- A call adds to the date, or is refused for its arguments. -/
theorem invoke_addDate {E : Engine} {scope : Ref .scope} {span : Span} {s : State} {a b c : Value}
    {years months days : Int64} (ha : a.asInt? = some years) (hb : b.asInt? = some months)
    (hc : c.asInt? = some days) (t : Moment) :
    match t.plusDate? years.toInt months.toInt days.toInt with
    | some u => Dispatch.invoke E scope (.time t) "addDate" [a, b, c] span s = .done (.time u) s
    | none => (Dispatch.invoke E scope (.time t) "addDate" [a, b, c] span s).Refused
        "INVALID_ARGUMENT" span s := by
  -- the three numbers are read from the arguments, which changes nothing
  let site : CallSite := ⟨scope, span, "addDate"⟩
  have hyears : site.intArg [a, b, c] 0 s = .done years s :=
    congrFun (CallSite.intArg_eq_pure rfl ha) s
  have hmonths : site.intArg [a, b, c] 1 s = .done months s :=
    congrFun (CallSite.intArg_eq_pure rfl hb) s
  have hdays : site.intArg [a, b, c] 2 s = .done days s :=
    congrFun (CallSite.intArg_eq_pure rfl hc) s
  have hrun : Dispatch.invoke E scope (.time t) "addDate" [a, b, c] span s =
      (match t.plusDate? years.toInt months.toInt days.toInt with
        | some u => pure (.time u)
        | none => site.invalid (String.intercalate ", "
            ([years, months, days].map fun n => toString n.toInt)) : Eval Value) s := by
    rw [Dispatch.invoke_method (.time t) trivial rfl rfl]
    refine (Eval.bind_of_done (a := ()) (t := s) rfl _).trans ?_
    refine (Eval.bind_of_done hyears _).trans ?_
    refine (Eval.bind_of_done hmonths _).trans ?_
    exact Eval.bind_of_done hdays _
  rw [hrun]
  cases t.plusDate? years.toInt months.toInt days.toInt with
  | some u => rfl
  | none => exact ⟨_, rfl, rfl⟩

/-- The clock of a time whose date is added to shows the same time of day. -/
theorem clock_of_plusDate? (h : t.plusDate? years months days = some u) :
    u.secondOfDay = t.secondOfDay ∧ u.nanos = t.nanos ∧ u.offset = t.offset := by
  obtain ⟨-, n, -, rfl, -⟩ := plusDate?_eq_some_iff.mp h
  exact ⟨secondOfDay_onDay t n, rfl, rfl⟩

end Moment

/-- **Months and days are carried lawfully.** Unless something overflows, twelve months are a year. A
number of days more is just as many days later, and the days are those of the calendar. A date of the
calendar's range is carried to itself; and whatever the year, the month and the day are, there is a
carried day just if nothing overflows and the calendar has it and its month.

So it is with the dates of times. A call that adds to one gives a time or is refused, and nothing has
changed. What it gives is the same time of day on the carried day of the sums, unless something overflows.
The time of day and the offset are kept. To add days twice is to add their sum, and to add years
and months is to add that many months, unless something overflows. -/
theorem carry_lawful (y m d k : ℤ) :
    (Fits y (m + 12 * k) d → Fits (y + k) m d →
      carriedDay y (m + 12 * k) d = carriedDay (y + k) m d) ∧
    (∀ first second, carriedDay y m d = some first → carriedDay y m (d + k) = some second →
      second = first + k) ∧
    (∀ n, Follows (civil n) (civil (n + 1))) ∧
    (∀ month day : ℕ, minYear ≤ y ∧ y ≤ maxYear → IsDate y month day →
      ∃ n, carriedDay y month day = some n ∧ civil n = (y, month, day)) ∧
    ((∃ n, carriedDay y m d = some n) ↔ Fits y m d ∧
      (minYear ≤ carriedYear y m ∧ carriedYear y m ≤ maxYear) ∧
        inRange (dayOf (carriedYear y m) (carriedMonth m) d) = true) ∧
    ∀ t : Moment,
      (∀ (E : Engine) (scope : Ref .scope) (span : Span) (s : State) {a b c : Value}
        {years months days : Int64}, a.asInt? = some years → b.asInt? = some months →
          c.asInt? = some days →
        match t.plusDate? years.toInt months.toInt days.toInt with
        | some u => Dispatch.invoke E scope (.time t) "addDate" [a, b, c] span s = .done (.time u) s
        | none => (Dispatch.invoke E scope (.time t) "addDate" [a, b, c] span s).Refused
            "INVALID_ARGUMENT" span s) ∧
      (∀ {years months days : ℤ} {u : Moment}, t.plusDate? years months days = some u ↔
        t.Fits years months days ∧ ∃ n, carriedDay ((civil t.day).1 + years)
          ((civil t.day).2.1 + months) ((civil t.day).2.2 + days) = some n ∧ t.onDay n = u ∧
          u.isValid = true) ∧
      (∀ {years months days : ℤ} {u : Moment}, t.plusDate? years months days = some u →
        u.secondOfDay = t.secondOfDay ∧ u.nanos = t.nanos ∧ u.offset = t.offset) ∧
      (∀ {days more : ℤ} {u v : Moment}, t.plusDate? 0 0 days = some u →
        u.plusDate? 0 0 more = some v → t.Fits 0 0 (days + more) →
          t.plusDate? 0 0 (days + more) = some v) ∧
      ∀ {years months days : ℤ}, t.Fits years months days →
        t.Fits 0 (12 * years + months) days →
          t.plusDate? years months days = t.plusDate? 0 (12 * years + months) days := by
  refine ⟨carriedDay_add_months, fun _ _ => carriedDay_add_days, civil_add_one,
    fun month day hy hdate => ⟨_, carriedDay_of_isDate hy hdate, civil_dayOf hdate⟩, ?exists_iff,
    fun t => ⟨fun _ _ _ _ {_ _ _ _ _ _} ha hb hc => Moment.invoke_addDate ha hb hc t,
      Moment.plusDate?_eq_some_iff, Moment.clock_of_plusDate?, Moment.plusDate?_add_days,
      Moment.plusDate?_months⟩⟩
  case exists_iff =>
    simp only [carriedDay_eq_some_iff]
    constructor
    · rintro ⟨n, hfits, hy, rfl, hin⟩
      exact ⟨hfits, hy, hin⟩
    · rintro ⟨hfits, hy, hin⟩
      exact ⟨_, hfits, hy, rfl, hin⟩

/-- Noon of the first of March 2023, on a clock two hours to the east. -/
def firstOfMarch : Moment := ⟨dayOf 2023 3 1 * 86400 + 36000, 0, 7200⟩

/-- The day before the first of the third month of 2024, and of the fifteenth of 2023, is the 29th of
February. A year less a day after noon of the first of March 2023 it is noon of that day, and so it is
twelve months less a day after. -/
theorem carry_lawful_february :
    (Fits 2023 (3 + 12 * 1) 0 ∧ Fits (2023 + 1) 3 0 ∧
      carriedDay 2023 (3 + 12 * 1) 0 = carriedDay (2023 + 1) 3 0 ∧
      ∃ n, carriedDay (2023 + 1) 3 0 = some n ∧ civil n = (2024, 2, 29)) ∧
    ∃ u, firstOfMarch.plusDate? 1 0 (-1) = some u ∧ civil u.day = (2024, 2, 29) ∧
      u.secondOfDay = firstOfMarch.secondOfDay ∧
      firstOfMarch.plusDate? 0 (12 * 1 + 0) (-1) = some u := by
  have h : Fits 2023 (3 + 12 * 1) 0 := by constructor <;> decide
  have h' : Fits (2023 + 1) 3 0 := by constructor <;> decide
  have hyear : firstOfMarch.Fits 1 0 (-1) := by
    refine ⟨by decide, by decide, by decide, ?_⟩
    constructor <;> decide
  have hmonths : firstOfMarch.Fits 0 (12 * 1 + 0) (-1) := by
    refine ⟨by decide, by decide, by decide, ?_⟩
    constructor <;> decide
  refine ⟨⟨h, h', (carry_lawful 2023 3 0 1).1 h h', _, rfl, by decide⟩, ?_⟩
  obtain ⟨-, -, -, -, -, hmoments⟩ := carry_lawful 2023 3 0 1
  obtain ⟨-, hdate, hclock, -, hmonth⟩ := hmoments firstOfMarch
  have hday : firstOfMarch.plusDate? 1 0 (-1) = some (firstOfMarch.onDay (dayOf 2024 2 29)) :=
    hdate.mpr ⟨hyear, dayOf 2024 2 29, by decide, rfl, by decide⟩
  exact ⟨_, hday, by decide, (hclock hday).1, (hmonth hyear hmonths).symm.trans hday⟩

end ScriptEngine.Calendar
