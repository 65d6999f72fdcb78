import Mathlib

/-!
# The proleptic Gregorian calendar

Days are counted from 0, the first of January of
the year 1. `Date` is a day that exists: its fields carry that the month is one of
twelve and that the month has the day. `dateOf` finds the date of a count the way
calendars are unrolled by hand, cycles of 400, 100, 4 and 1 years and then the months,
and `dayOf` counts back. `dayOf_dateOf` is that no day is lost between them.
-/

namespace OpenWebId.Lib

/-! ## Walking a list of lengths -/

/-- The stretch that the position falls in, and how far into it. -/
def place : List Nat → Nat → Nat × Nat
  | [], n => (0, n)
  | length :: lengths, n =>
    if n < length then (0, n)
    else ((place lengths (n - length)).1 + 1, (place lengths (n - length)).2)

/-- A position within the whole falls in a stretch, short of its end, and the stretches
before it make up the difference. -/
theorem place_spec (lengths : List Nat) (n : Nat) (h : n < lengths.sum) :
    (place lengths n).1 < lengths.length ∧
      (place lengths n).2 < lengths.getD (place lengths n).1 0 ∧
      (lengths.take (place lengths n).1).sum + (place lengths n).2 = n := by
  induction lengths generalizing n with
  | nil => exact absurd h (Nat.not_lt_zero n)
  | cons length lengths ih =>
    unfold place
    split
    next hlt => simpa using hlt
    next hge =>
      rw [List.sum_cons] at h
      obtain ⟨hindex, hrest, hsum⟩ := ih (n - length) (by omega)
      refine ⟨Nat.succ_lt_succ hindex, by simpa using hrest, ?_⟩
      rw [List.take_succ_cons, List.sum_cons]
      omega

/-! ## Dates -/

/-- Whether the year has a 29th of February. -/
def isLeap (year : Nat) : Bool :=
  year % 4 == 0 && (year % 100 != 0 || year % 400 == 0)

/-- How long the months of the year are. -/
def monthLengths (year : Nat) : List Nat :=
  [31, if isLeap year then 29 else 28, 31, 30, 31, 30, 31, 31, 30, 31, 30, 31]

@[simp] theorem length_monthLengths (year : Nat) : (monthLengths year).length = 12 := rfl

theorem sum_monthLengths (year : Nat) :
    (monthLengths year).sum = if isLeap year then 366 else 365 := by
  unfold monthLengths
  split <;> rfl

/-- How long a month, counted from 1, is. -/
def daysInMonth (year month : Nat) : Nat := (monthLengths year).getD (month - 1) 0

/-- A day of the calendar. -/
structure Date where
  year : Nat
  month : Nat
  day : Nat
  fromYearOne : 1 ≤ year
  inYear : 1 ≤ month ∧ month ≤ 12
  inMonth : 1 ≤ day ∧ day ≤ daysInMonth year month

/-- The date with these numbers, where there is one. -/
def Date.ofNumbers (year month day : Nat) : Option Date :=
  if h : 1 ≤ year ∧ (1 ≤ month ∧ month ≤ 12) ∧ (1 ≤ day ∧ day ≤ daysInMonth year month) then
    some ⟨year, month, day, h.1, h.2.1, h.2.2⟩
  else none

theorem Date.ofNumbers_self (date : Date) :
    Date.ofNumbers date.year date.month date.day = some date :=
  dif_pos ⟨date.fromYearOne, date.inYear, date.inMonth⟩

/-- The days before the first of January of a year. -/
def daysBeforeYear (year : Nat) : Nat :=
  (year - 1) * 365 + (year - 1) / 4 - (year - 1) / 100 + (year - 1) / 400

/-- The days before a date. -/
def dayOf (date : Date) : Nat :=
  daysBeforeYear date.year + ((monthLengths date.year).take (date.month - 1)).sum + (date.day - 1)

/-- The year of a day, and how many of its days come before. A cycle of 400 years has
146097 days, and each cycle inside it the same length but the last. -/
def yearOf (day : Nat) : Nat × Nat :=
  let n400 := day / 146097
  let r400 := day % 146097
  let n100 := min 3 (r400 / 36524)
  let r100 := r400 - n100 * 36524
  let n4 := r100 / 1461
  let r4 := r100 % 1461
  let n1 := min 3 (r4 / 365)
  (n400 * 400 + n100 * 100 + n4 * 4 + n1 + 1, r4 - n1 * 365)

/-- A year counted in its cycles, and what the cycles say of the days before it and of
its own length. -/
theorem daysBeforeYear_cycles (n400 : Nat) {n100 n4 n1 : Nat} (h100 : n100 ≤ 3) (h4 : n4 ≤ 24)
    (h1 : n1 ≤ 3) :
    daysBeforeYear (n400 * 400 + n100 * 100 + n4 * 4 + n1 + 1) =
        n400 * 146097 + n100 * 36524 + n4 * 1461 + n1 * 365 ∧
      (isLeap (n400 * 400 + n100 * 100 + n4 * 4 + n1 + 1) = true ↔
        n1 = 3 ∧ (n4 = 24 → n100 = 3)) := by
  refine ⟨?_, ?_⟩
  · unfold daysBeforeYear
    have hfour : (n400 * 400 + n100 * 100 + n4 * 4 + n1 + 1 - 1) / 4 =
        n400 * 100 + n100 * 25 + n4 := by omega
    have hhundred : (n400 * 400 + n100 * 100 + n4 * 4 + n1 + 1 - 1) / 100 =
        n400 * 4 + n100 := by omega
    have hcycle : (n400 * 400 + n100 * 100 + n4 * 4 + n1 + 1 - 1) / 400 = n400 := by omega
    rw [hfour, hhundred, hcycle]
    omega
  · unfold isLeap
    rw [Bool.and_eq_true, Bool.or_eq_true, beq_iff_eq, bne_iff_ne, beq_iff_eq]
    omega

/-- The year of a day starts at or before it, and is long enough to hold it. -/
theorem yearOf_spec (day : Nat) :
    1 ≤ (yearOf day).1 ∧ daysBeforeYear (yearOf day).1 + (yearOf day).2 = day ∧
      (yearOf day).2 < (monthLengths (yearOf day).1).sum := by
  have h100 : min 3 (day % 146097 / 36524) ≤ 3 := Nat.min_le_left ..
  have h4 : (day % 146097 - min 3 (day % 146097 / 36524) * 36524) / 1461 ≤ 24 := by omega
  have h1 : min 3 ((day % 146097 - min 3 (day % 146097 / 36524) * 36524) % 1461 / 365) ≤ 3 :=
    Nat.min_le_left ..
  obtain ⟨hbefore, hleap⟩ := daysBeforeYear_cycles (day / 146097) h100 h4 h1
  refine ⟨Nat.succ_le_succ (Nat.zero_le _), ?_, ?_⟩
  · show daysBeforeYear _ + _ = day
    unfold yearOf
    simp only [hbefore]
    omega
  · rw [sum_monthLengths]
    unfold yearOf
    simp only
    -- the last day of a cycle is in a leap year, which is the only one long enough
    split
    next => omega
    next hcommon =>
      rw [hleap] at hcommon
      omega

/-- The date of a day. -/
def dateOf (day : Nat) : Date :=
  have hyear := yearOf_spec day
  have hmonth := place_spec (monthLengths (yearOf day).1) (yearOf day).2 hyear.2.2
  { year := (yearOf day).1
    month := (place (monthLengths (yearOf day).1) (yearOf day).2).1 + 1
    day := (place (monthLengths (yearOf day).1) (yearOf day).2).2 + 1
    fromYearOne := hyear.1
    inYear := ⟨Nat.succ_le_succ (Nat.zero_le _), hmonth.1⟩
    inMonth := ⟨Nat.succ_le_succ (Nat.zero_le _), hmonth.2.1⟩ }

/-- **Counting back from the date of a day gives the day.** -/
theorem dayOf_dateOf (day : Nat) : dayOf (dateOf day) = day := by
  obtain ⟨-, hbefore, hlong⟩ := yearOf_spec day
  obtain ⟨-, -, hsum⟩ := place_spec (monthLengths (yearOf day).1) (yearOf day).2 hlong
  show daysBeforeYear (yearOf day).1 + ((monthLengths (yearOf day).1).take
    (place (monthLengths (yearOf day).1) (yearOf day).2).1).sum +
      (place (monthLengths (yearOf day).1) (yearOf day).2).2 = day
  omega

/-- The years of the calendar that four digits can name. -/
theorem year_dateOf_le {day : Nat} (h : day < daysBeforeYear 10000) : (dateOf day).year ≤ 9999 := by
  have hday : day < 3652059 := h
  show (yearOf day).1 ≤ 9999
  unfold yearOf
  simp only
  omega

theorem Date.day_le (date : Date) : date.day ≤ 31 := by
  have hle := date.inMonth.2
  have hlengths : ∀ length ∈ monthLengths date.year, length ≤ 31 := by
    intro length hmem
    unfold monthLengths at hmem
    split at hmem <;> simp at hmem <;> omega
  have hlt : date.month - 1 < (monthLengths date.year).length := by
    have hmonth := date.inYear
    rw [length_monthLengths]
    omega
  unfold daysInMonth at hle
  rw [List.getD_eq_getElem _ _ hlt] at hle
  exact Nat.le_trans hle (hlengths _ (List.getElem_mem hlt))

end OpenWebId.Lib
