import OpenWebId.Basic
import OpenWebId.Lib.Double

/-!
# Moments

A `datetime` in UTC is its signed count of microseconds after `BASE_DATE`,
2020-01-01T00:00:00Z, and is compared by it. `datetime` reaches from the start of the year 1
to the last microsecond of 9999; `DateTime` carries that bound as a field, and
arithmetic that would leave it raises `OverflowError` as Python's does. In other zones a
`datetime` is an `Aware`, which is not always compared by the moment it names.

`minutesSinceBase` counts as the source does, through `timedelta.total_seconds()`, which is
a double. It is exact for every whole second in range, and for every moment before the year
2564; later on the rounding can carry a moment in the last fifteen microseconds of a minute
into the next one (`minutesSinceBase_near`).
-/

namespace OpenWebId

def microsPerSecond : Int := 1000000

def microsPerMinute : Int := 60 * microsPerSecond

def microsPerHour : Int := 60 * microsPerMinute

def microsPerDay : Int := 24 * microsPerHour

/-- `datetime.min` in UTC, 737,424 days before the base date. -/
def minMoment : Int := -(737424 * microsPerDay)

/-- `datetime.max` in UTC, the last microsecond of the 2,914,635th day. -/
def maxMoment : Int := 2914635 * microsPerDay - 1

/-- A moment a `datetime` can hold, in microseconds after `BASE_DATE`. -/
structure DateTime where
  micros : Int
  inRange : minMoment ≤ micros ∧ micros ≤ maxMoment
  deriving DecidableEq

namespace DateTime

@[ext] theorem ext {d e : DateTime} (h : d.micros = e.micros) : d = e := by
  cases d; cases e; cases h; rfl

instance : LE DateTime := ⟨fun d e => d.micros ≤ e.micros⟩

instance : LT DateTime := ⟨fun d e => d.micros < e.micros⟩

instance (d e : DateTime) : Decidable (d ≤ e) :=
  inferInstanceAs (Decidable (d.micros ≤ e.micros))

instance (d e : DateTime) : Decidable (d < e) :=
  inferInstanceAs (Decidable (d.micros < e.micros))

/-- The moment a count of microseconds after the base date names, where a
`datetime` can hold it. -/
def ofMicros (micros : Int) : Except PyExc DateTime :=
  if h : minMoment ≤ micros ∧ micros ≤ maxMoment then .ok ⟨micros, h⟩
  else .error .overflowError

/-- `datetime + timedelta`. -/
def add (d : DateTime) (delta : Int) : Except PyExc DateTime := ofMicros (d.micros + delta)

/-- `moment.replace(second=0, microsecond=0)`, in UTC. -/
def truncateToMinute (d : DateTime) : DateTime where
  micros := d.micros / microsPerMinute * microsPerMinute
  inRange := by
    have h := d.inRange
    simp only [minMoment, maxMoment, microsPerMinute, microsPerDay, microsPerHour,
      microsPerSecond] at h ⊢
    omega

end DateTime

/-- `BASE_DATE`, the instant OWID dates are counted from. -/
def baseDate : DateTime := ⟨0, by decide⟩

/-- `MAXIMUM_MINUTES`, the days of the span up to `datetime.max` in minutes and the
whole minutes of what is left over. -/
def maximumMinutes : Nat :=
  ((maxMoment / microsPerDay) * 1440 + (maxMoment % microsPerDay) / microsPerMinute).toNat

theorem maximumMinutes_eq : maximumMinutes = 4197074399 := by decide

/-- The moment a whole number of minutes after the base date. -/
def atMinute (minutes : Nat) (h : minutes ≤ maximumMinutes) : DateTime where
  micros := minutes * microsPerMinute
  inRange := by
    rw [maximumMinutes_eq] at h
    simp only [minMoment, maxMoment, microsPerMinute, microsPerDay, microsPerHour,
      microsPerSecond]
    omega

/-- `BASE_DATE + timedelta(minutes=minutes)` stays in range up to
`MAXIMUM_MINUTES`. -/
theorem baseDate_add_minutes {minutes : Nat} (h : minutes ≤ maximumMinutes) :
    baseDate.add (minutes * microsPerMinute) = .ok (atMinute minutes h) := by
  have hr := (atMinute minutes h).inRange
  simp only [DateTime.add, DateTime.ofMicros, baseDate, Int.zero_add]
  exact dif_pos hr

/-- `MAXIMUM_MINUTES` is tight: one minute more and the addition overflows. -/
theorem baseDate_add_minutes_overflow {minutes : Nat} (h : maximumMinutes < minutes) :
    baseDate.add (minutes * microsPerMinute) = .error .overflowError := by
  rw [maximumMinutes_eq] at h
  simp only [DateTime.add, DateTime.ofMicros, baseDate, Int.zero_add]
  refine dif_neg fun hr => ?_
  simp only [minMoment, maxMoment, microsPerMinute, microsPerDay, microsPerHour,
    microsPerSecond] at hr
  omega

/-- The whole minutes of a `timedelta`, as `int(delta.total_seconds() // 60)`. -/
def wholeMinutes (delta : Int) : Int :=
  (Lib.Double.ofQuotient delta 1000000).floorDiv 60

/-- `minutes_since_base`: the whole minutes from the base date, or -1 where the
count does not fit the four byte field. -/
def minutesSinceBase (date : DateTime) : Int :=
  let minutes := wholeMinutes (date.micros - baseDate.micros)
  if minutes < 0 ∨ minutes > 0xFFFFFFFF then -1 else minutes

theorem microsPerMinute_pos : 0 < microsPerMinute := by decide

theorem mul_microsPerMinute_le_iff {a b : Int} :
    a * microsPerMinute ≤ b * microsPerMinute ↔ a ≤ b :=
  Int.mul_le_mul_right microsPerMinute_pos

theorem mul_microsPerMinute_lt_iff {a b : Int} :
    a * microsPerMinute < b * microsPerMinute ↔ a < b :=
  Int.mul_lt_mul_right microsPerMinute_pos

/-- A moment in an earlier minute is earlier. -/
theorem DateTime.lt_of_minute_lt {d e : DateTime}
    (h : d.micros / microsPerMinute < e.micros / microsPerMinute) : d < e := by
  refine Int.not_le.mp ?_
  intro hle
  exact absurd (Int.ediv_le_ediv microsPerMinute_pos hle) (Int.not_le.mpr h)

/-- A moment on a whole minute is in that minute, whichever side of the base date. -/
theorem ediv_microsPerMinute {date : DateTime} {minutes : Int}
    (h : date.micros = minutes * microsPerMinute) : date.micros / microsPerMinute = minutes := by
  rw [h]
  exact Int.mul_ediv_cancel _ (Int.ne_of_gt microsPerMinute_pos)

/-! ## The count of minutes -/

/-- The count reaches every minute that has begun. -/
theorem le_wholeMinutes {delta : Int} {minutes : Nat} (h : minutes * microsPerMinute ≤ delta) :
    minutes ≤ wholeMinutes delta := by
  obtain ⟨n, rfl⟩ := Int.eq_ofNat_of_zero_le
    (Int.le_trans (Int.mul_nonneg (Int.natCast_nonneg minutes) (by decide)) h)
  apply Lib.Double.le_floorDiv (by decide) (by decide)
  simp only [microsPerMinute, microsPerSecond] at h ⊢
  omega

/-- The count stops at a minute that is not over. -/
theorem wholeMinutes_le {delta : Int} {minutes : Nat} (hdelta : 0 ≤ delta)
    (h : delta ≤ minutes * microsPerMinute) : wholeMinutes delta ≤ minutes := by
  obtain ⟨n, rfl⟩ := Int.eq_ofNat_of_zero_le hdelta
  apply Lib.Double.floorDiv_le (by decide)
  simp only [microsPerMinute, microsPerSecond] at h ⊢
  omega

theorem wholeMinutes_neg {delta : Int} (h : delta < 0) : wholeMinutes delta < 0 :=
  Lib.Double.floorDiv_neg h (by decide) (by decide)

theorem wholeMinutes_nonneg {delta : Int} (h : 0 ≤ delta) : 0 ≤ wholeMinutes delta :=
  le_wholeMinutes (by simpa using h : ((0 : Nat) : Int) * microsPerMinute ≤ delta)

theorem wholeMinutes_mono {delta delta' : Int} (hdelta : 0 ≤ delta) (h : delta ≤ delta') :
    wholeMinutes delta ≤ wholeMinutes delta' := by
  obtain ⟨n, rfl⟩ := Int.eq_ofNat_of_zero_le hdelta
  obtain ⟨n', rfl⟩ := Int.eq_ofNat_of_zero_le (Int.le_trans hdelta h)
  exact Lib.Double.floorDiv_mono (by decide) (by decide) (Int.ofNat_le.mp h)

/-- A whole number of seconds is counted exactly. -/
theorem wholeMinutes_seconds {delta : Int} (hdelta : 0 ≤ delta) (h : microsPerSecond ∣ delta) :
    wholeMinutes delta = delta / microsPerMinute := by
  obtain ⟨seconds, rfl⟩ := h
  obtain ⟨n, rfl⟩ := Int.eq_ofNat_of_zero_le
    (Int.nonneg_of_mul_nonneg_right hdelta (by decide : (0 : Int) < microsPerSecond))
  have hcount := Lib.Double.floorDiv_mul (d := 1000000) (by decide) 60 n
  have hsame : microsPerSecond * (n : Int) = ((n * 1000000 : Nat) : Int) := by
    simp only [microsPerSecond]
    omega
  rw [wholeMinutes, hsame, hcount]
  simp only [microsPerMinute, microsPerSecond]
  omega

theorem wholeMinutes_of_whole {minutes : Nat} :
    wholeMinutes (minutes * microsPerMinute) = minutes := by
  rw [wholeMinutes_seconds]
  · exact Int.mul_ediv_cancel _ (Int.ne_of_gt microsPerMinute_pos)
  · exact Int.mul_nonneg (Int.natCast_nonneg minutes) (Int.le_of_lt microsPerMinute_pos)
  · exact Int.dvd_mul_of_dvd_right (by decide)

/-- A minute that is counted has begun, or does within fifteen microseconds. -/
theorem wholeMinutes_near {delta : Int} {minutes : Nat} (hdelta : 0 < delta)
    (hmax : delta ≤ maxMoment) (h : minutes ≤ wholeMinutes delta) :
    minutes * microsPerMinute ≤ delta + 15 := by
  obtain ⟨n, rfl⟩ := Int.eq_ofNat_of_zero_le (Int.le_of_lt hdelta)
  have hnear := Lib.Double.floorDiv_near (k := 14) (by decide) (by decide)
    (Int.natCast_pos.mp hdelta) (by
      simp only [maxMoment, microsPerDay, microsPerHour, microsPerMinute, microsPerSecond] at hmax ⊢
      omega) h
  simp only [microsPerMinute, microsPerSecond] at hnear ⊢
  omega

/-- Before `2 ^ 34` seconds are over, which is in the year 2564, the count is exact. -/
theorem wholeMinutes_early {delta : Int} (hdelta : 0 ≤ delta)
    (hearly : delta < 2 ^ 34 * microsPerSecond) : wholeMinutes delta = delta / microsPerMinute := by
  obtain ⟨minutes, hminutes⟩ := Int.eq_ofNat_of_zero_le (wholeMinutes_nonneg hdelta)
  obtain ⟨n, rfl⟩ := Int.eq_ofNat_of_zero_le hdelta
  have hbegun : ((n / 60000000 : Nat) : Int) ≤ wholeMinutes n := by
    apply le_wholeMinutes
    simp only [microsPerMinute, microsPerSecond]
    omega
  have hcounted : minutes * microsPerMinute ≤ (n : Int) := by
    rcases Nat.eq_zero_or_pos n with rfl | hn
    · have hzero : wholeMinutes 0 ≤ (0 : Nat) := wholeMinutes_le (Int.le_refl _) (by decide)
      have : minutes = 0 := by
        rw [Int.natCast_zero] at hminutes
        omega
      rw [this]
      decide
    · have hnear := Lib.Double.floorDiv_near (k := 18) (by decide) (by decide) hn
        (by simp only [microsPerSecond] at hearly; omega) (Int.le_of_eq hminutes.symm)
      simp only [microsPerMinute, microsPerSecond]
      omega
  simp only [microsPerMinute, microsPerSecond] at hcounted ⊢
  omega

/-- The count from the base date on, because no `datetime` lies past the field. -/
theorem minutesSinceBase_of_nonneg {date : DateTime} (h : 0 ≤ date.micros) :
    minutesSinceBase date = wholeMinutes date.micros := by
  have hr := date.inRange.2
  have hle : wholeMinutes date.micros ≤ (4197074400 : Nat) := by
    apply wholeMinutes_le h
    simp only [maxMoment, microsPerMinute, microsPerDay, microsPerHour, microsPerSecond] at hr ⊢
    omega
  have hnonneg := wholeMinutes_nonneg h
  simp only [minutesSinceBase, baseDate, Int.sub_zero]
  exact if_neg (by omega)

theorem minutesSinceBase_of_neg {date : DateTime} (h : date.micros < 0) :
    minutesSinceBase date = -1 := by
  simp only [minutesSinceBase, baseDate, Int.sub_zero]
  exact if_pos (Or.inl (wholeMinutes_neg h))

/-- A moment on a whole second from the base date on counts as the minute it is in. -/
theorem minutesSinceBase_seconds {date : DateTime} (h : 0 ≤ date.micros)
    (hseconds : microsPerSecond ∣ date.micros) :
    minutesSinceBase date = date.micros / microsPerMinute := by
  rw [minutesSinceBase_of_nonneg h, wholeMinutes_seconds h hseconds]

/-- A moment on a whole minute from the base date on counts as that minute. -/
theorem minutesSinceBase_of_whole {date : DateTime} {minutes : Nat}
    (h : date.micros = minutes * microsPerMinute) : minutesSinceBase date = minutes := by
  rw [minutesSinceBase_of_nonneg, h, wholeMinutes_of_whole]
  rw [h]
  exact Int.mul_nonneg (Int.natCast_nonneg minutes) (Int.le_of_lt microsPerMinute_pos)

theorem minutesSinceBase_whole {date : DateTime} (h : 0 ≤ date.micros)
    (hwhole : date.micros % microsPerMinute = 0) :
    minutesSinceBase date = date.micros / microsPerMinute :=
  minutesSinceBase_seconds h
    (Int.dvd_trans (Int.dvd_mul_left 60 microsPerSecond) (Int.dvd_of_emod_eq_zero hwhole))

@[simp] theorem minutesSinceBase_atMinute {minutes : Nat} (h : minutes ≤ maximumMinutes) :
    minutesSinceBase (atMinute minutes h) = minutes := minutesSinceBase_of_whole rfl

theorem minutesSinceBase_mono {d e : DateTime} (h : d ≤ e) :
    minutesSinceBase d ≤ minutesSinceBase e := by
  have hle : d.micros ≤ e.micros := h
  by_cases hd : d.micros < 0
  · rw [minutesSinceBase_of_neg hd]
    by_cases he : e.micros < 0
    · exact Int.le_of_eq (minutesSinceBase_of_neg he).symm
    · rw [minutesSinceBase_of_nonneg (Int.not_lt.mp he)]
      have := wholeMinutes_nonneg (Int.not_lt.mp he)
      omega
  · rw [minutesSinceBase_of_nonneg (Int.not_lt.mp hd), minutesSinceBase_of_nonneg (by omega)]
    exact wholeMinutes_mono (Int.not_lt.mp hd) hle

/-- The last moments of all are counted as the minute after them. -/
theorem minutesSinceBase_le (date : DateTime) :
    minutesSinceBase date ≤ (maximumMinutes : Int) + 1 := by
  by_cases hneg : date.micros < 0
  · rw [minutesSinceBase_of_neg hneg]
    omega
  · have hr := date.inRange.2
    rw [minutesSinceBase_of_nonneg (Int.not_lt.mp hneg), maximumMinutes_eq]
    show wholeMinutes date.micros ≤ (4197074400 : Nat)
    apply wholeMinutes_le (Int.not_lt.mp hneg)
    simp only [maxMoment, microsPerMinute, microsPerDay, microsPerHour, microsPerSecond] at hr ⊢
    omega

/-- **How far the count is from the minute the moment is in**: from the base date on it is
that minute, or the next where the moment is within fifteen microseconds of it, and before
`2 ^ 34` seconds are over it is that minute. -/
theorem minutesSinceBase_near {date : DateTime} (h : 0 ≤ date.micros) :
    date.micros / microsPerMinute ≤ minutesSinceBase date ∧
      minutesSinceBase date ≤ (date.micros + 15) / microsPerMinute ∧
      (date.micros < 2 ^ 34 * microsPerSecond →
        minutesSinceBase date = date.micros / microsPerMinute) := by
  rw [minutesSinceBase_of_nonneg h]
  refine ⟨?_, ?_, wholeMinutes_early h⟩
  · obtain ⟨minutes, hminutes⟩ := Int.eq_ofNat_of_zero_le
      (Int.ediv_nonneg h (Int.le_of_lt microsPerMinute_pos))
    rw [hminutes]
    apply le_wholeMinutes
    rw [← hminutes]
    exact Int.ediv_mul_le _ (Int.ne_of_gt microsPerMinute_pos)
  · obtain ⟨minutes, hminutes⟩ := Int.eq_ofNat_of_zero_le (wholeMinutes_nonneg h)
    rw [hminutes]
    apply (Int.le_ediv_iff_mul_le microsPerMinute_pos).mpr
    rcases Int.lt_or_eq_of_le h with hpos | hzero
    · exact wholeMinutes_near hpos date.inRange.2 (Int.le_of_eq hminutes.symm)
    · have hle : wholeMinutes date.micros ≤ (0 : Nat) :=
        wholeMinutes_le h (Int.le_of_eq hzero.symm)
      have : minutes = 0 := by omega
      rw [this, ← hzero]
      decide

end OpenWebId
