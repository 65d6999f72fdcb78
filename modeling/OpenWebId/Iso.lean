import OpenWebId.Endpoints
import OpenWebId.Lib.Calendar

/-!
# The text of a moment

`datetime.strftime` in the one format the end point uses, and `datetime.fromisoformat` on
the texts that come of it: a date, a `T`, a clock to the second and an offset, which every
version of Python reads the same. `ReadsMoments` is a standard library that agrees with
them there.

The format has no place for the fraction of a second, so what is read back is the moment
the second began, `truncateToSecond`.
-/

namespace OpenWebId

open Lib (digitsOf number Date dateOf dayOf)

/-- The moment the second of a moment began. -/
def DateTime.truncateToSecond (d : DateTime) : DateTime where
  micros := d.micros / microsPerSecond * microsPerSecond
  inRange := by
    have h := d.inRange
    simp only [minMoment, maxMoment, microsPerMinute, microsPerDay, microsPerHour,
      microsPerSecond] at h ⊢
    omega

namespace Iso

/-- The whole seconds from the start of the year 1. -/
def secondsOf (d : DateTime) : Nat := ((d.micros - minMoment) / microsPerSecond).toNat

/-- A date, as `%Y-%m-%d` writes it from the year 1000 on. -/
def dateText (date : Date) : List Char :=
  digitsOf 4 date.year ++ '-' :: (digitsOf 2 date.month ++ '-' :: digitsOf 2 date.day)

/-- A count of the seconds of a day, as `%H:%M:%S` writes it. -/
def clockText (seconds : Nat) : List Char :=
  digitsOf 2 (seconds / 3600) ++ ':' :: (digitsOf 2 (seconds % 3600 / 60) ++
    ':' :: digitsOf 2 (seconds % 60))

/-- The date and clock of a moment. -/
def momentText (d : DateTime) : List Char :=
  dateText (dateOf (secondsOf d / 86400)) ++ 'T' :: clockText (secondsOf d % 86400)

/-- `strftime("%Y-%m-%dT%H:%M:%SZ")` of a moment in UTC. -/
def strftime (d : DateTime) : String := String.ofList (momentText d ++ ['Z'])

/-- The text after one character that must come next. -/
def expect (c : Char) : List Char → Option (List Char)
  | [] => none
  | d :: rest => if d = c then some rest else none

/-- A date at the front of a text. -/
def readDate (text : List Char) : Option (Date × List Char) := do
  let (year, rest) ← number 4 text
  let rest ← expect '-' rest
  let (month, rest) ← number 2 rest
  let rest ← expect '-' rest
  let (day, rest) ← number 2 rest
  let date ← Date.ofNumbers year month day
  some (date, rest)

/-- A clock at the front of a text, in seconds of the day. -/
def readClock (text : List Char) : Option (Nat × List Char) := do
  let (hour, rest) ← number 2 text
  let rest ← expect ':' rest
  let (minute, rest) ← number 2 rest
  let rest ← expect ':' rest
  let (second, rest) ← number 2 rest
  if hour < 24 ∧ minute < 60 ∧ second < 60 then some (hour * 3600 + minute * 60 + second, rest)
  else none

/-- An offset from UTC in hours and minutes, in microseconds, and nothing after it. -/
def readOffset : List Char → Option Int
  | [] => none
  | sign :: text => do
    let (hours, rest) ← number 2 text
    let rest ← expect ':' rest
    let (minutes, rest) ← number 2 rest
    if rest = [] ∧ hours < 24 ∧ minutes < 60 then
      if sign = '+' then some (hours * microsPerHour + minutes * microsPerMinute)
      else if sign = '-' then some (-(hours * microsPerHour + minutes * microsPerMinute))
      else none
    else none

/-- `datetime.fromisoformat` of a date, a `T`, a clock to the second and an offset. It says
nothing of the other forms that a version of Python may read. -/
def fromisoformat (text : String) : Option IsoMoment := do
  let (date, rest) ← readDate text.toList
  let rest ← expect 'T' rest
  let (seconds, rest) ← readClock rest
  let offset ← readOffset rest
  let counted : Int := (dayOf date * 86400 + seconds : Nat)
  let clock ← (DateTime.ofMicros (minMoment + counted * microsPerSecond)).toOption
  some ⟨clock, some offset⟩

/-! ## What was written reads back -/

@[simp] theorem expect_self (c : Char) (rest : List Char) : expect c (c :: rest) = some rest :=
  if_pos rfl

theorem readDate_dateText {date : Date} (h : date.year ≤ 9999) (rest : List Char) :
    readDate (dateText date ++ rest) = some (date, rest) := by
  have hyear : date.year < 10 ^ 4 := Nat.lt_succ_of_le h
  have hmonth : date.month < 10 ^ 2 := by
    have hle := date.inYear.2
    omega
  have hday : date.day < 10 ^ 2 := by
    have hle := date.day_le
    omega
  unfold readDate dateText
  simp only [List.append_assoc, List.cons_append, Lib.number_digitsOf hyear,
    Lib.number_digitsOf hmonth, Lib.number_digitsOf hday, expect_self, date.ofNumbers_self,
    Option.bind_eq_bind, Option.bind_some]

theorem readClock_clockText {seconds : Nat} (h : seconds < 86400) (rest : List Char) :
    readClock (clockText seconds ++ rest) = some (seconds, rest) := by
  have hhour : seconds / 3600 < 10 ^ 2 := by omega
  have hminute : seconds % 3600 / 60 < 10 ^ 2 := by omega
  have hsecond : seconds % 60 < 10 ^ 2 := by omega
  have hclock : seconds / 3600 < 24 ∧ seconds % 3600 / 60 < 60 ∧ seconds % 60 < 60 := by omega
  have hcount : seconds / 3600 * 3600 + seconds % 3600 / 60 * 60 + seconds % 60 = seconds := by
    omega
  unfold readClock clockText
  simp only [List.append_assoc, List.cons_append, Lib.number_digitsOf hhour,
    Lib.number_digitsOf hminute, Lib.number_digitsOf hsecond, expect_self,
    Option.bind_eq_bind, Option.bind_some]
  rw [if_pos hclock, hcount]

theorem readOffset_utc : readOffset "+00:00".toList = some 0 := by decide

/-- A text is read part by part. -/
theorem fromisoformat_of {text : String} {date : Date} {seconds : Nat} {offset : Int}
    {clocked zone : List Char} {clock : DateTime}
    (hdate : readDate text.toList = some (date, 'T' :: clocked))
    (hclock : readClock clocked = some (seconds, zone)) (hoffset : readOffset zone = some offset)
    (hmoment : DateTime.ofMicros (minMoment +
      ((dayOf date * 86400 + seconds : Nat) : Int) * microsPerSecond) = .ok clock) :
    fromisoformat text = some ⟨clock, some offset⟩ := by
  unfold fromisoformat
  simp only [hdate, expect_self, hclock, hoffset, hmoment, Option.bind_eq_bind, Option.bind_some]
  rfl

/-- The seconds of a moment count to when its second began. -/
theorem ofMicros_secondsOf (d : DateTime) :
    DateTime.ofMicros (minMoment + (secondsOf d : Int) * microsPerSecond) =
      .ok d.truncateToSecond := by
  have hin := d.truncateToSecond.inRange
  have hmicros : minMoment + (secondsOf d : Int) * microsPerSecond =
      d.truncateToSecond.micros := by
    have h := d.inRange
    simp only [secondsOf, DateTime.truncateToSecond, minMoment, maxMoment, microsPerMinute,
      microsPerDay, microsPerHour, microsPerSecond] at h ⊢
    omega
  rw [hmicros]
  exact dif_pos hin

/-- No moment is past the year 9999. -/
theorem year_secondsOf_le (d : DateTime) : (dateOf (secondsOf d / 86400)).year ≤ 9999 := by
  refine Lib.year_dateOf_le ?_
  have hdays : Lib.daysBeforeYear 10000 = 3652059 := rfl
  have h := d.inRange
  simp only [secondsOf, hdays, minMoment, maxMoment, microsPerMinute, microsPerDay,
    microsPerHour, microsPerSecond] at h ⊢
  omega

/-- The text of a moment has no white space in it. -/
theorem isSpace_of_mem_momentText {d : DateTime} {c : Char} (h : c ∈ momentText d) :
    Lib.isSpace c = false := by
  have hdigits : ∀ width n, c ∈ digitsOf width n → Lib.isSpace c = false :=
    fun _ _ hmem => Lib.isSpace_of_isDigit (Lib.isDigit_of_mem_digitsOf hmem)
  simp only [momentText, dateText, clockText, List.mem_append, List.mem_cons] at h
  rcases h with (hyear | rfl | hmonth | rfl | hday) | rfl | hhour | rfl | hminute | rfl | hsecond
  · exact hdigits _ _ hyear
  · decide
  · exact hdigits _ _ hmonth
  · decide
  · exact hdigits _ _ hday
  · decide
  · exact hdigits _ _ hhour
  · decide
  · exact hdigits _ _ hminute
  · decide
  · exact hdigits _ _ hsecond

/-- The `Z` is written as the offset it means. -/
theorem isoText_strftime (d : DateTime) :
    Endpoints.isoText (strftime d) = String.ofList (momentText d ++ "+00:00".toList) := by
  have hstrip : Lib.strip (strftime d) = strftime d := by
    refine Lib.strip_eq_self ?_
    intro c hc
    rw [strftime, String.toList_ofList, List.mem_append] at hc
    rcases hc with hmoment | hz
    · exact isSpace_of_mem_momentText hmoment
    · rw [List.mem_singleton.mp hz]
      decide
  have hlast : (strftime d).toList.getLast? = some 'Z' := by
    rw [strftime, String.toList_ofList, List.getLast?_concat]
  have hfront : (strftime d).toList.dropLast = momentText d := by
    rw [strftime, String.toList_ofList, List.dropLast_concat]
  unfold Endpoints.isoText
  rw [hstrip, if_pos (Or.inl hlast), hfront, String.ofList_append, String.ofList_toList]

/-- **A moment written in text is read as the moment its second began.** -/
theorem fromisoformat_strftime (d : DateTime) :
    fromisoformat (Endpoints.isoText (strftime d)) = some ⟨d.truncateToSecond, some 0⟩ := by
  have hday : secondsOf d % 86400 < 86400 := Nat.mod_lt _ (by decide)
  have hcount : dayOf (dateOf (secondsOf d / 86400)) * 86400 + secondsOf d % 86400 =
      secondsOf d := by
    rw [Lib.dayOf_dateOf]
    exact Nat.div_add_mod' ..
  have hdate : readDate (momentText d ++ "+00:00".toList) = some (dateOf (secondsOf d / 86400),
      'T' :: (clockText (secondsOf d % 86400) ++ "+00:00".toList)) := by
    rw [momentText, List.append_assoc, List.cons_append, readDate_dateText (year_secondsOf_le d)]
  have hclock := readClock_clockText hday "+00:00".toList
  have hmoment := ofMicros_secondsOf d
  rw [← hcount] at hmoment
  rw [← String.toList_ofList (l := momentText d ++ "+00:00".toList)] at hdate
  rw [isoText_strftime]
  exact fromisoformat_of hdate hclock readOffset_utc hmoment

end Iso

/-- A standard library that writes and reads moments in these forms. -/
structure ReadsMoments (L : Stdlib) : Prop where
  /-- `strftime` writes the four digit years so. -/
  strftime : ∀ d, baseDate ≤ d → L.strftime d = Iso.strftime d
  fromisoformat : ∀ text moment, Iso.fromisoformat text = some moment →
    L.fromisoformat text = some moment

/-- A start that was written is read as the moment its second began. -/
theorem ReadsMoments.momentOf {L : Stdlib} (h : ReadsMoments L) {moment : DateTime}
    (hbase : baseDate ≤ moment) (field : String) :
    Endpoints.momentOf L (Endpoints.momentText L (some moment)) field =
      .ok (some moment.truncateToSecond) := by
  have hread := h.fromisoformat _ _ (Iso.fromisoformat_strftime moment)
  have hin := moment.truncateToSecond.inRange
  simp only [Endpoints.momentText, Endpoints.momentOf, h.strftime moment hbase, hread,
    astimezone, DateTime.ofMicros, Int.sub_zero]
  rw [dif_pos hin]
  rfl

end OpenWebId
