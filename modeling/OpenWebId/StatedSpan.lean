import OpenWebId.FetchTotal

/-!
# The span a client reads out of an answer

An answer states moments and the client counts minutes: each moment is counted as a minute
(`minutesSinceBase`), a start before the base date is dropped, and the pair of minutes is then
read as a span, or as a start with no end. `stated_covers` is what comes out of it where the
start can be counted and the end counts as a later minute: the span is known and covers the
minutes from the start's own up to the end's, the end's not among them.

`stated_before_base` is the case the code leaves out on purpose. A start before the
count begins has no minute, and the answer is read as stating no span.
-/

namespace OpenWebId

namespace Fetch

variable {σ κ : Type}

/-- A moment from the base date on is counted. -/
theorem minutesOrNone_of_le {moment : DateTime} (h : baseDate ≤ moment) :
    minutesOrNone (some moment) = some (minutesSinceBase moment) := by
  have hnonneg : 0 ≤ moment.micros := h
  have hcount := wholeMinutes_nonneg hnonneg
  simp only [minutesOrNone, minutesSinceBase_of_nonneg hnonneg]
  exact if_pos hcount

/-- A whole second from the base date on is counted by its minute. -/
theorem minutesOrNone_seconds {moment : DateTime} (h : baseDate ≤ moment)
    (hseconds : microsPerSecond ∣ moment.micros) :
    minutesOrNone (some moment) = some (moment.micros / microsPerMinute) := by
  rw [minutesOrNone_of_le h, minutesSinceBase_seconds h hseconds]

theorem minutesOrNone_whole {moment : DateTime} (h : baseDate ≤ moment)
    (hwhole : moment.micros % microsPerMinute = 0) :
    minutesOrNone (some moment) = some (moment.micros / microsPerMinute) := by
  rw [minutesOrNone_of_le h, minutesSinceBase_whole h hwhole]

theorem minutesOrNone_baseDate : minutesOrNone (some baseDate) = some 0 := by decide

theorem minutesOrNone_of_lt {moment : DateTime} (h : moment < baseDate) :
    minutesOrNone (some moment) = none := by
  have hneg : moment.micros < 0 := h
  simp only [minutesOrNone, minutesSinceBase_of_neg hneg]
  exact if_neg (by decide)

/-- **The span read is the span stated, minute by minute.** -/
theorem stated_covers {pem : String} {validFrom : DateTime} {validTo : Option DateTime}
    (hbase : baseDate ≤ validFrom)
    (hlater : ∀ stop, validTo = some stop → minutesSinceBase validFrom < minutesSinceBase stop)
    {minute : Int} (hminute : minute ≤ lastMinute) :
    (stated pem (minutesOrNone (some validFrom)) (minutesOrNone validTo)).known = true ∧
      ((stated pem (minutesOrNone (some validFrom)) (minutesOrNone validTo)).covers minute = true ↔
        minutesSinceBase validFrom ≤ minute ∧
          ∀ stop, validTo = some stop → minute < minutesSinceBase stop) := by
  rw [minutesOrNone_of_le hbase]
  cases validTo with
  | none =>
    refine ⟨rfl, ?_⟩
    simp only [minutesOrNone, stated, KeyAnswer.covers, Bool.true_and]
    refine ⟨fun h => ⟨(of_decide_eq_true h).1, ?_⟩, fun h => decide_eq_true ⟨h.1, hminute⟩⟩
    intro stop hstop
    cases hstop
  | some stop =>
    have hafter := hlater stop rfl
    -- the end is counted as later than the start, so it is later, and counted as well
    have hstop : baseDate ≤ stop := by
      refine Int.le_trans hbase (Int.le_of_lt (Int.not_le.mp fun hle => ?_))
      exact absurd (minutesSinceBase_mono hle) (Int.not_le.mpr hafter)
    rw [minutesOrNone_of_le hstop]
    simp only [stated, if_pos hafter, KeyAnswer.covers, Bool.true_and, decide_eq_true_iff,
      Option.some.injEq, forall_eq', true_and]
    omega

/-- A start before the base date is not counted, and no span is read. -/
theorem stated_before_base {pem : String} {validFrom : DateTime} {validTo : Option DateTime}
    (hbase : validFrom < baseDate) :
    (stated pem (minutesOrNone (some validFrom)) (minutesOrNone validTo)).known = false := by
  rw [minutesOrNone_of_lt hbase]
  rfl

/-- An accepted answer is read as its key and the minutes of its moments. -/
theorem parseAnswer_of_valid {L : Stdlib} {P : Provider σ κ} {body pem : String} {answer : Json}
    {validFrom validTo : Option DateTime} (hload : L.loads body = .ok answer)
    (hvalid : Endpoints.validatePublicKeyAnswer L P answer none = .ok (pem, validFrom, validTo))
    (domain : String) :
    parseAnswer L P body domain = .ok (pem, minutesOrNone validFrom, minutesOrNone validTo) := by
  simp only [parseAnswer, hload, hvalid]

/-- **The client reads the span the creator stated**, in minutes as it counts them. An
accepted answer with a start from the base date on, and with no end or one that counts as a
later minute, is read as a known span that covers a minute exactly when the minute is from the
start's own on and before the end's. The count of each moment is the minute it is in, or the
next where the moment is within fifteen microseconds of it and past the first `2 ^ 34` seconds.
An answer with a start before the base date is read as stating no span. -/
theorem parseAnswer_stated {L : Stdlib} {P : Provider σ κ} {body pem : String} {answer : Json}
    {validFrom : DateTime} {validTo : Option DateTime} (hload : L.loads body = .ok answer)
    (hvalid : Endpoints.validatePublicKeyAnswer L P answer none =
      .ok (pem, some validFrom, validTo)) (domain : String) :
    ∃ start stop, parseAnswer L P body domain = .ok (pem, start, stop) ∧
      (validFrom < baseDate → (stated pem start stop).known = false) ∧
      (baseDate ≤ validFrom →
        (∀ moment, moment = validFrom ∨ validTo = some moment →
          moment.micros / microsPerMinute ≤ minutesSinceBase moment ∧
          minutesSinceBase moment ≤ (moment.micros + 15) / microsPerMinute ∧
          (moment.micros < 2 ^ 34 * microsPerSecond →
            minutesSinceBase moment = moment.micros / microsPerMinute)) ∧
        ((∀ stop, validTo = some stop → minutesSinceBase validFrom < minutesSinceBase stop) →
          (stated pem start stop).known = true ∧
            ∀ minute : Int, 0 ≤ minute → minute ≤ lastMinute →
              ((stated pem start stop).covers minute = true ↔
                minutesSinceBase validFrom ≤ minute ∧
                  ∀ stop, validTo = some stop → minute < minutesSinceBase stop))) := by
  refine ⟨_, _, parseAnswer_of_valid hload hvalid domain, stated_before_base, ?_⟩
  intro hbase
  constructor
  · intro moment hmoment
    apply minutesSinceBase_near
    rcases hmoment with rfl | rfl
    · exact hbase
    · -- an accepted answer ends after it starts
      obtain ⟨-, -, -, -, -, hspan⟩ := Endpoints.validate_ok hvalid
      obtain ⟨start, hstart, hlt⟩ := Endpoints.checkSpan_ok hspan rfl
      cases hstart
      exact Int.le_trans hbase (Int.le_of_lt hlt)
  · intro hlater
    refine ⟨(stated_covers hbase hlater (Int.le_refl _)).1, ?_⟩
    intro minute _ hminute
    exact (stated_covers hbase hlater hminute).2

/-- The standard library on one answer: every text is read as it, and each of the moments
named is read as it is in UTC. -/
def tableStdlib (answer : Json) (moments : List (String × DateTime)) : Stdlib where
  loads _ := .ok answer
  dumps _ := ""
  fromisoformat text := (moments.lookup text).map fun clock => ⟨clock, some 0⟩
  strftime _ := ""

/-- An answer with the key `k`, a start and, where there is one, an end. -/
def spanAnswer (validFrom : String) (validTo : Option String) : Json :=
  .obj (("publicKey", .str "k") :: ("validFrom", .str validFrom) ::
    (validTo.map fun text => ("validTo", .str text)).toList)

/-- The last microsecond of the first minute of 2600, and a moment two minutes later. -/
def start2600 : DateTime := ⟨305051040 * 60000000 + 59999999, by decide⟩

def stop2600 : DateTime := ⟨305051043 * 60000000 + 250000, by decide⟩

/-- The start is counted as the minute after the one it is in, and the end by its own. -/
theorem parseAnswer_stated_2600 :
    ∃ start stop, parseAnswer (tableStdlib
        (spanAnswer "2600-01-01T00:00:59.999999Z" (some "2600-01-01T00:03:00.25Z"))
        [("2600-01-01T00:00:59.999999+00:00", start2600),
          ("2600-01-01T00:03:00.25+00:00", stop2600)]) Provider.plain "" "a.b" =
        .ok ("k", start, stop) ∧ (stated "k" start stop).known = true ∧
      ((stated "k" start stop).covers 305051040 = true ↔ False) ∧
      ((stated "k" start stop).covers 305051041 = true ↔ True) ∧
      ((stated "k" start stop).covers 305051042 = true ↔ True) ∧
      ((stated "k" start stop).covers 305051043 = true ↔ False) := by
  let answer := spanAnswer "2600-01-01T00:00:59.999999Z" (some "2600-01-01T00:03:00.25Z")
  let L := tableStdlib answer [("2600-01-01T00:00:59.999999+00:00", start2600),
    ("2600-01-01T00:03:00.25+00:00", stop2600)]
  have hload : L.loads "" = .ok answer := rfl
  have hvalid : Endpoints.validatePublicKeyAnswer L Provider.plain answer none =
      .ok ("k", some start2600, some stop2600) := rfl
  have hstart : minutesSinceBase start2600 = 305051041 := by decide
  have hstop : minutesSinceBase stop2600 = 305051043 := by decide
  obtain ⟨start, stop, hparse, -, hknown⟩ := parseAnswer_stated hload hvalid "a.b"
  have hcounted := (hknown (by decide)).2
  rw [hstart] at hcounted
  simp only [Option.some.injEq, forall_eq', hstop] at hcounted
  obtain ⟨hread, hcovers⟩ := hcounted (by decide)
  refine ⟨start, stop, hparse, hread, ?_, ?_, ?_, ?_⟩ <;>
    rw [hcovers _ (by decide) (by decide)] <;> decide

/-- The answer is read as a known span of exactly the minutes whose moments are in it. -/
def ReadsExactly (L : Stdlib) (P : Provider σ κ) (body domain pem : String)
    (validFrom : DateTime) (validTo : Option DateTime) : Prop :=
  ∃ start stop, parseAnswer L P body domain = .ok (pem, start, stop) ∧
    (stated pem start stop).known = true ∧
    ∀ minute : Int, 0 ≤ minute → minute ≤ lastMinute →
      ((stated pem start stop).covers minute = true ↔
        validFrom.micros ≤ minute * microsPerMinute ∧
          ∀ stop, validTo = some stop → minute * microsPerMinute < stop.micros)

/-- An answer with these moments is accepted, and not read exactly. -/
def Misread (validFrom : String) (start : DateTime) (validTo : Option String)
    (stop : Option DateTime) (table : List (String × DateTime)) : Prop :=
  let answer := spanAnswer validFrom validTo
  Endpoints.validatePublicKeyAnswer (tableStdlib answer table) Provider.plain answer none =
      .ok ("k", some start, stop) ∧
    ¬ ReadsExactly (tableStdlib answer table) Provider.plain "" "a.b" "k" start stop

/-- What refutes an exact reading: the answer is read without a known span, or a minute is
covered that should not be, or one is not that should. -/
theorem misread_of {validFrom : String} {start : DateTime} {validTo : Option String}
    {stop : Option DateTime} {table : List (String × DateTime)}
    (hvalid : Endpoints.validatePublicKeyAnswer (tableStdlib (spanAnswer validFrom validTo) table)
      Provider.plain (spanAnswer validFrom validTo) none = .ok ("k", some start, stop))
    (minute : Int) (hminute : 0 ≤ minute ∧ minute ≤ lastMinute)
    (hwrong : (stated "k" (minutesOrNone (some start)) (minutesOrNone stop)).known = true →
      ¬ ((stated "k" (minutesOrNone (some start)) (minutesOrNone stop)).covers minute = true ↔
        start.micros ≤ minute * microsPerMinute ∧
          ∀ moment, stop = some moment → minute * microsPerMinute < moment.micros)) :
    Misread validFrom start validTo stop table := by
  refine ⟨hvalid, ?_⟩
  rintro ⟨first, last, hparse, hknown, hcovers⟩
  rw [parseAnswer_of_valid rfl hvalid] at hparse
  cases hparse
  exact hwrong hknown (hcovers minute hminute.1 hminute.2)

/-- A start before the base date is not read as one; a start within a minute is read as the
beginning of it and an end within a minute as well, so a minute too many is covered and one
too few; and an end in the start's own minute is not read. -/
theorem parseAnswer_notExact :
    Misread "2019-12-31T23:59:00Z" ⟨-60000000, by decide⟩ none none
        [("2019-12-31T23:59:00+00:00", ⟨-60000000, by decide⟩)] ∧
      Misread "2020-01-01T00:00:30Z" ⟨30000000, by decide⟩ none none
        [("2020-01-01T00:00:30+00:00", ⟨30000000, by decide⟩)] ∧
      Misread "2020-01-01T00:05:00Z" ⟨300000000, by decide⟩ (some "2020-01-01T00:10:30Z")
        (some ⟨630000000, by decide⟩) [("2020-01-01T00:05:00+00:00", ⟨300000000, by decide⟩),
          ("2020-01-01T00:10:30+00:00", ⟨630000000, by decide⟩)] ∧
      Misread "2020-01-01T00:10:00Z" ⟨600000000, by decide⟩ (some "2020-01-01T00:10:30Z")
        (some ⟨630000000, by decide⟩) [("2020-01-01T00:10:00+00:00", ⟨600000000, by decide⟩),
          ("2020-01-01T00:10:30+00:00", ⟨630000000, by decide⟩)] := by
  refine ⟨misread_of rfl 0 (by decide) ?_, misread_of rfl 0 (by decide) ?_,
    misread_of rfl 10 (by decide) ?_, misread_of rfl 20 (by decide) ?_⟩
  · decide
  · decide
  · decide
  · decide

end Fetch

end OpenWebId
