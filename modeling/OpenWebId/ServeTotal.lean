import OpenWebId.Rotation
import OpenWebId.ZonedEndpoint
import OpenWebId.ZonedTiling

/-!
# When the end point answers

A creator's answer passes through text before it is checked, and the text of a moment has
no fraction of a second: what is checked is the span from the second the key started in to
the second the next key starts in, against a moment that kept its own fraction. The choice of
the key compares `datetime`s in the zones they came in, and the check compares moments in UTC.
So a moment is answered where no key is chosen, or where the span of the one that is, to the
second, holds it (`Fits`).

Where the comparisons say what the moments do, that is everywhere but in the second a later key
starts in, before it has started (`fits_iff`). A date is otherwise refused or read as a count of
minutes, and the only way for that to raise is a count of more digits than `int` reads.
-/

namespace OpenWebId

variable {σ κ ζ : Type}

namespace Fetch

/-- A date parameter that is absent, empty, or a count of minutes of four bytes, and the
count. -/
inductive Counts : Endpoints.DateParam → Option Nat → Prop
  | absent : Counts .absent none
  | empty : Counts (.text "") none
  | int {n : Nat} (h : n ≤ 0xFFFFFFFF) : Counts (.int n) (some n)
  | text {s : String} (hne : s ≠ "") (hdigits : s.toList.all Char.isDigit = true)
      (h : Nat.ofDigitChars 10 s.toList 0 ≤ 0xFFFFFFFF) :
      Counts (.text s) (some (Nat.ofDigitChars 10 s.toList 0))

/-- Not a text of more characters than `int` reads digits. -/
def Short : Endpoints.DateParam → Prop
  | .text s => s.toList.length ≤ Lib.intMaxStrDigits
  | _ => True

instance : DecidablePred Short
  | .text s => inferInstanceAs (Decidable (s.toList.length ≤ Lib.intMaxStrDigits))
  | .absent | .bool _ | .int _ | .other => instDecidableTrue

/-! ## The date -/

/-- A count is read as itself, in four bytes or in the digits that `int` reads. -/
theorem minutesOf_counts {date : Endpoints.DateParam} {n : Nat} (hdate : Counts date (some n)) :
    Endpoints.minutesOf date = if Short date then .ok (some (n : Int)) else .error .valueError := by
  cases hdate with
  | int h =>
    have hshort : Short (.int n) := trivial
    have hrange : ¬ ((n : Int) < 0 ∨ (n : Int) > 0xFFFFFFFF) := by omega
    rw [if_pos hshort]
    simp only [Endpoints.minutesOf, if_neg hrange]
  | @text s hne hdigits h =>
    have hall : ∀ c ∈ s.toList, c.isDigit = true := List.all_eq_true.mp hdigits
    have hchars : s.toList ≠ [] := fun hnil => hne (String.toList_eq_nil_iff.mp hnil)
    have hrange : ¬ ((Nat.ofDigitChars 10 s.toList 0 : Int) < 0 ∨
        (Nat.ofDigitChars 10 s.toList 0 : Int) > 0xFFFFFFFF) := by omega
    simp only [Endpoints.minutesOf, if_pos (And.intro hne hdigits),
      Lib.unsignedOfText_of_isDigit hchars hall]
    by_cases hlong : s.toList.length ≤ Lib.intMaxStrDigits
    · have hshort : Short (.text s) := hlong
      rw [if_pos hlong, if_pos hshort]
      simp only [if_neg hrange]
    · have hlate : ¬ Short (.text s) := hlong
      rw [if_neg hlong, if_neg hlate]

/-! ## A standard library of moments -/

/-- A standard library that writes and reads moments, and writes answers plainly. -/
def isoStdlib : Stdlib :=
  { plainStdlib [] [] with fromisoformat := Iso.fromisoformat, strftime := Iso.strftime }

theorem isoStdlib_reads : ReadsMoments isoStdlib where
  strftime _ _ := rfl
  fromisoformat _ _ h := h

/-- A second and a half after the base date, and a quarter of a second before that. -/
def secondAndHalf : DateTime := ⟨1500000, by decide⟩

def secondAndQuarter : DateTime := ⟨1250000, by decide⟩

end Fetch

namespace Zoned

namespace Endpoints

open Fetch (Counts Short minutesOf_counts isoStdlib isoStdlib_reads secondAndHalf secondAndQuarter)
open OpenWebId.Endpoints (DateParam)
open OpenWebId.Zoned.PublicKeySchedule (new StartsAgree DateAgrees)

/-- The moment the second of a moment began. -/
def toSecond (moment : Int) : Int := moment / microsPerSecond * microsPerSecond

theorem toSecond_le (moment : Int) : toSecond moment ≤ moment :=
  Int.ediv_mul_le moment (by decide)

theorem toSecond_mono {moment moment' : Int} (h : moment ≤ moment') :
    toSecond moment ≤ toSecond moment' :=
  Int.mul_le_mul_of_nonneg_right (Int.ediv_le_ediv (by decide) h) (by decide)

/-- Keys that start from the base date on, over a standard library that writes and reads
moments. -/
structure Dated (L : Stdlib) (T : Tzdata ζ) (keys : List (DatedPublicKey ζ)) : Prop where
  moments : ReadsMoments L
  fromBase : ∀ key ∈ keys, 0 ≤ startOf T key ∧ startOf T key ≤ maxMoment

/-- And that can be read. -/
structure Timed (L : Stdlib) (P : Provider σ κ) (T : Tzdata ζ) (keys : List (DatedPublicKey ζ)) :
    Prop extends Dated L T keys where
  readable : ∀ key ∈ keys, ∃ crypto, Crypto.newVerifyOnly P key.publicKeyPem = .ok crypto

section Definitions

variable [DecidableEq ζ] (T : Tzdata ζ)

/-- The moment a creator reads out of a minute: the minute's own, unless that is later than its
now. -/
def momentRead (now : Aware ζ) (minute : Nat) : Aware ζ :=
  if h : minute ≤ maximumMinutes then
    if T.lt now (.ofUtc (atMinute minute h)) = true then now else .ofUtc (atMinute minute h)
  else now

/-- The moment a request is answered for. -/
def momentAsked (now : Aware ζ) : Option Nat → Aware ζ
  | none => now
  | some minute => momentRead T now minute

/-- The key has started by the moment, and its next start is later, both to the second. -/
def Holds (schedule : PublicKeySchedule ζ) (key : DatedPublicKey ζ) (moment : Int) : Prop :=
  toSecond (startOf T key) ≤ moment ∧
    ∀ next, schedule.nextStartAfter T key = some next → moment < toSecond (T.moment next)

/-- The key that is chosen for the moment, if any is, holds it. -/
def Fits (schedule : PublicKeySchedule ζ) (asked : Aware ζ) : Prop :=
  ∀ key, schedule.keyInForce T (some asked.datetime) = some key →
    Holds T schedule key (T.moment asked)

/-- No start lies later than the moment but in the same second. -/
def NoStartWithin (keys : List (DatedPublicKey ζ)) (moment : Int) : Prop :=
  ∀ key ∈ keys, moment < startOf T key → moment < toSecond (startOf T key)

/-- The answer a schedule has for one of its keys. -/
def answerOf (L : Stdlib) (schedule : PublicKeySchedule ζ) (key : DatedPublicKey ζ) : Json :=
  .obj (OpenWebId.Endpoints.answerFields L key.publicKeyPem (some (T.utc key.startsAt))
    ((schedule.nextStartAfter T key).map T.utc))

end Definitions

section Moment

variable {L : Stdlib} {P : Provider σ κ} {T : Tzdata ζ} {keys : List (DatedPublicKey ζ)}

/-! ## The answer for one moment -/

theorem Dated.inRange (h : Dated L T keys) : InRange T keys := by
  intro key hkey
  obtain ⟨hbase, hmax⟩ := h.fromBase key hkey
  refine ⟨Int.le_trans ?_ hbase, hmax⟩
  decide

theorem Dated.utc_micros (h : Dated L T keys) {key : DatedPublicKey ζ} (hkey : key ∈ keys) :
    (T.utc key.startsAt).micros = startOf T key :=
  T.utc_micros (h.inRange key hkey)

variable [DecidableEq ζ] {S : Lib.StableSort (DatedPublicKey ζ)}

theorem Dated.next_inRange (h : Dated L T keys) {key : DatedPublicKey ζ} :
    ∀ a ∈ (new T S keys).nextStartAfter T key,
      minMoment ≤ T.moment a ∧ T.moment a ≤ maxMoment := by
  intro a ha
  obtain ⟨k, hk, rfl⟩ := PublicKeySchedule.nextStartAfter_mem (Option.mem_def.mp ha)
  exact h.inRange k hk

omit [DecidableEq ζ] in
/-- A start that was written is read as the moment its second began. -/
theorem Dated.momentOf (h : Dated L T keys) {key : DatedPublicKey ζ} (hkey : key ∈ keys)
    (field : String) :
    OpenWebId.Endpoints.momentOf L
        (OpenWebId.Endpoints.momentText L (some (T.utc key.startsAt))) field =
      .ok (some (T.utc key.startsAt).truncateToSecond) := by
  refine h.moments.momentOf ?_ field
  show (0 : Int) ≤ (T.utc key.startsAt).micros
  rw [h.utc_micros hkey]
  exact (h.fromBase key hkey).1

theorem Dated.momentOf_next (h : Dated L T keys) (key : DatedPublicKey ζ) (field : String) :
    OpenWebId.Endpoints.momentOf L (OpenWebId.Endpoints.momentText L
        (((new T S keys).nextStartAfter T key).map T.utc)) field =
      .ok (((new T S keys).nextStartAfter T key).map fun next =>
        (T.utc next).truncateToSecond) := by
  cases hnext : (new T S keys).nextStartAfter T key with
  | none => rfl
  | some next =>
    obtain ⟨k, hk, rfl⟩ := PublicKeySchedule.nextStartAfter_mem hnext
    exact h.momentOf hk field

/-- The checks of the span, in the seconds that were read back. -/
def checkHeld (T : Tzdata ζ) (schedule : PublicKeySchedule ζ) (key : DatedPublicKey ζ)
    (asked : Aware ζ) : Except PyExc Unit := do
  let start := some (T.utc key.startsAt).truncateToSecond
  let stop := (schedule.nextStartAfter T key).map fun next => (T.utc next).truncateToSecond
  OpenWebId.Endpoints.checkSpan start stop none
  checkAsked T start stop asked

/-- The answer for a key that can be read is refused where the span it states is. -/
theorem Dated.publicKeyAnswer (h : Dated L T keys) {key : DatedPublicKey ζ} (hkey : key ∈ keys)
    (hread : ∃ crypto, Crypto.newVerifyOnly P key.publicKeyPem = .ok crypto) (asked : Aware ζ) :
    publicKeyAnswer L P T key.publicKeyPem (some key.startsAt)
        ((new T S keys).nextStartAfter T key) asked =
      (checkHeld T (new T S keys) key asked).map fun _ =>
        L.dumps (answerOf T L (new T S keys) key) := by
  have hfrom : ∀ a ∈ some key.startsAt, minMoment ≤ T.moment a ∧ T.moment a ≤ maxMoment := by
    intro a ha
    cases ha
    exact h.inRange key hkey
  rw [publicKeyAnswer_eq hfrom h.next_inRange]
  have hcheck := Fetch.checkKey_answerFields L hread
    (some (T.utc key.startsAt)) (((new T S keys).nextStartAfter T key).map T.utc)
  -- what is read back of each moment is the beginning of its second
  have hreadFrom : OpenWebId.Endpoints.momentOf L (OpenWebId.Endpoints.get
      (OpenWebId.Endpoints.answerFields L key.publicKeyPem (some (T.utc key.startsAt))
        (((new T S keys).nextStartAfter T key).map T.utc)) "validFrom") "validFrom" =
      .ok (some (T.utc key.startsAt).truncateToSecond) := h.momentOf hkey "validFrom"
  have hreadTo : OpenWebId.Endpoints.momentOf L (OpenWebId.Endpoints.get
      (OpenWebId.Endpoints.answerFields L key.publicKeyPem (some (T.utc key.startsAt))
        (((new T S keys).nextStartAfter T key).map T.utc)) "validTo") "validTo" =
      .ok (((new T S keys).nextStartAfter T key).map fun next =>
        (T.utc next).truncateToSecond) := h.momentOf_next key "validTo"
  simp only [Option.map_some, validatePublicKeyAnswer, OpenWebId.Endpoints.validatePublicKeyAnswer,
    hcheck, hreadFrom, hreadTo, ok_bind, checkHeld]
  cases OpenWebId.Endpoints.checkSpan (some (T.utc key.startsAt).truncateToSecond)
      (((new T S keys).nextStartAfter T key).map fun next => (T.utc next).truncateToSecond)
      none with
  | error e => rfl
  | ok u =>
    simp only [ok_bind]
    cases checkAsked T (some (T.utc key.startsAt).truncateToSecond)
        (((new T S keys).nextStartAfter T key).map fun next => (T.utc next).truncateToSecond)
        asked with
    | error e => rfl
    | ok u => rfl

/-- The checks accept the spans that hold the moment. -/
theorem checkSpan_checkAsked_iff {start : DateTime} {stop : Option DateTime} {asked : Aware ζ} :
    (do OpenWebId.Endpoints.checkSpan (some start) stop none
        checkAsked T (some start) stop asked) = .ok () ↔
      start.micros ≤ T.moment asked ∧ ∀ d, stop = some d → T.moment asked < d.micros := by
  have hlate : T.lt asked (.ofUtc start) = true ↔ T.moment asked < start.micros := by
    rw [(T.lt_fixed (b := .ofUtc start) rfl).1, T.moment_ofUtc]
  cases stop with
  | none =>
    simp only [OpenWebId.Endpoints.checkSpan, ok_bind, checkAsked, Option.mem_def,
      Option.some.injEq, exists_eq_left', hlate, reduceCtorEq, false_and, exists_false, if_false,
      false_implies, implies_true, and_true]
    split
    next hearly => simp only [reduceCtorEq, Int.not_le.mpr hearly]
    next hstarted => simp only [Int.not_lt.mp hstarted]
  | some d =>
    have hended : T.le (.ofUtc d) asked = true ↔ d.micros ≤ T.moment asked := by
      rw [T.le_eq_not_lt, Bool.not_eq_true', ← Bool.not_eq_true,
        (T.lt_fixed (b := .ofUtc d) rfl).1, T.moment_ofUtc, Int.not_lt]
    by_cases hspan : d ≤ start
    · -- it ends before it starts, so no moment is in it
      refine iff_of_false ?_ ?_
      · intro hok
        simp only [OpenWebId.Endpoints.checkSpan, if_pos hspan] at hok
        cases hok
      · intro hholds
        have hlt := Int.lt_of_le_of_lt hholds.1 (hholds.2 d rfl)
        exact absurd hspan (Int.not_le.mpr hlt)
    · simp only [OpenWebId.Endpoints.checkSpan, if_neg hspan, ok_bind, checkAsked, Option.mem_def,
        Option.some.injEq, exists_eq_left', hlate, hended, forall_eq']
      split
      next hearly => simp only [reduceCtorEq, Int.not_le.mpr hearly, false_and]
      next hstarted =>
        split
        next hpast => simp only [reduceCtorEq, Int.not_lt.mpr hpast, and_false]
        next hopen => simp only [Int.not_lt.mp hstarted, Int.not_le.mp hopen, and_self]

theorem Dated.checkHeld_iff (h : Dated L T keys) {key : DatedPublicKey ζ} (hkey : key ∈ keys)
    (asked : Aware ζ) :
    checkHeld T (new T S keys) key asked = .ok () ↔
      Holds T (new T S keys) key (T.moment asked) := by
  have hsecond : ∀ k ∈ keys,
      (T.utc k.startsAt).truncateToSecond.micros = toSecond (startOf T k) := by
    intro k hk
    rw [← h.utc_micros hk]
    rfl
  rw [checkHeld, checkSpan_checkAsked_iff, hsecond key hkey, Holds]
  refine and_congr_right fun _ => ?_
  cases hnext : (new T S keys).nextStartAfter T key with
  | none => simp
  | some next =>
    obtain ⟨k, hk, rfl⟩ := PublicKeySchedule.nextStartAfter_mem hnext
    simp only [Option.map_some, Option.some.injEq, forall_eq', hsecond k hk]
    rfl

/-- **A moment is answered** where no key is chosen for it, or where the key that is holds it. -/
theorem Timed.answerAt_returns_iff (h : Timed L P T keys) (asked : Aware ζ) :
    (∃ response, answerAt L P T (new T S keys) asked = .ok response) ↔
      Fits T (new T S keys) asked := by
  rw [answerAt, Fits]
  cases hkey : (new T S keys).keyInForce T (some asked.datetime) with
  | none => simp
  | some key =>
    have hmem := PublicKeySchedule.keyInForce_mem hkey
    simp only [h.publicKeyAnswer hmem (h.readable key hmem), Option.some.injEq, forall_eq',
      ← h.checkHeld_iff hmem]
    cases checkHeld T (new T S keys) key asked with
    | error e =>
      refine iff_of_false ?_ ?_
      · rintro ⟨response, hresponse⟩
        cases hresponse
      · intro hok
        cases hok
    | ok u => exact iff_of_true ⟨_, rfl⟩ rfl

/-- A key that is chosen and does not pass the checks is not answered. -/
theorem Timed.answerAt_raises (h : Timed L P T keys) {asked : Aware ζ} {key : DatedPublicKey ζ}
    (hkey : (new T S keys).keyInForce T (some asked.datetime) = some key) {e : PyExc}
    (hheld : checkHeld T (new T S keys) key asked = .error e) :
    answerAt L P T (new T S keys) asked = .error e := by
  have hmem := PublicKeySchedule.keyInForce_mem hkey
  rw [answerAt, hkey]
  simp only [h.publicKeyAnswer hmem (h.readable key hmem), hheld]
  rfl

/-! ## Comparisons that say what the moments do -/

/-- **Where the comparisons say what the moments do**, the key that is chosen holds the moment
unless a later one starts in the same second. -/
theorem fits_iff (h : StartsAgree T keys) {asked : Aware ζ} (hreads : DateAgrees T keys asked) :
    Fits T (new T S keys) asked ↔
      (∀ key ∈ keys, T.moment asked < startOf T key) ∨ NoStartWithin T keys (T.moment asked) := by
  have hdate : DateAgrees T keys asked.datetime.aware := hreads
  obtain ⟨hnone, hsome⟩ := h.keyInForce S hdate
  rw [Fits]
  cases hkey : (new T S keys).keyInForce T (some asked.datetime) with
  | none =>
    refine iff_of_true ?_ (Or.inl (hnone.mp hkey))
    intro key hfound
    cases hfound
  | some key =>
    have hforce : InForce T keys (T.moment asked) key := (hsome key).mp hkey
    have hnext := h.nextStartAfter S hforce.mem
    have hstarted : ¬ ∀ key ∈ keys, T.moment asked < startOf T key := fun hall =>
      absurd hforce.started (Int.not_le.mpr (hall key hforce.mem))
    have hfrom := Int.le_trans (toSecond_le _) hforce.started
    rw [or_iff_right hstarted]
    simp only [Option.some.injEq, forall_eq', Holds, hfrom, true_and]
    constructor
    · intro hstop other hother hlater
      -- a start later than the moment is later than the start of the key in force
      have hafter : startOf T key < startOf T other := Int.lt_of_le_of_lt hforce.started hlater
      cases hfound : (new T S keys).nextStartAfter T key with
      | none =>
        rw [hfound] at hnext
        exact absurd hafter (Int.not_lt.mpr (hnext other hother))
      | some next =>
        rw [hfound] at hnext
        exact Int.lt_of_lt_of_le (hstop next hfound)
          (toSecond_mono (hnext.2.2 other hother hafter))
    · intro hall next hfound
      rw [hfound] at hnext
      obtain ⟨hafter, ⟨other, hother, rfl⟩, -⟩ := hnext
      refine hall other hother (Int.not_le.mp fun hle => ?_)
      exact absurd (hforce.latest other hother hle) (Int.not_le.mpr hafter)

end Moment

/-! ## The answer to a request -/

section Request

variable [DecidableEq ζ] (L : Stdlib) (P : Provider σ κ) (T : Tzdata ζ)

theorem askedMoment_eq (now : Aware ζ) (minute : Nat) :
    askedMoment T now (minute : Int) = .ok (momentRead T now minute) := by
  unfold askedMoment momentRead
  by_cases h : minute ≤ maximumMinutes
  · rw [if_pos (Int.ofNat_le.mpr h), dif_pos h, baseDate_add_minutes h]
    rfl
  · have hnot : ¬ (minute : Int) ≤ maximumMinutes := by omega
    rw [if_neg hnot, dif_neg h, ok_bind]
    simp

/-- A request in a format that is served is answered for the moment it asks about, unless
its count of minutes has too many digits, which raises. -/
theorem publicKeyResponseAt_counts (schedule : PublicKeySchedule ζ) {format : Option String}
    (hformat : OpenWebId.Endpoints.checkFormat format = .ok ()) {date : DateParam}
    {count : Option Nat} (hdate : Counts date count) (now : PyDateTime ζ) :
    publicKeyResponseAt L P T schedule format date now =
      if Short date then answerAt L P T schedule (momentAsked T now.aware count)
      else .error .valueError := by
  unfold publicKeyResponseAt
  rw [hformat]
  cases count with
  | none =>
    -- no count: the request is answered for its own moment
    cases hdate with
    | absent => rfl
    | empty => rfl
  | some n =>
    have hpresent : ¬ (date = .absent ∨ date = .text "") := by
      rintro (rfl | rfl)
      · cases hdate
      · cases hdate with
        | text hne => exact hne rfl
    simp only [if_neg hpresent, minutesOf_counts hdate]
    split
    · simp only [ok_bind, askedMoment_eq]
      rfl
    · rfl

variable {L P T}

/-- **When the end point answers.** Over keys that can be read and start from the base date on, a
request with no date or a count of minutes is answered, and does not raise, exactly where its
format is refused, or its count is in digits that `int` reads and the key that is chosen for the
moment asked about, if any is, holds it. Where the comparisons of the starts with each other and
with that moment say what the moments do, that is where every start is later, or none is later
but in the same second. -/
theorem publicKeyResponseAt_returns_iff {keys : List (DatedPublicKey ζ)} (h : Timed L P T keys)
    (S : Lib.StableSort (DatedPublicKey ζ)) {date : DateParam} {count : Option Nat}
    (hdate : Counts date count) (format : Option String) (now : PyDateTime ζ) :
    ((∃ response, publicKeyResponseAt L P T (new T S keys) format date now = .ok response) ↔
      (∃ name, format = some name ∧ name ≠ spkiFormat) ∨
        Short date ∧ Fits T (new T S keys) (momentAsked T now.aware count)) ∧
      (StartsAgree T keys → DateAgrees T keys (momentAsked T now.aware count) →
        (Fits T (new T S keys) (momentAsked T now.aware count) ↔
          (∀ key ∈ keys, T.moment (momentAsked T now.aware count) < startOf T key) ∨
            NoStartWithin T keys (T.moment (momentAsked T now.aware count)))) := by
  refine ⟨?_, fun hagree hreads => fits_iff hagree hreads⟩
  cases hformat : OpenWebId.Endpoints.checkFormat format with
  | error e =>
    have hrefused : ∃ name, format = some name ∧ name ≠ spkiFormat := by
      cases format with
      | none => cases hformat
      | some name =>
        refine ⟨name, rfl, ?_⟩
        rintro rfl
        cases hformat
    refine iff_of_true ?_ (Or.inl hrefused)
    -- a format that is refused is answered with 400
    unfold publicKeyResponseAt
    rw [hformat]
    exact ⟨_, rfl⟩
  | ok u =>
    have hserved : ¬ ∃ name, format = some name ∧ name ≠ spkiFormat := by
      rintro ⟨name, rfl, hne⟩
      simp only [OpenWebId.Endpoints.checkFormat, if_pos hne] at hformat
      cases hformat
    rw [or_iff_right hserved, publicKeyResponseAt_counts L P T (new T S keys) hformat hdate now]
    by_cases hshort : Short date
    · rw [if_pos hshort, and_iff_right hshort]
      exact h.answerAt_returns_iff (momentAsked T now.aware count)
    · rw [if_neg hshort]
      refine iff_of_false ?_ fun h => hshort h.1
      rintro ⟨response, hresponse⟩
      cases hresponse

end Request

/-! ## A start within a second, and one that is yet to come -/

open OpenWebId.Zoned.PublicKeySchedule (london orders_of_zone new_of_sorted
  startsAgree_of_offset strip_A strip_B strip_C minute3060090_le)

theorem minute3060100_le : 3060100 ≤ maximumMinutes := by decide

/-- The key `A` from the base date on, in UTC. -/
def baseA : DatedPublicKey Unit := ⟨.ofUtc baseDate, "A", strip_A⟩

/-- The key `C` from the base date on. -/
def baseC : DatedPublicKey Unit := ⟨.ofUtc baseDate, "C", strip_C⟩

/-- The key `B` from within a second. -/
def secondB : DatedPublicKey Unit := ⟨.ofUtc secondAndHalf, "B", strip_B⟩

/-- The key `A` from the second 01:30 in London. -/
def lateA : DatedPublicKey Unit :=
  ⟨⟨atMinute 3060090 minute3060090_le, .region (), true⟩, "A", strip_A⟩

/-- The first 01:40 in London, fifty minutes earlier. -/
def clock0140 : PyDateTime Unit := ⟨atMinute 3060100 minute3060100_le, some (.region ()), false⟩

theorem timed_london {keys : List (DatedPublicKey Unit)}
    (h : ∀ key ∈ keys, 0 ≤ startOf london key ∧ startOf london key ≤ maxMoment) :
    Timed isoStdlib .plain london keys where
  moments := isoStdlib_reads
  fromBase := h
  readable key _ := ⟨_, Provider.plain_newVerifyOnly key.notBlank⟩

theorem lateA_timed : Timed isoStdlib .plain london [lateA] := timed_london (by decide)

/-- By their clocks the key has started at that moment, and the check of the moments then says
that it had not. -/
theorem answerAt_lateA (S : Lib.StableSort (DatedPublicKey Unit)) :
    answerAt isoStdlib .plain london (new london S [lateA]) clock0140.aware =
      .error (.owidError ("the public key answer states a key that had not started at the " ++
        "moment asked about")) := by
  have hsorted : (new london S [lateA]).keys = [lateA] :=
    new_of_sorted (orders_of_zone (.region ()) (by decide)) (List.pairwise_singleton _ _)
  have hforce : (new london S [lateA]).keyInForce london (some clock0140.aware.datetime) =
      some lateA := by
    rw [PublicKeySchedule.keyInForce, hsorted]
    decide
  have hnext : (new london S [lateA]).nextStartAfter london lateA = none := by
    rw [PublicKeySchedule.nextStartAfter, hsorted]
    decide
  refine lateA_timed.answerAt_raises hforce ?_
  rw [checkHeld, hnext]
  rfl

theorem clock0140_lt_lateA : london.moment clock0140.aware < startOf london lateA := by decide

/-- A date of two zeros names the base date, and has a key: of two that start then the one
supplied first, over a third from within a second. -/
theorem publicKeyResponseAt_returns_tie :
    ∃ response, publicKeyResponseAt isoStdlib .plain london
      (new london (.merge _) [secondB, baseC, baseA]) (some spkiFormat) (.text "00")
      ⟨secondAndQuarter, some .utc, false⟩ = .ok response := by
  have htimed : Timed isoStdlib .plain london [secondB, baseC, baseA] := timed_london (by decide)
  have hcounts : Counts (.text "00") (some 0) :=
    .text (by decide) (by decide) (by decide)
  obtain ⟨hreturns, hfits⟩ := publicKeyResponseAt_returns_iff htimed (.merge _) hcounts
    (some spkiFormat) ⟨secondAndQuarter, some .utc, false⟩
  have hzone : (momentAsked london (.ofUtc secondAndQuarter) (some 0)).zone = .fixed 0 := by
    decide
  refine hreturns.mpr (Or.inr ⟨by decide, (hfits ?_ (.of_fixed hzone)).mpr (Or.inr ?_)⟩)
  · exact startsAgree_of_offset .utc 0 (by decide)
  · rw [NoStartWithin]
    decide

/-- Asked a quarter of a second before the second key starts, it raises: the answer it
built says that the first key had ended. And asked fifty minutes before the only key starts, by
a clock in London, it raises where 404 is due. -/
theorem publicKeyResponseAt_raises_withinSecond :
    (Timed isoStdlib .plain london [baseA, secondB] ∧ ∀ S,
      publicKeyResponseAt isoStdlib .plain london (new london S [baseA, secondB]) none .absent
          ⟨secondAndQuarter, some .utc, false⟩ =
        .error (.owidError ("the public key answer states a key that had ended at the moment " ++
          "asked about"))) ∧
    (Timed isoStdlib .plain london [lateA] ∧
      london.moment clock0140.aware < startOf london lateA ∧ ∀ S,
      publicKeyResponseAt isoStdlib .plain london (new london S [lateA]) none .absent clock0140 =
        .error (.owidError ("the public key answer states a key that had not started at the " ++
          "moment asked about"))) := by
  have hshort : Short .absent := trivial
  constructor
  · have htimed : Timed isoStdlib .plain london [baseA, secondB] := timed_london (by decide)
    refine ⟨htimed, fun S => ?_⟩
    have hsorted : (new london S [baseA, secondB]).keys = [baseA, secondB] :=
      new_of_sorted (orders_of_zone .utc (by decide)) (by decide)
    have hforce : (new london S [baseA, secondB]).keyInForce london
        (some (Aware.ofUtc secondAndQuarter).datetime) = some baseA := by
      rw [PublicKeySchedule.keyInForce, hsorted]
      decide
    have hnext : (new london S [baseA, secondB]).nextStartAfter london baseA =
        some secondB.startsAt := by
      rw [PublicKeySchedule.nextStartAfter, hsorted]
      decide
    rw [publicKeyResponseAt_counts _ _ _ _ rfl .absent, if_pos hshort]
    refine htimed.answerAt_raises hforce ?_
    rw [checkHeld, hnext]
    rfl
  · refine ⟨lateA_timed, clock0140_lt_lateA, fun S => ?_⟩
    rw [publicKeyResponseAt_counts _ _ _ _ rfl .absent, if_pos hshort]
    exact answerAt_lateA S

end Endpoints

end Zoned

end OpenWebId
