import OpenWebId.Iso
import OpenWebId.Serve
import OpenWebId.ZonedSchedule

/-!
# The public key end point, over starts in their zones

`public_key_answer` and `public_key_response_at` as the source has them: the starts and the
moment of the request keep the zones they came in, `_moment_text` takes a start to UTC before it
is written, and the checks compare what was read back with the moment asked about as Python
does.

`publicKeyResponseAt_utc` is what the development of the end point over moments in UTC says of
this one: where the starts compare as their moments and the moment asked about is read as its
own, the response is the one for the same keys and the same moment in UTC.
-/

namespace OpenWebId

variable {σ κ ζ : Type}

namespace Zoned

open OpenWebId.Endpoints (DateParam)

namespace Endpoints

/-- `_moment_text`. -/
def momentText (L : Stdlib) (T : Tzdata ζ) : Option (Aware ζ) → Except PyExc Json
  | none => .ok .null
  | some moment => do
    let utc ← T.astimezone moment
    .ok (.str (L.strftime utc))

section Code

variable [DecidableEq ζ] (L : Stdlib) (P : Provider σ κ) (T : Tzdata ζ)

/-- The checks `validate_public_key_answer` makes of the moment asked about. -/
def checkAsked (validFrom validTo : Option DateTime) (moment : Aware ζ) : Except PyExc Unit :=
  if ∃ start ∈ validFrom, T.lt moment (.ofUtc start) = true then
    .error (.owidError ("the public key answer states a key that had not started at the " ++
      "moment asked about"))
  else if ∃ stop ∈ validTo, T.le (.ofUtc stop) moment = true then
    .error (.owidError ("the public key answer states a key that had ended at the moment " ++
      "asked about"))
  else .ok ()

/-- `validate_public_key_answer`, where the moment asked about is known. -/
def validatePublicKeyAnswer (answer : Json) (asked : Aware ζ) :
    Except PyExc (String × Option DateTime × Option DateTime) := do
  let (pem, validFrom, validTo) ←
    OpenWebId.Endpoints.validatePublicKeyAnswer L P answer none
  checkAsked T validFrom validTo asked
  .ok (pem, validFrom, validTo)

/-- `public_key_answer`, where the moment asked about is known. -/
def publicKeyAnswer (pem : String) (validFrom validTo : Option (Aware ζ)) (asked : Aware ζ) :
    Except PyExc String := do
  let start ← momentText L T validFrom
  let stop ← momentText L T validTo
  let answer := .obj [("format", .str spkiFormat), ("publicKey", .str pem),
    ("validFrom", start), ("validTo", stop)]
  let _ ← validatePublicKeyAnswer L P T answer asked
  .ok (L.dumps answer)

/-- The moment the answer is chosen for: the minute named, in UTC, where a moment can hold it
and it is not later than the request, and the moment of the request otherwise. -/
def askedMoment (now : Aware ζ) (minutes : Int) : Except PyExc (Aware ζ) := do
  let asked ← if minutes ≤ maximumMinutes then do
      let named ← baseDate.add (minutes * microsPerMinute)
      .ok (.ofUtc named)
    else .ok now
  .ok (if T.lt now asked = true then now else asked)

/-- `public_key_response_at` for a moment already chosen. -/
def answerAt (schedule : PublicKeySchedule ζ) (asked : Aware ζ) : Except PyExc (Int × String) :=
  match schedule.keyInForce T (some asked.datetime) with
  | none => .ok (404, "")
  | some key => do
    let body ← publicKeyAnswer L P T key.publicKeyPem (some key.startsAt)
      (schedule.nextStartAfter T key) asked
    .ok (200, body)

/-- `public_key_response_at`. -/
def publicKeyResponseAt (schedule : PublicKeySchedule ζ) (format : Option String)
    (date : DateParam) (now : PyDateTime ζ) : Except PyExc (Int × String) :=
  match OpenWebId.Endpoints.checkFormat format with
  | .error _ => .ok (400, "")
  | .ok () =>
    if date = .absent ∨ date = .text "" then answerAt L P T schedule now.aware
    else do
      match ← OpenWebId.Endpoints.minutesOf date with
      | none => .ok (400, "")
      | some minutes => answerAt L P T schedule (← askedMoment T now.aware minutes)

end Code

/-! ## The answer -/

/-- A `datetime` can hold the moment of every start in UTC. -/
def InRange (T : Tzdata ζ) (keys : List (DatedPublicKey ζ)) : Prop :=
  ∀ key ∈ keys, minMoment ≤ startOf T key ∧ startOf T key ≤ maxMoment

section Answer

variable {L : Stdlib} {P : Provider σ κ} {T : Tzdata ζ}

theorem momentText_eq {moment : Option (Aware ζ)}
    (h : ∀ a ∈ moment, minMoment ≤ T.moment a ∧ T.moment a ≤ maxMoment) :
    momentText L T moment = .ok (OpenWebId.Endpoints.momentText L (moment.map T.utc)) := by
  cases moment with
  | none => rfl
  | some a =>
    rw [momentText, T.astimezone_eq (h a rfl), ok_bind]
    rfl

variable [DecidableEq ζ]

/-- The answer is built from the moments in UTC, and checked as such but for the moment asked
about. -/
theorem publicKeyAnswer_eq {pem : String} {validFrom validTo : Option (Aware ζ)}
    (hfrom : ∀ a ∈ validFrom, minMoment ≤ T.moment a ∧ T.moment a ≤ maxMoment)
    (hto : ∀ a ∈ validTo, minMoment ≤ T.moment a ∧ T.moment a ≤ maxMoment) (asked : Aware ζ) :
    publicKeyAnswer L P T pem validFrom validTo asked =
      (validatePublicKeyAnswer L P T (.obj (OpenWebId.Endpoints.answerFields L pem
          (validFrom.map T.utc) (validTo.map T.utc))) asked).map fun _ =>
        L.dumps (.obj (OpenWebId.Endpoints.answerFields L pem (validFrom.map T.utc)
          (validTo.map T.utc))) := by
  rw [publicKeyAnswer, momentText_eq hfrom, ok_bind, momentText_eq hto, ok_bind]
  simp only [OpenWebId.Endpoints.answerFields]
  cases validatePublicKeyAnswer L P T _ asked with
  | error e => rfl
  | ok read => rfl

/-- What is compared with a moment in UTC is compared as a moment. -/
theorem checkAsked_utc {asked : Aware ζ} {moment : DateTime}
    (h : T.moment asked = moment.micros) (validFrom validTo : Option DateTime) :
    (do OpenWebId.Endpoints.checkSpan validFrom validTo none
        checkAsked T validFrom validTo asked) =
      OpenWebId.Endpoints.checkSpan validFrom validTo (some moment) := by
  have hstart : ∀ start : DateTime, T.lt asked (.ofUtc start) = true ↔ moment < start := by
    intro start
    rw [(T.lt_fixed (b := .ofUtc start) rfl).1, T.moment_ofUtc, h]
    rfl
  have hstop : ∀ stop : DateTime, T.le (.ofUtc stop) asked = true ↔ stop ≤ moment := by
    intro stop
    rw [T.le_eq_not_lt, Bool.not_eq_true', ← Bool.not_eq_true,
      (T.lt_fixed (b := .ofUtc stop) rfl).1, T.moment_ofUtc, h, Int.not_lt]
    rfl
  cases validTo with
  | none =>
    simp only [checkAsked, hstart, hstop]
    rfl
  | some stop =>
    cases validFrom with
    | none => rfl
    | some start =>
      simp only [checkAsked, hstart, hstop, OpenWebId.Endpoints.checkSpan]
      split
      · rfl
      · rfl

/-- The checks are those of the moment in UTC. -/
theorem validatePublicKeyAnswer_utc {asked : Aware ζ} {moment : DateTime}
    (h : T.moment asked = moment.micros) (answer : Json) :
    validatePublicKeyAnswer L P T answer asked =
      OpenWebId.Endpoints.validatePublicKeyAnswer L P answer (some moment) := by
  rw [validatePublicKeyAnswer]
  cases answer with
  | null => rfl
  | str value => rfl
  | other => rfl
  | obj fields =>
    simp only [OpenWebId.Endpoints.validatePublicKeyAnswer, ← checkAsked_utc h]
    cases OpenWebId.Endpoints.checkKey P fields with
    | error e => rfl
    | ok pem =>
      cases OpenWebId.Endpoints.momentOf L (OpenWebId.Endpoints.get fields "validFrom")
          "validFrom" with
      | error e => rfl
      | ok validFrom =>
        cases OpenWebId.Endpoints.momentOf L (OpenWebId.Endpoints.get fields "validTo")
            "validTo" with
        | error e => rfl
        | ok validTo =>
          simp only [ok_bind]
          cases OpenWebId.Endpoints.checkSpan validFrom validTo none with
          | error e => rfl
          | ok u => rfl

/-- And so is the answer. -/
theorem publicKeyAnswer_utc {pem : String} {validFrom validTo : Option (Aware ζ)}
    (hfrom : ∀ a ∈ validFrom, minMoment ≤ T.moment a ∧ T.moment a ≤ maxMoment)
    (hto : ∀ a ∈ validTo, minMoment ≤ T.moment a ∧ T.moment a ≤ maxMoment) {asked : Aware ζ}
    {moment : DateTime} (h : T.moment asked = moment.micros) :
    publicKeyAnswer L P T pem validFrom validTo asked =
      OpenWebId.Endpoints.publicKeyAnswer L P pem (validFrom.map T.utc) (validTo.map T.utc)
        (some moment) := by
  rw [publicKeyAnswer_eq hfrom hto, validatePublicKeyAnswer_utc h,
    OpenWebId.Endpoints.publicKeyAnswer]
  cases OpenWebId.Endpoints.validatePublicKeyAnswer L P (.obj (OpenWebId.Endpoints.answerFields L
      pem (validFrom.map T.utc) (validTo.map T.utc))) (some moment) with
  | error e => rfl
  | ok read => rfl

end Answer

end Endpoints

/-! ## In UTC -/

/-- The key, with the moment it starts at in UTC. -/
def utcKey (T : Tzdata ζ) (key : DatedPublicKey ζ) : OpenWebId.DatedPublicKey :=
  ⟨T.utc key.startsAt, key.publicKeyPem, key.notBlank⟩

namespace PublicKeySchedule

variable {T : Tzdata ζ} {keys : List (DatedPublicKey ζ)}

/-- The keys, with their moments in UTC. -/
abbrev utcKeys (T : Tzdata ζ) (keys : List (DatedPublicKey ζ)) : OpenWebId.PublicKeySchedule :=
  OpenWebId.PublicKeySchedule.new (keys.map (utcKey T))

theorem utcKey_startsAt (hrange : Endpoints.InRange T keys) {key : DatedPublicKey ζ}
    (hkey : key ∈ keys) : (utcKey T key).startsAt.micros = startOf T key :=
  T.utc_micros (hrange key hkey)

variable [DecidableEq ζ]

/-- The key in force by the moments is the one in force in UTC. -/
theorem inForce_utc (hrange : Endpoints.InRange T keys) {moment : DateTime}
    {key : DatedPublicKey ζ} (h : InForce T keys moment.micros key) :
    OpenWebId.PublicKeySchedule.InForce (keys.map (utcKey T)) moment (utcKey T key) := by
  have hstart := utcKey_startsAt hrange h.mem
  refine ⟨?_, ?_, ?_⟩
  · show (utcKey T key).startsAt.micros ≤ moment.micros
    rw [hstart]
    exact h.started
  · intro k' hk' hle
    obtain ⟨k, hk, rfl⟩ := List.mem_map.mp hk'
    have hle' : (utcKey T k).startsAt.micros ≤ moment.micros := hle
    show (utcKey T k).startsAt.micros ≤ (utcKey T key).startsAt.micros
    rw [utcKey_startsAt hrange hk] at hle' ⊢
    rw [hstart]
    exact h.latest k hk hle'
  · have hfirst : SuppliedFirst T keys key := h.first
    rw [List.find?_map, Option.map_eq_some_iff]
    refine ⟨key, ?_, rfl⟩
    rw [← hfirst]
    apply List.find?_congr
    intro k hk
    rw [Function.comp_apply, decide_eq_decide, DateTime.ext_iff, utcKey_startsAt hrange hk, hstart]

/-- **The schedule in UTC has the same key in force**, where the starts compare as their moments
and the date is read as its own. -/
theorem StartsAgree.keyInForce_utc (h : StartsAgree T keys) (hrange : Endpoints.InRange T keys)
    (S : Lib.StableSort (DatedPublicKey ζ)) {date : PyDateTime ζ} {moment : DateTime}
    (hmoment : T.moment date.aware = moment.micros) (hreads : DateAgrees T keys date.aware) :
    (utcKeys T keys).keyInForce moment =
      ((new T S keys).keyInForce T (some date)).map (utcKey T) := by
  obtain ⟨hnone, hsome⟩ := h.keyInForce S hreads
  cases hfound : (new T S keys).keyInForce T (some date) with
  | none =>
    have hlate := hnone.mp hfound
    rw [hmoment] at hlate
    apply OpenWebId.PublicKeySchedule.keyInForce_new_none.mpr
    intro k' hk'
    obtain ⟨k, hk, rfl⟩ := List.mem_map.mp hk'
    show moment.micros < (utcKey T k).startsAt.micros
    rw [utcKey_startsAt hrange hk]
    exact hlate k hk
  | some key =>
    have hforce := (hsome key).mp hfound
    rw [hmoment] at hforce
    exact OpenWebId.PublicKeySchedule.keyInForce_new.mpr (inForce_utc hrange hforce)

/-- And the same next start after a key. -/
theorem StartsAgree.nextStartAfter_utc (h : StartsAgree T keys)
    (hrange : Endpoints.InRange T keys) (S : Lib.StableSort (DatedPublicKey ζ))
    {key : DatedPublicKey ζ} (hkey : key ∈ keys) :
    (utcKeys T keys).nextStartAfter (utcKey T key) =
      ((new T S keys).nextStartAfter T key).map T.utc := by
  have hnext := h.nextStartAfter S hkey
  have hstart := utcKey_startsAt hrange hkey
  cases hutc : (utcKeys T keys).nextStartAfter (utcKey T key) with
  | none =>
    have hlast := OpenWebId.PublicKeySchedule.nextStartAfter_eq_none hutc
    cases hfound : (new T S keys).nextStartAfter T key with
    | none => rfl
    | some next =>
      rw [hfound] at hnext
      obtain ⟨hafter, ⟨k, hk, rfl⟩, -⟩ := hnext
      have hle : (utcKey T k).startsAt.micros ≤ (utcKey T key).startsAt.micros :=
        hlast _ (OpenWebId.PublicKeySchedule.mem_new.mpr (List.mem_map_of_mem hk))
      rw [hstart, utcKey_startsAt hrange hk] at hle
      exact absurd hafter (Int.not_lt.mpr hle)
  | some next' =>
    obtain ⟨hafter', ⟨k', hk', rfl⟩, hmin'⟩ :=
      OpenWebId.PublicKeySchedule.nextStartAfter_eq_some hutc
    obtain ⟨k, hk, rfl⟩ := List.mem_map.mp (OpenWebId.PublicKeySchedule.mem_new.mp hk')
    have hlt : (utcKey T key).startsAt.micros < (utcKey T k).startsAt.micros := hafter'
    rw [hstart, utcKey_startsAt hrange hk] at hlt
    cases hfound : (new T S keys).nextStartAfter T key with
    | none =>
      rw [hfound] at hnext
      exact absurd hlt (Int.not_lt.mpr (hnext k hk))
    | some next =>
      rw [hfound] at hnext
      obtain ⟨hafter, ⟨j, hj, rfl⟩, hmin⟩ := hnext
      -- each of the two is the least
      have hle := hmin k hk hlt
      have hge : (utcKey T k).startsAt.micros ≤ (utcKey T j).startsAt.micros := by
        refine hmin' (utcKey T j)
          (OpenWebId.PublicKeySchedule.mem_new.mpr (List.mem_map_of_mem hj)) ?_
        show (utcKey T key).startsAt.micros < (utcKey T j).startsAt.micros
        rw [hstart, utcKey_startsAt hrange hj]
        exact hafter
      rw [utcKey_startsAt hrange hk, utcKey_startsAt hrange hj] at hge
      refine congrArg some (DateTime.ext ?_)
      rw [utcKey_startsAt hrange hk, T.utc_micros (hrange j hj)]
      exact Int.le_antisymm hge hle

/-- **An OWID is checked offline as over the schedule in UTC.** Its date is in UTC, so nothing
is asked but that the starts compare as their moments. -/
theorem StartsAgree.signatureStatus_utc (h : StartsAgree T keys)
    (hrange : Endpoints.InRange T keys) (S : Lib.StableSort (DatedPublicKey ζ))
    (P : Provider σ κ) (owid : Owid) :
    (new T S keys).signatureStatus T P owid = (utcKeys T keys).signatureStatus P owid := by
  have hmoment : T.moment (PyDateTime.aware ⟨owid.date, some .utc, false⟩) = owid.date.micros :=
    T.moment_ofUtc owid.date
  have hkey := h.keyInForce_utc hrange S hmoment (.of_fixed rfl)
  rw [signatureStatus, OpenWebId.PublicKeySchedule.signatureStatus, hkey]
  cases (new T S keys).keyInForce T (some ⟨owid.date, some .utc, false⟩) with
  | none => rfl
  | some key => rfl

end PublicKeySchedule

namespace Endpoints

open OpenWebId.Zoned.PublicKeySchedule (new StartsAgree DateAgrees utcKeys)

variable [DecidableEq ζ] {L : Stdlib} {P : Provider σ κ} {T : Tzdata ζ}
  {keys : List (DatedPublicKey ζ)}

/-- The answer for a moment is the one in UTC. -/
theorem answerAt_utc (h : StartsAgree T keys) (hrange : InRange T keys)
    (S : Lib.StableSort (DatedPublicKey ζ)) {asked : Aware ζ} {moment : DateTime}
    (hmoment : T.moment asked = moment.micros) (hreads : DateAgrees T keys asked) :
    answerAt L P T (new T S keys) asked =
      OpenWebId.Endpoints.answerAt L P (utcKeys T keys) moment := by
  have hdate : DateAgrees T keys asked.datetime.aware := hreads
  have hsame : T.moment asked.datetime.aware = moment.micros := hmoment
  have hkey := h.keyInForce_utc hrange S hsame hdate
  rw [answerAt, OpenWebId.Endpoints.answerAt, hkey]
  cases hfound : (new T S keys).keyInForce T (some asked.datetime) with
  | none => rfl
  | some key =>
    have hmem := (((h.keyInForce S hdate).2 key).mp hfound).mem
    have hnext := h.nextStartAfter_utc hrange S hmem
    have hto : ∀ a ∈ (new T S keys).nextStartAfter T key,
        minMoment ≤ T.moment a ∧ T.moment a ≤ maxMoment := by
      intro a ha
      have hspec := h.nextStartAfter S hmem
      rw [Option.mem_def.mp ha] at hspec
      obtain ⟨-, ⟨k, hk, rfl⟩, -⟩ := hspec
      exact hrange k hk
    have hfrom : ∀ a ∈ some key.startsAt, minMoment ≤ T.moment a ∧ T.moment a ≤ maxMoment := by
      intro a ha
      cases ha
      exact hrange key hmem
    simp only [Option.map_some, publicKeyAnswer_utc hfrom hto hmoment, hnext]
    rfl

/-- The moment asked about is the same, and where it is not the moment of the request it is in
UTC. -/
theorem askedMoment_utc {now : Aware ζ} {moment : DateTime} (hmoment : T.moment now = moment.micros)
    (hreads : DateAgrees T keys now) (minutes : Int) :
    (∃ e, askedMoment T now minutes = .error e ∧
        OpenWebId.Endpoints.askedMoment moment minutes = .error e) ∨
      ∃ asked named, askedMoment T now minutes = .ok asked ∧
        OpenWebId.Endpoints.askedMoment moment minutes = .ok named ∧
        T.moment asked = named.micros ∧ DateAgrees T keys asked := by
  have hlt : ∀ named : DateTime, T.lt now (.ofUtc named) = true ↔ moment < named := by
    intro named
    rw [(T.lt_fixed (b := .ofUtc named) rfl).1, T.moment_ofUtc, hmoment]
    rfl
  unfold askedMoment OpenWebId.Endpoints.askedMoment
  by_cases hfits : minutes ≤ maximumMinutes
  · rw [if_pos hfits, if_pos hfits]
    cases baseDate.add (minutes * microsPerMinute) with
    | error e => exact Or.inl ⟨e, rfl, rfl⟩
    | ok named =>
      simp only [ok_bind, hlt]
      refine Or.inr ⟨_, _, rfl, rfl, ?_⟩
      split
      · exact ⟨hmoment, hreads⟩
      · exact ⟨T.moment_ofUtc named, .of_fixed rfl⟩
  · have hnot : ¬ moment < moment := Int.lt_irrefl _
    rw [if_neg hfits, if_neg hfits]
    simp only [ok_bind, T.lt_irrefl, hnot, Bool.false_eq_true, if_false]
    exact Or.inr ⟨now, moment, rfl, rfl, hmoment, hreads⟩

/-- **The response is the one in UTC.** -/
theorem publicKeyResponseAt_utc (h : StartsAgree T keys) (hrange : InRange T keys)
    (S : Lib.StableSort (DatedPublicKey ζ)) (format : Option String) (date : DateParam)
    {now : PyDateTime ζ} {moment : DateTime} (hmoment : T.moment now.aware = moment.micros)
    (hreads : DateAgrees T keys now.aware) :
    publicKeyResponseAt L P T (new T S keys) format date now =
      OpenWebId.Endpoints.publicKeyResponseAt L P (utcKeys T keys) format date moment := by
  unfold publicKeyResponseAt OpenWebId.Endpoints.publicKeyResponseAt
  cases OpenWebId.Endpoints.checkFormat format with
  | error e => rfl
  | ok u =>
    by_cases habsent : date = .absent ∨ date = .text ""
    · simp only [if_pos habsent]
      exact answerAt_utc h hrange S hmoment hreads
    · simp only [if_neg habsent]
      cases OpenWebId.Endpoints.minutesOf date with
      | error e => rfl
      | ok minutes =>
        cases minutes with
        | none => rfl
        | some minutes =>
          simp only [ok_bind]
          rcases askedMoment_utc hmoment hreads minutes with
            ⟨e, herror, herror'⟩ | ⟨asked, named, hasked, hnamed, hsame, hread⟩
          · rw [herror, herror']
            rfl
          · rw [hasked, hnamed, ok_bind, ok_bind]
            exact answerAt_utc h hrange S hsame hread

end Endpoints

end Zoned

end OpenWebId
