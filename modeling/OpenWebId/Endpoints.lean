import OpenWebId.Schedule

/-!
# The public key end point: `endpoints.py`

The answer a creator serves and the checks both sides make of it. `Json` is what
`json.loads` hands back, as far as the checks look into it, and `Stdlib` holds the
four functions of the standard library they rest on: `json.loads`, `json.dumps`,
`datetime.fromisoformat` and `datetime.strftime` in the one format used. Their types
say how each can fail: `loads` on text that is not JSON or is nested too deep,
`fromisoformat` on text it cannot read.

`validatePublicKeyAnswer` is the source's function in its three stages, the format
and the key, the two moments, and the span. What it lets through that is not an
`OwidError` is the `OverflowError` of `astimezone`, and `validate_error` says exactly
when.

`publicKeyResponseAt` is the end point over starts and a now in UTC. `Zoned.Endpoints` has it
over those of any zone, and `Zoned.Endpoints.publicKeyResponseAt_utc` that it is this one where
they compare as the moments they name.
-/

namespace OpenWebId

/-- A value `json.loads` hands back. Numbers, booleans and arrays are all `other`,
because no check looks inside one. -/
inductive Json
  | null
  | str (value : String)
  | obj (fields : List (String × Json))
  | other

/-- Why `json.loads` raised. -/
inductive LoadsError
  | notJson
  | tooDeep
  deriving DecidableEq

/-- The exception of it. -/
def LoadsError.exc : LoadsError → PyExc
  | .notJson => .valueError
  | .tooDeep => .recursionError

/-- What `datetime.fromisoformat` reads: the clock it shows, as if in UTC, and the
offset from UTC in microseconds where the text states one. -/
structure IsoMoment where
  clock : DateTime
  offset : Option Int

/-- The standard library functions the end point and its client call. -/
structure Stdlib where
  loads : String → Except LoadsError Json
  dumps : Json → String
  /-- `none` where it raises `ValueError`. -/
  fromisoformat : String → Option IsoMoment
  /-- `strftime("%Y-%m-%dT%H:%M:%SZ")` of a moment in UTC. -/
  strftime : DateTime → String

/-- `moment.astimezone(timezone.utc)` of a moment with this offset. -/
def astimezone (clock : DateTime) (offset : Int) : Except PyExc DateTime :=
  DateTime.ofMicros (clock.micros - offset)

/-- The one encoding of the key. -/
def spkiFormat : String := "spki"

variable {σ κ : Type}

namespace Endpoints

/-- `public_key_path`. -/
def publicKeyPath (version : Version) : String :=
  "/owid/api/v" ++ toString version.asByte.toNat ++ "/public-key"

/-- `_check_format`. -/
def checkFormat : Option String → Except PyExc Unit
  | none => .ok ()
  | some format =>
    if format ≠ spkiFormat then
      .error (.owidError ("the only format defined is '" ++ spkiFormat ++ "', received '" ++
        format ++ "'"))
    else .ok ()

/-- `answer.get(name)`. -/
def get (fields : List (String × Json)) (name : String) : Json :=
  (fields.lookup name).getD .null

/-- Whether the answer states no format, or the one that is read. -/
def readsFormat (fields : List (String × Json)) : Bool :=
  match fields.lookup "format" with
  | none => true
  | some (.str format) => format == spkiFormat
  | some _ => false

/-- The text `_moment_of` hands to `fromisoformat`: stripped, with a final `Z`
written as the offset it means. -/
def isoText (value : String) : String :=
  let text := Lib.strip value
  if text.toList.getLast? = some 'Z' ∨ text.toList.getLast? = some 'z' then
    String.ofList text.toList.dropLast ++ "+00:00"
  else text

def momentMessage (field : String) : String :=
  "the public key answer's " ++ field ++ " is not a moment"

/-- `_moment_of`. -/
def momentOf (L : Stdlib) (value : Json) (field : String) : Except PyExc (Option DateTime) :=
  match value with
  | .null => .ok none
  | .str text =>
    match L.fromisoformat (isoText text) with
    | none => .error (.owidError (momentMessage field))
    | some ⟨_, none⟩ =>
      .error (.owidError ("the public key answer's " ++ field ++ " does not say it is UTC"))
    | some ⟨clock, some offset⟩ => (astimezone clock offset).map some
  | _ => .error (.owidError (momentMessage field))

/-- The checks of the format and the key. -/
def checkKey (P : Provider σ κ) (fields : List (String × Json)) : Except PyExc String :=
  if readsFormat fields = false then
    .error (.owidError "the public key answer states a format this package does not read")
  else
    match get fields "publicKey" with
    | .str pem =>
      if Lib.strip pem = "" then .error (.owidError "the public key answer holds no key")
      else
        match Crypto.newVerifyOnly P pem with
        | .error _ =>
          .error (.owidError "the public key answer holds a key that cannot be read")
        | .ok _ => .ok pem
    | _ => .error (.owidError "the public key answer holds no key")

/-- The checks of the span, and of the moment asked about where it is known. -/
def checkSpan (validFrom validTo asked : Option DateTime) : Except PyExc Unit :=
  let spanned : Except PyExc Unit :=
    match validTo with
    | none => .ok ()
    | some stop =>
      match validFrom with
      | none => .error (.owidError
          "the public key answer states when the key ends but not when it started")
      | some start =>
        if stop ≤ start then
          .error (.owidError "the public key answer states a key that ends before it starts")
        else .ok ()
  match spanned with
  | .error e => .error e
  | .ok () =>
    match asked with
    | none => .ok ()
    | some moment =>
      if ∃ start ∈ validFrom, moment < start then
        .error (.owidError ("the public key answer states a key that had not started at the " ++
          "moment asked about"))
      else if ∃ stop ∈ validTo, stop ≤ moment then
        .error (.owidError ("the public key answer states a key that had ended at the moment " ++
          "asked about"))
      else .ok ()

/-- `validate_public_key_answer`. -/
def validatePublicKeyAnswer (L : Stdlib) (P : Provider σ κ) (answer : Json)
    (asked : Option DateTime) :
    Except PyExc (String × Option DateTime × Option DateTime) :=
  match answer with
  | .obj fields => do
    let pem ← checkKey P fields
    let validFrom ← momentOf L (get fields "validFrom") "validFrom"
    let validTo ← momentOf L (get fields "validTo") "validTo"
    checkSpan validFrom validTo asked
    .ok (pem, validFrom, validTo)
  | _ => .error (.owidError "the public key answer is not a JSON object")

/-- `_moment_text`. -/
def momentText (L : Stdlib) : Option DateTime → Json
  | none => .null
  | some moment => .str (L.strftime moment)

/-- The fields of an answer in the `spki` format. -/
def answerFields (L : Stdlib) (pem : String) (validFrom validTo : Option DateTime) :
    List (String × Json) :=
  [("format", .str spkiFormat), ("publicKey", .str pem), ("validFrom", momentText L validFrom),
    ("validTo", momentText L validTo)]

/-- `public_key_answer`. -/
def publicKeyAnswer (L : Stdlib) (P : Provider σ κ) (pem : String)
    (validFrom validTo asked : Option DateTime) : Except PyExc String := do
  let answer := .obj (answerFields L pem validFrom validTo)
  let _ ← validatePublicKeyAnswer L P answer asked
  .ok (L.dumps answer)

/-- The `date` parameter of a request, as a framework hands it over. -/
inductive DateParam
  | absent
  | bool (value : Bool)
  | int (value : Int)
  | text (value : String)
  | other
  deriving DecidableEq

/-- `_minutes`. -/
def minutesOf (date : DateParam) : Except PyExc (Option Int) :=
  let ranged (value : Int) : Option Int :=
    if value < 0 ∨ value > 0xFFFFFFFF then none else some value
  match date with
  | .int value => .ok (ranged value)
  | .text s =>
    if s ≠ "" ∧ s.toList.all Char.isDigit then
      match Lib.unsignedOfText s.toList with
      | none => .error .valueError
      | some value => .ok (ranged value)
    else .ok none
  | _ => .ok none

/-- The moment the answer is chosen for: the minute named, where a moment can hold it
and it is not later than the request, and the moment of the request otherwise. -/
def askedMoment (now : DateTime) (minutes : Int) : Except PyExc DateTime := do
  let asked ← if minutes ≤ maximumMinutes then baseDate.add (minutes * microsPerMinute)
    else .ok now
  .ok (if now < asked then now else asked)

/-- `public_key_response_at` for a moment already chosen. -/
def answerAt (L : Stdlib) (P : Provider σ κ) (schedule : PublicKeySchedule) (asked : DateTime) :
    Except PyExc (Int × String) :=
  match schedule.keyInForce asked with
  | none => .ok (404, "")
  | some key => do
    let body ← publicKeyAnswer L P key.publicKeyPem (some key.startsAt)
      (schedule.nextStartAfter key) (some asked)
    .ok (200, body)

/-- `public_key_response_at`. -/
def publicKeyResponseAt (L : Stdlib) (P : Provider σ κ) (schedule : PublicKeySchedule)
    (format : Option String) (date : DateParam) (now : DateTime) : Except PyExc (Int × String) :=
  match checkFormat format with
  | .error _ => .ok (400, "")
  | .ok () =>
    if date = .absent ∨ date = .text "" then answerAt L P schedule now
    else do
      match ← minutesOf date with
      | none => .ok (400, "")
      | some minutes => answerAt L P schedule (← askedMoment now minutes)

/-! ## What the checks refuse, and with what -/

/-- The field holds a moment whose UTC form is outside the years 1 to 9999. -/
def Overflows (L : Stdlib) (value : Json) : Prop :=
  ∃ text clock offset, value = .str text ∧
    L.fromisoformat (isoText text) = some ⟨clock, some offset⟩ ∧
    ¬ (minMoment ≤ clock.micros - offset ∧ clock.micros - offset ≤ maxMoment)

theorem astimezone_error {clock : DateTime} {offset : Int} {e : PyExc}
    (h : astimezone clock offset = .error e) :
    e = .overflowError ∧
      ¬ (minMoment ≤ clock.micros - offset ∧ clock.micros - offset ≤ maxMoment) := by
  unfold astimezone DateTime.ofMicros at h
  split at h
  next hin => cases h
  next hout =>
    cases h
    exact ⟨rfl, hout⟩

/-- A moment is refused with an `OwidError`, or overflows. -/
theorem momentOf_error {L : Stdlib} {value : Json} {field : String} {e : PyExc}
    (h : momentOf L value field = .error e) :
    e.isOwidError = true ∨ (e = .overflowError ∧ Overflows L value) := by
  unfold momentOf at h
  split at h
  · cases h
  next text =>
    split at h
    · cases h
      exact Or.inl rfl
    · cases h
      exact Or.inl rfl
    next clock offset hread =>
      cases hz : astimezone clock offset with
      | ok moment =>
        rw [hz] at h
        cases h
      | error e' =>
        rw [hz] at h
        cases h
        obtain ⟨he, hout⟩ := astimezone_error hz
        exact Or.inr ⟨he, text, clock, offset, rfl, hread, hout⟩
  · cases h
    exact Or.inl rfl

theorem momentOf_overflows {L : Stdlib} {value : Json} {field : String} (h : Overflows L value) :
    momentOf L value field = .error .overflowError := by
  obtain ⟨text, clock, offset, hvalue, hread, hout⟩ := h
  subst hvalue
  simp only [momentOf, hread, astimezone, DateTime.ofMicros]
  rw [dif_neg hout]
  rfl

theorem checkKey_error {P : Provider σ κ} {fields : List (String × Json)} {e : PyExc}
    (h : checkKey P fields = .error e) : e.isOwidError = true := by
  unfold checkKey at h
  split at h
  · cases h
    rfl
  · split at h
    · split at h
      · cases h
        rfl
      · split at h
        · cases h
          rfl
        · cases h
    · cases h
      rfl

/-- A key that was accepted is text that holds a readable key. -/
theorem checkKey_ok {P : Provider σ κ} {fields : List (String × Json)} {pem : String}
    (h : checkKey P fields = .ok pem) :
    get fields "publicKey" = .str pem ∧ ∃ crypto, Crypto.newVerifyOnly P pem = .ok crypto := by
  unfold checkKey at h
  split at h
  · cases h
  · split at h
    next text htext =>
      split at h
      · cases h
      · split at h
        · cases h
        next crypto hread =>
          cases h
          exact ⟨htext, crypto, hread⟩
    · cases h

theorem checkSpan_error {validFrom validTo asked : Option DateTime} {e : PyExc}
    (h : checkSpan validFrom validTo asked = .error e) : e.isOwidError = true := by
  unfold checkSpan at h
  simp only at h
  split at h
  next e' hspan =>
    cases h
    split at hspan
    · cases hspan
    · split at hspan
      · cases hspan
        rfl
      · split at hspan
        · cases hspan
          rfl
        · cases hspan
  · split at h
    · cases h
    · split at h
      · cases h
        rfl
      · split at h
        · cases h
          rfl
        · cases h

/-- A span that was accepted has a start where it has an end, and the end is later. -/
theorem checkSpan_ok {validFrom validTo asked : Option DateTime}
    (h : checkSpan validFrom validTo asked = .ok ()) {stop : DateTime}
    (hstop : validTo = some stop) :
    ∃ start, validFrom = some start ∧ start < stop := by
  subst hstop
  cases validFrom with
  | none => cases h
  | some start =>
    refine ⟨start, rfl, Int.not_le.mp fun hle => ?_⟩
    have hrefused : stop ≤ start := hle
    simp only [checkSpan, if_pos hrefused] at h
    cases h

/-- The answer passes the checks of the key and one of its moments then overflows. -/
def AnswerOverflows (L : Stdlib) (P : Provider σ κ) (answer : Json) : Prop :=
  ∃ fields pem, answer = .obj fields ∧ checkKey P fields = .ok pem ∧
    (Overflows L (get fields "validFrom") ∨
      ((∃ validFrom, momentOf L (get fields "validFrom") "validFrom" = .ok validFrom) ∧
        Overflows L (get fields "validTo")))

theorem validate_overflows {L : Stdlib} {P : Provider σ κ} {answer : Json}
    {asked : Option DateTime} (h : AnswerOverflows L P answer) :
    validatePublicKeyAnswer L P answer asked = .error .overflowError := by
  obtain ⟨fields, pem, hobj, hkey, hcase⟩ := h
  subst hobj
  simp only [validatePublicKeyAnswer, hkey, ok_bind]
  rcases hcase with hfrom | ⟨⟨validFrom, hfrom⟩, hto⟩
  · rw [momentOf_overflows hfrom, error_bind]
  · rw [hfrom, ok_bind, momentOf_overflows hto, error_bind]

/-- **What the checks raise.** A refusal is an `OwidError`, except where one of the
moments overflows, and there it is the `OverflowError`. -/
theorem validate_error {L : Stdlib} {P : Provider σ κ} {answer : Json} {asked : Option DateTime}
    {e : PyExc} (h : validatePublicKeyAnswer L P answer asked = .error e) :
    (e.isOwidError = true ∧ ¬ AnswerOverflows L P answer) ∨
      (e = .overflowError ∧ AnswerOverflows L P answer) := by
  -- an answer that overflows raises that and nothing else, so the rest are refusals
  by_cases hover : AnswerOverflows L P answer
  · rw [validate_overflows hover] at h
    cases h
    exact Or.inr ⟨rfl, hover⟩
  · refine Or.inl ⟨?_, hover⟩
    cases answer with
    | null | str | other =>
      cases h
      rfl
    | obj fields =>
      rcases bind_eq_error.mp h with hkey | ⟨pem, hkey, h⟩
      · exact checkKey_error hkey
      rcases bind_eq_error.mp h with hfrom | ⟨validFrom, hfrom, h⟩
      · refine (momentOf_error hfrom).resolve_right ?_
        intro hout
        exact hover ⟨fields, pem, rfl, hkey, Or.inl hout.2⟩
      rcases bind_eq_error.mp h with hto | ⟨validTo, hto, h⟩
      · refine (momentOf_error hto).resolve_right ?_
        intro hout
        exact hover ⟨fields, pem, rfl, hkey, Or.inr ⟨⟨validFrom, hfrom⟩, hout.2⟩⟩
      rcases bind_eq_error.mp h with hspan | ⟨-, -, h⟩
      · exact checkSpan_error hspan
      · cases h

/-- What was accepted, stage by stage. -/
theorem validate_ok {L : Stdlib} {P : Provider σ κ} {answer : Json} {asked : Option DateTime}
    {pem : String} {validFrom validTo : Option DateTime}
    (h : validatePublicKeyAnswer L P answer asked = .ok (pem, validFrom, validTo)) :
    ∃ fields, answer = .obj fields ∧ checkKey P fields = .ok pem ∧
      momentOf L (get fields "validFrom") "validFrom" = .ok validFrom ∧
      momentOf L (get fields "validTo") "validTo" = .ok validTo ∧
      checkSpan validFrom validTo asked = .ok () := by
  cases answer with
  | null | str | other => cases h
  | obj fields =>
    obtain ⟨pem', hkey, h⟩ := bind_eq_ok.mp h
    obtain ⟨validFrom', hfrom, h⟩ := bind_eq_ok.mp h
    obtain ⟨validTo', hto, h⟩ := bind_eq_ok.mp h
    obtain ⟨u, hspan, h⟩ := bind_eq_ok.mp h
    cases h
    exact ⟨fields, rfl, hkey, hfrom, hto, hspan⟩

/-- The moment an answer is chosen for is not later than the request. -/
theorem askedMoment_le {now asked : DateTime} {minutes : Int}
    (h : askedMoment now minutes = .ok asked) : asked ≤ now := by
  have hmin : ∀ named : DateTime, (if now < named then now else named) ≤ now := by
    intro named
    split
    next => exact Int.le_refl _
    next hnot => exact Int.not_lt.mp hnot
  unfold askedMoment at h
  split at h
  · obtain ⟨named, -, h⟩ := bind_eq_ok.mp h
    cases h
    exact hmin named
  · cases h
    exact hmin now

/-- A response of 200 is the answer for some moment that is not later than the request. -/
theorem publicKeyResponseAt_ok {L : Stdlib} {P : Provider σ κ} {schedule : PublicKeySchedule}
    {format : Option String} {date : DateParam} {now : DateTime} {body : String}
    (h : publicKeyResponseAt L P schedule format date now = .ok (200, body)) :
    ∃ asked, asked ≤ now ∧ answerAt L P schedule asked = .ok (200, body) := by
  unfold publicKeyResponseAt at h
  split at h
  · cases h
  · split at h
    -- no date: the moment is now
    · exact ⟨now, Int.le_refl _, h⟩
    · obtain ⟨named, -, h⟩ := bind_eq_ok.mp h
      cases named with
      | none => cases h
      | some minutes =>
        obtain ⟨asked, hasked, h⟩ := bind_eq_ok.mp h
        exact ⟨asked, askedMoment_le hasked, h⟩

end Endpoints

end OpenWebId
