import OpenWebId.ServeTotal

/-!
# What a creator sends a client reads

"Every answer is checked with `validate_public_key_answer` before it is returned, so a creator
never sends an answer a client would refuse." The check is made of the text of the moments, which
has no fraction of a second, so it is the span of whole seconds that has to be one: `Statable`.
`public_key_answer` answers exactly where the key can be read and the span is statable, refuses
anything else with an `OwidError`, and what it answers every client reads as the key and the
minutes the moments are in (`publicKeyAnswer_arrives`).
-/

namespace OpenWebId

variable {σ κ : Type}

/-- A span that whole seconds can state: the key ends in a later second than it starts in, and
a moment asked about is not before the second it starts in nor in or after the one it ends in. -/
structure Statable (validFrom validTo asked : Option DateTime) : Prop where
  ends : ∀ stop, validTo = some stop →
    ∃ start, validFrom = some start ∧ start.truncateToSecond < stop.truncateToSecond
  started : ∀ moment start, asked = some moment → validFrom = some start →
    start.truncateToSecond ≤ moment
  notEnded : ∀ moment stop, asked = some moment → validTo = some stop →
    moment < stop.truncateToSecond

namespace Endpoints

/-- What the checks of a span accept. -/
theorem checkSpan_ok_iff {validFrom validTo asked : Option DateTime} :
    checkSpan validFrom validTo asked = .ok () ↔
      (∀ stop, validTo = some stop → ∃ start, validFrom = some start ∧ start < stop) ∧
        ∀ moment, asked = some moment → (∀ start, validFrom = some start → start ≤ moment) ∧
          ∀ stop, validTo = some stop → moment < stop := by
  constructor
  · intro h
    refine ⟨fun stop hstop => checkSpan_ok h hstop, ?_⟩
    intro moment hasked
    subst hasked
    -- the moment is looked at once the span has been accepted
    simp only [checkSpan] at h
    split at h
    · cases h
    · split at h
      · cases h
      next hstarted =>
        split at h
        · cases h
        next hended =>
          constructor
          · intro start hstart
            exact Int.not_lt.mp fun hlt => hstarted ⟨start, hstart, hlt⟩
          · intro stop hstop
            exact Int.not_le.mp fun hle => hended ⟨stop, hstop, hle⟩
  · rintro ⟨hends, hasked⟩
    have hstarted : ∀ moment, asked = some moment → ¬ ∃ start ∈ validFrom, moment < start := by
      rintro moment hmoment ⟨start, hstart, hlt⟩
      exact absurd ((hasked moment hmoment).1 start hstart) (Int.not_le.mpr hlt)
    have hended : ∀ moment, asked = some moment → ¬ ∃ stop ∈ validTo, stop ≤ moment := by
      rintro moment hmoment ⟨stop, hstop, hle⟩
      exact absurd ((hasked moment hmoment).2 stop hstop) (Int.not_lt.mpr hle)
    cases validTo with
    | none =>
      cases asked with
      | none => rfl
      | some moment =>
        simp only [checkSpan, if_neg (hstarted moment rfl), if_neg (hended moment rfl)]
    | some stop =>
      obtain ⟨start, hstart, hlt⟩ := hends stop rfl
      subst hstart
      have hlater : ¬ stop ≤ start := Int.not_le.mpr hlt
      cases asked with
      | none => simp only [checkSpan, if_neg hlater]
      | some moment =>
        simp only [checkSpan, if_neg hlater, if_neg (hstarted moment rfl),
          if_neg (hended moment rfl)]

/-- The checks accept the moments that are read back of a span, and then the span is
statable. -/
theorem checkSpan_statable {validFrom validTo asked : Option DateTime} :
    checkSpan (validFrom.map DateTime.truncateToSecond) (validTo.map DateTime.truncateToSecond)
        asked = .ok () ↔ Statable validFrom validTo asked := by
  rw [checkSpan_ok_iff]
  constructor
  · rintro ⟨hends, hasked⟩
    refine ⟨fun stop hstop => ?_, fun moment start hmoment hstart => ?_,
      fun moment stop hmoment hstop => ?_⟩
    · subst hstop
      obtain ⟨start, hstart, hlt⟩ := hends _ rfl
      obtain ⟨first, hfirst, rfl⟩ := Option.map_eq_some_iff.mp hstart
      exact ⟨first, hfirst, hlt⟩
    · subst hstart
      exact (hasked moment hmoment).1 _ rfl
    · subst hstop
      exact (hasked moment hmoment).2 _ rfl
  · intro h
    refine ⟨fun stop hstop => ?_, fun moment hmoment => ⟨fun start hstart => ?_,
      fun stop hstop => ?_⟩⟩
    · obtain ⟨last, hlast, rfl⟩ := Option.map_eq_some_iff.mp hstop
      obtain ⟨start, hstart, hlt⟩ := h.ends last hlast
      exact ⟨_, Option.map_eq_some_iff.mpr ⟨start, hstart, rfl⟩, hlt⟩
    · obtain ⟨first, hfirst, rfl⟩ := Option.map_eq_some_iff.mp hstart
      exact h.started moment first hmoment hfirst
    · obtain ⟨last, hlast, rfl⟩ := Option.map_eq_some_iff.mp hstop
      exact h.notEnded moment last hmoment hlast

end Endpoints

/-- A span that is statable is statable of no moment in particular. -/
theorem Statable.unasked {validFrom validTo asked : Option DateTime}
    (h : Statable validFrom validTo asked) : Statable validFrom validTo none where
  ends := h.ends
  started _ _ hasked := by cases hasked
  notEnded _ _ hasked := by cases hasked

namespace Fetch

/-- The minute a moment is in, as the beginning of its second is counted. -/
theorem minutesOrNone_truncateToSecond {moment : Option DateTime}
    (hbase : ∀ d, moment = some d → baseDate ≤ d) :
    minutesOrNone (moment.map DateTime.truncateToSecond) =
      moment.map fun d => d.micros / microsPerMinute := by
  cases moment with
  | none => rfl
  | some moment =>
    have hnonneg : 0 ≤ moment.micros := hbase moment rfl
    have hlow : baseDate ≤ moment.truncateToSecond := by
      show 0 ≤ moment.micros / microsPerSecond * microsPerSecond
      exact Int.mul_nonneg (Int.ediv_nonneg hnonneg (by decide)) (by decide)
    rw [Option.map_some, minutesOrNone_seconds hlow (Int.dvd_mul_left _ _), Option.map_some]
    congr 1
    simp only [DateTime.truncateToSecond, microsPerMinute, microsPerSecond]
    omega

end Fetch

namespace Endpoints

variable {L : Stdlib} {P : Provider σ κ}

/-- A moment that is null or from the base date on is read as the beginning of its second. -/
theorem ReadsMoments.momentOf_option (h : ReadsMoments L) {moment : Option DateTime}
    (hbase : ∀ d, moment = some d → baseDate ≤ d) (field : String) :
    momentOf L (momentText L moment) field = .ok (moment.map DateTime.truncateToSecond) := by
  cases moment with
  | none => rfl
  | some d => exact h.momentOf (hbase d rfl) field

/-- The checks of an answer come to those of its key and of the span of whole seconds. -/
theorem validate_answerFields (h : ReadsMoments L) {pem : String}
    {validFrom validTo : Option DateTime} (hfrom : ∀ d, validFrom = some d → baseDate ≤ d)
    (hto : ∀ d, validTo = some d → baseDate ≤ d) (asked : Option DateTime) :
    validatePublicKeyAnswer L P (.obj (answerFields L pem validFrom validTo)) asked = (do
      let pem ← checkKey P (answerFields L pem validFrom validTo)
      checkSpan (validFrom.map DateTime.truncateToSecond)
        (validTo.map DateTime.truncateToSecond) asked
      .ok (pem, validFrom.map DateTime.truncateToSecond,
        validTo.map DateTime.truncateToSecond)) := by
  have hfromRead : momentOf L (get (answerFields L pem validFrom validTo) "validFrom")
      "validFrom" = .ok (validFrom.map DateTime.truncateToSecond) :=
    ReadsMoments.momentOf_option h hfrom "validFrom"
  have htoRead : momentOf L (get (answerFields L pem validFrom validTo) "validTo")
      "validTo" = .ok (validTo.map DateTime.truncateToSecond) :=
    ReadsMoments.momentOf_option h hto "validTo"
  simp only [validatePublicKeyAnswer, hfromRead, htoRead, ok_bind]

/-- Without a fault in the key or the span, the body is the answer written out. -/
theorem publicKeyAnswer_ok_iff (h : ReadsMoments L) {pem : String}
    {validFrom validTo : Option DateTime} (hfrom : ∀ d, validFrom = some d → baseDate ≤ d)
    (hto : ∀ d, validTo = some d → baseDate ≤ d) {asked : Option DateTime} {body : String} :
    publicKeyAnswer L P pem validFrom validTo asked = .ok body ↔
      (∃ crypto, Crypto.newVerifyOnly P pem = .ok crypto) ∧ Statable validFrom validTo asked ∧
        body = L.dumps (.obj (answerFields L pem validFrom validTo)) := by
  rw [publicKeyAnswer, validate_answerFields h hfrom hto]
  constructor
  · intro hbody
    obtain ⟨read, hvalid, hbody⟩ := bind_eq_ok.mp hbody
    obtain ⟨text, hkey, hrest⟩ := bind_eq_ok.mp hvalid
    obtain ⟨spanned, hspan, -⟩ := bind_eq_ok.mp hrest
    have hfield : get (answerFields L pem validFrom validTo) "publicKey" = .str pem := rfl
    obtain ⟨hpem, hcrypto⟩ := checkKey_ok hkey
    cases hfield.symm.trans hpem
    cases hbody
    exact ⟨hcrypto, checkSpan_statable.mp hspan, rfl⟩
  · rintro ⟨hcrypto, hspan, rfl⟩
    rw [Fetch.checkKey_answerFields L hcrypto, ok_bind, checkSpan_statable.mpr hspan]
    rfl

/-- What is refused is refused as an `OwidError`. -/
theorem publicKeyAnswer_error (h : ReadsMoments L) {pem : String}
    {validFrom validTo : Option DateTime} (hfrom : ∀ d, validFrom = some d → baseDate ≤ d)
    (hto : ∀ d, validTo = some d → baseDate ≤ d) {asked : Option DateTime} {e : PyExc}
    (he : publicKeyAnswer L P pem validFrom validTo asked = .error e) :
    e.isOwidError = true := by
  rw [publicKeyAnswer, validate_answerFields h hfrom hto] at he
  rcases bind_eq_error.mp he with hvalid | ⟨-, -, hok⟩
  · rcases bind_eq_error.mp hvalid with hkey | ⟨read, -, hspan⟩
    · exact checkKey_error hkey
    · rcases bind_eq_error.mp hspan with hspan | ⟨-, -, hok⟩
      · exact checkSpan_error hspan
      · cases hok
  · cases hok

/-- **What a creator sends a client reads.** Of a key and a span whose moments are from the base
date on, `public_key_answer` makes a body exactly where the key can be read and whole seconds can
state the span, for the moment asked about; what it raises otherwise is an `OwidError`; and a
client that is served the body, where it is short enough to be read, reads the key and the
minutes the moments are in, their lost fractions of a second making no difference. -/
theorem publicKeyAnswer_arrives (h : ReadsMoments L) {pem : String}
    {validFrom validTo : Option DateTime} (hfrom : ∀ d, validFrom = some d → baseDate ≤ d)
    (hto : ∀ d, validTo = some d → baseDate ≤ d)
    (hread : L.loads (L.dumps (.obj (answerFields L pem validFrom validTo))) =
      .ok (.obj (answerFields L pem validFrom validTo))) (asked : Option DateTime) :
    ((∃ body, publicKeyAnswer L P pem validFrom validTo asked = .ok body) ↔
        (∃ crypto, Crypto.newVerifyOnly P pem = .ok crypto) ∧
          Statable validFrom validTo asked) ∧
      (∀ e, publicKeyAnswer L P pem validFrom validTo asked = .error e → e.isOwidError = true) ∧
      ∀ body, publicKeyAnswer L P pem validFrom validTo asked = .ok body →
        ∀ (turn : Fetch.Turn) (url domain : String), Fetch.asks url = true →
          turn.reply url = .ok (200, Lib.encodeUtf8 body) →
          (Lib.encodeUtf8 body).length ≤ Fetch.maximumResponseBytes →
          Fetch.fetch L P turn url domain =
            .ok (pem, validFrom.map fun d => d.micros / microsPerMinute,
              validTo.map fun d => d.micros / microsPerMinute) := by
  refine ⟨⟨?_, ?_⟩, fun e he => publicKeyAnswer_error h hfrom hto he, ?_⟩
  · rintro ⟨body, hbody⟩
    obtain ⟨hcrypto, hspan, -⟩ := (publicKeyAnswer_ok_iff h hfrom hto).mp hbody
    exact ⟨hcrypto, hspan⟩
  · rintro ⟨hcrypto, hspan⟩
    exact ⟨_, (publicKeyAnswer_ok_iff h hfrom hto).mpr ⟨hcrypto, hspan, rfl⟩⟩
  · intro body hbody turn url domain hasks hreply hfits
    obtain ⟨hcrypto, hspan, rfl⟩ := (publicKeyAnswer_ok_iff h hfrom hto).mp hbody
    -- the client does not know the moment asked about, so only the span is left to it
    have hvalid : validatePublicKeyAnswer L P (.obj (answerFields L pem validFrom validTo)) none =
        .ok (pem, validFrom.map DateTime.truncateToSecond,
          validTo.map DateTime.truncateToSecond) := by
      rw [validate_answerFields h hfrom hto, Fetch.checkKey_answerFields L hcrypto, ok_bind,
        checkSpan_statable.mpr hspan.unasked, ok_bind]
    rw [Fetch.fetch_answer hasks hreply hfits hread hvalid domain,
      Fetch.minutesOrNone_truncateToSecond hfrom, Fetch.minutesOrNone_truncateToSecond hto]

/-- Half a second after the base date, and a quarter of a second later. -/
def baseAndHalf : DateTime := ⟨500000, by decide⟩

def baseAndMore : DateTime := ⟨750000, by decide⟩

/-- The answer for a key of one second, the moments of which lie within theirs. -/
def secondAnswer : Json :=
  .obj (answerFields Fetch.isoStdlib "key" (some baseAndHalf) (some Fetch.secondAndHalf))

/-- A standard library that writes and reads moments and that answer. -/
def secondStdlib : Stdlib :=
  { Fetch.plainStdlib [] [secondAnswer] with
    fromisoformat := Iso.fromisoformat, strftime := Iso.strftime }

theorem secondStdlib_reads : ReadsMoments secondStdlib where
  strftime _ _ := rfl
  fromisoformat _ _ h := h

theorem secondStdlib_loads :
    secondStdlib.loads (secondStdlib.dumps secondAnswer) = .ok secondAnswer := by
  simp [secondStdlib, Fetch.plainStdlib]

/-- The key that is stated for the one second is answered for a moment in it, and read by a
client as the key of the minute it is in. -/
theorem publicKeyAnswer_arrives_second :
    ∃ body, publicKeyAnswer secondStdlib .plain "key" (some baseAndHalf)
        (some Fetch.secondAndHalf) (some baseAndMore) = .ok body ∧
      ∀ (turn : Fetch.Turn) (url domain : String), Fetch.asks url = true →
        turn.reply url = .ok (200, Lib.encodeUtf8 body) →
        (Lib.encodeUtf8 body).length ≤ Fetch.maximumResponseBytes →
        Fetch.fetch secondStdlib .plain turn url domain = .ok ("key", some 0, some 0) := by
  have hfrom : ∀ d, some baseAndHalf = some d → baseDate ≤ d := by
    rintro d ⟨⟩
    decide
  have hto : ∀ d, some Fetch.secondAndHalf = some d → baseDate ≤ d := by
    rintro d ⟨⟩
    decide
  obtain ⟨hiff, -, harrives⟩ := publicKeyAnswer_arrives (P := Provider.plain)
    secondStdlib_reads hfrom hto secondStdlib_loads (some baseAndMore)
  have hstatable : Statable (some baseAndHalf) (some Fetch.secondAndHalf) (some baseAndMore) := by
    refine ⟨?_, ?_, ?_⟩
    · rintro stop ⟨⟩
      exact ⟨baseAndHalf, rfl, by decide⟩
    · rintro moment start ⟨⟩ ⟨⟩
      decide
    · rintro moment stop ⟨⟩ ⟨⟩
      decide
  obtain ⟨body, hbody⟩ := hiff.mpr ⟨⟨_, Provider.plain_newVerifyOnly (by decide)⟩, hstatable⟩
  exact ⟨body, hbody, harrives body hbody⟩

end Endpoints

end OpenWebId
