import OpenWebId.Lib.Utf8
import OpenWebId.StatedSpan

/-!
# A creator that publishes its schedule, and what a client learns from it

`serve` is a creator that answers every request with `public_key_response_at` over its
schedule. `InForceAt` is what the schedule says of minutes, `NoReturn` that no PEM comes
back after another, `Servable` what the schedule and the standard library are relied on
for (keys that can be read, starts on whole minutes, texts that read back as what was
written), and `Published` that a client accepts the bodies as well.

`Published.keyAtUrl` is the contract of one key obtained from such a creator, from the
cache or from a request: a cache that is true stays true, and what the client learned of
the minute is `Learned`. The key is the one in force at the minute where that is not in
the creator's future, and the span stated for it is a stretch of minutes at both of whose
ends the key is in force. What the two sides agree on is read off it.
-/

namespace OpenWebId

open Lib (Reaches)

variable {σ κ : Type}

namespace Fetch

/-- A creator's reply to a URL, at its own `now`. A schedule that fails its own checks
is answered with a server error. -/
def serve (L : Stdlib) (P : Provider σ κ) (schedule : PublicKeySchedule) (now : DateTime)
    (url : String) : Reply :=
  let pairs := Lib.Url.parseQsl (Lib.Url.queryOf url.toList)
  let date : Endpoints.DateParam :=
    match pairs.lookup "date" with
    | none => .absent
    | some text => .text text
  match Endpoints.publicKeyResponseAt L P schedule (pairs.lookup "format") date now with
  | .ok (code, body) => .ok (code, Lib.encodeUtf8 body)
  | .error _ => .ok (500, [])

/-- The PEM is in force at the minute. -/
def InForceAt (schedule : PublicKeySchedule) (minute : Int) (pem : String) : Prop :=
  ∃ moment key, moment.micros = minute * microsPerMinute ∧
    schedule.keyInForce moment = some key ∧ key.publicKeyPem = pem

/-- No PEM comes back after another PEM has been in force. -/
def NoReturn (schedule : PublicKeySchedule) : Prop :=
  ∀ d₁ d₂ d₃ k₁ k₂ k₃, d₁ ≤ d₂ → d₂ ≤ d₃ → schedule.keyInForce d₁ = some k₁ →
    schedule.keyInForce d₂ = some k₂ → schedule.keyInForce d₃ = some k₃ →
    k₁.publicKeyPem = k₃.publicKeyPem → k₂.publicKeyPem = k₁.publicKeyPem

/-- No two keys of the schedule have one PEM. -/
def Distinct (schedule : PublicKeySchedule) : Prop :=
  ∀ key ∈ schedule.keys, ∀ key' ∈ schedule.keys, key.publicKeyPem = key'.publicKeyPem → key = key'

/-- The answer a schedule has for one of its keys. -/
def answerOf (L : Stdlib) (schedule : PublicKeySchedule) (key : DatedPublicKey) : Json :=
  .obj (Endpoints.answerFields L key.publicKeyPem (some key.startsAt)
    (schedule.nextStartAfter key))

/-- A schedule that can be served, over this standard library. -/
structure Servable (L : Stdlib) (P : Provider σ κ) (schedule : PublicKeySchedule) : Prop where
  /-- Every key can be read. -/
  readable : ∀ key ∈ schedule.keys, ∃ crypto, Crypto.newVerifyOnly P key.publicKeyPem = .ok crypto
  /-- Every key starts on a whole minute. -/
  wholeMinutes : ∀ key ∈ schedule.keys, key.startsAt.micros % microsPerMinute = 0
  /-- `fromisoformat` reads the text `strftime` wrote of a start, once its `Z` is an
  offset. -/
  momentsRead : ∀ key ∈ schedule.keys,
    L.fromisoformat (Endpoints.isoText (L.strftime key.startsAt)) = some ⟨key.startsAt, some 0⟩
  /-- `json.loads` reads back what `json.dumps` wrote of an answer. -/
  answersRead : ∀ key ∈ schedule.keys,
    L.loads (L.dumps (answerOf L schedule key)) = .ok (answerOf L schedule key)
  /-- `json.dumps` writes ASCII. -/
  ascii : ∀ key ∈ schedule.keys, Lib.IsAscii (L.dumps (answerOf L schedule key))

/-- A schedule that can be served and whose answers a client accepts. -/
structure Published (L : Stdlib) (P : Provider σ κ) (schedule : PublicKeySchedule) : Prop
    extends Servable L P schedule where
  /-- No body is longer than a client accepts. -/
  fits : ∀ key ∈ schedule.keys,
    (Lib.encodeUtf8 (L.dumps (answerOf L schedule key))).length ≤ maximumResponseBytes

/-! ## The minutes of a schedule -/

section Minutes

variable {schedule : PublicKeySchedule}

theorem inForceAt_of_moment {moment : DateTime} {key : DatedPublicKey} {minute : Int}
    (hmicros : moment.micros = minute * microsPerMinute)
    (hkey : schedule.keyInForce moment = some key) : InForceAt schedule minute key.publicKeyPem :=
  ⟨moment, key, hmicros, hkey, rfl⟩

/-- A minute has one key. -/
theorem InForceAt.unique {minute : Int} {pem pem' : String} (h : InForceAt schedule minute pem)
    (h' : InForceAt schedule minute pem') : pem = pem' := by
  obtain ⟨moment, key, hmicros, hkey, hpem⟩ := h
  obtain ⟨moment', key', hmicros', hkey', hpem'⟩ := h'
  have hsame : moment = moment' := DateTime.ext (hmicros.trans hmicros'.symm)
  rw [hsame, hkey'] at hkey
  rw [← hpem, ← hpem', Option.some.inj hkey]

/-- Between a moment with a key and a later one there is a key at every moment. -/
theorem exists_keyInForce {d d' : DateTime} {key : DatedPublicKey}
    (h : schedule.keyInForce d = some key) (hle : d ≤ d') :
    ∃ key', schedule.keyInForce d' = some key' := by
  cases hkey : schedule.keyInForce d' with
  | some key' => exact ⟨key', rfl⟩
  | none =>
    have hforce := PublicKeySchedule.keyInForce_eq_some.mp h
    have hlate := PublicKeySchedule.keyInForce_eq_none.mp hkey key hforce.mem
    exact absurd (Int.le_trans hforce.started hle) (Int.not_le.mpr hlate)

/-- Where no PEM comes back, the minutes of one are an unbroken run. -/
theorem inForceAt_run (hreturn : NoReturn schedule) (pem : String) :
    {m | InForceAt schedule m pem}.OrdConnected := by
  refine ⟨fun a ha b hb m hm => ?_⟩
  obtain ⟨ham, hmb⟩ := hm
  obtain ⟨da, ka, hda, hka, hpa⟩ := ha
  obtain ⟨db, kb, hdb, hkb, hpb⟩ := hb
  have hlow : da.micros ≤ m * microsPerMinute := by
    rw [hda]
    exact mul_microsPerMinute_le_iff.mpr ham
  have hhigh : m * microsPerMinute ≤ db.micros := by
    rw [hdb]
    exact mul_microsPerMinute_le_iff.mpr hmb
  let dm : DateTime := ⟨m * microsPerMinute,
    Int.le_trans da.inRange.1 hlow, Int.le_trans hhigh db.inRange.2⟩
  obtain ⟨km, hkm⟩ : ∃ km, schedule.keyInForce dm = some km := exists_keyInForce hka hlow
  have hpem := hreturn da dm db ka km kb hlow hhigh hka hkm hkb (hpa.trans hpb.symm)
  exact ⟨dm, km, rfl, hkm, hpem.trans hpa⟩

/-- Keys with PEMs of their own do not come back. -/
theorem Distinct.noReturn (h : Distinct schedule) : NoReturn schedule := by
  intro d₁ d₂ d₃ k₁ k₂ k₃ h₁₂ h₂₃ hk₁ hk₂ hk₃ hpem
  have hforce₁ := PublicKeySchedule.keyInForce_eq_some.mp hk₁
  have hforce₂ := PublicKeySchedule.keyInForce_eq_some.mp hk₂
  have hforce₃ := PublicKeySchedule.keyInForce_eq_some.mp hk₃
  have hsame : k₁ = k₃ := h k₁ hforce₁.mem k₃ hforce₃.mem hpem
  subst hsame
  have hmid : PublicKeySchedule.InForce schedule.keys d₂ k₁ := by
    refine ⟨Int.le_trans hforce₁.started h₁₂, ?_, hforce₁.first⟩
    intro k hk hstarted
    exact hforce₃.latest k hk (Int.le_trans hstarted h₂₃)
  rw [hforce₂.unique hmid]

/-- A whole minute's count names it. -/
theorem micros_eq_of_whole {d : DateTime} (h : d.micros % microsPerMinute = 0) :
    d.micros / microsPerMinute * microsPerMinute = d.micros :=
  Int.ediv_mul_cancel (Int.dvd_of_emod_eq_zero h)

/-- Every minute of a key's period is a minute the key is in force at: from the minute of
its start on, and before the minute of the next start. -/
theorem inForceAt_period {asked : DateTime} {key : DatedPublicKey}
    (hkey : schedule.keyInForce asked = some key)
    (hwhole : key.startsAt.micros % microsPerMinute = 0)
    (hnextWhole : ∀ next, schedule.nextStartAfter key = some next →
      next.micros % microsPerMinute = 0) {minute : Int}
    (hstart : key.startsAt.micros / microsPerMinute ≤ minute)
    (hnext : ∀ next, schedule.nextStartAfter key = some next →
      minute < next.micros / microsPerMinute)
    (hmax : minute * microsPerMinute ≤ maxMoment) : InForceAt schedule minute key.publicKeyPem := by
  have hlow : key.startsAt.micros ≤ minute * microsPerMinute := by
    rw [← micros_eq_of_whole hwhole]
    exact mul_microsPerMinute_le_iff.mpr hstart
  -- the minute is one that the clock can show, as it is not before the start
  let moment : DateTime := ⟨minute * microsPerMinute,
    Int.le_trans key.startsAt.inRange.1 hlow, hmax⟩
  refine ⟨moment, key, rfl, PublicKeySchedule.keyInForce_period hkey hlow ?_, rfl⟩
  intro next hsome
  show minute * microsPerMinute < next.micros
  rw [← micros_eq_of_whole (hnextWhole next hsome)]
  exact mul_microsPerMinute_lt_iff.mpr (hnext next hsome)

end Minutes

/-! ## What the creator serves -/

section Creator

variable {L : Stdlib} {P : Provider σ κ} {schedule : PublicKeySchedule}

theorem Servable.nextWhole (h : Servable L P schedule) {key : DatedPublicKey} {next : DateTime}
    (hnext : schedule.nextStartAfter key = some next) : next.micros % microsPerMinute = 0 := by
  obtain ⟨-, ⟨k, hk, hstart⟩, -⟩ := PublicKeySchedule.nextStartAfter_eq_some hnext
  rw [← hstart]
  exact h.wholeMinutes k hk

/-- A start that was written reads back as itself. -/
theorem Servable.momentOf (h : Servable L P schedule) {key : DatedPublicKey}
    (hkey : key ∈ schedule.keys) (field : String) :
    Endpoints.momentOf L (Endpoints.momentText L (some key.startsAt)) field =
      .ok (some key.startsAt) := by
  have hin := key.startsAt.inRange
  simp only [Endpoints.momentText, Endpoints.momentOf, h.momentsRead key hkey, astimezone,
    DateTime.ofMicros, Int.sub_zero]
  rw [dif_pos hin]
  rfl

theorem Servable.momentOf_next (h : Servable L P schedule) (key : DatedPublicKey)
    (field : String) :
    Endpoints.momentOf L (Endpoints.momentText L (schedule.nextStartAfter key)) field =
      .ok (schedule.nextStartAfter key) := by
  cases hnext : schedule.nextStartAfter key with
  | none => rfl
  | some next =>
    obtain ⟨-, ⟨k, hk, hstart⟩, -⟩ := PublicKeySchedule.nextStartAfter_eq_some hnext
    rw [← hstart]
    exact h.momentOf hk field

/-- The checks of the format and the key accept the answer for a key that can be read. -/
theorem checkKey_answerFields (L : Stdlib) {pem : String}
    (hread : ∃ crypto, Crypto.newVerifyOnly P pem = .ok crypto)
    (validFrom validTo : Option DateTime) :
    Endpoints.checkKey P (Endpoints.answerFields L pem validFrom validTo) = .ok pem := by
  obtain ⟨crypto, hread⟩ := hread
  have hfield : Endpoints.get (Endpoints.answerFields L pem validFrom validTo) "publicKey" =
      .str pem := rfl
  have hformat : Endpoints.readsFormat (Endpoints.answerFields L pem validFrom validTo) = true :=
    rfl
  simp only [Endpoints.checkKey, hformat, hfield, if_neg (Crypto.newVerifyOnly_nonempty hread).2,
    hread]
  rfl

/-- The checks accept the answer for a key in force, for the moment asked about and for
none. -/
theorem Servable.validate (h : Servable L P schedule) {key : DatedPublicKey} {moment : DateTime}
    (hkey : schedule.keyInForce moment = some key) {asked : Option DateTime}
    (hasked : asked = none ∨ asked = some moment) :
    Endpoints.validatePublicKeyAnswer L P (answerOf L schedule key) asked =
      .ok (key.publicKeyPem, some key.startsAt, schedule.nextStartAfter key) := by
  have hmem := (PublicKeySchedule.keyInForce_eq_some.mp hkey).mem
  obtain ⟨hstarted, hbefore⟩ := PublicKeySchedule.keyInForce_bounds hkey
  have hcheck := checkKey_answerFields L (h.readable key hmem) (some key.startsAt)
    (schedule.nextStartAfter key)
  -- the moment is in the span: from the start on, and before the next start
  have hspan : Endpoints.checkSpan (some key.startsAt) (schedule.nextStartAfter key) asked =
      .ok () := by
    have hnotLate : ¬ moment < key.startsAt := Int.not_lt.mpr hstarted
    cases hnext : schedule.nextStartAfter key with
    | none =>
      rcases hasked with hnone | hsome
      · subst hnone
        rfl
      · subst hsome
        simp [Endpoints.checkSpan, hnotLate]
    | some next =>
      have hafter := (PublicKeySchedule.nextStartAfter_eq_some hnext).1
      have hnotEnded : ¬ next ≤ key.startsAt := Int.not_le.mpr hafter
      have hnotPast : ¬ next ≤ moment := Int.not_le.mpr (hbefore next hnext)
      rcases hasked with hnone | hsome
      · subst hnone
        simp [Endpoints.checkSpan, hnotEnded]
      · subst hsome
        simp [Endpoints.checkSpan, hnotLate, hnotEnded, hnotPast]
  have hfrom : Endpoints.momentOf L (Endpoints.get (Endpoints.answerFields L key.publicKeyPem
      (some key.startsAt) (schedule.nextStartAfter key)) "validFrom") "validFrom" =
      .ok (some key.startsAt) := h.momentOf hmem "validFrom"
  have hto : Endpoints.momentOf L (Endpoints.get (Endpoints.answerFields L key.publicKeyPem
      (some key.startsAt) (schedule.nextStartAfter key)) "validTo") "validTo" =
      .ok (schedule.nextStartAfter key) := h.momentOf_next key "validTo"
  simp only [answerOf, Endpoints.validatePublicKeyAnswer, hcheck, hfrom, hto, ok_bind, hspan]

/-- The response for a moment: the key in force then, or that there is none. -/
theorem Servable.answerAt (h : Servable L P schedule) (asked : DateTime) :
    Endpoints.answerAt L P schedule asked =
      match schedule.keyInForce asked with
      | none => .ok (404, "")
      | some key => .ok (200, L.dumps (answerOf L schedule key)) := by
  cases hkey : schedule.keyInForce asked with
  | none => simp only [Endpoints.answerAt, hkey]
  | some key =>
    have hvalid := h.validate hkey (Or.inr rfl)
    rw [answerOf] at hvalid
    simp only [Endpoints.answerAt, hkey, Endpoints.publicKeyAnswer]
    rw [hvalid, ok_bind, ok_bind]
    rfl

/-- The moment a creator reads out of a minute: the minute's own, unless that is later
than its now. -/
def momentRead (now : DateTime) (minute : Nat) : DateTime :=
  if h : minute ≤ maximumMinutes then
    if now < atMinute minute h then now else atMinute minute h
  else now

theorem askedMoment_eq (now : DateTime) (minute : Nat) :
    Endpoints.askedMoment now (minute : Int) = .ok (momentRead now minute) := by
  unfold Endpoints.askedMoment momentRead
  by_cases h : minute ≤ maximumMinutes
  · have hadd := baseDate_add_minutes h
    rw [if_pos (Int.ofNat_le.mpr h), dif_pos h, hadd, ok_bind]
  · have hnot : ¬ (minute : Int) ≤ maximumMinutes := by omega
    rw [if_neg hnot, dif_neg h, ok_bind]
    simp

/-- A minute that is not in the creator's future is read as itself. -/
theorem momentRead_micros {now : DateTime} {minute : Nat}
    (h : (minute : Int) * microsPerMinute ≤ now.micros) :
    (momentRead now minute).micros = minute * microsPerMinute := by
  have hfits : minute ≤ maximumMinutes := by
    have hmax := now.inRange.2
    rw [maximumMinutes_eq]
    simp only [maxMoment, microsPerMinute, microsPerDay, microsPerHour, microsPerSecond]
      at h hmax
    omega
  have hnot : ¬ now < atMinute minute hfits := Int.not_lt.mpr h
  rw [momentRead, dif_pos hfits, if_neg hnot]
  rfl

/-- A minute in the creator's future is read as its now. -/
theorem momentRead_future {now : DateTime} {minute : Nat}
    (h : now.micros < (minute : Int) * microsPerMinute) : momentRead now minute = now := by
  unfold momentRead
  split
  next hfits =>
    have hlate : now < atMinute minute hfits := h
    rw [if_pos hlate]
  next => rfl

/-- A request for a minute is answered with the key in force at the moment read. -/
theorem Servable.serve_dateUrl (h : Servable L P schedule) (now : DateTime) {base : String}
    (hbase : Clean base) {minute : Nat} (hminute : minute ≤ 0xFFFFFFFF) :
    serve L P schedule now (dateUrl base minute) =
      match schedule.keyInForce (momentRead now minute) with
      | none => .ok (404, [])
      | some key => .ok (200, Lib.encodeUtf8 (L.dumps (answerOf L schedule key))) := by
  have hdigits : (toString minute) ≠ "" ∧ (toString minute).toList.all Char.isDigit = true := by
    refine ⟨fun he => Lib.repr_ne_nil minute (by rw [he]; rfl), ?_⟩
    rw [List.all_eq_true]
    intro c hc
    exact Lib.isDigit_of_mem_repr hc
  have hminutes : Endpoints.minutesOf (.text (toString minute)) = .ok (some (minute : Int)) := by
    simp only [Endpoints.minutesOf, if_pos hdigits, Lib.unsignedOfText_toString (lt_intMax hminute)]
    rw [if_neg (by omega)]
  have hpresent : ¬ ((Endpoints.DateParam.text (toString minute) = .absent) ∨
      (Endpoints.DateParam.text (toString minute) = .text "")) := by
    intro hor
    rcases hor with habsent | hempty
    · cases habsent
    · exact hdigits.1 (Endpoints.DateParam.text.inj hempty)
  -- the query has the two fields the URL was built with
  have hpairs := parseQsl_dateQuery minute
  have hformat : Endpoints.checkFormat (some spkiFormat) = .ok () := rfl
  have hlookupDate : List.lookup "date" [("date", toString minute), ("format", spkiFormat)] =
      some (toString minute) := rfl
  have hlookupFormat : List.lookup "format" [("date", toString minute), ("format", spkiFormat)] =
      some spkiFormat := rfl
  simp only [serve, queryOf_dateUrl hbase, hpairs, hlookupDate, hlookupFormat,
    Endpoints.publicKeyResponseAt, hformat, if_neg hpresent, hminutes, ok_bind, askedMoment_eq,
    h.answerAt]
  split
  next code body heq =>
    split at heq
    · cases heq
      rfl
    · cases heq
      rfl
  next e heq =>
    split at heq <;> cases heq

/-- Whatever is asked, a 200 carries the answer for a key of the schedule in force at some
moment that is not later than the creator's now. -/
theorem Servable.serve_answers (h : Servable L P schedule) {now : DateTime} {url : String}
    {body : Bytes} (hserve : serve L P schedule now url = .ok (200, body)) :
    ∃ asked key, asked ≤ now ∧ schedule.keyInForce asked = some key ∧
      body = Lib.encodeUtf8 (L.dumps (answerOf L schedule key)) := by
  simp only [serve] at hserve
  split at hserve
  next code text hresponse =>
    cases hserve
    obtain ⟨asked, hasked, hanswer⟩ := Endpoints.publicKeyResponseAt_ok hresponse
    rw [h.answerAt] at hanswer
    split at hanswer
    next => cases hanswer
    next key hkey =>
      cases hanswer
      exact ⟨asked, key, hasked, hkey, rfl⟩
  next => cases hserve

/-- The same, at any now. -/
theorem Servable.serve_ok (h : Servable L P schedule) {now : DateTime} {url : String}
    {body : Bytes} (hserve : serve L P schedule now url = .ok (200, body)) :
    ∃ asked key, schedule.keyInForce asked = some key ∧
      body = Lib.encodeUtf8 (L.dumps (answerOf L schedule key)) := by
  obtain ⟨asked, key, -, hkey, hbody⟩ := h.serve_answers hserve
  exact ⟨asked, key, hkey, hbody⟩

end Creator

/-! ## What the client learns -/

/-- The cache knows only what the schedule says, for every end point. -/
def TrueTo (schedule : PublicKeySchedule) (cache : Cache) : Prop :=
  Sound (fun _ minute pem => InForceAt schedule minute pem) cache

/-- What is stated of a key's span is a stretch of minutes at both of whose ends the key
is in force; a stretch with no end has a first minute alone. -/
structure Honest (schedule : PublicKeySchedule) (answer : KeyAnswer) : Prop where
  first : answer.known = true → InForceAt schedule answer.first answer.pem
  last : answer.known = true → answer.last < lastMinute →
    InForceAt schedule answer.last answer.pem

section Client

variable {L : Stdlib} {P : Provider σ κ} {schedule : PublicKeySchedule}

/-- A client that is served an answer that the checks accept reads what they make of it. -/
theorem fetch_answer {turn : Turn} {url : String} (hasks : asks url = true) {answer : Json}
    (hreply : turn.reply url = .ok (200, Lib.encodeUtf8 (L.dumps answer)))
    (hfits : (Lib.encodeUtf8 (L.dumps answer)).length ≤ maximumResponseBytes)
    (hread : L.loads (L.dumps answer) = .ok answer) {pem : String}
    {validFrom validTo : Option DateTime}
    (hvalid : Endpoints.validatePublicKeyAnswer L P answer none = .ok (pem, validFrom, validTo))
    (domain : String) :
    Fetch.fetch L P turn url domain =
      .ok (pem, minutesOrNone validFrom, minutesOrNone validTo) := by
  have hbody : readReply domain (turn.reply url) = .ok (L.dumps answer) := by
    rw [hreply]
    simp only [readReply, if_neg (Nat.not_lt.mpr hfits), Lib.decodeUtf8_encodeUtf8]
    rfl
  have hnot : ¬ asks url = false := by
    rw [hasks]
    exact Bool.noConfusion
  rw [Fetch.fetch, read, if_neg hnot, hbody, ok_bind]
  exact parseAnswer_of_valid hread hvalid domain

/-- A client that is served the answer for a key reads the key and the minutes of its
period. -/
theorem Published.fetch (h : Published L P schedule) {turn : Turn} {url domain : String}
    (hasks : asks url = true) {asked : DateTime} {key : DatedPublicKey}
    (hkey : schedule.keyInForce asked = some key)
    (hreply : turn.reply url = .ok (200, Lib.encodeUtf8 (L.dumps (answerOf L schedule key)))) :
    fetch L P turn url domain = .ok (key.publicKeyPem, minutesOrNone (some key.startsAt),
      minutesOrNone (schedule.nextStartAfter key)) := by
  have hmem := (PublicKeySchedule.keyInForce_eq_some.mp hkey).mem
  exact fetch_answer hasks hreply (h.fits key hmem) (h.answersRead key hmem)
    (h.validate hkey (Or.inl rfl)) domain

/-- Every minute of a published key's period is one it is in force at. -/
theorem Servable.counts (h : Servable L P schedule) {asked : DateTime} {key : DatedPublicKey}
    (hkey : schedule.keyInForce asked = some key) {minute : Int}
    (hstart : key.startsAt.micros / microsPerMinute ≤ minute)
    (hnext : ∀ next, schedule.nextStartAfter key = some next →
      minute < next.micros / microsPerMinute)
    (hmax : minute * microsPerMinute ≤ maxMoment) : InForceAt schedule minute key.publicKeyPem :=
  inForceAt_period hkey
    (h.wholeMinutes key (PublicKeySchedule.keyInForce_eq_some.mp hkey).mem)
    (fun _ hsome => h.nextWhole hsome) hstart hnext hmax

/-- The start of a period is a minute before that of its end. -/
theorem Servable.start_lt_next (h : Servable L P schedule) {key : DatedPublicKey}
    (hkey : key ∈ schedule.keys) {next : DateTime}
    (hnext : schedule.nextStartAfter key = some next) :
    key.startsAt.micros / microsPerMinute < next.micros / microsPerMinute := by
  have hafter : key.startsAt.micros < next.micros :=
    (PublicKeySchedule.nextStartAfter_eq_some hnext).1
  have hstart := micros_eq_of_whole (h.wholeMinutes key hkey)
  have hstop := micros_eq_of_whole (h.nextWhole hnext)
  rw [← hstart, ← hstop] at hafter
  exact mul_microsPerMinute_lt_iff.mp hafter

/-- The minute of a moment is within the range of `datetime`. -/
theorem minute_le_maxMoment (moment : DateTime) {minute : Int}
    (h : minute ≤ moment.micros / microsPerMinute) : minute * microsPerMinute ≤ maxMoment := by
  have hmax := moment.inRange.2
  simp only [maxMoment, microsPerMinute, microsPerDay, microsPerHour, microsPerSecond]
    at h hmax ⊢
  omega

/-- Every minute that an answer for a key confirms is one the key is in force at: those of
the period it states, or the minute asked about where the start is not counted. -/
theorem Servable.confirmed (h : Servable L P schedule) {now later : DateTime} {url : String}
    {asked : DateTime} {key : DatedPublicKey} (hkey : schedule.keyInForce asked = some key)
    (hcounted : baseDate ≤ key.startsAt ∨
      ∀ minute, namedMinute url = some minute → InForceAt schedule minute key.publicKeyPem)
    {new : HeldKey}
    (hnew : confirmed now later url key.publicKeyPem (minutesOrNone (some key.startsAt))
      (minutesOrNone (schedule.nextStartAfter key)) = some new) {minute : Int}
    (hfirst : new.first ≤ minute) (hlast : minute ≤ new.last) :
    InForceAt schedule minute new.pem := by
  rw [confirmed_pem hnew]
  have hmem := (PublicKeySchedule.keyInForce_eq_some.mp hkey).mem
  by_cases hbase : baseDate ≤ key.startsAt
  · rw [minutesOrNone_whole hbase (h.wholeMinutes key hmem)] at hnew
    cases hnext : schedule.nextStartAfter key with
    | none =>
      -- the last key: it is held up to a moment of the clock, and has no end
      rw [hnext] at hnew
      simp only [minutesOrNone, Fetch.confirmed] at hnew
      cases hnew
      refine h.counts hkey hfirst (fun next hsome => ?_) ?_
      · rw [hnext] at hsome
        cases hsome
      · have hlater := minutesSinceBase_le later
        have hmax := key.startsAt.inRange.2
        rw [maximumMinutes_eq] at hlater
        simp only [clockDriftAllowanceMinutes] at hlast
        simp only [maxMoment, microsPerMinute, microsPerDay, microsPerHour, microsPerSecond]
          at hmax hlast ⊢
        omega
    | some next =>
      have hlt := h.start_lt_next hmem hnext
      have hafter : baseDate ≤ next :=
        Int.le_trans hbase (Int.le_of_lt (DateTime.lt_of_minute_lt hlt))
      rw [hnext, minutesOrNone_whole hafter (h.nextWhole hnext)] at hnew
      simp only [Fetch.confirmed, dif_pos hlt] at hnew
      cases hnew
      have hstop : minute < next.micros / microsPerMinute := by
        simp only at hlast
        omega
      refine h.counts hkey hfirst (fun next' hsome => ?_)
        (minute_le_maxMoment next (Int.le_of_lt hstop))
      rw [hnext] at hsome
      cases hsome
      exact hstop
  · rw [minutesOrNone_of_lt (Int.not_le.mp hbase)] at hnew
    simp only [Fetch.confirmed] at hnew
    split at hnew
    next named hrecency =>
      cases hnew
      have hnamed : namedMinute url = some named := by
        cases hurl : namedMinute url with
        | none =>
          simp only [minuteAndRecency, hurl] at hrecency
          exact congrArg Prod.fst hrecency
        | some named' =>
          simp only [minuteAndRecency, hurl] at hrecency
          exact congrArg Prod.fst hrecency
      have hm : minute = named := Int.le_antisymm hlast hfirst
      rw [hm]
      exact hcounted.resolve_left hbase named hnamed
    next => cases hnew

/-- Holding an answer for a key keeps the cache true. -/
theorem Servable.hold (h : Servable L P schedule) (hreturn : NoReturn schedule) {cache : Cache}
    (hcache : TrueTo schedule cache) {now later : DateTime} {endPoint url : String}
    {asked : DateTime} {key : DatedPublicKey} (hkey : schedule.keyInForce asked = some key)
    (hcounted : baseDate ≤ key.startsAt ∨
      ∀ minute, namedMinute url = some minute → InForceAt schedule minute key.publicKeyPem) :
    TrueTo schedule (hold cache now later endPoint url key.publicKeyPem
      (minutesOrNone (some key.startsAt)) (minutesOrNone (schedule.nextStartAfter key))).2 := by
  rw [hold_eq]
  simp only
  split
  next => exact hcache
  next new hnew =>
    refine Sound.record (fun _ pem => inForceAt_run hreturn pem) hcache ?_
    intro minute hfirst hlast
    exact h.confirmed hkey hcounted hnew hfirst hlast

/-- The span stated of a key that is in force is honest, and covers every minute of the
period that the last minute can be counted to. -/
theorem Servable.stated (h : Servable L P schedule) {asked : DateTime} {key : DatedPublicKey}
    (hkey : schedule.keyInForce asked = some key) :
    Honest schedule (stated key.publicKeyPem (minutesOrNone (some key.startsAt))
      (minutesOrNone (schedule.nextStartAfter key))) := by
  have hmem := (PublicKeySchedule.keyInForce_eq_some.mp hkey).mem
  by_cases hbase : baseDate ≤ key.startsAt
  · rw [minutesOrNone_whole hbase (h.wholeMinutes key hmem)]
    have hfirst : InForceAt schedule (key.startsAt.micros / microsPerMinute) key.publicKeyPem :=
      h.counts hkey (Int.le_refl _) (fun next hsome => h.start_lt_next hmem hsome)
        (minute_le_maxMoment key.startsAt (Int.le_refl _))
    cases hnext : schedule.nextStartAfter key with
    | none => exact ⟨fun _ => hfirst, fun _ hlast => absurd hlast (Int.lt_irrefl _)⟩
    | some next =>
      have hlt := h.start_lt_next hmem hnext
      have hafter : baseDate ≤ next :=
        Int.le_trans hbase (Int.le_of_lt (DateTime.lt_of_minute_lt hlt))
      rw [minutesOrNone_whole hafter (h.nextWhole hnext)]
      simp only [Fetch.stated, if_pos hlt]
      -- the last minute is the one before the next start, and still in the period
      refine ⟨fun _ => hfirst, fun _ _ => ?_⟩
      refine h.counts hkey (Int.le_sub_one_of_lt hlt) (fun next' hsome => ?_)
        (minute_le_maxMoment next (Int.sub_le_self _ (by decide)))
      rw [hnext] at hsome
      cases hsome
      exact Int.sub_one_lt_of_le (Int.le_refl _)
  · rw [minutesOrNone_of_lt (Int.not_le.mp hbase)]
    exact ⟨fun hknown => Bool.noConfusion hknown, fun hknown => Bool.noConfusion hknown⟩

/-- The span stated of a key that is in force for the whole of the span it is held for is
honest. -/
theorem honest_statedFor {key : HeldKey} (hat : ∀ minute, key.first ≤ minute →
    minute ≤ key.last → InForceAt schedule minute key.pem) : Honest schedule (statedFor key) := by
  have hfirst := hat key.first (Int.le_refl _) key.ordered
  have hlast := hat key.last key.ordered (Int.le_refl _)
  unfold Fetch.statedFor
  split
  · exact ⟨fun _ => hfirst, fun _ _ => hlast⟩
  · split
    · exact ⟨fun _ => hfirst, fun _ hlt => absurd hlt (Int.lt_irrefl _)⟩
    · exact ⟨fun hknown => Bool.noConfusion hknown, fun hknown => Bool.noConfusion hknown⟩

end Client

/-! ## One key -/

/-- What a client is told when it asks a creator for a minute, at the creator's now: a
key, with an honest span, or that there is none. A minute up to now is answered for
itself. A later one is answered for now. -/
inductive Learned (schedule : PublicKeySchedule) (now : DateTime) (minute : Nat) :
    Except PyExc KeyAnswer → Prop
  | key {answer : KeyAnswer} (honest : Honest schedule answer)
      (past : (minute : Int) * microsPerMinute ≤ now.micros →
        InForceAt schedule minute answer.pem ∧
          (answer.known = true → answer.covers minute = true))
      (future : now.micros < (minute : Int) * microsPerMinute →
        InForceAt schedule minute answer.pem ∨
          ∃ key, schedule.keyInForce now = some key ∧ key.publicKeyPem = answer.pem) :
      Learned schedule now minute (.ok answer)
  | none {e : PyExc} (status : failedStatus e = .ok .keyUnavailable)
      (owid : e.isOwidError = true)
      (past : (minute : Int) * microsPerMinute ≤ now.micros →
        ∀ pem, ¬ InForceAt schedule minute pem) :
      Learned schedule now minute (.error e)

/-- A held key covers the minute it is served for. -/
theorem statedFor_covers {key : HeldKey} {minute : Nat} (hminute : minute ≤ 0xFFFFFFFF)
    (hfirst : key.first ≤ minute) (hlast : (minute : Int) ≤ key.last)
    (hknown : (statedFor key).known = true) : (statedFor key).covers minute = true := by
  have hbound : (minute : Int) ≤ lastMinute := by
    simp only [lastMinute]
    omega
  unfold statedFor at hknown ⊢
  split
  · exact decide_eq_true ⟨hfirst, hlast⟩
  next hexplicit =>
    rw [if_neg hexplicit] at hknown
    split
    · exact decide_eq_true ⟨hfirst, hbound⟩
    next hopen =>
      rw [if_neg hopen] at hknown
      cases hknown

section One

variable {L : Stdlib} {P : Provider σ κ} {schedule : PublicKeySchedule}

/-- The span stated of a key in force at a minute covers it. -/
theorem Servable.stated_covers (h : Servable L P schedule) {asked : DateTime}
    {key : DatedPublicKey} (hkey : schedule.keyInForce asked = some key) {minute : Nat}
    (hminute : minute ≤ 0xFFFFFFFF) (hmicros : asked.micros = minute * microsPerMinute)
    (hknown : (Fetch.stated key.publicKeyPem (minutesOrNone (some key.startsAt))
      (minutesOrNone (schedule.nextStartAfter key))).known = true) :
    (Fetch.stated key.publicKeyPem (minutesOrNone (some key.startsAt))
      (minutesOrNone (schedule.nextStartAfter key))).covers minute = true := by
  have hmem := (PublicKeySchedule.keyInForce_eq_some.mp hkey).mem
  obtain ⟨hstarted, hbefore⟩ := PublicKeySchedule.keyInForce_bounds hkey
  by_cases hbase : baseDate ≤ key.startsAt
  · have hbound : (minute : Int) ≤ lastMinute := by
      simp only [lastMinute]
      omega
    have hstart := minutesSinceBase_whole hbase (h.wholeMinutes key hmem)
    -- the next start is later, and so is counted as well
    have hstop : ∀ next, schedule.nextStartAfter key = some next →
        minutesSinceBase next = next.micros / microsPerMinute := by
      intro next hnext
      have hlt := h.start_lt_next hmem hnext
      exact minutesSinceBase_whole
        (Int.le_trans hbase (Int.le_of_lt (DateTime.lt_of_minute_lt hlt))) (h.nextWhole hnext)
    refine (Fetch.stated_covers hbase (fun next hnext => ?_) hbound).2.mpr ⟨?_, ?_⟩
    · rw [hstart, hstop next hnext]
      exact h.start_lt_next hmem hnext
    · have hle : key.startsAt.micros ≤ minute * microsPerMinute := hmicros ▸ hstarted
      rw [hstart]
      simp only [microsPerMinute, microsPerSecond] at hle ⊢
      omega
    · intro next hnext
      have hlt : (minute : Int) * microsPerMinute < next.micros := hmicros ▸ hbefore next hnext
      rw [← micros_eq_of_whole (h.nextWhole hnext)] at hlt
      rw [hstop next hnext]
      exact mul_microsPerMinute_lt_iff.mp hlt
  · rw [stated_before_base (Int.not_le.mp hbase)] at hknown
    cases hknown

/-- A request that is answered 404 is a key that is not there. -/
theorem fetch_notFound (L : Stdlib) (P : Provider σ κ) {turn : Turn} {url : String}
    (domain : String) (hasks : asks url = true) (hreply : turn.reply url = .ok (404, [])) :
    ∃ e, Fetch.fetch L P turn url domain = .error e ∧ failedStatus e = .ok .keyUnavailable ∧
      e.isOwidError = true := by
  have hnot : ¬ asks url = false := by
    rw [hasks]
    exact Bool.noConfusion
  have hread : read turn url domain = readReply domain (.ok (404, [])) := by
    rw [read, if_neg hnot, hreply]
  rw [Fetch.fetch, hread]
  exact ⟨_, rfl, rfl, rfl⟩

/-- What a key says of a minute in the span it is held for, where it is in force for the
whole of it. -/
theorem Learned.of_held {key : HeldKey} (hat : ∀ minute, key.first ≤ minute →
    minute ≤ key.last → InForceAt schedule minute key.pem) {minute : Nat}
    (hminute : minute ≤ 0xFFFFFFFF) (hfirst : key.first ≤ minute)
    (hlast : (minute : Int) ≤ key.last) (now : DateTime) :
    Learned schedule now minute (.ok (statedFor key)) := by
  have hforce : InForceAt schedule minute (statedFor key).pem := by
    rw [statedFor_pem]
    exact hat minute hfirst hlast
  exact .key (honest_statedFor hat) (fun _ => ⟨hforce, statedFor_covers hminute hfirst hlast⟩)
    fun _ => Or.inl hforce

/-- What a client makes of a creator's reply for a minute: nothing, or the key in force at
the moment the creator reads, with the minutes of its period. -/
theorem Published.learned_fetch (h : Published L P schedule) {turn : Turn} {now : DateTime}
    {base : String} (hbase : Clean base) {minute : Nat} (hminute : minute ≤ 0xFFFFFFFF)
    (hasks : asks (dateUrl base minute) = true)
    (hreply : turn.reply (dateUrl base minute) = serve L P schedule now (dateUrl base minute))
    (domain : String) :
    (∃ e, Fetch.fetch L P turn (dateUrl base minute) domain = .error e ∧
      Learned schedule now minute (.error e)) ∨
    ∃ key, schedule.keyInForce (momentRead now minute) = some key ∧
      Fetch.fetch L P turn (dateUrl base minute) domain = .ok (key.publicKeyPem,
        minutesOrNone (some key.startsAt), minutesOrNone (schedule.nextStartAfter key)) ∧
      Learned schedule now minute (.ok (stated key.publicKeyPem
        (minutesOrNone (some key.startsAt)) (minutesOrNone (schedule.nextStartAfter key)))) := by
  rw [h.serve_dateUrl now hbase hminute] at hreply
  cases hkey : schedule.keyInForce (momentRead now minute) with
  | none =>
    rw [hkey] at hreply
    obtain ⟨e, hfetch, hstatus, howid⟩ := fetch_notFound L P domain hasks hreply
    refine Or.inl ⟨e, hfetch, .none hstatus howid ?_⟩
    intro hpast pem hforce
    obtain ⟨moment, key, hmicros, hsome, -⟩ := hforce
    have hsame : moment = momentRead now minute :=
      DateTime.ext (hmicros.trans (momentRead_micros hpast).symm)
    rw [hsame, hkey] at hsome
    cases hsome
  | some key =>
    rw [hkey] at hreply
    refine Or.inr ⟨key, rfl, h.fetch hasks hkey hreply, ?_⟩
    refine .key (h.stated hkey) (fun hle => ?_) (fun hlt => ?_)
    · rw [stated_pem]
      exact ⟨inForceAt_of_moment (momentRead_micros hle) hkey,
        h.stated_covers hkey hminute (momentRead_micros hle)⟩
    · rw [stated_pem]
      rw [momentRead_future hlt] at hkey
      exact Or.inr ⟨key, hkey, rfl⟩

/-- A key that is not held is asked for, and held. -/
theorem Published.keyAtUrl_hold (h : Published L P schedule) {turn : Turn} {now : DateTime}
    {base : String} (hbase : Clean base) {minute : Nat} (hminute : minute ≤ 0xFFFFFFFF)
    (hasks : asks (dateUrl base minute) = true)
    (hreply : turn.reply (dateUrl base minute) = serve L P schedule now (dateUrl base minute))
    {key : DatedPublicKey} (hkey : schedule.keyInForce (momentRead now minute) = some key)
    {cache : Cache} (hheld : heldFor cache turn.heldNow base (dateUrl base minute) = none)
    (domain : String) :
    (Fetch.keyAtUrl L P turn cache (dateUrl base minute) domain).result =
        .ok (Fetch.stated key.publicKeyPem (minutesOrNone (some key.startsAt))
          (minutesOrNone (schedule.nextStartAfter key))) ∧
      (Fetch.keyAtUrl L P turn cache (dateUrl base minute) domain).cache =
        (Fetch.hold cache turn.holdNow turn.holdLater base (dateUrl base minute)
          key.publicKeyPem (minutesOrNone (some key.startsAt))
          (minutesOrNone (schedule.nextStartAfter key))).2 := by
  rw [h.serve_dateUrl now hbase hminute, hkey] at hreply
  simp only [Fetch.keyAtUrl, endPointOf_dateUrl hbase, hheld, h.fetch hasks hkey hreply]
  exact ⟨rfl, trivial⟩

/-- **One key obtained from a creator that publishes its schedule.** -/
theorem Published.keyAtUrl (h : Published L P schedule) (hreturn : NoReturn schedule)
    {cache : Cache} (hcache : TrueTo schedule cache) {turn : Turn} {now : DateTime} {base : String}
    (hbase : Clean base) {minute : Nat} (hminute : minute ≤ 0xFFFFFFFF)
    (hasks : asks (dateUrl base minute) = true)
    (hreply : turn.reply (dateUrl base minute) = serve L P schedule now (dateUrl base minute))
    (hcounted : (∀ key ∈ schedule.keys, baseDate ≤ key.startsAt) ∨
      (minute : Int) * microsPerMinute ≤ now.micros) {domain : String} {out : Outcome KeyAnswer}
    (hout : Fetch.keyAtUrl L P turn cache (dateUrl base minute) domain = out) :
    TrueTo schedule out.cache ∧ Learned schedule now minute out.result := by
  have hnamed := namedMinute_dateUrl hbase hminute
  have hobtained := keyAtUrl_obtained L P turn cache (dateUrl base minute) domain
  rw [hout] at hobtained
  have hlearned := h.learned_fetch hbase hminute hasks hreply domain
  cases hobtained with
  | served hheld =>
    -- the cache is true, so the key is in force at the minute whenever that is
    obtain ⟨minute', key, hminute', hkey, hfirst, hlast, rfl, -⟩ := heldFor_known hheld
    cases hnamed.symm.trans hminute'
    refine ⟨hcache, .of_held ?_ hminute hfirst hlast now⟩
    intro m hmfirst hmlast
    exact hcache (endPointOf (dateUrl base minute)) key.pem m ⟨key, hkey, rfl, hmfirst, hmlast⟩
  | failed hfailed =>
    rcases hlearned with ⟨e, hfetch, hnone⟩ | ⟨key, -, hfetch, -⟩
    · cases hfetch.symm.trans hfailed
      exact ⟨hcache, hnone⟩
    · cases hfetch.symm.trans hfailed
  | fetched hok =>
    rcases hlearned with ⟨e, hfetch, -⟩ | ⟨key, hkey, hfetch, hsome⟩
    · cases hfetch.symm.trans hok
    · cases hfetch.symm.trans hok
      have hmem := (PublicKeySchedule.keyInForce_eq_some.mp hkey).mem
      refine ⟨h.hold hreturn hcache hkey (hcounted.imp (fun hall => hall key hmem) ?_), hsome⟩
      intro hle minute' hminute'
      cases hnamed.symm.trans hminute'
      exact inForceAt_of_moment (momentRead_micros hle) hkey

end One

end Fetch

end OpenWebId
