import OpenWebId.Serve
import OpenWebId.Wire

/-!
# Schedules of one key and of two, published plainly

`plainStdlib` is a standard library that writes JSON with nothing to escape and reads back what
it wrote. Over it a schedule of one key with any ASCII PEM can be served (`oneKey_servable`), and
one of two keys with any two starts is published (`rotated_published`): the conditions that the
results about creators share can be met.

`markedEnvelope` is an OWID that names the key it is signed with, as `Provider.plain` reads its
signature (`markedEnvelope_verify`).
-/

namespace OpenWebId

namespace Fetch

/-! ## One key -/

/-- The JSON of a value that is text with nothing to escape, or `null`. -/
def plainValue : Json → List Char
  | .str value => '"' :: (value.toList ++ ['"'])
  | _ => "null".toList

/-- The JSON of an object of such values. -/
def plainText : Json → String
  | .obj fields =>
    let members := fields.map fun field =>
      '"' :: (field.1.toList ++ ("\": ".toList ++ plainValue field.2))
    String.ofList ('\x7b' :: (List.intercalate ", ".toList members ++ ['\x7d']))
  | value => String.ofList (plainValue value)

/-- A standard library that reads the texts it writes of these moments and answers. -/
def plainStdlib (moments : List (DateTime × String)) (answers : List Json) : Stdlib where
  loads text :=
    match answers.find? fun answer => decide (plainText answer = text) with
    | some answer => .ok answer
    | none => .error .notJson
  dumps := plainText
  fromisoformat text :=
    (moments.find? fun moment => decide (Endpoints.isoText moment.2 = text)).map fun moment =>
      ⟨moment.1, some 0⟩
  strftime moment := (moments.lookup moment).getD ""

/-- The schedule of one key, in force from the base date on. -/
def oneKey (pem : String) (h : Lib.strip pem ≠ "") : PublicKeySchedule :=
  ⟨[⟨baseDate, pem, h⟩], List.pairwise_singleton ..⟩

/-- The answer for it. -/
def oneKeyAnswer (pem : String) : Json :=
  .obj [("format", .str spkiFormat), ("publicKey", .str pem),
    ("validFrom", .str "2020-01-01T00:00:00Z"), ("validTo", .null)]

def oneKeyStdlib (pem : String) : Stdlib :=
  plainStdlib [(baseDate, "2020-01-01T00:00:00Z")] [oneKeyAnswer pem]

theorem oneKey_answerOf {pem : String} {h : Lib.strip pem ≠ ""} :
    answerOf (oneKeyStdlib pem) (oneKey pem h) ⟨baseDate, pem, h⟩ = oneKeyAnswer pem := rfl

/-- The texts before and after the key. -/
def oneKeyBefore : String := "\x7b\"format\": \"spki\", \"publicKey\": \""

def oneKeyAfter : String := "\", \"validFrom\": \"2020-01-01T00:00:00Z\", \"validTo\": null\x7d"

theorem toList_oneKey (pem : String) :
    (plainText (oneKeyAnswer pem)).toList =
      oneKeyBefore.toList ++ (pem.toList ++ oneKeyAfter.toList) := by
  simp [plainText, oneKeyAnswer, plainValue, spkiFormat, List.intercalate, oneKeyBefore,
    oneKeyAfter]

theorem isAscii_oneKey {pem : String} (h : Lib.IsAscii pem) :
    Lib.IsAscii (plainText (oneKeyAnswer pem)) := by
  have hbefore : Lib.IsAscii oneKeyBefore := by decide
  have hafter : Lib.IsAscii oneKeyAfter := by decide
  intro c hc
  rw [toList_oneKey] at hc
  rcases List.mem_append.mp hc with hpre | hrest
  · exact hbefore c hpre
  · rcases List.mem_append.mp hrest with hpem | hpost
    · exact h c hpem
    · exact hafter c hpost

theorem oneKey_servable {pem : String} (h : Lib.strip pem ≠ "") (hascii : Lib.IsAscii pem) :
    Servable (oneKeyStdlib pem) .plain (oneKey pem h) := by
  have honly : ∀ key ∈ (oneKey pem h).keys, key = ⟨baseDate, pem, h⟩ :=
    fun key hkey => List.mem_singleton.mp hkey
  refine ⟨?_, ?_, ?_, ?_, ?_⟩
  · intro key hkey
    rw [honly key hkey]
    exact ⟨_, Provider.plain_newVerifyOnly h⟩
  · intro key hkey
    rw [honly key hkey]
    rfl
  · intro key hkey
    rw [honly key hkey]
    simp [oneKeyStdlib, plainStdlib]
  · intro key hkey
    rw [honly key hkey, oneKey_answerOf]
    simp [oneKeyStdlib, plainStdlib]
  · intro key hkey
    rw [honly key hkey, oneKey_answerOf]
    exact isAscii_oneKey hascii

/-- A key of one letter is published in an answer any client accepts. -/
theorem oneKey_published {h : Lib.strip "k" ≠ ""} :
    Published (oneKeyStdlib "k") .plain (oneKey "k" h) := by
  refine ⟨oneKey_servable h (by decide), ?_⟩
  intro key hkey
  have honly : key = ⟨baseDate, "k", h⟩ := List.mem_singleton.mp hkey
  rw [honly, oneKey_answerOf]
  decide

/-- The one key is in force from the base date on. -/
theorem oneKey_keyInForce {pem : String} {h : Lib.strip pem ≠ ""} {moment : DateTime}
    {key : DatedPublicKey} (hkey : (oneKey pem h).keyInForce moment = some key) :
    key = ⟨baseDate, pem, h⟩ :=
  List.mem_singleton.mp (PublicKeySchedule.keyInForce_eq_some.mp hkey).mem

theorem oneKey_keyInForce_of_le {pem : String} {h : Lib.strip pem ≠ ""} {moment : DateTime}
    (hle : baseDate ≤ moment) :
    (oneKey pem h).keyInForce moment = some ⟨baseDate, pem, h⟩ :=
  if_pos hle

theorem oneKey_noReturn {pem : String} {h : Lib.strip pem ≠ ""} : NoReturn (oneKey pem h) := by
  intro _ _ _ _ _ _ _ _ h₁ h₂ _ _
  rw [oneKey_keyInForce h₁, oneKey_keyInForce h₂]

/-- What the outside does where the creator and the client have the same clock. -/
def servedTurn (L : Stdlib) (P : Provider σ κ) (schedule : PublicKeySchedule) (now : DateTime) :
    Turn := ⟨now, serve L P schedule now, now, now⟩

theorem servedTurn_reply (L : Stdlib) (P : Provider σ κ) (schedule : PublicKeySchedule)
    (now : DateTime) (url : String) :
    (servedTurn L P schedule now).reply url = serve L P schedule now url := rfl

/-! ## Two keys -/

/-- The key `A` from the start given on, and the key `B`. -/
def keyA (start : DateTime) : DatedPublicKey := ⟨start, "A", by decide⟩

def keyB (start : DateTime) : DatedPublicKey := ⟨start, "B", by decide⟩

@[simp] theorem keyA_startsAt (start : DateTime) : (keyA start).startsAt = start := rfl

@[simp] theorem keyB_startsAt (start : DateTime) : (keyB start).startsAt = start := rfl

/-- The schedule of the two, with these starts. -/
def rotated {first second : DateTime} (h : first < second) : PublicKeySchedule :=
  ⟨[keyA first, keyB second], List.pairwise_pair.mpr (Int.le_of_lt h)⟩

/-- The answers for the two keys. -/
def rotatedFirst (firstText secondText : String) : Json :=
  .obj [("format", .str spkiFormat), ("publicKey", .str "A"), ("validFrom", .str firstText),
    ("validTo", .str secondText)]

def rotatedSecond (secondText : String) : Json :=
  .obj [("format", .str spkiFormat), ("publicKey", .str "B"), ("validFrom", .str secondText),
    ("validTo", .null)]

/-- The standard library that writes the two starts as these texts. -/
def rotatedStdlib (first second : DateTime) (firstText secondText : String) : Stdlib :=
  plainStdlib [(first, firstText), (second, secondText)]
    [rotatedFirst firstText secondText, rotatedSecond secondText]

section Rotated

variable {first second : DateTime} (h : first < second)

theorem mem_rotated {key : DatedPublicKey} :
    key ∈ (rotated h).keys ↔
      key = keyA first ∨ key = keyB second := by
  rw [rotated, List.mem_cons, List.mem_singleton]

theorem rotated_distinct : Distinct (rotated h) := by
  have hpems : "A" ≠ "B" := by decide
  intro key hkey key' hkey' hpem
  rcases (mem_rotated h).mp hkey with ha | hb
  · rcases (mem_rotated h).mp hkey' with ha' | hb'
    · rw [ha, ha']
    · rw [ha, hb'] at hpem
      exact absurd hpem hpems
  · rcases (mem_rotated h).mp hkey' with ha' | hb'
    · rw [hb, ha'] at hpem
      exact absurd hpem hpems.symm
    · rw [hb, hb']

theorem rotated_keyInForce_second {moment : DateTime} (hle : second ≤ moment) :
    (rotated h).keyInForce moment = some (keyB second) := by
  have hne : first ≠ second := fun he => Int.lt_irrefl _ (he ▸ h)
  simp [PublicKeySchedule.keyInForce, PublicKeySchedule.scanBack, PublicKeySchedule.firstSupplied,
    rotated, hle, hne]

theorem rotated_keyInForce_first {moment : DateTime} (hle : first ≤ moment)
    (hlt : moment < second) :
    (rotated h).keyInForce moment = some (keyA first) := by
  have hnot : ¬ second ≤ moment := Int.not_le.mpr hlt
  simp [PublicKeySchedule.keyInForce, PublicKeySchedule.scanBack, PublicKeySchedule.firstSupplied,
    rotated, hle, hnot]

theorem rotated_next :
    (rotated h).nextStartAfter (keyA first) = some second := by
  have hirrefl : ¬ first < first := Int.lt_irrefl _
  simp [PublicKeySchedule.nextStartAfter, PublicKeySchedule.earliest, rotated, h, hirrefl]

theorem rotated_last :
    (rotated h).nextStartAfter (keyB second) = none := by
  have hirrefl : ¬ second < second := Int.lt_irrefl _
  have hnot : ¬ second < first := Int.not_lt.mpr (Int.le_of_lt h)
  simp [PublicKeySchedule.nextStartAfter, PublicKeySchedule.earliest, rotated, hirrefl, hnot]

theorem toList_rotatedFirst (firstText secondText : String) :
    (plainText (rotatedFirst firstText secondText)).toList =
      "\x7b\"format\": \"spki\", \"publicKey\": \"A\", \"validFrom\": \"".toList ++
        (firstText.toList ++ ("\", \"validTo\": \"".toList ++
          (secondText.toList ++ "\"\x7d".toList))) := by
  simp [plainText, rotatedFirst, plainValue, spkiFormat, List.intercalate]

theorem toList_rotatedSecond (secondText : String) :
    (plainText (rotatedSecond secondText)).toList =
      "\x7b\"format\": \"spki\", \"publicKey\": \"B\", \"validFrom\": \"".toList ++
        (secondText.toList ++ "\", \"validTo\": null\x7d".toList) := by
  simp [plainText, rotatedSecond, plainValue, spkiFormat, List.intercalate]

/-- The texts of the two starts can be told apart, are ASCII and are short. -/
structure TextsFit (firstText secondText : String) : Prop where
  apart : Endpoints.isoText firstText ≠ Endpoints.isoText secondText
  ascii : Lib.IsAscii firstText ∧ Lib.IsAscii secondText
  short : firstText.toList.length + secondText.toList.length ≤ 60000

theorem TextsFit.answers {firstText secondText : String} (h : TextsFit firstText secondText) :
    plainText (rotatedFirst firstText secondText) ≠ plainText (rotatedSecond secondText) ∧
      ∀ answer ∈ [rotatedFirst firstText secondText, rotatedSecond secondText],
        Lib.IsAscii (plainText answer) ∧
          (Lib.encodeUtf8 (plainText answer)).length ≤ maximumResponseBytes := by
  have hshort := h.short
  have hfirst : Lib.IsAscii (plainText (rotatedFirst firstText secondText)) := by
    unfold Lib.IsAscii
    rw [toList_rotatedFirst]
    simp only [List.forall_mem_append]
    exact ⟨Lib.ascii_of_all (by decide), h.ascii.1, Lib.ascii_of_all (by decide), h.ascii.2,
      Lib.ascii_of_all (by decide)⟩
  have hsecond : Lib.IsAscii (plainText (rotatedSecond secondText)) := by
    unfold Lib.IsAscii
    rw [toList_rotatedSecond]
    simp only [List.forall_mem_append]
    exact ⟨Lib.ascii_of_all (by decide), h.ascii.2, Lib.ascii_of_all (by decide)⟩
  refine ⟨?_, ?_⟩
  · intro he
    -- the two answers differ in the letter of their key
    have hlists := congrArg String.toList he
    rw [toList_rotatedFirst, toList_rotatedSecond] at hlists
    simp at hlists
  · intro answer hanswer
    rcases List.mem_cons.mp hanswer with ha | hb
    · subst ha
      refine ⟨hfirst, ?_⟩
      rw [Lib.encodeUtf8_ascii hfirst, List.length_map, toList_rotatedFirst]
      simp only [String.reduceToList, List.length_append, List.length_cons, List.length_nil,
        maximumResponseBytes]
      omega
    · rw [List.mem_singleton.mp hb]
      refine ⟨hsecond, ?_⟩
      rw [Lib.encodeUtf8_ascii hsecond, List.length_map, toList_rotatedSecond]
      simp only [String.reduceToList, List.length_append, List.length_cons, List.length_nil,
        maximumResponseBytes]
      omega

theorem rotated_published {firstText secondText : String} (hfit : TextsFit firstText secondText)
    (hfirst : first.micros % microsPerMinute = 0) (hsecond : second.micros % microsPerMinute = 0) :
    Published (rotatedStdlib first second firstText secondText) .plain (rotated h) := by
  have hiso := hfit.apart
  obtain ⟨htext, hanswers⟩ := hfit.answers
  have hne : first ≠ second := fun he => Int.lt_irrefl _ (he ▸ h)
  have hne' : (second == first) = false := beq_false_of_ne hne.symm
  have hwrites : (rotatedStdlib first second firstText secondText).strftime first = firstText ∧
      (rotatedStdlib first second firstText secondText).strftime second = secondText := by
    simp [rotatedStdlib, plainStdlib, List.lookup, hne']
  have hanswer : answerOf (rotatedStdlib first second firstText secondText) (rotated h)
      (keyA first) = rotatedFirst firstText secondText ∧
      answerOf (rotatedStdlib first second firstText secondText) (rotated h)
      (keyB second) = rotatedSecond secondText := by
    simp only [answerOf, Endpoints.answerFields, rotated_next, rotated_last, Endpoints.momentText,
      keyA_startsAt, keyB_startsAt, hwrites.1, hwrites.2]
    exact ⟨rfl, rfl⟩
  -- readable keys, whole minutes, moments and answers read back, ASCII answers, and their size
  refine ⟨⟨?_, ?_, ?_, ?_, ?_⟩, ?_⟩
  · intro key hkey
    exact ⟨_, Provider.plain_newVerifyOnly key.notBlank⟩
  · intro key hkey
    rcases (mem_rotated h).mp hkey with ha | hb
    · rw [ha]
      exact hfirst
    · rw [hb]
      exact hsecond
  · intro key hkey
    rcases (mem_rotated h).mp hkey with ha | hb
    · rw [ha, keyA_startsAt, hwrites.1]
      simp [rotatedStdlib, plainStdlib]
    · rw [hb, keyB_startsAt, hwrites.2]
      simp [rotatedStdlib, plainStdlib, hiso]
  · intro key hkey
    rcases (mem_rotated h).mp hkey with ha | hb
    · rw [ha, hanswer.1]
      simp [rotatedStdlib, plainStdlib]
    · rw [hb, hanswer.2]
      simp [rotatedStdlib, plainStdlib, htext]
  · intro key hkey
    rcases (mem_rotated h).mp hkey with ha | hb
    · rw [ha, hanswer.1]
      exact (hanswers _ (List.mem_cons_self ..)).1
    · rw [hb, hanswer.2]
      exact (hanswers _ (List.mem_cons_of_mem _ (List.mem_singleton_self _))).1
  · intro key hkey
    rcases (mem_rotated h).mp hkey with ha | hb
    · rw [ha, hanswer.1]
      exact (hanswers _ (List.mem_cons_self ..)).2
    · rw [hb, hanswer.2]
      exact (hanswers _ (List.mem_cons_of_mem _ (List.mem_singleton_self _))).2

end Rotated

/-- A hundred minutes after the base date. -/
def secondStart : DateTime := atMinute 100 (by decide)

theorem secondStart_lt : baseDate < secondStart := by decide

/-- The standard library for the starts at the base date and a hundred minutes later. -/
def laterStdlib : Stdlib :=
  rotatedStdlib baseDate secondStart "2020-01-01T00:00:00Z" "2020-01-01T01:40:00Z"

theorem later_texts : TextsFit "2020-01-01T00:00:00Z" "2020-01-01T01:40:00Z" :=
  ⟨by decide, by decide, by decide⟩

theorem later_published : Published laterStdlib .plain (rotated secondStart_lt) :=
  rotated_published secondStart_lt later_texts rfl rfl

/-! ## Signatures of a known key -/

/-- An OWID of the domain `a.b` with no payload, of this minute and signature. -/
def bareEnvelope (count : Nat) (signature : Bytes) (hcount : count ≤ maximumMinutes)
    (hlength : signature.length = signatureLength) : Envelope where
  version := .version3
  domain := [0x61, 0x2E, 0x62]
  count := count
  payload := []
  signature := signature
  versionKnown := version3_known
  domainNonzero := by decide
  domainShort := by decide
  countFits := hcount
  payloadFits := nil_fits
  signatureFits := hlength

/-- One dated ten minutes after the base date, whose signature is zeros. -/
def zeroEnvelope : Envelope :=
  bareEnvelope 10 (List.replicate 64 0) (by decide) List.length_replicate

/-- Its signature matches under no key. -/
theorem zeroEnvelope_invalid {pem : String} (h : Lib.strip pem ≠ "") :
    zeroEnvelope.owid.signatureStatus .plain pem = .signatureInvalid := by
  rw [Owid.signatureStatus_eq (Provider.plain_newVerifyOnly h) zeroEnvelope.signatureFits]
  rfl

theorem length_marked (mark : Nat) :
    (Lib.toBE 32 mark ++ Lib.toBE 32 1).length = signatureLength :=
  Crypto.length_signature mark 1

/-- An OWID of the domain `a.b` and this minute, whose signature `Provider.plain` reads as
made with the key whose last byte is one less than the mark. -/
def markedEnvelope (count mark : Nat) (h : count ≤ maximumMinutes) : Envelope :=
  bareEnvelope count (Lib.toBE 32 mark ++ Lib.toBE 32 1) h (length_marked mark)

theorem markedEnvelope_domain {count mark : Nat} (h : count ≤ maximumMinutes) :
    checkDomain (markedEnvelope count mark h).owid.domain = .ok () := by
  show checkDomain (Lib.decodeAscii [0x61, 0x2E, 0x62]) = .ok ()
  rfl

theorem markedEnvelope_count {count mark : Nat} (h : count ≤ maximumMinutes) :
    minutesSinceBase (markedEnvelope count mark h).owid.date = count :=
  minutesSinceBase_of_whole rfl

/-- `Provider.plain` verifies it under the key with the mark. -/
theorem markedEnvelope_verify {count mark : Nat} (hcount : count ≤ maximumMinutes)
    (hmark : mark = 66 ∨ mark = 67) {pem : String} {crypto : Crypto Bytes Bytes}
    (hread : Crypto.newVerifyOnly Provider.plain pem = .ok crypto) :
    (markedEnvelope count mark hcount).owid.verifyWithCrypto .plain crypto =
      .ok (Lib.toBE 32 mark ++ Lib.toBE 32 1 ==
        Lib.toBE 32 (Lib.ofBE (Lib.encodeUtf8 pem) % 256 + 1) ++ Lib.toBE 32 1) := by
  have hcrypto : crypto = ⟨none, some (Lib.encodeUtf8 pem)⟩ := by
    unfold Crypto.newVerifyOnly at hread
    split at hread
    · cases hread
    · cases hread
      rfl
  have hfield : count ≤ 0xFFFFFFFF := by
    rw [maximumMinutes_eq] at hcount
    omega
  have hdate : Owid.DateIs (markedEnvelope count mark hcount).owid.date
      (markedEnvelope count mark hcount).owid.version count := by
    exact ⟨wholeMinutes_of_whole, hfield⟩
  have hdomain : (0 : UInt8) ∉ Lib.encodeUtf8 (Lib.decodeAscii [0x61, 0x2E, 0x62]) ∧
      (Lib.encodeUtf8 (Lib.decodeAscii [0x61, 0x2E, 0x62])).length ≤ maximumDomainLength := by
    decide
  -- the bytes that are signed do not matter to this provider
  have hdata := Owid.signedBytes_eq hdomain.1 hdomain.2 hdate (Nat.zero_le _)
  rw [Owid.verifyWithCrypto, hdata, hcrypto]
  have hpos : mark ≠ 0 ∧ mark < 256 ^ 32 := by omega
  have hone : 1 < 256 ^ 32 ∧ 1 ≠ 0 := by decide
  have hkey : (⟨none, some (Lib.encodeUtf8 pem)⟩ : Crypto Bytes Bytes).verifyingKey =
      some (Lib.encodeUtf8 pem) := rfl
  have hverify : ∀ data, Crypto.verifyByteArray Provider.plain ⟨none, some (Lib.encodeUtf8 pem)⟩
      data (Lib.toBE 32 mark ++ Lib.toBE 32 1) = Provider.plain.verify (Lib.encodeUtf8 pem)
        (Provider.plain.encodeDssSignature mark 1) data :=
    fun data => Crypto.verifyByteArray_toBE hkey hpos.2 hone.1 hpos.1 hone.2
  simp only [Except.bind]
  exact hverify _

end Fetch

end OpenWebId
