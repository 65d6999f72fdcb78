import OpenWebId.RoundTrip
import OpenWebId.Base64Form

/-!
# Creating an OWID: `creator.py`

A creator binds a domain to a key it can sign with. The domain is checked where the
creator is made: it is not blank, it fits the longest a reader accepts, and the
crypto instance can sign. `Creator` carries those three facts.

The constructor says that a creator that could only produce OWIDs the library refuses
to read never exists. It does not ask whether the reader's codec gives the domain
back, and `create_parse_iff` is the exact condition: the domain is ASCII.
-/

namespace OpenWebId

open Lib (encodeUtf8 decodeAscii IsAscii)
open Owid (dateBytes fieldBytes DateIs)

variable {σ κ : Type}

/-- A creator. -/
structure Creator (σ κ : Type) where
  domain : String
  crypto : Crypto σ κ
  notBlank : Lib.strip domain ≠ ""
  domainShort : (encodeUtf8 domain).length ≤ maximumDomainLength
  signs : crypto.canSign = true

namespace Creator

/-- `Creator.__init__`. -/
def new (domain : String) (crypto : Crypto σ κ) : Except PyExc (Creator σ κ) :=
  if hblank : Lib.strip domain = "" then
    .error (.owidError ("domain '" ++ domain ++ "' is not valid"))
  else if hlen : (encodeUtf8 domain).length > maximumDomainLength then
    .error (.owidError ("domain is longer than the '" ++ toString maximumDomainLength ++
      "' character maximum"))
  else if hsign : crypto.canSign = true then
    .ok ⟨domain, crypto, hblank, Nat.le_of_not_lt hlen, hsign⟩
  else .error (.owidError "instance of Crypto cannot be used to generate a signature")

/-- The OWID before it is signed: the creator's domain, the current version and the
current moment in whole minutes. -/
def unsigned (creator : Creator σ κ) (value : Bytes) (now : DateTime) : Owid :=
  ⟨defaultVersion, creator.domain, now.truncateToMinute, value, []⟩

/-- `Creator.create`, at the moment `now` and with the provider's randomness. -/
def create (P : Provider σ κ) (creator : Creator σ κ) (value : Bytes) (now : DateTime)
    (entropy : Nat) : Except PyExc Owid := do
  let data ← (creator.unsigned value now).signedBytes
  let signature ← creator.crypto.signByteArray P data entropy
  if signature.length ≠ signatureLength then
    .error (.owidError (Crypto.signatureLengthMessage signature.length))
  else .ok { creator.unsigned value now with signature := signature }

theorem new_ok {domain : String} {crypto : Crypto σ κ} {creator : Creator σ κ}
    (h : new domain crypto = .ok creator) : creator.domain = domain ∧ creator.crypto = crypto := by
  unfold new at h
  split at h
  · cases h
  · split at h
    · cases h
    · split at h
      · cases h
        exact ⟨rfl, rfl⟩
      · cases h

/-- What an OWID that was created carries: the creator's domain, the payload and the
truncated moment, and the signature over the fields before it. -/
theorem create_ok {P : Provider σ κ} {creator : Creator σ κ} {value : Bytes} {now : DateTime}
    {entropy : Nat} {o : Owid} (h : creator.create P value now entropy = .ok o) :
    o.version = defaultVersion ∧ o.domain = creator.domain ∧ o.date = now.truncateToMinute ∧
      o.payload = value ∧ ∃ data, o.signedBytes = .ok data ∧
        creator.crypto.signByteArray P data entropy = .ok o.signature := by
  unfold create at h
  obtain ⟨data, hdata, h⟩ := bind_eq_ok.mp h
  obtain ⟨signature, hsign, h⟩ := bind_eq_ok.mp h
  split at h
  · cases h
  · cases h
    exact ⟨rfl, rfl, rfl, rfl, data, hdata, hsign⟩

/-- A moment from the base date on is within a whole number of minutes a read accepts. -/
theorem exists_count {now : DateTime} (hnow : baseDate ≤ now) :
    ∃ count : Nat, now.micros / microsPerMinute = count ∧ count ≤ maximumMinutes := by
  have hmicros : 0 ≤ now.micros := hnow
  have hmax := now.inRange.2
  refine ⟨(now.micros / microsPerMinute).toNat, (Int.toNat_of_nonneg ?_).symm, ?_⟩
  · simp only [microsPerMinute, microsPerSecond]
    omega
  · rw [maximumMinutes_eq]
    simp only [maxMoment, microsPerMinute, microsPerDay, microsPerHour, microsPerSecond]
      at hmax ⊢
    omega

theorem dateIs_truncateToMinute {now : DateTime} {count : Nat}
    (hcount : now.micros / microsPerMinute = count) (hfits : count ≤ maximumMinutes) :
    DateIs now.truncateToMinute defaultVersion count := by
  rw [maximumMinutes_eq] at hfits
  refine ⟨?_, by omega⟩
  simp only [DateTime.truncateToMinute]
  rw [hcount, wholeMinutes_of_whole]

/-- A creator whose domain has no zero byte creates an OWID from any payload that fits. -/
theorem create_total {P : Provider σ κ} (hP : P.Lawful) {creator : Creator σ κ} {key : σ}
    (hkey : creator.crypto = Crypto.ofSigningKey P key)
    (h0 : 0 ∉ encodeUtf8 creator.domain) {value : Bytes} (hvalue : value.length < 2 ^ 32)
    {now : DateTime} (hnow : baseDate ≤ now) (entropy : Nat) :
    ∃ o, creator.create P value now entropy = .ok o := by
  obtain ⟨count, hcount, hfits⟩ := exists_count hnow
  have hsigned := Owid.signedBytes_eq (o := creator.unsigned value now) h0 creator.domainShort
    (dateIs_truncateToMinute hcount hfits) (Nat.le_of_lt_succ hvalue)
  obtain ⟨signature, hsign, hlen⟩ := Crypto.sign_total hP key (fieldBytes defaultVersion
    (encodeUtf8 creator.domain) count value) entropy
  refine ⟨{ creator.unsigned value now with signature := signature }, ?_⟩
  rw [create, hsigned, ok_bind, hkey]
  simp only [unsigned]
  rw [hsign, ok_bind, if_neg (not_not_intro hlen)]

/-- What is created is an envelope of the domain's UTF-8 bytes. -/
theorem create_envelope {P : Provider σ κ} (hP : P.Lawful) {creator : Creator σ κ} {key : σ}
    (hkey : creator.crypto = Crypto.ofSigningKey P key) {value : Bytes}
    (hvalue : value.length < 2 ^ 32) {now : DateTime} (hnow : baseDate ≤ now) {entropy : Nat}
    {o : Owid} (h : creator.create P value now entropy = .ok o) :
    ∃ e : Envelope, o.asByteArray = .ok e.bytes ∧ e.domain = encodeUtf8 creator.domain ∧
      (e.owid = o ↔ decodeAscii (encodeUtf8 creator.domain) = creator.domain) ∧
      o.verifyWithCrypto P creator.crypto = .ok true := by
  obtain ⟨hversion, hdomain, hdate, hpayload, data, hdata, hsign⟩ := create_ok h
  obtain ⟨version, domain, date, payload, signature⟩ := o
  simp only at hversion hdomain hdate hpayload hsign
  subst hversion hdomain hdate hpayload
  rw [hkey] at hsign
  obtain ⟨hlen, hverify⟩ := Crypto.verify_sign hP hsign
  -- a zero byte in the domain would have stopped the fields from being written
  have h0 : 0 ∉ encodeUtf8 creator.domain := by
    intro hzero
    obtain ⟨err, herr⟩ := Owid.signedBytes_error (o := ⟨defaultVersion, creator.domain,
      now.truncateToMinute, payload, signature⟩) (Or.inl hzero)
    rw [herr] at hdata
    cases hdata
  obtain ⟨count, hcount, hfits⟩ := exists_count hnow
  have hpay : payload.length ≤ 0xFFFFFFFF := by omega
  let e : Envelope := ⟨defaultVersion, encodeUtf8 creator.domain, count, payload, signature,
    by decide, h0, creator.domainShort, hfits, hpay, hlen⟩
  have hdateOf : e.date = now.truncateToMinute := by
    apply DateTime.ext
    simp only [Envelope.date, dateOf, dateUnit, DateTime.truncateToMinute, e, defaultVersion,
      hcount]
  have hdateIs := dateIs_truncateToMinute hcount hfits
  refine ⟨e, Owid.asByteArray_eq h0 creator.domainShort hdateIs hpay hlen, rfl, ?_, ?_⟩
  · simp only [Envelope.owid, hdateOf, Owid.mk.injEq, and_true, e, true_and]
  · rw [Owid.verifyWithCrypto, hdata, hkey]
    exact hverify

end Creator

/-- The base 64 read of an encoded buffer is the exact read of the buffer: the padding
is in place and there is no blank around it. -/
theorem parseBase64_encode (b : Bytes) :
    Parse.parseBase64 (.text (String.ofList (Lib.Base64.encode b))) =
      Parse.parseBytes (.bytes b) := by
  have hstrip : Lib.strip (String.ofList (Lib.Base64.encode b)) =
      String.ofList (Lib.Base64.encode b) := by
    apply Lib.strip_eq_self
    intro c hc
    rw [String.toList_ofList] at hc
    obtain ⟨hlow, hhigh⟩ := Lib.Base64.mem_encode hc
    exact Lib.isSpace_of_printable hlow hhigh
  exact parseBase64_of_strip (k := 0) (List.append_nil _).symm hstrip

/-- The reader's codec gives a text back from its UTF-8 bytes only where it is ASCII. -/
theorem decodeAscii_encodeUtf8_iff {s : String} :
    decodeAscii (encodeUtf8 s) = s ↔ IsAscii s := by
  refine ⟨fun h => ?_, Lib.decodeAscii_encodeUtf8⟩
  rw [← h, Lib.isAscii_decodeAscii]
  intro b hb
  refine Nat.lt_of_not_le fun hhigh => ?_
  have hlonger := Lib.length_lt_encodeUtf8_decodeAscii ⟨b, hb, hhigh⟩
  rw [h] at hlonger
  exact Nat.lt_irrefl _ hlonger

/-- What was created, encoded and read back is the envelope's OWID. -/
theorem parse_asBase64 {o : Owid} {e : Envelope} (h : o.asByteArray = .ok e.bytes) :
    ∃ text, o.asBase64 = .ok text ∧
      Parse.parseBase64 (.text text) = .ok ⟨true, some e.owid, .parsed, e.bytes.length⟩ := by
  refine ⟨String.ofList (Lib.Base64.encode e.bytes), ?_, ?_⟩
  · rw [Owid.asBase64, h]
    rfl
  · rw [parseBase64_encode, parseBytes_envelope]

/-- What the library promises of an OWID it created: it has a base 64 form, reading
that form gives it back, and both verify under the creator's crypto instance. -/
def ReadsBack (P : Provider σ κ) (crypto : Crypto σ κ) (o : Owid) : Prop :=
  ∃ text r parsed, o.asBase64 = .ok text ∧ Parse.parseBase64 (.text text) = .ok r ∧
    r.status = .parsed ∧ r.owid = some parsed ∧ parsed = o ∧
    o.verifyWithCrypto P crypto = .ok true ∧ parsed.verifyWithCrypto P crypto = .ok true

/-- What was created reads back exactly where the reader's codec keeps the domain. -/
theorem Creator.readsBack_iff {P : Provider σ κ} (hP : P.Lawful) {creator : Creator σ κ}
    {key : σ} (hkey : creator.crypto = Crypto.ofSigningKey P key) {value : Bytes}
    (hvalue : value.length < 2 ^ 32) {now : DateTime} (hnow : baseDate ≤ now) {entropy : Nat}
    {o : Owid} (h : creator.create P value now entropy = .ok o) :
    ReadsBack P creator.crypto o ↔ IsAscii creator.domain := by
  obtain ⟨e, hbytes, hdomain, hsame, hverify⟩ :=
    Creator.create_envelope hP hkey hvalue hnow h
  obtain ⟨text, htext, hread⟩ := parse_asBase64 hbytes
  rw [← decodeAscii_encodeUtf8_iff, ← hsame]
  constructor
  · intro hreads
    obtain ⟨text', r, parsed, htext', hread', -, howid, rfl, -, -⟩ := hreads
    cases htext.symm.trans htext'
    cases hread.symm.trans hread'
    exact Option.some.inj howid
  · intro howid
    subst howid
    exact ⟨text, _, e.owid, htext, hread, rfl, rfl, rfl, hverify, hverify⟩

/-- **What a creator signs reads back and verifies exactly for ASCII domains.** -/
theorem create_parse_iff {P : Provider σ κ} (hP : P.Lawful) {domain : String} {key : σ}
    {creator : Creator σ κ}
    (hnew : Creator.new domain (Crypto.ofSigningKey P key) = .ok creator) {value : Bytes}
    (hvalue : value.length < 2 ^ 32) {now : DateTime} (hnow : baseDate ≤ now) {entropy : Nat}
    {o : Owid} (h : creator.create P value now entropy = .ok o) :
    ReadsBack P (Crypto.ofSigningKey P key) o ↔ IsAscii domain := by
  obtain ⟨rfl, hkey⟩ := Creator.new_ok hnew
  rw [← hkey]
  exact Creator.readsBack_iff hP hkey hvalue hnow h

/-- A creator on `Provider.plain` with the empty key. -/
def plainCreator (domain : String) (hblank : Lib.strip domain ≠ "")
    (hlen : (encodeUtf8 domain).length ≤ maximumDomainLength) : Creator Bytes Bytes :=
  ⟨domain, Crypto.ofSigningKey .plain [], hblank, hlen, rfl⟩

theorem plainCreator_new {domain : String} (hblank : Lib.strip domain ≠ "")
    (hlen : (encodeUtf8 domain).length ≤ maximumDomainLength) :
    Creator.new domain (Crypto.ofSigningKey .plain []) =
      .ok (plainCreator domain hblank hlen) := by
  rw [Creator.new, dif_neg hblank, dif_neg (Nat.not_lt.mpr hlen)]
  rfl

/-- A creator on a domain with no zero byte creates an OWID at the base date. -/
theorem plainCreator_create {domain : String} (hblank : Lib.strip domain ≠ "")
    (hlen : (encodeUtf8 domain).length ≤ maximumDomainLength) (h0 : 0 ∉ encodeUtf8 domain) :
    ∃ o, (plainCreator domain hblank hlen).create .plain [1] baseDate 0 = .ok o :=
  Creator.create_total Provider.plain_lawful rfl h0 (by decide) (Int.le_refl _) 0

theorem create_parse_iff_ascii :
    ∃ o, ReadsBack .plain (Crypto.ofSigningKey .plain []) o := by
  have hblank : Lib.strip "a.b" ≠ "" := by decide
  obtain ⟨o, ho⟩ := plainCreator_create hblank (by decide) (by decide)
  exact ⟨o, (create_parse_iff Provider.plain_lawful (plainCreator_new hblank (by decide))
    (by decide) (Int.le_refl _) ho).mpr (by decide)⟩

/-- The constructor takes the domain `é`, and what its creator signs does not read
back. -/
theorem create_parse_accent :
    ¬ ∀ (domain : String) (key : Bytes) (creator : Creator Bytes Bytes),
      Creator.new domain (Crypto.ofSigningKey .plain key) = .ok creator →
      ∀ (value : Bytes), value.length < 2 ^ 32 → ∀ (now : DateTime), baseDate ≤ now →
      ∀ (entropy : Nat) (o : Owid), creator.create .plain value now entropy = .ok o →
        ReadsBack .plain (Crypto.ofSigningKey .plain key) o := by
  intro h
  have hblank : Lib.strip "é" ≠ "" := by decide
  have hlen : (encodeUtf8 "é").length ≤ maximumDomainLength := by decide
  obtain ⟨o, ho⟩ := plainCreator_create hblank hlen (by decide)
  have hreads := h "é" [] _ (plainCreator_new hblank hlen) [1] (by decide) baseDate
    (Int.le_refl _) 0 o ho
  have hascii : IsAscii "é" := (Creator.readsBack_iff Provider.plain_lawful rfl (by decide)
    (Int.le_refl _) ho).mp hreads
  exact absurd hascii (by decide)

end OpenWebId
