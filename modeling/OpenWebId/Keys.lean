import OpenWebId.Signed
import OpenWebId.Creator
import OpenWebId.Lib.Utf8

/-!
# A key pair from its generation to a verified payload

`Provider` is what `cryptography` does with keys it is given. `KeyProvider` adds what it
does to make a key pair and to write it: `generate_private_key`, and `private_bytes` and
`public_bytes` in PEM. With these the file holds the rest of `crypto.py` and of
`creator.py`, the exports of a `Crypto` instance and the creator made from configuration,
and the rest of what `owid.py` makes of an OWID with a public key in hand.

`configured_reads` is the way the package is meant to be used, end to end: a key pair is
generated, the private PEM goes into configuration and the public one to whoever reads, a
creator made from the configuration signs a text, and a reader of the base 64 form has the
text back and the signature verified.
-/

namespace OpenWebId

open Lib (encodeUtf8 decodeAscii IsAscii)

/-- A `Provider` that makes keys and writes them. -/
structure KeyProvider (σ κ : Type) extends Provider σ κ where
  /-- `ec.generate_private_key(ec.SECP256R1())`, with the randomness it draws. -/
  generatePrivateKey : (entropy : Nat) → σ
  /-- `private_bytes` in PKCS#8 PEM, not encrypted. -/
  privateBytes : σ → Bytes
  /-- `public_bytes` in Subject Public Key Info PEM. -/
  publicBytes : κ → Bytes

variable {σ κ : Type}

/-- `bytes.decode("utf-8")`. -/
def decodePem (pem : Bytes) : Except PyExc String :=
  match Lib.decodeUtf8Strict pem with
  | none => .error .valueError
  | some text => .ok text

namespace Crypto

/-- `Crypto.new`. -/
def new (P : KeyProvider σ κ) (entropy : Nat) : Crypto σ κ :=
  ofSigningKey P.toProvider (P.generatePrivateKey entropy)

/-- `Crypto.subject_public_key_info`. -/
def subjectPublicKeyInfo (P : KeyProvider σ κ) (crypto : Crypto σ κ) : Except PyExc String :=
  match crypto.verifyingKey with
  | none => .error (.owidError "instance of Crypto cannot be used to export a public key")
  | some key => decodePem (P.publicBytes key)

/-- `Crypto.public_key_pem`. -/
def publicKeyPem (P : KeyProvider σ κ) (crypto : Crypto σ κ) : Except PyExc String :=
  crypto.subjectPublicKeyInfo P

/-- `Crypto.private_key_pem`. -/
def privateKeyPem (P : KeyProvider σ κ) (crypto : Crypto σ κ) : Except PyExc String :=
  match crypto.signingKey with
  | none => .error (.owidError "instance of Crypto cannot be used to export a private key")
  | some key => decodePem (P.privateBytes key)

end Crypto

/-- `Configuration`. -/
structure Configuration where
  domain : String
  privateKey : String

/-- `Creator.from_configuration`. -/
def Creator.fromConfiguration (P : Provider σ κ) (configuration : Configuration) :
    Except PyExc (Creator σ κ) := do
  let crypto ← Crypto.newSignOnly P configuration.privateKey
  Creator.new configuration.domain crypto

/-- `Creator.create_string`. -/
def Creator.createString (P : Provider σ κ) (creator : Creator σ κ) (value : String)
    (now : DateTime) (entropy : Nat) : Except PyExc Owid :=
  creator.create P (encodeUtf8 value) now entropy

namespace Owid

/-- `Owid.verify_with_public_key`. -/
def verifyWithPublicKey (P : Provider σ κ) (o : Owid) (publicPem : String) : Except PyExc Bool := do
  let crypto ← Crypto.newVerifyOnly P publicPem
  o.verifyWithCrypto P crypto

/-- `Owid.payload_as_string`. -/
def payloadAsString (o : Owid) : String := Lib.decodeUtf8 o.payload

end Owid

/-! ## Keys written and read -/

/-- Bytes of a PEM: a text that is not blank. -/
def IsPem (pem : Bytes) : Prop := ∃ text, encodeUtf8 text = pem ∧ Lib.strip text ≠ ""

/-- What the package is relied on for beside signing: a key that was generated is written
as a PEM, and so is its public key, and each is read back from it. -/
structure KeyProvider.Lawful (P : KeyProvider σ κ) : Prop extends P.toProvider.Lawful where
  privatePem : ∀ entropy, IsPem (P.privateBytes (P.generatePrivateKey entropy))
  publicPem : ∀ entropy, IsPem (P.publicBytes (P.publicKey (P.generatePrivateKey entropy)))
  loadPrivate : ∀ entropy, P.loadPemPrivateKey (P.privateBytes (P.generatePrivateKey entropy)) =
    .ok (.ec (P.generatePrivateKey entropy))
  loadPublic : ∀ entropy,
    P.loadPemPublicKey (P.publicBytes (P.publicKey (P.generatePrivateKey entropy))) =
      .ok (.ec (P.publicKey (P.generatePrivateKey entropy)))

/-- A PEM decodes to the text it is of. -/
theorem decodePem_eq {pem : Bytes} {text : String} (h : encodeUtf8 text = pem) :
    decodePem pem = .ok text := by
  rw [decodePem, ← h, Lib.decodeUtf8Strict_encodeUtf8]

/-- The public key of a generated pair is exported, and the instance made from the export
checks signatures with the pair's public key. -/
theorem Crypto.publicKeyPem_new {P : KeyProvider σ κ} (hP : P.Lawful) (entropy : Nat) :
    ∃ pem, (Crypto.new P entropy).publicKeyPem P = .ok pem ∧
      newVerifyOnly P.toProvider pem =
        .ok ⟨none, some (P.publicKey (P.generatePrivateKey entropy))⟩ := by
  obtain ⟨text, htext, hblank⟩ := hP.publicPem entropy
  refine ⟨text, decodePem_eq htext, newVerifyOnly_ok_iff.mpr ⟨hblank, _, ?_, rfl⟩⟩
  rw [htext]
  exact hP.loadPublic entropy

/-- The private key of a generated pair is exported, and the instance made from the export
is the one that was generated. -/
theorem Crypto.privateKeyPem_new {P : KeyProvider σ κ} (hP : P.Lawful) (entropy : Nat) :
    ∃ pem, (Crypto.new P entropy).privateKeyPem P = .ok pem ∧
      newSignOnly P.toProvider pem = .ok (Crypto.new P entropy) := by
  obtain ⟨text, htext, hblank⟩ := hP.privatePem entropy
  refine ⟨text, decodePem_eq htext, newSignOnly_ok_iff.mpr ⟨hblank, _, ?_, rfl⟩⟩
  rw [htext]
  exact hP.loadPrivate entropy

/-- A check asks for the public key alone. -/
theorem Owid.verifyWithCrypto_congr {P : Provider σ κ} (o : Owid) {crypto crypto' : Crypto σ κ}
    (h : crypto.verifyingKey = crypto'.verifyingKey) :
    o.verifyWithCrypto P crypto = o.verifyWithCrypto P crypto' := by
  unfold Owid.verifyWithCrypto Crypto.verifyByteArray
  rw [h]

/-- An OWID that verifies under the public key of a PEM is valid under the PEM. -/
theorem Owid.signatureValid_of_pem {P : Provider σ κ} {o : Owid} {pem : String}
    {crypto crypto' : Crypto σ κ} (hpem : Crypto.newVerifyOnly P pem = .ok crypto')
    (hkey : crypto'.verifyingKey = crypto.verifyingKey)
    (hsignature : o.signature.length = signatureLength)
    (hverify : o.verifyWithCrypto P crypto = .ok true) :
    o.verifyWithPublicKey P pem = .ok true ∧ o.signatureStatus P pem = .signatureValid := by
  have hsame := (o.verifyWithCrypto_congr (P := P) hkey).trans hverify
  constructor
  · rw [Owid.verifyWithPublicKey, hpem, ok_bind, hsame]
  · rw [Owid.signatureStatus_eq hpem hsignature, hsame]
    rfl

/-- What a creator made from configuration holds: the domain of the configuration, and the
instance its private key is read as. -/
theorem Creator.fromConfiguration_ok {P : Provider σ κ} {configuration : Configuration}
    {creator : Creator σ κ} (h : Creator.fromConfiguration P configuration = .ok creator) :
    creator.domain = configuration.domain ∧
      Crypto.newSignOnly P configuration.privateKey = .ok creator.crypto := by
  obtain ⟨crypto, hcrypto, hnew⟩ := bind_eq_ok.mp h
  obtain ⟨hdomain, hsame⟩ := Creator.new_ok hnew
  exact ⟨hdomain, by rw [hsame, hcrypto]⟩

/-- The signature of what was created fills its field. -/
theorem Creator.create_signature {P : Provider σ κ} {creator : Creator σ κ} {value : Bytes}
    {now : DateTime} {entropy : Nat} {o : Owid} (h : creator.create P value now entropy = .ok o) :
    o.signature.length = signatureLength := by
  obtain ⟨-, -, -, -, data, -, hsign⟩ := Creator.create_ok h
  obtain ⟨key, r, s, -, -, -, -, hsignature⟩ := Crypto.signByteArray_ok hsign
  rw [hsignature]
  exact Crypto.length_signature r s

/-- What was created was created no earlier than the base date: its date was written. -/
theorem Creator.baseDate_le {P : Provider σ κ} {creator : Creator σ κ} {value : Bytes}
    {now : DateTime} {entropy : Nat} {o : Owid} (h : creator.create P value now entropy = .ok o) :
    baseDate ≤ now := by
  obtain ⟨hversion, -, hdate, -, data, hdata, -⟩ := Creator.create_ok h
  obtain ⟨-, -, count, hcount, -⟩ := Owid.signedBytes_ok hdata
  rw [hversion, hdate] at hcount
  show (0 : Int) ≤ now.micros
  simp only [storedCount, defaultVersion, baseDate, Int.sub_zero] at hcount
  refine Int.not_lt.mp fun hneg => ?_
  have hminute : now.truncateToMinute.micros < 0 := by
    simp only [DateTime.truncateToMinute, microsPerMinute, microsPerSecond]
    omega
  have hcounted := wholeMinutes_neg hminute
  omega

/-- The payload of what was created fits its count. -/
theorem Creator.payload_lt {P : Provider σ κ} {creator : Creator σ κ} {value : Bytes}
    {now : DateTime} {entropy : Nat} {o : Owid} (h : creator.create P value now entropy = .ok o) :
    value.length < 2 ^ 32 := by
  obtain ⟨-, -, -, hpayload, data, hdata, -⟩ := Creator.create_ok h
  obtain ⟨-, hlength, -⟩ := Owid.signedBytes_ok hdata
  rw [hpayload] at hlength
  omega

/-- **From a generated key pair to a text read and verified.** The pair is exported as two
PEMs. Where a creator is made from configuration with the private PEM and an ASCII domain, a
text it signs reads back from the base 64 form as the text, and its signature is valid under
the public PEM. -/
theorem configured_reads {P : KeyProvider σ κ} (hP : P.Lawful) (seed : Nat) :
    ∃ privatePem publicPem, (Crypto.new P seed).privateKeyPem P = .ok privatePem ∧
      (Crypto.new P seed).publicKeyPem P = .ok publicPem ∧
      ∀ (domain : String) (creator : Creator σ κ),
        Creator.fromConfiguration P.toProvider ⟨domain, privatePem⟩ = .ok creator →
        IsAscii domain → ∀ (value : String) (now : DateTime) (entropy : Nat) (o : Owid),
        creator.createString P.toProvider value now entropy = .ok o →
        ∃ text r parsed, o.asBase64 = .ok text ∧ Parse.parseBase64 (.text text) = .ok r ∧
          r.status = .parsed ∧ r.owid = some parsed ∧ parsed.domain = domain ∧
          parsed.payloadAsString = value ∧
          parsed.verifyWithPublicKey P.toProvider publicPem = .ok true ∧
          parsed.signatureStatus P.toProvider publicPem = .signatureValid := by
  obtain ⟨privatePem, hprivate, hload⟩ := Crypto.privateKeyPem_new hP seed
  obtain ⟨publicPem, hpublic, hverifier⟩ := Crypto.publicKeyPem_new hP seed
  refine ⟨privatePem, publicPem, hprivate, hpublic, ?_⟩
  intro domain creator hcreator hascii value now entropy o ho
  obtain ⟨hdomain, hsigner⟩ := Creator.fromConfiguration_ok hcreator
  have hkey : creator.crypto = Crypto.new P seed := Except.ok.inj (hsigner.symm.trans hload)
  obtain ⟨-, hcreated, -, hpayload, -⟩ := Creator.create_ok ho
  obtain ⟨e, hbytes, -, hback, hverify⟩ := Creator.create_envelope hP.toLawful hkey
    (Creator.payload_lt ho) (Creator.baseDate_le ho) ho
  -- an ASCII domain survives the reader's codec, so the envelope is of the OWID itself
  have hsame : e.owid = o := hback.mpr (by
    rw [hdomain]
    exact Lib.decodeAscii_encodeUtf8 hascii)
  obtain ⟨text, htext, hread⟩ := parse_asBase64 hbytes
  rw [hsame] at hread
  have hchecks := Owid.signatureValid_of_pem hverifier (by rw [hkey]; rfl)
    (Creator.create_signature ho) hverify
  refine ⟨text, _, o, htext, hread, rfl, rfl, hcreated.trans hdomain, ?_, hchecks⟩
  rw [Owid.payloadAsString, hpayload, Lib.decodeUtf8_encodeUtf8]

/-- `Provider.plain` with one key to generate. -/
def KeyProvider.plain : KeyProvider Bytes Bytes where
  toProvider := .plain
  generatePrivateKey _ := encodeUtf8 "key"
  privateBytes key := key
  publicBytes key := key

theorem KeyProvider.plain_lawful : KeyProvider.plain.Lawful where
  toLawful := Provider.plain_lawful
  privatePem _ := ⟨"key", rfl, by decide⟩
  publicPem _ := ⟨"key", rfl, by decide⟩
  loadPrivate _ := rfl
  loadPublic _ := rfl

theorem configured_reads_accent :
    ∃ (publicPem text : String) (r : ParseResult) (parsed : Owid),
      (Crypto.new KeyProvider.plain 0).publicKeyPem .plain = .ok publicPem ∧
      Parse.parseBase64 (.text text) = .ok r ∧ r.owid = some parsed ∧
      parsed.payloadAsString = "Grüße" ∧
      parsed.signatureStatus .plain publicPem = .signatureValid := by
  obtain ⟨privatePem, publicPem, hprivate, hpublic, hreads⟩ :=
    configured_reads KeyProvider.plain_lawful 0
  have hpem : decodePem (encodeUtf8 "key") = .ok "key" := decodePem_eq rfl
  cases hpem.symm.trans hprivate
  have hcrypto : Crypto.newSignOnly Provider.plain "key" = .ok (Crypto.new KeyProvider.plain 0) :=
    Crypto.newSignOnly_ok_iff.mpr ⟨by decide, _, rfl, rfl⟩
  have hdomain : Lib.strip "a.b" ≠ "" := by decide
  let creator : Creator Bytes Bytes :=
    ⟨"a.b", Crypto.new KeyProvider.plain 0, hdomain, by decide, rfl⟩
  have hcreator : Creator.fromConfiguration Provider.plain ⟨"a.b", "key"⟩ = .ok creator := by
    rw [Creator.fromConfiguration, hcrypto, ok_bind, Creator.new, dif_neg hdomain]
    rfl
  have h0 : 0 ∉ encodeUtf8 creator.domain := by
    show 0 ∉ encodeUtf8 "a.b"
    decide
  have hvalue : (encodeUtf8 "Grüße").length < 2 ^ 32 := by decide
  obtain ⟨o, ho⟩ := Creator.create_total Provider.plain_lawful rfl h0 hvalue (Int.le_refl _) 0
  obtain ⟨text, r, parsed, -, hread, -, howid, -, hpayload, -, hvalid⟩ :=
    hreads "a.b" creator hcreator (by decide) "Grüße" baseDate 0 o ho
  exact ⟨publicPem, text, r, parsed, hpublic, hread, howid, hpayload, hvalid⟩

end OpenWebId
