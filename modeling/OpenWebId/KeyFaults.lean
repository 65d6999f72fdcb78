import OpenWebId.Owid

/-!
# Which curve a key is on

Both constructors of `Crypto` promise a P-256 key, and `signature_status` says that a key
that cannot be used is never reported as a forgery. What they check is that the PEM decodes
to an elliptic curve key, not which curve it is on. `faultsReported_iff` is the exact
condition under which that keeps the promises: neither text decodes to a key on another
curve.

The curve of a key is the package's to say, so it enters as `Curves` beside the `Provider`,
and of its P-256 keys it is relied on only for signatures whose two integers fit 32 bytes
each, `P256Range`.
-/

namespace OpenWebId

open Lib (strip encodeUtf8 toBE)

/-- The curve of an elliptic curve key. -/
inductive Curve
  | secp256r1
  | other (name : String)
  deriving DecidableEq

/-- The curves that the keys of a provider are on. -/
structure Curves (σ κ : Type) where
  ofPrivate : σ → Curve
  ofPublic : κ → Curve

/-- What was decoded is a P-256 key. -/
def OnP256 {α : Type} (curve : α → Curve) (loaded : Except String (LoadedKey α)) : Prop :=
  ∃ key, loaded = .ok (.ec key) ∧ curve key = .secp256r1

/-- What was decoded is a key on another curve. -/
def OffP256 {α : Type} (curve : α → Curve) (loaded : Except String (LoadedKey α)) : Prop :=
  ∃ key, loaded = .ok (.ec key) ∧ curve key ≠ .secp256r1

variable {σ κ : Type}

/-- The two integers of a P-256 signature are less than the order of the curve, which is
less than 2^256. -/
def P256Range (P : Provider σ κ) (C : Curves σ κ) : Prop :=
  ∀ key, C.ofPrivate key = .secp256r1 → ∀ data entropy r s,
    P.decodeDssSignature (P.sign key data entropy) = (r, s) → r < 256 ^ 32 ∧ s < 256 ^ 32

/-- A fault of a key is reported as one: a verdict on the signature and an instance of
`Crypto` are only ever given for a P-256 key, and the instance signs or refuses to. -/
structure FaultsReported (P : Provider σ κ) (C : Curves σ κ) (owid : Owid)
    (publicPem privatePem : String) : Prop where
  judged : owid.signatureStatus P publicPem = .signatureValid ∨
    owid.signatureStatus P publicPem = .signatureInvalid →
      OnP256 C.ofPublic (P.loadPemPublicKey (encodeUtf8 publicPem))
  reported : publicPem ≠ "" → owid.signature.length = signatureLength →
    ¬ OnP256 C.ofPublic (P.loadPemPublicKey (encodeUtf8 publicPem)) →
      owid.signatureStatus P publicPem = .invalidKey
  verifying : ∀ crypto, Crypto.newVerifyOnly P publicPem = .ok crypto →
    OnP256 C.ofPublic (P.loadPemPublicKey (encodeUtf8 publicPem))
  signing : ∀ crypto, Crypto.newSignOnly P privatePem = .ok crypto →
    OnP256 C.ofPrivate (P.loadPemPrivateKey (encodeUtf8 privatePem))
  signed : ∀ crypto, Crypto.newSignOnly P privatePem = .ok crypto → ∀ data entropy,
    (∃ signature, crypto.signByteArray P data entropy = .ok signature ∧
      signature.length = signatureLength) ∨
    ∃ e, crypto.signByteArray P data entropy = .error e ∧ e.isOwidError = true

/-! ## What a key that was accepted decides -/

section Constructors

variable {P : Provider σ κ}

/-- A verdict on a signature is given under a key that was accepted. -/
theorem signatureStatus_judged {owid : Owid} {pem : String}
    (h : owid.signatureStatus P pem = .signatureValid ∨
      owid.signatureStatus P pem = .signatureInvalid) :
    ∃ crypto, Crypto.newVerifyOnly P pem = .ok crypto := by
  unfold Owid.signatureStatus at h
  split at h
  next => simp at h
  next =>
    split at h
    next => simp at h
    next =>
      split at h
      next => simp at h
      next crypto hcrypto => exact ⟨crypto, hcrypto⟩

/-- A text that is refused as a key is reported as one. -/
theorem signatureStatus_refused {owid : Owid} {pem : String} (hne : pem ≠ "")
    (hsig : owid.signature.length = signatureLength) {e : PyExc}
    (h : Crypto.newVerifyOnly P pem = .error e) : owid.signatureStatus P pem = .invalidKey := by
  rw [Owid.signatureStatus, if_neg hne, if_neg (not_not_intro hsig), h]

/-- One that is too large for 32 bytes raises what nothing catches. -/
theorem signByteArray_overflows {key : σ} {data : Bytes} {entropy r s : Nat}
    (hrs : P.decodeDssSignature (P.sign key data entropy) = (r, s)) (hr : ¬ r < 256 ^ 32) :
    (Crypto.ofSigningKey P key).signByteArray P data entropy = .error .overflowError := by
  simp only [Crypto.signByteArray, Crypto.ofSigningKey, hrs, Crypto.toBytes32, if_neg hr,
    error_bind]

end Constructors

/-! ## The promises -/

section Curves

variable {P : Provider σ κ} {C : Curves σ κ}

/-- A key that was decoded is on P-256, or on another curve. -/
theorem onP256_of_not_off {α : Type} {curve : α → Curve} {loaded : Except String (LoadedKey α)}
    {key : α} (hkey : loaded = .ok (.ec key)) (h : ¬ OffP256 curve loaded) :
    OnP256 curve loaded := by
  by_cases hcurve : curve key = .secp256r1
  · exact ⟨key, hkey, hcurve⟩
  · exact absurd ⟨key, hkey, hcurve⟩ h

theorem not_onP256_of_off {α : Type} {curve : α → Curve} {loaded : Except String (LoadedKey α)}
    (h : OffP256 curve loaded) : ¬ OnP256 curve loaded := by
  rintro ⟨key, hkey, hon⟩
  obtain ⟨key', hkey', hoff⟩ := h
  cases hkey.symm.trans hkey'
  exact hoff hon

/-- **A fault of a key is reported as one** exactly when neither text decodes to a key on
another curve. -/
theorem faultsReported_iff (hrange : P256Range P C) (owid : Owid) (publicPem privatePem : String) :
    FaultsReported P C owid publicPem privatePem ↔
      (strip publicPem = "" ∨
        ¬ OffP256 C.ofPublic (P.loadPemPublicKey (encodeUtf8 publicPem))) ∧
      (strip privatePem = "" ∨
        ¬ OffP256 C.ofPrivate (P.loadPemPrivateKey (encodeUtf8 privatePem))) := by
  constructor
  · intro h
    constructor
    · -- a key on another curve is accepted
      by_cases hblank : strip publicPem = ""
      · exact Or.inl hblank
      · refine Or.inr fun hoff => ?_
        obtain ⟨key, hkey, -⟩ := id hoff
        exact not_onP256_of_off hoff
          (h.verifying _ (Crypto.newVerifyOnly_ok_iff.mpr ⟨hblank, key, hkey, rfl⟩))
    · by_cases hblank : strip privatePem = ""
      · exact Or.inl hblank
      · refine Or.inr fun hoff => ?_
        obtain ⟨key, hkey, -⟩ := id hoff
        exact not_onP256_of_off hoff
          (h.signing _ (Crypto.newSignOnly_ok_iff.mpr ⟨hblank, key, hkey, rfl⟩))
  · intro h
    obtain ⟨hpublic, hprivate⟩ := h
    have hverifying : ∀ crypto, Crypto.newVerifyOnly P publicPem = .ok crypto →
        OnP256 C.ofPublic (P.loadPemPublicKey (encodeUtf8 publicPem)) := by
      intro crypto hcrypto
      obtain ⟨hblank, key, hkey, -⟩ := Crypto.newVerifyOnly_ok_iff.mp hcrypto
      exact onP256_of_not_off hkey (hpublic.resolve_left hblank)
    have hsigning : ∀ crypto, Crypto.newSignOnly P privatePem = .ok crypto →
        ∃ key, crypto = Crypto.ofSigningKey P key ∧ C.ofPrivate key = .secp256r1 ∧
          P.loadPemPrivateKey (encodeUtf8 privatePem) = .ok (.ec key) := by
      intro crypto hcrypto
      obtain ⟨hblank, key, hkey, rfl⟩ := Crypto.newSignOnly_ok_iff.mp hcrypto
      obtain ⟨key', hkey', hcurve⟩ := onP256_of_not_off hkey (hprivate.resolve_left hblank)
      cases hkey.symm.trans hkey'
      exact ⟨key, rfl, hcurve, hkey⟩
    refine ⟨?_, ?_, hverifying, ?_, ?_⟩
    · intro hjudged
      obtain ⟨crypto, hcrypto⟩ := signatureStatus_judged hjudged
      exact hverifying crypto hcrypto
    · intro hne hsig hnot
      cases hcrypto : Crypto.newVerifyOnly P publicPem with
      | error e => exact signatureStatus_refused hne hsig hcrypto
      | ok crypto => exact absurd (hverifying crypto hcrypto) hnot
    · intro crypto hcrypto
      obtain ⟨key, -, hcurve, hkey⟩ := hsigning crypto hcrypto
      exact ⟨key, hkey, hcurve⟩
    · intro crypto hcrypto data entropy
      obtain ⟨key, rfl, hcurve, -⟩ := hsigning crypto hcrypto
      rcases hrs : P.decodeDssSignature (P.sign key data entropy) with ⟨r, s⟩
      obtain ⟨hr, hs⟩ := hrange key hcurve data entropy r s hrs
      exact Or.inl (Crypto.signByteArray_fits hrs hr hs)

end Curves

/-! ## A key on another curve -/

/-- An OWID with a signature of ones. -/
def onesOwid : Owid := ⟨.version3, "a.com", baseDate, [], List.replicate 64 1⟩

/-- Every key is on P-256. -/
def p256Curves : Curves Bytes Bytes := ⟨fun _ => .secp256r1, fun _ => .secp256r1⟩

theorem plain_p256Range : P256Range .plain p256Curves := by
  intro key _ data entropy r s hrs
  obtain ⟨-, hr, -, hs⟩ := Provider.plain_lawful.range key data entropy r s hrs
  exact ⟨hr, hs⟩

/-- Under keys on P-256 every fault is reported as one. -/
theorem faultsReported_plain : FaultsReported .plain p256Curves onesOwid "A" "A" := by
  refine (faultsReported_iff plain_p256Range onesOwid "A" "A").mpr ⟨Or.inr ?_, Or.inr ?_⟩
  · rintro ⟨key, -, hoff⟩
    exact hoff rfl
  · rintro ⟨key, -, hoff⟩
    exact hoff rfl

/-- Every key is on P-384. -/
def p384Curves : Curves Bytes Bytes :=
  ⟨fun _ => .other "secp384r1", fun _ => .other "secp384r1"⟩

/-- A provider whose keys sign with an integer of 33 bytes, and whose signatures are longer
than any an OWID holds. -/
def p384Provider : Provider Bytes Bytes :=
  { Provider.plain with
    decodeDssSignature := fun _ => (256 ^ 32, 1)
    verify := fun _ _ _ => .ok false }

/-- **A P-384 key is not reported as a fault.** The signature is called invalid, and
signing raises an `OverflowError`. -/
theorem faultsReported_p384 :
    ¬ OnP256 p384Curves.ofPublic (p384Provider.loadPemPublicKey (encodeUtf8 "A")) ∧
      onesOwid.signature.length = signatureLength ∧
      onesOwid.signatureStatus p384Provider "A" = .signatureInvalid ∧
      ∃ crypto, Crypto.newSignOnly p384Provider "A" = .ok crypto ∧
        crypto.signByteArray p384Provider [] 0 = .error .overflowError := by
  have hblank : strip "A" ≠ "" := by decide
  refine ⟨?_, rfl, ?_, ?_⟩
  · rintro ⟨key, -, hon⟩
    cases hon
  · have hkey : Crypto.newVerifyOnly p384Provider "A" = .ok ⟨none, some (encodeUtf8 "A")⟩ :=
      Crypto.newVerifyOnly_ok_iff.mpr ⟨hblank, _, rfl, rfl⟩
    rw [Owid.signatureStatus_eq hkey rfl]
    have hsigned : onesOwid.signedBytes =
        .ok (Owid.fieldBytes .version3 (encodeUtf8 "a.com") 0 []) :=
      Owid.signedBytes_eq (by decide) (by decide) ⟨rfl, by decide⟩ (by decide)
    simp only [Owid.verifyWithCrypto, hsigned, Except.bind]
    rfl
  · refine ⟨_, Crypto.newSignOnly_ok_iff.mpr ⟨hblank, _, rfl, rfl⟩, ?_⟩
    exact signByteArray_overflows rfl (by omega)

end OpenWebId
