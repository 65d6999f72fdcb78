import OpenWebId.Basic
import OpenWebId.Lib.Radix
import OpenWebId.Lib.Text

/-!
# Signing and verifying: `crypto.py`

The elliptic curve arithmetic and the key formats belong to the `cryptography`
package, which is not part of this repository, so they enter as a `Provider`: what
its functions return on each input, with nothing assumed. Its signing draws a fresh
random number each time, which is the `entropy` argument. An
`InvalidSignature` raised by `verify` is the answer `false`; any other exception is an
error.

What this file models is what `Crypto` does around those calls: which PEM is refused
and how, the conversion between a DER signature and the 64 bytes an OWID stores, and
the checks on the way. `r` and `s` are 32 bytes each, most significant first.
-/

namespace OpenWebId

open Lib (toBE ofBE strip encodeUtf8)

/-- The length of an OWID signature in bytes. -/
def signatureLength : Nat := 64

/-- What a PEM holds: a key on an elliptic curve, or a key of another kind. -/
inductive LoadedKey (α : Type)
  | ec (key : α)
  | other

/-- The functions of the `cryptography` package that the code calls, over its types
of private and public elliptic curve keys. A load that raises is an error carrying
the text of the exception. -/
structure Provider (σ κ : Type) where
  loadPemPrivateKey : Bytes → Except String (LoadedKey σ)
  loadPemPublicKey : Bytes → Except String (LoadedKey κ)
  publicKey : σ → κ
  sign : (key : σ) → (data : Bytes) → (entropy : Nat) → Bytes
  decodeDssSignature : Bytes → Nat × Nat
  encodeDssSignature : Nat → Nat → Bytes
  verify : (key : κ) → (der data : Bytes) → Except PyExc Bool

/-- A `Crypto` instance, holding a private key, a public key, or both. -/
structure Crypto (σ κ : Type) where
  signingKey : Option σ
  verifyingKey : Option κ

variable {σ κ : Type}

namespace Crypto

/-- The instance made from a private key, by `new` with a generated one and by
`new_sign_only` with one read from a PEM. Its public key is the private key's own. -/
def ofSigningKey (P : Provider σ κ) (key : σ) : Crypto σ κ :=
  ⟨some key, some (P.publicKey key)⟩

/-- `Crypto.new_sign_only`. -/
def newSignOnly (P : Provider σ κ) (privatePem : String) : Except PyExc (Crypto σ κ) :=
  if strip privatePem = "" then .error (.owidError "private key PEM is empty")
  else
    match P.loadPemPrivateKey (encodeUtf8 privatePem) with
    | .error failed => .error (.owidError ("key operation failed because " ++ failed))
    | .ok .other =>
      .error (.owidError "key operation failed because the key is not an EC key")
    | .ok (.ec key) => .ok (ofSigningKey P key)

/-- `Crypto.new_verify_only`. -/
def newVerifyOnly (P : Provider σ κ) (publicPem : String) : Except PyExc (Crypto σ κ) :=
  if strip publicPem = "" then .error (.owidError "public key PEM is empty")
  else
    match P.loadPemPublicKey (encodeUtf8 publicPem) with
    | .error failed => .error (.owidError ("key operation failed because " ++ failed))
    | .ok .other =>
      .error (.owidError "key operation failed because the key is not an EC key")
    | .ok (.ec key) => .ok ⟨none, some key⟩

/-- `int.to_bytes(32, "big")`. -/
def toBytes32 (n : Nat) : Except PyExc Bytes :=
  if n < 256 ^ 32 then .ok (toBE 32 n) else .error .overflowError

/-- The message for a signature of the wrong length. -/
def signatureLengthMessage (length : Nat) : String :=
  "signature length '" ++ toString length ++ "' not compatible with '" ++
    toString signatureLength ++ "' OWID signature length"

/-- `Crypto.sign_byte_array`. -/
def signByteArray (P : Provider σ κ) (crypto : Crypto σ κ) (data : Bytes) (entropy : Nat) :
    Except PyExc Bytes :=
  match crypto.signingKey with
  | none => .error (.owidError "instance of Crypto cannot be used to generate a signature")
  | some key => do
    let der := P.sign key data entropy
    let (r, s) := P.decodeDssSignature der
    let signature := (← toBytes32 r) ++ (← toBytes32 s)
    if signature.length ≠ signatureLength then
      .error (.owidError (signatureLengthMessage signature.length))
    else .ok signature

/-- `Crypto.verify_byte_array`. -/
def verifyByteArray (P : Provider σ κ) (crypto : Crypto σ κ) (data signature : Bytes) :
    Except PyExc Bool :=
  match crypto.verifyingKey with
  | none => .error (.owidError "instance of Crypto cannot be used to verify a signature")
  | some key =>
    if signature.length ≠ signatureLength then
      .error (.owidError (signatureLengthMessage signature.length))
    else
      let r := ofBE (signature.take 32)
      let s := ofBE (signature.drop 32)
      if r = 0 ∨ s = 0 then .ok false
      else P.verify key (P.encodeDssSignature r s) data

/-- `Crypto.can_sign`. -/
def canSign (crypto : Crypto σ κ) : Bool := crypto.signingKey.isSome

/-- A public key PEM is accepted where it decodes to an elliptic curve key, on any curve. -/
theorem newVerifyOnly_ok_iff {P : Provider σ κ} {pem : String} {crypto : Crypto σ κ} :
    newVerifyOnly P pem = .ok crypto ↔
      strip pem ≠ "" ∧ ∃ key, P.loadPemPublicKey (encodeUtf8 pem) = .ok (.ec key) ∧
        crypto = ⟨none, some key⟩ := by
  unfold newVerifyOnly
  by_cases hblank : strip pem = ""
  · rw [if_pos hblank]
    refine iff_of_false ?_ fun h => h.1 hblank
    intro h
    cases h
  · rw [if_neg hblank, and_iff_right hblank]
    cases P.loadPemPublicKey (encodeUtf8 pem) with
    | error failed => simp
    | ok loaded =>
      cases loaded with
      | other => simp
      | ec key => simp [eq_comm]

/-- And so is a private key PEM. -/
theorem newSignOnly_ok_iff {P : Provider σ κ} {pem : String} {crypto : Crypto σ κ} :
    newSignOnly P pem = .ok crypto ↔
      strip pem ≠ "" ∧ ∃ key, P.loadPemPrivateKey (encodeUtf8 pem) = .ok (.ec key) ∧
        crypto = ofSigningKey P key := by
  unfold newSignOnly
  by_cases hblank : strip pem = ""
  · rw [if_pos hblank]
    refine iff_of_false ?_ fun h => h.1 hblank
    intro h
    cases h
  · rw [if_neg hblank, and_iff_right hblank]
    cases P.loadPemPrivateKey (encodeUtf8 pem) with
    | error failed => simp
    | ok loaded =>
      cases loaded with
      | other => simp
      | ec key => simp [eq_comm]

/-- An empty text is never read as a key. -/
theorem newVerifyOnly_nonempty {P : Provider σ κ} {pem : String} {crypto : Crypto σ κ}
    (h : newVerifyOnly P pem = .ok crypto) : pem ≠ "" ∧ strip pem ≠ "" := by
  obtain ⟨hstrip, -⟩ := newVerifyOnly_ok_iff.mp h
  exact ⟨fun he => hstrip (by rw [he]; rfl), hstrip⟩

/-- What a signature that was produced looks like: `r` and `s` fit 32 bytes each and
the 64 bytes are the two of them. -/
theorem signByteArray_ok {P : Provider σ κ} {crypto : Crypto σ κ} {data signature : Bytes}
    {entropy : Nat} (h : signByteArray P crypto data entropy = .ok signature) :
    ∃ key r s, crypto.signingKey = some key ∧
      P.decodeDssSignature (P.sign key data entropy) = (r, s) ∧
      r < 256 ^ 32 ∧ s < 256 ^ 32 ∧ signature = toBE 32 r ++ toBE 32 s := by
  unfold signByteArray at h
  split at h
  next => cases h
  next key hkey =>
    rcases hrs : P.decodeDssSignature (P.sign key data entropy) with ⟨r, s⟩
    simp only [hrs, toBytes32] at h
    by_cases hr : r < 256 ^ 32
    · by_cases hs : s < 256 ^ 32
      · simp only [if_pos hr, if_pos hs, bind, Except.bind] at h
        split at h
        · cases h
        · cases h
          exact ⟨key, r, s, hkey, hrs, hr, hs, rfl⟩
      · simp only [if_pos hr, if_neg hs, bind, Except.bind] at h
        cases h
    · simp only [if_neg hr, bind, Except.bind] at h
      cases h

/-- The two integers of a signature, 32 bytes each, fill the field of the signature. -/
theorem length_signature (r s : Nat) : (toBE 32 r ++ toBE 32 s).length = signatureLength := by
  rw [List.length_append, Lib.length_toBE, Lib.length_toBE]
  rfl

/-- A key whose signature integers fit signs. -/
theorem signByteArray_fits {P : Provider σ κ} {key : σ} {data : Bytes} {entropy r s : Nat}
    (hrs : P.decodeDssSignature (P.sign key data entropy) = (r, s)) (hr : r < 256 ^ 32)
    (hs : s < 256 ^ 32) :
    ∃ signature, signByteArray P (ofSigningKey P key) data entropy = .ok signature ∧
      signature.length = signatureLength := by
  have hlen := length_signature r s
  refine ⟨toBE 32 r ++ toBE 32 s, ?_, hlen⟩
  simp only [signByteArray, ofSigningKey, hrs, toBytes32, if_pos hr, if_pos hs, ok_bind]
  rw [if_neg (not_not_intro hlen)]

/-- Checking the 64 bytes made from `r` and `s` asks the provider about `r` and `s`. -/
theorem verifyByteArray_toBE {P : Provider σ κ} {crypto : Crypto σ κ} {data : Bytes} {key : κ}
    {r s : Nat} (hkey : crypto.verifyingKey = some key) (hr : r < 256 ^ 32)
    (hs : s < 256 ^ 32) (hr0 : r ≠ 0) (hs0 : s ≠ 0) :
    verifyByteArray P crypto data (toBE 32 r ++ toBE 32 s) =
      P.verify key (P.encodeDssSignature r s) data := by
  have hlen := length_signature r s
  have htake : (toBE 32 r ++ toBE 32 s).take 32 = toBE 32 r :=
    List.take_left' (Lib.length_toBE 32 r)
  have hdrop : (toBE 32 r ++ toBE 32 s).drop 32 = toBE 32 s :=
    List.drop_left' (Lib.length_toBE 32 r)
  simp only [verifyByteArray, hkey]
  rw [if_neg (not_not_intro hlen), htake, hdrop, Lib.ofBE_toBE hr, Lib.ofBE_toBE hs,
    if_neg (not_or.mpr ⟨hr0, hs0⟩)]

end Crypto

namespace Provider

/-- What the package is relied on for: verification accepts what signing produced over
the same bytes, the DER form of a signature decodes and encodes back, and its two
integers are in 1 to 2^256 - 1. -/
structure Lawful (P : Provider σ κ) : Prop where
  verify_sign : ∀ key data entropy,
    P.verify (P.publicKey key) (P.sign key data entropy) data = .ok true
  encode_decode : ∀ key data entropy r s, P.decodeDssSignature (P.sign key data entropy) = (r, s) →
    P.encodeDssSignature r s = P.sign key data entropy
  range : ∀ key data entropy r s, P.decodeDssSignature (P.sign key data entropy) = (r, s) →
    1 ≤ r ∧ r < 256 ^ 32 ∧ 1 ≤ s ∧ s < 256 ^ 32

/-- A provider to run the model with: a key is the bytes of its PEM, and a signature
names the key that made it. -/
def plain : Provider Bytes Bytes where
  loadPemPrivateKey pem := .ok (.ec pem)
  loadPemPublicKey pem := .ok (.ec pem)
  publicKey key := key
  sign key _ _ := toBE 32 (ofBE key % 256 + 1) ++ toBE 32 1
  decodeDssSignature der := (ofBE (der.take 32), ofBE (der.drop 32))
  encodeDssSignature r s := toBE 32 r ++ toBE 32 s
  verify key der _ := .ok (der == toBE 32 (ofBE key % 256 + 1) ++ toBE 32 1)

/-- Any text that is not blank is a key. -/
theorem plain_newVerifyOnly {pem : String} (h : strip pem ≠ "") :
    Crypto.newVerifyOnly plain pem = .ok ⟨none, some (encodeUtf8 pem)⟩ :=
  Crypto.newVerifyOnly_ok_iff.mpr ⟨h, _, rfl, rfl⟩

theorem plain_decode (key data : Bytes) (entropy : Nat) :
    plain.decodeDssSignature (plain.sign key data entropy) = (ofBE key % 256 + 1, 1) := by
  have hr : ofBE (toBE 32 (ofBE key % 256 + 1)) = ofBE key % 256 + 1 := Lib.ofBE_toBE (by omega)
  have hs : ofBE (toBE 32 1) = 1 := Lib.ofBE_toBE (by omega)
  simp only [plain, List.take_left' (Lib.length_toBE 32 _), List.drop_left' (Lib.length_toBE 32 _),
    hr, hs]

theorem plain_lawful : plain.Lawful where
  verify_sign _ _ _ := by simp [plain]
  encode_decode key data entropy r s h := by
    rw [plain_decode] at h
    cases h
    rfl
  range key data entropy r s h := by
    rw [plain_decode] at h
    cases h
    omega

end Provider

/-- Under a lawful provider a private key signs any data. -/
theorem Crypto.sign_total {P : Provider σ κ} (hP : P.Lawful) (key : σ) (data : Bytes)
    (entropy : Nat) :
    ∃ signature, signByteArray P (ofSigningKey P key) data entropy = .ok signature ∧
      signature.length = signatureLength := by
  rcases hrs : P.decodeDssSignature (P.sign key data entropy) with ⟨r, s⟩
  obtain ⟨-, hr, -, hs⟩ := hP.range key data entropy r s hrs
  exact signByteArray_fits hrs hr hs

/-- **What was signed verifies.** Under a lawful provider the instance made from a
private key accepts its own signature over the same bytes. -/
theorem Crypto.verify_sign {P : Provider σ κ} (hP : P.Lawful) {key : σ} {data signature : Bytes}
    {entropy : Nat} (h : signByteArray P (ofSigningKey P key) data entropy = .ok signature) :
    signature.length = signatureLength ∧
      verifyByteArray P (ofSigningKey P key) data signature = .ok true := by
  obtain ⟨key', r, s, hkey, hrs, hr, hs, rfl⟩ := signByteArray_ok h
  cases hkey
  obtain ⟨hr1, -, hs1, -⟩ := hP.range _ _ _ r s hrs
  constructor
  · exact length_signature r s
  · rw [verifyByteArray_toBE rfl hr hs (by omega) (by omega), hP.encode_decode _ _ _ r s hrs]
    exact hP.verify_sign key data entropy

end OpenWebId
