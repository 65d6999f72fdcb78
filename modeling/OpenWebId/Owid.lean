import OpenWebId.Io
import OpenWebId.Lib.Base64

/-!
# The OWID and its binary form: `owid.py`

`asByteArray` writes every field and `signedBytes` every field but the signature,
field by field through the helpers of `Io`; both start from an empty buffer. The
verification side is `signatureStatus`, which keeps a key that cannot be used apart
from a signature that does not match.
-/

namespace OpenWebId

open Lib (toLE toBE encodeUtf8)
open Lib.Writer (Appends Fails)

/-- An OWID. -/
structure Owid where
  version : Version
  domain : String
  date : DateTime
  payload : Bytes
  signature : Bytes
  deriving DecidableEq

variable {σ κ : Type}

namespace Owid

/-- `Owid._to_buffer_no_signature`. -/
def toBufferNoSignature (o : Owid) : Write :=
  Io.writeByte o.version.asByte >> Io.writeString o.domain >> Io.writeDate o.date o.version >>
    Io.writeByteArray o.payload

/-- `Owid.to_buffer`. -/
def toBuffer (o : Owid) : Write := toBufferNoSignature o >> Io.writeSignature o.signature

/-- `Owid.as_byte_array`. -/
def asByteArray (o : Owid) : Except PyExc Bytes := (toBuffer o).toValue

/-- `Owid.signed_bytes`, the bytes the signature covers. -/
def signedBytes (o : Owid) : Except PyExc Bytes := (toBufferNoSignature o).toValue

/-- `Owid.as_base64`. -/
def asBase64 (o : Owid) : Except PyExc String :=
  (asByteArray o).map fun bytes => String.ofList (Lib.Base64.encode bytes)

/-- `Owid.verify_with_crypto`. -/
def verifyWithCrypto (P : Provider σ κ) (o : Owid) (crypto : Crypto σ κ) : Except PyExc Bool :=
  o.signedBytes.bind fun data => crypto.verifyByteArray P data o.signature

/-- `Owid.signature_status`: whether the signature is genuine under the key, or why
that could not be decided. -/
def signatureStatus (P : Provider σ κ) (o : Owid) (publicPem : String) : SignatureStatus :=
  if publicPem = "" then .keyUnavailable
  else if o.signature.length ≠ signatureLength then .invalidSignatureLength
  else
    match Crypto.newVerifyOnly P publicPem with
    | .error _ => .invalidKey
    | .ok crypto =>
      match o.verifyWithCrypto P crypto with
      | .error _ => .verificationError
      | .ok matched => if matched then .signatureValid else .signatureInvalid

/-- The bytes of the date field of an OWID of this version, where the date is the
count given. -/
def dateBytes (version : Version) (count : Nat) : Bytes :=
  match version with
  | .version1 => toBE 2 count
  | _ => toLE 4 count

/-- The fields before the signature, as bytes. -/
def fieldBytes (version : Version) (domain : Bytes) (count : Nat) (payload : Bytes) : Bytes :=
  [version.asByte] ++ ((domain ++ [0]) ++ (dateBytes version count ++
    (toLE 4 payload.length ++ payload)))

/-- The date is the count of hours or minutes that the version stores. -/
def DateIs (date : DateTime) (version : Version) (count : Nat) : Prop :=
  match version with
  | .version1 => date.micros = count * microsPerHour ∧ count ≤ 0xFFFF
  | .version2 => wholeMinutes date.micros = count ∧ count ≤ 0xFFFFFFFF
  | .version3 => wholeMinutes date.micros = count ∧ count ≤ 0xFFFFFFFF
  | .empty => False

theorem writeDate_appends {date : DateTime} {version : Version} {count : Nat}
    (h : DateIs date version count) :
    Appends (Io.writeDate date version) (dateBytes version count) := by
  cases version with
  | empty => exact h.elim
  | version1 => exact Io.writeDate_hours h.1 h.2
  | version2 => exact Io.writeDate_minutes (Or.inl rfl) h.1 h.2
  | version3 => exact Io.writeDate_minutes (Or.inr rfl) h.1 h.2

/-- What the fields before the signature are written as, where each can be. -/
theorem toBufferNoSignature_appends {o : Owid} {count : Nat}
    (h0 : 0 ∉ encodeUtf8 o.domain) (hlen : (encodeUtf8 o.domain).length ≤ maximumDomainLength)
    (hdate : DateIs o.date o.version count) (hpayload : o.payload.length ≤ 0xFFFFFFFF) :
    Appends o.toBufferNoSignature
      (fieldBytes o.version (encodeUtf8 o.domain) count o.payload) :=
  (Io.writeByte_appends _).andThen ((Io.writeString_appends h0 hlen).andThen
    ((writeDate_appends hdate).andThen (Io.writeByteArray_appends hpayload)))

theorem signedBytes_eq {o : Owid} {count : Nat}
    (h0 : 0 ∉ encodeUtf8 o.domain) (hlen : (encodeUtf8 o.domain).length ≤ maximumDomainLength)
    (hdate : DateIs o.date o.version count) (hpayload : o.payload.length ≤ 0xFFFFFFFF) :
    o.signedBytes = .ok (fieldBytes o.version (encodeUtf8 o.domain) count o.payload) :=
  (toBufferNoSignature_appends h0 hlen hdate hpayload).toValue

theorem asByteArray_eq {o : Owid} {count : Nat}
    (h0 : 0 ∉ encodeUtf8 o.domain) (hlen : (encodeUtf8 o.domain).length ≤ maximumDomainLength)
    (hdate : DateIs o.date o.version count) (hpayload : o.payload.length ≤ 0xFFFFFFFF)
    (hsig : o.signature.length = signatureLength) :
    o.asByteArray =
      .ok (fieldBytes o.version (encodeUtf8 o.domain) count o.payload ++ o.signature) :=
  ((toBufferNoSignature_appends h0 hlen hdate hpayload).andThen
    (Io.writeSignature_appends hsig)).toValue

/-- A domain that cannot be written stops the fields from being written. -/
theorem signedBytes_error {o : Owid}
    (h : 0 ∈ encodeUtf8 o.domain ∨ maximumDomainLength < (encodeUtf8 o.domain).length) :
    ∃ e, o.signedBytes = .error e :=
  Lib.Writer.Fails.toValue
    ((Io.writeByte_appends _).andThen_fails (Io.writeString_fails h).andThen)

theorem asByteArray_error {o : Owid}
    (h : 0 ∈ encodeUtf8 o.domain ∨ maximumDomainLength < (encodeUtf8 o.domain).length) :
    ∃ e, o.asByteArray = .error e :=
  Lib.Writer.Fails.toValue
    ((Io.writeByte_appends _).andThen_fails (Io.writeString_fails h).andThen).andThen

/-- With a readable key, a 64 byte signature and fields that can be written, only the
provider's verdict is left. -/
theorem signatureStatus_eq {P : Provider σ κ} {o : Owid} {pem : String} {crypto : Crypto σ κ}
    (hkey : Crypto.newVerifyOnly P pem = .ok crypto)
    (hsig : o.signature.length = signatureLength) :
    o.signatureStatus P pem =
      match o.verifyWithCrypto P crypto with
      | .error _ => .verificationError
      | .ok matched => if matched then .signatureValid else .signatureInvalid := by
  rw [signatureStatus, if_neg (Crypto.newVerifyOnly_nonempty hkey).1,
    if_neg (not_not_intro hsig), hkey]

end Owid

end OpenWebId
