import Mathlib

/-!
# The vocabulary of the package: versions, statuses and exceptions

`Version` is the byte an OWID starts with (`version.py`), `ParseStatus` and
`SignatureStatus` are the two enumerations of `status.py`, and `PyExc` collects the
exceptions that cross a function of the package: its own `OwidError` and
`PublicKeyFetchError` with everything they carry, and the Python ones that the
code below it can let through.

`PublicKeyFetchError` derives from `OwidError`, so `except OwidError` catches both;
`PyExc.isOwidError` is that test.
-/

namespace OpenWebId

/-- A computation that did not raise hands its value on. -/
@[simp] theorem ok_bind {ε α β : Type} (a : α) (f : α → Except ε β) :
    (Except.ok a >>= f) = f a := rfl

/-- A computation that raised stops there. -/
@[simp] theorem error_bind {ε α β : Type} (e : ε) (f : α → Except ε β) :
    ((Except.error e : Except ε α) >>= f) = .error e := rfl

/-- A value that came out of a sequence came out of its last part, on what the first
returned. -/
theorem bind_eq_ok {ε α β : Type} {x : Except ε α} {f : α → Except ε β} {b : β} :
    (x >>= f) = .ok b ↔ ∃ a, x = .ok a ∧ f a = .ok b := by
  cases x <;> simp

/-- An exception that came out of a sequence came out of one of its parts. -/
theorem bind_eq_error {ε α β : Type} {x : Except ε α} {f : α → Except ε β} {e : ε} :
    (x >>= f) = .error e ↔ x = .error e ∨ ∃ a, x = .ok a ∧ f a = .error e := by
  cases x <;> simp

/-- A Python `bytes` value. -/
abbrev Bytes := List UInt8

/-- The byte version of an OWID. -/
inductive Version
  | empty
  | version1
  | version2
  | version3
  deriving DecidableEq, Repr

/-- `Version.as_byte`. -/
def Version.asByte : Version → UInt8
  | .empty => 0
  | .version1 => 1
  | .version2 => 2
  | .version3 => 3

/-- The version used for new OWIDs. -/
def defaultVersion : Version := .version3

/-- Why a parse of external data succeeded or failed. -/
inductive ParseStatus
  | parsed
  | missingInput
  | invalidInputType
  | invalidBase64
  | unsupportedVersion
  | unexpectedEnd
  | invalidDomainEncoding
  | byteCountMismatch
  | implementationCapacityExceeded
  | absentNode
  | malformedEnvelope
  deriving DecidableEq, Repr

/-- The outcome of asking whether an OWID's signature is genuine. -/
inductive SignatureStatus
  | signatureValid
  | signatureInvalid
  | invalidSignatureLength
  | keyUnavailable
  | invalidKey
  | implementationCapacityExceeded
  | verificationError
  deriving DecidableEq, Repr

/-- The exceptions the functions of the package raise or let through. -/
inductive PyExc
  /-- `OwidError`, with its message. -/
  | owidError (message : String)
  /-- `PublicKeyFetchError`, with the status to report, the domain asked and the
  response code, 0 where no response arrived. -/
  | publicKeyFetchError (message : String) (status : SignatureStatus) (domain : String)
      (statusCode : Int)
  /-- `ValueError` and its subclasses, the Unicode and base 64 errors among them. -/
  | valueError
  | osError
  /-- `http.client.HTTPException`. -/
  | httpException
  | indexError
  | overflowError
  /-- `struct.error`. -/
  | structError
  | recursionError
  /-- `asyncio.CancelledError`. -/
  | cancelledError
  /-- What the cryptography package raises on key material or data it cannot use. -/
  | providerError
  deriving DecidableEq, Repr

/-- Whether `except OwidError` catches the exception. -/
def PyExc.isOwidError : PyExc → Bool
  | .owidError _ => true
  | .publicKeyFetchError .. => true
  | _ => false

/-- The text `"{0}".format(failed)` gives for an exception of the package. -/
def PyExc.text : PyExc → String
  | .owidError message => message
  | .publicKeyFetchError message _ _ _ => message
  | _ => ""

/-- `Version.from_byte`. -/
def Version.fromByte (value : UInt8) : Except PyExc Version :=
  match value.toNat with
  | 0 => .ok .empty
  | 1 => .ok .version1
  | 2 => .ok .version2
  | 3 => .ok .version3
  | n => .error (.owidError ("OWID version '" ++ toString n ++ "' not supported"))

theorem Version.fromByte_asByte (v : Version) : Version.fromByte v.asByte = .ok v := by
  cases v <;> rfl

theorem Version.asByte_injective {v w : Version} (h : v.asByte = w.asByte) : v = w := by
  have hv := Version.fromByte_asByte v
  rw [h, Version.fromByte_asByte w] at hv
  exact (Except.ok.inj hv).symm

/-- The bytes that are versions are exactly the four. -/
theorem Version.fromByte_ok {b : UInt8} {v : Version} (h : Version.fromByte b = .ok v) :
    b = v.asByte := by
  unfold Version.fromByte at h
  have hb : UInt8.ofNat b.toNat = b := UInt8.ofNat_toNat
  split at h
  next hn => rw [hn] at hb; cases h; exact hb.symm
  next hn => rw [hn] at hb; cases h; exact hb.symm
  next hn => rw [hn] at hb; cases h; exact hb.symm
  next hn => rw [hn] at hb; cases h; exact hb.symm
  next => cases h

end OpenWebId
