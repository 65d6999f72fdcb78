import OpenWebId.DateTime
import OpenWebId.Crypto
import OpenWebId.Lib.Writer

/-!
# The write helpers: `io.py`

Each helper appends one field of the binary form to the caller's buffer, or raises.
Beside each is what it appends and exactly when it refuses; nothing later unfolds
them.
-/

namespace OpenWebId

open Lib (toLE toBE encodeUtf8)
open Lib.Writer (Appends Fails)

/-- The longest creator domain, in bytes: the 255 octets of a domain name less the
two with no text equivalent. -/
def maximumDomainLength : Nat := 255 - 2

/-- A write to the caller's `bytearray`. -/
abbrev Write : Type := Lib.Writer PyExc UInt8

namespace Io

open Lib.Writer (extend refuse)

/-- `write_byte`. -/
def writeByte (value : UInt8) : Write := extend [value]

/-- `write_string`. -/
def writeString (value : String) : Write :=
  let encoded := encodeUtf8 value
  if 0 ∈ encoded then refuse (.owidError ("domain '" ++ value ++ "' is not valid"))
  else if encoded.length > maximumDomainLength then
    refuse (.owidError ("domain is longer than the '" ++ toString maximumDomainLength ++
      "' character maximum"))
  else extend encoded >> extend [0]

/-- `write_u32`. -/
def writeU32 (value : Nat) : Write :=
  if value ≤ 0xFFFFFFFF then extend (toLE 4 value) else refuse .structError

/-- `write_byte_array`. -/
def writeByteArray (value : Bytes) : Write :=
  if value.length > 0xFFFFFFFF then
    refuse (.owidError ("payload length '" ++ toString value.length ++
      "' exceeds the unsigned 32 bit limit"))
  else writeU32 value.length >> extend value

/-- `write_signature`. -/
def writeSignature (value : Bytes) : Write :=
  if value.length ≠ signatureLength then
    refuse (.owidError (Crypto.signatureLengthMessage value.length))
  else extend value

/-- The message for a date no count of the version's width can hold. -/
def dateMessage : String := "date can not be stored in the encoding for the OWID version"

/-- The whole hours of a `timedelta`, as `delta.days * 24 + delta.seconds // 3600`. -/
def wholeHours (delta : Int) : Int :=
  delta / microsPerDay * 24 + delta % microsPerDay / microsPerHour

/-- `write_date`. -/
def writeDate (date : DateTime) (version : Version) : Write :=
  let delta := date.micros - baseDate.micros
  let minutes := wholeMinutes delta
  let asMinutes := if minutes < 0 ∨ minutes > 0xFFFFFFFF then refuse (.owidError dateMessage)
    else writeU32 minutes.toNat
  match version with
  | .version1 =>
    let hours := wholeHours delta
    if hours < 0 ∨ hours > 0xFFFF then refuse (.owidError dateMessage)
    else extend (toBE 2 hours.toNat)
  | .version2 => asMinutes
  | .version3 => asMinutes
  | .empty => refuse (.owidError ("OWID version '" ++ toString version.asByte.toNat ++
      "' not supported"))

/-! ## What each helper appends, and when it refuses -/

theorem writeByte_appends (value : UInt8) : Appends (writeByte value) [value] :=
  Lib.Writer.appends_extend _

theorem writeString_appends {value : String} (h0 : 0 ∉ encodeUtf8 value)
    (hlen : (encodeUtf8 value).length ≤ maximumDomainLength) :
    Appends (writeString value) (encodeUtf8 value ++ [0]) := by
  simp only [writeString]
  rw [if_neg h0, if_neg (by omega)]
  exact (Lib.Writer.appends_extend _).andThen (Lib.Writer.appends_extend _)

theorem writeString_fails {value : String}
    (h : 0 ∈ encodeUtf8 value ∨ maximumDomainLength < (encodeUtf8 value).length) :
    Fails (writeString value) := by
  simp only [writeString]
  by_cases h0 : 0 ∈ encodeUtf8 value
  · rw [if_pos h0]
    exact Lib.Writer.fails_refuse _
  · rw [if_neg h0, if_pos (h.resolve_left h0)]
    exact Lib.Writer.fails_refuse _

theorem writeU32_appends {value : Nat} (h : value ≤ 0xFFFFFFFF) :
    Appends (writeU32 value) (toLE 4 value) := by
  rw [writeU32, if_pos h]
  exact Lib.Writer.appends_extend _

theorem writeByteArray_appends {value : Bytes} (h : value.length ≤ 0xFFFFFFFF) :
    Appends (writeByteArray value) (toLE 4 value.length ++ value) := by
  rw [writeByteArray, if_neg (by omega)]
  exact (writeU32_appends h).andThen (Lib.Writer.appends_extend _)

theorem writeSignature_appends {value : Bytes} (h : value.length = signatureLength) :
    Appends (writeSignature value) value := by
  rw [writeSignature, if_neg (not_not_intro h)]
  exact Lib.Writer.appends_extend _

theorem writeDate_hours {date : DateTime} {hours : Nat}
    (h : date.micros = hours * microsPerHour) (hle : hours ≤ 0xFFFF) :
    Appends (writeDate date .version1) (toBE 2 hours) := by
  have hw : wholeHours (date.micros - baseDate.micros) = hours := by
    rw [h]
    simp only [wholeHours, baseDate, microsPerDay, microsPerHour, microsPerMinute,
      microsPerSecond]
    omega
  simp only [writeDate, hw]
  rw [if_neg (by omega), Int.toNat_natCast]
  exact Lib.Writer.appends_extend _

theorem writeDate_minutes {date : DateTime} {minutes : Nat} {version : Version}
    (hv : version = .version2 ∨ version = .version3)
    (h : wholeMinutes date.micros = minutes) (hle : minutes ≤ 0xFFFFFFFF) :
    Appends (writeDate date version) (toLE 4 minutes) := by
  have hm : wholeMinutes (date.micros - baseDate.micros) = minutes := by
    rw [← h]
    simp only [baseDate, Int.sub_zero]
  have hwrite : Appends (if (minutes : Int) < 0 ∨ (minutes : Int) > 0xFFFFFFFF
      then refuse (.owidError dateMessage) else writeU32 (minutes : Int).toNat)
      (toLE 4 minutes) := by
    rw [if_neg (by omega), Int.toNat_natCast]
    exact writeU32_appends hle
  rcases hv with rfl | rfl <;> simpa only [writeDate, hm] using hwrite

end Io

end OpenWebId
