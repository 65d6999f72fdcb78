import OpenWebId.RoundTrip

/-!
# The raising reader: `io.Reader` and `Owid._from_reader`

The library has a second reader of the binary form, kept for the tests that assert its
messages. It moves a position through the buffer and raises where `_parse` reports, with
its own search for the end of the domain, its own width checks and its own check of the
declared payload, and it decodes the domain as UTF-8 where `_parse` decodes it as ASCII
with replacement.

`Reader.split` is a reader at a known place in its buffer. Each read has a lemma for what
it takes from there and one for where it raises, and `fromByteArrayOrRaise_agrees` follows
`Walk`: on buffers of a known version whose domain bytes are ASCII, each way that `_parse`
goes is one that the reader goes too.
-/

namespace OpenWebId

open Lib (toLE toBE ofLE ofBE decodeAscii encodeUtf8)
open Parse (index slice)
open Owid (dateBytes)

/-- `Reader`, with its buffer and its position. -/
structure Reader where
  buffer : Bytes
  position : Nat
  deriving DecidableEq

/-- A read that moves the position, or raises. -/
abbrev Read (α : Type) : Type := StateT Reader (Except PyExc) α

namespace Reader

/-- The message for a buffer that is too short. -/
def endedMessage : String := "buffer ended before the OWID was complete"

/-- `Reader.read_byte`. -/
def readByte : Read UInt8 := fun r =>
  if r.position ≥ r.buffer.length then .error (.owidError endedMessage)
  else (index r.buffer r.position).map fun value => (value, { r with position := r.position + 1 })

/-- `Reader.read_bytes`. -/
def readBytes (count : Nat) : Read Bytes := fun r =>
  let stop := r.position + count
  if stop > r.buffer.length then .error (.owidError endedMessage)
  else .ok (slice r.buffer r.position stop, { r with position := stop })

/-- `buffer.find(b"\0", start, stop)`. -/
def findZero (buffer : Bytes) (start stop : Nat) : Option Nat :=
  ((slice buffer start stop).findIdx? (· = 0)).map (start + ·)

/-- `Reader.read_string`. -/
def readString : Read String := fun r =>
  let windowEnd := r.position + maximumDomainLength + 1
  match findZero r.buffer r.position windowEnd with
  | none =>
    if r.buffer.length < windowEnd then .error (.owidError endedMessage)
    else .error (.owidError ("domain is longer than the '" ++ toString maximumDomainLength ++
      "' character maximum"))
  | some terminator =>
    match Lib.decodeUtf8Strict (slice r.buffer r.position terminator) with
    | none => .error (.owidError "domain bytes are not valid UTF-8")
    | some value => .ok (value, { r with position := terminator + 1 })

/-- `Reader.read_u32`. -/
def readU32 : Read Nat := fun r =>
  if r.position + 4 > r.buffer.length then .error (.owidError endedMessage)
  else .ok (ofLE (slice r.buffer r.position (r.position + 4)),
    { r with position := r.position + 4 })

/-- The message for a payload length that leaves something other than the signature. -/
def payloadMessage (count : Nat) (remaining : Int) : String :=
  "OWID payload length '" ++ toString count ++ "' does not match the '" ++ toString remaining ++
    "' bytes present, of which the final '" ++ toString signatureLength ++
    "' must be the signature"

/-- `Reader.read_byte_array`. -/
def readByteArray : Read Bytes := do
  let count ← readU32
  let r ← get
  let remaining := (r.buffer.length : Int) - r.position
  if remaining ≠ count + signatureLength then throw (.owidError (payloadMessage count remaining))
  else readBytes count

/-- `Reader.read_signature`. -/
def readSignature : Read Bytes := readBytes signatureLength

/-- The base date plus a span. -/
def dateAfter (micros : Int) : Read DateTime := liftM (baseDate.add micros)

/-- `Reader.read_date`. -/
def readDate (version : Version) : Read DateTime :=
  let asMinutes := do
    let minutes ← readU32
    dateAfter (minutes * microsPerMinute)
  match version with
  | .version1 => do
    let high ← readByte
    let low ← readByte
    let hours := (high.toNat <<< 8) ||| low.toNat
    dateAfter (hours * microsPerHour)
  | .version2 => asMinutes
  | .version3 => asMinutes
  | .empty => throw (.owidError ("OWID version '" ++ toString version.asByte.toNat ++
      "' not supported"))

end Reader

namespace Owid

/-- `Owid._from_reader`. The absent marker has no fields, and is dated now. -/
def fromReader (now : DateTime) : Read Owid := do
  let first ← Reader.readByte
  let version ← liftM (Version.fromByte first)
  if version = .empty then return ⟨version, "", now, [], []⟩
  else
    let domain ← Reader.readString
    let date ← Reader.readDate version
    let payload ← Reader.readByteArray
    let signature ← Reader.readSignature
    return ⟨version, domain, date, payload, signature⟩

/-- `Owid._from_byte_array_or_raise`. -/
def fromByteArrayOrRaise (buffer : Bytes) (now : DateTime) : Except PyExc Owid :=
  (fromReader now ⟨buffer, 0⟩).map Prod.fst

end Owid

/-! ## Sequences of reads -/

section Sequences

variable {α β : Type} {read : Read α} {next : α → Read β} {r : Reader}

/-- What follows a read goes on from where it ended. -/
theorem read_bind {a : α} {r' : Reader} (h : read r = .ok (a, r')) :
    (read >>= next) r = next a r' := by
  show (read r >>= fun p => next p.1 p.2) = next a r'
  rw [h]
  rfl

/-- Nothing follows a read that raised. -/
theorem read_bind_error {e : PyExc} (h : read r = .error e) : (read >>= next) r = .error e := by
  show (read r >>= fun p => next p.1 p.2) = .error e
  rw [h]
  rfl

/-- A read that raises somewhere raises. -/
theorem read_bind_raises (h : ∃ e, read r = .error e) : ∃ e, (read >>= next) r = .error e := by
  obtain ⟨e, he⟩ := h
  exact ⟨e, read_bind_error he⟩

theorem read_lift {x : Except PyExc α} {a : α} (h : x = .ok a) :
    (liftM x : Read α) r = .ok (a, r) := by
  subst h
  rfl

end Sequences

/-! ## What each read takes, and where it raises -/

namespace Reader

/-- A reader that has taken the bytes `done`, with the bytes `ahead` in front of it. -/
def split (done ahead : Bytes) : Reader := ⟨done ++ ahead, done.length⟩

theorem split_assoc (done field ahead : Bytes) :
    (⟨done ++ (field ++ ahead), done.length + field.length⟩ : Reader) =
      split (done ++ field) ahead := by
  rw [split, List.append_assoc, List.length_append]

section Split

variable {done ahead : Bytes}

theorem readByte_split (b : UInt8) :
    readByte (split done (b :: ahead)) = .ok (b, split (done ++ [b]) ahead) := by
  have hroom : ¬ (split done (b :: ahead)).position ≥ (split done (b :: ahead)).buffer.length := by
    simp only [split, List.length_append, List.length_cons]
    omega
  have hindex : index (split done (b :: ahead)).buffer (split done (b :: ahead)).position = .ok b :=
    index_append done b ahead
  rw [readByte, if_neg hroom, hindex]
  exact congrArg (fun r => Except.ok (b, r)) (split_assoc done [b] ahead)

theorem readByte_end : ∃ e, readByte (split done []) = .error e := by
  have hended : (split done []).position ≥ (split done []).buffer.length := by
    simp only [split, List.length_append, List.length_nil]
    omega
  rw [readByte, if_pos hended]
  exact ⟨_, rfl⟩

theorem readBytes_split (field : Bytes) :
    readBytes field.length (split done (field ++ ahead)) =
      .ok (field, split (done ++ field) ahead) := by
  have hroom : ¬ done.length + field.length > (done ++ (field ++ ahead)).length := by
    simp only [List.length_append]
    omega
  simp only [readBytes, split, if_neg hroom, slice_append]
  exact congrArg (fun r => Except.ok (field, r)) (split_assoc done field ahead)

theorem readU32_split {n : Nat} (h : n ≤ 0xFFFFFFFF) :
    readU32 (split done (toLE 4 n ++ ahead)) = .ok (n, split (done ++ toLE 4 n) ahead) := by
  have hroom : ¬ done.length + 4 > (done ++ (toLE 4 n ++ ahead)).length := by
    simp only [List.length_append, Lib.length_toLE]
    omega
  have hslice := slice_append done (toLE 4 n) ahead
  have hnext := split_assoc done (toLE 4 n) ahead
  rw [Lib.length_toLE] at hslice hnext
  simp only [readU32, split, if_neg hroom, hslice]
  rw [Lib.ofLE_toLE 4 (by omega)]
  exact congrArg (fun r => Except.ok (n, r)) hnext

theorem readU32_end (h : ahead.length < 4) : ∃ e, readU32 (split done ahead) = .error e := by
  have hended : (split done ahead).position + 4 > (split done ahead).buffer.length := by
    simp only [split, List.length_append]
    omega
  rw [readU32, if_pos hended]
  exact ⟨_, rfl⟩

/-- The bytes in front of a reader, from the first of them on. -/
theorem slice_split (stop : Nat) :
    slice (done ++ ahead) done.length (done.length + stop) = ahead.take stop := by
  have h := slice_behind done ahead 0 stop
  rwa [Nat.add_zero, List.drop_zero] at h

/-- The first zero byte is found where it is within the window. -/
theorem findZero_found {domain : Bytes} {window : Nat} (h0 : 0 ∉ domain)
    (hlen : domain.length < window) :
    findZero (done ++ (domain ++ 0 :: ahead)) done.length (done.length + window) =
      some (done.length + domain.length) := by
  have hwindow : (domain ++ 0 :: ahead).take window =
      domain ++ 0 :: ahead.take (window - domain.length - 1) := by
    rw [List.take_append, List.take_of_length_le (Nat.le_of_lt hlen)]
    obtain ⟨k, hk⟩ : ∃ k, window - domain.length = k + 1 := ⟨window - domain.length - 1, by omega⟩
    rw [hk, List.take_succ_cons, Nat.add_sub_cancel]
  have hdomain : domain.findIdx? (fun b => decide (b = 0)) = none := by
    apply List.findIdx?_eq_none_iff.mpr
    intro b hb
    exact decide_eq_false fun he => h0 (he ▸ hb)
  rw [findZero, slice_split, hwindow, List.findIdx?_append, hdomain, List.findIdx?_cons,
    if_pos (decide_eq_true rfl), Option.none_or, Option.map_some, Option.map_some, Nat.zero_add]

theorem findZero_none {window : Nat} (h0 : 0 ∉ ahead.take window) :
    findZero (done ++ ahead) done.length (done.length + window) = none := by
  have hahead : (ahead.take window).findIdx? (fun b => decide (b = 0)) = none := by
    apply List.findIdx?_eq_none_iff.mpr
    intro b hb
    exact decide_eq_false fun he => h0 (he ▸ hb)
  rw [findZero, slice_split, hahead]
  rfl

/-- An ASCII domain that ends in its window is read as the other reader decodes it. -/
theorem readString_split {domain : Bytes} (h0 : 0 ∉ domain)
    (hlen : domain.length ≤ maximumDomainLength) (hascii : ∀ b ∈ domain, b.toNat < 0x80) :
    readString (split done (domain ++ 0 :: ahead)) =
      .ok (decodeAscii domain, split (done ++ (domain ++ [0])) ahead) := by
  have hfind : findZero (done ++ (domain ++ 0 :: ahead)) done.length
      (done.length + (maximumDomainLength + 1)) = some (done.length + domain.length) :=
    findZero_found h0 (Nat.lt_succ_of_le hlen)
  have hslice : slice (done ++ (domain ++ 0 :: ahead)) done.length (done.length + domain.length) =
      domain := slice_append done domain (0 :: ahead)
  have hdecode : Lib.decodeUtf8Strict domain = some (decodeAscii domain) := by
    have h := Lib.decodeUtf8Strict_encodeUtf8 (decodeAscii domain)
    rwa [Lib.encodeUtf8_decodeAscii hascii] at h
  have hnext := split_assoc done (domain ++ [0]) ahead
  rw [List.append_assoc, List.singleton_append, List.length_append, List.length_singleton] at hnext
  rw [← Nat.add_assoc] at hnext
  simp only [readString, split, Nat.add_assoc]
  simp only [hfind, hslice, hdecode]
  exact congrArg (fun r => Except.ok (decodeAscii domain, r)) hnext

/-- A domain that does not end in its window is refused. -/
theorem readString_end (h0 : 0 ∉ ahead.take (maximumDomainLength + 1)) :
    ∃ e, readString (split done ahead) = .error e := by
  have hfind : findZero (done ++ ahead) done.length (done.length + (maximumDomainLength + 1)) =
      none := findZero_none h0
  simp only [readString, split, Nat.add_assoc]
  simp only [hfind]
  split
  · exact ⟨_, rfl⟩
  · exact ⟨_, rfl⟩

theorem dateAfter_ok {micros : Int} {date : DateTime} {r : Reader}
    (h : baseDate.add micros = .ok date) : dateAfter micros r = .ok (date, r) :=
  read_lift h

theorem dateAfter_error {micros : Int} {e : PyExc} {r : Reader}
    (h : baseDate.add micros = .error e) : dateAfter micros r = .error e := by
  rw [dateAfter, h]
  rfl

/-- Every version but the first counts minutes. -/
theorem readDate_minutes {version : Version} (hv : version ≠ .empty) (hv1 : version ≠ .version1) :
    readDate version = (do
      let minutes ← readU32
      dateAfter (minutes * microsPerMinute)) := by
  cases version with
  | empty => exact absurd rfl hv
  | version1 => exact absurd rfl hv1
  | version2 | version3 => rfl

theorem readDate_hours {count : Nat} (hcount : count ≤ maximumCount .version1) :
    readDate .version1 (split done (toBE 2 count ++ ahead)) =
      .ok (dateOf .version1 count hcount, split (done ++ toBE 2 count) ahead) := by
  have hread : ofBE (toBE 2 count) = count :=
    Lib.ofBE_toBE (by simp only [maximumCount] at hcount; omega)
  obtain ⟨high, low, hbytes⟩ : ∃ high low, toBE 2 count = [high, low] := ⟨_, _, rfl⟩
  have hjoin := Lib.shift_or_eq_ofBE high low
  rw [← hbytes, hread] at hjoin
  have hadd := baseDate_add_count hcount
  simp only [dateUnit] at hadd
  have hdone : done ++ [high] ++ [low] = done ++ [high, low] := by
    rw [List.append_assoc]
    rfl
  rw [hbytes, List.cons_append, List.cons_append, List.nil_append, ← hdone, readDate,
    read_bind (readByte_split high), read_bind (readByte_split low), hjoin]
  exact dateAfter_ok hadd

/-- The date of a count in range is the date the other reader adds. -/
theorem readDate_split {version : Version} {count : Nat} (hv : version ≠ .empty)
    (hcount : count ≤ maximumCount version) :
    readDate version (split done (dateBytes version count ++ ahead)) =
      .ok (dateOf version count hcount, split (done ++ dateBytes version count) ahead) := by
  by_cases hv1 : version = .version1
  · subst hv1
    exact readDate_hours hcount
  · have hfits := lt_of_le_maximumCount hcount
    rw [dateWidth_minutes hv1] at hfits
    have hadd := baseDate_add_count hcount
    rw [dateUnit_minutes hv1] at hadd
    rw [dateBytes_minutes hv1, readDate_minutes hv hv1, read_bind (readU32_split (by omega))]
    exact dateAfter_ok hadd

/-- A date that is cut short is refused. -/
theorem readDate_end {version : Version} (hv : version ≠ .empty)
    (hahead : ahead.length < dateWidth version) :
    ∃ e, readDate version (split done ahead) = .error e := by
  by_cases hv1 : version = .version1
  · subst hv1
    cases ahead with
    | nil => exact read_bind_raises readByte_end
    | cons high rest =>
      have hrest : rest = [] := by
        apply List.length_eq_zero_iff.mp
        simp only [List.length_cons, dateWidth] at hahead
        omega
      subst hrest
      rw [readDate, read_bind (readByte_split high)]
      exact read_bind_raises readByte_end
  · rw [dateWidth_minutes hv1] at hahead
    rw [readDate_minutes hv hv1]
    exact read_bind_raises (readU32_end hahead)

/-- One past the last moment overflows. -/
theorem readDate_capacity {version : Version} {count : Nat} (hv : version ≠ .empty)
    (hv1 : version ≠ .version1) (hcount : maximumMinutes < count) (hfield : count ≤ 0xFFFFFFFF) :
    ∃ e, readDate version (split done (dateBytes version count ++ ahead)) = .error e := by
  rw [dateBytes_minutes hv1, readDate_minutes hv hv1, read_bind (readU32_split hfield)]
  exact ⟨_, dateAfter_error (baseDate_add_minutes_overflow hcount)⟩

/-- Behind the count, the payload is read where the count leaves exactly the signature. -/
theorem readByteArray_count {declared : Nat} (hdeclared : declared ≤ 0xFFFFFFFF) :
    readByteArray (split done (toLE 4 declared ++ ahead)) =
      if (ahead.length : Int) ≠ declared + signatureLength then
        .error (.owidError (payloadMessage declared ahead.length))
      else readBytes declared (split (done ++ toLE 4 declared) ahead) := by
  have hremaining : ((split (done ++ toLE 4 declared) ahead).buffer.length : Int) -
      (split (done ++ toLE 4 declared) ahead).position = ahead.length := by
    simp only [split, List.length_append, Lib.length_toLE]
    omega
  have hget : (get : Read Reader) (split (done ++ toLE 4 declared) ahead) =
      .ok (split (done ++ toLE 4 declared) ahead, split (done ++ toLE 4 declared) ahead) := rfl
  rw [readByteArray, read_bind (readU32_split hdeclared), read_bind hget]
  simp only [hremaining]
  split
  · rfl
  · rfl

theorem readByteArray_split {payload signature : Bytes} (hpayload : payload.length ≤ 0xFFFFFFFF)
    (hsignature : signature.length = signatureLength) :
    readByteArray (split done (toLE 4 payload.length ++ (payload ++ signature))) =
      .ok (payload, split (done ++ toLE 4 payload.length ++ payload) signature) := by
  have hexact : ¬ ((payload ++ signature).length : Int) ≠ payload.length + signatureLength := by
    rw [List.length_append, hsignature]
    omega
  rw [readByteArray_count hpayload, if_neg hexact, readBytes_split]

theorem readByteArray_end (h : ahead.length < 4) :
    ∃ e, readByteArray (split done ahead) = .error e :=
  read_bind_raises (readU32_end h)

theorem readByteArray_mismatch {declared : Nat} (hdeclared : declared ≤ 0xFFFFFFFF)
    (hahead : ahead.length ≠ declared + signatureLength) :
    ∃ e, readByteArray (split done (toLE 4 declared ++ ahead)) = .error e := by
  have hother : (ahead.length : Int) ≠ declared + signatureLength := by omega
  rw [readByteArray_count hdeclared, if_pos hother]
  exact ⟨_, rfl⟩

theorem readSignature_split {signature : Bytes} (h : signature.length = signatureLength) :
    readSignature (split done signature) = .ok (signature, split (done ++ signature) []) := by
  have hread : readBytes signature.length (split done (signature ++ [])) =
      .ok (signature, split (done ++ signature) []) := readBytes_split signature
  rwa [List.append_nil, h] at hread

end Split

end Reader

/-! ## The two readers -/

namespace Owid

open Reader (split readString readDate readByteArray readSignature)

/-- What is read behind the domain. -/
def fieldsAfter (version : Version) (domain : String) : Read Owid := do
  let date ← readDate version
  let payload ← readByteArray
  let signature ← readSignature
  return ⟨version, domain, date, payload, signature⟩

section Fields

variable {v : Version} {domain rest : Bytes}

theorem fromReader_version (hv : v ≠ .empty) (now : DateTime) :
    fromReader now (split [] (v.asByte :: rest)) =
      (readString >>= fieldsAfter v) (split [v.asByte] rest) := by
  rw [fromReader, read_bind (Reader.readByte_split v.asByte),
    read_bind (read_lift (Version.fromByte_asByte v)), if_neg hv]
  rfl

/-- The fields behind an ASCII domain decide the rest. -/
theorem fromReader_domain (hv : v ≠ .empty) (h0 : 0 ∉ domain)
    (hlen : domain.length ≤ maximumDomainLength) (hascii : ∀ b ∈ domain, b.toNat < 0x80)
    (now : DateTime) :
    fromReader now (split [] (v.asByte :: (domain ++ 0 :: rest))) =
      fieldsAfter v (decodeAscii domain) (split ([v.asByte] ++ (domain ++ [0])) rest) := by
  rw [fromReader_version hv, read_bind (Reader.readString_split h0 hlen hascii)]

theorem fieldsAfter_date {done : Bytes} {text : String} {count : Nat} (hv : v ≠ .empty)
    (hcount : count ≤ maximumCount v)
    (h : ∃ e, readByteArray (split (done ++ dateBytes v count) rest) = .error e) :
    ∃ e, fieldsAfter v text (split done (dateBytes v count ++ rest)) = .error e := by
  rw [fieldsAfter, read_bind (Reader.readDate_split hv hcount)]
  exact read_bind_raises h

end Fields

/-- The reader hands back the OWID of an envelope with an ASCII domain. -/
theorem fromReader_envelope (e : Envelope) (hascii : ∀ b ∈ e.domain, b.toNat < 0x80)
    (now : DateTime) : ∃ r, fromReader now (split [] e.bytes) = .ok (e.owid, r) := by
  rw [e.bytes_eq, headerBytes_append,
    fromReader_domain e.versionKnown e.domainNonzero e.domainShort hascii, fieldsAfter,
    read_bind (Reader.readDate_split e.versionKnown e.countFits),
    read_bind (Reader.readByteArray_split e.payloadFits e.signatureFits),
    read_bind (Reader.readSignature_split e.signatureFits)]
  exact ⟨_, rfl⟩

/-- The bytes up to the zero byte are the domain. -/
theorem ascii_domain {w : Version} {domain tail : Bytes} (h0 : 0 ∉ domain)
    (h : ∀ b ∈ Lib.beforeFirst 0 (w.asByte :: (domain ++ 0 :: tail)).tail, b.toNat < 0x80) :
    ∀ b ∈ domain, b.toNat < 0x80 := by
  rwa [List.tail_cons, Lib.beforeFirst_append h0] at h

/-- Each way that the other reader goes, this one goes too. -/
theorem fromReader_walk {b : Bytes} {r : ParseResult} (h : Walk true b r) {v : Version}
    (hv : v ≠ .empty) (hfirst : b.head? = some v.asByte)
    (hascii : ∀ c ∈ Lib.beforeFirst 0 b.tail, c.toNat < 0x80) (now : DateTime) :
    (∃ o r', r.status = .parsed ∧ r.owid = some o ∧ fromReader now (split [] b) = .ok (o, r')) ∨
      r.status ≠ .parsed ∧ ∃ e, fromReader now (split [] b) = .error e := by
  cases h with
  | missing => cases hfirst
  | unsupported hbyte => exact absurd (Option.some.inj hfirst).symm (hbyte v)
  | absent => exact absurd (Version.asByte_injective (Option.some.inj hfirst)).symm hv
  | endInDomain hw h0 hlen =>
    refine Or.inr ⟨nofun, ?_⟩
    rw [fromReader_version hw]
    exact read_bind_raises (Reader.readString_end fun hm => h0 (List.mem_of_mem_take hm))
  | @badDomain w domain tail hw h0 hlen =>
    refine Or.inr ⟨nofun, ?_⟩
    have hwindow : 0 ∉ (domain ++ tail).take (maximumDomainLength + 1) := by
      rwa [List.take_left' hlen]
    rw [fromReader_version hw]
    exact read_bind_raises (Reader.readString_end hwindow)
  | endInDate hw h0 hlen hrest =>
    refine Or.inr ⟨nofun, ?_⟩
    rw [fromReader_domain hw h0 hlen (ascii_domain h0 hascii)]
    exact read_bind_raises (Reader.readDate_end hw hrest)
  | capacity hw h0 hlen hv1 hcount hfield =>
    rw [headerBytes_append] at hascii ⊢
    refine Or.inr ⟨nofun, ?_⟩
    rw [fromReader_domain hw h0 hlen (ascii_domain h0 hascii)]
    exact read_bind_raises (Reader.readDate_capacity hw hv1 hcount hfield)
  | endInCount hw h0 hlen hcount hrest =>
    rw [headerBytes_append] at hascii ⊢
    refine Or.inr ⟨nofun, ?_⟩
    rw [fromReader_domain hw h0 hlen (ascii_domain h0 hascii)]
    exact fieldsAfter_date hw hcount (Reader.readByteArray_end hrest)
  | mismatch _ hw h0 hlen hcount hdeclared hrest =>
    rw [headerBytes_append] at hascii ⊢
    refine Or.inr ⟨nofun, ?_⟩
    rw [fromReader_domain hw h0 hlen (ascii_domain h0 hascii)]
    exact fieldsAfter_date hw hcount (Reader.readByteArray_mismatch hdeclared hrest)
  | short hexact => cases hexact
  | parsed e tail hexact =>
    obtain rfl := hexact rfl
    rw [List.append_nil] at hascii ⊢
    have hshape := hascii
    rw [e.bytes_eq, headerBytes_append] at hshape
    obtain ⟨r', hread⟩ := fromReader_envelope e (ascii_domain e.domainNonzero hshape) now
    exact Or.inl ⟨e.owid, r', rfl, rfl, hread⟩

end Owid

/-- **The two readers agree.** On a buffer of a known version whose bytes from the second up
to the first zero byte are ASCII, the raising reader returns an OWID exactly where
`parse_bytes` reports one, the same in every field, and raises otherwise. -/
theorem fromByteArrayOrRaise_agrees {v : Version} (hv : v ≠ .empty) {rest : Bytes}
    (hascii : ∀ b ∈ Lib.beforeFirst 0 rest, b.toNat < 0x80) (now : DateTime) :
    ∃ r, Parse.parseBytes (.bytes (v.asByte :: rest)) = .ok r ∧
      ((∃ o, Owid.fromByteArrayOrRaise (v.asByte :: rest) now = .ok o) ↔ r.status = .parsed) ∧
      (∀ o, Owid.fromByteArrayOrRaise (v.asByte :: rest) now = .ok o → r.owid = some o) ∧
      (r.status ≠ .parsed →
        ∃ e, Owid.fromByteArrayOrRaise (v.asByte :: rest) now = .error e) := by
  obtain ⟨r, hread, hwalk⟩ := parseData_walk (v.asByte :: rest) true
  have hsplit : Owid.fromByteArrayOrRaise (v.asByte :: rest) now =
      (Owid.fromReader now (Reader.split [] (v.asByte :: rest))).map Prod.fst := rfl
  refine ⟨r, hread, ?_⟩
  rw [hsplit]
  rcases Owid.fromReader_walk hwalk hv rfl hascii now with
    ⟨o, r', hparsed, howid, hok⟩ | ⟨hrefused, e, herror⟩
  · rw [hok]
    refine ⟨iff_of_true ⟨o, rfl⟩ hparsed, ?_, fun hne => absurd hparsed hne⟩
    intro o' ho'
    cases ho'
    exact howid
  · rw [herror]
    refine ⟨iff_of_false ?_ hrefused, ?_, fun _ => ⟨e, rfl⟩⟩
    · intro h
      obtain ⟨o, ho⟩ := h
      cases ho
    · intro o ho
      cases ho

/-- The smallest envelope of the domain `a` is read by both as one OWID. -/
theorem fromByteArrayOrRaise_agrees_envelope :
    ∃ b r o, Parse.parseBytes (.bytes b) = .ok r ∧ r.owid = some o ∧
      Owid.fromByteArrayOrRaise b baseDate = .ok o := by
  let e := plainEnvelope [0x61] (by decide) (by decide)
  let rest : Bytes := [0x61] ++ 0 :: (dateBytes .version3 0 ++ (toLE 4 0 ++ e.signature))
  have hbytes : e.bytes = Version.version3.asByte :: rest := by
    rw [e.bytes_eq, headerBytes_append]
    rfl
  have hascii : ∀ b ∈ Lib.beforeFirst 0 rest, b.toNat < 0x80 := by
    intro b hb
    rw [Lib.beforeFirst_append (by decide)] at hb
    rw [List.mem_singleton.mp hb]
    decide
  obtain ⟨r, hread, hok, hsame, -⟩ :=
    fromByteArrayOrRaise_agrees version3_known hascii baseDate
  have hparsed := parseBytes_envelope e
  rw [hbytes] at hparsed
  cases hread.symm.trans hparsed
  obtain ⟨o, ho⟩ := hok.mpr rfl
  exact ⟨_, _, o, hread, hsame o ho, ho⟩

end OpenWebId
