import OpenWebId.Parse

/-!
# The wire grammar, and every way the read can go

`Envelope` is what the binary form means: the five fields, each within the bound the
format puts on it, so that an ill-formed one cannot be built. `Envelope.bytes` is the
form on the wire and `Envelope.owid` the OWID it stands for.

`Walk` is the inversion of the read. Each constructor is one way `parseData` can go:
the shape of the buffer, and the result. `Walk.read` says a buffer of that shape is
read that way, and `parseData_walk` that the read always goes one of those ways: no
index it reads is out of bounds, no date it adds leaves the range of `datetime`, and no
way ends in `MALFORMED_ENVELOPE`. The proof follows the fields, a lemma for each stage
of the walk: the domain is delimited by its zero byte within the window, the date by
its width, and the payload by the count and the signature after it.
-/

namespace OpenWebId

open Lib (toLE toBE ofLE ofBE decodeAscii encodeUtf8)
open Owid (dateBytes fieldBytes DateIs)

/-- How many bytes the date takes. -/
def dateWidth : Version → Nat
  | .version1 => 2
  | _ => 4

/-- The largest date count a read accepts: what two bytes hold in version 1, and the
last minute of 9999 otherwise. -/
def maximumCount : Version → Nat
  | .version1 => 0xFFFF
  | _ => maximumMinutes

/-- The unit a version counts its date in. -/
def dateUnit : Version → Int
  | .version1 => microsPerHour
  | _ => microsPerMinute

/-! Every version but the first has a four byte date that counts minutes. -/

section Minutes

variable {v : Version}

theorem dateWidth_minutes (hv : v ≠ .version1) : dateWidth v = 4 := by
  cases v with
  | version1 => exact absurd rfl hv
  | empty | version2 | version3 => rfl

theorem maximumCount_minutes (hv : v ≠ .version1) : maximumCount v = maximumMinutes := by
  cases v with
  | version1 => exact absurd rfl hv
  | empty | version2 | version3 => rfl

theorem dateUnit_minutes (hv : v ≠ .version1) : dateUnit v = microsPerMinute := by
  cases v with
  | version1 => exact absurd rfl hv
  | empty | version2 | version3 => rfl

theorem dateBytes_minutes (hv : v ≠ .version1) (count : Nat) :
    dateBytes v count = toLE 4 count := by
  cases v with
  | version1 => exact absurd rfl hv
  | empty | version2 | version3 => rfl

end Minutes

/-- The base date plus that many of the version's units. -/
def dateOf (version : Version) (count : Nat) (h : count ≤ maximumCount version) : DateTime where
  micros := count * dateUnit version
  inRange := by
    cases version <;>
      simp only [maximumCount, maximumMinutes_eq, dateUnit, minMoment, maxMoment, microsPerDay,
        microsPerHour, microsPerMinute, microsPerSecond] at h ⊢ <;> omega

/-- An OWID on the wire. -/
structure Envelope where
  version : Version
  domain : Bytes
  count : Nat
  payload : Bytes
  signature : Bytes
  versionKnown : version ≠ .empty
  domainNonzero : 0 ∉ domain
  domainShort : domain.length ≤ maximumDomainLength
  countFits : count ≤ maximumCount version
  payloadFits : payload.length ≤ 0xFFFFFFFF
  signatureFits : signature.length = signatureLength

theorem version3_known : Version.version3 ≠ .empty := nofun

theorem nil_fits : ([] : Bytes).length ≤ 0xFFFFFFFF := Nat.zero_le _

/-- The version, the domain with its zero byte, and the date. -/
def headerBytes (version : Version) (domain : Bytes) (count : Nat) : Bytes :=
  version.asByte :: (domain ++ 0 :: dateBytes version count)

theorem headerBytes_append (version : Version) (domain : Bytes) (count : Nat) (rest : Bytes) :
    headerBytes version domain count ++ rest =
      version.asByte :: (domain ++ 0 :: (dateBytes version count ++ rest)) := by
  simp [headerBytes]

namespace Envelope

/-- The bytes of the envelope. -/
def bytes (e : Envelope) : Bytes :=
  fieldBytes e.version e.domain e.count e.payload ++ e.signature

def date (e : Envelope) : DateTime := dateOf e.version e.count e.countFits

/-- The OWID a read of the envelope hands back. -/
def owid (e : Envelope) : Owid :=
  ⟨e.version, decodeAscii e.domain, e.date, e.payload, e.signature⟩

theorem bytes_eq (e : Envelope) :
    e.bytes = headerBytes e.version e.domain e.count ++
      (toLE 4 e.payload.length ++ (e.payload ++ e.signature)) := by
  simp [bytes, fieldBytes, headerBytes]

end Envelope

@[simp] theorem length_dateBytes (version : Version) (count : Nat) :
    (dateBytes version count).length = dateWidth version := by
  cases version <;> simp [dateBytes, dateWidth]

theorem length_headerBytes (version : Version) (domain : Bytes) (count : Nat) :
    (headerBytes version domain count).length = domain.length + 2 + dateWidth version := by
  simp only [headerBytes, List.length_cons, List.length_append, length_dateBytes]
  omega

/-- Every way the read of a buffer can go, and its result. -/
inductive Walk (exact : Bool) : Bytes → ParseResult → Prop
  | missing : Walk exact [] (Parse.failed .missingInput)
  | unsupported {b : UInt8} {rest : Bytes} (hb : ∀ v : Version, v.asByte ≠ b) :
      Walk exact (b :: rest) (Parse.failed .unsupportedVersion)
  | absent {rest : Bytes} :
      Walk exact (Version.empty.asByte :: rest)
        ⟨false, none, .absentNode, if exact then 0 else 1⟩
  | endInDomain {v : Version} {domain : Bytes} (hv : v ≠ .empty) (h0 : 0 ∉ domain)
      (hlen : domain.length ≤ maximumDomainLength) :
      Walk exact (v.asByte :: domain) (Parse.failed .unexpectedEnd)
  | badDomain {v : Version} {domain rest : Bytes} (hv : v ≠ .empty) (h0 : 0 ∉ domain)
      (hlen : domain.length = maximumDomainLength + 1) :
      Walk exact (v.asByte :: (domain ++ rest)) (Parse.failed .invalidDomainEncoding)
  | endInDate {v : Version} {domain rest : Bytes} (hv : v ≠ .empty) (h0 : 0 ∉ domain)
      (hlen : domain.length ≤ maximumDomainLength) (hrest : rest.length < dateWidth v) :
      Walk exact (v.asByte :: (domain ++ 0 :: rest)) (Parse.failed .unexpectedEnd)
  | capacity {v : Version} {domain rest : Bytes} {count : Nat} (hv : v ≠ .empty)
      (h0 : 0 ∉ domain) (hlen : domain.length ≤ maximumDomainLength) (hv1 : v ≠ .version1)
      (hcount : maximumMinutes < count) (hfield : count ≤ 0xFFFFFFFF) :
      Walk exact (headerBytes v domain count ++ rest)
        (Parse.failed .implementationCapacityExceeded)
  | endInCount {v : Version} {domain rest : Bytes} {count : Nat} (hv : v ≠ .empty)
      (h0 : 0 ∉ domain) (hlen : domain.length ≤ maximumDomainLength)
      (hcount : count ≤ maximumCount v) (hrest : rest.length < 4) :
      Walk exact (headerBytes v domain count ++ rest) (Parse.failed .unexpectedEnd)
  | mismatch {v : Version} {domain rest : Bytes} {count declared : Nat} (hexact : exact = true)
      (hv : v ≠ .empty) (h0 : 0 ∉ domain) (hlen : domain.length ≤ maximumDomainLength)
      (hcount : count ≤ maximumCount v) (hdeclared : declared ≤ 0xFFFFFFFF)
      (hrest : rest.length ≠ declared + signatureLength) :
      Walk exact (headerBytes v domain count ++ (toLE 4 declared ++ rest))
        (Parse.failed .byteCountMismatch)
  | short {v : Version} {domain rest : Bytes} {count declared : Nat} (hexact : exact = false)
      (hv : v ≠ .empty) (h0 : 0 ∉ domain) (hlen : domain.length ≤ maximumDomainLength)
      (hcount : count ≤ maximumCount v) (hdeclared : declared ≤ 0xFFFFFFFF)
      (hrest : rest.length < declared + signatureLength) :
      Walk exact (headerBytes v domain count ++ (toLE 4 declared ++ rest))
        (Parse.failed .unexpectedEnd)
  | parsed (e : Envelope) (rest : Bytes) (hexact : exact = true → rest = []) :
      Walk exact (e.bytes ++ rest) ⟨true, some e.owid, .parsed, e.bytes.length⟩

/-! ## The domain -/

open Parse (index slice scanDomain parseDomain parseDate parsePayload parseData failed)

theorem index_append (pre : Bytes) (b : UInt8) (rest : Bytes) :
    index (pre ++ b :: rest) pre.length = .ok b := by
  simp [index]

theorem slice_append (pre mid rest : Bytes) :
    slice (pre ++ (mid ++ rest)) pre.length (pre.length + mid.length) = mid := by
  rw [slice, ← List.append_assoc, List.take_left' (by simp), List.drop_left]

theorem slice_behind (front rest : Bytes) (start stop : Nat) :
    slice (front ++ rest) (front.length + start) (front.length + stop) =
      (rest.take stop).drop start := by
  rw [slice, List.take_length_add_append, List.drop_length_add_append]

/-- The loop stops at the first zero byte inside its window. -/
theorem scanDomain_found (start : Nat) (tail : Bytes) : ∀ (domain pre : Bytes) {steps : Nat},
    0 ∉ domain → domain.length < steps →
    scanDomain (pre ++ (domain ++ 0 :: tail)) start steps pre.length =
      .ok (some (decodeAscii (slice (pre ++ (domain ++ 0 :: tail)) start
        (pre.length + domain.length))), pre.length + domain.length + 1)
  | [], pre, steps + 1, _, _ => by
    rw [List.nil_append, scanDomain, index_append]
    rfl
  | b :: domain, pre, steps + 1, h0, hlen => by
    have hb : b ≠ 0 := fun he => h0 (he ▸ List.mem_cons_self ..)
    have hrest : 0 ∉ domain := fun hm => h0 (List.mem_cons_of_mem _ hm)
    have hshift : pre ++ (b :: domain ++ 0 :: tail) = (pre ++ [b]) ++ (domain ++ 0 :: tail) := by
      simp
    have hlen' : (pre ++ [b]).length = pre.length + 1 := by simp
    -- the byte that was passed joins those before the position
    have ih := scanDomain_found start tail domain (pre ++ [b]) hrest
      (Nat.lt_of_succ_lt_succ hlen)
    rw [hlen', ← hshift] at ih
    rw [scanDomain, List.cons_append, index_append]
    simp only [if_neg hb]
    have hpos : pre.length + 1 + domain.length = pre.length + (b :: domain).length := by
      rw [List.length_cons]
      omega
    rw [List.cons_append, hpos] at ih
    exact ih

/-- The loop runs out of its window where no byte of it is zero. -/
theorem scanDomain_exhausted (start : Nat) (tail : Bytes) : ∀ (domain pre : Bytes),
    0 ∉ domain →
    scanDomain (pre ++ (domain ++ tail)) start domain.length pre.length =
      .ok (none, pre.length + domain.length)
  | [], pre, _ => rfl
  | b :: domain, pre, h0 => by
    have hb : b ≠ 0 := fun he => h0 (he ▸ List.mem_cons_self ..)
    have hrest : 0 ∉ domain := fun hm => h0 (List.mem_cons_of_mem _ hm)
    have hshift : pre ++ (b :: domain ++ tail) = (pre ++ [b]) ++ (domain ++ tail) := by simp
    have hlen' : (pre ++ [b]).length = pre.length + 1 := by simp
    have ih := scanDomain_exhausted start tail domain (pre ++ [b]) hrest
    rw [hlen', ← hshift] at ih
    rw [List.length_cons, scanDomain, List.cons_append, index_append]
    simp only [if_neg hb]
    rw [List.cons_append] at ih
    rw [ih]
    congr 2
    omega

theorem parseDomain_found {v : UInt8} {domain tail : Bytes} (h0 : 0 ∉ domain)
    (hlen : domain.length ≤ maximumDomainLength) :
    parseDomain (v :: (domain ++ 0 :: tail)) 1 =
      .ok (.ok (decodeAscii domain, domain.length + 2)) := by
  have hsteps : domain.length <
      min (v :: (domain ++ 0 :: tail)).length (1 + maximumDomainLength + 1) - 1 := by
    simp only [List.length_cons, List.length_append]
    omega
  have hscan := scanDomain_found 1 tail domain [v] h0 hsteps
  have hslice := slice_append [v] domain (0 :: tail)
  rw [List.singleton_append] at hscan hslice
  simp only [List.length_singleton] at hscan hslice
  simp only [parseDomain, hscan, hslice]
  congr 3
  omega

theorem parseDomain_end {v : UInt8} {domain : Bytes} (h0 : 0 ∉ domain)
    (hlen : domain.length ≤ maximumDomainLength) :
    parseDomain (v :: domain) 1 = .ok (.error .unexpectedEnd) := by
  have hsteps : min (v :: domain).length (1 + maximumDomainLength + 1) - 1 = domain.length := by
    simp only [List.length_cons]
    omega
  have hscan := scanDomain_exhausted 1 [] domain [v] h0
  rw [List.append_nil, List.singleton_append] at hscan
  simp only [List.length_singleton] at hscan
  simp only [parseDomain, hsteps, hscan]
  rw [if_pos (by rw [List.length_cons]; omega)]

theorem parseDomain_bad {v : UInt8} {domain rest : Bytes} (h0 : 0 ∉ domain)
    (hlen : domain.length = maximumDomainLength + 1) :
    parseDomain (v :: (domain ++ rest)) 1 = .ok (.error .invalidDomainEncoding) := by
  have hsteps : min (v :: (domain ++ rest)).length (1 + maximumDomainLength + 1) - 1 =
      domain.length := by
    simp only [List.length_cons, List.length_append]
    omega
  have hscan := scanDomain_exhausted 1 rest domain [v] h0
  rw [List.singleton_append] at hscan
  simp only [List.length_singleton] at hscan
  simp only [parseDomain, hsteps, hscan]
  rw [if_neg (by omega)]

/-! ## The date -/

/-- `data[pos:pos + width]` of a buffer split at `pos`. -/
theorem parseDate_short {v : Version} (pre : Bytes) {rest : Bytes}
    (hrest : rest.length < dateWidth v) :
    parseDate (pre ++ rest) v pre.length = .ok (.error .unexpectedEnd) := by
  have hlen : ((pre ++ rest).length : Int) - pre.length = rest.length := by
    rw [List.length_append]
    omega
  simp only [parseDate, hlen]
  by_cases hv : v = .version1
  · subst hv
    rw [if_pos rfl, if_pos (by simp only [dateWidth] at hrest; omega)]
  · rw [dateWidth_minutes hv] at hrest
    rw [if_neg hv, if_pos (by omega)]

theorem baseDate_add_count {v : Version} {count : Nat} (h : count ≤ maximumCount v) :
    baseDate.add (count * dateUnit v) = .ok (dateOf v count h) := by
  have hr := (dateOf v count h).inRange
  simp only [DateTime.add, DateTime.ofMicros, baseDate, Int.zero_add]
  exact dif_pos hr

theorem parseDate_hours {pre rest : Bytes} {count : Nat} (hcount : count ≤ maximumCount .version1) :
    parseDate (pre ++ (toBE 2 count ++ rest)) .version1 pre.length =
      .ok (.ok (dateOf .version1 count hcount, pre.length + 2)) := by
  have hread : ofBE (toBE 2 count) = count :=
    Lib.ofBE_toBE (by simp only [maximumCount] at hcount; omega)
  obtain ⟨high, low, hbytes⟩ : ∃ high low, toBE 2 count = [high, low] := ⟨_, _, rfl⟩
  -- the second byte stands behind the first, where the buffer is cut one further on
  have hshift : pre ++ (([high, low] : Bytes) ++ rest) = (pre ++ [high]) ++ (low :: rest) := by
    simp
  have hlow : index (pre ++ ([high, low] ++ rest)) (pre.length + 1) = .ok low := by
    have h := index_append (pre ++ [high]) low rest
    rwa [List.length_append, List.length_singleton, ← hshift] at h
  have hhigh : index (pre ++ ([high, low] ++ rest)) pre.length = .ok high := index_append ..
  have hlen : ((pre ++ ([high, low] ++ rest)).length : Int) - pre.length = 2 + rest.length := by
    simp only [List.length_append, List.length_cons, List.length_nil]
    omega
  have hjoin := Lib.shift_or_eq_ofBE high low
  rw [← hbytes, hread] at hjoin
  have hadd := baseDate_add_count hcount
  simp only [dateUnit] at hadd
  rw [hbytes]
  simp only [parseDate, if_true, hlen]
  rw [if_neg (by omega), hhigh, ok_bind, hlow, ok_bind]
  simp only [hjoin]
  rw [hadd, ok_bind]

theorem parseDate_minutes {v : Version} {pre rest : Bytes} {count : Nat} (hv : v ≠ .version1)
    (hcount : count ≤ maximumCount v) :
    parseDate (pre ++ (toLE 4 count ++ rest)) v pre.length =
      .ok (.ok (dateOf v count hcount, pre.length + 4)) := by
  have hcount' : count ≤ maximumMinutes := maximumCount_minutes hv ▸ hcount
  have hread : ofLE (toLE 4 count) = count :=
    Lib.ofLE_toLE 4 (by rw [maximumMinutes_eq] at hcount'; omega)
  have hlen : ((pre ++ (toLE 4 count ++ rest)).length : Int) - pre.length = 4 + rest.length := by
    simp only [List.length_append, Lib.length_toLE]
    omega
  have hslice := slice_append pre (toLE 4 count) rest
  rw [Lib.length_toLE] at hslice
  have hadd := baseDate_add_count hcount
  rw [dateUnit_minutes hv] at hadd
  simp only [parseDate, if_neg hv, hlen]
  rw [if_neg (by omega), hslice, hread, if_neg (by omega), hadd, ok_bind]

theorem parseDate_ok {v : Version} (pre rest : Bytes) {count : Nat}
    (hcount : count ≤ maximumCount v) :
    parseDate (pre ++ (dateBytes v count ++ rest)) v pre.length =
      .ok (.ok (dateOf v count hcount, pre.length + dateWidth v)) := by
  cases v with
  | version1 => exact parseDate_hours hcount
  | empty => exact parseDate_minutes (by decide) hcount
  | version2 => exact parseDate_minutes (by decide) hcount
  | version3 => exact parseDate_minutes (by decide) hcount

theorem parseDate_capacity {v : Version} (pre rest : Bytes) {count : Nat} (hv : v ≠ .version1)
    (hcount : maximumMinutes < count) (hfield : count ≤ 0xFFFFFFFF) :
    parseDate (pre ++ (dateBytes v count ++ rest)) v pre.length =
      .ok (.error .implementationCapacityExceeded) := by
  have hlen : ((pre ++ (toLE 4 count ++ rest)).length : Int) - pre.length = 4 + rest.length := by
    simp only [List.length_append, Lib.length_toLE]
    omega
  have hread : ofLE (toLE 4 count) = count := Lib.ofLE_toLE 4 (by omega)
  have hslice := slice_append pre (toLE 4 count) rest
  rw [Lib.length_toLE] at hslice
  rw [dateBytes_minutes hv]
  simp only [parseDate, if_neg hv, hlen]
  rw [if_neg (by omega), hslice, hread, if_pos hcount]

/-! ## The payload and the signature -/

section Payload

variable {exact : Bool} {version : Version} {domain : String} {date : DateTime} {pre rest : Bytes}
  {declared : Nat}

theorem parsePayload_end (hrest : rest.length < 4) :
    parsePayload (pre ++ rest) exact version domain date pre.length = failed .unexpectedEnd := by
  have hlen : ((pre ++ rest).length : Int) - pre.length = rest.length := by
    rw [List.length_append]
    omega
  simp only [parsePayload, hlen]
  rw [if_pos (by omega)]

/-- Past the count, the walk is decided by the bytes after it and the contract. -/
theorem parsePayload_count (hdeclared : declared ≤ 0xFFFFFFFF) :
    parsePayload (pre ++ (toLE 4 declared ++ rest)) exact version domain date pre.length =
      if exact = true ∧ rest.length ≠ declared + signatureLength then failed .byteCountMismatch
      else if exact = false ∧ rest.length < declared + signatureLength then
        failed .unexpectedEnd
      else
        ⟨true, some ⟨version, domain, date, rest.take declared,
          (rest.drop declared).take signatureLength⟩, .parsed,
          pre.length + 4 + declared + signatureLength⟩ := by
  have hlen : ((pre ++ (toLE 4 declared ++ rest)).length : Int) - pre.length =
      4 + rest.length := by
    simp only [List.length_append, Lib.length_toLE]
    omega
  have hread : ofLE (toLE 4 declared) = declared := Lib.ofLE_toLE 4 (by omega)
  have hcount := slice_append pre (toLE 4 declared) rest
  rw [Lib.length_toLE] at hcount
  -- a slice behind the count is a cut of what follows it
  have hslice : ∀ start stop : Nat, slice (pre ++ (toLE 4 declared ++ rest))
      (pre.length + 4 + start) (pre.length + 4 + stop) = (rest.take stop).drop start := by
    intro start stop
    have hfront : (pre ++ toLE 4 declared).length = pre.length + 4 := by
      rw [List.length_append, Lib.length_toLE]
    rw [← List.append_assoc, ← hfront]
    exact slice_behind ..
  have hpresent : ((pre ++ (toLE 4 declared ++ rest)).length : Int) - (pre.length + 4 : Nat) -
      (signatureLength : Nat) = (rest.length : Int) - signatureLength := by
    simp only [List.length_append, Lib.length_toLE]
    omega
  have hend : (pre ++ (toLE 4 declared ++ rest)).length = pre.length + 4 + rest.length := by
    simp only [List.length_append, Lib.length_toLE]
    omega
  have hpayload := hslice 0 declared
  have hsignature := hslice declared (declared + signatureLength)
  simp only [Nat.add_zero, List.drop_zero] at hpayload
  simp only [parsePayload, hlen, hpresent]
  rw [if_neg (by omega), hcount, hread]
  -- the whole buffer read refuses any other length, the framed read a shorter one
  by_cases hmiss : exact = true ∧ rest.length ≠ declared + signatureLength
  · rw [if_pos ⟨hmiss.1, by omega⟩, if_pos hmiss]
  · rw [if_neg (fun h => hmiss ⟨h.1, by omega⟩), if_neg hmiss]
    by_cases hshort : exact = false ∧ rest.length < declared + signatureLength
    · rw [if_pos ⟨hshort.1, by omega⟩, if_pos hshort]
    · rw [if_neg (fun h => hshort ⟨h.1, by omega⟩), if_neg hshort, hend]
      have htotal : ¬ (exact = true ∧
          pre.length + 4 + declared + signatureLength ≠ pre.length + 4 + rest.length) := by
        intro hboth
        obtain ⟨he, hne⟩ := hboth
        exact hmiss ⟨he, by omega⟩
      rw [if_neg htotal, hpayload, Nat.add_assoc _ declared, hsignature]
      simp only [List.drop_take, Nat.add_sub_cancel_left, Nat.add_assoc]

end Payload

/-! ## The walk -/

/-- Every list of bytes is its longest zero-free front and, where it has a zero byte,
the rest from there. -/
theorem split_at_zero (data : Bytes) :
    ∃ domain, 0 ∉ domain ∧ (data = domain ∨ ∃ tail, data = domain ++ 0 :: tail) := by
  induction data with
  | nil => exact ⟨[], by simp, Or.inl rfl⟩
  | cons b data ih =>
    by_cases hb : b = 0
    · exact ⟨[], by simp, Or.inr ⟨data, by rw [hb]; rfl⟩⟩
    · obtain ⟨domain, h0, hsplit⟩ := ih
      have h0' : 0 ∉ b :: domain := by
        simp only [List.mem_cons, not_or]
        exact ⟨fun h => hb h.symm, h0⟩
      refine ⟨b :: domain, h0', ?_⟩
      rcases hsplit with rfl | ⟨tail, rfl⟩
      · exact Or.inl rfl
      · exact Or.inr ⟨tail, rfl⟩

/-- Bytes of the date's width are the date field of the count they hold. -/
theorem exists_dateBytes (v : Version) {field : Bytes} (h : field.length = dateWidth v) :
    ∃ count, field = dateBytes v count ∧ count < 256 ^ dateWidth v := by
  cases v with
  | version1 =>
    have h' := Lib.toBE_ofBE field
    rw [h] at h'
    exact ⟨ofBE field, h'.symm, h ▸ Lib.ofBE_lt field⟩
  | empty =>
    have h' := Lib.toLE_ofLE field
    rw [h] at h'
    exact ⟨ofLE field, h'.symm, h ▸ Lib.ofLE_lt field⟩
  | version2 =>
    have h' := Lib.toLE_ofLE field
    rw [h] at h'
    exact ⟨ofLE field, h'.symm, h ▸ Lib.ofLE_lt field⟩
  | version3 =>
    have h' := Lib.toLE_ofLE field
    rw [h] at h'
    exact ⟨ofLE field, h'.symm, h ▸ Lib.ofLE_lt field⟩

/-- Four bytes or more start with the count they hold. -/
theorem exists_toLE {rest : Bytes} (h : 4 ≤ rest.length) :
    ∃ declared tail, rest = toLE 4 declared ++ tail ∧ declared ≤ 0xFFFFFFFF := by
  have hfield : (rest.take 4).length = 4 := by
    rw [List.length_take]
    omega
  have hlt := Lib.ofLE_lt (rest.take 4)
  have hread := Lib.toLE_ofLE (rest.take 4)
  rw [hfield] at hlt hread
  refine ⟨ofLE (rest.take 4), rest.drop 4, ?_, by omega⟩
  rw [hread, List.take_append_drop]

theorem parseData_header {exact : Bool} {v : Version} {domain rest : Bytes} (hv : v ≠ .empty)
    (h0 : 0 ∉ domain) (hlen : domain.length ≤ maximumDomainLength) :
    parseData (v.asByte :: (domain ++ 0 :: rest)) exact =
      (parseDate (v.asByte :: (domain ++ 0 :: rest)) v (domain.length + 2) >>= fun
        | .error status => .ok (failed status)
        | .ok (date, pos) => .ok (parsePayload (v.asByte :: (domain ++ 0 :: rest)) exact v
            (decodeAscii domain) date pos)) := by
  have hfirst : index (v.asByte :: (domain ++ 0 :: rest)) 0 = .ok v.asByte := rfl
  rw [parseData, if_neg (by rw [List.length_cons]; omega), hfirst, ok_bind]
  simp only [Version.fromByte_asByte, if_neg hv]
  exact (congrArg (fun parsed => parsed >>= _) (parseDomain_found h0 hlen)).trans rfl

/-- From the date on, the read is decided by the count, the declaration and the
bytes after it. -/
theorem parseData_payload {exact : Bool} {v : Version} {domain rest : Bytes} {count : Nat}
    (hv : v ≠ .empty) (h0 : 0 ∉ domain) (hlen : domain.length ≤ maximumDomainLength)
    (hcount : count ≤ maximumCount v) :
    parseData (headerBytes v domain count ++ rest) exact =
      .ok (parsePayload (headerBytes v domain count ++ rest) exact v (decodeAscii domain)
        (dateOf v count hcount) (headerBytes v domain count).length) := by
  have hdata := headerBytes_append v domain count rest
  have hdate := parseDate_ok (v.asByte :: (domain ++ [0])) rest hcount
  have hpre : (v.asByte :: (domain ++ [0])) ++ (dateBytes v count ++ rest) =
      v.asByte :: (domain ++ 0 :: (dateBytes v count ++ rest)) := by
    simp
  have hpos : (v.asByte :: (domain ++ [0])).length = domain.length + 2 := by
    simp
  rw [hpre, hpos] at hdate
  rw [hdata, parseData_header hv h0 hlen, hdate, ok_bind, length_headerBytes]

/-- The read of an envelope with the signature in place, under either contract. -/
theorem parseData_envelope (e : Envelope) (rest : Bytes) {exact : Bool}
    (hexact : exact = true → rest = []) :
    parseData (e.bytes ++ rest) exact =
      .ok ⟨true, some e.owid, .parsed, e.bytes.length⟩ := by
  have hrest : (e.payload ++ (e.signature ++ rest)).length =
      e.payload.length + (signatureLength + rest.length) := by
    simp only [List.length_append, e.signatureFits]
  have hdata : e.bytes ++ rest = headerBytes e.version e.domain e.count ++
      (toLE 4 e.payload.length ++ (e.payload ++ (e.signature ++ rest))) := by
    rw [e.bytes_eq]
    simp
  have hlen : e.bytes.length = (headerBytes e.version e.domain e.count).length + 4 +
      e.payload.length + signatureLength := by
    rw [e.bytes_eq]
    simp only [List.length_append, Lib.length_toLE, e.signatureFits]
    omega
  rw [hdata, parseData_payload e.versionKnown e.domainNonzero e.domainShort e.countFits,
    parsePayload_count e.payloadFits, hrest]
  -- the signature is there, and no byte too many where there may be none
  rw [if_neg, if_neg (by omega), List.take_left, List.drop_left,
    List.take_left' e.signatureFits, ← hlen]
  · rfl
  · intro hboth
    obtain ⟨he, hne⟩ := hboth
    have hnil := congrArg List.length (hexact he)
    rw [List.length_nil] at hnil
    omega

/-- A domain longer than the window is refused at the end of the window. -/
theorem parseData_badDomain {exact : Bool} {v : Version} {domain rest : Bytes}
    (hv : v ≠ .empty) (h0 : 0 ∉ domain) (hlen : domain.length = maximumDomainLength + 1) :
    parseData (v.asByte :: (domain ++ rest)) exact = .ok (failed .invalidDomainEncoding) := by
  have hfirst : index (v.asByte :: (domain ++ rest)) 0 = .ok v.asByte := rfl
  rw [parseData, if_neg (by rw [List.length_cons]; omega), hfirst, ok_bind]
  simp only [Version.fromByte_asByte, if_neg hv]
  rw [parseDomain_bad h0 hlen, ok_bind]

/-- The read of a version byte and a domain that does not end. -/
theorem parseData_endInDomain {exact : Bool} {v : Version} {domain : Bytes} (hv : v ≠ .empty)
    (h0 : 0 ∉ domain) (hlen : domain.length ≤ maximumDomainLength) :
    parseData (v.asByte :: domain) exact = .ok (failed .unexpectedEnd) := by
  have hfirst : index (v.asByte :: domain) 0 = .ok v.asByte := rfl
  rw [parseData, if_neg (by rw [List.length_cons]; omega), hfirst, ok_bind]
  simp only [Version.fromByte_asByte, if_neg hv]
  rw [parseDomain_end h0 hlen, ok_bind]

/-- Behind the domain, fewer bytes than the date takes. -/
theorem parseData_endInDate {exact : Bool} {v : Version} {domain rest : Bytes} (hv : v ≠ .empty)
    (h0 : 0 ∉ domain) (hlen : domain.length ≤ maximumDomainLength)
    (hrest : rest.length < dateWidth v) :
    parseData (v.asByte :: (domain ++ 0 :: rest)) exact = .ok (failed .unexpectedEnd) := by
  have hdate := parseDate_short (v.asByte :: (domain ++ [0])) hrest
  have hpre : (v.asByte :: (domain ++ [0])) ++ rest = v.asByte :: (domain ++ 0 :: rest) := by
    simp
  have hpos : (v.asByte :: (domain ++ [0])).length = domain.length + 2 := by simp
  rw [hpre, hpos] at hdate
  rw [parseData_header hv h0 hlen, hdate, ok_bind]

/-- A date count past the range is refused at the date. Two bytes hold no such count, so
the version is not the first. -/
theorem parseData_capacity {exact : Bool} {v : Version} {domain rest : Bytes} {count : Nat}
    (hv : v ≠ .empty) (h0 : 0 ∉ domain) (hlen : domain.length ≤ maximumDomainLength)
    (hv1 : v ≠ .version1) (hcount : maximumMinutes < count) (hfield : count ≤ 0xFFFFFFFF) :
    parseData (headerBytes v domain count ++ rest) exact =
      .ok (failed .implementationCapacityExceeded) := by
  have hdata := headerBytes_append v domain count rest
  have hdate := parseDate_capacity (v.asByte :: (domain ++ [0])) rest hv1 hcount hfield
  have hpre : (v.asByte :: (domain ++ [0])) ++ (dateBytes v count ++ rest) =
      v.asByte :: (domain ++ 0 :: (dateBytes v count ++ rest)) := by
    simp
  have hpos : (v.asByte :: (domain ++ [0])).length = domain.length + 2 := by simp
  rw [hpre, hpos] at hdate
  rw [hdata, parseData_header hv h0 hlen, hdate, ok_bind]

/-- Fewer bytes than the payload count takes. -/
theorem parseData_endInCount {exact : Bool} {v : Version} {domain rest : Bytes} {count : Nat}
    (hv : v ≠ .empty) (h0 : 0 ∉ domain) (hlen : domain.length ≤ maximumDomainLength)
    (hcount : count ≤ maximumCount v) (hrest : rest.length < 4) :
    parseData (headerBytes v domain count ++ rest) exact = .ok (failed .unexpectedEnd) := by
  rw [parseData_payload hv h0 hlen hcount, parsePayload_end hrest]

/-- **The ways of the walk are exact.** A buffer of the shape of one way is read that
way. -/
theorem Walk.read {exact : Bool} {data : Bytes} {r : ParseResult} (h : Walk exact data r) :
    parseData data exact = .ok r := by
  cases h with
  | missing => rfl
  | @unsupported b rest hb =>
    have hfirst : index (b :: rest) 0 = .ok b := rfl
    rw [parseData, if_neg (by rw [List.length_cons]; omega), hfirst, ok_bind]
    cases hversion : Version.fromByte b with
    | error e => rfl
    | ok v => exact absurd (Version.fromByte_ok hversion).symm (hb v)
  | absent => rfl
  | endInDomain hv h0 hlen => exact parseData_endInDomain hv h0 hlen
  | badDomain hv h0 hlen => exact parseData_badDomain hv h0 hlen
  | endInDate hv h0 hlen hrest => exact parseData_endInDate hv h0 hlen hrest
  | capacity hv h0 hlen hv1 hcount hfield =>
    exact parseData_capacity hv h0 hlen hv1 hcount hfield
  | endInCount hv h0 hlen hcount hrest => exact parseData_endInCount hv h0 hlen hcount hrest
  | mismatch hexact hv h0 hlen hcount hdeclared hrest =>
    rw [parseData_payload hv h0 hlen hcount, parsePayload_count hdeclared, if_pos ⟨hexact, hrest⟩]
  | short hexact hv h0 hlen hcount hdeclared hrest =>
    subst hexact
    rw [parseData_payload hv h0 hlen hcount, parsePayload_count hdeclared, if_neg nofun,
      if_pos ⟨rfl, hrest⟩]
  | parsed e rest hexact => exact parseData_envelope e rest hexact

/-- Every field before the count is there: the count, the payload and the signature
decide. -/
theorem exists_walk_counted {exact : Bool} {v : Version} {domain rest : Bytes} {count : Nat}
    (hv : v ≠ .empty) (h0 : 0 ∉ domain) (hlen : domain.length ≤ maximumDomainLength)
    (hcount : count ≤ maximumCount v) :
    ∃ r, Walk exact (headerBytes v domain count ++ rest) r := by
  by_cases hrest : rest.length < 4
  · exact ⟨_, .endInCount hv h0 hlen hcount hrest⟩
  · obtain ⟨declared, tail, rfl, hdeclared⟩ := exists_toLE (Nat.le_of_not_lt hrest)
    by_cases hmiss : exact = true ∧ tail.length ≠ declared + signatureLength
    · exact ⟨_, .mismatch hmiss.1 hv h0 hlen hcount hdeclared hmiss.2⟩
    · by_cases hshort : exact = false ∧ tail.length < declared + signatureLength
      · exact ⟨_, .short hshort.1 hv h0 hlen hcount hdeclared hshort.2⟩
      · -- what is left holds the payload and the signature: an envelope
        have hfits : declared + signatureLength ≤ tail.length := by
          cases exact with
          | true => exact Nat.le_of_eq (Decidable.not_not.mp fun h => hmiss ⟨rfl, Ne.symm h⟩)
          | false => exact Nat.le_of_not_lt fun h => hshort ⟨rfl, h⟩
        have hpayload : (tail.take declared).length = declared := by
          rw [List.length_take]
          omega
        let e : Envelope :=
          { version := v, domain := domain, count := count, payload := tail.take declared,
            signature := (tail.drop declared).take signatureLength, versionKnown := hv,
            domainNonzero := h0, domainShort := hlen, countFits := hcount,
            payloadFits := by rw [hpayload]; exact hdeclared,
            signatureFits := by rw [List.length_take, List.length_drop]; omega }
        have hdata : headerBytes v domain count ++ (toLE 4 declared ++ tail) =
            e.bytes ++ (tail.drop declared).drop signatureLength := by
          rw [e.bytes_eq]
          simp only [e, hpayload, List.append_assoc, List.take_append_drop]
        have hexact : exact = true → (tail.drop declared).drop signatureLength = [] := by
          intro he
          have heq : tail.length = declared + signatureLength :=
            Decidable.not_not.mp fun h => hmiss ⟨he, h⟩
          rw [List.drop_drop]
          exact List.drop_eq_nil_of_le (Nat.le_of_eq heq)
        rw [hdata]
        exact ⟨_, .parsed e _ hexact⟩

/-- The date field is there: its count is within the range of the version, or past it
and refused. -/
theorem exists_walk_dated {exact : Bool} {v : Version} {domain tail : Bytes} (hv : v ≠ .empty)
    (h0 : 0 ∉ domain) (hlen : domain.length ≤ maximumDomainLength)
    (htail : dateWidth v ≤ tail.length) :
    ∃ r, Walk exact (v.asByte :: (domain ++ 0 :: tail)) r := by
  have hfield : (tail.take (dateWidth v)).length = dateWidth v := by
    rw [List.length_take]
    omega
  obtain ⟨count, hdate, hlt⟩ := exists_dateBytes v hfield
  have hdata : v.asByte :: (domain ++ 0 :: tail) =
      headerBytes v domain count ++ tail.drop (dateWidth v) := by
    simp [headerBytes, ← hdate]
  rw [hdata]
  by_cases hcount : count ≤ maximumCount v
  · exact exists_walk_counted hv h0 hlen hcount
  · have hpast : maximumCount v < count := Nat.lt_of_not_le hcount
    -- two bytes hold no count of hours that is out of range
    have hv1 : v ≠ .version1 := by
      intro h
      subst h
      simp only [dateWidth, maximumCount] at hlt hpast
      omega
    have hfits : count ≤ 0xFFFFFFFF := by
      rw [dateWidth_minutes hv1] at hlt
      omega
    exact ⟨_, .capacity hv h0 hlen hv1 (maximumCount_minutes hv1 ▸ hpast) hfits⟩

/-- Every buffer has the shape of one of the ways. -/
theorem exists_walk (data : Bytes) (exact : Bool) : ∃ r, Walk exact data r := by
  cases data with
  | nil => exact ⟨_, .missing⟩
  | cons b data =>
    cases hb : Version.fromByte b with
    | error e =>
      refine ⟨_, .unsupported fun v hv => ?_⟩
      rw [← hv, Version.fromByte_asByte] at hb
      cases hb
    | ok v =>
      rw [Version.fromByte_ok hb]
      by_cases hv : v = .empty
      · subst hv
        exact ⟨_, .absent⟩
      · obtain ⟨domain, h0, hsplit⟩ := split_at_zero data
        -- the zero byte is found inside the window only if the domain fits it
        by_cases hlen : domain.length ≤ maximumDomainLength
        · rcases hsplit with rfl | ⟨tail, rfl⟩
          · exact ⟨_, .endInDomain hv h0 hlen⟩
          · by_cases htail : tail.length < dateWidth v
            · exact ⟨_, .endInDate hv h0 hlen htail⟩
            · exact exists_walk_dated hv h0 hlen (Nat.le_of_not_lt htail)
        · have hfront :
              (domain.take (maximumDomainLength + 1)).length = maximumDomainLength + 1 := by
            rw [List.length_take]
            omega
          have hfront0 : 0 ∉ domain.take (maximumDomainLength + 1) :=
            fun h => h0 (List.mem_of_mem_take h)
          obtain ⟨rest, hdata⟩ : ∃ rest, data = domain.take (maximumDomainLength + 1) ++ rest := by
            rcases hsplit with rfl | ⟨tail, rfl⟩
            · exact ⟨_, (List.take_append_drop _ _).symm⟩
            · refine ⟨domain.drop (maximumDomainLength + 1) ++ 0 :: tail, ?_⟩
              rw [← List.append_assoc, List.take_append_drop]
          rw [hdata]
          exact ⟨_, .badDomain hv hfront0 hfront⟩

/-- **The inversion of the read.** The read of any buffer under either contract goes
one of the ways of `Walk` and raises nothing. -/
theorem parseData_walk (data : Bytes) (exact : Bool) :
    ∃ r, parseData data exact = .ok r ∧ Walk exact data r := by
  obtain ⟨r, h⟩ := exists_walk data exact
  exact ⟨r, h.read, h⟩

/-! ## What the whole buffer read accepts -/

/-- A count that fits the width of the date field is the one the field holds. -/
theorem dateBytes_inj {v : Version} {m n : Nat} (hm : m < 256 ^ dateWidth v)
    (hn : n < 256 ^ dateWidth v) (h : dateBytes v m = dateBytes v n) : m = n := by
  cases v with
  | version1 =>
    rw [← Lib.ofBE_toBE hm, ← Lib.ofBE_toBE hn]
    exact congrArg ofBE h
  | empty | version2 | version3 =>
    rw [← Lib.ofLE_toLE 4 hm, ← Lib.ofLE_toLE 4 hn]
    exact congrArg ofLE h

/-- The range of a version's counts fits the width of its date field. -/
theorem lt_of_le_maximumCount {v : Version} {n : Nat} (h : n ≤ maximumCount v) :
    n < 256 ^ dateWidth v := by
  have hmax := maximumMinutes_eq
  cases v <;> simp only [maximumCount, dateWidth] at h ⊢ <;> omega

/-- **The fields come apart again.** Two runs of fields that start the same bytes are the
same fields, and leave the same bytes. -/
theorem fieldBytes_inj {v w : Version} {domain domain' payload payload' s t : Bytes} {m n : Nat}
    (h0 : 0 ∉ domain) (h0' : 0 ∉ domain') (hm : m < 256 ^ dateWidth v)
    (hn : n < 256 ^ dateWidth w) (hp : payload.length ≤ 0xFFFFFFFF)
    (hp' : payload'.length ≤ 0xFFFFFFFF)
    (h : fieldBytes v domain m payload ++ s = fieldBytes w domain' n payload' ++ t) :
    v = w ∧ domain = domain' ∧ m = n ∧ payload = payload' ∧ s = t := by
  simp only [fieldBytes, List.append_assoc, List.cons_append, List.nil_append] at h
  obtain ⟨hbyte, hdomain⟩ := List.cons.inj h
  have hversion := Version.asByte_injective hbyte
  subst hversion
  obtain ⟨hdomains, hrest⟩ := Lib.append_sep_inj h0 h0' hdomain
  obtain ⟨hdate, hpayload⟩ := List.append_inj hrest (by rw [length_dateBytes, length_dateBytes])
  obtain ⟨hdeclared, htail⟩ := List.append_inj hpayload (by rw [Lib.length_toLE, Lib.length_toLE])
  have hlength : payload.length = payload'.length := by
    rw [← Lib.ofLE_toLE 4 (n := payload.length) (by omega),
      ← Lib.ofLE_toLE 4 (n := payload'.length) (by omega), hdeclared]
  obtain ⟨hpayloads, hrests⟩ := List.append_inj htail hlength
  exact ⟨rfl, hdomains, dateBytes_inj hm hn hdate, hpayloads, hrests⟩

/-- The exact read of an envelope hands back its OWID and takes every byte. -/
theorem parseBytes_envelope (e : Envelope) :
    Parse.parseBytes (.bytes e.bytes) =
      .ok ⟨true, some e.owid, .parsed, e.bytes.length⟩ := by
  have h := parseData_envelope e [] fun _ : true = true => rfl
  rwa [List.append_nil] at h

/-- A buffer that the exact read reports as parsed is an envelope. -/
theorem exists_envelope {b : Bytes} {r : ParseResult}
    (h : Parse.parseBytes (.bytes b) = .ok r) (hr : r.status = .parsed) :
    ∃ e : Envelope, e.bytes = b ∧ r = ⟨true, some e.owid, .parsed, b.length⟩ := by
  obtain ⟨r', hread, hwalk⟩ := parseData_walk b true
  have hsame : r' = r := Except.ok.inj (hread.symm.trans h)
  subst hsame
  cases hwalk with
  | parsed e rest hexact =>
    rw [hexact rfl, List.append_nil]
    exact ⟨e, rfl, rfl⟩
  | missing | unsupported | absent | endInDomain | badDomain | endInDate | capacity
  | endInCount | mismatch | short => cases hr

theorem parseBytes_not_malformed {b : Bytes} {r : ParseResult}
    (h : Parse.parseBytes (.bytes b) = .ok r) : r.status ≠ .malformedEnvelope := by
  obtain ⟨r', hread, hwalk⟩ := parseData_walk b true
  have hsame : r' = r := Except.ok.inj (hread.symm.trans h)
  subst hsame
  cases hwalk <;> simp [Parse.failed]

/-- **`parse_bytes` accepts exactly the wire grammar.** It reads every buffer without
raising, which is that no index is out of bounds and no date leaves its range, and
never reports a malformed envelope. It reports a buffer as parsed exactly when the
buffer is an envelope, and hands back that envelope's version, domain, date, payload
and signature. -/
theorem parseBytes_grammar (b : Bytes) :
    ∃ r, Parse.parseBytes (.bytes b) = .ok r ∧ r.status ≠ .malformedEnvelope ∧
      (r.status = .parsed ↔ ∃ e : Envelope, e.bytes = b) ∧
      ∀ e : Envelope, e.bytes = b →
        r.ok = true ∧ r.owid = some ⟨e.version, decodeAscii e.domain,
          dateOf e.version e.count e.countFits, e.payload, e.signature⟩ := by
  obtain ⟨r, hread, -⟩ := parseData_walk b true
  refine ⟨r, hread, parseBytes_not_malformed hread, ⟨fun hr => ?_, ?_⟩, ?_⟩
  · obtain ⟨e, he, -⟩ := exists_envelope hread hr
    exact ⟨e, he⟩
  · intro he
    obtain ⟨e, rfl⟩ := he
    have hsame := Except.ok.inj ((parseBytes_envelope e).symm.trans hread)
    rw [← hsame]
  · intro e he
    subst he
    have hsame := Except.ok.inj ((parseBytes_envelope e).symm.trans hread)
    rw [← hsame]
    exact ⟨rfl, rfl⟩

/-! ## What the public reads hand back -/

/-- The OWID of a result of one of the three public reads. -/
inductive Received : Owid → Prop
  | base64 {value : Input} {r : ParseResult} {o : Owid} (h : Parse.parseBase64 value = .ok r)
      (ho : r.owid = some o) : Received o
  | whole {buffer : Input} {r : ParseResult} {o : Owid} (h : Parse.parseBytes buffer = .ok r)
      (ho : r.owid = some o) : Received o
  | framed {buffer : Input} {r : ParseResult} {o : Owid} (h : Parse.parsePrefix buffer = .ok r)
      (ho : r.owid = some o) : Received o

theorem Walk.owid_envelope {exact : Bool} {b : Bytes} {r : ParseResult} {o : Owid}
    (h : Walk exact b r) (ho : r.owid = some o) : ∃ e : Envelope, e.owid = o := by
  cases h with
  | parsed e rest hexact =>
    cases ho
    exact ⟨e, rfl⟩
  | missing | unsupported | absent | endInDomain | badDomain | endInDate | capacity
  | endInCount | mismatch | short => cases ho

theorem parse_owid_envelope {buffer : Input} {exact : Bool} {r : ParseResult} {o : Owid}
    (h : Parse.parse buffer exact = .ok r) (ho : r.owid = some o) :
    ∃ e : Envelope, e.owid = o := by
  cases buffer with
  | bytes data =>
    obtain ⟨r', hread, hwalk⟩ := parseData_walk data exact
    cases hread.symm.trans h
    exact hwalk.owid_envelope ho
  | none | text | other =>
    cases h
    cases ho

theorem parseBase64_owid_envelope {value : Input} {r : ParseResult} {o : Owid}
    (h : Parse.parseBase64 value = .ok r) (ho : r.owid = some o) :
    ∃ e : Envelope, e.owid = o := by
  cases value with
  | text s =>
    simp only [Parse.parseBase64] at h
    split at h
    · cases h
      cases ho
    · split at h
      · cases h
        cases ho
      · split at h
        · cases h
          cases ho
        · exact parse_owid_envelope h ho
  | none | bytes | other =>
    cases h
    cases ho

/-- **Every OWID that was read is an envelope's.** -/
theorem Received.exists_envelope {o : Owid} (h : Received o) : ∃ e : Envelope, e.owid = o := by
  cases h with
  | base64 h ho => exact parseBase64_owid_envelope h ho
  | whole h ho => exact parse_owid_envelope h ho
  | framed h ho => exact parse_owid_envelope h ho

theorem Envelope.received (e : Envelope) : Received e.owid := .whole (parseBytes_envelope e) rfl

end OpenWebId
