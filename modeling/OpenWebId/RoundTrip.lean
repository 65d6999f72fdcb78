import OpenWebId.Wire

/-!
# Reading then writing

The reader and the writer are separate code with separate text codecs: the reader
takes the domain's bytes as ASCII with a replacement character for the others, the
writer encodes the text as UTF-8. `Envelope.rewrite_iff` is what follows: writing
back what was read gives the bytes that arrived exactly when every byte of the domain
is ASCII. A single other byte turns into three, so the domain no longer fits, or the
bytes the signature is checked over are not the bytes that arrived.
-/

namespace OpenWebId

open Lib (encodeUtf8 decodeAscii IsAscii)
open Owid (dateBytes fieldBytes DateIs)

/-- The bytes of the domain field: those between the version and the first zero. -/
def domainField (b : Bytes) : Bytes := Lib.beforeFirst 0 (b.drop 1)

namespace Envelope

theorem domainField_bytes (e : Envelope) : domainField e.bytes = e.domain := by
  have hshape : e.bytes.drop 1 = e.domain ++ 0 :: (dateBytes e.version e.count ++
      (Lib.toLE 4 e.payload.length ++ (e.payload ++ e.signature))) := by
    simp [bytes, fieldBytes]
  rw [domainField, hshape, Lib.beforeFirst_append e.domainNonzero]

/-- The date read is the count that was on the wire. -/
theorem dateIs (e : Envelope) : DateIs e.owid.date e.owid.version e.count := by
  obtain ⟨v, domain, count, payload, signature, hv, h0, hlen, hcount, hpay, hsig⟩ := e
  have hmax := maximumMinutes_eq
  cases v with
  | empty => exact absurd rfl hv
  | version1 => exact ⟨rfl, hcount⟩
  | version2 | version3 =>
    simp only [maximumCount] at hcount
    have hfield : count ≤ 0xFFFFFFFF := by omega
    exact ⟨wholeMinutes_of_whole, hfield⟩

/-- Dropping the signature leaves the fields before it. -/
theorem take_bytes (e : Envelope) :
    e.bytes.take (e.bytes.length - signatureLength) =
      fieldBytes e.version e.domain e.count e.payload := by
  have hlen : e.bytes.length - signatureLength =
      (fieldBytes e.version e.domain e.count e.payload).length := by
    rw [bytes, List.length_append, e.signatureFits]
    omega
  rw [hlen, bytes, List.take_left]

theorem length_fieldBytes {v : Version} {domain payload : Bytes} {count : Nat} :
    (fieldBytes v domain count payload).length =
      domain.length + payload.length + dateWidth v + 6 := by
  simp only [fieldBytes, List.length_append, List.length_singleton, length_dateBytes,
    Lib.length_toLE]
  omega

/-- Where the domain is ASCII, what was read is written back as it arrived. -/
theorem rewrite (e : Envelope) (h : ∀ b ∈ e.domain, b.toNat < 0x80) :
    e.owid.asByteArray = .ok e.bytes ∧
      e.owid.signedBytes = .ok (fieldBytes e.version e.domain e.count e.payload) := by
  have hdomain : encodeUtf8 e.owid.domain = e.domain := Lib.encodeUtf8_decodeAscii h
  have h0 : 0 ∉ encodeUtf8 e.owid.domain := hdomain ▸ e.domainNonzero
  have hlen : (encodeUtf8 e.owid.domain).length ≤ maximumDomainLength :=
    hdomain ▸ e.domainShort
  have hwrite := Owid.asByteArray_eq h0 hlen e.dateIs e.payloadFits e.signatureFits
  have hsigned := Owid.signedBytes_eq h0 hlen e.dateIs e.payloadFits
  rw [hdomain] at hwrite hsigned
  exact ⟨hwrite, hsigned⟩

/-- A byte that is not ASCII makes the domain longer, and what is written with it. -/
theorem rewrite_length (e : Envelope) {b : Bytes} (hb : ∃ x ∈ e.domain, 0x80 ≤ x.toNat)
    (h : e.owid.asByteArray = .ok b) : e.bytes.length < b.length := by
  have hlonger : e.domain.length < (encodeUtf8 e.owid.domain).length :=
    Lib.length_lt_encodeUtf8_decodeAscii hb
  by_cases hfail : 0 ∈ encodeUtf8 e.owid.domain ∨
      maximumDomainLength < (encodeUtf8 e.owid.domain).length
  · obtain ⟨err, herr⟩ := Owid.asByteArray_error hfail
    rw [herr] at h
    cases h
  · obtain ⟨h0, hlen⟩ := not_or.mp hfail
    have hwrite := Owid.asByteArray_eq h0 (Nat.le_of_not_lt hlen) e.dateIs e.payloadFits
      e.signatureFits
    have hb := Except.ok.inj (hwrite.symm.trans h)
    rw [← hb, bytes, List.length_append, List.length_append, length_fieldBytes,
      length_fieldBytes]
    simp only [owid] at hlonger ⊢
    omega

/-- **Writing back is byte exact exactly on ASCII domains.** -/
theorem rewrite_iff (e : Envelope) :
    (e.owid.asByteArray = .ok e.bytes ∧
      e.owid.signedBytes = .ok (e.bytes.take (e.bytes.length - signatureLength))) ↔
      ∀ b ∈ e.domain, b.toNat < 0x80 := by
  rw [e.take_bytes]
  refine ⟨fun h b hb => Nat.lt_of_not_le fun hhigh => ?_, e.rewrite⟩
  exact Nat.lt_irrefl _ (e.rewrite_length ⟨b, hb, hhigh⟩ h.1)

end Envelope

/-- **Reading then writing is byte exact exactly on ASCII domains.** -/
theorem parseBytes_write_iff {b : Bytes} {r : ParseResult} {o : Owid}
    (h : Parse.parseBytes (.bytes b) = .ok r) (hr : r.status = .parsed) (ho : r.owid = some o) :
    (o.asByteArray = .ok b ∧ o.signedBytes = .ok (b.take (b.length - signatureLength))) ↔
      ∀ x ∈ domainField b, x.toNat < 0x80 := by
  obtain ⟨e, rfl, rfl⟩ := exists_envelope h hr
  cases ho
  rw [e.domainField_bytes]
  exact e.rewrite_iff

/-- The smallest envelope with a domain of these bytes. -/
def plainEnvelope (domain : Bytes) (h0 : 0 ∉ domain) (hlen : domain.length ≤ maximumDomainLength) :
    Envelope where
  version := .version3
  domain := domain
  count := 0
  payload := []
  signature := List.replicate signatureLength 0
  versionKnown := version3_known
  domainNonzero := h0
  domainShort := hlen
  countFits := Nat.zero_le _
  payloadFits := nil_fits
  signatureFits := List.length_replicate

theorem parseBytes_write_iff_ascii :
    ∃ o : Owid, o.asByteArray = .ok (plainEnvelope [0x61] (by decide) (by decide)).bytes := by
  let e := plainEnvelope [0x61] (by decide) (by decide)
  have hascii : ∀ x ∈ domainField e.bytes, x.toNat < 0x80 := by
    intro x hx
    rw [e.domainField_bytes] at hx
    rw [List.mem_singleton.mp hx]
    decide
  exact ⟨e.owid, ((parseBytes_write_iff (parseBytes_envelope e) rfl rfl).mpr hascii).1⟩

/-- A domain of the one byte 0xE9 is read, and what was read is written differently. -/
theorem parseBytes_write_latin :
    ¬ ∀ (b : Bytes) (r : ParseResult) (o : Owid), Parse.parseBytes (.bytes b) = .ok r →
      r.status = .parsed → r.owid = some o →
      o.asByteArray = .ok b ∧ o.signedBytes = .ok (b.take (b.length - signatureLength)) := by
  intro h
  let e := plainEnvelope [0xE9] (by decide) (by decide)
  have hwrite := h e.bytes _ e.owid (parseBytes_envelope e) rfl rfl
  have hlow := e.rewrite_iff.mp hwrite 0xE9 (List.mem_singleton_self _)
  exact absurd hlow (by decide)

end OpenWebId
