import OpenWebId.Creator
import OpenWebId.Signed

/-!
# Writing into a buffer that holds something

`to_buffer` appends field by field, and each field has its own refusal, so one that comes
after the first leaves behind what was written before it. The OWIDs a caller can hold are
those that were read and those that were created, `Held`. Of what the writers ask of an
OWID they have all but one: the reader decodes the bytes of the domain as ASCII, a byte
that is not is written again as three, and a domain that fitted when it was read may no
longer. That refusal comes after the version byte has been appended.

`toBuffer_atomic_iff` is that nothing else can go wrong.
-/

namespace OpenWebId

open Lib (encodeUtf8 decodeAscii)
open Lib.Writer (Appends Stops)
open Owid (fieldBytes)

variable {σ κ : Type}

/-- The OWIDs a caller can hold. -/
inductive Held (P : Provider σ κ) : Owid → Prop
  | received {o : Owid} (h : Received o) : Held P o
  | created {creator : Creator σ κ} {value : Bytes} {now : DateTime} {entropy : Nat} {o : Owid}
      (h : creator.create P value now entropy = .ok o) : Held P o

/-- The write appends the bytes of the OWID, or raises an `OwidError` and leaves the buffer
as it was. -/
def Atomic (o : Owid) (buffer : Bytes) : Prop :=
  (∃ bytes, o.asByteArray = .ok bytes ∧ o.toBuffer buffer = (.ok (), buffer ++ bytes)) ∨
    ∃ e, e.isOwidError = true ∧ o.toBuffer buffer = (.error e, buffer)

theorem atomic_of_appends {o : Owid} {bytes : Bytes} (h : Appends o.toBuffer bytes)
    (buffer : Bytes) : Atomic o buffer :=
  Or.inl ⟨bytes, h.toValue, h buffer⟩

/-- The write of a domain that is too long stops behind the version byte. -/
theorem toBuffer_longDomain {o : Owid} (h0 : 0 ∉ encodeUtf8 o.domain)
    (hlong : maximumDomainLength < (encodeUtf8 o.domain).length) :
    ∃ e, e.isOwidError = true ∧ Stops o.toBuffer [o.version.asByte] e := by
  have hstring : Stops (Io.writeString o.domain) [] (.owidError ("domain is longer than the '" ++
      toString maximumDomainLength ++ "' character maximum")) := by
    simp only [Io.writeString, if_neg h0, if_pos hlong]
    exact Lib.Writer.stops_refuse _
  have hfields : Stops o.toBufferNoSignature ([o.version.asByte] ++ []) _ :=
    (Io.writeByte_appends o.version.asByte).andThen_stops hstring.andThen
  exact ⟨_, rfl, hfields.andThen⟩

theorem not_atomic_of_stops {o : Owid} {out : Bytes} {e : PyExc} (h : Stops o.toBuffer out e)
    (hout : out ≠ []) (buffer : Bytes) : ¬ Atomic o buffer := by
  intro hatomic
  rcases hatomic with ⟨bytes, -, hok⟩ | ⟨e', -, herror⟩
  · rw [h buffer] at hok
    cases hok
  · rw [h buffer] at herror
    have hbuffer : buffer ++ out = buffer := (Prod.mk.inj herror).2
    exact hout (List.append_right_eq_self.mp hbuffer)

/-- Behind fields that were written, a signature of the right length is written too. -/
theorem toBuffer_appends {o : Owid} {fields : Bytes} (h : Appends o.toBufferNoSignature fields)
    (hsignature : o.signature.length = signatureLength) :
    Appends o.toBuffer (fields ++ o.signature) :=
  h.andThen (Io.writeSignature_appends hsignature)

/-- What was read can be written whole where its domain still fits. -/
theorem Envelope.toBuffer_appends (e : Envelope)
    (hlen : (encodeUtf8 e.owid.domain).length ≤ maximumDomainLength) :
    ∃ bytes, Appends e.owid.toBuffer bytes := by
  have h0 : 0 ∉ encodeUtf8 e.owid.domain :=
    Lib.zero_notMem_encodeUtf8_decodeAscii e.domainNonzero
  have hfields := Owid.toBufferNoSignature_appends h0 hlen e.dateIs e.payloadFits
  exact ⟨_, OpenWebId.toBuffer_appends hfields e.signatureFits⟩

/-- What was created can be written whole: it was written to be signed. -/
theorem Creator.toBuffer_appends {P : Provider σ κ} {creator : Creator σ κ} {value : Bytes}
    {now : DateTime} {entropy : Nat} {o : Owid}
    (h : creator.create P value now entropy = .ok o) : ∃ bytes, Appends o.toBuffer bytes := by
  obtain ⟨-, -, -, -, data, hdata, hsign⟩ := Creator.create_ok h
  obtain ⟨-, -, count, -, -, -, hfields⟩ := Owid.signedBytes_ok hdata
  obtain ⟨key, r, s, -, -, -, -, hsignature⟩ := Crypto.signByteArray_ok hsign
  have hlen : o.signature.length = signatureLength := by
    rw [hsignature]
    exact Crypto.length_signature r s
  exact ⟨_, OpenWebId.toBuffer_appends hfields hlen⟩

/-- **A failed write leaves the buffer as it was** exactly where the domain fits when it is
written. -/
theorem toBuffer_atomic_iff {P : Provider σ κ} {o : Owid} (h : Held P o) (buffer : Bytes) :
    Atomic o buffer ↔ (encodeUtf8 o.domain).length ≤ maximumDomainLength := by
  cases h with
  | received h =>
    obtain ⟨e, rfl⟩ := h.exists_envelope
    by_cases hlen : (encodeUtf8 e.owid.domain).length ≤ maximumDomainLength
    · obtain ⟨bytes, happends⟩ := e.toBuffer_appends hlen
      exact iff_of_true (atomic_of_appends happends buffer) hlen
    · have h0 : 0 ∉ encodeUtf8 e.owid.domain :=
        Lib.zero_notMem_encodeUtf8_decodeAscii e.domainNonzero
      obtain ⟨err, -, hstops⟩ := toBuffer_longDomain h0 (Nat.lt_of_not_le hlen)
      exact iff_of_false (not_atomic_of_stops hstops (List.cons_ne_nil _ _) buffer) hlen
  | created h =>
    obtain ⟨-, hdomain, -⟩ := Creator.create_ok h
    obtain ⟨bytes, happends⟩ := Creator.toBuffer_appends h
    refine iff_of_true (atomic_of_appends happends buffer) ?_
    rw [hdomain]
    exact Creator.domainShort _

/-- An envelope with a domain of this many bytes 0xE9. -/
def latinEnvelope (n : Nat) (h : n ≤ maximumDomainLength) : Envelope :=
  plainEnvelope (List.replicate n 0xE9)
    (fun hzero => absurd (List.eq_of_mem_replicate hzero) (by decide))
    (by rw [List.length_replicate]; exact h)

theorem latinEnvelope_length {n : Nat} (h : n ≤ maximumDomainLength) :
    (encodeUtf8 (latinEnvelope n h).owid.domain).length = 3 * n := by
  have hhigh : decide (0x80 ≤ (0xE9 : UInt8).toNat) = true := rfl
  show (encodeUtf8 (decodeAscii (List.replicate n 0xE9))).length = 3 * n
  rw [Lib.length_encodeUtf8_decodeAscii, List.length_replicate, List.countP_replicate,
    if_pos hhigh]
  omega

/-- One with ten is written whole behind an earlier frame. -/
theorem toBuffer_atomic_short : Atomic (latinEnvelope 10 (by decide)).owid [0] := by
  refine (toBuffer_atomic_iff (P := Provider.plain) (.received (Envelope.received _)) [0]).mpr ?_
  rw [latinEnvelope_length, maximumDomainLength]
  omega

/-- **One with a hundred leaves its version byte behind**, after the marker of an absent node
that the buffer held. -/
theorem toBuffer_atomic_long :
    ∃ b r o e, Parse.parseBytes (.bytes b) = .ok r ∧ r.owid = some o ∧
      o.toBuffer [0] = (.error e, [0, 3]) := by
  have hn : 100 ≤ maximumDomainLength := by decide
  have h0 : 0 ∉ encodeUtf8 (latinEnvelope 100 hn).owid.domain :=
    Lib.zero_notMem_encodeUtf8_decodeAscii (latinEnvelope 100 hn).domainNonzero
  have hlong : maximumDomainLength < (encodeUtf8 (latinEnvelope 100 hn).owid.domain).length := by
    rw [latinEnvelope_length, maximumDomainLength]
    omega
  obtain ⟨e, -, hstops⟩ := toBuffer_longDomain h0 hlong
  exact ⟨(latinEnvelope 100 hn).bytes, _, (latinEnvelope 100 hn).owid, e,
    parseBytes_envelope _, rfl, hstops [0]⟩

end OpenWebId
