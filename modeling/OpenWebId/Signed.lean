import OpenWebId.Wire

/-!
# What the signed bytes say

A signature covers the bytes of every field but itself. `signedBytes_ok` is what those
bytes are wherever they can be written at all, for any OWID a caller builds: the date need
not be a whole hour or minute, and the domain need not be ASCII. `signedBytes_fields` is
that they come apart into the fields again, so that what was signed for one OWID says
nothing about another.

Each part of the format is used. The version is first and sets the width of the date, no
domain with a zero byte is written so that the first one ends it, and the payload is
counted.
-/

namespace OpenWebId

open Lib (encodeUtf8)
open Lib.Writer (Appends Fails)
open Owid (dateBytes fieldBytes)

/-- The count that a version stores for a date: hours in version 1, minutes otherwise. -/
def storedCount (date : DateTime) : Version → Int
  | .version1 => Io.wholeHours (date.micros - baseDate.micros)
  | _ => wholeMinutes (date.micros - baseDate.micros)

namespace Owid

/-- The minutes of a date are written where they fit four bytes. -/
theorem writeMinutes_cases (minutes : Int) :
    Fails (if minutes < 0 ∨ minutes > 0xFFFFFFFF then
        Lib.Writer.refuse (.owidError Io.dateMessage) else Io.writeU32 minutes.toNat) ∨
      ∃ count : Nat, minutes = count ∧ count < 256 ^ 4 ∧
        Appends (if minutes < 0 ∨ minutes > 0xFFFFFFFF then
          Lib.Writer.refuse (.owidError Io.dateMessage) else Io.writeU32 minutes.toNat)
          (Lib.toLE 4 count) := by
  by_cases hrange : minutes < 0 ∨ minutes > 0xFFFFFFFF
  · refine Or.inl ?_
    rw [if_pos hrange]
    exact Lib.Writer.fails_refuse _
  · refine Or.inr ⟨minutes.toNat, by omega, by omega, ?_⟩
    rw [if_neg hrange]
    exact Io.writeU32_appends (by omega)

/-- A date is written as its count where that fits, and refused otherwise. -/
theorem writeDate_cases (date : DateTime) (version : Version) :
    Fails (Io.writeDate date version) ∨
      ∃ count : Nat, storedCount date version = count ∧ count < 256 ^ dateWidth version ∧
        Appends (Io.writeDate date version) (dateBytes version count) := by
  cases version with
  | empty => exact Or.inl (Lib.Writer.fails_refuse _)
  | version1 =>
    by_cases hrange : Io.wholeHours (date.micros - baseDate.micros) < 0 ∨
        Io.wholeHours (date.micros - baseDate.micros) > 0xFFFF
    · refine Or.inl ?_
      simp only [Io.writeDate, if_pos hrange]
      exact Lib.Writer.fails_refuse _
    · refine Or.inr ⟨(Io.wholeHours (date.micros - baseDate.micros)).toNat, ?_, ?_, ?_⟩
      · simp only [storedCount]
        omega
      · simp only [dateWidth]
        omega
      · simp only [Io.writeDate, if_neg hrange]
        exact Lib.Writer.appends_extend _
  | version2 => exact writeMinutes_cases _
  | version3 => exact writeMinutes_cases _

/-- The fields before the signature are all written, or something refuses. -/
theorem toBufferNoSignature_cases (o : Owid) :
    Fails o.toBufferNoSignature ∨
      0 ∉ encodeUtf8 o.domain ∧ o.payload.length ≤ 0xFFFFFFFF ∧
      ∃ count : Nat, storedCount o.date o.version = count ∧ count < 256 ^ dateWidth o.version ∧
        Appends o.toBufferNoSignature
          (fieldBytes o.version (encodeUtf8 o.domain) count o.payload) := by
  have hversion := Io.writeByte_appends o.version.asByte
  -- the fields before one that is refused have been written, and the whole is refused
  by_cases hdomain : 0 ∈ encodeUtf8 o.domain ∨
      maximumDomainLength < (encodeUtf8 o.domain).length
  · exact Or.inl (hversion.andThen_fails (Io.writeString_fails hdomain).andThen)
  obtain ⟨h0, hlen⟩ := not_or.mp hdomain
  have hstring := Io.writeString_appends h0 (Nat.le_of_not_lt hlen)
  rcases writeDate_cases o.date o.version with hdate | ⟨count, hcount, hfits, hdate⟩
  · exact Or.inl (hversion.andThen_fails (hstring.andThen_fails hdate.andThen))
  by_cases hpayload : o.payload.length ≤ 0xFFFFFFFF
  · exact Or.inr ⟨h0, hpayload, count, hcount, hfits, hversion.andThen
      (hstring.andThen (hdate.andThen (Io.writeByteArray_appends hpayload)))⟩
  · have hrefused : Fails (Io.writeByteArray o.payload) := by
      rw [Io.writeByteArray, if_pos (Nat.lt_of_not_le hpayload)]
      exact Lib.Writer.fails_refuse _
    exact Or.inl
      (hversion.andThen_fails (hstring.andThen_fails (hdate.andThen_fails hrefused)))

/-- **What was written of an OWID before its signature**: its fields, each of which fits. -/
theorem signedBytes_ok {o : Owid} {b : Bytes} (h : o.signedBytes = .ok b) :
    0 ∉ encodeUtf8 o.domain ∧ o.payload.length ≤ 0xFFFFFFFF ∧
      ∃ count : Nat, storedCount o.date o.version = count ∧ count < 256 ^ dateWidth o.version ∧
        b = fieldBytes o.version (encodeUtf8 o.domain) count o.payload ∧
        Appends o.toBufferNoSignature b := by
  rcases o.toBufferNoSignature_cases with hfails | ⟨h0, hpayload, count, hcount, hfits, hwritten⟩
  · exact absurd h hfails.toValue_ne_ok
  · have hbytes := Except.ok.inj (hwritten.toValue.symm.trans h)
    rw [hbytes] at hwritten
    exact ⟨h0, hpayload, count, hcount, hfits, hbytes.symm, hwritten⟩

/-- **The signed bytes determine the OWID** that is signed: its version, its domain, its
payload and the count its date is stored as. -/
theorem signedBytes_fields {o o' : Owid} {b : Bytes} (h : o.signedBytes = .ok b)
    (h' : o'.signedBytes = .ok b) :
    o.version = o'.version ∧ o.domain = o'.domain ∧ o.payload = o'.payload ∧
      storedCount o.date o.version = storedCount o'.date o'.version := by
  obtain ⟨h0, hpayload, count, hcount, hfits, hbytes, -⟩ := signedBytes_ok h
  obtain ⟨h0', hpayload', count', hcount', hfits', hbytes', -⟩ := signedBytes_ok h'
  have hsame : fieldBytes o.version (encodeUtf8 o.domain) count o.payload ++ [] =
      fieldBytes o'.version (encodeUtf8 o'.domain) count' o'.payload ++ [] := by
    rw [← hbytes, ← hbytes']
  obtain ⟨hversions, hdomains, hcounts, hpayloads, -⟩ :=
    fieldBytes_inj h0 h0' hfits hfits' hpayload hpayload' hsame
  refine ⟨hversions, Lib.encodeUtf8_injective hdomains, hpayloads, ?_⟩
  rw [hcount, hcount', hcounts]

/-- An OWID of the base date, and one of a second later. -/
def onTheMinute : Owid := ⟨.version3, "a.com", baseDate, [7], []⟩

def withinTheMinute : Owid := ⟨.version3, "a.com", ⟨1000000, by decide⟩, [7], [1]⟩

theorem onTheMinute_signedBytes :
    onTheMinute.signedBytes = .ok (fieldBytes .version3 (encodeUtf8 "a.com") 0 [7]) :=
  signedBytes_eq (by decide) (by decide) ⟨rfl, by decide⟩ (by decide)

theorem withinTheMinute_signedBytes :
    withinTheMinute.signedBytes = .ok (fieldBytes .version3 (encodeUtf8 "a.com") 0 [7]) :=
  signedBytes_eq (by decide) (by decide) ⟨rfl, by decide⟩ (by decide)

/-- The two are signed alike, and their dates are stored as one count. -/
theorem signedBytes_fields_minute :
    onTheMinute.version = withinTheMinute.version ∧ onTheMinute.domain = withinTheMinute.domain ∧
      onTheMinute.payload = withinTheMinute.payload ∧
      storedCount onTheMinute.date onTheMinute.version =
        storedCount withinTheMinute.date withinTheMinute.version :=
  signedBytes_fields onTheMinute_signedBytes withinTheMinute_signedBytes

end Owid

end OpenWebId
