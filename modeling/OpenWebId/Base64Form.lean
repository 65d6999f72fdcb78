import OpenWebId.Wire

/-!
# The base 64 form, padded or not

`parse_base64` strips the text, adds the padding that its length says is missing, and
reads the bytes. An encoding is whole groups of four with at most two `=` at the end, so
whichever of them were taken off, the length of what is left says how many.
-/

namespace OpenWebId

/-- The padding added is the padding that was taken off. -/
theorem missingPadding_unpadded {b : Bytes} {text : List Char} {k : Nat}
    (h : Lib.Base64.encode b = text ++ List.replicate k '=') :
    Parse.missingPadding text.length = some (List.replicate k '=') := by
  obtain ⟨hk, hlength⟩ := Lib.Base64.length_unpadded h
  have hcases : k = 0 ∨ k = 1 ∨ k = 2 := by omega
  unfold Parse.missingPadding
  rcases hcases with rfl | rfl | rfl
  · have hmod : text.length % 4 = 0 := by omega
    rw [hmod]
    rfl
  · have hmod : text.length % 4 = 3 := by omega
    rw [hmod]
    rfl
  · have hmod : text.length % 4 = 2 := by omega
    rw [hmod]
    rfl

/-- The read of a text that strips to an encoding, with some of its padding taken off. -/
theorem parseBase64_of_strip {b : Bytes} {text : List Char} {k : Nat} {s : String}
    (hencode : Lib.Base64.encode b = text ++ List.replicate k '=')
    (hstrip : Lib.strip s = String.ofList text) :
    Parse.parseBase64 (.text s) = Parse.parseBytes (.bytes b) := by
  by_cases hempty : s = ""
  · -- nothing is the encoding of nothing
    subst hempty
    have htext : text = [] := by
      have hlist := congrArg String.toList hstrip
      rw [String.toList_ofList] at hlist
      exact hlist.symm
    subst htext
    have hb : b = [] := by
      by_cases hb : b = []
      · exact hb
      · obtain ⟨hk, hlength⟩ := Lib.Base64.length_unpadded hencode
        rw [List.length_nil] at hlength
        obtain rfl : k = 0 := by omega
        exact absurd hencode (Lib.Base64.encode_ne_nil hb)
    subst hb
    rfl
  · simp only [Parse.parseBase64, if_neg hempty, hstrip, String.toList_ofList,
      missingPadding_unpadded hencode]
    rw [← hencode, Lib.Base64.decode_encode]

/-- **The base 64 form is read padded and unpadded alike.** With any of its trailing padding
taken off and any white space around it, an encoding is read as the bytes it encodes. -/
theorem parseBase64_unpadded {b : Bytes} {before text after : List Char} {k : Nat}
    (hencode : Lib.Base64.encode b = text ++ List.replicate k '=')
    (hbefore : ∀ c ∈ before, Lib.isSpace c = true) (hafter : ∀ c ∈ after, Lib.isSpace c = true) :
    Parse.parseBase64 (.text (String.ofList (before ++ (text ++ after)))) =
        Parse.parseBytes (.bytes b) ∧
      (b = [] → Parse.parseBytes (.bytes b) = .ok (Parse.failed .missingInput)) := by
  have hprintable : ∀ c ∈ text, Lib.isSpace c = false := by
    intro c hc
    have hmem : c ∈ Lib.Base64.encode b := by
      rw [hencode]
      exact List.mem_append_left _ hc
    obtain ⟨hlow, hhigh⟩ := Lib.Base64.mem_encode hmem
    exact Lib.isSpace_of_printable hlow hhigh
  refine ⟨parseBase64_of_strip hencode (Lib.strip_around hbefore hprintable hafter), ?_⟩
  intro hb
  subst hb
  rfl

/-- One byte, with one of its two padding characters taken off and a blank before it. -/
theorem parseBase64_unpadded_one :
    Parse.parseBase64 (.text (String.ofList ([' '] ++ (['A', 'w', '='] ++ [])))) =
        Parse.parseBytes (.bytes [3]) ∧
      (([3] : Bytes) = [] → Parse.parseBytes (.bytes [3]) = .ok (Parse.failed .missingInput)) := by
  refine parseBase64_unpadded (k := 1) rfl ?_ ?_
  · intro c hc
    rw [List.mem_singleton.mp hc]
    rfl
  · intro c hc
    cases hc

end OpenWebId
