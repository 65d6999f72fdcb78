import OpenWebId.Lib.Text

/-!
# UTF-8 decoding with replacement gives back every text

`decodeUtf8List` takes one sequence at a time: a lead byte, and as many bytes behind it as
it calls for. A sequence that is all there is one character (`decodeUtf8List_sequence`), and
the encoding of a character is such a sequence for each of the four lengths it can have. So
a text that was encoded is decoded to itself, with nothing replaced.
-/

namespace OpenWebId.Lib

/-- A sequence that is all there is its character, whatever follows. -/
theorem decodeUtf8List_sequence {b : UInt8} {n : Nat} {lo hi : UInt8} {t rest : List UInt8}
    {c : Char} (hhigh : ¬ b.toNat < 0x80) (hlead : leadByte b = some (n, lo, hi))
    (hlen : t.length = n) (hcont : continuations n lo hi (t ++ rest) = n)
    (hvalue : t.foldl (fun acc c => acc * 64 + c.toNat % 64) (b.toNat % 2 ^ (6 - n)) =
      c.toNat) :
    decodeUtf8List (b :: (t ++ rest)) = c :: decodeUtf8List rest := by
  have htake : (t ++ rest).take n = t := List.take_left' hlen
  have hdrop : (t ++ rest).drop n = rest := List.drop_left' hlen
  rw [decodeUtf8List, if_neg hhigh, hlead]
  simp only
  rw [hcont, if_pos rfl, htake, hdrop, hvalue, Char.ofNat_toNat]

/-- A byte that continues a sequence. -/
theorem continuation_bounds {m : Nat} (h : m < 64) :
    (0x80 : UInt8) ≤ UInt8.ofNat (m + 0x80) ∧ UInt8.ofNat (m + 0x80) ≤ 0xBF := by
  simp only [UInt8.le_iff_toNat_le, UInt8.toNat_ofNat']
  constructor
  · show 0x80 ≤ _
    omega
  · show _ ≤ 0xBF
    omega

/-- One byte of the count, where it is in the range that is asked of it. -/
theorem continuations_cons {n : Nat} {lo hi b : UInt8} {rest : List UInt8} (hlo : lo ≤ b)
    (hhi : b ≤ hi) :
    continuations (n + 1) lo hi (b :: rest) = 1 + continuations n 0x80 0xBF rest := by
  rw [continuations, if_pos ⟨hlo, hhi⟩]

theorem toNat_ofNat_byte {m : Nat} (h : m < 256) : (UInt8.ofNat m).toNat = m := by
  rw [UInt8.toNat_ofNat']
  exact Nat.mod_eq_of_lt h

/-- The lead byte of two. -/
theorem leadByte_two {m : Nat} (hlow : 0xC2 ≤ m) (hhigh : m ≤ 0xDF) :
    leadByte (UInt8.ofNat m) = some (1, 0x80, 0xBF) := by
  have hnat : (UInt8.ofNat m).toNat = m := toNat_ofNat_byte (by omega)
  have hin : 0xC2 ≤ UInt8.ofNat m ∧ UInt8.ofNat m ≤ 0xDF := by
    simp only [UInt8.le_iff_toNat_le, hnat]
    exact ⟨hlow, hhigh⟩
  rw [leadByte, if_pos hin]

/-- The lead byte of three, and the range it leaves for the byte behind it. -/
theorem leadByte_three {m : Nat} (h : m < 16) :
    leadByte (UInt8.ofNat (m + 0xE0)) = some (2, if m = 0 then 0xA0 else 0x80,
      if m = 13 then 0x9F else 0xBF) := by
  interval_cases m <;> rfl

/-- The lead byte of four, and the range it leaves for the byte behind it. -/
theorem leadByte_four {m : Nat} (h : m ≤ 4) :
    leadByte (UInt8.ofNat (m + 0xF0)) = some (3, if m = 0 then 0x90 else 0x80,
      if m = 4 then 0x8F else 0xBF) := by
  interval_cases m <;> rfl

/-- **The encoding of a character decodes to it**, whatever follows. -/
theorem decodeUtf8List_encodeChar (c : Char) (rest : List UInt8) :
    decodeUtf8List (String.utf8EncodeChar c ++ rest) = c :: decodeUtf8List rest := by
  have hvalid : c.val.toNat < 0xD800 ∨ (0xDFFF < c.val.toNat ∧ c.val.toNat < 0x110000) := c.valid
  have hnat : c.toNat = c.val.toNat := rfl
  generalize hv : c.val.toNat = v at hvalid hnat
  unfold String.utf8EncodeChar
  simp only [hv]
  split
  next hone =>
    -- one byte, the ASCII of it
    have hbyte : (UInt8.ofNat v).toNat = v := toNat_ofNat_byte (by omega)
    rw [List.singleton_append, decodeUtf8List, hbyte, if_pos (Nat.lt_succ_of_le hone), ← hnat,
      Char.ofNat_toNat]
  next hone =>
    split
    next htwo =>
      have hlead := leadByte_two (m := v / 64 % 0x20 + 0xC0) (by omega) (by omega)
      have hbyte : (UInt8.ofNat (v / 64 % 0x20 + 0xC0)).toNat = v / 64 % 0x20 + 0xC0 :=
        toNat_ofNat_byte (by omega)
      obtain ⟨hlo, hhi⟩ := continuation_bounds (m := v % 0x40) (by omega)
      refine decodeUtf8List_sequence (t := [_]) ?_ hlead rfl ?_ ?_
      · rw [hbyte]
        omega
      · rw [List.singleton_append, continuations_cons hlo hhi]
        rfl
      · simp only [List.foldl_cons, List.foldl_nil, hbyte, hnat, UInt8.toNat_ofNat']
        omega
    next htwo =>
      split
      next hthree =>
        have hlead := leadByte_three (m := v / 4096 % 0x10) (by omega)
        have hbyte : (UInt8.ofNat (v / 4096 % 0x10 + 0xE0)).toNat = v / 4096 % 0x10 + 0xE0 :=
          toNat_ofNat_byte (by omega)
        have hnext : (UInt8.ofNat (v / 64 % 0x40 + 0x80)).toNat = v / 64 % 0x40 + 0x80 :=
          toNat_ofNat_byte (by omega)
        obtain ⟨hlo, hhi⟩ := continuation_bounds (m := v % 0x40) (by omega)
        refine decodeUtf8List_sequence (t := [_, _]) ?_ hlead rfl ?_ ?_
        · rw [hbyte]
          omega
        · -- below 0x800 there are fewer bytes, and the surrogates are no characters
          rw [List.cons_append, List.singleton_append, continuations_cons,
            continuations_cons hlo hhi]
          · rfl
          · rw [UInt8.le_iff_toNat_le, hnext]
            split
            next h => show 0xA0 ≤ _; omega
            next h => show 0x80 ≤ _; omega
          · rw [UInt8.le_iff_toNat_le, hnext]
            split
            next h => show _ ≤ 0x9F; omega
            next h => show _ ≤ 0xBF; omega
        · simp only [List.foldl_cons, List.foldl_nil, hbyte, hnat, UInt8.toNat_ofNat']
          omega
      next hthree =>
        have hlead := leadByte_four (m := v / 262144 % 0x08) (by omega)
        have hbyte : (UInt8.ofNat (v / 262144 % 0x08 + 0xF0)).toNat = v / 262144 % 0x08 + 0xF0 :=
          toNat_ofNat_byte (by omega)
        have hnext : (UInt8.ofNat (v / 4096 % 0x40 + 0x80)).toNat = v / 4096 % 0x40 + 0x80 :=
          toNat_ofNat_byte (by omega)
        obtain ⟨hlo, hhi⟩ := continuation_bounds (m := v / 64 % 0x40) (by omega)
        obtain ⟨hlo', hhi'⟩ := continuation_bounds (m := v % 0x40) (by omega)
        refine decodeUtf8List_sequence (t := [_, _, _]) ?_ hlead rfl ?_ ?_
        · rw [hbyte]
          omega
        · -- below 0x10000 there are fewer bytes, and 0x10FFFF is the last character
          rw [List.cons_append, List.cons_append, List.singleton_append, continuations_cons,
            continuations_cons hlo hhi, continuations_cons hlo' hhi']
          · rfl
          · rw [UInt8.le_iff_toNat_le, hnext]
            split
            next h => show 0x90 ≤ _; omega
            next h => show 0x80 ≤ _; omega
          · rw [UInt8.le_iff_toNat_le, hnext]
            split
            next h => show _ ≤ 0x8F; omega
            next h => show _ ≤ 0xBF; omega
        · simp only [List.foldl_cons, List.foldl_nil, hbyte, hnat, UInt8.toNat_ofNat']
          omega

/-- **Every text is decoded from what it was encoded to**, and nothing is replaced. -/
theorem decodeUtf8_encodeUtf8 (s : String) : decodeUtf8 (encodeUtf8 s) = s := by
  have hlist : ∀ l : List Char, decodeUtf8List (l.flatMap String.utf8EncodeChar) = l := by
    intro l
    induction l with
    | nil => rw [List.flatMap_nil, decodeUtf8List]
    | cons c cs ih => rw [List.flatMap_cons, decodeUtf8List_encodeChar, ih]
  rw [decodeUtf8, encodeUtf8, hlist, String.ofList_toList]

end OpenWebId.Lib
