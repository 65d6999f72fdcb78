import Mathlib

/-!
# Base 64 in the standard alphabet

`encode` groups bytes by three into four characters and pads the last group with
`=`; `decode` reads groups of four, allows padding in the last group only, and
refuses everything else. Like the reader it stands for, `decode` does not require
the bits the padding leaves over to be zero.

`decode_encode` is the round trip, by induction over groups of three bytes; the
alphabet enters through one fact about a single sextet, checked by evaluation over
the 64 of them.
-/

namespace OpenWebId.Lib.Base64

/-- The character of a sextet. -/
def charOf (n : Nat) : Char :=
  if n < 26 then Char.ofNat (65 + n)
  else if n < 52 then Char.ofNat (71 + n)
  else if n < 62 then Char.ofNat (n - 4)
  else if n = 62 then '+'
  else '/'

/-- The sextet of a character, `none` outside the alphabet. -/
def sextetOf (c : Char) : Option Nat :=
  let n := c.toNat
  if 65 ≤ n ∧ n ≤ 90 then some (n - 65)
  else if 97 ≤ n ∧ n ≤ 122 then some (n - 71)
  else if 48 ≤ n ∧ n ≤ 57 then some (n + 4)
  else if n = 43 then some 62
  else if n = 47 then some 63
  else none

/-- `base64.b64encode`, as characters. -/
def encode : List UInt8 → List Char
  | [] => []
  | [a] => [charOf (a.toNat / 4), charOf (a.toNat % 4 * 16), '=', '=']
  | [a, b] =>
    [charOf (a.toNat / 4), charOf (a.toNat % 4 * 16 + b.toNat / 16),
      charOf (b.toNat % 16 * 4), '=']
  | a :: b :: c :: rest =>
    charOf (a.toNat / 4) :: charOf (a.toNat % 4 * 16 + b.toNat / 16) ::
      charOf (b.toNat % 16 * 4 + c.toNat / 64) :: charOf (c.toNat % 64) :: encode rest

/-- The first byte of a group. -/
def byte₁ (w x : Nat) : UInt8 := UInt8.ofNat (w * 4 + x / 16)

/-- The second byte of a group. -/
def byte₂ (x y : Nat) : UInt8 := UInt8.ofNat (x % 16 * 16 + y / 4)

/-- The third byte of a group. -/
def byte₃ (y z : Nat) : UInt8 := UInt8.ofNat (y % 4 * 64 + z)

/-- `base64.b64decode(text, validate=True)`, `none` where it raises. -/
def decode : List Char → Option (List UInt8)
  | [] => some []
  | w :: x :: y :: z :: rest =>
    match sextetOf w, sextetOf x with
    | some w', some x' =>
      if y = '=' ∧ z = '=' ∧ rest = [] then some [byte₁ w' x']
      else
        match sextetOf y with
        | some y' =>
          if z = '=' ∧ rest = [] then some [byte₁ w' x', byte₂ x' y']
          else
            match sextetOf z, decode rest with
            | some z', some bytes => some (byte₁ w' x' :: byte₂ x' y' :: byte₃ y' z' :: bytes)
            | _, _ => none
        | none => none
    | _, _ => none
  | _ => none

/-- Reading a sextet's character gives it back, and the character is neither the
padding nor white space. -/
theorem charOf_spec : ∀ {n : Nat}, n < 64 →
    sextetOf (charOf n) = some n ∧ charOf n ≠ '=' ∧ 33 ≤ (charOf n).toNat ∧
      (charOf n).toNat < 128 := by
  decide

theorem sextetOf_charOf {n : Nat} (h : n < 64) : sextetOf (charOf n) = some n :=
  (charOf_spec h).1

theorem charOf_ne_pad {n : Nat} (h : n < 64) : charOf n ≠ '=' := (charOf_spec h).2.1

theorem byte₁_of {a : UInt8} {m : Nat} (hm : m < 16) :
    byte₁ (a.toNat / 4) (a.toNat % 4 * 16 + m) = a := by
  have ha := a.toNat_lt
  have : a.toNat / 4 * 4 + (a.toNat % 4 * 16 + m) / 16 = a.toNat := by omega
  rw [byte₁, this, UInt8.ofNat_toNat]

theorem byte₂_of {a b : UInt8} {m : Nat} (hm : m < 4) :
    byte₂ (a.toNat % 4 * 16 + b.toNat / 16) (b.toNat % 16 * 4 + m) = b := by
  have hb := b.toNat_lt
  have : (a.toNat % 4 * 16 + b.toNat / 16) % 16 * 16 + (b.toNat % 16 * 4 + m) / 4 = b.toNat := by
    omega
  rw [byte₂, this, UInt8.ofNat_toNat]

theorem byte₃_of {b c : UInt8} :
    byte₃ (b.toNat % 16 * 4 + c.toNat / 64) (c.toNat % 64) = c := by
  have hc := c.toNat_lt
  have : (b.toNat % 16 * 4 + c.toNat / 64) % 4 * 64 + c.toNat % 64 = c.toNat := by omega
  rw [byte₃, this, UInt8.ofNat_toNat]

/-- **The round trip.** Every list of bytes reads back from its encoding. -/
theorem decode_encode : ∀ (bs : List UInt8), decode (encode bs) = some bs
  | [] => rfl
  | [a] => by
    have ha := a.toNat_lt
    have h₁ := byte₁_of (a := a) (m := 0) (by omega)
    simp only [Nat.add_zero] at h₁
    rw [encode, decode, sextetOf_charOf (by omega), sextetOf_charOf (by omega)]
    simp only [and_self, if_true, h₁]
  | [a, b] => by
    have ha := a.toNat_lt
    have hb := b.toNat_lt
    have h₁ := byte₁_of (a := a) (m := b.toNat / 16) (by omega)
    have h₂ := byte₂_of (a := a) (b := b) (m := 0) (by omega)
    simp only [Nat.add_zero] at h₂
    rw [encode, decode, sextetOf_charOf (by omega), sextetOf_charOf (by omega)]
    simp only
    rw [if_neg fun h => charOf_ne_pad (by omega) h.1, sextetOf_charOf (by omega)]
    simp only [and_self, if_true, h₁, h₂]
  | a :: b :: c :: rest => by
    have ha := a.toNat_lt
    have hb := b.toNat_lt
    have hc := c.toNat_lt
    have ih := decode_encode rest
    rw [encode, decode, sextetOf_charOf (by omega), sextetOf_charOf (by omega)]
    simp only
    rw [if_neg fun h => charOf_ne_pad (by omega) h.1, sextetOf_charOf (by omega)]
    simp only
    rw [if_neg fun h => charOf_ne_pad (by omega) h.1, sextetOf_charOf (by omega), ih]
    simp only [byte₁_of (a := a) (show b.toNat / 16 < 16 by omega),
      byte₂_of (a := a) (b := b) (show c.toNat / 64 < 4 by omega), byte₃_of]

/-- An encoding is made of whole groups of four. -/
theorem length_encode_mod : ∀ (bs : List UInt8), (encode bs).length % 4 = 0
  | [] => rfl
  | [_] => by simp [encode]
  | [_, _] => by simp [encode]
  | _ :: _ :: _ :: rest => by
    have ih := length_encode_mod rest
    simp only [encode, List.length_cons]
    omega

theorem encode_ne_nil {bs : List UInt8} (h : bs ≠ []) : encode bs ≠ [] := by
  match bs with
  | [] => exact absurd rfl h
  | [_] => simp [encode]
  | [_, _] => simp [encode]
  | _ :: _ :: _ :: _ => simp [encode]

/-- At most two characters of an encoding are padding. -/
theorem count_pad_encode : ∀ (bs : List UInt8), (encode bs).count '=' ≤ 2
  | [] => Nat.zero_le _
  | [a] => by
    have ha := a.toNat_lt
    have h₁ : charOf (a.toNat / 4) ≠ '=' := charOf_ne_pad (by omega)
    have h₂ : charOf (a.toNat % 4 * 16) ≠ '=' := charOf_ne_pad (by omega)
    rw [encode, List.count_cons_of_ne h₁, List.count_cons_of_ne h₂]
    exact Nat.le_refl 2
  | [a, b] => by
    have ha := a.toNat_lt
    have hb := b.toNat_lt
    have h₁ : charOf (a.toNat / 4) ≠ '=' := charOf_ne_pad (by omega)
    have h₂ : charOf (a.toNat % 4 * 16 + b.toNat / 16) ≠ '=' := charOf_ne_pad (by omega)
    have h₃ : charOf (b.toNat % 16 * 4) ≠ '=' := charOf_ne_pad (by omega)
    rw [encode, List.count_cons_of_ne h₁, List.count_cons_of_ne h₂, List.count_cons_of_ne h₃]
    exact Nat.le_succ 1
  | a :: b :: c :: rest => by
    have ha := a.toNat_lt
    have hb := b.toNat_lt
    have hc := c.toNat_lt
    have h₁ : charOf (a.toNat / 4) ≠ '=' := charOf_ne_pad (by omega)
    have h₂ : charOf (a.toNat % 4 * 16 + b.toNat / 16) ≠ '=' := charOf_ne_pad (by omega)
    have h₃ : charOf (b.toNat % 16 * 4 + c.toNat / 64) ≠ '=' := charOf_ne_pad (by omega)
    have h₄ : charOf (c.toNat % 64) ≠ '=' := charOf_ne_pad (by omega)
    rw [encode, List.count_cons_of_ne h₁, List.count_cons_of_ne h₂, List.count_cons_of_ne h₃,
      List.count_cons_of_ne h₄]
    exact count_pad_encode rest

/-- **The padding that was taken off is known from the length of what is left**: it is what
makes the groups of four whole. -/
theorem length_unpadded {bs : List UInt8} {text : List Char} {k : Nat}
    (h : encode bs = text ++ List.replicate k '=') :
    k ≤ 2 ∧ (text.length + k) % 4 = 0 := by
  constructor
  · have hcount := count_pad_encode bs
    rw [h, List.count_append, List.count_replicate_self] at hcount
    omega
  · have hlength := length_encode_mod bs
    rwa [h, List.length_append, List.length_replicate] at hlength

/-- Every character of an encoding is printable ASCII. -/
theorem mem_encode : ∀ {bs : List UInt8} {c : Char}, c ∈ encode bs →
    33 ≤ c.toNat ∧ c.toNat < 128
  | [], c, h => by cases h
  | [a], c, h => by
    have ha := a.toNat_lt
    simp only [encode, List.mem_cons, List.not_mem_nil, or_false] at h
    rcases h with rfl | rfl | rfl | rfl
    · exact (charOf_spec (by omega)).2.2
    · exact (charOf_spec (by omega)).2.2
    · decide
    · decide
  | [a, b], c, h => by
    have ha := a.toNat_lt
    have hb := b.toNat_lt
    simp only [encode, List.mem_cons, List.not_mem_nil, or_false] at h
    rcases h with rfl | rfl | rfl | rfl
    · exact (charOf_spec (by omega)).2.2
    · exact (charOf_spec (by omega)).2.2
    · exact (charOf_spec (by omega)).2.2
    · decide
  | a :: b :: d :: rest, c, h => by
    have ha := a.toNat_lt
    have hb := b.toNat_lt
    have hd := d.toNat_lt
    simp only [encode, List.mem_cons] at h
    rcases h with rfl | rfl | rfl | rfl | hrest
    · exact (charOf_spec (by omega)).2.2
    · exact (charOf_spec (by omega)).2.2
    · exact (charOf_spec (by omega)).2.2
    · exact (charOf_spec (by omega)).2.2
    · exact mem_encode hrest

end OpenWebId.Lib.Base64
