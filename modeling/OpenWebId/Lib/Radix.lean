import Mathlib

/-!
# Fixed-width integers as bytes

A count written in a fixed number of bytes, least significant first
(`toLE`/`ofLE`) or most significant first (`toBE`/`ofBE`). Reading inverts writing
for every count the width can hold, and writing inverts reading for every list of
bytes of that width, which is what makes a fixed-width field of a format
self-delimiting.
-/

namespace OpenWebId.Lib

/-- The low `width` bytes of `n`, least significant first. -/
def toLE : (width n : Nat) → List UInt8
  | 0, _ => []
  | width + 1, n => UInt8.ofNat (n % 256) :: toLE width (n / 256)

/-- The count the bytes hold, least significant first. -/
def ofLE : List UInt8 → Nat
  | [] => 0
  | b :: bs => b.toNat + 256 * ofLE bs

/-- The low `width` bytes of `n`, most significant first. -/
def toBE (width n : Nat) : List UInt8 := (toLE width n).reverse

/-- The count the bytes hold, most significant first. -/
def ofBE (bs : List UInt8) : Nat := ofLE bs.reverse

@[simp] theorem length_toLE : ∀ (width n : Nat), (toLE width n).length = width
  | 0, _ => rfl
  | width + 1, n => by simp [toLE, length_toLE width]

@[simp] theorem length_toBE (width n : Nat) : (toBE width n).length = width := by
  simp [toBE]

theorem ofLE_lt : ∀ (bs : List UInt8), ofLE bs < 256 ^ bs.length
  | [] => by decide
  | b :: bs => by
    have hrest := ofLE_lt bs
    have hb := b.toNat_lt
    simp only [ofLE, List.length_cons, Nat.pow_succ]
    omega

/-- Zero bytes above the low ones add nothing. -/
theorem ofLE_append_replicate (bs : List UInt8) (k : Nat) :
    ofLE (bs ++ List.replicate k 0) = ofLE bs := by
  induction bs with
  | nil =>
    induction k with
    | zero => rfl
    | succ k ih =>
      show 0 + 256 * ofLE (List.replicate k 0) = 0
      rw [List.nil_append] at ih
      rw [ih]
      rfl
  | cons b bs ih => rw [List.cons_append, ofLE, ih, ofLE]

theorem ofBE_lt (bs : List UInt8) : ofBE bs < 256 ^ bs.length := by
  have h := ofLE_lt bs.reverse
  rwa [List.length_reverse] at h

/-- Reading inverts writing where the count fits. -/
theorem ofLE_toLE : ∀ (width : Nat) {n : Nat}, n < 256 ^ width → ofLE (toLE width n) = n
  | 0, n, h => by
    have : n = 0 := by simpa using h
    simp [toLE, ofLE, this]
  | width + 1, n, h => by
    have hdiv : n / 256 < 256 ^ width := by
      rw [Nat.pow_succ] at h
      omega
    have hbyte : (UInt8.ofNat (n % 256)).toNat = n % 256 := by
      rw [UInt8.toNat_ofNat']
      omega
    rw [toLE, ofLE, ofLE_toLE width hdiv, hbyte]
    omega

/-- Writing inverts reading. -/
theorem toLE_ofLE : ∀ (bs : List UInt8), toLE bs.length (ofLE bs) = bs
  | [] => rfl
  | b :: bs => by
    have hb := b.toNat_lt
    have hmod : (b.toNat + 256 * ofLE bs) % 256 = b.toNat := by omega
    have hdiv : (b.toNat + 256 * ofLE bs) / 256 = ofLE bs := by omega
    rw [List.length_cons, ofLE, toLE, hmod, hdiv, toLE_ofLE bs, UInt8.ofNat_toNat]

theorem ofBE_toBE {width n : Nat} (h : n < 256 ^ width) : ofBE (toBE width n) = n := by
  rw [ofBE, toBE, List.reverse_reverse, ofLE_toLE width h]

theorem toBE_ofBE (bs : List UInt8) : toBE bs.length (ofBE bs) = bs := by
  have h := toLE_ofLE bs.reverse
  rw [List.length_reverse] at h
  rw [toBE, ofBE, h, List.reverse_reverse]

/-- Two bytes joined by a shift, as a big endian reader joins them. -/
theorem shift_or_eq_ofBE (high low : UInt8) :
    (high.toNat <<< 8) ||| low.toNat = ofBE [high, low] := by
  have hlow : low.toNat < 2 ^ 8 := low.toNat_lt
  rw [← Nat.shiftLeft_add_eq_or_of_lt hlow, Nat.shiftLeft_eq]
  simp only [ofBE, ofLE, List.reverse_cons, List.reverse_nil, List.nil_append,
    List.cons_append]
  omega

end OpenWebId.Lib
