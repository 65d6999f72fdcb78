import Mathlib.Data.Nat.Log
import Mathlib.Tactic.Ring

/-!
# Quotients of integers as doubles

Dividing one integer by another gives the double nearest to the exact quotient, and of two
that are as near the even one. A double keeps 53 significant bits, so the larger a quotient
is, the fewer binary places are left for its fraction: `places`, which is enough for every
quotient below `2 ^ 52`.

A floor division of such a double is exact, and differs from that of the quotient only where
the rounding has carried the quotient up to a multiple of the divisor. `le_floorDiv` and
`floorDiv_le` say it never passes one, `floorDiv_mono` that the order is kept, and
`floorDiv_near` how far below the multiple the quotient can be.
-/

namespace OpenWebId.Lib

/-- The natural number nearest to `n / d`, the even one of two that are as near. -/
def nearest (n d : Nat) : Nat :=
  let q := n / d
  let r := n % d
  if 2 * r < d then q
  else if d < 2 * r then q + 1
  else q + q % 2

theorem nearest_le_succ (n d : Nat) : nearest n d ≤ n / d + 1 := by
  simp only [nearest]
  split
  · omega
  · split <;> omega

theorem div_le_nearest (n d : Nat) : n / d ≤ nearest n d := by
  simp only [nearest]
  split
  · omega
  · split <;> omega

theorem nearest_mono {n n' d : Nat} (h : n ≤ n') : nearest n d ≤ nearest n' d := by
  rcases Nat.lt_or_eq_of_le (Nat.div_le_div_right (c := d) h) with hlt | heq
  · exact Nat.le_trans (nearest_le_succ n d) (Nat.le_trans hlt (div_le_nearest n' d))
  · -- in one unit the one with the larger remainder is rounded no lower
    have hmod : n % d ≤ n' % d := by
      have hn := Nat.div_add_mod n d
      have hn' := Nat.div_add_mod n' d
      rw [heq] at hn
      omega
    simp only [nearest, heq]
    split
    · split
      · exact Nat.le_refl _
      · split <;> omega
    · split
      · split
        · omega
        · split <;> omega
      · split
        · omega
        · split <;> omega

theorem nearest_mul {d : Nat} (hd : 0 < d) (q : Nat) : nearest (q * d) d = q := by
  simp only [nearest, Nat.mul_div_cancel _ hd, Nat.mul_mod_left]
  exact if_pos (by omega)

/-- The nearest number is at most half a unit too high. -/
theorem nearest_mul_le {d : Nat} (hd : 0 < d) (n : Nat) : 2 * (nearest n d * d) ≤ 2 * n + d := by
  have hn := Nat.div_add_mod n d
  have hr := Nat.mod_lt n hd
  have hq : n / d * d = d * (n / d) := Nat.mul_comm _ _
  simp only [nearest]
  split
  · omega
  · split
    · rw [Nat.add_mul, Nat.one_mul]
      omega
    · rcases Nat.mod_two_eq_zero_or_one (n / d) with hodd | hodd <;> rw [hodd, Nat.add_mul] <;>
        omega

/-- The binary places a double has for `n / d`: the fewest with which its significand has 53
bits. -/
def places (n d : Nat) : Nat := Nat.clog 2 ((2 ^ 52 * d + n - 1) / n)

theorem places_le_iff {n : Nat} (hn : 0 < n) {d k : Nat} :
    places n d ≤ k ↔ 2 ^ 52 * d ≤ n * 2 ^ k := by
  rw [places, Nat.clog_le_iff_le_pow Nat.one_lt_two, Nat.div_le_iff_le_mul_add_pred hn]
  omega

theorem places_antitone {n n' d : Nat} (hn : 0 < n) (h : n ≤ n') : places n' d ≤ places n d := by
  rw [places_le_iff (Nat.lt_of_lt_of_le hn h)]
  exact Nat.le_trans ((places_le_iff hn).mp (Nat.le_refl _)) (Nat.mul_le_mul_right _ h)

/-- A double, as the fraction `significand / 2 ^ places`. -/
structure Double where
  significand : Int
  places : Nat
  deriving DecidableEq

/-- Floor divisions at two scales compare as the fractions do. -/
theorem div_scale_le {a b w k k' : Nat} (h : a * 2 ^ k' ≤ b * 2 ^ k) :
    a / (w * 2 ^ k) ≤ b / (w * 2 ^ k') := by
  calc a / (w * 2 ^ k) = a * 2 ^ k' / (w * 2 ^ k * 2 ^ k') :=
        (Nat.mul_div_mul_right _ _ (Nat.two_pow_pos k')).symm
    _ ≤ b * 2 ^ k / (w * 2 ^ k * 2 ^ k') := Nat.div_le_div_right h
    _ = b / (w * 2 ^ k') := by
      rw [Nat.mul_right_comm, Nat.mul_div_mul_right _ _ (Nat.two_pow_pos k)]

theorem scale_pos {w : Nat} (hw : 0 < w) (k : Nat) : 0 < w * 2 ^ k :=
  Nat.mul_pos hw (Nat.two_pow_pos k)

namespace Double

/-- The double of the quotient of two integers. -/
def ofQuotient (n : Int) (d : Nat) : Double where
  significand := n.sign * nearest (n.natAbs * 2 ^ Lib.places n.natAbs d) d
  places := Lib.places n.natAbs d

/-- The floor division of a double by a whole number. -/
def floorDiv (x : Double) (w : Nat) : Int := x.significand / (w * 2 ^ x.places : Nat)

theorem floorDiv_ofQuotient (n d w : Nat) :
    (ofQuotient n d).floorDiv w =
      (nearest (n * 2 ^ Lib.places n d) d / (w * 2 ^ Lib.places n d) : Nat) := by
  rcases Nat.eq_zero_or_pos n with rfl | hn
  · simp [ofQuotient, floorDiv, nearest]
  · have hsign : (n : Int).sign = 1 := Int.sign_eq_one_of_pos (by omega)
    simp only [ofQuotient, floorDiv, hsign, Int.natAbs_natCast, Int.one_mul, Int.natCast_ediv]

/-- A quotient that is at least a multiple of the divisor is counted as no less. -/
theorem le_floorDiv {n d w m : Nat} (hd : 0 < d) (hw : 0 < w) (h : m * w * d ≤ n) :
    (m : Int) ≤ (ofQuotient n d).floorDiv w := by
  rw [floorDiv_ofQuotient, Int.ofNat_le, Nat.le_div_iff_mul_le (scale_pos hw _)]
  generalize Lib.places n d = k
  calc m * (w * 2 ^ k) = nearest (m * w * 2 ^ k * d) d := by
        rw [nearest_mul hd, Nat.mul_assoc]
    _ ≤ nearest (n * 2 ^ k) d := by
        apply nearest_mono
        rw [Nat.mul_right_comm]
        exact Nat.mul_le_mul_right _ h

/-- A quotient that is at most a multiple of the divisor is counted as no more. -/
theorem floorDiv_le {n d w m : Nat} (hd : 0 < d) (h : n ≤ m * w * d) :
    (ofQuotient n d).floorDiv w ≤ m := by
  rw [floorDiv_ofQuotient, Int.ofNat_le]
  generalize Lib.places n d = k
  have hle : nearest (n * 2 ^ k) d ≤ m * (w * 2 ^ k) := by
    calc nearest (n * 2 ^ k) d ≤ nearest (m * w * 2 ^ k * d) d := by
          apply nearest_mono
          rw [Nat.mul_right_comm]
          exact Nat.mul_le_mul_right _ h
      _ = m * (w * 2 ^ k) := by rw [nearest_mul hd, Nat.mul_assoc]
  rw [Nat.mul_comm m] at hle
  exact Nat.div_le_of_le_mul hle

/-- A multiple of the divisor is counted exactly. -/
theorem floorDiv_mul {d : Nat} (hd : 0 < d) (w q : Nat) :
    (ofQuotient (q * d : Nat) d).floorDiv w = (q / w : Nat) := by
  rw [floorDiv_ofQuotient, Nat.mul_right_comm, nearest_mul hd,
    Nat.mul_div_mul_right _ _ (Nat.two_pow_pos _)]

/-- What is counted below zero is below zero. -/
theorem floorDiv_neg {n : Int} (hn : n < 0) {d w : Nat} (hd : 0 < d) (hw : 0 < w) :
    (ofQuotient n d).floorDiv w < 0 := by
  have habs : 0 < n.natAbs := Int.natAbs_pos.mpr (Int.ne_of_lt hn)
  have hbits := (places_le_iff habs (d := d)).mp (Nat.le_refl _)
  have hpos : 0 < nearest (n.natAbs * 2 ^ Lib.places n.natAbs d) d := by
    refine Nat.lt_of_lt_of_le (Nat.div_pos ?_ hd) (div_le_nearest _ _)
    omega
  refine Int.ediv_neg_of_neg_of_pos ?_ ?_
  · simp only [ofQuotient, Int.sign_eq_neg_one_of_neg hn]
    omega
  · exact Int.natCast_pos.mpr (scale_pos hw _)

/-- **Order is kept**: where a larger quotient has fewer places, the rounding of the smaller
one stops at the power of two between them. -/
theorem floorDiv_mono {n n' d w : Nat} (hd : 0 < d) (hw : 0 < w) (h : n ≤ n') :
    (ofQuotient n d).floorDiv w ≤ (ofQuotient n' d).floorDiv w := by
  rcases Nat.eq_zero_or_pos n with rfl | hn
  · exact Int.le_trans (floorDiv_le (m := 0) hd (by omega)) (le_floorDiv hd hw (by omega))
  rw [floorDiv_ofQuotient, floorDiv_ofQuotient, Int.ofNat_le]
  have hplaces := places_antitone (d := d) hn h
  have hbits' := (places_le_iff (Nat.lt_of_lt_of_le hn h) (d := d)).mp (Nat.le_refl _)
  generalize hk' : Lib.places n' d = k' at hplaces hbits'
  rcases Nat.lt_or_eq_of_le hplaces with hlt | heq
  · have hbits : n * 2 ^ (Lib.places n d - 1) < 2 ^ 52 * d := by
      refine Nat.not_le.mp fun hle => ?_
      have := (places_le_iff hn).mpr hle
      omega
    obtain ⟨k, hk⟩ : ∃ k, Lib.places n d = k + 1 := ⟨Lib.places n d - 1, by omega⟩
    rw [hk, Nat.add_sub_cancel] at hbits
    rw [hk] at hlt ⊢
    have hlow : nearest (n * 2 ^ (k + 1)) d ≤ 2 ^ 53 := by
      rw [← nearest_mul hd (2 ^ 53)]
      apply nearest_mono
      rw [Nat.pow_succ, ← Nat.mul_assoc]
      omega
    have hhigh : 2 ^ 52 ≤ nearest (n' * 2 ^ k') d := by
      rw [← nearest_mul hd (2 ^ 52)]
      exact nearest_mono hbits'
    apply div_scale_le
    calc nearest (n * 2 ^ (k + 1)) d * 2 ^ k' ≤ 2 ^ 53 * 2 ^ k :=
          Nat.mul_le_mul hlow (Nat.pow_le_pow_right Nat.two_pos (Nat.le_of_lt_succ hlt))
      _ = 2 ^ 52 * 2 ^ (k + 1) := by ring
      _ ≤ nearest (n' * 2 ^ k') d * 2 ^ (k + 1) := Nat.mul_le_mul_right _ hhigh
  · rw [← heq]
    exact Nat.div_le_div_right (nearest_mono (Nat.mul_le_mul_right _ h))

/-- A quotient that is counted as a multiple of the divisor is below it by half of the last
place at most. -/
theorem floorDiv_near {n d w m k : Nat} (hd : 0 < d) (hw : 0 < w) (hn : 0 < n)
    (hk : n * 2 ^ k < 2 ^ 52 * d) (h : (m : Int) ≤ (ofQuotient n d).floorDiv w) :
    m * w * d * 2 ^ (k + 2) ≤ n * 2 ^ (k + 2) + d := by
  have hplaces : k < Lib.places n d := by
    refine Nat.not_le.mp fun hle => ?_
    exact absurd ((places_le_iff hn).mp hle) (Nat.not_le.mpr hk)
  rw [floorDiv_ofQuotient, Int.ofNat_le, Nat.le_div_iff_mul_le (scale_pos hw _)] at h
  generalize Lib.places n d = p at hplaces h
  have hround := nearest_mul_le hd (n * 2 ^ p)
  have hexact : 2 * (m * w * d * 2 ^ p) ≤ 2 * (n * 2 ^ p) + d := by
    refine Nat.le_trans (Nat.mul_le_mul_left 2 ?_) hround
    calc m * w * d * 2 ^ p = m * (w * 2 ^ p) * d := by ring
      _ ≤ nearest (n * 2 ^ p) d * d := Nat.mul_le_mul_right _ h
  -- half of the last place that there is is no more than half of the one said
  by_cases hle : m * w * d ≤ n
  · exact Nat.le_trans (Nat.mul_le_mul_right _ hle) (Nat.le_add_right _ _)
  · obtain ⟨excess, hexcess⟩ := Nat.exists_eq_add_of_le (Nat.le_of_not_le hle)
    rw [hexcess] at hexact ⊢
    obtain ⟨j, hj⟩ := Nat.exists_eq_add_of_lt hplaces
    have hfar : excess * 2 ^ (p + 1) ≤ d := by
      rw [Nat.pow_succ, ← Nat.mul_assoc]
      rw [Nat.add_mul] at hexact
      omega
    have hscale : excess * 2 ^ (k + 2) ≤ excess * 2 ^ (p + 1) :=
      Nat.mul_le_mul_left _ (Nat.pow_le_pow_right Nat.two_pos (by omega))
    rw [Nat.add_mul]
    omega

end Double

end OpenWebId.Lib
