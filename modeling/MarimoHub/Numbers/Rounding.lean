import Mathlib.Algebra.Order.Field.Power
import Mathlib.Data.Int.Log
import Mathlib.Data.Rat.Floor
import Mathlib.Tactic.Linarith
import Mathlib.Tactic.Positivity

/-!
# Rounding to a binary significand

Round to nearest, ties to even, for a significand of so many bits and an exponent without bounds.
What comparisons need is that rounding is monotone (`rounded_mono`) and leaves the integers of so
many bits as they are (`rounded_natCast`).
-/

namespace MarimoHub.Numbers

variable {p : ℕ} {x y : ℚ}

def nearestEven (x : ℚ) : ℤ :=
  if x - ⌊x⌋ < 1 / 2 ∨ (x - ⌊x⌋ = 1 / 2 ∧ ⌊x⌋ % 2 = 0) then ⌊x⌋ else ⌊x⌋ + 1

/-- The distance of the numbers around `x`. -/
def spacing (p : ℕ) (x : ℚ) : ℚ := 2 ^ (Int.log 2 x + 1 - p)

def magnitude (p : ℕ) (x : ℚ) : ℚ :=
  nearestEven (x / spacing p x) * spacing p x

def rounded (p : ℕ) (x : ℚ) : ℚ :=
  if x < 0 then -magnitude p (-x) else magnitude p x

theorem nearestEven_intCast (n : ℤ) : nearestEven n = n := by
  simp [nearestEven]

theorem nearestEven_mono (le : x ≤ y) : nearestEven x ≤ nearestEven y := by
  have floors := Int.floor_mono le
  unfold nearestEven
  rcases floors.eq_or_lt with same | less
  · rw [same]
    split
    · split <;> omega
    · next up =>
      split
      · next down =>
        refine absurd ?_ up
        rcases down with below | ⟨half, even⟩
        · exact .inl (by linarith)
        · rcases le.eq_or_lt with rfl | lt
          · exact .inr ⟨half, even⟩
          · exact .inl (by linarith)
      · omega
  · split <;> split <;> omega

theorem spacing_pos : 0 < spacing p x := by
  unfold spacing
  positivity

/-- A bound that is a multiple of the spacing holds of the rounded number too. -/
theorem magnitude_le (n : ℤ) (le : x ≤ n * spacing p x) :
    magnitude p x ≤ n * spacing p x := by
  have scaled : x / spacing p x ≤ (n : ℚ) := (div_le_iff₀ spacing_pos).mpr le
  have := nearestEven_mono scaled
  rw [nearestEven_intCast] at this
  exact mul_le_mul_of_nonneg_right (by exact_mod_cast this) spacing_pos.le

theorem le_magnitude (n : ℤ) (le : n * spacing p x ≤ x) :
    n * spacing p x ≤ magnitude p x := by
  have scaled : (n : ℚ) ≤ x / spacing p x := (le_div_iff₀ spacing_pos).mpr le
  have := nearestEven_mono scaled
  rw [nearestEven_intCast] at this
  exact mul_le_mul_of_nonneg_right (by exact_mod_cast this) spacing_pos.le

theorem magnitude_nonneg (positive : 0 ≤ x) : 0 ≤ magnitude p x := by
  simpa using le_magnitude (p := p) 0 (by simpa using positive)

theorem pow_mul_spacing (n : ℕ) :
    ((2 ^ n : ℤ) : ℚ) * spacing p x = 2 ^ (Int.log 2 x + 1 + n - p) := by
  rw [spacing]
  push_cast
  rw [← zpow_natCast, ← zpow_add₀ two_ne_zero]
  congr 1
  ring

theorem magnitude_mono (bits : 0 < p) (positive : 0 < x) (le : x ≤ y) :
    magnitude p x ≤ magnitude p y := by
  have logs := Int.log_mono_right positive le (b := 2)
  rcases logs.eq_or_lt with same | less
  · -- within one binade the spacing is the same
    have units : spacing p x = spacing p y := by rw [spacing, spacing, same]
    have scaled : x / spacing p y ≤ y / spacing p y :=
      div_le_div_of_nonneg_right le spacing_pos.le
    unfold magnitude
    rw [units]
    exact mul_le_mul_of_nonneg_right (by exact_mod_cast nearestEven_mono scaled) spacing_pos.le
  · -- a power of two lies between the two
    have upper : magnitude p x ≤ 2 ^ (Int.log 2 x + 1) := by
      have bound := (Int.lt_zpow_succ_log_self (b := 2) one_lt_two x).le
      have := magnitude_le (p := p) (x := x) (2 ^ p) (by
        rw [pow_mul_spacing]; simpa using bound)
      rw [pow_mul_spacing] at this
      simpa using this
    have lower : 2 ^ Int.log 2 y ≤ magnitude p y := by
      have bound := Int.zpow_log_le_self (b := 2) one_lt_two (positive.trans_le le)
      have exponent : Int.log 2 y + 1 + (p - 1 : ℕ) - p = Int.log 2 y := by omega
      have := le_magnitude (p := p) (x := y) (2 ^ (p - 1)) (by
        rw [pow_mul_spacing, exponent]; exact bound)
      rw [pow_mul_spacing, exponent] at this
      exact this
    calc magnitude p x ≤ 2 ^ (Int.log 2 x + 1) := upper
      _ ≤ 2 ^ Int.log 2 y := zpow_le_zpow_right₀ one_le_two (by omega)
      _ ≤ magnitude p y := lower

theorem magnitude_zero : magnitude p 0 = 0 := by
  simp [magnitude, nearestEven]

theorem rounded_mono (bits : 0 < p) (le : x ≤ y) :
    rounded p x ≤ rounded p y := by
  unfold rounded
  split
  · next negative =>
    have left := magnitude_nonneg (p := p) (neg_pos.mpr negative).le
    split
    · next below =>
      exact neg_le_neg (magnitude_mono bits (neg_pos.mpr below) (neg_le_neg le))
    · next above =>
      have right := magnitude_nonneg (p := p) (not_lt.mp above)
      linarith
  · next above =>
    rw [if_neg (not_lt.mpr ((not_lt.mp above).trans le))]
    rcases (not_lt.mp above).eq_or_lt with rfl | positive
    · rw [magnitude_zero]
      exact magnitude_nonneg le
    · exact magnitude_mono bits positive le

theorem rounded_natCast {n : ℕ} (small : n < 2 ^ p) : rounded p n = n := by
  rw [rounded, if_neg (by simp)]
  rcases n.eq_zero_or_pos with rfl | positive
  · simpa using magnitude_zero
  -- the spacing is a power of two that divides one
  have digits : Nat.log 2 n < p := (Nat.log_lt_iff_lt_pow one_lt_two positive.ne').mpr small
  have unit : (n : ℚ) = ((n * 2 ^ (p - 1 - Nat.log 2 n) : ℤ) : ℚ) * spacing p n := by
    push_cast
    rw [spacing, Int.log_natCast, mul_assoc, ← zpow_natCast, ← zpow_add₀ two_ne_zero]
    rw [show ((p - 1 - Nat.log 2 n : ℕ) : ℤ) + (Nat.log 2 n + 1 - p) = 0 by omega]
    simp
  apply le_antisymm
  · exact (magnitude_le _ unit.le).trans unit.ge
  · exact unit.le.trans (le_magnitude _ unit.ge)

/-- A positive integer of so many bits bounds the integers below it and what they are rounded to. -/
theorem rounded_lt_iff {w : ℕ} (n : ℤ) (positive : 0 < w) (small : w < 2 ^ p) :
    rounded p n < w ↔ n < w := by
  have bits : 0 < p := by
    cases p with
    | zero => omega
    | succ bits => omega
  constructor
  · intro below
    by_contra above
    have le : ((w : ℕ) : ℚ) ≤ n := by exact_mod_cast not_lt.mp above
    have := rounded_mono bits le
    rw [rounded_natCast small] at this
    linarith
  · intro below
    have le : (n : ℚ) ≤ ((w - 1 : ℕ) : ℚ) := by
      have : n ≤ ((w - 1 : ℕ) : ℤ) := by omega
      exact_mod_cast this
    have := rounded_mono bits le
    rw [rounded_natCast (by omega)] at this
    have last : ((w - 1 : ℕ) : ℚ) < w := by exact_mod_cast (by omega : w - 1 < w)
    linarith

end MarimoHub.Numbers
