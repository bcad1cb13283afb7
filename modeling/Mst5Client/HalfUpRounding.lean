import Mathlib.Algebra.Order.Floor.Semifield
import Mathlib.Analysis.Real.Sqrt
import Mathlib.Tactic.Ring

set_option autoImplicit false

/-!
# Rounding to the nearest whole number

Halves go up.
-/
namespace Mst5Client.HalfUpRounding

section Rounding
variable {R : Type*} [Field R] [LinearOrder R] [IsStrictOrderedRing R] [FloorSemiring R] {x : R}

def roundHalfUp (x : R) : ℕ := ⌊x + 1 / 2⌋₊

theorem roundHalfUp_mono : Monotone (roundHalfUp : R → ℕ) := by
  intro x y h
  exact Nat.floor_mono (add_le_add_left h (1 / 2))

theorem roundHalfUp_min (x y : R) : roundHalfUp (min x y) = min (roundHalfUp x) (roundHalfUp y) :=
  roundHalfUp_mono.map_min

theorem roundHalfUp_eq (h : 0 ≤ x) : roundHalfUp x = (⌊2 * x⌋₊ + 1) / 2 := by
  have hhalf : x + 1 / 2 = (2 * x + 1) / (2 : ℕ) := by
    rw [Nat.cast_ofNat]
    ring
  rw [roundHalfUp, hhalf, Nat.floor_div_natCast, Nat.floor_add_one (mul_nonneg zero_le_two h)]

theorem roundHalfUp_natCast (n : ℕ) : roundHalfUp (n : R) = n := by
  have hdouble : 2 * (n : R) = ((2 * n : ℕ) : R) := by rw [Nat.cast_mul, Nat.cast_ofNat]
  rw [roundHalfUp_eq n.cast_nonneg, hdouble, Nat.floor_natCast]
  omega

theorem roundHalfUp_div (m n : ℕ) : roundHalfUp ((m : R) / n) = (2 * m / n + 1) / 2 := by
  have hdouble : 2 * ((m : R) / n) = ((2 * m : ℕ) : R) / n := by
    rw [Nat.cast_mul, Nat.cast_ofNat, mul_div_assoc]
  rw [roundHalfUp_eq (div_nonneg m.cast_nonneg n.cast_nonneg), hdouble, Nat.floor_div_eq_div]

end Rounding

theorem floor_sqrt {y : ℝ} (h : 0 ≤ y) : ⌊√y⌋₊ = Nat.sqrt ⌊y⌋₊ := by
  refine eq_of_forall_le_iff fun k => ?_
  rw [Nat.le_floor_iff (Real.sqrt_nonneg y), Real.le_sqrt k.cast_nonneg h, Nat.le_sqrt',
    Nat.le_floor_iff h, Nat.cast_pow]

theorem roundHalfUp_sqrt_div (m n : ℕ) :
    roundHalfUp √((m : ℝ) / n) = (Nat.sqrt (4 * m / n) + 1) / 2 := by
  have hdouble : 2 * √((m : ℝ) / n) = √(((4 * m : ℕ) : ℝ) / n) := by
    have htwo : (2 : ℝ) = √4 := by rw [show (4 : ℝ) = 2 ^ 2 by norm_num, Real.sqrt_sq zero_le_two]
    rw [Nat.cast_mul, mul_div_assoc, Real.sqrt_mul (Nat.cast_nonneg 4), htwo]
    rfl
  rw [roundHalfUp_eq (Real.sqrt_nonneg _), hdouble,
    floor_sqrt (div_nonneg (Nat.cast_nonneg _) n.cast_nonneg), Nat.floor_div_eq_div]

variable {m n a : ℕ}

theorem half_le_iff : (m + 1) / 2 ≤ a ↔ m < 2 * a + 1 := by omega

theorem rounded_div_le_iff (hn : 0 < n) : (2 * m / n + 1) / 2 ≤ a ↔ 2 * m < (2 * a + 1) * n := by
  rw [half_le_iff, Nat.div_lt_iff_lt_mul hn]

theorem rounded_sqrt_le_iff (hn : 0 < n) :
    (Nat.sqrt (4 * m / n) + 1) / 2 ≤ a ↔ 4 * m < (2 * a + 1) ^ 2 * n := by
  rw [half_le_iff, Nat.sqrt_lt', Nat.div_lt_iff_lt_mul hn]

end Mst5Client.HalfUpRounding
