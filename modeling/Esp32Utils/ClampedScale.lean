import Mathlib.Algebra.Order.Floor.Semiring
import Mathlib.Algebra.Order.Field.Basic
import Mathlib.Tactic.FieldSimp
import Mathlib.Tactic.GCongr
import Mathlib.Tactic.Linarith

/-! # A scale between two points

Where a value lies between two points, in parts of `top`, cut off at both ends and rounded. -/
namespace ClampedScale

variable {K : Type} [Field K] {a b p q x y : K} {top : ℕ}

def position (top : ℕ) (a b x : K) : K := top * (x - a) / (b - a)

theorem position_left : position top a b a = 0 := by
  rw [position, sub_self, mul_zero, zero_div]

theorem position_right (h : a ≠ b) : position top a b b = top :=
  mul_div_cancel_right₀ _ (sub_ne_zero.mpr h.symm)

variable [LinearOrder K]

def clamp (top : ℕ) (p : K) : K := max 0 (min top p)

theorem clamp_nonneg : 0 ≤ clamp top p := le_max_left 0 _

theorem clamp_mono (h : p ≤ q) : clamp top p ≤ clamp top q := by
  unfold clamp
  gcongr

theorem clamp_eq_self (h0 : 0 ≤ p) (h : p ≤ top) : clamp top p = p := by
  rw [clamp, min_eq_right h, max_eq_right h0]

variable [IsStrictOrderedRing K]

theorem position_mono (h : a < b) (hxy : x ≤ y) : position top a b x ≤ position top a b y := by
  have hspan : 0 < b - a := sub_pos.mpr h
  unfold position
  gcongr

theorem clamp_le : clamp top p ≤ top := max_le (Nat.cast_nonneg top) (min_le_left _ p)

variable [FloorSemiring K]

/-- To the nearest number, a half up. -/
def rounded (p : K) : ℕ := ⌊p + 1 / 2⌋₊

theorem rounded_mono (h : p ≤ q) : rounded p ≤ rounded q := by
  apply Nat.floor_mono
  linarith

theorem rounded_natCast (n : ℕ) : rounded (n : K) = n := by
  have hn : (0 : K) ≤ n := Nat.cast_nonneg n
  rw [rounded, Nat.floor_eq_iff (by linarith)]
  constructor
  · linarith
  · linarith

def reading (top : ℕ) (a b x : K) : ℕ := rounded (clamp top (position top a b x))

theorem reading_le : reading top a b x ≤ top := by
  have h := rounded_mono (@clamp_le K _ (position top a b x) top _ _)
  rwa [rounded_natCast] at h

theorem reading_mono (h : a < b) (hxy : x ≤ y) : reading top a b x ≤ reading top a b y := by
  apply rounded_mono
  apply clamp_mono
  exact position_mono h hxy

theorem reading_left : reading top a b a = 0 := by
  rw [reading, position_left, clamp_eq_self le_rfl (Nat.cast_nonneg top)]
  exact_mod_cast @rounded_natCast K _ _ _ _ 0

theorem reading_right (h : a ≠ b) : reading top a b b = top := by
  rw [reading, position_right h, clamp_eq_self (Nat.cast_nonneg top) le_rfl, rounded_natCast]

end ClampedScale
