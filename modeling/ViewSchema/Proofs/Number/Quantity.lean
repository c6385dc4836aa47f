import Mathlib.Algebra.Order.Field.Power
import Mathlib.Algebra.Order.Field.Rat
import Mathlib.Tactic.Linarith
import Mathlib.Tactic.Positivity
import ViewSchema.Number.Double

/-!
The quantities that doubles stand for: an infinity of either sign or a rational number. Doubles
have the same value when they stand for the same quantity, whatever their mantissas and exponents.
Not-a-number stands for its origin, if it has one.
-/

namespace ViewSchema.Double

/-- What a double can stand for. -/
inductive Quantity where
  | unknown (origin : Nat)
  | infinite (negative : Bool)
  | exact (value : ℚ)

/-- `mantissa * 2 ^ exponent` as a rational number. -/
def magnitude (mantissa : Nat) (exponent : Int) : ℚ := mantissa * 2 ^ exponent

def quantity? : Double → Option Quantity
  | .nan origin => origin.map .unknown
  | .infinite negative => some (.infinite negative)
  | .finite negative m e => some (.exact (if negative then -magnitude m e else magnitude m e))

theorem magnitude_nonneg (m : Nat) (e : Int) : 0 ≤ magnitude m e := by
  unfold magnitude
  positivity

theorem magnitude_eq_zero {m : Nat} {e : Int} : magnitude m e = 0 ↔ m = 0 := by
  simp [magnitude, zpow_ne_zero]

/-- A magnitude read off at a smaller exponent. -/
theorem magnitude_scaled (m : Nat) {low e : Int} (h : low ≤ e) :
    magnitude (m * power 2 (e - low).toNat) low = magnitude m e := by
  have hgap : ((e - low).toNat : Int) + low = e := by omega
  have hpower : (2 : ℚ) ^ (e - low).toNat * 2 ^ low = 2 ^ e := by
    rw [← zpow_natCast, ← zpow_add₀ two_ne_zero, hgap]
  rw [magnitude, magnitude, power, Nat.pow_eq, Nat.cast_mul, Nat.cast_pow, Nat.cast_ofNat,
    mul_assoc, hpower]

/-- Mantissas at the smaller of two exponents tell whether the magnitudes are equal. -/
theorem magnitude_eq_iff (m n : Nat) (e f : Int) :
    m * power 2 (e - min e f).toNat = n * power 2 (f - min e f).toNat ↔
      magnitude m e = magnitude n f := by
  rw [← magnitude_scaled m (min_le_left e f), ← magnitude_scaled n (min_le_right e f)]
  unfold magnitude
  rw [mul_left_inj' (zpow_ne_zero _ two_ne_zero), Nat.cast_inj]

/-- Magnitudes of different signs are equal only when both are zero. -/
theorem magnitude_eq_neg_iff {m n : Nat} {e f : Int} :
    magnitude m e = -magnitude n f ↔ magnitude m e = magnitude n f ∧ m = 0 := by
  have hm := magnitude_nonneg m e
  have hn := magnitude_nonneg n f
  rw [← magnitude_eq_zero (m := m) (e := e)]
  constructor
  · intro heq
    exact ⟨by linarith, by linarith⟩
  · rintro ⟨heq, hzero⟩
    linarith

theorem sameValue_finite (a b : Bool) (m n : Nat) (e f : Int) :
    sameValue (.finite a m e) (.finite b n f) = true ↔
      quantity? (.finite a m e) = quantity? (.finite b n f) := by
  have hscaled : sameValue (.finite a m e) (.finite b n f) = true ↔
      magnitude m e = magnitude n f ∧ (a = b ∨ m = 0) := by
    rw [← magnitude_eq_iff]
    simp [sameValue]
  rw [hscaled]
  cases a <;> cases b <;>
    simp [quantity?, neg_eq_iff_eq_neg, magnitude_eq_neg_iff]

/-- Doubles have the same value when they stand for the same quantity. -/
theorem sameValue_iff (x y : Double) :
    x.sameValue y = true ↔ x.quantity?.isSome ∧ x.quantity? = y.quantity? := by
  cases x with
  | nan origin =>
    cases y with
    | nan other => cases origin <;> cases other <;> simp [sameValue, quantity?]
    | infinite _ | finite _ _ _ => cases origin <;> simp [sameValue, quantity?]
  | infinite a =>
    cases y with
    | nan other => cases other <;> simp [sameValue, quantity?]
    | infinite _ | finite _ _ _ => simp [sameValue, quantity?]
  | finite a m e =>
    cases y with
    | nan other => cases other <;> simp [sameValue, quantity?]
    | infinite _ => simp [sameValue, quantity?]
    | finite b n f => exact (sameValue_finite a b m n e f).trans (and_iff_right rfl).symm

end ViewSchema.Double
