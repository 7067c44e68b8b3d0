import BytecodeMachine.Proofs.Number.Decimal
import Mathlib.Data.Rat.Floor

/-!
Numbers cut off at the point. The integer part of a finite decimal denotes the integer next to it on
the side of zero.
-/
namespace BytecodeMachine

variable {b m : ℕ} {s : Bool} {e : ℤ}

/-- The integer next to a number on the side of zero. -/
def towardZero (q : ℚ) : ℤ := if 0 ≤ q then ⌊q⌋ else ⌈q⌉

@[simp] theorem towardZero_intCast (k : ℤ) : towardZero (k : ℚ) = k := by
  rw [towardZero, Int.floor_intCast, Int.ceil_intCast, ite_self]

theorem towardZero_of_nonneg {q : ℚ} (h : 0 ≤ q) : towardZero q = ⌊q⌋ := if_pos h

theorem towardZero_neg (q : ℚ) : towardZero (-q) = -towardZero q := by
  rcases lt_trichotomy q 0 with hneg | rfl | hpos
  · rw [towardZero, if_pos (by linarith), towardZero, if_neg (not_le.2 hneg), Int.floor_neg]
  · simp [towardZero]
  · rw [towardZero, if_neg (by linarith), towardZero_of_nonneg hpos.le, Int.ceil_neg]

/-- From the exponent zero down the power of the base divides the whole number. -/
theorem towardZero_scaled (hb : 0 < b) (he : e ≤ 0) : towardZero (scaled b s m e) =
    if s then -((m / b ^ (-e).toNat : ℕ) : ℤ) else (m / b ^ (-e).toNat : ℕ) := by
  have hquotient : scaled b false m e = (m : ℚ) / ((b ^ (-e).toNat : ℕ) : ℚ) := by
    have hexp : e = -((-e).toNat : ℤ) := by omega
    rw [scaled, if_neg Bool.false_ne_true, Nat.cast_pow, div_eq_mul_inv]
    conv_lhs => rw [hexp, zpow_neg, zpow_natCast]
  have hpos : towardZero (scaled b false m e) = ((m / b ^ (-e).toNat : ℕ) : ℤ) := by
    rw [towardZero_of_nonneg (scaled_nonneg hb), hquotient]
    exact Rat.floor_natCast_div_natCast m _
  cases s with
  | false => exact hpos
  | true =>
    rw [scaled_true, towardZero_neg, hpos]
    rfl

namespace Decimal

variable {x : Decimal} {v : ℚ} {c : ℕ} {n : Int64}

/-- The integer part denotes the number cut off at the point. -/
theorem value?_integerPart (hx : x.value? = some v) :
    x.integerPart.1.value? = some (towardZero v : ℚ) := by
  obtain ⟨s, c, e, rfl, rfl⟩ := value?_eq_some hx
  rcases lt_or_ge 0 e with he | he
  · rw [integerPart_of_pos he, scaled_ten_of_nonneg he.le, towardZero_intCast, value?,
      scaled_ten_of_nonneg he.le]
  · rw [integerPart_of_nonpos he, towardZero_scaled (by decide) he, value?, scaled_exponent_zero]
    rfl

/-- What is no number has the integer part of a zero. -/
theorem value?_integerPart_of_none (hx : x.value? = none) : x.integerPart.1.value? = some 0 := by
  have hzero (h : x.coeff = 0 ∧ x.exponent = 0) : x.integerPart.1 = finite x.negative 0 0 := by
    simp [integerPart, h]
  cases x with
  | finite s c e => cases hx
  | infinite s =>
    rw [hzero ⟨rfl, rfl⟩, value?, scaled_zero]
  | nan q s =>
    rw [hzero ⟨rfl, rfl⟩, value?, scaled_zero]

end Decimal

end BytecodeMachine
