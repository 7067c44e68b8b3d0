import Mathlib.Algebra.Order.Field.Power
import Mathlib.Algebra.Order.Ring.Rat
import Mathlib.Order.Compare
import Mathlib.Tactic.Linarith
import Mathlib.Tactic.Positivity
import Mathlib.Tactic.Ring

/-!
The rational numbers that are a signed whole number times a power of a base, as binary and decimal
numbers are.
-/
namespace BytecodeMachine

variable {b m n : ℕ} {s t : Bool} {e g : ℤ}

/-- The rational number `± m * b ^ e`. -/
def scaled (b : ℕ) (neg : Bool) (m : ℕ) (e : ℤ) : ℚ :=
  (if neg then -(m : ℚ) else m) * (b : ℚ) ^ e

theorem scaled_true : scaled b true m e = -scaled b false m e := by
  simp [scaled]

theorem zpow_pos_of_base (hb : 0 < b) (e : ℤ) : (0 : ℚ) < (b : ℚ) ^ e :=
  zpow_pos (by exact_mod_cast hb) e

@[simp] theorem scaled_zero : scaled b s 0 e = 0 := by
  cases s <;> simp [scaled]

theorem scaled_inj (hb : 0 < b) : scaled b s m e = scaled b s n e ↔ m = n := by
  have h := (zpow_pos_of_base hb e).ne'
  cases s <;> simp [scaled, h]

theorem scaled_eq_zero (hb : 0 < b) : scaled b s m e = 0 ↔ m = 0 := by
  have h := scaled_inj (s := s) (m := m) (n := 0) (e := e) hb
  rwa [scaled_zero] at h

theorem scaled_nonneg (hb : 0 < b) : 0 ≤ scaled b false m e :=
  mul_nonneg (Nat.cast_nonneg m) (zpow_pos_of_base hb e).le

theorem scaled_pos (hb : 0 < b) (hm : m ≠ 0) : 0 < scaled b false m e :=
  lt_of_le_of_ne (scaled_nonneg hb) fun h => hm ((scaled_eq_zero hb).1 h.symm)

/-- A power of the base may stand with the whole number or in the exponent. -/
theorem scaled_mul_pow (hb : 0 < b) (k : ℕ) :
    scaled b s (m * b ^ k) e = scaled b s m (e + k) := by
  have hne : (b : ℚ) ≠ 0 := by exact_mod_cast hb.ne'
  have h : (b : ℚ) ^ (e + k) = (b : ℚ) ^ k * (b : ℚ) ^ e := by
    rw [zpow_add₀ hne, zpow_natCast, mul_comm]
  cases s <;> simp only [scaled, h] <;> push_cast <;> ring_nf

theorem scaled_toNat (hb : 0 < b) (h : e ≤ g) :
    scaled b s (m * b ^ (g - e).toNat) e = scaled b s m g := by
  rw [scaled_mul_pow hb, Int.toNat_of_nonneg (by omega), add_sub_cancel]

/-- Equal numbers other than zero have one sign. -/
theorem sign_eq_of_scaled_eq (hb : 0 < b) (hm : m ≠ 0)
    (h : scaled b s m e = scaled b t n g) : s = t := by
  have hpos : 0 < scaled b false m e := scaled_pos hb hm
  have hnonneg : 0 ≤ scaled b false n g := scaled_nonneg hb
  cases s with
  | false =>
    cases t with
    | false => rfl
    | true => rw [scaled_true] at h; linarith
  | true =>
    cases t with
    | false => rw [scaled_true] at h; linarith
    | true => rfl

/-- Of two equal numbers the one with the smaller exponent has the other's whole number and the
power of the base between them. -/
theorem eq_mul_pow_of_scaled_eq (hb : 0 < b) (hle : e ≤ g)
    (h : scaled b s m e = scaled b s n g) : m = n * b ^ (g - e).toNat := by
  rw [← scaled_toNat hb hle] at h
  exact (scaled_inj hb).1 h

theorem scaled_exponent_zero :
    scaled b s m 0 = ((if s then -(m : ℤ) else m : ℤ) : ℚ) := by
  cases s <;> simp [scaled]

theorem scaled_of_nonneg (hb : 0 < b) (h : 0 ≤ e) :
    scaled b s m e = ((if s then -((m * b ^ e.toNat : ℕ) : ℤ) else (m * b ^ e.toNat : ℕ) : ℤ) : ℚ) := by
  rw [← scaled_exponent_zero (b := b), ← scaled_toNat hb h, sub_zero]

theorem intCast_eq_scaled (b : ℕ) (k : ℤ) : (k : ℚ) = scaled b (k < 0) k.natAbs 0 := by
  rw [scaled_exponent_zero]
  congr 1
  by_cases h : k < 0
  · simp only [h, decide_true, if_true]
    omega
  · simp only [h, decide_false, Bool.false_eq_true, if_false]
    omega

/-- Up to the exponent zero a number is whole where the power of the base divides. -/
theorem scaled_eq_intCast_iff (hb : 0 < b) (h : e ≤ 0) (k : ℤ) :
    scaled b s m e = k ↔ m % b ^ (-e).toNat = 0 ∧
      k = (if s then -((m / b ^ (-e).toNat : ℕ) : ℤ) else (m / b ^ (-e).toNat : ℕ)) := by
  set p := b ^ (-e).toNat with hp
  have hppos : 0 < p := Nat.pow_pos hb
  constructor
  · intro hk
    by_cases hm : m = 0
    · subst hm
      have : k = 0 := by exact_mod_cast (scaled_zero.symm.trans hk).symm
      simp [this]
    · rw [intCast_eq_scaled b k] at hk
      have hs := sign_eq_of_scaled_eq hb hm hk
      subst hs
      have hmul := eq_mul_pow_of_scaled_eq hb h hk
      rw [zero_sub, ← hp] at hmul
      rw [hmul, Nat.mul_mod_left, Nat.mul_div_cancel _ hppos]
      refine ⟨rfl, ?_⟩
      by_cases hneg : k < 0
      · simp only [hneg, decide_true, if_true]
        omega
      · simp only [hneg, decide_false, Bool.false_eq_true, if_false]
        omega
  · rintro ⟨hmod, rfl⟩
    rw [← scaled_exponent_zero (b := b), ← scaled_toNat hb h, zero_sub, ← hp,
      Nat.div_mul_cancel (Nat.dvd_of_mod_eq_zero hmod)]

end BytecodeMachine
