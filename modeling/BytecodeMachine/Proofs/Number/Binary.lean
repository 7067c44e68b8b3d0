import BytecodeMachine.Number.Binary
import BytecodeMachine.Proofs.Number.Scaled

/-!
What binary patterns denote: every finite number but zero has one pattern, comparison is that of the
numbers denoted, and rounding keeps the numbers that the format has.
-/
namespace BytecodeMachine.BinaryFormat

variable {f h : BinaryFormat} {x y m n : ℕ} {s t : Bool} {e g : ℤ}

/-- A format with at least two bits for the exponent and for the significand. -/
class Proper (f : BinaryFormat) : Prop where
  precision_le : 2 ≤ f.precision
  width_le : f.precision + 2 ≤ f.width

instance : Proper half := ⟨by decide, by decide⟩
instance : Proper single := ⟨by decide, by decide⟩
instance : Proper double := ⟨by decide, by decide⟩

theorem twoTo_pos (n : ℕ) : 0 < twoTo n := Nat.pow_pos (by decide)

theorem twoTo_succ (n : ℕ) : twoTo (n + 1) = 2 * twoTo n := by
  rw [twoTo, Nat.pow_eq, Nat.pow_succ, mul_comm]
  rfl

theorem twoTo_add (k n : ℕ) : twoTo (k + n) = twoTo k * twoTo n := Nat.pow_add 2 k n

theorem leading_pos : 0 < f.leading := twoTo_pos _

section Layout

variable [Proper f]

theorem twoTo_precision : twoTo f.precision = 2 * f.leading := by
  have h := Proper.precision_le (f := f)
  rw [leading, ← twoTo_succ]
  congr 1
  omega

theorem twoTo_width : twoTo f.width = 2 * f.signBit := by
  have h := Proper.width_le (f := f)
  rw [signBit, ← twoTo_succ]
  congr 1
  omega

theorem signBit_eq : f.signBit = f.infinityBits + f.leading := by
  have hp := Proper.precision_le (f := f)
  have hw := Proper.width_le (f := f)
  have hsplit : f.signBit = twoTo f.exponentBits * f.leading := by
    rw [signBit, leading, exponentBits, ← twoTo_add]
    congr 1
    omega
  have hpos := twoTo_pos f.exponentBits
  rw [hsplit, infinityBits, ← Nat.succ_mul]
  congr 1
  omega

theorem infinityBits_lt : f.infinityBits < f.signBit := by
  have h := leading_pos (f := f)
  have hs := signBit_eq (f := f)
  omega

theorem four_le_twoTo_exponentBits : 4 ≤ twoTo f.exponentBits := by
  have hw := Proper.width_le (f := f)
  have hbits : 2 ≤ f.exponentBits := by
    unfold exponentBits
    omega
  exact Nat.pow_le_pow_right (show 0 < 2 by decide) hbits

theorem infinityBits_pos : 0 < f.infinityBits := by
  have hfour := four_le_twoTo_exponentBits (f := f)
  exact Nat.mul_pos (by omega) leading_pos

end Layout

section Sign

theorem signOf_withSign (hm : m < f.signBit) : f.signOf (f.withSign s m) = s := by
  cases s <;> simp [signOf, withSign]
  omega

theorem magnitude_withSign (hm : m < f.signBit) : f.magnitude (f.withSign s m) = m := by
  cases s <;> simp [magnitude, withSign, Nat.mod_eq_of_lt hm]

theorem withSign_lt [Proper f] (hm : m < f.signBit) : f.withSign s m < twoTo f.width := by
  rw [twoTo_width]
  cases s <;> simp [withSign] <;> omega

/-- A pattern is its sign and its magnitude. -/
theorem withSign_signOf_magnitude [Proper f] (hx : x < twoTo f.width) :
    f.withSign (f.signOf x) (f.magnitude x) = x := by
  rw [twoTo_width] at hx
  by_cases hle : f.signBit ≤ x
  · have hmod : x % f.signBit = x - f.signBit := by
      rw [Nat.mod_eq_sub_mod hle, Nat.mod_eq_of_lt (by omega)]
    simp only [withSign, signOf, magnitude, hle, decide_true, if_true, hmod]
    omega
  · simp [withSign, signOf, magnitude, hle, Nat.mod_eq_of_lt (not_le.1 hle)]

end Sign

/-- A significand with an exponent as a pattern gives them: all bits are used unless the exponent is
the least. -/
structure Normal (f : BinaryFormat) (m : ℕ) (e : ℤ) : Prop where
  low : f.minExponent ≤ e
  small : m < 2 * f.leading
  full : f.leading ≤ m ∨ e = f.minExponent

/-- The magnitude bits of a significand with an exponent. -/
def pack (f : BinaryFormat) (m : ℕ) (e : ℤ) : ℕ := (e - f.minExponent).toNat * f.leading + m

theorem unpack_eq_finite (hx : f.unpack x = .finite s m e) :
    s = f.signOf x ∧ f.Normal m e ∧ f.magnitude x = f.pack m e ∧ f.pack m e < f.infinityBits := by
  have hpos := leading_pos (f := f)
  unfold unpack at hx
  dsimp only at hx
  split at hx
  · cases hx
  · split at hx
    · cases hx
    · next hgt hne =>
      have hlt : f.magnitude x < f.infinityBits := by omega
      have hdiv := Nat.div_add_mod (f.magnitude x) f.leading
      have hmod := Nat.mod_lt (f.magnitude x) hpos
      generalize f.magnitude x / f.leading = q at hx hdiv
      generalize f.magnitude x % f.leading = r at hx hdiv hmod
      split at hx
      · next hzero =>
        cases hx
        rw [hzero, mul_zero, zero_add] at hdiv
        have hpack : f.magnitude x = f.pack (f.magnitude x) f.minExponent := by simp [pack]
        exact ⟨rfl, ⟨le_rfl, by omega, Or.inr rfl⟩, hpack, hpack ▸ hlt⟩
      · next hnz =>
        cases hx
        obtain ⟨p, rfl⟩ : ∃ p, q = p + 1 := ⟨q - 1, by omega⟩
        have hpack : f.magnitude x = f.pack (r + f.leading) (f.minExponent + (p + 1 : ℕ) - 1) := by
          have hexp : (f.minExponent + (p + 1 : ℕ) - 1 - f.minExponent).toNat = p := by omega
          rw [pack, hexp, ← hdiv, mul_comm, Nat.succ_mul]
          omega
        exact ⟨rfl, ⟨by omega, by omega, Or.inl (by omega)⟩, hpack, hpack ▸ hlt⟩

theorem unpack_of_pack (hn : f.Normal m e) (hmag : f.magnitude x = f.pack m e)
    (hlt : f.pack m e < f.infinityBits) : f.unpack x = .finite (f.signOf x) m e := by
  have hpos := leading_pos (f := f)
  have hlow := hn.low
  have hsmall := hn.small
  unfold unpack
  dsimp only
  rw [hmag, if_neg (by omega), if_neg (by omega)]
  rcases Nat.lt_or_ge m f.leading with hm | hm
  · have he : e = f.minExponent := hn.full.resolve_left (by omega)
    subst he
    simp [pack, Nat.div_eq_of_lt hm]
  · have hpack : f.pack m e = (m - f.leading) + ((e - f.minExponent).toNat + 1) * f.leading := by
      rw [pack, Nat.succ_mul]
      omega
    have hdiv : f.pack m e / f.leading = (e - f.minExponent).toNat + 1 := by
      rw [hpack, Nat.add_mul_div_right _ _ hpos, Nat.div_eq_of_lt (by omega), zero_add]
    have hmod : f.pack m e % f.leading = m - f.leading := by
      rw [hpack, Nat.add_mul_mod_self_right, Nat.mod_eq_of_lt (by omega)]
    rw [hdiv, hmod, if_neg (by omega)]
    congr 1 <;> omega

/-- Two ways to write one number other than zero within a format are the same. -/
theorem Normal.unique (hm : f.Normal m e) (hn : f.Normal n g) (hz : m ≠ 0)
    (heq : scaled 2 s m e = scaled 2 s n g) : m = n ∧ e = g := by
  -- A number with the larger exponent has all its bits, so the other one would have too many.
  have key : ∀ {m n : ℕ} {e g : ℤ}, f.Normal m e → f.Normal n g → n ≠ 0 →
      scaled 2 s m e = scaled 2 s n g → ¬ e < g := by
    intro m n e g hm hn hz heq hlt
    have hmul := eq_mul_pow_of_scaled_eq (by decide) hlt.le heq
    have htwo : 2 ≤ 2 ^ (g - e).toNat :=
      Nat.le_self_pow (by omega) 2
    have hfull : f.leading ≤ n := hn.full.resolve_right (by have := hm.low; omega)
    have hle : n * 2 ≤ n * 2 ^ (g - e).toNat := Nat.mul_le_mul_left n htwo
    have := hm.small
    omega
  have hnz : n ≠ 0 := by
    rintro rfl
    rw [scaled_zero] at heq
    exact hz ((scaled_eq_zero (by decide)).1 heq)
  have he : e = g := le_antisymm (not_lt.1 (key hn hm hz heq.symm)) (not_lt.1 (key hm hn hnz heq))
  subst he
  exact ⟨(scaled_inj (by decide)).1 heq, rfl⟩

/-- The number that a finite pattern denotes. -/
def value? (f : BinaryFormat) (x : ℕ) : Option ℚ :=
  match f.unpack x with
  | .finite s m e => some (scaled 2 s m e)
  | _ => none

theorem value?_eq_some {v : ℚ} (hx : f.value? x = some v) :
    ∃ s m e, f.unpack x = .finite s m e ∧ scaled 2 s m e = v := by
  unfold value? at hx
  split at hx
  · next s m e hu => exact ⟨s, m, e, hu, Option.some.inj hx⟩
  · cases hx

theorem value?_of_unpack (hx : f.unpack x = .finite s m e) :
    f.value? x = some (scaled 2 s m e) := by
  rw [value?, hx]

theorem unpack_eq_infinite (hx : f.unpack x = .infinite s) :
    s = f.signOf x ∧ f.magnitude x = f.infinityBits := by
  unfold unpack at hx
  dsimp only at hx
  split at hx
  · cases hx
  · split at hx
    · next heq => exact ⟨(Unpacked.infinite.inj hx).symm, heq⟩
    · split at hx <;> cases hx

section Patterns

variable [Proper f]

/-- A finite number other than zero has one pattern. -/
theorem eq_of_value?_eq {v : ℚ} (hx : x < twoTo f.width) (hy : y < twoTo f.width) (hv : v ≠ 0)
    (hxv : f.value? x = some v) (hyv : f.value? y = some v) : x = y := by
  obtain ⟨s, m, e, hux, rfl⟩ := value?_eq_some hxv
  obtain ⟨t, n, g, huy, heq⟩ := value?_eq_some hyv
  obtain ⟨hs, hm, hmagx, -⟩ := unpack_eq_finite hux
  obtain ⟨ht, hn, hmagy, -⟩ := unpack_eq_finite huy
  have hz : m ≠ 0 := by
    rintro rfl
    exact hv scaled_zero
  have hst : s = t := sign_eq_of_scaled_eq (by decide) hz heq.symm
  subst hst
  obtain ⟨rfl, rfl⟩ := hm.unique hn hz heq.symm
  rw [← withSign_signOf_magnitude hx, ← withSign_signOf_magnitude hy, ← hs, ← ht, hmagx, hmagy]

/-- An infinity has one pattern. -/
theorem eq_of_unpack_infinite (hx : x < twoTo f.width) (hy : y < twoTo f.width)
    (hux : f.unpack x = .infinite s) (huy : f.unpack y = .infinite s) : x = y := by
  obtain ⟨hs, hmagx⟩ := unpack_eq_infinite hux
  obtain ⟨ht, hmagy⟩ := unpack_eq_infinite huy
  rw [← withSign_signOf_magnitude hx, ← withSign_signOf_magnitude hy, ← hs, ← ht, hmagx, hmagy]

end Patterns

section Comparison

theorem order_eq_cmp (a b : ℤ) : order a b = cmp a b := by
  unfold order cmp cmpUsing
  rfl

theorem order_swap (a b : ℤ) : (order a b).swap = order b a := by
  rw [order_eq_cmp, order_eq_cmp, cmp_swap]

theorem aligned_mul_zpow {low : ℤ} (hle : low ≤ e) :
    (aligned s m e low : ℚ) * 2 ^ low = scaled 2 s m e := by
  rw [← scaled_toNat (by decide) hle, scaled, aligned]
  have hpow : twoTo (e - low).toNat = 2 ^ (e - low).toNat := rfl
  rw [hpow]
  cases s <;> push_cast <;> simp

/-- Aligned significands stand in the order of the numbers. -/
theorem order_aligned (m n : ℕ) (e g : ℤ) :
    order (aligned s m e (min e g)) (aligned t n g (min e g))
      = cmp (scaled 2 s m e) (scaled 2 t n g) := by
  rw [order_eq_cmp, ← aligned_mul_zpow (min_le_left e g), ← aligned_mul_zpow (min_le_right e g),
    cmp_mul_pos_right (zpow_pos (by norm_num) _)]
  exact (Int.cast_strictMono.cmp_map_eq _ _).symm

theorem compare?_of_value {v w : ℚ} (hx : f.value? x = some v) (hy : f.value? y = some w) :
    f.compare? x y = some (cmp v w) := by
  obtain ⟨s, m, e, hux, rfl⟩ := value?_eq_some hx
  obtain ⟨t, n, g, huy, rfl⟩ := value?_eq_some hy
  rw [compare?, hux, huy]
  exact congrArg some (order_aligned m n e g)

/-- Patterns compare equal where they denote one number or one infinity. -/
theorem compare?_eq_some_eq (hc : f.compare? x y = some .eq) :
    (∃ v, f.value? x = some v ∧ f.value? y = some v) ∨
      ∃ s, f.unpack x = .infinite s ∧ f.unpack y = .infinite s := by
  have hcompare := hc
  rw [compare?] at hc
  cases hx : f.unpack x with
  | nan => rw [hx] at hc; cases hc
  | infinite s =>
    cases hy : f.unpack y with
    | nan => rw [hx, hy] at hc; cases hc
    | infinite t =>
      rw [hx, hy] at hc
      cases s <;> cases t <;> first | exact Or.inr ⟨_, rfl, rfl⟩ | cases hc
    | finite t n g => rw [hx, hy] at hc; cases s <;> cases hc
  | finite s m e =>
    cases hy : f.unpack y with
    | nan => rw [hx, hy] at hc; cases hc
    | infinite t => rw [hx, hy] at hc; cases t <;> cases hc
    | finite t n g =>
      have hvx := value?_of_unpack hx
      have hvy := value?_of_unpack hy
      rw [compare?_of_value hvx hvy] at hcompare
      have heq : scaled 2 s m e = scaled 2 t n g := (cmp_eq_eq_iff _ _).1 (Option.some.inj hcompare)
      exact Or.inl ⟨_, hvx, heq ▸ hvy⟩

/-- Turned around, numbers compare the opposite way. -/
theorem compare?_swap (f : BinaryFormat) (x y : ℕ) :
    (f.compare? x y).map Ordering.swap = f.compare? y x := by
  unfold compare?
  cases f.unpack x with
  | nan => cases f.unpack y <;> rfl
  | infinite s =>
    cases f.unpack y with
    | infinite t => cases s <;> cases t <;> rfl
    | nan => rfl
    | finite t n g => cases s <;> rfl
  | finite s m e =>
    cases f.unpack y with
    | nan => rfl
    | infinite t => cases t <;> rfl
    | finite t n g =>
      dsimp only
      rw [Option.map_some, order_swap, min_comm]

end Comparison

/-- A pattern denotes a whole number where it has no fraction, and then its integer part. -/
theorem value?_eq_intCast_iff (k : ℤ) :
    f.value? x = some (k : ℚ) ↔ f.isIntegral x = true ∧ f.truncate? x = some k := by
  unfold value? isIntegral truncate?
  cases f.unpack x with
  | nan => simp
  | infinite s => simp
  | finite s m e =>
    simp only [Option.some.injEq]
    by_cases he : 0 ≤ e
    · have hvalue := scaled_of_nonneg (b := 2) (s := s) (m := m) (by decide) he
      rw [hvalue, Int.cast_inj]
      simp [he, twoTo]
    · rw [scaled_eq_intCast_iff (by decide) (by omega)]
      simp only [he, decide_false, Bool.false_or, if_false, decide_eq_true_eq]
      exact and_congr_right fun _ => eq_comm

section Rounding

/-- A ratio that is a whole number rounds to it. -/
theorem roundRatio_mul {d : ℕ} (hd : 0 < d) (n : ℕ) : roundRatio (n * d) d = n := by
  unfold roundRatio
  dsimp only
  rw [Nat.mul_div_cancel _ hd, Nat.mul_mod_left]
  have hne : ¬ 0 = d := by omega
  simp [hne]

theorem scale_eq_mul {a d : ℕ} (hd : 0 < d) (ha : (a : ℚ) = n * (2 : ℚ) ^ e * d) :
    (scale a d e).1 = n * (scale a d e).2 ∧ 0 < (scale a d e).2 := by
  unfold scale
  split
  · next he =>
    refine ⟨?_, Nat.mul_pos hd (twoTo_pos _)⟩
    obtain ⟨k, rfl⟩ := Int.eq_ofNat_of_zero_le he
    have hcast : (a : ℚ) = ((n * (d * 2 ^ k) : ℕ) : ℚ) := by
      rw [ha]
      push_cast
      rw [zpow_natCast]
      ring
    exact_mod_cast hcast
  · next he =>
    refine ⟨?_, hd⟩
    obtain ⟨k, hk⟩ : ∃ k : ℕ, e = -k := ⟨(-e).toNat, by omega⟩
    subst hk
    have hcast : ((a * 2 ^ k : ℕ) : ℚ) = ((n * d : ℕ) : ℚ) := by
      have hne : (2 : ℚ) ^ k ≠ 0 := pow_ne_zero k two_ne_zero
      push_cast
      rw [ha, zpow_neg, zpow_natCast, mul_right_comm _ (d : ℚ), inv_mul_cancel_right₀ hne]
    have hnat : a * 2 ^ k = n * d := by exact_mod_cast hcast
    simpa [twoTo] using hnat

/-- The place of the first bit, counted from the exponent. -/
theorem log2_of_eq_mul_zpow {a : ℕ} (ha : a ≠ 0) (hn : n ≠ 0) (h : (a : ℚ) = n * (2 : ℚ) ^ e) :
    (a.log2 : ℤ) = n.log2 + e := by
  have htwo : (1 : ℚ) < 2 := by norm_num
  have hlow (k : ℕ) (hk : k ≠ 0) : (2 : ℚ) ^ (k.log2 : ℤ) ≤ k := by
    rw [zpow_natCast]
    exact_mod_cast Nat.log2_self_le hk
  have hhigh (k : ℕ) : (k : ℚ) < (2 : ℚ) ^ ((k.log2 : ℤ) + 1) := by
    have hk : (k : ℚ) < (2 : ℚ) ^ (k.log2 + 1) := by exact_mod_cast Nat.lt_log2_self (n := k)
    exact_mod_cast hk
  have hpos : (0 : ℚ) < 2 ^ e := zpow_pos (by norm_num) e
  have hupper : (a.log2 : ℤ) < n.log2 + e + 1 := by
    refine (zpow_lt_zpow_iff_right₀ htwo).1 ((hlow a ha).trans_lt ?_)
    calc (a : ℚ) = n * 2 ^ e := h
      _ < 2 ^ ((n.log2 : ℤ) + 1) * 2 ^ e := mul_lt_mul_of_pos_right (hhigh n) hpos
      _ = 2 ^ ((n.log2 : ℤ) + e + 1) := by rw [← zpow_add₀ (by norm_num)]; congr 1; ring
  have hlower : (n.log2 : ℤ) + e < a.log2 + 1 := by
    refine (zpow_lt_zpow_iff_right₀ htwo).1 (lt_of_le_of_lt ?_ (hhigh a))
    calc (2 : ℚ) ^ ((n.log2 : ℤ) + e) = 2 ^ (n.log2 : ℤ) * 2 ^ e := zpow_add₀ (by norm_num) _ _
      _ ≤ n * 2 ^ e := mul_le_mul_of_nonneg_right (hlow n hn) hpos.le
      _ = a := h.symm
  omega

variable [Proper f]

/-- Rounding keeps a number that the format has. -/
theorem ofRatio_of_normal {a d : ℕ} (hn : f.Normal n e) (hz : n ≠ 0)
    (ha : (a : ℚ) = n * (2 : ℚ) ^ e * 2 ^ d) :
    f.ofRatio a (twoTo d) = min f.infinityBits (f.pack n e) := by
  have hpos := leading_pos (f := f)
  have hprec := twoTo_precision (f := f)
  have hdpos := twoTo_pos d
  have hcast : ((twoTo d : ℕ) : ℚ) = (2 : ℚ) ^ d := by simp [twoTo]
  have haz : a ≠ 0 := by
    rintro rfl
    have hzero : (n : ℚ) * 2 ^ e * 2 ^ d ≠ 0 := by positivity
    exact hzero (by rw [← ha]; simp)
  have hlogd : (twoTo d).log2 = d := Nat.log2_two_pow
  have hloga : (a.log2 : ℤ) = n.log2 + (e + d) := by
    refine log2_of_eq_mul_zpow haz hz ?_
    rw [ha, zpow_add₀ (by norm_num), zpow_natCast, mul_assoc]
  have hlogn : n.log2 < f.precision := (Nat.log2_lt hz).2 (by
    have := hn.small
    rwa [← hprec] at this)
  -- The first guess is the exponent or one below it, and the quotient tells which.
  have hguess : max f.minExponent (n.log2 + e - f.precision) = e ∨
      max f.minExponent (n.log2 + e - f.precision) = e - 1 ∧ f.leading ≤ n := by
    rcases hn.full with hfull | hmin
    · have hlog : f.precision - 1 ≤ n.log2 := (Nat.le_log2 hz).2 hfull
      have hlow := hn.low
      omega
    · omega
  have hexp : (if twoTo f.precision ≤
        (scale a (twoTo d) (max f.minExponent (n.log2 + e - f.precision))).1 /
        (scale a (twoTo d) (max f.minExponent (n.log2 + e - f.precision))).2
      then max f.minExponent (n.log2 + e - f.precision) + 1
      else max f.minExponent (n.log2 + e - f.precision)) = e := by
    rcases hguess with heq | ⟨heq, hfull⟩
    · obtain ⟨hmul, hpos'⟩ := scale_eq_mul (a := a) (n := n) (e := e) hdpos (by rw [hcast]; exact ha)
      have hsmall := hn.small
      rw [heq, hmul, Nat.mul_div_cancel _ hpos', if_neg (by omega)]
    · have htwice : (a : ℚ) = (2 * n : ℕ) * (2 : ℚ) ^ (e - 1) * (twoTo d : ℕ) := by
        rw [hcast, ha, zpow_sub_one₀ two_ne_zero]
        push_cast
        ring
      obtain ⟨hmul, hpos'⟩ := scale_eq_mul hdpos htwice
      rw [heq, hmul, Nat.mul_div_cancel _ hpos', if_pos (by omega), sub_add_cancel]
  have hdiff : (a.log2 : ℤ) - (twoTo d).log2 = n.log2 + e := by rw [hloga, hlogd]; ring
  obtain ⟨hmul, hpos'⟩ := scale_eq_mul (a := a) (n := n) (e := e) hdpos (by rw [hcast]; exact ha)
  unfold ofRatio
  rw [if_neg haz]
  dsimp only
  rw [hdiff, hexp, hmul, roundRatio_mul hpos', pack]

theorem ofScaled_of_normal {k : ℕ} {l : ℤ} (hn : f.Normal n e) (hz : n ≠ 0)
    (hv : scaled 2 s k l = scaled 2 s n e) :
    f.ofScaled s k l = f.withSign s (min f.infinityBits (f.pack n e)) := by
  have hval : (k : ℚ) * 2 ^ l = n * 2 ^ e := by
    cases s <;> simpa [scaled] using hv
  unfold ofScaled
  congr 1
  split
  · next hl =>
    obtain ⟨j, rfl⟩ := Int.eq_ofNat_of_zero_le hl
    refine ofRatio_of_normal (d := 0) hn hz ?_
    rw [pow_zero, mul_one, ← hval]
    simp [twoTo]
  · next hl =>
    refine ofRatio_of_normal hn hz ?_
    rw [← hval, ← zpow_natCast (2 : ℚ) (-l).toNat, mul_assoc, ← zpow_add₀ two_ne_zero,
      Int.toNat_of_nonneg (by omega), add_neg_cancel, zpow_zero, mul_one]

end Rounding

section Formats

theorem ofScaled_zero (e : ℤ) : f.ofScaled s 0 e = f.withSign s 0 := by
  unfold ofScaled ofRatio
  simp

theorem ofRatio_le (a d : ℕ) : f.ofRatio a d ≤ f.infinityBits := by
  unfold ofRatio
  split
  · exact Nat.zero_le _
  · exact Nat.min_le_left _ _

theorem ofScaled_lt [Proper f] (s : Bool) (m : ℕ) (e : ℤ) : f.ofScaled s m e < twoTo f.width := by
  refine withSign_lt (lt_of_le_of_lt ?_ infinityBits_lt)
  split <;> exact ofRatio_le _ _

/-- An integer other than zero that the format has rounds to its pattern. -/
theorem ofInt_of_value? [Proper f] {k : ℤ} (hx : x < twoTo f.width) (hk : k ≠ 0)
    (hv : f.value? x = some (k : ℚ)) : f.ofInt k = x := by
  obtain ⟨s, m, e, hu, heq⟩ := value?_eq_some hv
  obtain ⟨hs, hn, hmag, hlt⟩ := unpack_eq_finite hu
  rw [intCast_eq_scaled 2 k] at heq
  have hz : m ≠ 0 := by
    rintro rfl
    rw [scaled_zero] at heq
    exact hk (Int.natAbs_eq_zero.1 ((scaled_eq_zero (by decide)).1 heq.symm))
  have hsign := sign_eq_of_scaled_eq (by decide) hz heq
  have hscaled : f.ofInt k = f.ofScaled (k < 0) k.natAbs 0 := by
    simp [ofInt, ofScaled, twoTo]
  rw [← hsign] at heq hscaled
  rw [hscaled, ofScaled_of_normal hn hz heq.symm, Nat.min_eq_right hlt.le, hs, ← hmag]
  exact withSign_signOf_magnitude hx
/-- The finite numbers go up to the exponent that the exponent bits leave. -/
theorem pack_lt_iff [Proper f] (hn : f.Normal m e) :
    f.pack m e < f.infinityBits ↔ e + 2 < f.minExponent + twoTo f.exponentBits := by
  have hfour := four_le_twoTo_exponentBits (f := f)
  have hsmall := hn.small
  obtain ⟨k, rfl⟩ : ∃ k : ℕ, e = f.minExponent + k :=
    ⟨(e - f.minExponent).toNat, by have := hn.low; omega⟩
  obtain ⟨c, hc⟩ : ∃ c, twoTo f.exponentBits = c + 1 := ⟨twoTo f.exponentBits - 1, by omega⟩
  have hpack : f.pack m (f.minExponent + k) = k * f.leading + m := by simp [pack]
  have hinf : f.infinityBits = c * f.leading := by rw [infinityBits, hc, Nat.add_sub_cancel]
  rw [hpack, hinf]
  -- A leading bit makes the exponent count; without one the number is below all others with it.
  rcases hn.full with hfull | hmin
  · constructor
    · intro hlt
      have hk : (k + 1) * f.leading < c * f.leading := by rw [Nat.succ_mul]; omega
      have := Nat.lt_of_mul_lt_mul_right hk
      omega
    · intro hlt
      have hk : (k + 2) * f.leading ≤ c * f.leading := Nat.mul_le_mul_right _ (by omega)
      rw [add_mul] at hk
      omega
  · obtain rfl : k = 0 := by omega
    have hthree : 3 * f.leading ≤ c * f.leading := Nat.mul_le_mul_right _ (by omega)
    omega

theorem unpack_convert_infinite [Proper h] (hx : f.unpack x = .infinite s) :
    h.unpack (f.convert h x) = .infinite s := by
  have hinf := infinityBits_lt (f := h)
  rw [convert, hx]
  dsimp only
  rw [unpack, magnitude_withSign hinf, signOf_withSign hinf]
  simp

theorem unpack_eq_nan : f.unpack x = .nan ↔ f.infinityBits < f.magnitude x := by
  unfold unpack
  dsimp only
  split
  · next hlt => simp [hlt]
  · next hnlt =>
    split
    · simp [hnlt]
    · split <;> simp [hnlt]

theorem isNaN_iff : f.isNaN x = true ↔ f.unpack x = .nan := by
  rw [unpack_eq_nan, isNaN, decide_eq_true_iff]

/-- What is a number compares equal to itself. -/
theorem compare?_self (hx : f.isNaN x = false) : f.compare? x x = some .eq := by
  cases hu : f.unpack x with
  | nan =>
    rw [unpack_eq_nan] at hu
    simp [isNaN, hu] at hx
  | infinite s => simp [compare?, hu]
  | finite s m e =>
    rw [compare?_of_value (value?_of_unpack hu) (value?_of_unpack hu), cmp_self_eq_eq]

/-- A quiet pattern keeps all bits above the payload, which is not zero. -/
theorem infinityBits_lt_quiet [Proper f] {k : ℕ} (hk : k < f.leading) :
    f.infinityBits < f.magnitude (f.quiet (f.withSign s (f.infinityBits + k))) := by
  have hp := Proper.precision_le (f := f)
  have hlt : f.infinityBits + k < f.signBit := by
    rw [signBit_eq]
    omega
  have hquiet : f.quietBit < f.leading := Nat.pow_lt_pow_right (by decide) (by omega)
  have hmag : f.magnitude (f.quiet (f.withSign s (f.infinityBits + k)))
      = (f.infinityBits + k) ||| f.quietBit := by
    have hbit : f.quietBit < f.signBit := by
      rw [signBit_eq]
      omega
    have hor := Nat.or_mod_two_pow (a := f.withSign s (f.infinityBits + k)) (b := f.quietBit)
      (n := f.width - 1)
    calc f.magnitude (f.quiet (f.withSign s (f.infinityBits + k)))
        = f.magnitude (f.withSign s (f.infinityBits + k)) ||| f.quietBit % f.signBit := hor
      _ = (f.infinityBits + k) ||| f.quietBit := by
        rw [magnitude_withSign hlt, Nat.mod_eq_of_lt hbit]
  -- The exponent bits stay all set, and what is below them has at least the quiet bit.
  have hdiv : ((f.infinityBits + k) ||| f.quietBit) / f.leading = twoTo f.exponentBits - 1 := by
    have hor := Nat.or_div_two_pow (a := f.infinityBits + k) (b := f.quietBit)
      (n := f.precision - 1)
    calc ((f.infinityBits + k) ||| f.quietBit) / f.leading
        = (f.infinityBits + k) / f.leading ||| f.quietBit / f.leading := hor
      _ = twoTo f.exponentBits - 1 := by
        rw [Nat.div_eq_of_lt hquiet, Nat.or_zero, infinityBits, add_comm,
          Nat.add_mul_div_right _ _ leading_pos, Nat.div_eq_of_lt hk, zero_add]
  have hmod : f.quietBit ≤ ((f.infinityBits + k) ||| f.quietBit) % f.leading := by
    have hor := Nat.or_mod_two_pow (a := f.infinityBits + k) (b := f.quietBit)
      (n := f.precision - 1)
    calc f.quietBit = f.quietBit % f.leading := (Nat.mod_eq_of_lt hquiet).symm
      _ ≤ (f.infinityBits + k) % f.leading ||| f.quietBit % f.leading := Nat.right_le_or
      _ = ((f.infinityBits + k) ||| f.quietBit) % f.leading := hor.symm
  have hpos : 0 < f.quietBit := twoTo_pos _
  have hsplit := Nat.div_add_mod ((f.infinityBits + k) ||| f.quietBit) f.leading
  rw [hdiv, mul_comm, ← infinityBits] at hsplit
  rw [hmag]
  omega

/-- The payload of a not-a-number, cut or filled at its low end, fits the other format. -/
theorem payload_lt [Proper f] [Proper h] {k : ℕ} (hk : k < f.leading) :
    (if h.precision ≤ f.precision then k / twoTo (f.precision - h.precision)
      else k * twoTo (h.precision - f.precision)) < h.leading := by
  have hf := Proper.precision_le (f := f)
  have hh := Proper.precision_le (f := h)
  split
  · next hle =>
    have hlead : h.leading * twoTo (f.precision - h.precision) = f.leading := by
      rw [leading, leading, ← twoTo_add]
      congr 1
      omega
    rwa [Nat.div_lt_iff_lt_mul (twoTo_pos _), hlead]
  · next hgt =>
    have hlead : h.leading = f.leading * twoTo (h.precision - f.precision) := by
      rw [leading, leading, ← twoTo_add]
      congr 1
      omega
    rw [hlead]
    exact Nat.mul_lt_mul_of_pos_right hk (twoTo_pos _)

theorem unpack_convert_nan [Proper f] [Proper h] (hx : f.unpack x = .nan) :
    h.unpack (f.convert h x) = .nan := by
  rw [convert, hx, unpack_eq_nan]
  exact infinityBits_lt_quiet (payload_lt (Nat.mod_lt _ leading_pos))

/-- A conversion gives a pattern of the other format. -/
theorem convert_lt [Proper f] [Proper h] (x : ℕ) : f.convert h x < twoTo h.width := by
  have hsign := signBit_eq (f := h)
  have hp := Proper.precision_le (f := h)
  unfold convert
  dsimp only
  split
  · have hpayload := payload_lt (h := h) (Nat.mod_lt (f.magnitude x) (leading_pos (f := f)))
    have hquiet : h.quietBit < twoTo h.width :=
      Nat.pow_lt_pow_right (by decide) (by have := Proper.width_le (f := h); omega)
    exact Nat.or_lt_two_pow (withSign_lt (by omega)) hquiet
  · exact withSign_lt infinityBits_lt
  · exact ofScaled_lt _ _ _

/-- Every finite number of one format is a finite number of the other. -/
class Widens (f h : BinaryFormat) : Prop where
  precision_le : f.precision ≤ h.precision
  low : h.minExponent + h.precision ≤ f.minExponent + 1
  high : f.minExponent + twoTo f.exponentBits ≤ h.minExponent + twoTo h.exponentBits

instance : Widens half double := ⟨by decide, by decide, by decide⟩
instance : Widens single double := ⟨by decide, by decide, by decide⟩

variable [Proper f] [Proper h] [Widens f h]

/-- A number of the narrower format with the bits that the wider one gives it. -/
theorem exists_normal_of_widens (hn : f.Normal m e) (hz : m ≠ 0)
    (hlt : f.pack m e < f.infinityBits) :
    ∃ n g, h.Normal n g ∧ n ≠ 0 ∧ h.pack n g < h.infinityBits ∧
      ∀ s, scaled 2 s m e = scaled 2 s n g := by
  have hlog : m.log2 < f.precision := (Nat.log2_lt hz).2 (by
    have := hn.small
    rwa [← twoTo_precision] at this)
  have hprec := Widens.precision_le (f := f) (h := h)
  have hlow := Widens.low (f := f) (h := h)
  have hhigh := Widens.high (f := f) (h := h)
  have hmin := hn.low
  -- The significand is moved up until it fills the wider format, and the exponent down with it.
  obtain ⟨k, hk⟩ : ∃ k, m.log2 + k + 1 = h.precision := ⟨h.precision - 1 - m.log2, by omega⟩
  have hlead : h.leading = 2 ^ m.log2 * 2 ^ k := by
    rw [leading, ← pow_add, ← hk]
    rfl
  have hnormal : h.Normal (m * 2 ^ k) (e - k) := by
    refine ⟨by omega, ?_, Or.inl ?_⟩
    · have hlt := Nat.mul_lt_mul_of_pos_right (Nat.lt_log2_self (n := m)) (Nat.two_pow_pos k)
      rw [hlead]
      rw [Nat.pow_succ] at hlt
      linarith
    · rw [hlead]
      exact Nat.mul_le_mul_right _ (Nat.log2_self_le hz)
  refine ⟨m * 2 ^ k, e - k, hnormal, Nat.mul_ne_zero hz (Nat.two_pow_pos k).ne', ?_, fun s => ?_⟩
  · rw [pack_lt_iff hnormal]
    have := (pack_lt_iff hn).1 hlt
    omega
  · rw [scaled_mul_pow (by decide), sub_add_cancel]

/-- Widening keeps a finite number. -/
theorem unpack_convert_finite (hx : f.unpack x = .finite s m e) :
    ∃ n g, h.unpack (f.convert h x) = .finite s n g ∧ scaled 2 s m e = scaled 2 s n g := by
  have hinf := infinityBits_lt (f := h)
  have hconvert : f.convert h x = h.ofScaled s m e := by
    simp only [convert, hx]
  obtain ⟨-, hn, -, hlt⟩ := unpack_eq_finite hx
  by_cases hz : m = 0
  · subst hz
    have hnormal : h.Normal 0 h.minExponent :=
      ⟨le_rfl, by have := leading_pos (f := h); omega, Or.inr rfl⟩
    have hpack : h.pack 0 h.minExponent = 0 := by simp [pack]
    have hsign : 0 < h.signBit := by omega
    have hunpack := unpack_of_pack (x := h.withSign s 0) hnormal
      (by rw [magnitude_withSign hsign, hpack]) (by rw [hpack]; exact infinityBits_pos)
    rw [signOf_withSign hsign] at hunpack
    rw [hconvert, ofScaled_zero]
    exact ⟨0, _, hunpack, by simp⟩
  · obtain ⟨n, g, hnormal, hnz, hpack, hv⟩ := exists_normal_of_widens (h := h) hn hz hlt
    have hunpack := unpack_of_pack (x := h.withSign s (h.pack n g)) hnormal
      (magnitude_withSign (by omega)) hpack
    rw [signOf_withSign (by omega)] at hunpack
    rw [hconvert, ofScaled_of_normal hnormal hnz (hv s), Nat.min_eq_right hpack.le]
    exact ⟨n, g, hunpack, hv s⟩

/-- Narrowing takes a widened number back. -/
theorem convert_convert (hx : x < twoTo f.width) (hn : f.unpack x ≠ .nan) :
    h.convert f (f.convert h x) = x := by
  cases hu : f.unpack x with
  | nan => exact absurd hu hn
  | infinite s =>
    obtain ⟨hs, hmag⟩ := unpack_eq_infinite hu
    have hconvert := unpack_convert_infinite (h := h) hu
    rw [convert, hconvert, hs, ← hmag]
    exact withSign_signOf_magnitude hx
  | finite s m e =>
    obtain ⟨n, g, hunpack, hv⟩ := unpack_convert_finite (h := h) hu
    obtain ⟨hs, hnormal, hmag, hlt⟩ := unpack_eq_finite hu
    have hconvert : h.convert f (f.convert h x) = f.ofScaled s n g := by
      rw [convert, hunpack]
    rw [hconvert]
    -- Both zeros have the value zero, so the sign must be followed apart from it.
    by_cases hz : m = 0
    · subst hz
      rw [scaled_zero] at hv
      obtain rfl : n = 0 := (scaled_eq_zero (by decide)).1 hv.symm
      have hmin : e = f.minExponent := hnormal.full.resolve_left (by
        have := leading_pos (f := f)
        omega)
      have hzero : f.magnitude x = 0 := by rw [hmag, hmin]; simp [pack]
      rw [ofScaled_zero, hs, ← hzero]
      exact withSign_signOf_magnitude hx
    · rw [ofScaled_of_normal hnormal hz hv.symm, Nat.min_eq_right hlt.le, hs, ← hmag]
      exact withSign_signOf_magnitude hx

end Formats

end BytecodeMachine.BinaryFormat
