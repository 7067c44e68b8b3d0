import BytecodeMachine.Number.Decimal
import BytecodeMachine.Proofs.Number.Scaled

/-!
What decimals denote: the order of finite ones is that of the numbers, the integer part is exact, and
without zeros at its end a number has one form.
-/
namespace BytecodeMachine.Decimal

variable {x y : Decimal} {s t : Bool} {c d : ℕ} {e g : ℤ} {v w : ℚ}

theorem tenTo_pos (n : ℕ) : 0 < tenTo n := Nat.pow_pos (by decide)

/-- The number that a finite decimal denotes. -/
def value? : Decimal → Option ℚ
  | finite s c e => some (scaled 10 s c e)
  | _ => none

theorem value?_eq_some (hx : x.value? = some v) :
    ∃ s c e, x = finite s c e ∧ scaled 10 s c e = v := by
  cases x with
  | finite s c e => exact ⟨s, c, e, rfl, Option.some.inj hx⟩
  | infinite s => cases hx
  | nan q s => cases hx

theorem value?_ofInt (k : ℤ) : (ofInt k).value? = some (k : ℚ) :=
  congrArg some (intCast_eq_scaled 10 k).symm

theorem digitCount_le_iff {k : ℕ} (hk : 0 < k) : digitCount c ≤ k ↔ c < 10 ^ k :=
  Nat.length_toDigits_le_iff (by decide) hk

theorem digitCount_pos (c : ℕ) : 0 < digitCount c := Nat.length_toDigits_pos

theorem lt_pow_digitCount (c : ℕ) : c < 10 ^ digitCount c :=
  (digitCount_le_iff (digitCount_pos c)).1 le_rfl

theorem pow_digitCount_le (hc : c ≠ 0) : 10 ^ (digitCount c - 1) ≤ c := by
  by_cases h : digitCount c = 1
  · rw [h, Nat.sub_self, pow_zero]
    omega
  · have hpos := digitCount_pos c
    have hlt := (digitCount_le_iff (c := c) (k := digitCount c - 1) (by omega)).not.1 (by omega)
    exact not_lt.1 hlt

section Order

theorem orderNat_eq_cmp (a b : ℕ) : orderNat a b = cmp a b := by
  unfold orderNat cmp cmpUsing
  rfl

/-- Whole numbers at one exponent stand in the order of the numbers. -/
theorem orderNat_eq_cmp_scaled (a b : ℕ) (e : ℤ) :
    orderNat a b = cmp (scaled 10 false a e) (scaled 10 false b e) := by
  have hscaled (m : ℕ) : scaled 10 false m e = (m : ℚ) * ((10 : ℕ) : ℚ) ^ e := rfl
  rw [hscaled, hscaled, orderNat_eq_cmp, cmp_mul_pos_right (zpow_pos_of_base (by decide) e)]
  exact (Nat.strictMono_cast.cmp_map_eq _ _).symm

/-- A number whose first digit stands lower is the smaller one. -/
theorem scaled_lt_of_digitCount (hd : d ≠ 0) (h : (digitCount c : ℤ) + e < digitCount d + g) :
    scaled 10 false c e < scaled 10 false d g := by
  have hten : (1 : ℚ) < 10 := by norm_num
  have hpos := digitCount_pos d
  have hc : (c : ℚ) < 10 ^ (digitCount c : ℤ) := by
    rw [zpow_natCast]
    exact_mod_cast lt_pow_digitCount c
  have hd : (10 : ℚ) ^ ((digitCount d : ℤ) - 1) ≤ d := by
    have hle : ((10 ^ (digitCount d - 1) : ℕ) : ℚ) ≤ d := by exact_mod_cast pow_digitCount_le hd
    rw [show (digitCount d : ℤ) - 1 = ((digitCount d - 1 : ℕ) : ℤ) by omega, zpow_natCast]
    exact_mod_cast hle
  simp only [scaled, Bool.false_eq_true, if_false]
  push_cast
  calc (c : ℚ) * 10 ^ e < 10 ^ (digitCount c : ℤ) * 10 ^ e :=
        mul_lt_mul_of_pos_right hc (by positivity)
    _ = 10 ^ ((digitCount c : ℤ) + e) := (zpow_add₀ (by norm_num) _ _).symm
    _ ≤ 10 ^ ((digitCount d : ℤ) - 1 + g) := zpow_le_zpow_right₀ hten.le (by omega)
    _ = 10 ^ ((digitCount d : ℤ) - 1) * 10 ^ g := zpow_add₀ (by norm_num) _ _
    _ ≤ d * 10 ^ g := mul_le_mul_of_nonneg_right hd (by positivity)

theorem orderMagnitude_eq_cmp (hc : c ≠ 0) (hd : d ≠ 0) :
    orderMagnitude c e d g = cmp (scaled 10 false c e) (scaled 10 false d g) := by
  unfold orderMagnitude
  dsimp only
  generalize horder : cmp (scaled 10 false c e) (scaled 10 false d g) = order
  split
  · next heq =>
    subst heq
    exact (orderNat_eq_cmp_scaled c d e).trans horder
  · split
    · next hlt => exact ((cmp_eq_lt_iff _ _).2 (scaled_lt_of_digitCount hd hlt)).symm.trans horder
    · split
      · next hlt => exact ((cmp_eq_gt_iff _ _).2 (scaled_lt_of_digitCount hc hlt)).symm.trans horder
      · split
        · next hlt =>
          rw [← horder, ← scaled_toNat (m := d) (by decide) hlt.le]
          exact orderNat_eq_cmp_scaled _ _ e
        · next hne _ _ hge =>
          rw [← horder, ← scaled_toNat (m := c) (by decide) (not_lt.1 hge)]
          exact orderNat_eq_cmp_scaled _ _ g

/-- The sign of a finite decimal with the case of its number. -/
theorem sign_cases (s : Bool) (c : ℕ) (e : ℤ) :
    ((finite s c e).sign = 0 ∧ scaled 10 s c e = 0) ∨
      (c ≠ 0 ∧ s = false ∧ (finite s c e).sign = 1 ∧ 0 < scaled 10 s c e) ∨
      (c ≠ 0 ∧ s = true ∧ (finite s c e).sign = -1 ∧ scaled 10 s c e < 0) := by
  by_cases hc : c = 0
  · subst hc
    exact Or.inl ⟨by simp [sign, isZero], scaled_zero⟩
  · have hpos := scaled_pos (b := 10) (e := e) (by decide) hc
    cases s with
    | false => exact Or.inr (Or.inl ⟨hc, rfl, by simp [sign, isZero, negative, hc], hpos⟩)
    | true =>
      refine Or.inr (Or.inr ⟨hc, rfl, by simp [sign, isZero, negative, hc], ?_⟩)
      rw [scaled_true]
      linarith

/-- Finite decimals stand in the order of their numbers. -/
theorem order_of_value (hx : x.value? = some v) (hy : y.value? = some w) : x.order y = cmp v w := by
  obtain ⟨s, c, e, rfl, rfl⟩ := value?_eq_some hx
  obtain ⟨t, d, g, rfl, rfl⟩ := value?_eq_some hy
  unfold order
  rcases sign_cases s c e with ⟨hs, hv⟩ | ⟨hc, rfl, hs, hv⟩ | ⟨hc, rfl, hs, hv⟩ <;>
    rcases sign_cases t d g with ⟨ht, hw⟩ | ⟨hd, rfl, ht, hw⟩ | ⟨hd, rfl, ht, hw⟩ <;>
    rw [hs, ht]
  case inl.inl =>
    rw [hv, hw, cmp_self_eq_eq]
    rfl
  case inr.inl.inr.inl =>
    rw [← orderMagnitude_eq_cmp hc hd]
    rfl
  case inr.inr.inr.inr =>
    have hneg := cmp_mul_neg_left (show (-1 : ℚ) < 0 by norm_num) (scaled 10 false c e)
      (scaled 10 false d g)
    rw [neg_one_mul, neg_one_mul] at hneg
    rw [scaled_true, scaled_true, hneg, ← cmp_swap, ← orderMagnitude_eq_cmp hc hd]
    simp [coeff, exponent]
  -- Where the signs differ they decide.
  all_goals first
    | (rw [if_pos (by decide)]
       exact ((cmp_eq_lt_iff _ _).2 (by linarith)).symm)
    | (rw [if_neg (by decide), if_pos (by decide)]
       exact ((cmp_eq_gt_iff _ _).2 (by linarith)).symm)

end Order

section Kinds

theorem orderMagnitude_zero_right (hc : c ≠ 0) : orderMagnitude c e 0 0 ≠ .eq := by
  have hgt (a : ℕ) (ha : a ≠ 0) : orderNat a 0 = .gt := by
    rw [orderNat_eq_cmp]
    exact (cmp_eq_gt_iff _ _).2 (Nat.pos_of_ne_zero ha)
  have hten (k : ℕ) : c * tenTo k ≠ 0 := Nat.mul_ne_zero hc (tenTo_pos k).ne'
  unfold orderMagnitude
  dsimp only
  split
  · rw [hgt c hc]; simp
  · split
    · simp
    · split
      · simp
      · split
        · rw [zero_mul, hgt c hc]; simp
        · rw [hgt _ (hten _)]; simp

theorem orderNat_swap (a b : ℕ) : (orderNat a b).swap = orderNat b a := by
  rw [orderNat_eq_cmp, orderNat_eq_cmp, cmp_swap]

theorem orderMagnitude_swap (c : ℕ) (e : ℤ) (d : ℕ) (g : ℤ) :
    (orderMagnitude c e d g).swap = orderMagnitude d g c e := by
  unfold orderMagnitude
  dsimp only
  split_ifs <;> first | omega | rfl | exact orderNat_swap _ _

/-- The order of two numbers of one sign by their size. -/
def orderSize : Decimal → Decimal → Ordering
  | infinite _, infinite _ => .eq
  | infinite _, _ => .gt
  | _, infinite _ => .lt
  | x, y => orderMagnitude x.coeff x.exponent y.coeff y.exponent

theorem order_eq_ite (x y : Decimal) : x.order y =
    if x.sign < y.sign then .lt
    else if y.sign < x.sign then .gt
    else if x.sign = 0 then .eq
    else if x.sign < 0 then (x.orderSize y).swap else x.orderSize y := by
  cases x <;> cases y <;> rfl

theorem orderSize_swap (x y : Decimal) : (x.orderSize y).swap = y.orderSize x := by
  cases x <;> cases y <;> first | rfl | exact orderMagnitude_swap _ _ _ _

/-- Turned around, decimals stand in the opposite order. -/
theorem order_swap (x y : Decimal) : (x.order y).swap = y.order x := by
  rw [order_eq_ite, order_eq_ite]
  rcases lt_trichotomy x.sign y.sign with hlt | heq | hgt
  · rw [if_pos hlt, if_neg (by omega), if_pos hlt]
    rfl
  · rw [heq, ← orderSize_swap x y]
    split_ifs <;> first | rfl | omega
  · rw [if_neg (by omega), if_pos hgt, if_pos hgt]
    rfl

theorem order_eq_eq_iff :
    x.order y = .eq ↔ x.sign = y.sign ∧ (x.sign = 0 ∨ x.orderSize y = .eq) := by
  rw [order_eq_ite]
  split_ifs with hlt hgt hz hneg
  · simp [hlt.ne]
  · simp [hgt.ne']
  · simp only [hz, true_or, and_true, true_iff]
    omega
  · have hswap : (x.orderSize y).swap = .eq ↔ x.orderSize y = .eq := by
      cases x.orderSize y <;> simp
    rw [hswap, or_iff_right hz, and_iff_right (by omega)]
  · rw [or_iff_right hz, and_iff_right (by omega)]

/-- A finite decimal is never equal to one that is no number. -/
theorem order_ne_eq_of_value?_none (hx : x.value? = some v) (hy : y.value? = none) :
    x.order y ≠ .eq := by
  obtain ⟨s, c, e, rfl, rfl⟩ := value?_eq_some hx
  intro heq
  obtain ⟨hsign, hsize⟩ := order_eq_eq_iff.1 heq
  -- What is no number has a sign, so the finite one it equals would have to be different from zero.
  have hnz : y.sign ≠ 0 := by
    cases y with
    | finite t d g => cases hy
    | infinite t => cases t <;> decide
    | nan q t => cases q <;> cases t <;> decide
  have hc : c ≠ 0 := by
    rintro rfl
    exact hnz (hsign.symm.trans (by simp [sign, isZero]))
  have hsize := hsize.resolve_left (hsign ▸ hnz)
  cases y with
  | finite t d g => cases hy
  | infinite t => cases hsize
  | nan q t => exact orderMagnitude_zero_right hc hsize

/-- Decimals compare equal where they denote one number or are no numbers both. -/
theorem value?_eq_of_order (h : x.order y = .eq) : x.value? = y.value? := by
  cases hx : x.value? with
  | none =>
    cases hy : y.value? with
    | none => rfl
    | some w =>
      have hswap := order_swap x y
      rw [h] at hswap
      exact absurd hswap.symm (order_ne_eq_of_value?_none hy hx)
  | some v =>
    cases hy : y.value? with
    | none => exact absurd h (order_ne_eq_of_value?_none hx hy)
    | some w =>
      rw [order_of_value hx hy] at h
      rw [(cmp_eq_eq_iff _ _).1 h]

end Kinds

section Integers

theorem scaled_ten_of_nonneg (he : 0 ≤ e) :
    scaled 10 s c e = (signed s (c * tenTo e.toNat) : ℤ) :=
  scaled_of_nonneg (by decide) he

/-- From the exponent zero down the point divides the coefficient. -/
theorem integerPart_of_nonpos (he : e ≤ 0) : integerPart (finite s c e) =
    (finite s (c / tenTo (-e).toNat) 0, decide (c % tenTo (-e).toNat ≠ 0)) := by
  have hunfold : integerPart (finite s c e) =
      if digitCount c < (-e).toNat then (finite s 0 0, decide (c ≠ 0))
      else (finite s (c / tenTo (-e).toNat) 0, decide (c % tenTo (-e).toNat ≠ 0)) :=
    if_neg (not_lt.2 he)
  rw [hunfold]
  split
  · next hlt =>
    have hsmall : c < tenTo (-e).toNat :=
      (lt_pow_digitCount c).trans_le (Nat.pow_le_pow_right (by decide) hlt.le)
    rw [Nat.div_eq_of_lt hsmall, Nat.mod_eq_of_lt hsmall]
  · rfl

theorem integerPart_of_pos (he : 0 < e) :
    integerPart (finite s c e) = (finite s c e, false) := by
  rw [integerPart, if_pos (by simpa [exponent] using he)]

/-- A whole number has an integer part with an exponent that is not negative, and no fraction; any
other finite number has a fraction. -/
theorem integerPart_cases (s : Bool) (c : ℕ) (e : ℤ) :
    (∃ d g, 0 ≤ g ∧ integerPart (finite s c e) = (finite s d g, false) ∧
        scaled 10 s c e = scaled 10 s d g) ∨
      ((integerPart (finite s c e)).2 = true ∧ ∀ k : ℤ, scaled 10 s c e ≠ k) := by
  rcases lt_or_ge 0 e with he | he
  · exact Or.inl ⟨c, e, he.le, integerPart_of_pos he, rfl⟩
  · rw [integerPart_of_nonpos he]
    have hwhole := scaled_eq_intCast_iff (b := 10) (s := s) (m := c) (by decide) he
    by_cases hmod : c % tenTo (-e).toNat = 0
    · refine Or.inl ⟨c / tenTo (-e).toNat, 0, le_rfl, by simp [hmod], ?_⟩
      rw [(hwhole _).2 ⟨hmod, rfl⟩, scaled_exponent_zero]
      rfl
    · exact Or.inr ⟨by simp [hmod], fun k hk => hmod ((hwhole k).1 hk).1⟩

/-- The integers of 64 bits are the decimals that denote them. -/
theorem toInt64?_eq_some_iff {n : Int64} : x.toInt64? = some n ↔ x.value? = some (n.toInt : ℚ) := by
  cases x with
  | infinite s => simp [toInt64?, value?]
  | nan q s => simp [toInt64?, value?]
  | finite s c e =>
    have hlow := Int64.le_toInt n
    have hhigh := Int64.toInt_lt n
    rcases integerPart_cases s c e with ⟨d, g, hg, hpart, hv⟩ | ⟨hfraction, hne⟩
    · obtain ⟨k, hk⟩ : ∃ k : ℤ, k = signed s (d * tenTo g.toNat) := ⟨_, rfl⟩
      have hvalue : (finite s d g).value? = some (k : ℚ) := by
        rw [value?, scaled_ten_of_nonneg hg, hk]
      have habove (l : ℤ) : (finite s d g).order (ofInt l) = .gt ↔ l < k := by
        rw [order_of_value hvalue (value?_ofInt l), cmp_eq_gt_iff, Int.cast_lt]
      have hbelow (l : ℤ) : (finite s d g).order (ofInt l) = .lt ↔ k < l := by
        rw [order_of_value hvalue (value?_ofInt l), cmp_eq_lt_iff, Int.cast_lt]
      have htwo : (twoTo 63 : ℤ) = 2 ^ 63 := rfl
      rw [toInt64?, hpart]
      simp only [Bool.false_eq_true, if_false, Bool.or_eq_true, decide_eq_true_eq, habove, hbelow,
        coeff, exponent, ← hk, htwo, value?, hv, scaled_ten_of_nonneg hg]
      have hcast : (k : ℚ) = (n.toInt : ℚ) ↔ k = n.toInt := Int.cast_inj
      -- Both bounds are tested by the order of decimals, which is that of the integers denoted.
      by_cases hrange : 2 ^ 63 - 1 < k ∨ k < -2 ^ 63
      · rw [if_pos hrange]
        simp only [reduceCtorEq, Option.some.injEq, hcast, false_iff]
        omega
      · rw [if_neg hrange]
        have hofInt : (Int64.ofInt k).toInt = k :=
          Int64.toInt_ofInt_of_le (by omega) (by omega)
        simp only [Option.some.injEq, hcast]
        exact ⟨fun h => by rw [← h, hofInt], fun h => by rw [h, Int64.ofInt_toInt]⟩
    · rw [toInt64?]
      simp only [hfraction, if_true, value?]
      simpa using hne n.toInt

end Integers

section Reduced

theorem dropZeros_spec (s : Bool) (n : ℕ) : ∀ (c : ℕ) (e : ℤ), c ≠ 0 → c < 10 ^ n →
    (dropZeros n c e).1 % 10 ≠ 0 ∧
      scaled 10 s (dropZeros n c e).1 (dropZeros n c e).2 = scaled 10 s c e := by
  induction n with
  | zero =>
    intro c e hc hlt
    rw [pow_zero] at hlt
    omega
  | succ n ih =>
    intro c e hc hlt
    rw [dropZeros]
    split
    · next hmod =>
      have hdiv : c = c / 10 * 10 ^ 1 := by omega
      obtain ⟨hlast, hvalue⟩ := ih (c / 10) (e + 1) (by omega) (by
        rw [Nat.pow_succ] at hlt
        omega)
      refine ⟨hlast, hvalue.trans ?_⟩
      rw [hdiv, scaled_mul_pow (by decide), ← hdiv]
      rfl
    · next hmod => exact ⟨hmod, rfl⟩

/-- Without zeros at the end a number has one coefficient and one exponent. -/
theorem eq_of_scaled_eq (hc : c % 10 ≠ 0) (hd : d % 10 ≠ 0)
    (h : scaled 10 s c e = scaled 10 s d g) : c = d ∧ e = g := by
  -- The smaller exponent would leave a zero at the end of its coefficient.
  have key : ∀ {c d : ℕ} {e g : ℤ}, c % 10 ≠ 0 → scaled 10 s c e = scaled 10 s d g → ¬ e < g := by
    intro c d e g hc heq hlt
    have hmul := eq_mul_pow_of_scaled_eq (by decide) hlt.le heq
    obtain ⟨k, hk⟩ : ∃ k, (g - e).toNat = k + 1 := ⟨(g - e).toNat - 1, by omega⟩
    rw [hk, Nat.pow_succ, ← mul_assoc] at hmul
    omega
  obtain rfl : e = g := le_antisymm (not_lt.1 (key hd h.symm)) (not_lt.1 (key hc h))
  exact ⟨(scaled_inj (by decide)).1 h, rfl⟩

/-- Decimals that denote one number are the same without zeros at the end. -/
theorem reduce_eq_of_value? (hx : x.value? = some v) (hy : y.value? = some v) :
    x.reduce = y.reduce := by
  obtain ⟨s, c, e, rfl, rfl⟩ := value?_eq_some hx
  obtain ⟨t, d, g, rfl, heq⟩ := value?_eq_some hy
  -- Zero is reduced apart from the others and keeps neither its exponent nor its sign.
  by_cases hc : c = 0
  · subst hc
    rw [scaled_zero] at heq
    obtain rfl : d = 0 := (scaled_eq_zero (by decide)).1 heq
    rfl
  · have hst : s = t := sign_eq_of_scaled_eq (by decide) hc heq.symm
    subst hst
    have hd : d ≠ 0 := by
      rintro rfl
      rw [scaled_zero] at heq
      exact hc ((scaled_eq_zero (by decide)).1 heq.symm)
    obtain ⟨hlast, hvalue⟩ := dropZeros_spec s (digitCount c) c e hc (lt_pow_digitCount c)
    obtain ⟨hlast', hvalue'⟩ := dropZeros_spec s (digitCount d) d g hd (lt_pow_digitCount d)
    obtain ⟨hcoeff, hexp⟩ := eq_of_scaled_eq hlast hlast' ((hvalue.trans heq.symm).trans hvalue'.symm)
    simp only [reduce, hc, hd, if_false, hcoeff, hexp]

/-- Without zeros at the end a decimal is the same number. -/
theorem scaled_reduce (hx : x.value? = some v) :
    scaled 10 x.reduce.negative x.reduce.coeff x.reduce.exponent = v := by
  obtain ⟨s, c, e, rfl, rfl⟩ := value?_eq_some hx
  by_cases hc : c = 0
  · subst hc
    simp [reduce, coeff]
  · obtain ⟨-, hvalue⟩ := dropZeros_spec s (digitCount c) c e hc (lt_pow_digitCount c)
    simpa only [reduce, hc, if_false, negative, coeff, exponent] using hvalue
end Reduced

end BytecodeMachine.Decimal
