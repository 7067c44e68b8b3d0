import BytecodeMachine.Proofs.Machine.Keys

/-!
Unequal values with one key. Whole numbers share a key with every number they are, whether or not the
comparison of their kinds rounds; a decimal that is no finite number has the key of zero; enum members
go by their two names in a row. No other values share a key and are unequal, so nothing but these is
overwritten or found under another key.
-/
namespace BytecodeMachine

open BinaryFormat (double single)

namespace Binary64

variable {x y : Binary64}

/-- Patterns with one key are of one number or one and the same. -/
theorem value?_eq_or_eq_of_key (h : DictKey.ofBinary64 x = DictKey.ofBinary64 y) :
    (∃ v, x.value? = some v ∧ y.value? = some v) ∨ x = y := by
  rcases DictKey.ofBinary64_cases x with hx | ⟨n, hx⟩
  · rcases DictKey.ofBinary64_cases y with hy | ⟨n, hy⟩
    · rw [hx, hy] at h
      exact Or.inr (DictKey.float.inj h)
    · rw [hx, hy] at h
      cases h
  · exact Or.inl ⟨n.toInt, (DictKey.ofBinary64_eq_int_iff.1 hx).1,
      (DictKey.ofBinary64_eq_int_iff.1 (h ▸ hx)).1⟩

theorem isNaN_of_value? {v : ℚ} (hx : x.value? = some v) : x.isNaN = false := by
  obtain ⟨s, m, e, hu, -⟩ := BinaryFormat.value?_eq_some hx
  rw [← Bool.not_eq_true, isNaN, BinaryFormat.isNaN_iff, hu]
  simp

theorem compare?_self (x : Binary64) : x.compare? x = if x.isNaN then none else some .eq := by
  cases hnan : x.isNaN with
  | false => exact BinaryFormat.compare?_self hnan
  | true =>
    rw [isNaN, BinaryFormat.isNaN_iff] at hnan
    rw [compare?, BinaryFormat.compare?, hnan]
    rfl

/-- Of two patterns with one key both are numbers that compare equal or neither is one. -/
theorem compare?_of_key (h : DictKey.ofBinary64 x = DictKey.ofBinary64 y) :
    x.compare? y = if x.isNaN then none else some .eq := by
  rcases value?_eq_or_eq_of_key h with ⟨v, hx, hy⟩ | rfl
  · rw [compare?, BinaryFormat.compare?_of_value hx hy, cmp_self_eq_eq, isNaN_of_value? hx]
    rfl
  · exact compare?_self x

/-- A whole number other than zero that the format has is converted to its pattern. -/
theorem ofInt_of_value? {n : ℤ} (hn : n ≠ 0) (hx : x.value? = some (n : ℚ)) : ofInt n = x := by
  have hpattern : BinaryFormat.double.ofInt n = x.pattern :=
    BinaryFormat.ofInt_of_value? x.pattern_lt hn hx
  rw [ofInt, hpattern]
  exact eq_of_pattern_eq (pattern_ofNatBits x.pattern_lt)

theorem value?_ofInt_zero : (ofInt 0).value? = some ((0 : ℤ) : ℚ) :=
  (BinaryFormat.value?_eq_intCast_iff 0).2 (by decide +kernel)

/-- A whole number that the format has compares equal to its pattern. -/
theorem compare?_ofInt {n : ℤ} (hx : x.value? = some (n : ℚ)) : (ofInt n).compare? x = some .eq := by
  by_cases hn : n = 0
  · subst hn
    rw [compare?, BinaryFormat.compare?_of_value value?_ofInt_zero hx, cmp_self_eq_eq]
  · rw [ofInt_of_value? hn hx, compare?_self, isNaN_of_value? hx]
    rfl

end Binary64

namespace Binary32

variable {x y : Binary32}

theorem unpack_ne_nan_of_value? {v : ℚ} (hx : x.value? = some v) :
    single.unpack x.pattern ≠ .nan := by
  obtain ⟨s, m, e, hu, -⟩ := BinaryFormat.value?_eq_some hx
  rw [hu]
  simp

/-- Narrowed again, patterns with one key compare as they do in the wider format. -/
theorem compare?_of_key (h : DictKey.ofBinary64 x.toDouble = DictKey.ofBinary64 y.toDouble) :
    x.toDouble.toSingle.compare? y.toDouble.toSingle
      = if x.toDouble.isNaN then none else some .eq := by
  rcases Binary64.value?_eq_or_eq_of_key h with ⟨v, hx, hy⟩ | heq
  · rw [Binary64.isNaN_of_value? hx]
    rw [value?_toDouble] at hx hy
    rw [toSingle_toDouble (unpack_ne_nan_of_value? hx), toSingle_toDouble (unpack_ne_nan_of_value? hy),
      compare?, BinaryFormat.compare?_of_value hx hy, cmp_self_eq_eq]
    rfl
  · rw [← heq]
    by_cases hnan : single.unpack x.pattern = .nan
    · have hwide : x.toDouble.isNaN = true := by
        rw [Binary64.isNaN, BinaryFormat.isNaN_iff, pattern_toDouble]
        exact BinaryFormat.unpack_convert_nan hnan
      rw [compare?, BinaryFormat.compare?, unpack_toSingle_toDouble hnan, hwide]
      rfl
    · have hwide : x.toDouble.isNaN = false := by
        rw [← Bool.not_eq_true, Binary64.isNaN, BinaryFormat.isNaN_iff, pattern_toDouble]
        cases hu : single.unpack x.pattern with
        | nan => exact absurd hu hnan
        | infinite s => simp [BinaryFormat.unpack_convert_infinite hu]
        | finite s m e =>
          obtain ⟨n, g, hconvert, -⟩ := BinaryFormat.unpack_convert_finite (h := double) hu
          simp [hconvert]
      rw [toSingle_toDouble hnan, hwide]
      refine BinaryFormat.compare?_self (Bool.not_eq_true _ ▸ ?_)
      rwa [BinaryFormat.isNaN_iff]

/-- A whole number that the format has compares equal to its pattern. -/
theorem compare?_ofInt {n : ℤ} (hx : x.value? = some (n : ℚ)) :
    (Binary64.ofInt n).toSingle.compare? x.toDouble.toSingle = some .eq := by
  have hself := toSingle_toDouble (unpack_ne_nan_of_value? hx)
  by_cases hn : n = 0
  · subst hn
    have hzero : (Binary64.ofInt 0).toSingle.value? = some ((0 : ℤ) : ℚ) :=
      (BinaryFormat.value?_eq_intCast_iff 0).2 (by decide +kernel)
    rw [hself, compare?, BinaryFormat.compare?_of_value hzero hx, cmp_self_eq_eq]
  · rw [Binary64.ofInt_of_value? hn (x.value?_toDouble.trans hx), hself, compare?,
      BinaryFormat.compare?_of_value hx hx, cmp_self_eq_eq]

end Binary32

namespace Decimal

variable {d g : Decimal}

/-- Finite decimals with one key are equal. -/
theorem value?_eq_of_key {v w : ℚ} (hd : d.value? = some v) (hg : g.value? = some w)
    (h : DictKey.ofDecimal d = DictKey.ofDecimal g) : v = w := by
  rcases DictKey.ofDecimal_cases d with hkey | ⟨n, hkey⟩
  · rcases DictKey.ofDecimal_cases g with hkey' | ⟨n, hkey'⟩
    · rw [hkey, hkey'] at h
      obtain ⟨hs, hc, he⟩ := DictKey.decimal.inj h
      rw [← scaled_reduce hd, ← scaled_reduce hg, hs, hc, he]
    · rw [hkey, hkey'] at h
      cases h
  · rw [(DictKey.ofDecimal_eq_int_iff hd).1 hkey, (DictKey.ofDecimal_eq_int_iff hg).1 (h ▸ hkey)]

/-- Decimals that are no finite numbers compare equal where their signs are the same and both or
neither is an infinity. -/
theorem order_eq_eq_iff_of_value?_none (hd : d.value? = none) (hg : g.value? = none) :
    d.order g = .eq ↔ d.negative = g.negative ∧ ((∃ s, d = infinite s) ↔ ∃ s, g = infinite s) := by
  cases d with
  | finite s c e => cases hd
  | infinite s =>
    cases g with
    | finite t c e => cases hg
    | infinite t => cases s <;> cases t <;> simp [negative] <;> decide
    | nan q t => cases s <;> cases q <;> cases t <;> simp [negative] <;> decide
  | nan p s =>
    cases g with
    | finite t c e => cases hg
    | infinite t => cases p <;> cases s <;> cases t <;> simp [negative] <;> decide
    | nan q t => cases p <;> cases s <;> cases q <;> cases t <;> simp [negative] <;> decide

end Decimal

namespace Numeric

/-- Unequal numbers with one key. -/
inductive Collides : Numeric → Numeric → Prop
  /-- What is not a number is unequal to itself. -/
  | nan {x y : Numeric} (hx : x.isBinary = true) (hy : y.isBinary = true)
      (heq : x.toBinary64 = y.toBinary64) (hnan : x.toBinary64.isNaN = true) : Collides x y
  /-- An infinite or undefined decimal has the key of zero. -/
  | zero {d : Decimal} {y : Numeric} (hd : d.value? = none) (hy : y.value? = some 0) :
      Collides (decimal d) y
  | signs {d g : Decimal} (hd : d.value? = none) (hg : g.value? = none)
      (hsign : d.negative ≠ g.negative) : Collides (decimal d) (decimal g)
  | infinite (s q t : Bool) : Collides (decimal (.infinite s)) (decimal (.nan q t))
  /-- A whole number is compared with the shortest digits of a binary one, which may be others than
  those of the number. -/
  | digits {d g : Decimal} {y : Numeric} {n : ℤ} (hn : n.natAbs < 2 ^ 63)
      (hd : d.value? = some (n : ℚ)) (hbinary : y.isBinary = true) (hy : y.value? = some (n : ℚ))
      (hg : y.toDecimal = .ok g) (hne : g.value? ≠ some (n : ℚ)) : Collides (decimal d) y
  | symm {x y : Numeric} (h : Collides x y) : Collides y x

variable {x y : Numeric}

/-- Turned around, numbers stand in the opposite order. -/
theorem order?_swap (x y : Numeric) : (x.order? y).map Ordering.swap = y.order? x := by
  have hdecimal (hp : promote x y = .decimal x y) (hq : promote y x = .decimal y x) :
      (x.order? y).map Ordering.swap = y.order? x := by
    rw [order?, order?, hp, hq]
    dsimp only
    cases x.toDecimal <;> cases y.toDecimal <;> simp [Decimal.order_swap]
  cases x <;> cases y
  all_goals first
    | exact hdecimal rfl rfl
    | exact BinaryFormat.compare?_swap _ _ _
    | simp only [order?, promote, toInt64, Option.map_some, BinaryFormat.order_swap]

theorem equal_comm (x y : Numeric) : x.equal y = y.equal x := by
  have h := order?_swap x y
  unfold equal
  rw [← h]
  cases x.order? y with
  | none => rfl
  | some o => cases o <;> rfl

/-- Numbers of which one is a decimal are equal where their decimals are. -/
theorem equal_eq_order {d g : Decimal} (hp : promote x y = .decimal x y) (hd : x.toDecimal = .ok d)
    (hg : y.toDecimal = .ok g) : x.equal y = decide (d.order g = .eq) := by
  simp only [equal, order?, hp, hd, hg, Option.some.injEq]

theorem promote_decimal (d : Decimal) (y : Numeric) :
    promote (decimal d) y = .decimal (decimal d) y := by
  cases y <;> rfl

/-- Of two binary numbers with one key both are numbers and equal, or neither is one. -/
theorem equal_eq_of_binary (hx : x.isBinary = true) (hy : y.isBinary = true) (h : x.key = y.key) :
    x.equal y = !x.toBinary64.isNaN := by
  rw [(key_of_binary hx).1, (key_of_binary hy).1] at h
  have hwide : x.toBinary64.compare? y.toBinary64
      = if x.toBinary64.isNaN then none else some .eq := Binary64.compare?_of_key h
  have hequal (horder : x.order? y = if x.toBinary64.isNaN then none else some .eq) :
      x.equal y = !x.toBinary64.isNaN := by
    rw [equal, horder]
    cases x.toBinary64.isNaN <;> rfl
  cases x with
  | float x =>
    cases y with
    | float y => exact hequal hwide
    | float32 y => exact hequal hwide
    | _ => cases hy
  | float32 x =>
    cases y with
    | float y => exact hequal hwide
    | float32 y => exact hequal (Binary32.compare?_of_key h)
    | _ => cases hy
  | _ => cases hx

/-- An integer that a binary number is compares equal to it. -/
theorem equal_int_of_binary {a : Int64} (hy : y.isBinary = true)
    (hv : y.value? = some (a.toInt : ℚ)) : (int a).equal y = true := by
  cases y with
  | float y => exact decide_eq_true (Binary64.compare?_ofInt hv)
  | float32 y => exact decide_eq_true (Binary32.compare?_ofInt hv)
  | _ => cases hy

/-- A number that is not binary is a decimal or stands for an integer of 64 bits, whatever its
width. -/
theorem exact_cases (hx : x.isBinary = false) : (∃ d, x = decimal d) ∨
    ∃ a, (∀ y, x.equal y = (int a).equal y) ∧ x.key = (int a).key ∧ x.value? = (int a).value? ∧
      x.toDecimal = (int a).toDecimal := by
  cases x with
  | decimal d => exact Or.inl ⟨d, rfl⟩
  | int a => exact Or.inr ⟨a, fun _ => rfl, rfl, rfl, rfl⟩
  | int32 n =>
    have horder (y : Numeric) : (int32 n).order? y = (int n.toInt64).order? y := by
      cases y <;> simp [order?, promote, toInt64, toBinary32, toBinary64, toDecimal]
    refine Or.inr ⟨n.toInt64, fun y => ?_, rfl, ?_, ?_⟩
    · rw [equal, equal, horder y]
    · simp [value?]
    · simp [toDecimal]
  | _ => cases hx

/-- Numbers that are not binary compare as decimals. -/
theorem equal_eq_of_exact {d g : Decimal} (hx : x.isBinary = false) (hy : y.isBinary = false)
    (hd : x.toDecimal = .ok d) (hg : y.toDecimal = .ok g) :
    x.equal y = decide (d.order g = .eq) := by
  rcases exact_cases hx with ⟨d', rfl⟩ | ⟨a, hequal, -, -, hdecimal⟩
  · exact equal_eq_order (promote_decimal d' y) hd hg
  rw [hdecimal] at hd
  rw [hequal]
  rcases exact_cases hy with ⟨g', rfl⟩ | ⟨b, hequal', -, -, hdecimal'⟩
  · exact equal_eq_order rfl hd hg
  rw [equal_comm, hequal', equal_comm]
  rw [hdecimal'] at hg
  cases hd
  cases hg
  rw [Decimal.order_of_value (Decimal.value?_ofInt _) (Decimal.value?_ofInt _),
    Int.cast_strictMono.cmp_map_eq, ← BinaryFormat.order_eq_cmp, equal, order?]
  simp [promote, toInt64]

/-- What has the key of an integer of 64 bits, and is no infinite or undefined decimal, is that
integer. -/
theorem value?_of_key_int {a : Int64} (hx : x.value? ≠ none ∨ x.isBinary = true)
    (h : x.key = .int a) : x.value? = some (a.toInt : ℚ) := by
  cases hbinary : x.isBinary with
  | true =>
    obtain ⟨hkey, hvalue⟩ := key_of_binary hbinary
    rw [← hvalue]
    exact (DictKey.ofBinary64_eq_int_iff.1 (hkey ▸ h)).1
  | false =>
    obtain ⟨d, -, hkey, hvalue⟩ := key_of_exact hbinary
    obtain ⟨v, hv⟩ := Option.ne_none_iff_exists'.1 (hx.resolve_right (by simp [hbinary]))
    rw [hv, (DictKey.ofDecimal_eq_int_iff (hvalue.trans hv)).1 (hkey ▸ h)]

/-- A zero of any kind has the key of zero. -/
theorem key_of_zero (hx : x.value? = some 0) : x.key = .int 0 := by
  have hzero : (0 : ℚ) = ((0 : Int64).toInt : ℚ) := by simp
  cases hbinary : x.isBinary with
  | true =>
    obtain ⟨hkey, hvalue⟩ := key_of_binary hbinary
    rw [hkey, DictKey.ofBinary64_eq_int_iff, hvalue, hx, ← hzero]
    exact ⟨rfl, by decide⟩
  | false =>
    obtain ⟨d, -, hkey, hvalue⟩ := key_of_exact hbinary
    rw [hkey, DictKey.ofDecimal_eq_int_iff (hvalue.trans hx), hzero]

/-- A finite binary number has a decimal. -/
theorem exists_toDecimal {v : ℚ} (hx : x.isBinary = true) (hv : x.value? = some v) :
    ∃ d, x.toDecimal = .ok d := by
  have hfinite (z : Binary64) (hz : z.value? = some v) : ∃ d, Decimal.ofBinary64? z = some d := by
    obtain ⟨s, m, e, hu, -⟩ := BinaryFormat.value?_eq_some hz
    rw [Decimal.ofBinary64?, hu]
    dsimp only
    split
    · exact ⟨_, rfl⟩
    · exact ⟨_, rfl⟩
  cases x with
  | float x =>
    obtain ⟨d, hd⟩ := hfinite x hv
    exact ⟨d, by rw [toDecimal, hd]⟩
  | float32 x =>
    obtain ⟨d, hd⟩ := hfinite x.toDouble (x.value?_toDouble.trans hv)
    exact ⟨d, by rw [toDecimal, hd]⟩
  | _ => cases hx

/-- Unequal binary numbers with one key are no numbers. -/
theorem collides_of_binary (hx : x.isBinary = true) (hy : y.isBinary = true) (h : x.key = y.key)
    (hne : x.equal y = false) : x.Collides y := by
  have hnan : x.toBinary64.isNaN = true := by
    simpa [equal_eq_of_binary hx hy h] using hne
  refine .nan hx hy ?_ hnan
  rw [(key_of_binary hx).1, (key_of_binary hy).1] at h
  refine (Binary64.value?_eq_or_eq_of_key h).resolve_left ?_
  rintro ⟨v, hv, -⟩
  rw [Binary64.isNaN_of_value? hv] at hnan
  cases hnan

/-- What is unequal to a decimal that is no finite number and has its key. -/
theorem collides_of_value?_none {d : Decimal} (hd : d.value? = none) (h : (decimal d).key = y.key)
    (hne : (decimal d).equal y = false) : (decimal d).Collides y := by
  have hkey : y.key = .int 0 := h.symm.trans (DictKey.ofDecimal_of_value?_none hd)
  by_cases hy : y.value? ≠ none ∨ y.isBinary = true
  · exact .zero hd (by simpa using value?_of_key_int hy hkey)
  obtain ⟨hnone, hexact⟩ : y.value? = none ∧ y.isBinary = false := by simpa using hy
  rcases exact_cases hexact with ⟨g, rfl⟩ | ⟨a, -, -, hvalue, -⟩
  · have horder : d.order g ≠ .eq := by
      rw [equal_eq_of_exact rfl rfl rfl rfl] at hne
      exact of_decide_eq_false hne
    rw [Ne, Decimal.order_eq_eq_iff_of_value?_none hd hnone] at horder
    by_cases hsign : d.negative = g.negative
    · cases d with
      | finite s c e => cases hd
      | infinite s =>
        cases g with
        | nan q t => exact .infinite s q t
        | infinite t => simp [hsign] at horder
        | finite t c e => cases hnone
      | nan q s =>
        cases g with
        | infinite t => exact .symm (.infinite t q s)
        | nan p t => simp [hsign] at horder
        | finite t c e => cases hnone
    · exact .signs hd hnone hsign
  · rw [hvalue] at hnone
    cases hnone

/-- Unequal numbers with one key, of which the first is not binary and the second is. -/
theorem collides_of_mixed (hx : x.isBinary = false) (hy : y.isBinary = true) (h : x.key = y.key)
    (hne : x.equal y = false) : x.Collides y := by
  rcases exact_cases hx with ⟨d, rfl⟩ | ⟨a, hequal, hkey, -, -⟩
  · cases hd : d.value? with
    | none => exact collides_of_value?_none hd h hne
    | some v =>
      have hfinite : (decimal d).value? ≠ none := by simp [value?, hd]
      obtain ⟨n, hn, hdv, hyv⟩ := (key_eq_iff_of_mixed hx hy hfinite).1 h
      obtain ⟨g, hg⟩ := exists_toDecimal hy hyv
      refine .digits hn hdv hy hyv hg fun hgv => ?_
      rw [equal_eq_order (promote_decimal d y) rfl hg, Decimal.order_of_value hdv hgv,
        cmp_self_eq_eq] at hne
      cases hne
  · have hv := value?_of_key_int (Or.inr hy) (h.symm.trans hkey)
    rw [hequal, equal_int_of_binary hy hv] at hne
    cases hne

/-- Unequal numbers with one key that are not binary. -/
theorem collides_of_exact (hx : x.isBinary = false) (hy : y.isBinary = false) (h : x.key = y.key)
    (hne : x.equal y = false) : x.Collides y := by
  obtain ⟨d, hd, hkey, hvalue⟩ := key_of_exact hx
  obtain ⟨g, hg, hkey', hvalue'⟩ := key_of_exact hy
  have hdecimal {z : Numeric} (hz : z.isBinary = false) (hnone : z.value? = none) :
      ∃ d, z = decimal d := by
    rcases exact_cases hz with hd | ⟨a, -, -, hvalue, -⟩
    · exact hd
    · rw [hvalue] at hnone
      cases hnone
  cases hdv : d.value? with
  | none =>
    obtain ⟨d', rfl⟩ := hdecimal hx (hvalue.symm.trans hdv)
    exact collides_of_value?_none (hvalue.symm.trans hdv) h hne
  | some v =>
    cases hgv : g.value? with
    | none =>
      obtain ⟨g', rfl⟩ := hdecimal hy (hvalue'.symm.trans hgv)
      rw [equal_comm] at hne
      exact (collides_of_value?_none (hvalue'.symm.trans hgv) h.symm hne).symm
    | some w =>
      have hvw := Decimal.value?_eq_of_key hdv hgv (hkey ▸ hkey' ▸ h)
      rw [equal_eq_of_exact hx hy hd hg, Decimal.order_of_value hdv hgv, hvw,
        cmp_self_eq_eq] at hne
      cases hne

/-- A decimal that is no finite number is unequal to every other number. -/
theorem equal_of_value?_none {d : Decimal} {v : ℚ} (hd : d.value? = none) (hy : y.value? = some v) :
    (decimal d).equal y = false := by
  have hne : ∃ g w, y.toDecimal = .ok g ∧ g.value? = some w := by
    cases hbinary : y.isBinary with
    | false =>
      obtain ⟨g, hg, -, hvalue⟩ := key_of_exact hbinary
      exact ⟨g, v, hg, hvalue.trans hy⟩
    | true =>
      obtain ⟨g, hg⟩ := exists_toDecimal hbinary hy
      obtain ⟨w, hw⟩ := Option.ne_none_iff_exists'.1 (value?_toDecimal_ne_none hbinary hg)
      exact ⟨g, w, hg, hw⟩
  obtain ⟨g, w, hg, hw⟩ := hne
  rw [equal_eq_order (promote_decimal d y) rfl hg]
  refine decide_eq_false fun horder => ?_
  cases hd.symm.trans ((Decimal.value?_eq_of_order horder).trans hw)

/-- Numbers collide where they have one key and are unequal. -/
theorem collides_iff : x.Collides y ↔ x.key = y.key ∧ x.equal y = false := by
  constructor
  · intro h
    induction h with
    | nan hx hy heq hnan =>
      have hkey : _ = _ := (key_of_binary hx).1.trans (heq ▸ (key_of_binary hy).1.symm)
      refine ⟨hkey, ?_⟩
      rw [equal_eq_of_binary hx hy hkey, hnan]
      rfl
    | zero hd hy =>
      exact ⟨(DictKey.ofDecimal_of_value?_none hd).trans (key_of_zero hy).symm,
        equal_of_value?_none hd hy⟩
    | signs hd hg hsign =>
      refine ⟨(DictKey.ofDecimal_of_value?_none hd).trans (DictKey.ofDecimal_of_value?_none hg).symm, ?_⟩
      rw [equal_eq_of_exact rfl rfl rfl rfl, decide_eq_false_iff_not,
        Decimal.order_eq_eq_iff_of_value?_none hd hg]
      exact fun h => hsign h.1
    | infinite s q t =>
      have hkey (d : Decimal) (hd : d.value? = none) : (decimal d).key = .int 0 :=
        DictKey.ofDecimal_of_value?_none hd
      refine ⟨(hkey _ rfl).trans (hkey _ rfl).symm, ?_⟩
      rw [equal_eq_of_exact rfl rfl rfl rfl, decide_eq_false_iff_not,
        Decimal.order_eq_eq_iff_of_value?_none rfl rfl]
      simp
    | @digits d g y n hn hd hbinary hy hg hne =>
      have hfinite : (decimal d).value? ≠ none := by simp [value?, hd]
      refine ⟨(key_eq_iff_of_mixed rfl hbinary hfinite).2 ⟨n, hn, hd, hy⟩, ?_⟩
      rw [equal_eq_order (promote_decimal d y) rfl hg]
      exact decide_eq_false fun horder => hne (Decimal.value?_eq_of_order horder ▸ hd)
    | symm _ ih => exact ⟨ih.1.symm, by rw [equal_comm]; exact ih.2⟩
  · rintro ⟨hkey, hne⟩
    cases hx : x.isBinary <;> cases hy : y.isBinary
    · exact collides_of_exact hx hy hkey hne
    · exact collides_of_mixed hx hy hkey hne
    · rw [equal_comm] at hne
      exact (collides_of_mixed hy hx hkey.symm hne).symm
    · exact collides_of_binary hx hy hkey hne

end Numeric

namespace Value

/-- Whether values can be of one run: a reference stands for one bound function with one receiver,
and only values with methods are receivers. -/
def Together : Value → Value → Prop
  | .boundIntrinsic i m r, .boundIntrinsic j n s => i = j → m = n ∧ r = s ∧ r.kind = m.kind
  | .boundMethod i m r, .boundMethod j n s =>
    i = j → m = n ∧ r = s ∧ ∃ id, r = .object id ∨ r = .static id
  | _, _ => True

/-- Unequal values with one key. -/
inductive Collides : Value → Value → Prop
  | number {a b : Value} {x y : Numeric} (ha : a.numeric? = some x) (hb : b.numeric? = some y)
      (h : x.Collides y) : Collides a b
  /-- The names of an enum and of its member may hold the point that is put between them. -/
  | member {x y : EnumMember}
      (hname : x.enum ++ Text.ofString "." ++ x.member = y.enum ++ Text.ofString "." ++ y.member)
      (hne : x.enum ≠ y.enum) : Collides (.enum x) (.enum y)

/-- What has methods by its kind is equal to itself. -/
theorem equal_self_of_receiver {r : Value} {m : Intrinsic} (h : r.kind = m.kind) :
    r.equal r = true := by
  have hkinds : m.kind ∈ [.array, .dict, .string, .enum, .file] := by cases m <;> decide
  rw [← h] at hkinds
  clear h
  cases r <;> first | (simp [equal, numeric?]; done) | simp [kind] at hkinds

variable {a b : Value}

theorem equal_of_numeric {x y : Numeric} (ha : a.numeric? = some x) (hb : b.numeric? = some y) :
    a.equal b = x.equal y := by
  cases a <;> cases ha <;> cases b <;> cases hb <;> rfl

/-- Of two values with one key neither is a number or both are. -/
theorem numeric?_of_key (h : DictKey.of a = DictKey.of b) :
    (a.numeric? = none ∧ b.numeric? = none) ∨
      ∃ x y, a.numeric? = some x ∧ b.numeric? = some y := by
  have hnumber (c : Value) : c.numeric?.isSome = true ↔
      (∃ n, DictKey.of c = .int n) ∨ (∃ x, DictKey.of c = .float x) ∨
        ∃ s c' e, DictKey.of c = .decimal s c' e := by
    cases c with
    | int n => simp [numeric?, DictKey.of]
    | int32 n => simp [numeric?, DictKey.of]
    | float x => rcases DictKey.ofBinary64_cases x with hx | ⟨n, hx⟩ <;> simp [numeric?, DictKey.of, hx]
    | float32 x =>
      rcases DictKey.ofBinary64_cases x.toDouble with hx | ⟨n, hx⟩ <;> simp [numeric?, DictKey.of, hx]
    | decimal d => rcases DictKey.ofDecimal_cases d with hd | ⟨n, hd⟩ <;> simp [numeric?, DictKey.of, hd]
    | _ => simp [numeric?, DictKey.of]
  have hiff : a.numeric?.isSome = true ↔ b.numeric?.isSome = true := by
    rw [hnumber a, hnumber b, h]
  cases ha : a.numeric? <;> cases hb : b.numeric? <;> simp_all

/-- Values with one key that are neither numbers nor enum members are equal. -/
theorem equal_of_key (htogether : a.Together b) (ha : a.numeric? = none) (hb : b.numeric? = none)
    (h : DictKey.of a = DictKey.of b) :
    a.equal b = true ∨ ∃ x y, a = .enum x ∧ b = .enum y := by
  cases a with
  | boundIntrinsic i m r =>
    cases b with
    | boundIntrinsic j n s =>
      obtain ⟨rfl, rfl, hr⟩ := htogether (DictKey.reference.inj h).2
      exact Or.inl (by simp [equal, equal_self_of_receiver hr])
    | _ => first | (cases hb; done) | cases h
  | boundMethod i m r =>
    cases b with
    | boundMethod j n s =>
      obtain ⟨rfl, rfl, id, rfl | rfl⟩ := htogether (DictKey.reference.inj h).2
      · exact Or.inl (by simp [equal, numeric?])
      · exact Or.inl (by simp [equal, numeric?])
    | _ => first | (cases hb; done) | cases h
  | enum x =>
    cases b with
    | enum y => exact Or.inr ⟨x, y, rfl, rfl⟩
    | _ => first | (cases hb; done) | cases h
  -- Every other value that is no number has for its key what it is compared by.
  | _ =>
    cases b
    all_goals first
      | (cases ha; done)
      | (cases hb; done)
      | (cases h; done)
      | (simp only [DictKey.of, DictKey.bool.injEq, DictKey.char.injEq, DictKey.string.injEq,
          DictKey.type.injEq, DictKey.cls.injEq, DictKey.builtin.injEq, DictKey.intrinsic.injEq,
          DictKey.reference.injEq, true_and] at h
         exact Or.inl (by simp [equal, numeric?, h]))

/-- Values collide where they have one key and are unequal. -/
theorem collides_iff (htogether : a.Together b) :
    a.Collides b ↔ DictKey.of a = DictKey.of b ∧ a.equal b = false := by
  constructor
  · intro h
    cases h with
    | @number _ _ x y ha hb h =>
      obtain ⟨hkey, hne⟩ := Numeric.collides_iff.1 h
      exact ⟨by rw [DictKey.of_eq_key ha, DictKey.of_eq_key hb, hkey],
        (equal_of_numeric ha hb).trans hne⟩
    | member hname hne => exact ⟨congrArg DictKey.enum hname, by simp [equal, numeric?, hne]⟩
  · rintro ⟨hkey, hne⟩
    rcases numeric?_of_key hkey with ⟨ha, hb⟩ | ⟨x, y, ha, hb⟩
    · rcases equal_of_key htogether ha hb hkey with heq | ⟨x, y, rfl, rfl⟩
      · rw [heq] at hne
        cases hne
      · refine .member (DictKey.enum.inj hkey) fun henum => ?_
        have hmember : x.member = y.member := by
          have hname := DictKey.enum.inj hkey
          rw [henum] at hname
          exact List.append_cancel_left hname
        simp [equal, numeric?, henum, hmember] at hne
    · rw [DictKey.of_eq_key ha, DictKey.of_eq_key hb] at hkey
      exact .number ha hb (Numeric.collides_iff.2 ⟨hkey, (equal_of_numeric ha hb).symm.trans hne⟩)

end Value

namespace Dict

variable {a b : Value}

/-- Two values of one run have one key and are unequal where they collide, and then what is set under
one is found under the other; where they are unequal and do not collide it is not touched. -/
theorem unequal_with_one_key_iff_collides (htogether : a.Together b) :
    (DictKey.of a = DictKey.of b ∧ a.equal b = false ↔ a.Collides b) ∧
      ∀ (ops : List Op) (v : Value), let d := (runAll Op.run {} ops).2
        (a.Collides b → (d.insert a v).get? b = some v ∧ (d.insert a v).contains b = true) ∧
          (a.equal b = false → ¬ a.Collides b → (d.insert a v).get? b = d.get? b ∧
            (d.insert a v).contains b = d.contains b) := by
  have hiff := Value.collides_iff htogether
  refine ⟨hiff.symm, fun ops v => ?_⟩
  have hindexed := (Indexed.empty.runAll ops).1
  exact ⟨fun h => hindexed.insert_of_key_eq (hiff.1 h).1 v,
    fun hne hnot => hindexed.insert_of_key_ne (fun hkey => hnot (hiff.2 ⟨hkey, hne⟩)) v⟩

/-- A whole decimal is found under the binary number that it is, whose shortest digits are of another
number. -/
theorem whole_decimal_found_under_binary :
    let a := Value.decimal (.finite false 4611686018427387904 0)
    let b := Value.float ⟨0x43D0000000000000⟩
    a.Together b ∧ a.Collides b ∧ a.equal b = false ∧
      (({} : Dict).insert a .null).get? b = some .null := by
  intro a b
  have htogether : a.Together b := trivial
  obtain ⟨hiff, hset⟩ := unequal_with_one_key_iff_collides htogether
  have hcollides : a.Collides b := hiff.1 (by decide +kernel)
  exact ⟨htogether, hcollides, (hiff.2 hcollides).2, ((hset [] .null).1 hcollides).1⟩

/-- Whether what is set under the first value alone is found under the second, which is unequal. -/
def FoundUnderUnequal (a b : Value) : Prop :=
  a.equal b = false ∧ DictKey.of a = DictKey.of b ∧
    ∀ v, ({} : Dict).get? b = none ∧ (({} : Dict).insert a v).get? b = some v

theorem foundUnderUnequal_of_key (hne : a.equal b = false) (hkey : DictKey.of a = DictKey.of b) :
    FoundUnderUnequal a b := by
  refine ⟨hne, hkey, fun v => ⟨?_, (Indexed.empty.insert_of_key_eq hkey v).1⟩⟩
  rw [Indexed.empty.get?_eq]
  rfl

/-- Two enum members with points in their names, an infinite decimal and zero, a decimal and the
binary number that it is. -/
theorem found_under_unequal :
    FoundUnderUnequal (.enum ⟨Text.ofString "a", Text.ofString "b.c", 0⟩)
        (.enum ⟨Text.ofString "a.b", Text.ofString "c", 0⟩) ∧
      FoundUnderUnequal (.decimal (.infinite false)) (.int 0) ∧
      FoundUnderUnequal (.decimal (.finite false 4611686018427387904 0))
        (.float ⟨0x43D0000000000000⟩) := by
  refine ⟨?_, ?_, ?_⟩
  · exact foundUnderUnequal_of_key (by decide +kernel) (by decide +kernel)
  · exact foundUnderUnequal_of_key (by decide +kernel) (by decide +kernel)
  · exact foundUnderUnequal_of_key (by decide +kernel) (by decide +kernel)

end Dict

end BytecodeMachine
