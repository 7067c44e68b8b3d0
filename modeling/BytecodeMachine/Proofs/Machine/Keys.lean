import BytecodeMachine.Proofs.Machine.Dictionaries
import BytecodeMachine.Proofs.Number.Binary
import BytecodeMachine.Proofs.Number.Decimal

/-!
Equal values as keys. Within the binary numbers, and within the integers and decimals, equality keeps
the key; between the two it rounds or goes by shortest digits, and the keys agree only where both
denote one whole number below `2 ^ 63` in size. Bound methods are equal by what they are bound to and
keyed by their reference; all other values have one key wherever they are equal.
-/
namespace BytecodeMachine

open BinaryFormat (double single)

namespace Binary64

variable {x y : Binary64}

/-- The number that a finite pattern denotes. -/
def value? (x : Binary64) : Option ℚ := double.value? x.pattern

theorem pattern_lt (x : Binary64) : x.pattern < twoTo double.width := x.bits.toNat_lt

theorem pattern_ofNatBits {n : ℕ} (h : n < twoTo double.width) : (ofNatBits n).pattern = n :=
  UInt64.toNat_ofNat_of_lt h

theorem eq_of_pattern_eq (h : x.pattern = y.pattern) : x = y := by
  cases x
  cases y
  exact congrArg mk (UInt64.toNat_inj.1 h)

/-- Numbers that compare equal are one number, or they are the same pattern. -/
theorem value?_eq_or_eq (h : x.compare? y = some .eq) :
    (∃ v, x.value? = some v ∧ y.value? = some v) ∨ x = y := by
  rcases BinaryFormat.compare?_eq_some_eq h with hv | ⟨s, hx, hy⟩
  · exact Or.inl hv
  · exact Or.inr (eq_of_pattern_eq
      (BinaryFormat.eq_of_unpack_infinite x.pattern_lt y.pattern_lt hx hy))

theorem eq_of_value? {v : ℚ} (hv : v ≠ 0) (hx : x.value? = some v) (hy : y.value? = some v) : x = y :=
  eq_of_pattern_eq (BinaryFormat.eq_of_value?_eq x.pattern_lt y.pattern_lt hv hx hy)

end Binary64

namespace Binary32

variable {x y : Binary32}

/-- The number that a finite pattern denotes. -/
def value? (x : Binary32) : Option ℚ := single.value? x.pattern

theorem pattern_lt (x : Binary32) : x.pattern < twoTo single.width := x.bits.toNat_lt

theorem pattern_toDouble (x : Binary32) : x.toDouble.pattern = single.convert double x.pattern :=
  Binary64.pattern_ofNatBits (BinaryFormat.convert_lt _)

/-- Widening keeps the number. -/
theorem value?_toDouble (x : Binary32) : x.toDouble.value? = x.value? := by
  rw [Binary64.value?, value?, pattern_toDouble, BinaryFormat.value?, BinaryFormat.value?]
  cases hu : single.unpack x.pattern with
  | nan => rw [BinaryFormat.unpack_convert_nan hu]
  | infinite s => rw [BinaryFormat.unpack_convert_infinite hu]
  | finite s m e =>
    obtain ⟨n, g, hconvert, hv⟩ := BinaryFormat.unpack_convert_finite (h := double) hu
    rw [hconvert]
    exact congrArg some hv.symm

/-- Narrowing takes a widened number back. -/
theorem toSingle_toDouble (hx : single.unpack x.pattern ≠ .nan) : x.toDouble.toSingle = x := by
  cases x with
  | mk bits =>
    rw [Binary64.toSingle, pattern_toDouble, BinaryFormat.convert_convert (pattern_lt _) hx]
    exact congrArg mk UInt32.ofNat_toNat

/-- A widened and narrowed number compares as itself: what is no number stays so. -/
theorem unpack_toSingle_toDouble (hx : single.unpack x.pattern = .nan) :
    single.unpack x.toDouble.toSingle.pattern = .nan := by
  have hlt := BinaryFormat.convert_lt (f := double) (h := single) (single.convert double x.pattern)
  have hpattern : x.toDouble.toSingle.pattern
      = double.convert single (single.convert double x.pattern) := by
    rw [Binary64.toSingle, pattern_toDouble]
    exact UInt32.toNat_ofNat_of_lt hlt
  rw [hpattern]
  exact BinaryFormat.unpack_convert_nan (BinaryFormat.unpack_convert_nan hx)

theorem eq_of_pattern_eq (h : x.pattern = y.pattern) : x = y := by
  cases x
  cases y
  exact congrArg mk (UInt32.toNat_inj.1 h)

/-- Numbers that compare equal after widening and narrowing are one number or the same pattern. -/
theorem value?_eq_or_eq (h : x.toDouble.toSingle.compare? y.toDouble.toSingle = some .eq) :
    (∃ v, x.value? = some v ∧ y.value? = some v) ∨ x = y := by
  have hx : single.unpack x.pattern ≠ .nan := by
    intro hnan
    rw [compare?, BinaryFormat.compare?, unpack_toSingle_toDouble hnan] at h
    cases h
  have hy : single.unpack y.pattern ≠ .nan := by
    intro hnan
    rw [compare?, BinaryFormat.compare?, unpack_toSingle_toDouble hnan] at h
    split at h <;> simp_all
  rw [toSingle_toDouble hx, toSingle_toDouble hy] at h
  rcases BinaryFormat.compare?_eq_some_eq h with hv | ⟨s, hx, hy⟩
  · exact Or.inl hv
  · exact Or.inr (eq_of_pattern_eq
      (BinaryFormat.eq_of_unpack_infinite x.pattern_lt y.pattern_lt hx hy))

end Binary32

namespace DictKey

/-- A binary number has the key of an integer where it denotes it, but for the least one. -/
theorem ofBinary64_eq_int_iff {x : Binary64} {n : Int64} :
    ofBinary64 x = int n ↔ x.value? = some (n.toInt : ℚ) ∧ n.toInt.natAbs < 2 ^ 63 := by
  have htwo : twoTo 63 = 2 ^ 63 := rfl
  rw [Binary64.value?, BinaryFormat.value?_eq_intCast_iff, ofBinary64, Binary64.truncate?,
    Binary64.isIntegral, htwo]
  cases double.truncate? x.pattern with
  | none => simp
  | some k =>
    dsimp only
    split
    · next hk =>
      obtain ⟨hwhole, hsize⟩ : double.isIntegral x.pattern = true ∧ k.natAbs < 2 ^ 63 := by
        simpa using hk
      have hofInt : (Int64.ofInt k).toInt = k := Int64.toInt_ofInt_of_le (by omega) (by omega)
      simp only [int.injEq, Option.some.injEq, hwhole, true_and]
      constructor
      · rintro rfl
        rw [hofInt]
        exact ⟨rfl, hsize⟩
      · rintro ⟨rfl, -⟩
        exact Int64.ofInt_toInt n
    · next hk =>
      simp only [reduceCtorEq, Option.some.injEq, false_iff]
      rintro ⟨⟨hwhole, rfl⟩, hsize⟩
      exact hk (by rwa [hwhole, Bool.true_and, decide_eq_true_iff])

theorem ofBinary64_cases (x : Binary64) : ofBinary64 x = float x ∨ ∃ n, ofBinary64 x = int n := by
  unfold ofBinary64
  split
  · split
    · exact Or.inr ⟨_, rfl⟩
    · exact Or.inl rfl
  · exact Or.inl rfl

/-- Equal binary numbers have one key. -/
theorem ofBinary64_eq_of_value? {x y : Binary64} {v : ℚ} (hx : x.value? = some v)
    (hy : y.value? = some v) : ofBinary64 x = ofBinary64 y := by
  by_cases hv : v = 0
  · subst hv
    have hzero (z : Binary64) (hz : z.value? = some 0) : ofBinary64 z = int 0 :=
      ofBinary64_eq_int_iff.2 ⟨by simpa using hz, by decide⟩
    rw [hzero x hx, hzero y hy]
  · rw [Binary64.eq_of_value? hv hx hy]

/-- A finite decimal has the key of an integer where it denotes it. -/
theorem ofDecimal_eq_int_iff {d : Decimal} {n : Int64} {v : ℚ} (hd : d.value? = some v) :
    ofDecimal d = int n ↔ v = (n.toInt : ℚ) := by
  obtain ⟨s, c, e, rfl, rfl⟩ := Decimal.value?_eq_some hd
  unfold ofDecimal
  rcases Decimal.integerPart_cases s c e with ⟨b, g, -, hpart, hv⟩ | ⟨hfraction, hne⟩
  · have hkey := Decimal.toInt64?_eq_some_iff (x := .finite s b g) (n := n)
    rw [Decimal.value?, Option.some.injEq] at hkey
    rw [hpart, hv, ← hkey]
    simp only [Bool.false_eq_true, if_false]
    cases (Decimal.finite s b g).toInt64? <;> simp
  · simp [hfraction, hne]

theorem ofDecimal_cases (d : Decimal) :
    ofDecimal d = decimal d.reduce.negative d.reduce.coeff d.reduce.exponent ∨
      ∃ n, ofDecimal d = int n := by
  unfold ofDecimal
  dsimp only
  split
  · exact Or.inr ⟨_, rfl⟩
  · exact Or.inl rfl

/-- What is no number has the key of zero. -/
theorem ofDecimal_of_value?_none {d : Decimal} (hd : d.value? = none) : ofDecimal d = int 0 := by
  cases d with
  | finite s c e => cases hd
  | infinite s => cases s <;> decide
  | nan q s => cases q <;> cases s <;> decide

/-- Equal decimals have one key. -/
theorem ofDecimal_eq_of_order {d g : Decimal} (h : d.order g = .eq) : ofDecimal d = ofDecimal g := by
  have hvalue := Decimal.value?_eq_of_order h
  cases hd : d.value? with
  | none => rw [ofDecimal_of_value?_none hd, ofDecimal_of_value?_none (hvalue ▸ hd)]
  | some v =>
    have hg : g.value? = some v := hvalue ▸ hd
    have hiff (n : Int64) : ofDecimal d = int n ↔ ofDecimal g = int n :=
      (ofDecimal_eq_int_iff hd).trans (ofDecimal_eq_int_iff hg).symm
    rcases ofDecimal_cases d with hkey | ⟨n, hn⟩
    · rcases ofDecimal_cases g with hkey' | ⟨n, hn⟩
      · rw [hkey, hkey', Decimal.reduce_eq_of_value? hd hg]
      · exact ((hiff n).2 hn).trans hn.symm
    · exact hn.trans ((hiff n).1 hn).symm

end DictKey

namespace Numeric

variable {x y : Numeric}

/-- The key of a number as a value. -/
def key : Numeric → DictKey
  | int32 n => .int n.toInt64
  | int n => .int n
  | float32 x => .ofBinary64 x.toDouble
  | float x => .ofBinary64 x
  | decimal d => .ofDecimal d

/-- The number denoted, none for an infinity and for what is no number. -/
def value? : Numeric → Option ℚ
  | int32 n => some n.toInt
  | int n => some n.toInt
  | float32 x => x.value?
  | float x => x.value?
  | decimal d => d.value?

def isBinary : Numeric → Bool
  | float32 _ | float _ => true
  | _ => false

/-- Whether equal numbers have one key: both are binary or none is, or they denote one whole number
that is less than `2 ^ 63` in size. -/
def Alike (x y : Numeric) : Prop :=
  x.isBinary = y.isBinary ∨
    ∃ n : ℤ, n.natAbs < 2 ^ 63 ∧ x.value? = some (n : ℚ) ∧ y.value? = some (n : ℚ)

theorem key_of_binary (hx : x.isBinary = true) :
    x.key = .ofBinary64 x.toBinary64 ∧ x.toBinary64.value? = x.value? := by
  cases x with
  | float32 x => exact ⟨rfl, x.value?_toDouble⟩
  | float x => exact ⟨rfl, rfl⟩
  | int32 n => cases hx
  | int n => cases hx
  | decimal d => cases hx

theorem key_of_exact (hx : x.isBinary = false) :
    ∃ d, x.toDecimal = .ok d ∧ x.key = .ofDecimal d ∧ d.value? = x.value? := by
  cases x with
  | float32 x => cases hx
  | float x => cases hx
  | int32 n =>
    refine ⟨_, rfl, ?_, Decimal.value?_ofInt _⟩
    refine ((DictKey.ofDecimal_eq_int_iff (Decimal.value?_ofInt _)).2 ?_).symm
    rw [Int32.toInt_toInt64]
  | int n => exact ⟨_, rfl, ((DictKey.ofDecimal_eq_int_iff (Decimal.value?_ofInt _)).2 rfl).symm,
      Decimal.value?_ofInt _⟩
  | decimal d => exact ⟨d, rfl, rfl, rfl⟩

theorem toInt_eq_of_order {a b : ℤ} (h : some (BinaryFormat.order a b) = some .eq) : a = b := by
  rw [BinaryFormat.order_eq_cmp] at h
  exact (cmp_eq_eq_iff _ _).1 (Option.some.inj h)

/-- Equal binary numbers have one key. -/
theorem key_eq_of_binary (hx : x.isBinary = true) (hy : y.isBinary = true)
    (h : x.equal y = true) : x.key = y.key := by
  have horder : x.order? y = some .eq := of_decide_eq_true h
  -- Two binary numbers are equal where they denote one number or are one and the same infinity;
  -- two of the smaller format are compared in it and meet in the larger one afterwards.
  have hvalues : (∃ v, x.value? = some v ∧ y.value? = some v) ∨ x.toBinary64 = y.toBinary64 := by
    cases x with
    | float32 x =>
      cases y with
      | float32 y => exact (Binary32.value?_eq_or_eq horder).imp_right (congrArg Binary32.toDouble)
      | float y =>
        have hv := Binary64.value?_eq_or_eq (x := x.toDouble) horder
        rwa [x.value?_toDouble] at hv
      | _ => cases hy
    | float x =>
      cases y with
      | float32 y =>
        have hv := Binary64.value?_eq_or_eq (y := y.toDouble) horder
        rwa [y.value?_toDouble] at hv
      | float y => exact Binary64.value?_eq_or_eq horder
      | _ => cases hy
    | _ => cases hx
  obtain ⟨hkey, hvalue⟩ := key_of_binary hx
  obtain ⟨hkey', hvalue'⟩ := key_of_binary hy
  rw [hkey, hkey']
  rcases hvalues with ⟨v, hxv, hyv⟩ | heq
  · exact DictKey.ofBinary64_eq_of_value? (hvalue.trans hxv) (hvalue'.trans hyv)
  · rw [heq]

/-- Two numbers of which one is a decimal are equal as decimals. -/
theorem order_of_promote (hp : promote x y = .decimal x y) (h : x.equal y = true) :
    ∃ d g, x.toDecimal = .ok d ∧ y.toDecimal = .ok g ∧ d.order g = .eq := by
  have horder : x.order? y = some .eq := of_decide_eq_true h
  rw [order?, hp] at horder
  dsimp only at horder
  split at horder
  · next d g hd hg => exact ⟨d, g, hd, hg, Option.some.inj horder⟩
  · cases horder

/-- Equal numbers that are not binary have one key. -/
theorem key_eq_of_exact (hx : x.isBinary = false) (hy : y.isBinary = false)
    (h : x.equal y = true) : x.key = y.key := by
  have horder : x.order? y = some .eq := of_decide_eq_true h
  have hdecimal (hp : promote x y = .decimal x y) : x.key = y.key := by
    obtain ⟨d, g, hd, hg, heq⟩ := order_of_promote hp h
    obtain ⟨d', hd', hkey, -⟩ := key_of_exact hx
    obtain ⟨g', hg', hkey', -⟩ := key_of_exact hy
    cases hd.symm.trans hd'
    cases hg.symm.trans hg'
    rw [hkey, hkey', DictKey.ofDecimal_eq_of_order heq]
  cases x with
  | int32 n =>
    cases y with
    | int32 m =>
      have heq : n = m := Int32.toInt_inj.1 (toInt_eq_of_order horder)
      rw [heq]
    | int m => exact congrArg DictKey.int (Int64.toInt_inj.1 (toInt_eq_of_order horder))
    | decimal d => exact hdecimal rfl
    | _ => cases hy
  | int n =>
    cases y with
    | int32 m => exact congrArg DictKey.int (Int64.toInt_inj.1 (toInt_eq_of_order horder))
    | int m => exact congrArg DictKey.int (Int64.toInt_inj.1 (toInt_eq_of_order horder))
    | decimal d => exact hdecimal rfl
    | _ => cases hy
  | decimal d => exact hdecimal (by cases y <;> rfl)
  | _ => cases hx

/-- A binary number and another that denotes a number have one key where both denote one whole
number less than `2 ^ 63` in size. -/
theorem key_eq_iff_of_mixed (hx : x.isBinary = false) (hy : y.isBinary = true)
    (hv : x.value? ≠ none) : x.key = y.key ↔
      ∃ n : ℤ, n.natAbs < 2 ^ 63 ∧ x.value? = some (n : ℚ) ∧ y.value? = some (n : ℚ) := by
  obtain ⟨d, -, hkey, hvalue⟩ := key_of_exact hx
  obtain ⟨hkey', hvalue'⟩ := key_of_binary hy
  obtain ⟨v, hxv⟩ := Option.ne_none_iff_exists'.1 hv
  have hdv : d.value? = some v := hvalue.trans hxv
  rw [hkey, hkey', ← hvalue', hxv]
  constructor
  · intro heq
    -- The keys of bits and of digits are of different kinds, so one key can only be that of an integer.
    rcases DictKey.ofBinary64_cases y.toBinary64 with hfloat | ⟨n, hn⟩
    · rcases DictKey.ofDecimal_cases d with hdec | ⟨n, hn⟩
      · rw [hfloat, hdec] at heq
        cases heq
      · rw [hfloat, hn] at heq
        cases heq
    · obtain ⟨hyv, hsize⟩ := DictKey.ofBinary64_eq_int_iff.1 hn
      exact ⟨n.toInt, hsize, congrArg some ((DictKey.ofDecimal_eq_int_iff hdv).1 (heq.trans hn)), hyv⟩
  · rintro ⟨n, hsize, hxn, hyn⟩
    have hofInt : (Int64.ofInt n).toInt = n := Int64.toInt_ofInt_of_le (by omega) (by omega)
    rw [(DictKey.ofDecimal_eq_int_iff (n := Int64.ofInt n) hdv).2 (by
        rw [hofInt]
        exact Option.some.inj hxn),
      DictKey.ofBinary64_eq_int_iff.2 ⟨by rw [hofInt]; exact hyn, by rwa [hofInt]⟩]

/-- The decimal of a binary number is finite. -/
theorem value?_toDecimal_ne_none {d : Decimal} (hx : x.isBinary = true)
    (hd : x.toDecimal = .ok d) : d.value? ≠ none := by
  have hfinite (z : Binary64) (h : Decimal.ofBinary64? z = some d) : d.value? ≠ none := by
    unfold Decimal.ofBinary64? at h
    split at h
    · split at h <;> cases h <;> simp [Decimal.value?]
    · cases h
  cases x with
  | float32 x =>
    rw [toDecimal] at hd
    split at hd
    · next g hg => exact hfinite _ (by cases hd; exact hg)
    · cases hd
  | float x =>
    rw [toDecimal] at hd
    split at hd
    · next g hg => exact hfinite _ (by cases hd; exact hg)
    · cases hd
  | _ => cases hx

/-- What is equal to a binary number denotes a number itself. -/
theorem value?_ne_none_of_equal (hx : x.isBinary = false) (hy : y.isBinary = true)
    (h : x.equal y = true ∨ y.equal x = true) : x.value? ≠ none := by
  cases x with
  | decimal d =>
    rcases h with h | h
    · obtain ⟨_, g, hd, hg, heq⟩ := order_of_promote (by cases y <;> rfl) h
      cases hd
      rw [value?, Decimal.value?_eq_of_order heq]
      exact value?_toDecimal_ne_none hy hg
    · obtain ⟨g, _, hg, hd, heq⟩ := order_of_promote (by cases y <;> rfl) h
      cases hd
      rw [value?, ← Decimal.value?_eq_of_order heq]
      exact value?_toDecimal_ne_none hy hg
  | int32 n => simp [value?]
  | int n => simp [value?]
  | _ => cases hx

/-- Equal numbers have one key where they are alike. -/
theorem key_eq_iff (h : x.equal y = true) : x.key = y.key ↔ x.Alike y := by
  unfold Alike
  -- Two kinds of numbers on two sides: only where they differ is there anything to say.
  cases hx : x.isBinary <;> cases hy : y.isBinary
  · simp [key_eq_of_exact hx hy h]
  · simp [key_eq_iff_of_mixed hx hy (value?_ne_none_of_equal hx hy (.inl h))]
  · rw [eq_comm, key_eq_iff_of_mixed hy hx (value?_ne_none_of_equal hy hx (.inr h))]
    simp [and_comm]
  · simp [key_eq_of_binary hx hy h]

end Numeric

/-- Whether equal values have one key: numbers that are alike, bound methods and bound intrinsics of
one reference, and all other values. -/
def Value.Alike : Value → Value → Prop
  | .boundIntrinsic i _ _, .boundIntrinsic j _ _ => i = j
  | .boundMethod i _ _, .boundMethod j _ _ => i = j
  | a, b =>
    match a.numeric?, b.numeric? with
    | some x, some y => x.Alike y
    | _, _ => True

theorem DictKey.of_eq_key {a : Value} {x : Numeric} (h : a.numeric? = some x) :
    DictKey.of a = x.key := by
  cases a <;> cases h <;> rfl

theorem Value.alike_of_numeric {a b : Value} {x y : Numeric} (hx : a.numeric? = some x)
    (hy : b.numeric? = some y) : a.Alike b ↔ x.Alike y := by
  cases a <;> cases hx <;> cases b <;> cases hy <;> rfl

/-- Equal values have one key where they are alike. -/
theorem Value.key_eq_iff {a b : Value} (h : a.equal b = true) :
    DictKey.of a = DictKey.of b ↔ a.Alike b := by
  unfold Value.equal at h
  split at h
  · simp [DictKey.of, Value.Alike]
  · simp [DictKey.of, Value.Alike]
  · split at h
    · next x y hx hy =>
      rw [DictKey.of_eq_key hx, DictKey.of_eq_key hy, Value.alike_of_numeric hx hy]
      exact Numeric.key_eq_iff h
    -- No numbers are left: what is equal by its parts has its parts for a key.
    · split at h <;> simp_all [DictKey.of, Value.Alike, Value.numeric?]

namespace Dict

theorem valueIn_setIn (es : List (Value × Value)) (a b v : Value) :
    valueIn (setIn es a v) b = if DictKey.of a = DictKey.of b then some v else valueIn es b := by
  unfold setIn
  split
  · next hmem =>
    have hkeys : (fun e : Value × Value => decide (DictKey.of e.1 = DictKey.of b)) ∘
        (fun e => if DictKey.of e.1 = DictKey.of a then (e.1, v) else e) =
        fun e => decide (DictKey.of e.1 = DictKey.of b) := by
      funext e
      simp only [Function.comp_apply]
      split <;> rfl
    rw [valueIn, List.find?_map, hkeys, valueIn]
    cases hfind : es.find? fun e => decide (DictKey.of e.1 = DictKey.of b) with
    | none =>
      have hne : DictKey.of a ≠ DictKey.of b := by
        intro heq
        obtain ⟨e, he, hkey⟩ := List.mem_map.1 hmem
        exact List.find?_eq_none.1 hfind e he (decide_eq_true (hkey.trans heq))
      rw [if_neg hne]
      rfl
    | some e =>
      have hkey : DictKey.of e.1 = DictKey.of b := by simpa using List.find?_some hfind
      simp only [Option.map_some, hkey, eq_comm (a := DictKey.of b)]
      split <;> rfl
  · next hmem =>
    rw [valueIn, List.find?_append]
    split
    · next heq =>
      have hnone : es.find? (fun e => decide (DictKey.of e.1 = DictKey.of b)) = none := by
        have h : valueIn es b = none := valueIn_eq_none (heq ▸ hmem)
        simpa [valueIn] using h
      simp [hnone, heq]
    · next hne => simp [valueIn, hne]

theorem mem_indexed_setIn (es : List (Value × Value)) (a v : Value) (k : DictKey) :
    k ∈ indexed (setIn es a v) ↔ k = DictKey.of a ∨ k ∈ indexed es := by
  unfold setIn
  split
  · next hmem =>
    have hkeys : indexed (es.map fun e => if DictKey.of e.1 = DictKey.of a then (e.1, v) else e)
        = indexed es := by
      unfold indexed
      rw [List.map_map]
      refine List.map_congr_left fun e _ => ?_
      simp only [Function.comp_apply]
      split <;> rfl
    rw [hkeys]
    exact ⟨Or.inr, fun h => h.elim (fun h => h ▸ hmem) id⟩
  · rw [indexed_append, List.mem_append, or_comm]
    simp [indexed]

variable {d : Dict} {a b : Value}

/-- A key that the index sees as the one that is set finds the value. -/
theorem Indexed.insert_of_key_eq (h : d.Indexed) (hkey : DictKey.of a = DictKey.of b) (v : Value) :
    (d.insert a v).get? b = some v ∧ (d.insert a v).contains b = true := by
  obtain ⟨hindexed, hentries⟩ := h.insert a v
  rw [hindexed.get?_eq, hindexed.contains_eq, hentries, valueIn_setIn, if_pos hkey,
    decide_eq_true_iff, mem_indexed_setIn]
  exact ⟨rfl, Or.inl hkey.symm⟩

/-- A key that the index tells from the one that is set is not touched. -/
theorem Indexed.insert_of_key_ne (h : d.Indexed) (hkey : DictKey.of a ≠ DictKey.of b) (v : Value) :
    (d.insert a v).get? b = d.get? b ∧ (d.insert a v).contains b = d.contains b := by
  obtain ⟨hindexed, hentries⟩ := h.insert a v
  rw [hindexed.get?_eq, hindexed.contains_eq, hentries, valueIn_setIn, if_neg hkey, h.get?_eq,
    h.contains_eq]
  simp only [mem_indexed_setIn, hkey.symm, false_or, and_self]

/-- Of two equal values the second finds what is set under the first where they are alike, and is not
touched by it where they are not. -/
theorem found_under_equal_iff_alike (h : a.equal b = true) :
    (DictKey.of a = DictKey.of b ↔ a.Alike b) ∧
      ∀ (ops : List Op) (v : Value), let d := (runAll Op.run {} ops).2
        (a.Alike b → (d.insert a v).get? b = some v ∧ (d.insert a v).contains b = true) ∧
          (¬ a.Alike b → (d.insert a v).get? b = d.get? b ∧
            (d.insert a v).contains b = d.contains b) := by
  have hkey := Value.key_eq_iff h
  refine ⟨hkey, fun ops v => ?_⟩
  have hindexed := (Indexed.empty.runAll ops).1
  exact ⟨fun halike => hindexed.insert_of_key_eq (hkey.2 halike) v,
    fun hnot => hindexed.insert_of_key_ne (fun heq => hnot (hkey.1 heq)) v⟩

/-- A whole number is found whether it is written as a decimal or as a binary number. -/
theorem found_under_whole_binary :
    let a := Value.decimal (.finite false 90071992547409920 (-1))
    let b := Value.float ⟨0x4340000000000000⟩
    a.equal b = true ∧ a.Alike b ∧ (({} : Dict).insert a .null).get? b = some .null := by
  have h : (Value.decimal (.finite false 90071992547409920 (-1))).equal
      (.float ⟨0x4340000000000000⟩) = true := by decide +kernel
  have hdecimal : Decimal.value? (.finite false 90071992547409920 (-1))
      = some ((Int64.toInt 9007199254740992 : ℤ) : ℚ) :=
    Decimal.toInt64?_eq_some_iff.1 (by decide +kernel)
  have hbinary : Binary64.value? ⟨0x4340000000000000⟩
      = some ((Int64.toInt 9007199254740992 : ℤ) : ℚ) :=
    (BinaryFormat.value?_eq_intCast_iff _).2 (by decide +kernel)
  have halike : (Value.decimal (.finite false 90071992547409920 (-1))).Alike
      (.float ⟨0x4340000000000000⟩) := Or.inr ⟨_, by decide, hdecimal, hbinary⟩
  exact ⟨h, halike, (((found_under_equal_iff_alike h).2 [] .null).1 halike).1⟩

/-- A binary number is equal to the decimal with its shortest digits, and what is set under it is not
found under the decimal. -/
theorem tenth_not_found :
    let a := Value.float ⟨0x3FB999999999999A⟩
    let b := Value.decimal (.finite false 1 (-1))
    a.equal b = true ∧ DictKey.of a ≠ DictKey.of b ∧
      ∀ v, (({} : Dict).insert a v).get? b = none ∧ (({} : Dict).insert a v).contains b = false := by
  intro a b
  have hequal : a.equal b = true := by decide +kernel
  have hkey : DictKey.of a ≠ DictKey.of b := by decide +kernel
  refine ⟨hequal, hkey, fun v => ?_⟩
  rw [(Indexed.empty.insert_of_key_ne hkey v).1, (Indexed.empty.insert_of_key_ne hkey v).2,
    Indexed.empty.get?_eq, Indexed.empty.contains_eq]
  exact ⟨rfl, rfl⟩

end Dict

end BytecodeMachine
