import BytecodeMachine.Machine.Step
import BytecodeMachine.Proofs.Machine.Collisions

/-!
Which numbers have an order, and what it says. Numbers of any kinds are compared by one order, so
the six comparisons never disagree; what has no order is not just what is no number, since a number
is brought to a decimal before it is compared with one. Integers and finite decimals are compared by
the rational numbers that they denote.
-/
namespace BytecodeMachine

open BinaryFormat (double single)

namespace BinaryFormat

variable {f h : BinaryFormat} {x y m : ℕ} {s : Bool}

/-- Only what is not a number has no place in the order. -/
theorem compare?_eq_none : f.compare? x y = none ↔ f.unpack x = .nan ∨ f.unpack y = .nan := by
  unfold compare?
  cases f.unpack x <;> cases f.unpack y <;> simp

/-- Up to the pattern of an infinity, patterns are numbers. -/
theorem unpack_withSign_ne_nan [Proper f] (hm : m ≤ f.infinityBits) :
    f.unpack (f.withSign s m) ≠ .nan := by
  have hlt := infinityBits_lt (f := f)
  rw [Ne, unpack_eq_nan, magnitude_withSign (by omega)]
  omega

theorem unpack_ofScaled_ne_nan [Proper f] (s : Bool) (m : ℕ) (e : ℤ) :
    f.unpack (f.ofScaled s m e) ≠ .nan := by
  refine unpack_withSign_ne_nan ?_
  split
  · exact ofRatio_le _ _
  · exact ofRatio_le _ _

/-- A conversion makes no number of what is none, and the other way around. -/
theorem unpack_convert_eq_nan [Proper f] [Proper h] :
    h.unpack (f.convert h x) = .nan ↔ f.unpack x = .nan := by
  refine ⟨fun hnan => ?_, unpack_convert_nan⟩
  cases hx : f.unpack x with
  | nan => rfl
  | infinite s =>
    rw [unpack_convert_infinite hx] at hnan
    cases hnan
  | finite s m e =>
    rw [convert, hx] at hnan
    exact absurd hnan (unpack_ofScaled_ne_nan s m e)

theorem isInfinite_iff [Proper f] : f.isInfinite x = true ↔ ∃ s, f.unpack x = .infinite s := by
  rw [isInfinite, decide_eq_true_iff]
  constructor
  · intro hmag
    exact ⟨f.signOf x, by simp [unpack, hmag]⟩
  · rintro ⟨s, hs⟩
    exact (unpack_eq_infinite hs).2

/-- In a format that widens another the infinities are those of the other. -/
theorem isInfinite_convert [Proper f] [Proper h] [Widens f h] :
    h.isInfinite (f.convert h x) = f.isInfinite x := by
  rw [Bool.eq_iff_iff, isInfinite_iff, isInfinite_iff]
  cases hx : f.unpack x with
  | nan => simp [unpack_convert_nan hx]
  | infinite s => simp [unpack_convert_infinite hx]
  | finite s m e =>
    obtain ⟨n, g, hconvert, -⟩ := unpack_convert_finite (h := h) hx
    simp [hconvert]

end BinaryFormat

namespace Binary64

theorem unpack_ofInt_ne_nan (n : ℤ) : double.unpack (ofInt n).pattern ≠ .nan := by
  have hlt : double.ofInt n < twoTo double.width := by
    have hle := BinaryFormat.ofRatio_le (f := double) n.natAbs 1
    have hinf := BinaryFormat.infinityBits_lt (f := double)
    exact BinaryFormat.withSign_lt (by omega)
  rw [ofInt, pattern_ofNatBits hlt]
  exact BinaryFormat.unpack_withSign_ne_nan (BinaryFormat.ofRatio_le _ _)

theorem pattern_toSingle (x : Binary64) : x.toSingle.pattern = double.convert single x.pattern :=
  UInt32.toNat_ofNat_of_lt (BinaryFormat.convert_lt _)

end Binary64

namespace Numeric

/-- Whether a number of any kind is no number. -/
def isNaN : Numeric → Bool
  | float32 x => single.isNaN x.pattern
  | float x => x.isNaN
  | decimal (.nan _ _) => true
  | _ => false

/-- Whether it is an infinity of a binary kind. -/
def isBinaryInfinity : Numeric → Bool
  | float32 x => single.isInfinite x.pattern
  | float x => x.isInfinite
  | _ => false

def isDecimal : Numeric → Bool
  | decimal _ => true
  | _ => false

variable {x y : Numeric}

/-- Whether two numbers have no order: one of them is a binary one that is no number, or a binary
infinity beside a decimal, which it has none of. -/
def Unordered (x y : Numeric) : Prop :=
  (x.isBinary ∧ x.isNaN) ∨ (y.isBinary ∧ y.isNaN) ∨
    (x.isDecimal ∧ y.isBinaryInfinity) ∨ (y.isDecimal ∧ x.isBinaryInfinity)

theorem unpack_toBinary64 (hx : x.isDecimal = false) :
    double.unpack x.toBinary64.pattern = .nan ↔ x.isNaN = true := by
  cases x with
  | int32 n => simp [toBinary64, isNaN, Binary64.unpack_ofInt_ne_nan]
  | int n => simp [toBinary64, isNaN, Binary64.unpack_ofInt_ne_nan]
  | float32 x =>
    rw [toBinary64, Binary32.pattern_toDouble, BinaryFormat.unpack_convert_eq_nan, isNaN,
      BinaryFormat.isNaN_iff]
  | float x => rw [toBinary64, isNaN, Binary64.isNaN, BinaryFormat.isNaN_iff]
  | decimal d => cases hx

theorem unpack_toBinary32 (hx : x.isDecimal = false) :
    single.unpack x.toBinary32.pattern = .nan ↔ x.isNaN = true := by
  rw [toBinary32, Binary64.pattern_toSingle, BinaryFormat.unpack_convert_eq_nan,
    unpack_toBinary64 hx]

theorem unordered_of_not_decimal (hx : x.isDecimal = false) (hy : y.isDecimal = false) :
    x.Unordered y ↔ x.isNaN = true ∨ y.isNaN = true := by
  have hbinary {z : Numeric} (hz : z.isDecimal = false) :
      z.isBinary ∧ z.isNaN ↔ z.isNaN = true := by
    cases z with
    | decimal d => cases hz
    | _ => simp [isBinary, isNaN]
  simp only [Unordered, hbinary hx, hbinary hy, hx, hy, Bool.false_eq_true, false_and, or_false]

theorem ofBinary64?_eq_none_iff (z : Binary64) :
    Decimal.ofBinary64? z = none ↔ z.isNaN = true ∨ z.isInfinite = true := by
  rw [Binary64.isNaN, BinaryFormat.isNaN_iff, Binary64.isInfinite, BinaryFormat.isInfinite_iff,
    Decimal.ofBinary64?]
  cases double.unpack z.pattern with
  | finite s m e => by_cases hm : m = 0 <;> simp [hm]
  | _ => simp

/-- A number has a decimal but where it is a binary infinity or a binary one that is no number. -/
theorem toDecimal_eq_error_iff : (∃ e, x.toDecimal = .error e) ↔
    (x.isBinary ∧ x.isNaN) ∨ x.isBinaryInfinity := by
  cases x with
  | float x =>
    have hnone := ofBinary64?_eq_none_iff x
    rw [toDecimal]
    cases hd : Decimal.ofBinary64? x <;> simpa [hd, isBinary, isNaN, isBinaryInfinity] using hnone
  | float32 x =>
    have hnone := ofBinary64?_eq_none_iff x.toDouble
    rw [Binary64.isNaN, BinaryFormat.isNaN_iff, Binary64.isInfinite, Binary32.pattern_toDouble,
      BinaryFormat.isInfinite_convert, BinaryFormat.unpack_convert_eq_nan,
      ← BinaryFormat.isNaN_iff] at hnone
    rw [toDecimal]
    cases hd : Decimal.ofBinary64? x.toDouble <;>
      simpa [hd, isBinary, isNaN, isBinaryInfinity] using hnone
  | _ => simp [toDecimal, isBinary, isBinaryInfinity]

theorem order?_of_decimal (h : x.isDecimal = true ∨ y.isDecimal = true) :
    x.order? y = none ↔ (∃ e, x.toDecimal = .error e) ∨ ∃ e, y.toDecimal = .error e := by
  have hp : promote x y = .decimal x y := by
    cases x <;> cases y <;> simp [isDecimal] at h <;> rfl
  rw [order?, hp]
  dsimp only
  cases x.toDecimal <;> cases y.toDecimal <;> simp

theorem not_isDecimal_of_isBinaryInfinity (h : x.isBinaryInfinity = true) :
    x.isDecimal = false := by
  cases x <;> first | rfl | cases h

theorem not_isNaN_of_isBinaryInfinity (h : x.isBinaryInfinity = true) : x.isNaN = false := by
  have hfalse {f : BinaryFormat} {n : ℕ} (h : f.isInfinite n = true) : f.isNaN n = false := by
    rw [BinaryFormat.isInfinite, decide_eq_true_iff] at h
    rw [BinaryFormat.isNaN, h, decide_eq_false_iff_not]
    exact lt_irrefl _
  cases x with
  | float32 x => exact hfalse h
  | float x => exact hfalse h
  | _ => cases h

/-- These are the only numbers without an order. -/
theorem order?_eq_none_iff : x.order? y = none ↔ x.Unordered y := by
  by_cases hdecimal : x.isDecimal = true ∨ y.isDecimal = true
  · rw [order?_of_decimal hdecimal, toDecimal_eq_error_iff, toDecimal_eq_error_iff, Unordered]
    have hx := not_isDecimal_of_isBinaryInfinity (x := x)
    have hy := not_isDecimal_of_isBinaryInfinity (x := y)
    grind
  · simp only [not_or, Bool.not_eq_true] at hdecimal
    obtain ⟨hx, hy⟩ := hdecimal
    rw [unordered_of_not_decimal hx hy]
    have hwide := (unpack_toBinary64 hx).or (unpack_toBinary64 hy)
    have hnarrow := (unpack_toBinary32 hx).or (unpack_toBinary32 hy)
    rw [← BinaryFormat.compare?_eq_none] at hwide hnarrow
    cases x with
    | decimal d => cases hx
    | _ =>
      cases y with
      | decimal d => cases hy
      | _ => first | exact hwide | exact hnarrow | simp [order?, promote, isNaN]

def toValue : Numeric → Value
  | int32 n => .int32 n
  | int n => .int n
  | float32 x => .float32 x
  | float x => .float x
  | decimal d => .decimal d

@[simp] theorem numeric?_toValue (x : Numeric) : x.toValue.numeric? = some x := by
  cases x <;> rfl

end Numeric

/-- What the six comparisons say of two values. -/
structure Comparisons where
  lt : Bool
  le : Bool
  gt : Bool
  ge : Bool
  eq : Bool
  ne : Bool

namespace Comparisons

variable {c : Comparisons}

/-- The answer to an instruction that compares. -/
def answer? (c : Comparisons) : Opcode → Option Bool
  | .lt => some c.lt
  | .le => some c.le
  | .gt => some c.gt
  | .ge => some c.ge
  | .eq => some c.eq
  | .ne => some c.ne
  | _ => none

/-- What they say of the two values turned around. -/
def swapped (c : Comparisons) : Comparisons :=
  { lt := c.gt, le := c.ge, gt := c.lt, ge := c.le, eq := c.eq, ne := c.ne }

/-- No comparison but that of being unequal holds. -/
def Silent (c : Comparisons) : Prop :=
  c.lt = false ∧ c.le = false ∧ c.gt = false ∧ c.ge = false ∧ c.eq = false

/-- One value is less, or both are equal, or one is greater. -/
def Decided (c : Comparisons) : Prop := [c.lt, c.eq, c.gt].count true = 1

structure Coherent (c : Comparisons) : Prop where
  le : c.le = (c.lt || c.eq)
  ge : c.ge = (c.gt || c.eq)
  ne : c.ne = !c.eq

/-- What is said of numbers: nothing where one of them is no number, and otherwise their order. -/
def Fits (c : Comparisons) (nan : Bool) : Prop := if nan then c.Silent else c.Decided

def ofOrder (o : Option Ordering) : Comparisons where
  lt := o = some .lt
  le := o = some .lt ∨ o = some .eq
  gt := o = some .gt
  ge := o = some .gt ∨ o = some .eq
  eq := o = some .eq
  ne := o ≠ some .eq

theorem ofOrder_coherent (o : Option Ordering) : (ofOrder o).Coherent :=
  ⟨Bool.decide_or .., Bool.decide_or .., decide_not⟩

theorem ofOrder_swap (o : Option Ordering) :
    ofOrder (o.map Ordering.swap) = (ofOrder o).swapped := by
  rcases o with - | - | - | - <;> rfl

theorem ofOrder_silent_iff (o : Option Ordering) : (ofOrder o).Silent ↔ o = none := by
  rcases o with - | - | - | - <;> simp [ofOrder, Silent]

theorem ofOrder_decided_iff (o : Option Ordering) : (ofOrder o).Decided ↔ o ≠ none := by
  rcases o with - | - | - | - <;> simp [ofOrder, Decided]

end Comparisons

namespace Value

variable {a b : Value}

/-- Whether the instructions that compare answer so for two values, the first of which was pushed
first. -/
def Compared (a b : Value) (c : Comparisons) : Prop :=
  ∀ (s : Setup) (m : Machine) (o : Operand) (op : Opcode) (t : Bool) (stack : List Value),
    c.answer? op = some t → m.stack = b :: a :: stack →
      m.perform s o op = .next ({ m with stack := stack }.push (.bool t))

theorem compare_of_numeric {x y : Numeric} (ha : a.numeric? = some x) (hb : b.numeric? = some y)
    (p : CompareOp) :
    a.compare p b = .ok (match x.order? y with | some r => p.holds r | none => false) := by
  simp only [compare, ha, hb]
  cases x.order? y <;> rfl

/-- Numbers are compared by their order alone. -/
theorem compared_of_numeric {x y : Numeric} (ha : a.numeric? = some x) (hb : b.numeric? = some y) :
    a.Compared b (.ofOrder (x.order? y)) := by
  intro s m o op t stack ht hstack
  have hequal : a.equal b = decide (x.order? y = some .eq) := equal_of_numeric ha hb
  cases op with
  | lt | le | gt | ge =>
    cases ht
    simp only [Machine.perform, Machine.comparison, Machine.pop2, Machine.pop, hstack,
      compare_of_numeric ha hb]
    rcases x.order? y with - | - | - | - <;> rfl
  | eq | ne =>
    cases ht
    simp only [Machine.perform, Machine.pop2, Machine.pop, hstack, hequal]
    simp [Comparisons.ofOrder]
  | _ => cases ht

end Value

namespace Numeric

variable {x y : Numeric}

/-- Whether a decimal is taken for what it is not: one that is no number for a number, beside
anything that has a decimal, or a number for none, beside a binary infinity. -/
def Misjudges (x y : Numeric) : Prop :=
  x.isDecimal ∧
    if x.isNaN then ¬ (y.isBinary ∧ y.isNaN) ∧ ¬ y.isBinaryInfinity else y.isBinaryInfinity

def Misjudged (x y : Numeric) : Prop := x.Misjudges y ∨ y.Misjudges x

/-- Two numbers have an order where both are numbers, but for decimals that are misjudged. -/
theorem ordered_as_numbers_iff :
    (x.Unordered y ↔ (x.isNaN || y.isNaN) = true) ↔ ¬ x.Misjudged y := by
  have hkind (z : Numeric) : z.isDecimal = !z.isBinary ∨ z.isNaN = false := by
    cases z <;> simp [isDecimal, isBinary, isNaN]
  have hinfinite (z : Numeric) :
      z.isBinaryInfinity = true → z.isDecimal = false ∧ z.isNaN = false :=
    fun h => ⟨not_isDecimal_of_isBinaryInfinity h, not_isNaN_of_isBinaryInfinity h⟩
  have hx := And.intro (hkind x) (hinfinite x)
  have hy := And.intro (hkind y) (hinfinite y)
  clear hkind hinfinite
  unfold Unordered Misjudged Misjudges
  grind

/-- Numbers of any kinds are compared coherently: the comparisons follow from being less, equal and
greater, of which one holds but where the numbers have no order, and they turn around with the
operands. They fit what numbers are unless a decimal is misjudged. -/
theorem numbers_compared_coherently (x y : Numeric) : ∃ c : Comparisons,
    x.toValue.Compared y.toValue c ∧ y.toValue.Compared x.toValue c.swapped ∧ c.Coherent ∧
      (c.Silent ↔ x.Unordered y) ∧ (c.Decided ↔ ¬ x.Unordered y) ∧
      (c.Fits (x.isNaN || y.isNaN) ↔ ¬ x.Misjudged y) := by
  have hsilent : (Comparisons.ofOrder (x.order? y)).Silent ↔ x.Unordered y :=
    (Comparisons.ofOrder_silent_iff _).trans order?_eq_none_iff
  have hdecided : (Comparisons.ofOrder (x.order? y)).Decided ↔ ¬ x.Unordered y :=
    (Comparisons.ofOrder_decided_iff _).trans order?_eq_none_iff.not
  refine ⟨.ofOrder (x.order? y),
    Value.compared_of_numeric (numeric?_toValue x) (numeric?_toValue y), ?_,
    Comparisons.ofOrder_coherent _, hsilent, hdecided, ?_⟩
  · rw [← Comparisons.ofOrder_swap, order?_swap]
    exact Value.compared_of_numeric (numeric?_toValue y) (numeric?_toValue x)
  · rw [← ordered_as_numbers_iff, Comparisons.Fits]
    split <;> simp_all

/-- A decimal that is no number is equal to itself, and a number beside a binary infinity that is
greater than it is neither less nor equal nor greater. -/
theorem undefined_decimal_equal_to_itself :
    let undefined := decimal (.nan false false)
    let one := decimal (.finite false 1 0)
    let infinity := float ⟨0x7FF0000000000000⟩
    (undefined.isNaN = true ∧ undefined.toValue.equal undefined.toValue = true) ∧
      one.isNaN = false ∧ infinity.isNaN = false ∧ one.toValue.equal infinity.toValue = false ∧
        one.toValue.compare .lt infinity.toValue = .ok false ∧
        one.toValue.compare .gt infinity.toValue = .ok false := by
  decide +kernel

end Numeric

/-- Integers of both widths and finite decimals, in every form a number has. -/
inductive Exact where
  | int32 (n : Int32)
  | int (n : Int64)
  | decimal (negative : Bool) (coeff : ℕ) (exponent : ℤ)

namespace Exact

def toNumeric : Exact → Numeric
  | int32 n => .int32 n
  | int n => .int n
  | decimal s c e => .decimal (.finite s c e)

def toValue (a : Exact) : Value := a.toNumeric.toValue

/-- The rational number denoted. -/
def number : Exact → ℚ
  | int32 n => n.toInt
  | int n => n.toInt
  | decimal s c e => scaled 10 s c e

variable {a b c : Exact}

/-- Whether two of them are equal to a program. -/
def Same (a b : Exact) : Prop := a.toValue.equal b.toValue = true

def Less (a b : Exact) : Prop := a.toValue.compare .lt b.toValue = .ok true

theorem isBinary_toNumeric (a : Exact) : a.toNumeric.isBinary = false := by
  cases a <;> rfl

theorem value?_toNumeric (a : Exact) : a.toNumeric.value? = some a.number := by
  cases a <;> rfl

/-- As a decimal it is the same number. -/
theorem exists_toDecimal (a : Exact) : ∃ d, a.toNumeric.toDecimal = .ok d ∧
    a.toNumeric.key = .ofDecimal d ∧ d.value? = some a.number := by
  obtain ⟨d, hd, hkey, hvalue⟩ := Numeric.key_of_exact a.isBinary_toNumeric
  exact ⟨d, hd, hkey, hvalue.trans a.value?_toNumeric⟩

theorem order_intCast (m n : ℤ) : BinaryFormat.order m n = cmp (m : ℚ) n := by
  rw [BinaryFormat.order_eq_cmp, Int.cast_strictMono.cmp_map_eq]

/-- The order is that of the numbers. -/
theorem order?_toNumeric (a b : Exact) :
    a.toNumeric.order? b.toNumeric = some (cmp a.number b.number) := by
  obtain ⟨d, hd, -, hvalue⟩ := a.exists_toDecimal
  obtain ⟨g, hg, -, hvalue'⟩ := b.exists_toDecimal
  have hdecimal (hp : Numeric.promote a.toNumeric b.toNumeric = .decimal a.toNumeric b.toNumeric) :
      a.toNumeric.order? b.toNumeric = some (cmp a.number b.number) := by
    rw [Numeric.order?, hp]
    dsimp only
    rw [hd, hg]
    exact congrArg some (Decimal.order_of_value hvalue hvalue')
  cases a <;> cases b <;>
    first
    | exact hdecimal rfl
    | refine congrArg some (Eq.trans ?_ (order_intCast _ _))
      simp only [toNumeric, Numeric.toInt64, Int32.toInt_toInt64]

theorem same_iff : a.Same b ↔ a.number = b.number := by
  rw [Same, toValue, toValue, Value.equal_of_numeric (Numeric.numeric?_toValue _)
    (Numeric.numeric?_toValue _), Numeric.equal, order?_toNumeric, decide_eq_true_iff,
    Option.some.injEq, cmp_eq_eq_iff]

theorem compare_toValue (op : CompareOp) (a b : Exact) :
    a.toValue.compare op b.toValue = .ok (op.holds (cmp a.number b.number)) := by
  rw [toValue, toValue, Value.compare_of_numeric (Numeric.numeric?_toValue _)
    (Numeric.numeric?_toValue _), order?_toNumeric]

theorem less_iff : a.Less b ↔ a.number < b.number := by
  rw [Less, compare_toValue, Except.ok.injEq, CompareOp.holds, decide_eq_true_iff, cmp_eq_lt_iff]

/-- One key is one number. -/
theorem key_eq_iff : DictKey.of a.toValue = DictKey.of b.toValue ↔ a.number = b.number := by
  rw [toValue, toValue, DictKey.of_eq_key (Numeric.numeric?_toValue a.toNumeric),
    DictKey.of_eq_key (Numeric.numeric?_toValue b.toNumeric)]
  obtain ⟨d, -, hkey, hvalue⟩ := a.exists_toDecimal
  obtain ⟨g, -, hkey', hvalue'⟩ := b.exists_toDecimal
  rw [hkey, hkey']
  refine ⟨Decimal.value?_eq_of_key hvalue hvalue', fun h => DictKey.ofDecimal_eq_of_order ?_⟩
  rw [Decimal.order_of_value hvalue hvalue', h, cmp_self_eq_eq]

end Exact

/-- A strict order of things that are told apart by a relation only. -/
structure StrictOrderUpTo {α : Type} (same less : α → α → Prop) : Prop where
  equivalence : Equivalence same
  irreflexive : ∀ a, ¬ less a a
  transitive : ∀ a b c, less a b → less b c → less a c
  total : ∀ a b, less a b ∨ same a b ∨ less b a
  compatible : ∀ a a' b b', same a a' → same b b' → (less a b ↔ less a' b')

/-- Such an order comes of a number for everything. -/
theorem StrictOrderUpTo.of_number {α : Type} {same less : α → α → Prop} (f : α → ℚ)
    (hsame : ∀ a b, same a b ↔ f a = f b) (hless : ∀ a b, less a b ↔ f a < f b) :
    StrictOrderUpTo same less where
  equivalence :=
    { refl := fun a => (hsame a a).2 rfl
      symm := fun h => (hsame _ _).2 ((hsame _ _).1 h).symm
      trans := fun h h' => (hsame _ _).2 (((hsame _ _).1 h).trans ((hsame _ _).1 h')) }
  irreflexive a h := lt_irrefl _ ((hless a a).1 h)
  transitive a b c h h' := (hless a c).2 (((hless a b).1 h).trans ((hless b c).1 h'))
  total a b := by
    rw [hless, hsame, hless]
    exact lt_trichotomy (f a) (f b)
  compatible a a' b b' h h' := by
    rw [hless, hless, (hsame a a').1 h, (hsame b b').1 h']

/-- Integers and decimals are compared exactly: the order is the sign of the difference of the
numbers, equality is that of the numbers, being less is a strict order up to it, and the keys of a
dictionary tell the same numbers apart. -/
theorem Exact.compared_exactly :
    (∀ a b : Exact,
      a.toNumeric.order? b.toNumeric = some (cmp (a.number - b.number) 0) ∧
        (∀ op, a.toValue.compare op b.toValue = .ok (op.holds (cmp (a.number - b.number) 0))) ∧
        (a.Same b ↔ a.number = b.number) ∧
        (DictKey.of a.toValue = DictKey.of b.toValue ↔ a.number = b.number)) ∧
      StrictOrderUpTo Same Less := by
  refine ⟨fun a b => ?_, .of_number number (fun _ _ => same_iff) fun _ _ => less_iff⟩
  rw [cmp_sub_zero]
  exact ⟨order?_toNumeric a b, fun op => compare_toValue op a b, same_iff, key_eq_iff⟩

end BytecodeMachine
