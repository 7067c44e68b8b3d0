import BytecodeMachine.Proofs.Machine.Replies
import Mathlib.Data.Int.Order.Basic

/-! Arithmetic of integers. The operations give the exact integers, reduced to two's complement at
the width of the operands, and division goes towards zero with a remainder that makes up for it. -/
namespace BytecodeMachine

/-- The widths of integers. -/
inductive Width where
  | word32
  | word64
deriving DecidableEq

def Width.bits : Width → ℕ
  | word32 => 32
  | word64 => 64

/-- An integer of either width. -/
inductive Whole where
  | int32 (n : Int32)
  | int (n : Int64)
deriving DecidableEq

namespace Whole

def toNumeric : Whole → Numeric
  | int32 n => .int32 n
  | int n => .int n

def toValue : Whole → Value
  | int32 n => .int32 n
  | int n => .int n

/-- The integer denoted. -/
def number : Whole → ℤ
  | int32 n => n.toInt
  | int n => n.toInt

def width : Whole → Width
  | int32 _ => .word32
  | int _ => .word64

/-- The width of what two integers are combined to. -/
def common : Whole → Whole → Width
  | int32 _, int32 _ => .word32
  | _, _ => .word64

/-- Any integer as a word of a width. -/
def wrapped : Width → ℤ → Whole
  | .word32, k => int32 (Int32.ofInt k)
  | .word64, k => int (Int64.ofInt k)

variable {x y : Whole} {w : Width} {k l : ℤ}

@[simp] theorem width_wrapped (w : Width) (k : ℤ) : (wrapped w k).width = w := by
  cases w <;> rfl

@[simp] theorem number_wrapped (w : Width) (k : ℤ) :
    (wrapped w k).number = k.bmod (2 ^ w.bits) := by
  cases w
  · exact Int32.toInt_ofInt
  · exact Int64.toInt_ofInt

theorem common_wrapped_left (x y : Whole) (k : ℤ) :
    common (wrapped (common x y) k) y = common x y := by
  cases x <;> cases y <;> rfl

theorem common_wrapped (w : Width) (k l : ℤ) : common (wrapped w k) (wrapped w l) = w := by
  cases w <;> rfl

/-- An integer is in the range of every width that it is combined at. -/
theorem bmod_number_left (x y : Whole) :
    x.number.bmod (2 ^ (common x y).bits) = x.number := by
  cases x <;> cases y <;> simp [number, common, Width.bits]

end Whole

namespace ArithOp

def opcode : ArithOp → Opcode
  | add => .add
  | sub => .sub
  | mul => .mul
  | div => .div
  | mod => .mod

/-- The operation on integers of any size. -/
def exact : ArithOp → ℤ → ℤ → Except ErrorCause ℤ
  | add, a, b => .ok (a + b)
  | sub, a, b => .ok (a - b)
  | mul, a, b => .ok (a * b)
  | div, a, b => if b = 0 then .error .integerDivision else .ok (a.tdiv b)
  | mod, a, b => if b = 0 then .error .integerModulo else .ok (a.tmod b)

end ArithOp

namespace Numeric

/-- At 64 bits the operations are the exact ones, reduced. -/
theorem intOp_eq (op : ArithOp) (a b : Int64) :
    intOp op a b = (op.exact a.toInt b.toInt).map Int64.ofInt := by
  have hzero : b.toInt = 0 ↔ b = 0 := by
    rw [← Int64.toInt_zero, Int64.toInt_inj]
  cases op with
  | add => simp [intOp, ArithOp.exact, Except.map, Int64.ofInt_add]
  | sub => simp [intOp, ArithOp.exact, Except.map, Int64.ofInt_sub]
  | mul => simp [intOp, ArithOp.exact, Except.map, Int64.ofInt_mul]
  | div =>
    simp only [intOp, ArithOp.exact, hzero]
    split
    · rfl
    · split
      · next hminus =>
        subst hminus
        simp [Except.map, Int64.ofInt_neg]
      · have hquotient : Int64.ofInt (a.toInt.tdiv b.toInt) = a / b := by
          rw [Int64.ofInt_eq_iff_bmod_eq_toInt, Int64.toInt_div]
        rw [Except.map, hquotient]
  | mod =>
    simp only [intOp, ArithOp.exact, hzero]
    split
    · rfl
    · split
      · next hminus =>
        subst hminus
        simp [Except.map]
      · rw [Except.map, ← Int64.toInt_mod, Int64.ofInt_toInt]

/-- And so they are at 32 bits. -/
theorem int32Op_eq (op : ArithOp) (a b : Int32) :
    int32Op op a b = (op.exact a.toInt b.toInt).map Int32.ofInt := by
  have hzero : b.toInt = 0 ↔ b = 0 := by
    rw [← Int32.toInt_zero, Int32.toInt_inj]
  cases op with
  | add => simp [int32Op, ArithOp.exact, Except.map, Int32.ofInt_add]
  | sub => simp [int32Op, ArithOp.exact, Except.map, Int32.ofInt_sub]
  | mul => simp [int32Op, ArithOp.exact, Except.map, Int32.ofInt_mul]
  | div =>
    simp only [int32Op, ArithOp.exact, hzero]
    split
    · rfl
    · split
      · next hminus =>
        subst hminus
        simp [Except.map, Int32.ofInt_neg]
      · have hquotient : Int32.ofInt (a.toInt.tdiv b.toInt) = a / b := by
          rw [Int32.ofInt_eq_iff_bmod_eq_toInt, Int32.toInt_div]
        rw [Except.map, hquotient]
  | mod =>
    simp only [int32Op, ArithOp.exact, hzero]
    split
    · rfl
    · split
      · next hminus =>
        subst hminus
        simp [Except.map]
      · rw [Except.map, ← Int32.toInt_mod, Int32.ofInt_toInt]

end Numeric

namespace Whole

variable {x y : Whole} {w : Width} {k l : ℤ}

theorem toInt_toInt64 (x : Whole) : x.toNumeric.toInt64.toInt = x.number := by
  cases x with
  | int32 n => exact Int32.toInt_toInt64 n
  | int n => rfl

/-- The operations on two integers are the exact ones, reduced to the width that they have in
common. -/
theorem arith_toValue (op : ArithOp) (x y : Whole) : x.toValue.arith op y.toValue =
    (op.exact x.number y.number).map fun k => (wrapped (common x y) k).toValue := by
  have hwide : (Numeric.intOp op x.toNumeric.toInt64 y.toNumeric.toInt64).map Value.int =
      (op.exact x.number y.number).map fun k => Value.int (Int64.ofInt k) := by
    rw [Numeric.intOp_eq, toInt_toInt64, toInt_toInt64]
    cases op.exact x.number y.number <;> rfl
  cases x with
  | int a => cases y <;> exact hwide
  | int32 a =>
    cases y with
    | int b => exact hwide
    | int32 b =>
      have hnarrow : (int32 a).toValue.arith op (int32 b).toValue =
          (Numeric.int32Op op a b).map Value.int32 := rfl
      rw [hnarrow, Numeric.int32Op_eq]
      cases hexact : op.exact a.toInt b.toInt <;> simp [number, hexact] <;> rfl

theorem negate_toValue (x : Whole) :
    x.toValue.negate = .ok (wrapped x.width (-x.number)).toValue := by
  cases x with
  | int32 n => simp [Value.negate, toValue, Value.numeric?, Numeric.negate, wrapped, width, number,
      Int32.ofInt_neg]
  | int n => simp [Value.negate, toValue, Value.numeric?, Numeric.negate, wrapped, width, number,
      Int64.ofInt_neg]

/-- Neither of the other meanings of addition is that of integers. -/
theorem replies_arith (op : ArithOp) (x y : Whole) : op.opcode.Replies [x.toValue, y.toValue]
    fun v => v.lift ((op.exact x.number y.number).map fun k =>
      (wrapped (common x y) k).toValue) := by
  intro s m o stack hs
  have hperform : m.perform s o op.opcode =
      { m with stack := stack }.pushResult (x.toValue.arith op y.toValue) := by
    simp only [List.reverse_cons, List.reverse_nil, List.nil_append, List.cons_append] at hs
    cases op <;> cases x <;> cases y <;>
      simp [ArithOp.opcode, Machine.perform, Machine.arithmetic, Machine.pop2, Machine.pop, hs,
        Machine.add, toValue]
  rw [hperform, arith_toValue]
  exact (Machine.pushReply_lift _).symm

theorem replies_neg (x : Whole) : Opcode.neg.Replies [x.toValue]
    fun v => v.give (wrapped x.width (-x.number)).toValue := by
  intro s m o stack hs
  rw [List.reverse_singleton, List.singleton_append] at hs
  simp only [Machine.perform, Machine.pop, hs, negate_toValue]
  rfl

/-- A remainder is in the range of the width, for it is no larger than what is divided. -/
theorem bmod_tmod (x y : Whole) : (x.number.tmod y.number).bmod (2 ^ (common x y).bits) =
    x.number.tmod y.number := by
  have hwide : (x.number.tmod y.number).bmod (2 ^ 64) = x.number.tmod y.number := by
    rw [← toInt_toInt64, ← toInt_toInt64, ← Int64.toInt_mod]
    exact Int64.toInt_bmod_size _
  cases x with
  | int a => cases y <;> exact hwide
  | int32 a =>
    cases y with
    | int b => exact hwide
    | int32 b =>
      have hmod : a.toInt.tmod b.toInt = (a % b).toInt := (Int32.toInt_mod a b).symm
      change (a.toInt.tmod b.toInt).bmod (2 ^ 32) = a.toInt.tmod b.toInt
      rw [hmod]
      exact Int32.toInt_bmod_size _

/-- The quotient times the divisor and the remainder make up what was divided, whatever is lost to
the width on the way. -/
theorem bmod_tdiv_mul_add_tmod (a b : ℤ) (n : ℕ) :
    (((a.tdiv b).bmod n * b).bmod n + a.tmod b).bmod n = a.bmod n := by
  rw [Int.bmod_mul_bmod, Int.bmod_add_bmod, Int.mul_comm, Int.mul_tdiv_add_tmod]

theorem tmod_sign (a b : ℤ) : a.tmod b = 0 ∨ (a.tmod b).sign = a.sign := by
  rw [Int.sign_tmod]
  split
  · next hdvd => exact .inl (Int.tmod_eq_zero_of_dvd hdvd)
  · exact .inr rfl

/-- Equality of a program is that of the integers. -/
theorem equal_toValue (h : x.number = y.number) : x.toValue.equal y.toValue = true := by
  cases x <;> cases y <;>
    simp_all [number, toValue, Value.equal, Value.numeric?, Numeric.equal, Numeric.order?,
      Numeric.promote, Numeric.toInt64, BinaryFormat.order]

/-- Sums, differences, products and opposites of integers are the exact ones, reduced to the width,
which is 64 bits unless both operands have 32. Division and remainder fail where the divisor is
zero. Everywhere else they give the quotient towards zero and the remainder that goes with it, which
make up the dividend again. A word of 32 bits is extended by its sign where one of 64 is asked for.
-/
theorem integers_wrap_and_divide (x y : Whole) :
    let w := common x y
    (Opcode.add.Replies [x.toValue, y.toValue] fun v =>
      v.give (wrapped w (x.number + y.number)).toValue) ∧
    (Opcode.sub.Replies [x.toValue, y.toValue] fun v =>
      v.give (wrapped w (x.number - y.number)).toValue) ∧
    (Opcode.mul.Replies [x.toValue, y.toValue] fun v =>
      v.give (wrapped w (x.number * y.number)).toValue) ∧
    (Opcode.neg.Replies [x.toValue] fun v => v.give (wrapped x.width (-x.number)).toValue) ∧
    (y.number = 0 →
      (Opcode.div.Replies [x.toValue, y.toValue] fun v => v.fail .integerDivision) ∧
      (Opcode.mod.Replies [x.toValue, y.toValue] fun v => v.fail .integerModulo) ∧
      ErrorCause.integerDivision.kind = "ArithmeticError" ∧
      ErrorCause.integerModulo.kind = "ArithmeticError") ∧
    (y.number ≠ 0 → ∃ q r p e : Whole,
      (Opcode.div.Replies [x.toValue, y.toValue] fun v => v.give q.toValue) ∧
      q = wrapped w (x.number.tdiv y.number) ∧
      (Opcode.mod.Replies [x.toValue, y.toValue] fun v => v.give r.toValue) ∧
      r.width = w ∧ r.number = x.number.tmod y.number ∧
      (r.number = 0 ∨ r.number.sign = x.number.sign) ∧ r.number.natAbs < y.number.natAbs ∧
      (Opcode.mul.Replies [q.toValue, y.toValue] fun v => v.give p.toValue) ∧
      (Opcode.add.Replies [p.toValue, r.toValue] fun v => v.give e.toValue) ∧
      e.width = w ∧ e.number = x.number ∧ e.toValue.equal x.toValue = true) ∧
    (∀ k, (wrapped w k).width = w ∧ (wrapped w k).number = k.bmod (2 ^ w.bits)) ∧
    (∀ n : Int32, (int32 n).toNumeric.toInt64.toBitVec = n.toBitVec.signExtend 64 ∧
      (int32 n).toNumeric.toInt64.toInt = (int32 n).number) := by
  intro w
  refine ⟨replies_arith .add x y, replies_arith .sub x y, replies_arith .mul x y, replies_neg x,
    fun hzero => ?_, fun hne => ?_, fun k => ⟨width_wrapped w k, number_wrapped w k⟩,
    fun n => ⟨Int32.toBitVec_toInt64 n, toInt_toInt64 (int32 n)⟩⟩
  · have hdiv := replies_arith .div x y
    have hmod := replies_arith .mod x y
    simp only [ArithOp.exact, hzero, if_true] at hdiv hmod
    exact ⟨hdiv, hmod, rfl, rfl⟩
  · have hdiv := replies_arith .div x y
    have hmod := replies_arith .mod x y
    simp only [ArithOp.exact, hne, if_false] at hdiv hmod
    set q := wrapped w (x.number.tdiv y.number) with hq
    set r := wrapped w (x.number.tmod y.number) with hr
    have hrem : r.number = x.number.tmod y.number := by
      rw [hr, number_wrapped]
      exact bmod_tmod x y
    have hmul := replies_arith .mul q y
    rw [hq, common_wrapped_left, ← hq] at hmul
    set p := wrapped w (q.number * y.number) with hp
    have hadd := replies_arith .add p r
    rw [hp, hr, common_wrapped, ← hp, ← hr] at hadd
    have hwhole : (wrapped w (p.number + r.number)).number = x.number := by
      rw [number_wrapped, hrem, hp, number_wrapped, hq, number_wrapped, bmod_tdiv_mul_add_tmod]
      exact bmod_number_left x y
    refine ⟨q, r, p, wrapped w (p.number + r.number), hdiv, rfl, hmod, width_wrapped w _, hrem, ?_,
      ?_, hmul, hadd, width_wrapped w _, hwhole, equal_toValue hwhole⟩
    · rw [hrem]
      exact tmod_sign _ _
    · rw [hrem, Int.natAbs_tmod]
      exact Nat.mod_lt _ (Int.natAbs_pos.2 hne)

end Whole

end BytecodeMachine
