import BytecodeMachine.Machine.Failure

/-!
Arithmetic and comparison of numbers. Operands of two kinds are first brought to the higher one in
the order int32, int, float32, float, decimal.
-/
namespace BytecodeMachine

inductive ArithOp where
  | add
  | sub
  | mul
  | div
  | mod
deriving DecidableEq

def ArithOp.symbol : ArithOp → String
  | add => "+"
  | sub => "-"
  | mul => "*"
  | div => "/"
  | mod => "%"

inductive CompareOp where
  | lt
  | le
  | gt
  | ge
deriving DecidableEq

def CompareOp.symbol : CompareOp → String
  | lt => "<"
  | le => "<="
  | gt => ">"
  | ge => ">="

def CompareOp.holds : CompareOp → Ordering → Bool
  | lt, o => o = .lt
  | le, o => o ≠ .gt
  | gt, o => o = .gt
  | ge, o => o ≠ .lt

/-- Numbers by kind. -/
inductive Numeric where
  | int32 (n : Int32)
  | int (n : Int64)
  | float32 (x : Binary32)
  | float (x : Binary64)
  | decimal (d : Decimal)
deriving DecidableEq

def Value.numeric? : Value → Option Numeric
  | .int32 n => some (.int32 n)
  | .int n => some (.int n)
  | .float32 x => some (.float32 x)
  | .float x => some (.float x)
  | .decimal d => some (.decimal d)
  | _ => none

namespace Numeric

/-- The text of a binary number: `Infinity`, `-Infinity` and `NaN` by name, and a point or an
exponent in every other. -/
def floatText (x : Binary64) (digits : Text) : Text :=
  if x.isNaN then "NaN"
  else if x.isInfinite then (if x.isNegative then "-Infinity" else "Infinity")
  else if digits.any fun b => b = 46 || b = 101 || b = 78 then digits
  else digits ++ ".0"

def float64Text (x : Binary64) : Text := floatText x (FloatText.ofBinary64 x)

def float32Text (x : Binary32) : Text := floatText x.toDouble (FloatText.ofBinary32 x)

def toInt64 : Numeric → Int64
  | int32 n => n.toInt64
  | int n => n
  | _ => 0

def toBinary64 : Numeric → Binary64
  | int32 n => .ofInt n.toInt
  | int n => .ofInt n.toInt
  | float32 x => x.toDouble
  | float x => x
  | decimal d => d.toBinary64

def toBinary32 (a : Numeric) : Binary32 := a.toBinary64.toSingle

/-- The number as a decimal; a binary number goes by its shortest digits and has to be finite. -/
def toDecimal : Numeric → Except ErrorCause Decimal
  | int32 n => .ok (.ofInt n.toInt)
  | int n => .ok (.ofInt n.toInt)
  | decimal d => .ok d
  | float32 x =>
    match Decimal.ofBinary64? x.toDouble with
    | some d => .ok d
    | none => .error (.floatToDecimal (float64Text x.toDouble))
  | float x =>
    match Decimal.ofBinary64? x with
    | some d => .ok d
    | none => .error (.floatToDecimal (float64Text x))

/-- Two numbers brought to one kind. -/
inductive Pair where
  | int32 (a b : Int32)
  | int (a b : Int64)
  | float32 (a b : Binary32)
  | float (a b : Binary64)
  | decimal (a b : Numeric)

def promote : Numeric → Numeric → Pair
  | a, b =>
    match a, b with
    | decimal _, _ | _, decimal _ => .decimal a b
    | float _, _ | _, float _ => .float a.toBinary64 b.toBinary64
    | float32 _, _ | _, float32 _ => .float32 a.toBinary32 b.toBinary32
    | int32 x, int32 y => .int32 x y
    | _, _ => .int a.toInt64 b.toInt64

/-- Integer arithmetic wraps at the width; division goes towards zero. -/
def intOp (op : ArithOp) (x y : Int64) : Except ErrorCause Int64 :=
  match op with
  | .add => .ok (x + y)
  | .sub => .ok (x - y)
  | .mul => .ok (x * y)
  | .div => if y = 0 then .error .integerDivision else if y = -1 then .ok (-x) else .ok (x / y)
  | .mod => if y = 0 then .error .integerModulo else if y = -1 then .ok 0 else .ok (x % y)

def int32Op (op : ArithOp) (x y : Int32) : Except ErrorCause Int32 :=
  match op with
  | .add => .ok (x + y)
  | .sub => .ok (x - y)
  | .mul => .ok (x * y)
  | .div => if y = 0 then .error .integerDivision else if y = -1 then .ok (-x) else .ok (x / y)
  | .mod => if y = 0 then .error .integerModulo else if y = -1 then .ok 0 else .ok (x % y)

def float32Op (op : ArithOp) (x y : Binary32) : Binary32 :=
  match op with
  | .add => x.add y
  | .sub => x.sub y
  | .mul => x.mul y
  | .div => x.div y
  | .mod => x.rem y

def floatOp (op : ArithOp) (x y : Binary64) : Binary64 :=
  match op with
  | .add => x.add y
  | .sub => x.sub y
  | .mul => x.mul y
  | .div => x.div y
  | .mod => x.rem y

def decimalResult (op : ArithOp) (x y : Decimal) : Except DecimalError Decimal :=
  match op with
  | .add => x.add y
  | .sub => x.sub y
  | .mul => x.mul y
  | .div => x.div y
  | .mod => x.rem y

def decimalOp (op : ArithOp) (a b : Numeric) : Except ErrorCause Decimal :=
  match a.toDecimal with
  | .error e => .error e
  | .ok x =>
    match b.toDecimal with
    | .error e => .error e
    | .ok y =>
      if (op = .div || op = .mod) && y.isZero then .error .decimalDivision
      else match decimalResult op x y with
        | .ok d => .ok d
        | .error e => .error (.decimalFailure op.symbol e)

/-- Addition, subtraction, multiplication, division and remainder of two numbers. -/
def arith (op : ArithOp) (a b : Numeric) : Except ErrorCause Value :=
  match promote a b with
  | .int32 x y => (int32Op op x y).map .int32
  | .int x y => (intOp op x y).map .int
  | .float32 x y => .ok (.float32 (float32Op op x y))
  | .float x y => .ok (.float (floatOp op x y))
  | .decimal a b => (decimalOp op a b).map .decimal

def negate : Numeric → Value
  | int32 n => .int32 (-n)
  | int n => .int (-n)
  | float32 x => .float32 x.neg
  | float x => .float x.neg
  | decimal d => .decimal d.neg

/-- The order of two numbers, none where one of them is no number or has no decimal. -/
def order? (a b : Numeric) : Option Ordering :=
  match promote a b with
  | .int32 x y => some (BinaryFormat.order x.toInt y.toInt)
  | .int x y => some (BinaryFormat.order x.toInt y.toInt)
  | .float32 x y => x.compare? y
  | .float x y => x.compare? y
  | .decimal a b =>
    match a.toDecimal, b.toDecimal with
    | .ok x, .ok y => some (x.order y)
    | _, _ => none

def equal (a b : Numeric) : Bool := a.order? b = some .eq

end Numeric

/-- The operation on any two values but those that `+` joins otherwise. -/
def Value.arith (op : ArithOp) (a b : Value) : Except ErrorCause Value :=
  match a.numeric?, b.numeric? with
  | some x, some y => Numeric.arith op x y
  | _, _ => .error (.operandTypes op.symbol a.kind b.kind)

def Value.negate (a : Value) : Except ErrorCause Value :=
  match a.numeric? with
  | some x => .ok x.negate
  | none => .error (.unaryOperand a.kind)

def Text.order (s t : Text) : Ordering := if s.lt t then .lt else if t.lt s then .gt else .eq

/-- Comparison of two numbers, two strings by their bytes, or two characters by their numbers. -/
def Value.compare (op : CompareOp) (a b : Value) : Except ErrorCause Bool :=
  match a.numeric?, b.numeric? with
  | some x, some y =>
    match x.order? y with
    | some o => .ok (op.holds o)
    | none => .ok false
  | _, _ =>
    match a, b with
    | .string s, .string t => .ok (op.holds (Text.order s t))
    | .char c, .char d => .ok (op.holds (BinaryFormat.order c.toInt d.toInt))
    | _, _ => .error (.incomparable op.symbol a.kind b.kind)

end BytecodeMachine
