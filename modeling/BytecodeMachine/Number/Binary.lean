import BytecodeMachine.Number.Power

/-!
Binary floating-point numbers as bit patterns, with exact arithmetic on the numbers they denote and
one rounding at the end: to nearest, ties to even. Not-a-number patterns keep their payload.
-/
namespace BytecodeMachine

/-- An interchange format: `precision` counts the bits of a significand with its leading one. -/
structure BinaryFormat where
  width : Nat
  precision : Nat
deriving DecidableEq, Repr

/-- What a bit pattern denotes; a finite number is `m * 2 ^ e` with a sign. -/
inductive Unpacked where
  | nan
  | infinite (neg : Bool)
  | finite (neg : Bool) (m : Nat) (e : Int)
deriving DecidableEq, Repr

namespace BinaryFormat

def half : BinaryFormat := ⟨16, 11⟩
def single : BinaryFormat := ⟨32, 24⟩
def double : BinaryFormat := ⟨64, 53⟩

variable (f : BinaryFormat)

def exponentBits : Nat := f.width - f.precision

/-- The unit of the significand, which is one for the least exponent. -/
def leading : Nat := twoTo (f.precision - 1)

/-- The exponent of the last place of the least numbers. -/
def minExponent : Int := 3 - twoTo (f.exponentBits - 1) - f.precision

def infinityBits : Nat := (twoTo f.exponentBits - 1) * f.leading

def signBit : Nat := twoTo (f.width - 1)

def quietBit : Nat := twoTo (f.precision - 2)

def signOf (bits : Nat) : Bool := f.signBit ≤ bits

def magnitude (bits : Nat) : Nat := bits % f.signBit

def withSign (neg : Bool) (magnitude : Nat) : Nat :=
  if neg then f.signBit + magnitude else magnitude

def unpack (bits : Nat) : Unpacked :=
  let neg := f.signOf bits
  let mag := f.magnitude bits
  if f.infinityBits < mag then .nan
  else if mag = f.infinityBits then .infinite neg
  else
    let exponent := mag / f.leading
    if exponent = 0 then .finite neg mag f.minExponent
    else .finite neg (mag % f.leading + f.leading) (f.minExponent + exponent - 1)

def isNaN (bits : Nat) : Bool := f.infinityBits < f.magnitude bits

def isInfinite (bits : Nat) : Bool := f.magnitude bits = f.infinityBits

def isZero (bits : Nat) : Bool := f.magnitude bits = 0

/-- Multiplies the numerator or the denominator so that the ratio is divided by `2 ^ e`. -/
def scale (num den : Nat) (e : Int) : Nat × Nat :=
  if 0 ≤ e then (num, den * twoTo e.toNat) else (num * twoTo (-e).toNat, den)

/-- The nearest natural number to a ratio, the even one of two. -/
def roundRatio (num den : Nat) : Nat :=
  let q := num / den
  let r := num % den
  if den < 2 * r || (2 * r = den && q % 2 = 1) then q + 1 else q

/-- The pattern of the number nearest to `num / den`, without a sign; `den` is not zero. -/
def ofRatio (num den : Nat) : Nat :=
  if num = 0 then 0
  else
    let k : Int := (num.log2 : Int) - (den.log2 : Int)
    let e₀ := max f.minExponent (k - f.precision)
    let s := scale num den e₀
    let e := if twoTo f.precision ≤ s.1 / s.2 then e₀ + 1 else e₀
    let t := scale num den e
    min f.infinityBits ((e - f.minExponent).toNat * f.leading + roundRatio t.1 t.2)

/-- The pattern nearest to `± m * 2 ^ e`. -/
def ofScaled (neg : Bool) (m : Nat) (e : Int) : Nat :=
  f.withSign neg (if 0 ≤ e then f.ofRatio (m * twoTo e.toNat) 1 else f.ofRatio m (twoTo (-e).toNat))

/-- The pattern nearest to an integer. -/
def ofInt (n : Int) : Nat := f.withSign (n < 0) (f.ofRatio n.natAbs 1)

/-- The quiet pattern with the payload of a not-a-number. -/
def quiet (bits : Nat) : Nat := bits ||| f.quietBit

/-- The pattern an invalid operation gives. -/
def invalid : Nat := f.withSign true (f.infinityBits + f.quietBit)

def negate (bits : Nat) : Nat := f.withSign (!f.signOf bits) (f.magnitude bits)

/-- A signed significand aligned to the exponent `e`, which is not above its own. -/
def aligned (neg : Bool) (m : Nat) (e₀ e : Int) : Int :=
  let n : Int := m * twoTo (e₀ - e).toNat
  if neg then -n else n

def add (x y : Nat) : Nat :=
  match f.unpack x, f.unpack y with
  | .nan, _ => f.quiet x
  | _, .nan => f.quiet y
  | .infinite s, .infinite t => if s = t then x else f.invalid
  | .infinite _, _ => x
  | _, .infinite _ => y
  | .finite s m e, .finite t n g =>
    let low := min e g
    let sum := aligned s m e low + aligned t n g low
    if sum = 0 then f.withSign (s && t && m = 0 && n = 0) 0
    else f.ofScaled (sum < 0) sum.natAbs low

def sub (x y : Nat) : Nat := if f.isNaN y && !f.isNaN x then f.quiet y else f.add x (f.negate y)

def mul (x y : Nat) : Nat :=
  match f.unpack x, f.unpack y with
  | .nan, _ => f.quiet x
  | _, .nan => f.quiet y
  | .infinite s, .infinite t => f.withSign (s != t) f.infinityBits
  | .infinite s, .finite t n _ =>
    if n = 0 then f.invalid else f.withSign (s != t) f.infinityBits
  | .finite s m _, .infinite t =>
    if m = 0 then f.invalid else f.withSign (s != t) f.infinityBits
  | .finite s m e, .finite t n g => f.ofScaled (s != t) (m * n) (e + g)

def div (x y : Nat) : Nat :=
  match f.unpack x, f.unpack y with
  | .nan, _ => f.quiet x
  | _, .nan => f.quiet y
  | .infinite _, .infinite _ => f.invalid
  | .infinite s, .finite t _ _ => f.withSign (s != t) f.infinityBits
  | .finite s _ _, .infinite t => f.withSign (s != t) 0
  | .finite s m e, .finite t n g =>
    if n = 0 then
      if m = 0 then f.invalid else f.withSign (s != t) f.infinityBits
    else
      let r := scale m n (g - e)
      f.withSign (s != t) (f.ofRatio r.1 r.2)

/-- The order of two integers. -/
def order (a b : Int) : Ordering := if a < b then .lt else if b < a then .gt else .eq

/-- The order of two numbers that are both not a not-a-number. -/
def compare? (x y : Nat) : Option Ordering :=
  match f.unpack x, f.unpack y with
  | .nan, _ => none
  | _, .nan => none
  | .infinite s, .infinite t => some (if s = t then .eq else if s then .lt else .gt)
  | .infinite s, _ => some (if s then .lt else .gt)
  | _, .infinite t => some (if t then .gt else .lt)
  | .finite s m e, .finite t n g =>
    let low := min e g
    some (order (aligned s m e low) (aligned t n g low))

/-- The number in another format: exact or rounded, a payload cut or filled at its low end. -/
def convert (g : BinaryFormat) (bits : Nat) : Nat :=
  let neg := f.signOf bits
  match f.unpack bits with
  | .nan =>
    let payload := f.magnitude bits % f.leading
    let kept :=
      if g.precision ≤ f.precision then payload / twoTo (f.precision - g.precision)
      else payload * twoTo (g.precision - f.precision)
    g.quiet (g.withSign neg (g.infinityBits + kept))
  | .infinite s => g.withSign s g.infinityBits
  | .finite s m e => g.ofScaled s m e

/-- The integer part of a finite number, towards zero. -/
def truncate? (bits : Nat) : Option Int :=
  match f.unpack bits with
  | .finite s m e =>
    let n : Nat := if 0 ≤ e then m * twoTo e.toNat else m / twoTo (-e).toNat
    some (if s then -(n : Int) else n)
  | _ => none

/-- Whether a finite number has no fraction. -/
def isIntegral (bits : Nat) : Bool :=
  match f.unpack bits with
  | .finite _ m e => 0 ≤ e || m % twoTo (-e).toNat = 0
  | _ => false

end BinaryFormat

/-- A double-precision number by its bits. -/
structure Binary64 where
  bits : UInt64
deriving DecidableEq, Hashable, Inhabited

/-- A single-precision number by its bits. -/
structure Binary32 where
  bits : UInt32
deriving DecidableEq, Hashable, Inhabited

namespace Binary64

open BinaryFormat

def ofNatBits (n : Nat) : Binary64 := ⟨n.toUInt64⟩

/-- The not-a-number that reading and the remainder give. -/
def nan : Binary64 := ⟨0x7FF8000000000001⟩

def zero : Binary64 := ⟨0⟩

def pattern (x : Binary64) : Nat := x.bits.toNat

def add (x y : Binary64) : Binary64 := ofNatBits (double.add x.pattern y.pattern)
def sub (x y : Binary64) : Binary64 := ofNatBits (double.sub x.pattern y.pattern)
def mul (x y : Binary64) : Binary64 := ofNatBits (double.mul x.pattern y.pattern)
def div (x y : Binary64) : Binary64 := ofNatBits (double.div x.pattern y.pattern)
def neg (x : Binary64) : Binary64 := ofNatBits (double.negate x.pattern)

def isNaN (x : Binary64) : Bool := double.isNaN x.pattern
def isInfinite (x : Binary64) : Bool := double.isInfinite x.pattern
def isZero (x : Binary64) : Bool := double.isZero x.pattern
def isNegative (x : Binary64) : Bool := double.signOf x.pattern

/-- The exact remainder of a division towards zero, with the sign of the dividend. -/
def rem (x y : Binary64) : Binary64 :=
  match double.unpack x.pattern, double.unpack y.pattern with
  | .finite _ _ _, .infinite _ => x
  | .finite s m e, .finite _ n g =>
    if n = 0 then nan
    else
      let low := min e g
      let r := (m * twoTo (e - low).toNat) % (n * twoTo (g - low).toNat)
      ofNatBits (double.ofScaled s r low)
  | _, _ => nan

def compare? (x y : Binary64) : Option Ordering := double.compare? x.pattern y.pattern

def ofInt (n : Int) : Binary64 := ofNatBits (double.ofInt n)

def truncate? (x : Binary64) : Option Int := double.truncate? x.pattern

def isIntegral (x : Binary64) : Bool := double.isIntegral x.pattern

def toSingle (x : Binary64) : Binary32 := ⟨(double.convert single x.pattern).toUInt32⟩

end Binary64

namespace Binary32

open BinaryFormat

def pattern (x : Binary32) : Nat := x.bits.toNat

def ofNatBits (n : Nat) : Binary32 := ⟨n.toUInt32⟩

def add (x y : Binary32) : Binary32 := ofNatBits (single.add x.pattern y.pattern)
def sub (x y : Binary32) : Binary32 := ofNatBits (single.sub x.pattern y.pattern)
def mul (x y : Binary32) : Binary32 := ofNatBits (single.mul x.pattern y.pattern)
def div (x y : Binary32) : Binary32 := ofNatBits (single.div x.pattern y.pattern)
def neg (x : Binary32) : Binary32 := ofNatBits (single.negate x.pattern)

def isZero (x : Binary32) : Bool := single.isZero x.pattern

def toDouble (x : Binary32) : Binary64 := .ofNatBits (single.convert double x.pattern)

def rem (x y : Binary32) : Binary32 := (x.toDouble.rem y.toDouble).toSingle

def compare? (x y : Binary32) : Option Ordering := single.compare? x.pattern y.pattern

end Binary32

end BytecodeMachine
