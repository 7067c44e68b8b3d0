import BytecodeMachine.Number.FloatText

/-!
Decimal floating-point numbers: a coefficient of any length with a power of ten. Sums, products,
quotients and remainders are rounded to 34 digits, halves away from zero.
-/
namespace BytecodeMachine

/-- A decimal number. Two finite ones may denote the same number at different scales. -/
inductive Decimal where
  | finite (neg : Bool) (coeff : Nat) (exponent : Int)
  | infinite (neg : Bool)
  | nan (signaling neg : Bool)
deriving DecidableEq, Inhabited

/-- Why an operation has no result. -/
inductive DecimalError where
  | exponentRange
  | addScale
  | remainderScale
  | invalidOperation
  | divisionImpossible
deriving DecidableEq

def DecimalError.message : DecimalError → Text
  | exponentRange => "exponent out of range"
  | addScale => "add: exponent out of range"
  | remainderScale => "rem: exponent out of range"
  | invalidOperation => "invalid operation"
  | divisionImpossible => "division impossible"

namespace Decimal

/-- Digits kept by an operation. -/
def precision : Nat := 34

/-- The largest exponent, of the last and of the first digit, up and down. -/
def exponentLimit : Int := 100000

def ofInt (n : Int) : Decimal := finite (n < 0) n.natAbs 0

def negative : Decimal → Bool
  | finite neg _ _ => neg
  | infinite neg => neg
  | nan _ neg => neg

/-- The coefficient, zero where there is none. -/
def coeff : Decimal → Nat
  | finite _ c _ => c
  | _ => 0

def exponent : Decimal → Int
  | finite _ _ e => e
  | _ => 0

def isZero : Decimal → Bool
  | finite _ c _ => c = 0
  | _ => false

/-- How many decimal digits a number has; zero has one. -/
def digitCount (n : Nat) : Nat := (Nat.toDigits 10 n).length

def inLimits (e : Int) : Bool := -exponentLimit ≤ e && e ≤ exponentLimit

/-- Accepts an exponent given as a sum where every part and the place of the first digit are in
the limits. -/
def checked (neg : Bool) (c : Nat) (parts : List Int) : Except DecimalError Decimal :=
  let e := parts.foldl (· + ·) 0
  if parts.all inLimits && inLimits (e + digitCount c - 1) then .ok (finite neg c e)
  else .error .exponentRange

/-- Cuts a coefficient by `drop` digits, a half or more upwards, and says by how much the exponent
grows. -/
def cut (c drop : Nat) : Nat × Nat :=
  let q := c / tenTo drop
  let r := c % tenTo drop
  if tenTo drop ≤ 2 * r then
    -- Only nines carry into a new digit, and the result then ends in a zero.
    if digitCount q < digitCount (q + 1) then ((q + 1) / 10, drop + 1) else (q + 1, drop)
  else (q, drop)

/-- Rounds to the precision and checks the exponent. -/
def round (neg : Bool) (c : Nat) (e : Int) : Except DecimalError Decimal :=
  let n := digitCount c
  if n ≤ precision then checked neg c [e]
  else if exponentLimit < ((n - precision : Nat) : Int) then .error .exponentRange
  else
    let (q, drop) := cut c (n - precision)
    checked neg q [e, drop]

/-- The result where an operand is not a number: the first such operand, a signaling one being an
error. -/
def ofNaN? (x y : Decimal) : Option (Except DecimalError Decimal) :=
  match x, y with
  | nan true _, _ => some (.error .invalidOperation)
  | _, nan true _ => some (.error .invalidOperation)
  | nan false s, _ => some (.ok (nan false s))
  | _, nan false s => some (.ok (nan false s))
  | _, _ => none

/-- Both coefficients at the smaller of two exponents, unless these are too far apart. -/
def align? (c : Nat) (e : Int) (d : Nat) (g : Int) : Option (Nat × Nat × Int) :=
  let low := min e g
  if exponentLimit < max e g - low then none
  else some (c * tenTo (e - low).toNat, d * tenTo (g - low).toNat, low)

def signed (neg : Bool) (n : Nat) : Int := if neg then -(n : Int) else n

def add (x y : Decimal) : Except DecimalError Decimal :=
  match ofNaN? x y with
  | some r => r
  | none =>
    match x, y with
    | infinite s, infinite t => if s = t then .ok (infinite s) else .error .invalidOperation
    | infinite s, _ => .ok (infinite s)
    | _, infinite t => .ok (infinite t)
    | finite s c e, finite t d g =>
      match align? c e d g with
      | none => .error .addScale
      | some (a, b, low) =>
        if s = t then round s (a + b) low
        else
          let sum := signed s a + signed t b
          round (sum < 0) sum.natAbs low
    | _, _ => .error .invalidOperation

/-- The sign turned, whatever the number. -/
def flip : Decimal → Decimal
  | finite s c e => finite (!s) c e
  | infinite s => infinite (!s)
  | nan q s => nan q s

def sub (x y : Decimal) : Except DecimalError Decimal := add x y.flip

/-- The opposite number; zero has no negative one. -/
def neg : Decimal → Decimal
  | finite s c e => if c = 0 then finite false c e else finite (!s) c e
  | infinite s => infinite (!s)
  | nan q s => nan q (!s)

def mul (x y : Decimal) : Except DecimalError Decimal :=
  match ofNaN? x y with
  | some r => r
  | none =>
    let s := x.negative != y.negative
    match x, y with
    | finite _ c e, finite _ d g =>
      -- The exact product has to be in the limits too.
      match checked s (c * d) [e, g] with
      | .ok _ => round s (c * d) (e + g)
      | .error err => .error err
    | _, _ => if x.isZero || y.isZero then .error .invalidOperation else .ok (infinite s)

/-- Drops zeros at the end of a coefficient; `n` bounds their number. -/
def dropZeros : (n : Nat) → Nat → Int → Nat × Int
  | 0, c, e => (c, e)
  | n + 1, c, e => if c % 10 = 0 then dropZeros n (c / 10) (e + 1) else (c, e)

/-- The same number without zeros at the end; zero is written `0`. -/
def reduce : Decimal → Decimal
  | finite s c e =>
    if c = 0 then finite false 0 0
    else
      let (c, e) := dropZeros (digitCount c) c e
      finite s c e
  | x => x

/-- The quotient of two coefficients to `precision` digits and the exponent it is scaled by. -/
def quotient (c d : Nat) : Nat × Int :=
  let divide (shift : Int) : Nat × Nat × Nat :=
    let num := if 0 ≤ shift then c * tenTo shift.toNat else c
    let den := if 0 ≤ shift then d else d * tenTo (-shift).toNat
    (num / den, num % den, den)
  let shift : Int := precision - ((digitCount c : Int) - digitCount d)
  -- The first guess gives one digit too many where the dividend's digits are not the smaller ones.
  let shift := if digitCount (divide shift).1 ≤ precision then shift else shift - 1
  let (q, r, den) := divide shift
  if den ≤ 2 * r then
    if digitCount q < digitCount (q + 1) then ((q + 1) / 10, 1 - shift) else (q + 1, -shift)
  else (q, -shift)

/-- The quotient without zeros at the end; the divisor is not zero. -/
def div (x y : Decimal) : Except DecimalError Decimal :=
  match ofNaN? x y with
  | some r => r
  | none =>
    let s := x.negative != y.negative
    match x, y with
    | infinite _, infinite _ => .error .invalidOperation
    | infinite _, _ => .ok (infinite s)
    | _, infinite _ => .ok (finite false 0 0)
    | finite _ c e, finite _ d g =>
      let (q, k) := if c = 0 then (0, 0) else quotient c d
      match checked s q [e - g, k] with
      | .ok r => .ok r.reduce
      | .error err => .error err
    | _, _ => .error .invalidOperation

/-- The remainder of a division towards zero, with the sign of the dividend; the divisor is not
zero. -/
def rem (x y : Decimal) : Except DecimalError Decimal :=
  match ofNaN? x y with
  | some r => r
  | none =>
    match x, y with
    | infinite _, _ => .error .invalidOperation
    | _, infinite _ => .ok x
    | finite s c e, finite _ d g =>
      match align? c e d g with
      | none => .error .remainderScale
      | some (a, b, low) =>
        if precision < digitCount (a / b) then .error .divisionImpossible
        else round s (a % b) low
    | _, _ => .error .invalidOperation

/-- The sign as a number; what is not a number counts as its sign says. -/
def sign (x : Decimal) : Int := if x.isZero then 0 else if x.negative then -1 else 1

def orderNat (a b : Nat) : Ordering := if a < b then .lt else if b < a then .gt else .eq

/-- The order of two magnitudes by the place of their first digit, then by their digits. -/
def orderMagnitude (c : Nat) (e : Int) (d : Nat) (g : Int) : Ordering :=
  if e = g then orderNat c d
  else
    let p := (digitCount c : Int) + e
    let q := (digitCount d : Int) + g
    if p < q then .lt
    else if q < p then .gt
    else if e < g then orderNat c (d * tenTo (g - e).toNat)
    else orderNat (c * tenTo (e - g).toNat) d

/-- The order of decimals. What is not a number takes part with the coefficient zero. -/
def order (x y : Decimal) : Ordering :=
  if x.sign < y.sign then .lt
  else if y.sign < x.sign then .gt
  else if x.sign = 0 then .eq
  else
    let forward : Ordering := match x, y with
      | infinite _, infinite _ => .eq
      | infinite _, _ => .gt
      | _, infinite _ => .lt
      | _, _ => orderMagnitude x.coeff x.exponent y.coeff y.exponent
    if x.sign < 0 then forward.swap else forward

/-- The integer part and whether there is a fraction besides. -/
def integerPart (x : Decimal) : Decimal × Bool :=
  if 0 < x.exponent then (x, false)
  else
    let places := (-x.exponent).toNat
    if digitCount x.coeff < places then (finite x.negative 0 0, x.coeff ≠ 0)
    else
      let unit := tenTo places
      (finite x.negative (x.coeff / unit) 0, x.coeff % unit ≠ 0)

/-- The number as a signed 64-bit word, where it is an integer in that range. -/
def toInt64? : Decimal → Option Int64
  | finite s c e =>
    let (i, fraction) := integerPart (finite s c e)
    if fraction then none
    else if order i (ofInt (twoTo 63 - 1)) = .gt || order i (ofInt (-(twoTo 63))) = .lt then none
    else some (Int64.ofInt (signed s (i.coeff * tenTo i.exponent.toNat)))
  | _ => none

/-- Positional notation with all digits of the coefficient. -/
def toText (x : Decimal) : Text :=
  FloatText.signText x.negative ++ match x with
    | nan true _ => "sNaN"
    | nan false _ => "NaN"
    | infinite _ => "Infinity"
    | finite _ c e =>
      let digits := Text.ofNat c
      if e < 0 then FloatText.positional digits (digits.length + e)
      else digits ++ FloatText.zeros e.toNat

/-- The nearest binary number; a signed or signaling not-a-number counts as zero. -/
def toBinary64 : Decimal → Binary64
  | nan signaling neg => if signaling || neg then .zero else .nan
  | infinite neg => .ofNatBits (BinaryFormat.double.withSign neg BinaryFormat.double.infinityBits)
  | finite neg c e =>
    .ofNatBits (BinaryFormat.double.withSign neg (FloatText.ofDecimal .double c e))

/-- The decimal with the shortest digits of a finite binary number. -/
def ofBinary64? (x : Binary64) : Option Decimal :=
  match BinaryFormat.double.unpack x.pattern with
  | .finite neg m e =>
    if m = 0 then some (finite neg 0 0)
    else
      let d := Shortest.digits .double m e
      some (finite neg d.digits d.exponent)
  | _ => none

/-- Lower case for letters, U+0130 counting as a capital I. -/
def lowerWord : Text → Text
  | 0xC4 :: 0xB0 :: s => 105 :: lowerWord s
  | b :: s => Text.lowerByte b :: lowerWord s
  | [] => []

def dropWord (word : String) (s : Text) : Text × Bool :=
  match Text.afterStart? (Text.ofString word) s with
  | some t => (t, true)
  | none => (s, false)

/-- Digits with at most one point: the coefficient and the places after the point. -/
def readCoefficient? (s : Text) : Option (Nat × Nat) :=
  let before := s.takeWhile (· ≠ 46)
  let after := (s.dropWhile (· ≠ 46)).drop 1
  (Text.toNat? (before ++ after)).map fun c => (c, after.length)

/-- A number in decimal or scientific notation, without a sign. -/
def readFinite? (neg : Bool) (s : Text) : Option Decimal :=
  let mantissa := s.takeWhile (· ≠ 101)
  let power : Option (List Int) :=
    if s.contains 101 then (Text.toWord? 32 ((s.dropWhile (· ≠ 101)).drop 1)).map fun e => [e]
    else some []
  match power, readCoefficient? mantissa with
  | some power, some (c, places) =>
    match checked neg c (power ++ if mantissa.contains 46 then [-(places : Int)] else []) with
    | .ok d => some d
    | .error _ => none
  | _, _ => none

/-- Reads a number, an infinity, or a not-a-number with an optional payload, which is dropped. -/
def read? (s : Text) : Option Decimal :=
  let (neg, s) := match s with
    | 45 :: t => (true, t)
    | 43 :: t => (false, t)
    | _ => (false, s)
  match s with
  | 45 :: _ => none
  | 43 :: _ => none
  | _ =>
    let s := lowerWord s
    if s = Text.ofString "infinity" || s = Text.ofString "inf" then some (infinite neg)
    else
      let (s, quiet) := dropWord "nan" s
      let (s, signaling) := dropWord "snan" s
      if quiet || signaling then
        match s with
        | [] => some (nan signaling neg)
        | _ =>
          match Text.toNat? s with
          | some n => if n < twoTo 64 then some (nan signaling neg) else none
          | none => none
      else readFinite? neg s

end Decimal

end BytecodeMachine
