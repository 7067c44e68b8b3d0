import BytecodeMachine.Number.Binary
import BytecodeMachine.Text.Utf8

/-!
Spans of time as text, such as `1h30m` or `250ms`, and as whole nanoseconds.
-/
namespace BytecodeMachine.Duration

def units : List (String × Nat) :=
  [("ns", 1), ("us", 1000), ("\u00b5s", 1000), ("\u03bcs", 1000), ("ms", 1000000),
   ("s", 1000000000), ("m", 60000000000), ("h", 3600000000000)]

/-- The nanoseconds of a unit. -/
def unit? (name : Text) : Option Nat :=
  (units.find? fun u => Text.ofString u.1 = name).map (·.2)

/-- The largest number of nanoseconds, counted without a sign. -/
def limit : Nat := twoTo 63

/-- The digits of a fraction and the power of ten they are counted in, as far as they fit. -/
def readFraction : (x scale : Nat) → Text → Nat × Nat
  | x, scale, [] => (x, scale)
  | x, scale, b :: s =>
    let y := 10 * x + (b.toNat - 48)
    if (limit - 1) / 10 < x || limit < y then (x, scale) else readFraction y (10 * scale) s

/-- A fraction of a unit, computed in floating point and cut to whole nanoseconds. -/
def fractionOf (unit : Nat) (digits : Text) : Nat :=
  let (x, scale) := readFraction 0 1 digits
  let part := (Binary64.ofInt x).mul ((Binary64.ofInt unit).div (Binary64.ofInt scale))
  (part.truncate?.getD 0).toNat

def isNumberByte (b : UInt8) : Bool := b = 46 || Text.isDigit b

/-- The sum of numbers with units; the number bounds how many there are. -/
def readParts : (fuel : Nat) → (sum : Nat) → Text → Option Nat
  | 0, _, _ => none
  | n + 1, sum, s =>
    if s.isEmpty then some sum
    else do
      let whole := s.takeWhile Text.isDigit
      let s := s.drop whole.length
      let (part, s) : Text × Text := match s with
        | 46 :: s => (s.takeWhile Text.isDigit, s.dropWhile Text.isDigit)
        | _ => ([], s)
      if whole.isEmpty && part.isEmpty then none
      let name := s.takeWhile fun b => !isNumberByte b
      let unit ← unit? name
      let v := Text.digitsValue whole
      if limit / unit < v then none
      let v := v * unit + fractionOf unit part
      if limit < v || limit < sum + v then none
      readParts n (sum + v) (s.drop name.length)

/-- Reads a span of time in nanoseconds. Zero needs no unit. -/
def read? (s : Text) : Option Int := do
  let (neg, body) : Bool × Text := match s with
    | 43 :: s => (false, s)
    | 45 :: s => (true, s)
    | _ => (false, s)
  if body = "0" then return 0
  if body.isEmpty then none
  let d ← readParts (body.length + 1) 0 body
  if neg then return -(d : Int)
  if d < limit then return d else none

end BytecodeMachine.Duration
