import BytecodeMachine.Number.Binary

/-!
The fewest decimal digits that read back as the same binary number.
-/
namespace BytecodeMachine.Shortest

/-- Decimal digits as one number: the value is `digits * 10 ^ exponent`. -/
structure Digits where
  digits : Nat
  exponent : Int
deriving DecidableEq, Repr

/-- The numerator and denominator of `num / den / 10 ^ k`. -/
def scaleTen (num den : Nat) (k : Int) : Nat × Nat :=
  if 0 ≤ k then (num, den * tenTo k.toNat) else (num * tenTo (-k).toNat, den)

/-- Whether `num / den < 10 ^ k`. -/
def belowPower (num den : Nat) (k : Int) : Bool :=
  let s := scaleTen num den k
  s.1 < s.2

/-- The least `k` with `num / den < 10 ^ k`, found near an estimate from the binary logarithm. -/
def decimalPoint (num den : Nat) : Int :=
  let bits : Int := (num.log2 : Int) - (den.log2 : Int)
  let k := (bits * 30103).fdiv 100000
  if belowPower num den (k - 1) then k - 1
  else if belowPower num den k then k
  else if belowPower num den (k + 1) then k + 1
  else k + 2

/-- The reals that round to a number, in quarters of the unit of its last place: the number is
`4 * m`, the interval `low` to `high` includes its ends where `closed`. -/
structure Interval where
  low : Nat
  value : Nat
  high : Nat
  closed : Bool

def interval (f : BinaryFormat) (m : Nat) (e : Int) : Interval :=
  -- Below a power of two the neighbour is only half as far away.
  { low := if m = f.leading && f.minExponent < e then 4 * m - 1 else 4 * m - 2
    value := 4 * m
    high := 4 * m + 2
    closed := m % 2 = 0 }

/-- Whether `n * 10 ^ k` lies in the interval, whose unit is `num / den`. -/
def Interval.holds (i : Interval) (num den : Nat) (n : Nat) (k : Int) : Bool :=
  let s := scaleTen num den k
  let a := n * s.2
  let lo := i.low * s.1
  let hi := i.high * s.1
  if i.closed then lo ≤ a && a ≤ hi else lo < a && a < hi

/-- Tries `count` digits, then more, until a decimal lies in the interval; of two the nearer one,
of two equally near the even one. -/
def search (i : Interval) (num den : Nat) (point : Int) : (fuel count : Nat) → Digits
  | 0, count =>
    let k := point - count
    let s := scaleTen (i.value * num) den k
    ⟨s.1 / s.2, k⟩
  | fuel + 1, count =>
    let k := point - count
    let s := scaleTen (i.value * num) den k
    let n := s.1 / s.2
    let r := s.1 % s.2
    -- `n` and `n + 1` are the neighbours of the value on the grid of this many digits.
    let down := i.holds num den n k && n ≠ 0
    let up := i.holds num den (n + 1) k
    if down && (!up || 2 * r < s.2 || (2 * r = s.2 && n % 2 = 0)) then ⟨n, k⟩
    else if up then ⟨n + 1, k⟩
    else search i num den point fuel (count + 1)

/-- Drops zeros at the end. -/
def trimZeros : (fuel : Nat) → Digits → Digits
  | 0, d => d
  | fuel + 1, d =>
    if d.digits % 10 = 0 && d.digits ≠ 0 then trimZeros fuel ⟨d.digits / 10, d.exponent + 1⟩ else d

/-- The shortest digits of `m * 2 ^ e`, where `m` is not zero. -/
def digits (f : BinaryFormat) (m : Nat) (e : Int) : Digits :=
  let i := interval f m e
  -- The interval counts in quarters, hence two powers of two less.
  let e₄ := e - 2
  let num := if 0 ≤ e₄ then twoTo e₄.toNat else 1
  let den := if 0 ≤ e₄ then 1 else twoTo (-e₄).toNat
  trimZeros 20 (search i num den (decimalPoint (i.value * num) den) 17 1)

end BytecodeMachine.Shortest
