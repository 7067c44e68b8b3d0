import BytecodeMachine.Number.Shortest
import BytecodeMachine.Text.Basic

/-!
Binary numbers as text: the shortest digits, positional for small exponents and scientific beyond,
and the reader that takes decimal and hexadecimal notation.
-/
namespace BytecodeMachine.FloatText

def zeros (n : Nat) : Text := List.replicate n 48

/-- Digits with a point after `point` of them, filled with zeros at either end. -/
def positional (digits : Text) (point : Int) : Text :=
  if point ≤ 0 then "0." ++ zeros (-point).toNat ++ digits
  else if digits.length ≤ point.toNat then digits ++ zeros (point.toNat - digits.length)
  else digits.take point.toNat ++ "." ++ digits.drop point.toNat

/-- One digit, the others after a point, and an exponent with a sign and at least two digits. -/
def scientific (mark : UInt8) (digits : Text) (exponent : Int) : Text :=
  let fraction : Text := if digits.length ≤ 1 then [] else (46 : UInt8) :: digits.drop 1
  let size := Text.ofNat exponent.natAbs
  let padded : Text := if size.length < 2 then (48 : UInt8) :: size else size
  digits.take 1 ++ fraction ++ [mark, if exponent < 0 then 45 else 43] ++ padded

/-- Exponents from -4 to 5 are written positionally. -/
def general (digits : Text) (exponent : Int) : Text :=
  if exponent < -4 || 6 ≤ exponent then scientific 101 digits exponent
  else positional digits (exponent + 1)

def signText (neg : Bool) : Text := if neg then [45] else []

/-- The number as text; `+Inf`, `-Inf` and `NaN` for the patterns that are no number. -/
def render (f : BinaryFormat) (bits : Nat) : Text :=
  match f.unpack bits with
  | .nan => "NaN"
  | .infinite neg => if neg then "-Inf" else "+Inf"
  | .finite neg m e =>
    if m = 0 then signText neg ++ [48]
    else
      let d := Shortest.digits f m e
      let digits := Text.ofNat d.digits
      signText neg ++ general digits (d.exponent + digits.length - 1)

def ofBinary64 (x : Binary64) : Text := render .double x.pattern

def ofBinary32 (x : Binary32) : Text := render .single x.pattern

/-- Underscores are allowed only between digits, a base mark counting as a digit. -/
def underscoresSeparate (s : Text) : Bool :=
  let s := match s with
    | 43 :: t => t
    | 45 :: t => t
    | _ => s
  let hex : Bool := match s with
    | 48 :: b :: _ => Text.lowerByte b = 120
    | _ => false
  let (start, rest) := match s with
    | 48 :: b :: t =>
      let l := Text.lowerByte b
      if l = 98 || l = 111 || l = 120 then ((48 : UInt8), t) else (94, s)
    | _ => (94, s)
  let last := rest.foldl (fun (saw : Option UInt8) b =>
    match saw with
    | none => none
    | some saw =>
      if Text.isDigit b || (hex && (Text.hexValue? b).isSome) then some 48
      else if b = 95 then (if saw = 48 then some 95 else none)
      else if saw = 95 then none
      else some 33) (some start)
  match last with
  | some saw => saw ≠ 95
  | none => false

/-- A number before rounding: `digits`, of which `places` follow the point. -/
structure Mantissa where
  digits : Nat := 0
  places : Nat := 0
  point : Bool := false
  any : Bool := false

/-- Reads digits with at most one point; underscores are skipped here. -/
def readMantissa (base : Nat) : Mantissa → Text → Mantissa × Text
  | m, [] => (m, [])
  | m, b :: s =>
    if b = 95 then readMantissa base m s
    else if b = 46 then
      if m.point then (m, b :: s) else readMantissa base { m with point := true } s
    else match (if base = 16 then Text.hexValue? b else
        if Text.isDigit b then some (b.toNat - 48) else none) with
      | some d =>
        readMantissa base { m with
          digits := base * m.digits + d
          places := if m.point then m.places + 1 else m.places
          any := true } s
      | none => (m, b :: s)

/-- Exponents stop growing at five digits, far beyond every format. -/
def readExponent (s : Text) : Option Int :=
  let (neg, s) := match s with
    | 45 :: t => (true, t)
    | 43 :: t => (false, t)
    | _ => (false, s)
  match s with
  | [] => none
  | b :: _ =>
    if !Text.isDigit b || !(s.all fun b => Text.isDigit b || b = 95) then none
    else
      let n : Nat := s.foldl (fun n b =>
        if b = 95 then n else if n < 10000 then 10 * n + (b.toNat - 48) else n) 0
      some (if neg then -(n : Int) else n)

/-- How reading a number can end: the text is no number, or the number is too large. -/
inductive ReadError where
  | syntactic
  | range
deriving DecidableEq

def matchesWord (word : String) (s : Text) : Bool := s.map Text.lowerByte = Text.ofString word

/-- The magnitude pattern of `digits * 10 ^ exponent`. Beyond the exponents of the format the answer
is known without computing the power. -/
def ofDecimal (f : BinaryFormat) (digits : Nat) (exponent : Int) : Nat :=
  if digits = 0 then 0
  else
    let size : Int := (Text.ofNat digits).length + exponent
    if 400 < size then f.infinityBits
    else if size < -400 then 0
    else if 0 ≤ exponent then f.ofRatio (digits * tenTo exponent.toNat) 1
    else f.ofRatio digits (tenTo (-exponent).toNat)

/-- The magnitude pattern of `digits * 2 ^ exponent`. -/
def ofBinary (f : BinaryFormat) (digits : Nat) (exponent : Int) : Nat :=
  if digits = 0 then 0
  else
    let size : Int := digits.log2 + exponent
    if 2000 < size then f.infinityBits
    else if size < -2000 then 0
    else if 0 ≤ exponent then f.ofRatio (digits * twoTo exponent.toNat) 1
    else f.ofRatio digits (twoTo (-exponent).toNat)

/-- Reads a magnitude in decimal notation or, after `0x`, in hexadecimal with a binary exponent. -/
def readMagnitude (f : BinaryFormat) (s : Text) : Except ReadError Nat :=
  let (hex, body) := match s with
    | 48 :: b :: c :: t => if Text.lowerByte b = 120 then (true, c :: t) else (false, s)
    | _ => (false, s)
  let (m, rest) := readMantissa (if hex then 16 else 10) {} body
  if !m.any then .error .syntactic
  else if s.contains 95 && !underscoresSeparate s then .error .syntactic
  else
    let exponent : Option Int := match rest with
      | [] => if hex then none else some 0
      | b :: t => if Text.lowerByte b = (if hex then 112 else 101) then readExponent t else none
    match exponent with
    | none => .error .syntactic
    | some e =>
      let mag :=
        if hex then ofBinary f m.digits (e - 4 * m.places) else ofDecimal f m.digits (e - m.places)
      if mag = f.infinityBits then .error .range else .ok mag

/-- Reads a number, `inf`, `infinity` with an optional sign, or `nan`, in any case. -/
def read (s : Text) : Except ReadError Binary64 :=
  let (sign, body) := match s with
    | 45 :: t => (some true, t)
    | 43 :: t => (some false, t)
    | _ => (none, s)
  let neg := sign.getD false
  if matchesWord "inf" body || matchesWord "infinity" body then
    .ok (.ofNatBits (BinaryFormat.double.withSign neg BinaryFormat.double.infinityBits))
  else if sign.isNone && matchesWord "nan" body then .ok .nan
  else
    match readMagnitude .double body with
    | .ok mag => .ok (.ofNatBits (BinaryFormat.double.withSign neg mag))
    | .error e => .error e

end BytecodeMachine.FloatText
