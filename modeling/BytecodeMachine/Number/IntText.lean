import BytecodeMachine.Number.FloatText

/-!
Reading whole numbers. `0b`, `0o` and `0x` announce the bases two, eight and sixteen, another
leading zero announces base eight, and underscores may divide the digits.
-/
namespace BytecodeMachine.IntText

open FloatText (ReadError underscoresSeparate)

/-- The base that the first characters announce, and the digits behind them. -/
def splitBase : Text → Nat × Text
  | 48 :: mark :: b :: s =>
    let l := Text.lowerByte mark
    if l = 98 then (2, b :: s)
    else if l = 111 then (8, b :: s)
    else if l = 120 then (16, b :: s)
    else (8, mark :: b :: s)
  | 48 :: s => (8, s)
  | s => (10, s)

/-- Reads digits until the number passes a limit; underscores are skipped here. -/
def readDigits (base limit : Nat) : Nat → Text → Except ReadError Nat
  | n, [] => .ok n
  | n, b :: s =>
    if b = 95 then readDigits base limit n s
    else match Text.hexValue? b with
      | none => .error .syntactic
      | some d =>
        if base ≤ d then .error .syntactic
        else if limit < base * n + d then .error .range
        else readDigits base limit (base * n + d) s

/-- Reads a number of 64 bits without a sign. -/
def readUnsigned (s : Text) : Except ReadError Nat :=
  if s.isEmpty then .error .syntactic
  else
    let (base, digits) := splitBase s
    match readDigits base (twoTo 64 - 1) 0 digits with
    | .error e => .error e
    | .ok n => if s.contains 95 && !underscoresSeparate s then .error .syntactic else .ok n

/-- The sign of a number, true for minus, and the text behind it. -/
def splitSign : Text → Bool × Text
  | 43 :: s => (false, s)
  | 45 :: s => (true, s)
  | s => (false, s)

/-- The number of a sign and a magnitude, where it fits into a signed word of 64 bits. -/
def ofMagnitude (neg : Bool) (n : Nat) : Except ReadError Int :=
  if neg then if n ≤ twoTo 63 then .ok (-(n : Int)) else .error .range
  else if n < twoTo 63 then .ok n else .error .range

/-- Reads a number of 64 bits with an optional sign. -/
def read (s : Text) : Except ReadError Int :=
  let (neg, body) := splitSign s
  match readUnsigned body with
  | .ok n => ofMagnitude neg n
  | .error e => .error e

/-- Reads a number of 64 bits with an optional sign, whose digits are all of one base. -/
def readIn (base : Nat) (s : Text) : Except ReadError Int :=
  let (neg, body) := splitSign s
  if body.isEmpty then .error .syntactic
  else match readDigits base (twoTo 64 - 1) 0 body with
    | .ok n => ofMagnitude neg n
    | .error e => .error e

end BytecodeMachine.IntText
