import BytecodeMachine.Text.Basic

/-!
Dates and times in configuration documents. Only whether they are well formed matters here.
-/
namespace BytecodeMachine.Toml

/-- A number of exactly so many digits, and the text behind it. -/
def fixed? (width : Nat) (s : Text) : Option (Nat × Text) :=
  let digits := s.take width
  if digits.length = width && digits.all Text.isDigit then
    some (Text.digitsValue digits, s.drop width)
  else none

def after? (mark : UInt8) : Text → Option Text
  | b :: s => if b = mark then some s else none
  | [] => none

def isLeap (y : Nat) : Bool := y % 4 = 0 && (y % 100 ≠ 0 || y % 400 = 0)

def daysIn (year month : Nat) : Nat :=
  if month = 2 then if isLeap year then 29 else 28
  else if month = 4 || month = 6 || month = 9 || month = 11 then 30
  else 31

/-- A date, and the text behind it. -/
def date? (s : Text) : Option Text := do
  let (y, s) ← fixed? 4 s
  let (m, s) ← fixed? 2 (← after? 45 s)
  let (d, s) ← fixed? 2 (← after? 45 s)
  if 1 ≤ m && m ≤ 12 && 1 ≤ d && d ≤ daysIn y m then some s else none

/-- Seconds and a fraction of them, both of which may be missing. -/
def seconds? : Text → Option Text
  | 58 :: s => do
    let (sec, s) ← fixed? 2 s
    if 60 ≤ sec then none
    match s with
    | 46 :: s =>
      let digits := s.takeWhile Text.isDigit
      if digits.isEmpty then none else some (s.drop digits.length)
    | s => some s
  | s => some s

/-- A time of day, and the text behind it. -/
def time? (s : Text) : Option Text := do
  let (h, s) ← fixed? 2 s
  let (m, s) ← fixed? 2 (← after? 58 s)
  if h < 24 && m < 60 then seconds? s else none

/-- The end of the text, or an offset from universal time before it. -/
def isZone : Text → Bool
  | [] => true
  | [90] => true
  | [122] => true
  | b :: s =>
    (b = 43 || b = 45) && (do
      let (h, s) ← fixed? 2 s
      let (m, s) ← fixed? 2 (← after? 58 s)
      if h ≤ 24 && m ≤ 60 && s.isEmpty then some () else none).isSome

/-- A date, a time of day, or both with an optional offset. -/
def isMoment (s : Text) : Bool :=
  match date? s with
  | some [] => true
  | some (b :: s) =>
    (b = 84 || b = 116 || b = 32) && (match time? s with
      | some s => isZone s
      | none => false)
  | none => time? s == some []

end BytecodeMachine.Toml
