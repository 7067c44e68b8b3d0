import BytecodeMachine.Number.Power

/-!
Texts are byte strings: what a program prints, names and stores need not be valid UTF-8.
-/
namespace BytecodeMachine

/-- A byte string, usually the UTF-8 form of some characters. -/
abbrev Text := List UInt8

namespace Text

/-- The UTF-8 bytes of a string. -/
def ofString (s : String) : Text := s.toUTF8.data.toList

instance : Coe String Text := ⟨ofString⟩

/-- Decimal digits, without leading zeros. -/
def ofNat (n : Nat) : Text := (Nat.toDigits 10 n).map fun c => c.toNat.toUInt8

/-- Decimal digits after a minus sign where the number is negative. -/
def ofInt (n : Int) : Text :=
  if n < 0 then (45 : UInt8) :: ofNat n.natAbs else ofNat n.natAbs

def ofInt64 (n : Int64) : Text := ofInt n.toInt

/-- The upper-case hexadecimal digit of a number below sixteen. -/
def upperHexDigit (n : Nat) : UInt8 := if n < 10 then (48 + n).toUInt8 else (55 + n).toUInt8

/-- The lower-case hexadecimal digit of a number below sixteen. -/
def lowerHexDigit (n : Nat) : UInt8 := if n < 10 then (48 + n).toUInt8 else (87 + n).toUInt8

/-- The last `width` hexadecimal digits of `n`, most significant first. -/
def hexDigits (digit : Nat → UInt8) : (width : Nat) → (n : Nat) → Text
  | 0, _ => []
  | w + 1, n => hexDigits digit w (n / 16) ++ [digit (n % 16)]

/-- How many hexadecimal digits `n` has. -/
def hexWidth (n : Nat) : Nat := n.log2 / 4 + 1

/-- Upper-case hexadecimal, filled with zeros to a least width that counts the minus sign. -/
def upperHex (width : Nat) (n : Int) : Text :=
  if n < 0 then
    (45 : UInt8) :: hexDigits upperHexDigit (max (width - 1) (hexWidth n.natAbs)) n.natAbs
  else hexDigits upperHexDigit (max width (hexWidth n.natAbs)) n.natAbs

/-- The order of byte strings by their first difference, a shorter one before its extensions. -/
def lt : Text → Text → Bool
  | _, [] => false
  | [], _ :: _ => true
  | a :: s, b :: t => if a < b then true else if b < a then false else lt s t

/-- Concatenation with a separator between neighbours. -/
def join (sep : Text) : List Text → Text
  | [] => []
  | [t] => t
  | t :: ts => t ++ sep ++ join sep ts

/-- The rest of a text after a given beginning. -/
def afterStart? : (start s : Text) → Option Text
  | [], s => some s
  | _ :: _, [] => none
  | a :: p, b :: s => if a = b then afterStart? p s else none

def startsWith (s p : Text) : Bool := p.isPrefixOf s

def endsWith (s p : Text) : Bool := p.isSuffixOf s

/-- The text without a given ending, or the text itself. -/
def dropEnd (ending s : Text) : Text :=
  if ending.isSuffixOf s then s.take (s.length - ending.length) else s

/-- The first byte offset at which `sub` occurs. -/
def indexOf? (sub : Text) : Text → Option Nat
  | [] => if sub.isEmpty then some 0 else none
  | b :: s => if sub.isPrefixOf (b :: s) then some 0 else (indexOf? sub s).map (· + 1)

/-- Cuts at every occurrence of `sep` from the left, occurrences not overlapping. The number bounds
the cuts; a text has no more than its length. -/
def splitWith (sep : Text) : Nat → Text → List Text
  | 0, s => [s]
  | n + 1, s =>
    match indexOf? sep s with
    | none => [s]
    | some i => s.take i :: splitWith sep n (s.drop (i + sep.length))

/-- The pieces between the occurrences of a separator that is not empty. -/
def splitOn (sep s : Text) : List Text := splitWith sep s.length s

def isDigit (b : UInt8) : Bool := 48 ≤ b && b ≤ 57

/-- The number that decimal digits denote, read from the left. -/
def digitsValue (s : Text) : Nat := s.foldl (fun n b => 10 * n + (b.toNat - 48)) 0

/-- Reads decimal digits only, at least one. -/
def toNat? (s : Text) : Option Nat :=
  if !s.isEmpty && s.all isDigit then some (digitsValue s) else none

/-- Reads an optionally signed decimal number. -/
def toInt? : Text → Option Int
  | 45 :: s => (toNat? s).map fun n => -(n : Int)
  | 43 :: s => (toNat? s).map Int.ofNat
  | s => (toNat? s).map Int.ofNat

/-- Reads a decimal number that fits into a signed word of `bits` bits. -/
def toWord? (bits : Nat) (s : Text) : Option Int :=
  match toInt? s with
  | some n => if -(twoTo (bits - 1) : Int) ≤ n && n < (twoTo (bits - 1) : Int) then some n else none
  | none => none

/-- The value of a hexadecimal digit in either case. -/
def hexValue? (b : UInt8) : Option Nat :=
  if isDigit b then some (b.toNat - 48)
  else if 97 ≤ b && b ≤ 102 then some (b.toNat - 87)
  else if 65 ≤ b && b ≤ 70 then some (b.toNat - 55)
  else none

/-- Lower case for the letters A to Z, all other bytes unchanged. -/
def lowerByte (b : UInt8) : UInt8 := if 65 ≤ b && b ≤ 90 then b + 32 else b

/-- The bytes as a string, where they are valid UTF-8. -/
def toString? (s : Text) : Option String := String.fromUTF8? (ByteArray.mk s.toArray)

end Text

end BytecodeMachine
