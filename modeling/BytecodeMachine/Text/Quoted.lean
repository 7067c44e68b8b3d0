import BytecodeMachine.Text.Category
import BytecodeMachine.Text.Utf8

/-!
Quoted texts and characters: printable characters stand for themselves, a few control characters
have short escapes, everything else is written by its number.
-/
namespace BytecodeMachine.Text

def hexEscape (letter : UInt8) (width n : Nat) : Text :=
  (92 : UInt8) :: letter :: hexDigits lowerHexDigit width n

/-- The escape of a character between the quotes `quote`. -/
def escapeChar (quote : UInt8) (c : Char) : Text :=
  let n := c.toNat
  if n = quote.toNat || n = 92 then [92, n.toUInt8]
  else if isPrintable c then ofChar c
  else if 7 ≤ n && n ≤ 13 then
    (92 : UInt8) :: ("abtnvfr".toUTF8.data.toList.drop (n - 7)).take 1
  else if n < 32 || n = 127 then hexEscape 120 2 n
  else if n < 0x10000 then hexEscape 117 4 n
  else hexEscape 85 8 n

/-- The text between double quotes, with stray bytes by their number. -/
def quote (s : Text) : Text :=
  (34 : UInt8) :: (s.runes.flatMap fun
    | .scalar c => escapeChar 34 c
    | .stray b => hexEscape 120 2 b.toNat) ++ [34]

/-- A character by its code point between single quotes, U+FFFD where the number is no
character. -/
def quoteCodePoint (n : Int) : Text :=
  let c : Char :=
    if n < 0 then Rune.replacement
    else if h : n.toNat.isValidChar then Char.ofNatAux n.toNat h else Rune.replacement
  (39 : UInt8) :: escapeChar 39 c ++ [39]

end BytecodeMachine.Text
