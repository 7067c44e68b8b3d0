import BytecodeMachine.Text.Basic

/-!
The characters of a byte string. A byte that starts no well-formed UTF-8 sequence stands alone as a
stray byte; where a character is needed it counts as U+FFFD.
-/
namespace BytecodeMachine

/-- One position of a text: a character or a byte that belongs to none. -/
inductive Rune where
  | scalar (c : Char)
  | stray (b : UInt8)
deriving DecidableEq, Inhabited

namespace Rune

def replacement : Char := '\uFFFD'

/-- The character shown at this position. -/
def char : Rune → Char
  | scalar c => c
  | stray _ => replacement

/-- The bytes this position was read from. -/
def bytes : Rune → Text
  | scalar c => String.utf8EncodeChar c
  | stray b => [b]

end Rune

namespace Text

def ofChar (c : Char) : Text := String.utf8EncodeChar c

def ofChars (cs : List Char) : Text := cs.flatMap ofChar

def isTail (b : UInt8) : Bool := 0x80 ≤ b && b ≤ 0xBF

/-- Whether `b` may follow the first byte `a` of a sequence of three bytes. -/
def isSecondOfThree (a b : UInt8) : Bool :=
  (if a = 0xE0 then 0xA0 else 0x80) ≤ b && b ≤ (if a = 0xED then 0x9F else 0xBF)

/-- Whether `b` may follow the first byte `a` of a sequence of four bytes. -/
def isSecondOfFour (a b : UInt8) : Bool :=
  (if a = 0xF0 then 0x90 else 0x80) ≤ b && b ≤ (if a = 0xF4 then 0x8F else 0xBF)

def scalarOfTwo (a b : UInt8) : Rune :=
  .scalar (Char.ofNat ((a.toNat - 0xC0) * 64 + (b.toNat - 0x80)))

def scalarOfThree (a b c : UInt8) : Rune :=
  .scalar (Char.ofNat ((a.toNat - 0xE0) * 4096 + (b.toNat - 0x80) * 64 + (c.toNat - 0x80)))

def scalarOfFour (a b c d : UInt8) : Rune :=
  .scalar (Char.ofNat ((a.toNat - 0xF0) * 262144 + (b.toNat - 0x80) * 4096
    + (c.toNat - 0x80) * 64 + (d.toNat - 0x80)))

/-- The positions of a text from left to right, each the longest well-formed sequence there. -/
def runes : Text → List Rune
  | [] => []
  | a :: s =>
    if a < 0x80 then .scalar (Char.ofNat a.toNat) :: runes s
    else match s with
      | [] => [.stray a]
      | b :: s₂ =>
        if 0xC2 ≤ a && a ≤ 0xDF then
          if isTail b then scalarOfTwo a b :: runes s₂ else .stray a :: runes (b :: s₂)
        else if 0xE0 ≤ a && a ≤ 0xEF && isSecondOfThree a b then
          match s₂ with
          | [] => .stray a :: runes [b]
          | c :: s₃ =>
            if isTail c then scalarOfThree a b c :: runes s₃
            else .stray a :: runes (b :: c :: s₃)
        else if 0xF0 ≤ a && a ≤ 0xF4 && isSecondOfFour a b then
          match s₂ with
          | [] => .stray a :: runes [b]
          | c :: s₃ =>
            if isTail c then
              match s₃ with
              | [] => .stray a :: runes [b, c]
              | d :: s₄ =>
                if isTail d then scalarOfFour a b c d :: runes s₄
                else .stray a :: runes (b :: c :: d :: s₄)
            else .stray a :: runes (b :: c :: s₃)
        else .stray a :: runes (b :: s₂)

/-- The characters shown at the positions of a text. -/
def chars (s : Text) : List Char := s.runes.map Rune.char

/-- How many positions a text has. -/
def runeCount (s : Text) : Nat := s.runes.length

def ofRunes (rs : List Rune) : Text := rs.flatMap Rune.bytes

/-- Whether every byte belongs to a character. -/
def isValid (s : Text) : Bool := s.runes.all fun
  | .scalar _ => true
  | .stray _ => false

/-- The UTF-8 form of a code point, or of U+FFFD where the number is no character. -/
def ofCodePoint (n : Int) : Text :=
  if n < 0 then ofChar Rune.replacement
  else if h : n.toNat.isValidChar then ofChar (Char.ofNatAux n.toNat h)
  else ofChar Rune.replacement

/-- Cuts a text into its single positions. -/
def splitRunes (s : Text) : List Text := s.runes.map Rune.bytes

/-- Replaces every occurrence of `old`. An empty `old` occurs before every position and at the
end. -/
def replaceAll (old new s : Text) : Text :=
  if old.isEmpty then new ++ s.runes.flatMap fun r => r.bytes ++ new
  else join new (splitOn old s)

/-- Filled with blanks on the right to a least number of positions. -/
def padRight (width : Nat) (s : Text) : Text := s ++ List.replicate (width - s.runeCount) 32

/-- White space: the blank characters of Unicode and the control characters that set lines. -/
def isBlank (c : Char) : Bool :=
  let n := c.toNat
  (9 ≤ n && n ≤ 13) || n = 0x20 || n = 0x85 || n = 0xA0 || n = 0x1680 || (0x2000 ≤ n && n ≤ 0x200A)
    || n = 0x2028 || n = 0x2029 || n = 0x202F || n = 0x205F || n = 0x3000

/-- The text without the white space at its two ends. -/
def trim (s : Text) : Text :=
  let blank : Rune → Bool := fun
    | .scalar c => isBlank c
    | .stray _ => false
  ofRunes ((s.runes.dropWhile blank).reverse.dropWhile blank).reverse

end Text

end BytecodeMachine
