import BytecodeMachine.Text.Utf8

/-!
The characters of a document and a place in them.
-/
namespace BytecodeMachine.Yaml

/-- Whether a document may hold this character. -/
def isPrintable (c : Char) : Bool :=
  let n := c.toNat
  n = 0x09 || n = 0x0A || n = 0x0D || (0x20 ≤ n && n ≤ 0x7E) || n = 0x85
    || (0xA0 ≤ n && n ≤ 0xFFFD) || 0x10000 ≤ n

def charOfUnit? (n : Nat) : Option Char :=
  if h : n.isValidChar then some (Char.ofNatAux n h) else none

/-- The characters of a list of 16-bit units; the units of a surrogate pair belong together. -/
def charsOfUnits? : List Nat → Option (List Char)
  | [] => some []
  | hi :: rest =>
    if 0xD800 ≤ hi && hi < 0xDC00 then
      match rest with
      | lo :: rest =>
        if 0xDC00 ≤ lo && lo < 0xE000 then do
          let c ← charOfUnit? (0x10000 + (hi - 0xD800) * 1024 + (lo - 0xDC00))
          return c :: (← charsOfUnits? rest)
        else none
      | [] => none
    else do return (← charOfUnit? hi) :: (← charsOfUnits? rest)

/-- Pairs of bytes as units; a byte left over makes the text unreadable. -/
def units? (unit : UInt8 → UInt8 → Nat) : Text → Option (List Nat)
  | [] => some []
  | [_] => none
  | a :: b :: s => (units? unit s).map (unit a b :: ·)

/-- The characters of a text in the encoding that its first bytes announce, UTF-8 by default. -/
def chars? (s : Text) : Option (List Char) := do
  let cs ← match s with
    | 0xFF :: 0xFE :: s => units? (fun a b => a.toNat + 256 * b.toNat) s >>= charsOfUnits?
    | 0xFE :: 0xFF :: s => units? (fun a b => 256 * a.toNat + b.toNat) s >>= charsOfUnits?
    | 0xEF :: 0xBB :: 0xBF :: s => if Text.isValid s then some (Text.chars s) else none
    | s => if Text.isValid s then some (Text.chars s) else none
  if cs.all isPrintable then some cs else none

def isBlank (c : Char) : Bool := c = ' ' || c = '\t'

def isBreak (c : Char) : Bool :=
  c = '\n' || c = '\r' || c = '\u0085' || c = '\u2028' || c = '\u2029'

/-- A line ends at a break and at the end of the document, which shows as a null character. -/
def isLineEnd (c : Char) : Bool := isBreak c || c = '\x00'

/-- Whether a word ends here. -/
def isWordEnd (c : Char) : Bool := isBlank c || isLineEnd c

/-- The characters of names. -/
def isNameChar (c : Char) : Bool := c.isAlphanum || c = '_' || c = '-'

/-- The characters that are left, and where they stand. -/
structure Cursor where
  rest : List Char
  index : Nat := 0
  line : Nat := 0
  column : Nat := 0

namespace Cursor

/-- The next character, or the null character at the end. -/
def head (c : Cursor) : Char := c.rest.headD '\x00'

/-- The character a number of places ahead. -/
def ahead (c : Cursor) (n : Nat) : Char := (c.rest.drop n).headD '\x00'

/-- Goes on by a number of characters of the same line. -/
def skip (c : Cursor) (n : Nat) : Cursor :=
  { c with rest := c.rest.drop n, index := c.index + n, column := c.column + n }

def skipWhile (c : Cursor) (p : Char → Bool) : Cursor := c.skip (c.rest.takeWhile p).length

def takeWhile (c : Cursor) (p : Char → Bool) : List Char := c.rest.takeWhile p

/-- The line break at the cursor as the text keeps it: the two separators of Unicode stay, every
other break becomes a line feed. -/
def breakText (c : Cursor) : List Char :=
  match c.rest with
  | '\u2028' :: _ => ['\u2028']
  | '\u2029' :: _ => ['\u2029']
  | b :: _ => if isBreak b then ['\n'] else []
  | [] => []

/-- Goes past the line break at the cursor, if there is one. -/
def skipBreak (c : Cursor) : Cursor :=
  match c.rest with
  | '\r' :: '\n' :: r => { rest := r, index := c.index + 2, line := c.line + 1 }
  | b :: r => if isBreak b then { rest := r, index := c.index + 1, line := c.line + 1 } else c
  | [] => c

def skipBlanks (c : Cursor) : Cursor := c.skipWhile isBlank

/-- Goes to the end of the line. -/
def skipLine (c : Cursor) : Cursor := c.skipWhile fun x => !isBreak x

/-- Three equal marks at the start of a line that stand alone bound documents. -/
def atMark (c : Cursor) (mark : Char) : Bool :=
  c.column = 0 && c.head = mark && c.ahead 1 = mark && c.ahead 2 = mark && isWordEnd (c.ahead 3)

def atDocumentMark (c : Cursor) : Bool := c.atMark '-' || c.atMark '.'

end Cursor

end BytecodeMachine.Yaml
