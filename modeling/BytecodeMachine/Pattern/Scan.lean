import BytecodeMachine.Pattern.Node

/-!
The lower level of reading patterns: options, numbers, names, escapes and classes.
-/
namespace BytecodeMachine.Pattern

/-- What options are on at a place of a pattern. -/
structure Options where
  fold : Bool := false
  multiline : Bool := false
  dotAll : Bool := false
  /-- Only named groups remember what they take. -/
  explicit : Bool := false
  /-- White space and comments do not count. -/
  spaced : Bool := false
  /-- Characters are read backward. -/
  back : Bool := false
deriving DecidableEq

/-- The groups of a pattern by number, and the names of some of them in their order. -/
structure Groups where
  numbers : List Nat := [0]
  names : List (List Char × Nat) := []

namespace Groups

def hasNumber (g : Groups) (n : Nat) : Bool := g.numbers.contains n

def note (g : Groups) (n : Nat) : Groups :=
  if g.hasNumber n then g else { g with numbers := g.numbers ++ [n] }

end Groups

/-- A place in a pattern. -/
structure Scan where
  text : Array Char
  pos : Nat := 0
  options : Options := {}
  groups : Groups := {}
  nextGroup : Nat := 1
  /-- The next parenthesis holds a condition and does not remember. -/
  inCondition : Bool := false

/-- A reader of patterns; an error leaves the place where it came up. -/
abbrev Reader := ExceptT PatternError (StateM Scan)

namespace Reader

/-- How many characters are left. -/
def left : Reader Nat := return (← get).text.size - (← get).pos

/-- The character some places ahead; the null character stands for the end. -/
def peek (n : Nat) : Reader Char := return ((← get).text[(← get).pos + n]?).getD '\x00'

def move (n : Nat) : Reader Unit := modify fun s => { s with pos := s.pos + n }

def goTo (pos : Nat) : Reader Unit := modify fun s => { s with pos := pos }

def place : Reader Nat := return (← get).pos

def options : Reader Options := return (← get).options

def setOptions (o : Options) : Reader Unit := modify fun s => { s with options := o }

/-- Takes a character. -/
def next : Reader Char := do
  let c ← peek 0
  move 1
  return c

/-- The characters from a place to here. -/
def since (start : Nat) : Reader (List Char) := do
  let s ← get
  return (s.text.extract start s.pos).toList

/-- Reads on whatever error comes up. -/
def quietly {α : Type} (r : Reader α) : Reader Unit := do
  try
    discard r
  catch _ => pure ()

def skipUntil (stop : Char → Bool) : Reader Unit := do
  let s ← get
  let n := ((s.text.extract s.pos s.text.size).toList.takeWhile fun c => !stop c).length
  move n

def isSpace (c : Char) : Bool := c = ' ' || c = '\t' || c = '\n' || c = '\x0c' || c = '\r'

/-- Goes past comments and, where they do not count, white space and line comments. -/
def skipBlank : (fuel : Nat) → Reader Unit
  | 0 => pure ()
  | n + 1 => do
    let spaced := (← options).spaced
    if spaced then skipUntil fun c => !isSpace c
    if 0 < (← left) then
      if spaced && (← peek 0) = '#' then
        skipUntil fun c => c = '\n'
        skipBlank n
      else if 3 ≤ (← left) && (← peek 0) = '(' && (← peek 1) = '?' && (← peek 2) = '#' then
        skipUntil fun c => c = ')'
        if (← left) = 0 then throw .unterminatedComment
        move 1
        skipBlank n

def blanks : Reader Unit := do skipBlank ((← left) + 1)

/-- The largest number in a pattern; as a bound of a repetition it stands for none. -/
def numberLimit : Nat := 2147483647

/-- A decimal number, zero where there are no digits. -/
def decimal : Reader Nat := do
  let start ← place
  skipUntil fun c => !c.isDigit
  let digits ← since start
  let mut n := 0
  let mut i := start
  for d in digits do
    i := i + 1
    n := 10 * n + (d.toNat - 48)
    if numberLimit < n then
      goTo i
      throw .groupRange
  return n

/-- A name of word characters, possibly empty. -/
def name : Reader (List Char) := do
  let start ← place
  skipUntil fun c => !isWordChar c
  since start

def hexDigit? (c : Char) : Option Nat :=
  if c.toNat < 128 then Text.hexValue? c.toNat.toUInt8 else none

/-- Exactly so many hexadecimal digits. -/
def hex (width : Nat) : Reader Nat := do
  if (← left) < width then throw .tooFewHex
  let mut value := 0
  for _ in List.range width do
    match hexDigit? (← next) with
    | some d => value := 16 * value + d
    | none => throw .tooFewHex
  return value

/-- Hexadecimal digits up to a closing brace. -/
def hexInBraces : (fuel : Nat) → (value : Nat) → (any : Bool) → Reader Nat
  | 0, _, _ => throw .missingBrace
  | n + 1, value, any => do
    if (← left) = 0 then throw .missingBrace
    let c ← next
    if c = '}' then
      if any then return value else throw .tooFewHex
    match hexDigit? c with
    | none => throw .missingBrace
    | some d =>
      if 0x10FFFF < 16 * value + d then throw .hexRange
      hexInBraces n (16 * value + d) true

/-- Up to three octal digits, of which the lower eight bits count. -/
def octal : (width value : Nat) → Reader Nat
  | 0, value => return value % 256
  | n + 1, value => do
    let c ← peek 0
    if '0' ≤ c && c ≤ '7' then
      move 1
      octal n (8 * value + (c.toNat - 48))
    else return value % 256

/-- The control character of a letter. -/
def control : Reader Nat := do
  if (← left) = 0 then throw .missingControl
  let c := (← next).toNat
  let c := if 97 ≤ c && c ≤ 122 then c - 32 else c
  if 64 ≤ c && c < 96 then return c - 64 else throw .unknownControl

/-- The code point that an escape behind a backslash stands for. -/
def charEscape : Reader Nat := do
  let c ← next
  if '0' ≤ c && c ≤ '7' then
    goTo ((← place) - 1)
    octal 3 0
  else match c with
    | 'x' =>
      if 0 < (← left) && (← peek 0) = '{' then
        move 1
        hexInBraces ((← left) + 1) 0 false
      else hex 2
    | 'u' => hex 4
    | 'a' => return 7
    | 'b' => return 8
    | 'e' => return 27
    | 'f' => return 12
    | 'n' => return 10
    | 'r' => return 13
    | 't' => return 9
    | 'v' => return 11
    | 'c' => control
    | c => if isWordChar c then throw (.unknownEscape c) else return c.toNat

/-- The named set behind the escape for one. -/
def property : Reader CharKind := do
  let c ← peek 0
  if 1 ≤ (← left) && c ≠ '{' then
    match CharKind.ofName? [c] with
    | some k =>
      move 1
      return k
    | none => throw (.unknownProperty (Text.ofChar c))
  else
    if (← left) < 3 then throw .incompleteProperty
    move 1
    let start ← place
    skipUntil fun c => !(isWordChar c || c = '-')
    let word ← since start
    if (← left) = 0 then throw .incompleteProperty
    if (← next) ≠ '}' then throw .incompleteProperty
    match CharKind.ofName? word with
    | some k => return k
    | none => throw (.unknownProperty (Text.ofChars word))

/-- The set of a letter behind a backslash, with true for its complement. -/
def shorthand? : Char → Option (CharKind × Bool)
  | 'd' => some (.digit, false)
  | 'D' => some (.digit, true)
  | 's' => some (.space, false)
  | 'S' => some (.space, true)
  | 'w' => some (.word, false)
  | 'W' => some (.word, true)
  | _ => none

/-- A class while it is read: what it holds, what is taken away, and the start of a range. -/
structure ClassScan where
  layer : Layer := {}
  minus : CharClass := []
  low : Option Nat := none
  first : Bool := true

/-- Skips a bracketed name with colons, if there is one. -/
def skipColonName : Reader Unit := do
  let start ← place
  move 1
  if 1 < (← left) && (← peek 0) = '^' then move 1
  discard name
  if (← left) < 2 || (← peek 0) ≠ ':' || (← peek 1) ≠ ']' then goTo start else move 2

/-- The complement sign at the start of a class. -/
def classStart : Reader ClassScan := do
  if 0 < (← left) && (← peek 0) = '^' then
    move 1
    return { layer := { negated := true } }
  else return {}

/-- The members of a class up to its closing bracket. Counting groups does without its checks. -/
def classItems (counting : Bool) : (fuel : Nat) → ClassScan → Reader CharClass
  | 0, _ => throw .unterminatedSet
  | n + 1, cs => do
    if (← left) = 0 then throw .unterminatedSet
    let fold := (← options).fold
    let c ← next
    let later := { cs with first := false }
    if c = ']' && !cs.first then return cs.layer :: cs.minus
    else if c = '\\' && 0 < (← left) then
      let e ← peek 0
      match shorthand? e with
      | some (k, negated) =>
        move 1
        if !counting && cs.low.isSome then throw (.classInRange e)
        classItems counting n { later with layer := cs.layer.addKind fold k negated }
      | none =>
        if e = 'p' || e = 'P' then
          move 1
          if counting then
            quietly property
            classItems counting n later
          else
            if cs.low.isSome then throw (.classInRange e)
            let k ← property
            classItems counting n { later with layer := cs.layer.addKind fold k (e = 'P') }
        else if e = '-' then
          move 1
          classItems counting n { later with layer := cs.layer.add 45 45 }
        else member n cs (← charEscape) true
    else
      if c = '[' && 0 < (← left) && (← peek 0) = ':' && cs.low.isNone then skipColonName
      member n cs c.toNat false
termination_by fuel => (fuel, 0, 0)
where
  /-- Takes a character as a member, as an end of a range, or as the start of what is taken away. -/
  member (n : Nat) (cs : ClassScan) (code : Nat) (escaped : Bool) : Reader CharClass := do
    let later := { cs with first := false, low := none }
    let opens := !escaped && !cs.first
    match cs.low with
    | some low =>
      if counting then classItems counting n later
      else if opens && code = '['.toNat then
        subtract n { later with layer := cs.layer.add low low }
      else
        if code < low then throw (.reversedRange low code)
        classItems counting n { later with layer := cs.layer.add low code }
    | none =>
      if 2 ≤ (← left) && (← peek 0) = '-' && (← peek 1) ≠ ']' then
        move 1
        classItems counting n { later with low := some code }
      else if 1 ≤ (← left) && opens && code = '-'.toNat && (← peek 0) = '[' then
        move 1
        subtract n later
      else classItems counting n { later with layer := cs.layer.add code code }
  termination_by (n, 1, 0)
  /-- Reads a class that is taken away; nothing may follow it. -/
  subtract (n : Nat) (cs : ClassScan) : Reader CharClass := do
    let minus ← classItems counting n (← classStart)
    if !counting && 0 < (← left) && (← peek 0) ≠ ']' then throw .subtractionNotLast
    classItems counting n { cs with minus := minus }
  termination_by (n, 0, 1)

/-- A class behind its opening bracket. -/
def charClass (counting : Bool) : Reader CharClass := do
  let start ← classStart
  classItems counting ((← left) + 2) start

/-- The anchor of a letter behind a backslash. -/
def anchor? : Char → Option Anchor
  | 'b' => some .boundary
  | 'B' => some .noBoundary
  | 'A' => some .beginning
  | 'G' => some .searchStart
  | 'Z' => some .lastLineEnd
  | 'z' => some .ending
  | _ => none

/-- The group that a number or a name in brackets refers to. -/
def groupNamed? (g : Groups) (word : List Char) : Option Nat := g.names.lookup word

/-- A reference to a group, where one is written behind a backslash. Counting groups does not ask
whether the group exists. -/
def reference? (counting : Bool) : Reader (Option Nat) := do
  let g := (← get).groups
  let c ← peek 0
  let named := c = 'k'
  let mut mark : Option Char := none
  if named then
    if 2 ≤ (← left) then
      let open_ ← peek 1
      move 2
      if open_ = '<' then mark := some '>'
      else if open_ = '\'' then mark := some '\''
    if mark.isNone || (← left) = 0 then throw .malformedReference
  else if (c = '<' || c = '\'') && 1 < (← left) then
    move 1
    mark := some (if c = '<' then '>' else '\'')
  let c ← peek 0
  match mark with
  | some close =>
    if c.isDigit then
      let n ← decimal
      if 0 < (← left) && (← next) = close then
        if g.hasNumber n then return some n else throw (.undefinedGroup n)
      else return none
    else
      let word ← name
      if !word.isEmpty && 0 < (← left) && (← next) = close then
        match groupNamed? g word with
        | some n => return some n
        | none => if counting then return some 0 else throw (.undefinedName (Text.ofChars word))
      else if named then throw .malformedReference
      else return none
  | none =>
    if '1' ≤ c && c ≤ '9' then
      let n ← decimal
      if counting || g.hasNumber n then return some n
      else if n ≤ 9 then throw (.undefinedGroup n)
      else return none
    else return none

/-- The code point of a character without its case. -/
def lowerCode (code : Nat) : Nat :=
  if h : code.isValidChar then (lower (Char.ofNatAux code h)).toNat else code

/-- A character as a pattern of its own. -/
def charNode (o : Options) (code : Nat) : Node :=
  .char (if o.fold then lowerCode code else code) o.fold o.back

/-- What an escape behind its backslash stands for. -/
def escape (counting : Bool) : Reader Node := do
  if (← left) = 0 then throw .endEscape
  let o ← options
  let c ← peek 0
  match anchor? c, shorthand? c with
  | some a, _ =>
    move 1
    return .anchor a
  | none, some (k, negated) =>
    move 1
    return .set (CharClass.ofKind o.fold k negated) o.fold o.back
  | none, none =>
    if c = 'p' || c = 'P' then
      move 1
      let k ← property
      return .set (CharClass.ofKind o.fold k (c = 'P')) o.fold o.back
    else
      let start ← place
      match ← reference? counting with
      | some n => return .reference n o.fold o.back
      | none =>
        goTo start
        return charNode o (← charEscape)

end Reader

end BytecodeMachine.Pattern
