import BytecodeMachine.Yaml.Cursor
import BytecodeMachine.Yaml.Token

/-!
The words of a document: names, tags, directives and scalars in their five styles. Each reader
returns what it read and the cursor behind it.
-/
namespace BytecodeMachine.Yaml

/-- A name after `&` or `*`. -/
def readName (c : Cursor) : Option (Text × Cursor) :=
  let name := c.takeWhile isNameChar
  let c := c.skip name.length
  if !name.isEmpty && (isWordEnd c.head || "?:,]\x7d%@`".toList.contains c.head) then
    some (Text.ofChars name, c)
  else none

/-- The byte that two hexadecimal digits after a percent sign denote. -/
def percentByte? : List Char → Option (UInt8 × List Char)
  | '%' :: a :: b :: r => do
    let hi ← Text.hexValue? a.toNat.toUInt8
    let lo ← Text.hexValue? b.toNat.toUInt8
    if a.toNat < 128 && b.toNat < 128 then some ((16 * hi + lo).toUInt8, r) else none
  | _ => none

def isUriChar (c : Char) : Bool := isNameChar c || ";/?:@&=+$.,!~*'()[]".toList.contains c

/-- The longest address at the cursor; the number bounds its length. -/
def readUri : (fuel : Nat) → List Char → Option (Text × List Char)
  | 0, cs => some ([], cs)
  | n + 1, cs =>
    match cs with
    | '%' :: _ => do
      let (b, r) ← percentByte? cs
      let (t, r) ← readUri n r
      return (b :: t, r)
    | c :: r =>
      if isUriChar c then do
        let (t, r) ← readUri n r
        return (Text.ofChar c ++ t, r)
      else some ([], cs)
    | [] => some ([], [])

def readAddress (c : Cursor) : Option (Text × Cursor) := do
  let (t, r) ← readUri c.rest.length c.rest
  if t.isValid then some (t, c.skip (c.rest.length - r.length)) else none

/-- An exclamation mark, a name, and a second mark where there is one. -/
def readHandle (c : Cursor) : Option (List Char × Cursor) :=
  if c.head = '!' then
    let name := (c.skip 1).takeWhile isNameChar
    let c := c.skip (1 + name.length)
    if c.head = '!' then some ('!' :: name ++ ['!'], c.skip 1) else some ('!' :: name, c)
  else none

/-- A tag: a whole address in angle brackets, or a handle and the rest of the address. -/
def readTag (c : Cursor) : Option (Token × Cursor) := do
  let (token, c) ← if c.ahead 1 = '<' then do
      let (address, c) ← readAddress (c.skip 2)
      if address.isEmpty || c.head ≠ '>' then none
      some (Token.tag [] address, c.skip 1)
    else do
      let (handle, c) ← readHandle c
      let (address, c) ← readAddress c
      if 1 < handle.length && handle.getLast? = some '!' then
        if address.isEmpty then none
        some (Token.tag (Text.ofChars handle) address, c)
      else
        let address := Text.ofChars handle.tail ++ address
        some (if address.isEmpty then Token.tag [] "!" else Token.tag "!" address, c)
  if isWordEnd c.head then some (token, c) else none

def readVersionNumber (c : Cursor) : Option (Nat × Cursor) :=
  let digits := c.takeWhile Char.isDigit
  if digits.isEmpty || 9 < digits.length then none
  else some (Text.digitsValue (Text.ofChars digits), c.skip digits.length)

/-- A line after a percent sign that gives the version or declares a handle. -/
def readDirective (c : Cursor) : Option (Token × Cursor) := do
  let name := (c.skip 1).takeWhile isNameChar
  let c := c.skip (1 + name.length)
  if !isWordEnd c.head then none
  let c := c.skipBlanks
  let (token, c) ← if name = "YAML".toList then do
      let (major, c) ← readVersionNumber c
      if c.head ≠ '.' then none
      let (minor, c) ← readVersionNumber (c.skip 1)
      some (Token.version major minor, c)
    else if name = "TAG".toList then do
      let (handle, c) ← readHandle c
      if handle ≠ ['!'] && handle.getLast? ≠ some '!' then none
      if !isBlank c.head then none
      let (start, c) ← readAddress c.skipBlanks
      if start.isEmpty || !isWordEnd c.head then none
      some (Token.handle (Text.ofChars handle) start, c)
    else none
  let c := c.skipBlanks
  let c := if c.head = '#' then c.skipLine else c
  if isLineEnd c.head then some (token, c.skipBreak) else none

/-- The blanks and breaks between two words of a scalar. -/
structure Gap where
  blanks : List Char := []
  /-- A line break has been met. -/
  broken : Bool := false
  first : List Char := []
  more : List Char := []

/-- What a gap folds to: blanks stay, a single line feed becomes a blank, and of several breaks the
first is dropped. -/
def Gap.text (g : Gap) : List Char :=
  if !g.broken then g.blanks
  else if g.first = ['\n'] then if g.more.isEmpty then [' '] else g.more
  else g.first ++ g.more

/-- Reads a gap. After a line break a tab left of the given column is an error. -/
def readGap (indent : Int) : (fuel : Nat) → Gap → Cursor → Option (Gap × Cursor)
  | 0, g, c => some (g, c)
  | n + 1, g, c =>
    if isBlank c.head then
      if g.broken then
        if c.head = '\t' && (c.column : Int) < indent then none else readGap indent n g (c.skip 1)
      else readGap indent n { g with blanks := g.blanks ++ [c.head] } (c.skip 1)
    else if isBreak c.head then
      if g.broken then readGap indent n { g with more := g.more ++ c.breakText } c.skipBreak
      else readGap indent n { g with broken := true, first := c.breakText } c.skipBreak
    else some (g, c)

def isFlowIndicator (c : Char) : Bool := ",?[]\x7b\x7d".toList.contains c

/-- A word of a plain scalar. -/
def plainWord (flow : Bool) : List Char → List Char
  | [] => []
  | c :: r =>
    if isWordEnd c || (c = ':' && isWordEnd (r.headD '\x00')) || (flow && isFlowIndicator c) then []
    else c :: plainWord flow r

/-- A plain scalar, and whether a line break follows it. Its lines have to be indented. -/
def readPlain (flow : Bool) (indent : Int) :
    (fuel : Nat) → (text : List Char) → Gap → Cursor → Option (List Char × Bool × Cursor)
  | 0, _, _, _ => none
  | n + 1, text, g, c =>
    -- Before this comment sign there was a blank, so it is no part of a word.
    if c.atDocumentMark || c.head = '#' then some (text, g.broken, c)
    else do
      let word := plainWord flow c.rest
      let c := c.skip word.length
      let (text, g) := if word.isEmpty then (text, g) else (text ++ g.text ++ word, {})
      if !isBlank c.head && !isBreak c.head then some (text, g.broken, c)
      else
        let (g, c) ← readGap indent (c.rest.length + 1) g c
        if !flow && (c.column : Int) < indent then some (text, g.broken, c)
        else readPlain flow indent n text g c

/-- The word of a single-quoted scalar; a quote in it is written twice. -/
def singleWord : List Char → List Char × List Char
  | '\'' :: '\'' :: r => let (w, r) := singleWord r; ('\'' :: w, r)
  | '\'' :: r => ([], '\'' :: r)
  | c :: r => if isWordEnd c then ([], c :: r) else let (w, r) := singleWord r; (c :: w, r)
  | [] => ([], [])

/-- The character that a letter after a backslash stands for. -/
def escaped? : Char → Option Char
  | '0' => some '\x00'
  | 'a' => some '\x07'
  | 'b' => some '\x08'
  | 't' => some '\t'
  | '\t' => some '\t'
  | 'n' => some '\n'
  | 'v' => some '\x0b'
  | 'f' => some '\x0c'
  | 'r' => some '\r'
  | 'e' => some '\x1b'
  | ' ' => some ' '
  | '"' => some '"'
  | '\'' => some '\''
  | '\\' => some '\\'
  | 'N' => some '\u0085'
  | '_' => some '\u00a0'
  | 'L' => some '\u2028'
  | 'P' => some '\u2029'
  | _ => none

/-- How many hexadecimal digits follow a letter after a backslash. -/
def escapeWidth? : Char → Option Nat
  | 'x' => some 2
  | 'u' => some 4
  | 'U' => some 8
  | _ => none

/-- The character that hexadecimal digits denote. -/
def charOfHex? (digits : List Char) : Option Char := do
  let value ← digits.foldlM (fun n d => do
    if 128 ≤ d.toNat then none
    return 16 * n + (← Text.hexValue? d.toNat.toUInt8)) 0
  charOfUnit? value

/-- The word of a double-quoted scalar; it ends at a blank, a break, the quote or an escaped
break. -/
def doubleWord : (fuel : Nat) → List Char → Option (List Char × List Char)
  | 0, _ => none
  | n + 1, cs =>
    match cs with
    | [] => some ([], [])
    | '"' :: r => some ([], '"' :: r)
    | '\\' :: e :: r =>
      if isBreak e then some ([], '\\' :: e :: r)
      else do
        let (c, r) ← match escapeWidth? e with
          | some w =>
            if r.length < w then none else (charOfHex? (r.take w)).map fun c => (c, r.drop w)
          | none => (escaped? e).map fun c => (c, r)
        let (w, r) ← doubleWord n r
        return (c :: w, r)
    | ['\\'] => none
    | c :: r =>
      if isWordEnd c then some ([], c :: r)
      else do
        let (w, r) ← doubleWord n r
        return (c :: w, r)

/-- A quoted scalar behind its opening quote. -/
def readQuoted (quote : Char) :
    (fuel : Nat) → (text : List Char) → Cursor → Option (List Char × Cursor)
  | 0, _, _ => none
  | n + 1, text, c =>
    if c.atDocumentMark || c.rest.isEmpty then none
    else do
      let (word, rest) ←
        if quote = '"' then doubleWord (c.rest.length + 1) c.rest else some (singleWord c.rest)
      let c := c.skip (c.rest.length - rest.length)
      let text := text ++ word
      if c.head = quote then some (text, c.skip 1)
      else
        -- An escaped break leaves nothing behind, not even a blank.
        let (g, c) : Gap × Cursor :=
          if c.head = '\\' then ({ broken := true }, (c.skip 1).skipBreak) else ({}, c)
        let (g, c) ← readGap 0 (c.rest.length + 1) g c
        readQuoted quote n (text ++ g.text) c

/-- What becomes of the line breaks at the end of a block scalar. -/
inductive Chomping where
  | strip
  | clip
  | keep
deriving DecidableEq

def chomping? : Char → Option Chomping
  | '-' => some .strip
  | '+' => some .keep
  | _ => none

def indentDigit? (c : Char) : Option Nat := if c.isDigit then some (c.toNat - 48) else none

/-- The indicators behind `|` or `>`: chomping and a relative indentation in either order. -/
def readIndicators (c : Cursor) : Option (Chomping × Option Nat × Cursor) := do
  let (chomp, step, c) := match chomping? c.head with
    | some chomp =>
      match indentDigit? (c.ahead 1) with
      | some d => (chomp, some d, c.skip 2)
      | none => (chomp, none, c.skip 1)
    | none =>
      match indentDigit? c.head with
      | some d =>
        match chomping? (c.ahead 1) with
        | some chomp => (chomp, some d, c.skip 2)
        | none => (.clip, some d, c.skip 1)
      | none => (.clip, none, c)
  if step = some 0 then none else some (chomp, step, c)

/-- Empty lines before a line of a block scalar, up to its indentation. Zero stands for an
indentation not known yet. Returns the breaks, the deepest column and the cursor. -/
def readEmptyLines (indent : Nat) :
    (fuel : Nat) → (breaks : List Char) → (deepest : Nat) → Cursor →
      Option (List Char × Nat × Cursor)
  | 0, _, _, _ => none
  | n + 1, breaks, deepest, c =>
    let spaces := (c.takeWhile (· = ' ')).length
    let c := c.skip (if indent = 0 then spaces else min spaces (indent - c.column))
    let deepest := max deepest c.column
    if (indent = 0 || c.column < indent) && c.head = '\t' then none
    else if isBreak c.head then readEmptyLines indent n (breaks ++ c.breakText) deepest c.skipBreak
    else some (breaks, deepest, c)

/-- The lines of a block scalar: the text so far, the break behind it, the empty lines behind that,
and whether the line before began with a blank. -/
structure BlockLines where
  text : List Char := []
  last : List Char := []
  empty : List Char := []
  blank : Bool := false

/-- Adds a line. A folded scalar joins two lines that do not start with a blank. -/
def BlockLines.push (literal : Bool) (b : BlockLines) (line : List Char) : BlockLines :=
  let blank := isBlank (line.headD '\x00')
  let joint :=
    if !literal && !b.blank && !blank && b.last = ['\n'] then if b.empty.isEmpty then [' '] else []
    else b.last
  { text := b.text ++ joint ++ b.empty ++ line, blank := blank }

def readBlockLines (literal : Bool) (indent : Nat) :
    (fuel : Nat) → BlockLines → Cursor → Option (BlockLines × Cursor)
  | 0, _, _ => none
  | n + 1, b, c =>
    if c.column = indent && !c.rest.isEmpty then do
      let line := c.takeWhile fun x => !isBreak x
      let c := c.skip line.length
      let b := { b.push literal line with last := c.breakText }
      let (empty, _, c) ← readEmptyLines indent (c.rest.length + 1) [] 0 c.skipBreak
      readBlockLines literal indent n { b with empty := empty } c
    else some (b, c)

/-- A block scalar at its indicator, inside a block of the given indentation. -/
def readBlock (indent : Int) (c : Cursor) : Option (List Char × Cursor) := do
  let literal := c.head = '|'
  let (chomp, step, c) ← readIndicators (c.skip 1)
  let c := c.skipBlanks
  let c := if c.head = '#' then c.skipLine else c
  if !isLineEnd c.head then none
  let given : Nat := match step with
    | some d => if 0 ≤ indent then indent.toNat + d else d
    | none => 0
  let (empty, deepest, c) ← readEmptyLines given (c.rest.length + 2) [] 0 c.skipBreak
  -- Without an indicator the first line that is not empty sets the indentation.
  let width := if given = 0 then max deepest (max (indent + 1).toNat 1) else given
  let (b, c) ← readBlockLines literal width (c.rest.length + 1) { empty := empty } c
  let tail := match chomp with
    | .strip => []
    | .clip => b.last
    | .keep => b.last ++ b.empty
  some (b.text ++ tail, c)

end BytecodeMachine.Yaml
