import BytecodeMachine.Number.IntText
import BytecodeMachine.Text.Utf8
import BytecodeMachine.Toml.Document
import BytecodeMachine.Toml.Moment

/-!
Reading configuration documents.
-/
namespace BytecodeMachine.Toml

def isBlank (c : Char) : Bool := c = ' ' || c = '\t'

def isBreak (c : Char) : Bool := c = '\n' || c = '\r'

/-- Whether the characters may stand in a document: of the control characters only the tab and line
breaks may, and a carriage return only before a line feed. -/
def isClean : List Char → Bool
  | [] => true
  | '\r' :: '\n' :: cs => isClean cs
  | c :: cs => (c = '\t' || c = '\n' || (32 ≤ c.toNat && c.toNat ≠ 127)) && isClean cs

/-- The characters of a document without the mark of its encoding. -/
def chars? (s : Text) : Option (List Char) :=
  let s := match s with
    | 0xFF :: 0xFE :: s => s
    | 0xFE :: 0xFF :: s => s
    | 0xEF :: 0xBB :: 0xBF :: s => s
    | s => s
  let cs := Text.chars s
  if Text.isValid s && isClean cs then some cs else none

/-- The text that is left and the document so far. -/
structure Place where
  rest : List Char
  document : Document := {}

/-- A reader of characters; no result means that the document is malformed. -/
abbrev Reader := StateT Place Option

namespace Reader

def rest : Reader (List Char) := return (← get).rest

def goTo (cs : List Char) : Reader Unit := modify fun p => { p with rest := cs }

/-- The next character; the null character stands for the end. -/
def peek : Reader Char := return (← rest).headD '\x00'

def skip : Reader Unit := do goTo (← rest).tail

def skipWhile (p : Char → Bool) : Reader Unit := do goTo ((← rest).dropWhile p)

def expect (c : Char) : Reader Unit := do
  if (← peek) = c then skip else failure

def skipComment : Reader Unit := skipWhile fun c => !isBreak c

/-- Goes past blanks, line breaks and comments; the number bounds how many comments there are. -/
def skipSpace : (fuel : Nat) → Reader Unit
  | 0 => failure
  | n + 1 => do
    skipWhile fun c => isBlank c || isBreak c
    if (← peek) = '#' then
      skipComment
      skipSpace n

def change (f : Document → Option Document) : Reader Unit := do
  let p ← get
  let d ← f p.document
  set { p with document := d }

/-- The character that hexadecimal digits denote. -/
def charOfHex? (digits : List Char) : Option Char := do
  let value ← digits.foldlM (fun n d => do
    if 128 ≤ d.toNat then none
    return 16 * n + (← Text.hexValue? d.toNat.toUInt8)) 0
  if h : value.isValidChar then some (Char.ofNatAux value h) else none

/-- The character of an escape sequence behind the backslash. -/
def escape? : List Char → Option (Char × List Char)
  | 'b' :: cs => some ('\x08', cs)
  | 't' :: cs => some ('\t', cs)
  | 'n' :: cs => some ('\n', cs)
  | 'f' :: cs => some ('\x0c', cs)
  | 'r' :: cs => some ('\r', cs)
  | 'e' :: cs => some ('\x1b', cs)
  | '"' :: cs => some ('"', cs)
  | '\\' :: cs => some ('\\', cs)
  | 'x' :: cs => hex 2 cs
  | 'u' :: cs => hex 4 cs
  | 'U' :: cs => hex 8 cs
  | _ => none
where
  hex (width : Nat) (cs : List Char) : Option (Char × List Char) :=
    if cs.length < width then none
    else (charOfHex? (cs.take width)).map fun c => (c, cs.drop width)

/-- The rest of a string on one line behind its opening quote. -/
def lineString (quote : Char) : (fuel : Nat) → List Char → Option (List Char × List Char)
  | 0, _ => none
  | n + 1, cs =>
    match cs with
    | [] => none
    | c :: cs =>
      if c = quote then some ([], cs)
      else if isBreak c then none
      else do
        let (c, cs) ← if c = '\\' && quote = '"' then escape? cs else some (c, cs)
        let (s, cs) ← lineString quote n cs
        return (c :: s, cs)

/-- Whether a backslash ends its line: only blanks stand between it and a line break. -/
def endsLine (cs : List Char) : Bool := isBreak ((cs.dropWhile isBlank).headD ' ')

/-- The rest of a string over several lines behind its opening quotes. Up to two quotes may stand
before the closing three. A backslash at the end of a line takes all space behind it away. -/
def blockString (quote : Char) : (fuel : Nat) → List Char → Option (List Char × List Char)
  | 0, _ => none
  | n + 1, cs =>
    match cs with
    | [] => none
    | c :: r =>
      if c = quote then
        let count := (cs.takeWhile (· = quote)).length
        let r := cs.drop count
        if count < 3 then do
          let (s, r) ← blockString quote n r
          return (List.replicate count quote ++ s, r)
        -- The last three quotes close the string, those before them belong to it.
        else if count < 6 then some (List.replicate (count - 3) quote, r)
        else none
      else if c = '\\' && quote = '"' then
        if endsLine r then blockString quote n (r.dropWhile fun c => isBlank c || isBreak c)
        else do
          let (c, r) ← escape? r
          let (s, r) ← blockString quote n r
          return (c :: s, r)
      else do
        let (s, r) ← blockString quote n r
        return (c :: s, r)

/-- Drops the line break directly behind the opening quotes. -/
def dropBreak : List Char → List Char
  | '\n' :: cs => cs
  | '\r' :: '\n' :: cs => cs
  | cs => cs

/-- A string in its quotes. -/
def quoted (cs : List Char) : Option (List Char × List Char) :=
  match cs with
  | '"' :: '"' :: '"' :: cs => blockString '"' (cs.length + 1) (dropBreak cs)
  | '\'' :: '\'' :: '\'' :: cs => blockString '\'' (cs.length + 1) (dropBreak cs)
  | q :: cs => lineString q (cs.length + 1) cs
  | [] => none

def isBareChar (c : Char) : Bool := c.isAlphanum || c = '_' || c = '-'

/-- One part of a key: a bare word or a string on one line. -/
def keyPart : Reader Text := do
  match ← rest with
  | c :: cs =>
    if c = '"' || c = '\'' then
      let (s, cs) ← (lineString c (cs.length + 1) cs : Option (List Char × List Char))
      goTo cs
      return Text.ofChars s
    else
      let name := (c :: cs).takeWhile isBareChar
      if name.isEmpty then failure
      goTo ((c :: cs).drop name.length)
      return Text.ofChars name
  | [] => failure

/-- The parts of a key with dots between them; the number bounds how many there are. -/
def key : (fuel : Nat) → Reader Key
  | 0 => failure
  | n + 1 => do
    skipWhile isBlank
    let part ← keyPart
    skipWhile isBlank
    if (← peek) = '.' then
      skip
      return part :: (← key n)
    else return [part]

/-- Underscores in a number stand between digits. -/
def underscoresOk (s : Text) : Bool :=
  let ok := s.foldl (fun (st : Bool × Bool) b =>
    (st.1 && (b ≠ 95 || st.2), (Text.hexValue? b).isSome)) (true, false)
  ok.1 && ok.2

/-- Whether a decimal number starts with a zero that it does not need. -/
def hasLeadingZero (s : Text) : Bool :=
  match (IntText.splitSign s).2 with
  | 48 :: b :: _ => !(b = 98 || b = 111 || b = 120)
  | _ => false

def integer? (s : Text) : Option Value :=
  if underscoresOk s && !hasLeadingZero s then (IntText.read s).toOption.map .integer else none

/-- Whether digits stand behind every point. -/
def pointsOk : Text → Bool
  | [] => true
  | 46 :: s => (match s with
    | b :: _ => Text.isDigit b
    | [] => false) && pointsOk s
  | _ :: s => pointsOk s

/-- The pieces of a fraction between its point and its exponent mark. -/
def pieces (s : Text) : List Text :=
  let cut (b : UInt8) (ps : List Text) : List Text :=
    if b = 46 || b = 101 || b = 69 then [] :: ps else (b :: ps.headD []) :: ps.tail
  (s.foldr cut [[]]).filter fun p => !p.isEmpty

def float? (s : Text) : Option Value :=
  let ps := pieces s
  if ps.all underscoresOk && !hasLeadingZero (ps.headD []) && pointsOk s then
    (FloatText.read (s.filter (· ≠ 95))).toOption.map fun _ => .other
  else none

def isFloatChar (c : Char) : Bool := c.isDigit || "_.-+eE".toList.contains c

def isMomentChar (c : Char) : Bool := c.isDigit || "-:Tt .Zz+".toList.contains c

def isFloatMark (c : Char) : Bool := c = '.' || c = 'e' || c = 'E'

/-- A number or a moment that starts with a digit or a sign. -/
def number (cs : List Char) : Option (Value × List Char) :=
  let sign : List Char := cs.takeWhile fun c => c = '+' || c = '-'
  let body := cs.drop sign.length
  let digits := body.takeWhile Char.isDigit
  let next := (body.drop digits.length).headD '\x00'
  let based := digits = ['0'] && (next = 'b' || next = 'o' || next = 'x')
  if 1 < sign.length || digits.isEmpty then none
  else if based then
    if sign.isEmpty then
      let word := cs.takeWhile fun c => c.isAlphanum || c = '_'
      (integer? (Text.ofChars word)).map fun v => (v, cs.drop word.length)
    else none
  -- Digits before a dash or a colon begin a date or a time.
  else if sign.isEmpty && (next = '-' || next = ':') then
    let word := cs.takeWhile isMomentChar
    if isMoment (Text.trim (Text.ofChars word)) then some (.other, cs.drop word.length) else none
  else
    let whole := sign ++ body.takeWhile fun c => c.isDigit || c = '_'
    if isFloatMark ((cs.drop whole.length).headD '\x00') then
      let word := cs.takeWhile isFloatChar
      (float? (Text.ofChars word)).map fun v => (v, cs.drop word.length)
    else (integer? (Text.ofChars whole)).map fun v => (v, cs.drop whole.length)

/-- The words that are values. -/
def words : List (String × Value) :=
  [("true", .bool true), ("false", .bool false), ("inf", .other), ("nan", .other), ("+inf", .other),
   ("-inf", .other), ("+nan", .other), ("-nan", .other)]

/-- A value that is no list and no table. -/
def simple (cs : List Char) : Option (Value × List Char) :=
  match words.find? fun w => w.1.toList.isPrefixOf cs with
  | some (w, v) => some (v, cs.drop w.length)
  | none =>
    match cs with
    | '"' :: _ => (quoted cs).map fun (s, cs) => (.text (Text.ofChars s), cs)
    | '\'' :: _ => (quoted cs).map fun (s, cs) => (.text (Text.ofChars s), cs)
    | _ => number cs

/-- The items of a list up to its closing bracket. -/
def items (item : Reader Unit) : (fuel : Nat) → Reader Unit
  | 0 => failure
  | n + 1 => do
    let size := (← rest).length + 1
    skipSpace size
    if (← peek) = ']' then skip
    else
      item
      skipSpace size
      if (← peek) = ',' then
        skip
        items item n
      else expect ']'

/-- The entries of a table in braces up to its closing brace. -/
def inlineEntries (entry : Reader Unit) : (fuel : Nat) → Reader Unit
  | 0 => failure
  | n + 1 => do
    let size := (← rest).length + 1
    skipSpace size
    if (← peek) = '}' then skip
    else
      entry
      skipSpace size
      if (← peek) = ',' then
        skip
        inlineEntries entry n
      else expect '}'

/-- A key, an equals sign and a value, which are defined in the table of a context. -/
def entry (value : Key → Text → Reader Node) (context : Key) : Reader Unit := do
  let k ← key ((← rest).length + 1)
  match k.getLast? with
  | none => failure
  | some name =>
    change fun d => d.mentionAll context k.dropLast
    let inner := context ++ k.dropLast
    change fun d => some (d.note (inner ++ [name]))
    expect '='
    skipWhile isBlank
    let v ← value inner name
    change fun d => d.define inner name v

/-- The value of a key. A table in braces is entered at once, and the definition of its key then
finds it there. -/
def value : (fuel : Nat) → (list : Bool) → (context : Key) → (name : Text) → Reader Node
  | 0, _, _, _ => failure
  | n + 1, list, context, name => do
    let cs ← rest
    match cs with
    | '[' :: _ =>
      skip
      items (do skipWhile isBlank; discard (value n true context name)) (cs.length + 1)
      return .value .other
    | '{' :: _ =>
      skip
      let k := context ++ [name]
      change fun d => (d.mark k).enter k list
      inlineEntries (entry (value n false) k) (cs.length + 1)
      return .table []
    | _ =>
      let (v, cs) ← (simple cs : Option (Value × List Char))
      goTo cs
      return .value v

/-- The end of a line: blanks, a comment, a line break or the end of the document. -/
def lineEnd : Reader Unit := do
  skipWhile isBlank
  if (← peek) = '#' then skipComment
  match ← rest with
  | [] => pure ()
  | c :: _ => if isBreak c then pure () else failure

/-- The name of a table in its brackets, and whether the table belongs to a list. -/
def header : Reader (Key × Bool) := do
  expect '['
  let list := (← peek) = '['
  if list then skip
  let k ← key ((← rest).length + 1)
  expect ']'
  if list then expect ']'
  return (k, list)

/-- The lines of a document from a context on. -/
def lines : (fuel : Nat) → (context : Key) → Reader Unit
  | 0, _ => failure
  | n + 1, context => do
    let size := (← rest).length + 1
    skipSpace size
    match ← rest with
    | [] => pure ()
    | '[' :: _ =>
      let (k, list) ← header
      change fun d => d.enter k list
      change fun d => some (d.note k)
      lineEnd
      lines n k
    | _ =>
      entry (value size false) context
      lineEnd
      lines n context

end Reader

/-- The document that a text describes. -/
def read (s : Text) : Option Document := do
  let cs ← chars? s
  let (_, p) ← (Reader.lines (cs.length + 1) []).run { rest := cs }
  some p.document

end BytecodeMachine.Toml
