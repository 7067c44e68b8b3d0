import BytecodeMachine.Yaml.Lexeme

/-!
Cutting a document into tokens. Indentation becomes explicit: blocks get tokens at their two ends,
and a key that is recognised by the colon behind it gets its token put in front of it.
-/
namespace BytecodeMachine.Yaml

/-- A place where a key may have started. -/
structure PendingKey where
  /-- A block mapping needs a key here. -/
  required : Bool
  token : Nat
  index : Nat
  line : Nat
  column : Nat

structure Scanner where
  cursor : Cursor
  tokens : Array Token := #[]
  /-- The place on this level of brackets, and those on the levels around it. -/
  pending : Option PendingKey := none
  outer : List (Option PendingKey) := []
  /-- The column of the innermost block, and those of the blocks around it. -/
  indent : Int := -1
  indents : List Int := []
  keyAllowed : Bool := true

namespace Scanner

/-- Whether the cursor stands inside brackets. -/
def inFlow (s : Scanner) : Bool := !s.outer.isEmpty

def push (s : Scanner) (t : Token) : Scanner := { s with tokens := s.tokens.push t }

/-- Opens a block at a column right of the innermost block. -/
def openBlock (s : Scanner) (column : Nat) (at_ : Nat) (t : Token) : Scanner :=
  if !s.inFlow && s.indent < (column : Int) then
    { s with indent := column, indents := s.indent :: s.indents,
             tokens := s.tokens.insertIdxIfInBounds at_ t }
  else s

def closeFrom (column : Int) : List Int → Int → Array Token → Int × List Int × Array Token
  | outer :: rest, indent, tokens =>
    if column < indent then closeFrom column rest outer (tokens.push .blockEnd)
    else (indent, outer :: rest, tokens)
  | [], indent, tokens => (indent, [], tokens)

/-- Closes the blocks right of a column. -/
def closeBlocks (s : Scanner) (column : Int) : Scanner :=
  if s.inFlow then s
  else
    let (indent, indents, tokens) := closeFrom column s.indents s.indent s.tokens
    { s with indent := indent, indents := indents, tokens := tokens }

/-- Gives up the place where a key may have started; a required key is then missing. -/
def dropKey (s : Scanner) : Option Scanner :=
  match s.pending with
  | some k => if k.required then none else some { s with pending := none }
  | none => some s

/-- Remembers that a key may start here. -/
def saveKey (s : Scanner) : Option Scanner :=
  if s.keyAllowed then do
    let s ← s.dropKey
    let c := s.cursor
    -- A line that starts at the column of a block mapping can only be a key of it.
    let required := !s.inFlow && s.indent = (c.column : Int)
    some { s with pending := some ⟨required, s.tokens.size, c.index, c.line, c.column⟩ }
  else some s

/-- The longest distance between the start of a key and its colon. -/
def keyLimit : Nat := 1024

/-- The place where the key before a colon started; it is on the same line and not too far off. -/
def keyStart (s : Scanner) : Option (Option PendingKey) :=
  match s.pending with
  | none => some none
  | some k =>
    if k.line < s.cursor.line || k.index + keyLimit < s.cursor.index then
      if k.required then none else some none
    else some (some k)

def skip (s : Scanner) (n : Nat) : Scanner := { s with cursor := s.cursor.skip n }

/-- Goes past comment lines; blank lines between them count as part of them. -/
def skipComments : (fuel : Nat) → Cursor → Cursor
  | 0, c => c
  | n + 1, c =>
    let c := c.skipLine
    let gap := (c.takeWhile fun x => isBlank x || isBreak x).length
    if c.ahead gap = '#' then
      match readGap 0 (gap + 1) {} c with
      | some (_, c) => skipComments n c
      | none => c
    else c

/-- Goes to the next token. A tab may not stand where a block may start. -/
def skipGap : (fuel : Nat) → Scanner → Scanner
  | 0, s => s
  | n + 1, s =>
    let c := s.cursor
    let c := if c.column = 0 && c.head = '\uFEFF' then c.skip 1 else c
    -- A tab before a possible key would make its column unclear.
    let tabs := s.inFlow || !s.keyAllowed
    let c := c.skipWhile fun x => x = ' ' || (tabs && x = '\t')
    let c := if c.head = '#' then skipComments (c.rest.length + 1) c else c
    if isBreak c.head then
      skipGap n { s with cursor := c.skipBreak, keyAllowed := s.keyAllowed || !s.inFlow }
    else { s with cursor := c }

/-- Goes past a comment on the same line. -/
def skipLineComment (s : Scanner) : Scanner :=
  let c := s.cursor.skipBlanks
  if c.head = '#' then { s with cursor := c.skipLine } else s

def scanEnd (s : Scanner) : Option Scanner := do
  let s ← (s.closeBlocks (-1)).dropKey
  some ({ s with keyAllowed := false }.push .streamEnd)

def scanDirective (s : Scanner) : Option Scanner := do
  let s ← (s.closeBlocks (-1)).dropKey
  let (t, c) ← readDirective s.cursor
  some ({ s with cursor := c, keyAllowed := false }.push t)

def scanDocumentMark (s : Scanner) (t : Token) : Option Scanner := do
  let s ← (s.closeBlocks (-1)).dropKey
  some (({ s with keyAllowed := false }.push t).skip 3)

/-- The number of brackets, and of blocks, that may be open. -/
def depthLimit : Nat := 10000

def scanFlowStart (s : Scanner) (t : Token) : Option Scanner := do
  let s ← s.saveKey
  if depthLimit ≤ s.outer.length then none
  let s := { s with outer := s.pending :: s.outer, pending := none, keyAllowed := true }
  some ((s.push t).skip 1)

def scanFlowEnd (s : Scanner) (t : Token) : Option Scanner := do
  let s ← s.dropKey
  let s := match s.outer with
    | k :: outer => { s with pending := k, outer := outer }
    | [] => s
  some (({ s with keyAllowed := false }.push t).skip 1)

def scanComma (s : Scanner) : Option Scanner := do
  let s ← s.dropKey
  some (({ s with keyAllowed := true }.push .comma).skip 1)

/-- A dash opens a block sequence, which may not start behind other content on a line. -/
def scanEntry (s : Scanner) : Option Scanner := do
  if !s.inFlow && !s.keyAllowed then none
  let s ← (s.openBlock s.cursor.column s.tokens.size .blockSequence).dropKey
  some (({ s with keyAllowed := true }.push .entry).skip 1)

def scanKey (s : Scanner) : Option Scanner := do
  if !s.inFlow && !s.keyAllowed then none
  let s ← (s.openBlock s.cursor.column s.tokens.size .blockMapping).dropKey
  some (({ s with keyAllowed := !s.inFlow }.push .key).skip 1)

def scanValue (s : Scanner) : Option Scanner := do
  match ← s.keyStart with
  | some k =>
    -- The block starts before its first key, so its token goes in front of the key's.
    let s := { s with tokens := s.tokens.insertIdxIfInBounds k.token .key, pending := none }
    let s := s.openBlock k.column k.token .blockMapping
    some (({ s with keyAllowed := false }.push .value).skip 1)
  | none =>
    if !s.inFlow && !s.keyAllowed then none
    let s := s.openBlock s.cursor.column s.tokens.size .blockMapping
    some (({ s with keyAllowed := !s.inFlow, pending := none }.push .value).skip 1)

def scanName (s : Scanner) (token : Text → Token) : Option Scanner := do
  let s ← s.saveKey
  let (name, c) ← readName (s.cursor.skip 1)
  some ({ s with cursor := c, keyAllowed := false }.push (token name))

def scanTag (s : Scanner) : Option Scanner := do
  let s ← s.saveKey
  let (t, c) ← readTag s.cursor
  some ({ s with cursor := c, keyAllowed := false }.push t)

def scanBlock (s : Scanner) : Option Scanner := do
  let s ← s.dropKey
  let (text, c) ← readBlock s.indent s.cursor
  some ({ s with cursor := c, keyAllowed := true }.push (.scalar true (Text.ofChars text)))

def scanQuoted (s : Scanner) : Option Scanner := do
  let s ← s.saveKey
  let c := s.cursor
  let (text, c) ← readQuoted c.head (c.rest.length + 1) [] (c.skip 1)
  some ({ s with cursor := c, keyAllowed := false }.push (.scalar true (Text.ofChars text)))

def scanPlain (s : Scanner) : Option Scanner := do
  let s ← s.saveKey
  let c := s.cursor
  let (text, broken, c) ← readPlain s.inFlow (s.indent + 1) (c.rest.length + 1) [] {} c
  some ({ s with cursor := c, keyAllowed := broken }.push (.scalar false (Text.ofChars text)))

def isIndicator (c : Char) : Bool := "-?:,[]\x7b\x7d#&*!|>'\"%@`".toList.contains c

/-- Whether a plain scalar may start at the cursor. -/
def startsPlain (s : Scanner) : Bool :=
  let c := s.cursor.head
  let next := s.cursor.ahead 1
  (!isWordEnd c && !isIndicator c) || (c = '-' && !isBlank next)
    || (!s.inFlow && (c = '?' || c = ':') && !isWordEnd next)

/-- The token at the cursor, which is no document mark. -/
def scanContent (s : Scanner) : Option Scanner :=
  let apart := s.inFlow || isWordEnd (s.cursor.ahead 1)
  match s.cursor.head with
  | '[' => s.scanFlowStart .flowSequence
  | '{' => s.scanFlowStart .flowMapping
  | ']' => s.scanFlowEnd .flowSequenceEnd
  | '}' => s.scanFlowEnd .flowMappingEnd
  | ',' => s.scanComma
  | '*' => s.scanName .reference
  | '&' => s.scanName .anchor
  | '!' => s.scanTag
  | '\'' => s.scanQuoted
  | '"' => s.scanQuoted
  | c =>
    if c = '-' && isWordEnd (s.cursor.ahead 1) then s.scanEntry
    else if c = '?' && apart then s.scanKey
    else if c = ':' && apart then s.scanValue
    else if (c = '|' || c = '>') && !s.inFlow then s.scanBlock
    else if s.startsPlain then s.scanPlain
    else none

/-- Whether the newest token is the dash of a sequence entry. -/
def endsInEntry (s : Scanner) : Bool := s.tokens.back? = some .entry

/-- Reads the next token. -/
def step (s : Scanner) : Option Scanner := do
  let s := skipGap (s.cursor.rest.length + 1) s
  let s := s.closeBlocks s.cursor.column
  let c := s.cursor
  if c.rest.isEmpty then s.scanEnd
  else if c.column = 0 && c.head = '%' then s.scanDirective
  else if c.atMark '-' then s.scanDocumentMark .documentStart
  else if c.atMark '.' then s.scanDocumentMark .documentEnd
  else
    let s ← s.scanContent
    if depthLimit < s.indents.length then none
    -- A comment behind a dash is left to the gap before the next token.
    some (if s.endsInEntry then s else s.skipLineComment)

/-- Reads tokens to the end of the stream. -/
def run : (fuel : Nat) → Scanner → Tokens
  | 0, s => ⟨s.tokens, false⟩
  | n + 1, s =>
    match s.step with
    | none => ⟨s.tokens, true⟩
    | some s' => if s'.tokens.back? = some .streamEnd then ⟨s'.tokens, false⟩ else run n s'

end Scanner

/-- The tokens of a document. -/
def Tokens.ofChars (cs : List Char) : Tokens :=
  Scanner.run (cs.length + 1) { cursor := { rest := cs } }

end BytecodeMachine.Yaml
