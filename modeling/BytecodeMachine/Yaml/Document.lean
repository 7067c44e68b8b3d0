import BytecodeMachine.Yaml.Node
import BytecodeMachine.Yaml.Scan

/-!
Reading the first document of a stream of tokens.
-/
namespace BytecodeMachine.Yaml

/-- What an anchor names: a node, or one that is still being read. -/
inductive Anchored where
  | node (n : Node)
  | open_ (id : Nat)

/-- The place in the tokens, the handles of tags and the anchors met so far, newest first. -/
structure Place where
  tokens : Tokens
  next : Nat := 0
  handles : List (Text × Text) := []
  anchors : List (Text × Anchored) := []

/-- A reader of tokens; no result means that the document is malformed. -/
abbrev Reader := StateT Place Option

namespace Reader

def peek : Reader Token := do
  let p ← get
  p.tokens.get? p.next

def skip : Reader Unit := modify fun p => { p with next := p.next + 1 }

/-- The token behind the current one, which becomes the current one. -/
def advance : Reader Token := do skip; peek

def isDirective : Token → Bool
  | .version _ _ => true
  | .handle _ _ => true
  | _ => false

/-- Directives in front of a document. The version is given at most once and every handle is
declared at most once. -/
def directives : (fuel : Nat) → (versioned : Bool) → Reader Unit
  | 0, _ => failure
  | n + 1, versioned => do
    match ← peek with
    | .version major minor =>
      if versioned || major ≠ 1 || minor ≠ 1 then failure
      skip
      directives n true
    | .handle name start =>
      if ((← get).handles.lookup name).isSome then failure
      modify fun p => { p with handles := (name, start) :: p.handles }
      skip
      directives n versioned
    | _ => pure ()

/-- The handles that every document has unless it declares them itself. -/
def defaultHandles : List (Text × Text) := [("!", "!"), ("!!", "tag:yaml.org,2002:")]

/-- The full tag of a handle and the rest of a name. -/
def tagOf (handle suffix : Text) : Reader Text := do
  if handle.isEmpty then return suffix
  match ((← get).handles ++ defaultHandles).lookup handle with
  | some start => return start ++ suffix
  | none => failure

/-- An anchor and a tag in front of a node, in either order. -/
def properties : Reader (Option Text × Option Text) := do
  let readTag : Reader (Option Text) := do
    match ← peek with
    | .tag handle suffix => skip; return some (← tagOf handle suffix)
    | _ => return none
  let readAnchor : Reader (Option Text) := do
    match ← peek with
    | .anchor name => skip; return some name
    | _ => return none
  match ← peek with
  | .anchor _ => let a ← readAnchor; return (a, ← readTag)
  | _ => let t ← readTag; return (← readAnchor, t)

def bindAnchor (anchor : Option Text) (target : Anchored) : Reader Unit :=
  match anchor with
  | some name => modify fun p => { p with anchors := (name, target) :: p.anchors }
  | none => pure ()

/-- Reads a collection under an anchor, which aliases inside it may already name. -/
def anchored (anchor : Option Text) (read : Reader Node) : Reader Node := do
  match anchor with
  | none => read
  | some _ =>
    let id := (← get).next
    bindAnchor anchor (.open_ id)
    let n := (← read).close id
    modify fun p => { p with anchors := p.anchors.map fun (name, target) =>
      (name, match target with
        | .open_ i => if i = id then .node n else .open_ i
        | .node m => .node (m.fill id n)) }
    return n

/-- The entries of a block sequence up to its end. -/
def blockItems (node : Reader Node) : (fuel : Nat) → Reader (List Node)
  | 0 => failure
  | n + 1 => do
    match ← peek with
    | .entry =>
      let t ← advance
      let item ← if t = .entry || t = .blockEnd then pure .empty else node
      return item :: (← blockItems node n)
    | .blockEnd => skip; return []
    | _ => failure

/-- The entries of a sequence that is not indented against the mapping around it. -/
def flushItems (node : Reader Node) : (fuel : Nat) → Reader (List Node)
  | 0 => failure
  | n + 1 => do
    match ← peek with
    | .entry =>
      let t ← advance
      let bare := t = .entry || t = .key || t = .value || t = .blockEnd
      let item ← if bare then pure .empty else node
      return item :: (← flushItems node n)
    | _ => return []

/-- The node behind a key or value mark of a block mapping, where there is one. -/
def blockPart (node : Reader Node) (mark : Token) : Reader Node := do
  if (← peek) = mark then
    let t ← advance
    if t = .key || t = .value || t = .blockEnd then return .empty else node
  else return .empty

def blockEntries (node : Reader Node) : (fuel : Nat) → Reader (List (Node × Node))
  | 0 => failure
  | n + 1 => do
    match ← peek with
    | .key =>
      let k ← blockPart node .key
      let v ← blockPart node .value
      return (k, v) :: (← blockEntries node n)
    | .blockEnd => skip; return []
    | _ => failure

/-- The node behind a colon in brackets, where there is one. -/
def flowValue (node : Reader Node) (close : Token) : Reader Node := do
  if (← peek) = .value then
    let t ← advance
    if t = .comma || t = close then return .empty else node
  else return .empty

/-- A mapping of one pair that stands in a bracketed sequence. A missing key takes the token in its
place with it. -/
def flowPair (node : Reader Node) : Reader Node := do
  let t ← advance
  let k ← if t = .value || t = .comma || t = .flowSequenceEnd then do skip; pure .empty else node
  let v ← flowValue node .flowSequenceEnd
  return .mapping [(k, v)]

def flowItems (node : Reader Node) : (fuel : Nat) → (first : Bool) → Reader (List Node)
  | 0, _ => failure
  | n + 1, first => do
    if (← peek) = .flowSequenceEnd then skip; return []
    if !first then
      if (← peek) = .comma then skip else failure
    match ← peek with
    | .flowSequenceEnd => skip; return []
    | .key =>
      let item ← flowPair node
      return item :: (← flowItems node n false)
    | _ =>
      let item ← node
      return item :: (← flowItems node n false)

def flowEntries (node : Reader Node) :
    (fuel : Nat) → (first : Bool) → Reader (List (Node × Node))
  | 0, _ => failure
  | n + 1, first => do
    if (← peek) = .flowMappingEnd then skip; return []
    if !first then
      if (← peek) = .comma then skip else failure
    match ← peek with
    | .flowMappingEnd => skip; return []
    | .key =>
      let t ← advance
      let bare := t = .value || t = .comma || t = .flowMappingEnd
      let k ← if bare then pure .empty else node
      let v ← flowValue node .flowMappingEnd
      return (k, v) :: (← flowEntries node n false)
    | _ =>
      let k ← node
      return (k, .empty) :: (← flowEntries node n false)

/-- An alias to a node that has been read or is being read. -/
def aliasOf (name : Text) : Reader Node := do
  skip
  match (← get).anchors.lookup name with
  | some (.node n) => return .reference name n
  | some (.open_ id) => return .open_ name id
  | none => failure

/-- A node. Blocks cannot start inside brackets, and only the parts of a block mapping may be
sequences without an indentation of their own. -/
def node : (fuel : Nat) → (block flush : Bool) → Reader Node
  | 0, _, _ => failure
  | n + 1, block, flush => do
    let size := (← get).tokens.items.size + 1
    match ← peek with
    | .reference name => aliasOf name
    | _ =>
      let (anchor, tag) ← properties
      let hasProperties := anchor.isSome || tag.isSome
      let tag := tag.filter fun t : Text => t ≠ Text.ofString "!"
      match ← peek with
      | .entry =>
        if flush then
          anchored anchor (return .sequence (← flushItems (node n true false) size))
        else if hasProperties then bare anchor tag
        else failure
      | .scalar quoted text =>
        skip
        let s := Node.scalar tag quoted text
        bindAnchor anchor (.node s)
        return s
      | .flowSequence =>
        anchored anchor (do skip; return .sequence (← flowItems (node n false false) size true))
      | .flowMapping =>
        anchored anchor (do skip; return .mapping (← flowEntries (node n false false) size true))
      | .blockSequence =>
        if block then
          anchored anchor (do skip; return .sequence (← blockItems (node n true false) size))
        else if hasProperties then bare anchor tag
        else failure
      | .blockMapping =>
        if block then
          anchored anchor (do skip; return .mapping (← blockEntries (node n true true) size))
        else if hasProperties then bare anchor tag
        else failure
      | _ => if hasProperties then bare anchor tag else failure
where
  /-- An anchor or a tag with nothing behind it. -/
  bare (anchor tag : Option Text) : Reader Node := do
    let s := Node.scalar tag false []
    bindAnchor anchor (.node s)
    return s

/-- The first document of a stream, if the stream has one. The token behind the document has to be
readable. -/
def document : Reader (Option Node) := do
  let size := (← get).tokens.items.size + 1
  let t ← peek
  if t = .streamEnd then return none
  let root ← if isDirective t || t = .documentStart then do
      directives size false
      if (← peek) ≠ .documentStart then failure
      let t ← advance
      let bare := isDirective t || t = .documentStart || t = .documentEnd || t = .streamEnd
      if bare then pure .empty else node size true false
    else node size true false
  discard peek
  return some root

end Reader

/-- The first document of a text: nothing where the text is malformed, no node where it is empty. -/
def read (s : Text) : Option (Option Node) := do
  let cs ← chars? s
  (Reader.document.run' { tokens := Tokens.ofChars cs })

end BytecodeMachine.Yaml
