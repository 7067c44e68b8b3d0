import BytecodeMachine.Listing.Entry
import BytecodeMachine.Program.LoadError

/-!
Assembling a program from a listing. Addresses in a listing are labels.
-/
namespace BytecodeMachine.Listing

namespace Constants

/-- The constants that are given, in a fixed order. A character constant is one character long. -/
def literals (c : Constants) : Except EntryError (List Literal) := do
  let char ← match c.char with
    | none => pure none
    | some s =>
      match Text.chars s with
      | [x] => pure (some (Literal.ofCodePoint (Int32.ofNat x.toNat)))
      | _ => throw (.charLength s)
  let given := [c.int.map Literal.ofInt, c.int32.map Literal.ofInt32, c.float.map Literal.ofFloat,
    c.float32.map Literal.ofFloat32, c.str.map Literal.ofText, char, c.bool.map Literal.bool,
    c.decimal.map Literal.ofDecimal, if c.nil then some Literal.null else none]
  return given.filterMap id

/-- The one constant of an entry. -/
def literal (c : Constants) : Except EntryError Literal := do
  match ← c.literals with
  | [l] => return l
  | ls => throw (.literalCount ls.length)

end Constants

namespace Entry

def require (op : Opcode) (what : String) (present : Bool) : Except EntryError Unit :=
  if present then .ok () else .error (.requires op what)

/-- Adds the instruction of an entry. -/
def emit (e : Entry) (op : Opcode) (b : Builder) : Except EntryError Builder := do
  match op.operand with
  | .none => return b.emit op.code {}
  | .literal => return b.emit op.code { lit := some (← e.constants.literal) }
  | .name =>
    require op "name" (!e.name.isEmpty)
    return b.emit op.code { name := e.name }
  | .target =>
    require op "to" (!e.target.isEmpty)
    return b.jump op.code e.target
  | .count => return b.emit op.code { int := e.n }
  | .nameCount =>
    require op "name" (!e.name.isEmpty)
    return b.emit op.code { name := e.name, int := e.n }
  | .leave =>
    require op "to" (!e.target.isEmpty)
    return b.leave e.target e.scopes
  | .handlers =>
    require op "catch or finally" (!e.catch_.isEmpty || !e.finally_.isEmpty)
    return b.tryPush e.catch_ e.finally_
  | .qualified =>
    require op "name and member" (!e.name.isEmpty && !e.member.isEmpty)
    return b.emit op.code { name := e.name, member := e.member }

/-- Adds an entry: its place in the source, its function, its label and its instruction. -/
def assemble (e : Entry) (b : Builder) : Except EntryError Builder := do
  let b := if e.line ≠ 0 || e.col ≠ 0 then b.locate e.line e.col else b
  let b := if e.function.isEmpty then b else b.function e.function e.params
  let b := if e.label.isEmpty then b else b.label e.label
  if e.op.isEmpty then
    if e.function.isEmpty && e.label.isEmpty then throw .empty else return b
  else
    match Opcode.ofMnemonic? e.op with
    | some op => e.emit op b
    | none => throw (.unknownOpcode e.op)

end Entry

/-- Adds entries from the first to the last. -/
def assembleAll (name : Text) : (i : Nat) → List Entry → Builder → Except LoadError Builder
  | _, [], b => .ok b
  | i, e :: es, b =>
    match e.assemble b with
    | .ok b => assembleAll name (i + 1) es b
    | .error err => .error (.entry name i err)

/-- The program of a listing that was given under a name. -/
def Source.assemble (s : Source) (name : Text) : Except LoadError Program := do
  let b := Builder.new (if s.file.isEmpty then name else s.file)
  let b := s.enums.entries.foldl (fun b e => b.declareEnum e.1 e.2) b
  let b := s.classes.foldl Builder.declareClass b
  let b ← assembleAll name 0 s.code b
  match b.build.1 with
  | .error e => throw (.build name e)
  | .ok p =>
    match p.defect? with
    | some d => throw (.listing name d)
    | none => return p

/-- What the text of a listing says. -/
def Source.read (text name : Text) : Except LoadError Source :=
  match Yaml.read text with
  | none => .error (.malformed name)
  | some none => .ok {}
  | some (some root) =>
    match (Shape.source root).run false with
    | none => .error (.malformed name)
    | some (s, mismatch) => if mismatch then .error (.misshapen name) else .ok s

/-- The program that the text of a listing describes. -/
def read (text name : Text) : Except LoadError Program := do
  (← Source.read text name).assemble name

end BytecodeMachine.Listing
