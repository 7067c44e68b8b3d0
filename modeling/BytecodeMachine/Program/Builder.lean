import BytecodeMachine.Program.Basic
import BytecodeMachine.Text.Quoted

/-!
Building a program from instructions that name labels. Labels may be bound before or after their
use; building puts the addresses in.
-/
namespace BytecodeMachine

/-- Why a program cannot be built. -/
inductive BuildError where
  | labelTwice (label : Text)
  | functionTwice (name : Text)
  | undefinedLabel (label : Text) (at_ : Nat)
deriving DecidableEq

def BuildError.message : BuildError → Text
  | labelTwice l => "bytecode: label " ++ Text.quote l ++ " defined twice"
  | functionTwice f => "bytecode: function " ++ Text.quote f ++ " defined twice"
  | undefinedLabel l i =>
    "bytecode: undefined label " ++ Text.quote l ++ " at instruction " ++ Text.ofNat i

/-- Which number of an instruction a label is put into. -/
inductive Slot where
  | first
  | second
deriving DecidableEq

structure Fixup where
  at_ : Nat
  label : Text
  slot : Slot
deriving DecidableEq

structure Builder where
  program : Program
  line : Int64 := 0
  col : Int64 := 0
  labels : List (Text × Nat) := []
  fixups : List Fixup := []
  error : Option BuildError := none

namespace Builder

/-- An empty program attributed to a file. -/
def new (file : Text) : Builder := { program := { file := file } }

/-- The address of the next instruction. -/
def size (b : Builder) : Nat := b.program.code.size

/-- The place in the source of the instructions that follow. -/
def locate (b : Builder) (line col : Int64) : Builder := { b with line := line, col := col }

def emit (b : Builder) (op : UInt8) (operand : Operand) : Builder :=
  let ins : Instruction :=
    { op := op, operand := operand, line := b.line, col := b.col, file := b.program.file }
  { b with program := { b.program with code? := some (b.program.code.push ins) } }

/-- Remembers the first error only. -/
def fail (b : Builder) (e : BuildError) : Builder := { b with error := b.error.or (some e) }

/-- Binds a label to the next address. -/
def label (b : Builder) (name : Text) : Builder :=
  let b' := if (b.labels.lookup name).isSome then b.fail (.labelTwice name) else b
  { b' with labels := (name, b.size) :: b.labels }

def refer (b : Builder) (at_ : Nat) (label : Text) (slot : Slot) : Builder :=
  { b with fixups := b.fixups ++ [⟨at_, label, slot⟩] }

/-- An instruction whose first number is the address of a label. -/
def jump (b : Builder) (op : UInt8) (label : Text) : Builder :=
  (b.emit op {}).refer b.size label .first

/-- A jump to a label out of a number of scopes. -/
def leave (b : Builder) (label : Text) (scopes : Int64) : Builder :=
  (b.emit Opcode.leave.code { int2 := scopes }).refer b.size label .first

/-- The start of a protected region; an empty label stands for a missing handler. -/
def tryPush (b : Builder) (catchLabel finallyLabel : Text) : Builder :=
  let b₁ := b.emit Opcode.tryPush.code { int := -1, int2 := -1 }
  let b₂ := if catchLabel.isEmpty then b₁ else b₁.refer b.size catchLabel .first
  if finallyLabel.isEmpty then b₂ else b₂.refer b.size finallyLabel .second

/-- A function whose body starts at the next instruction; its name is a label too. -/
def function (b : Builder) (name : Text) (params : List Text) : Builder :=
  let b' := if b.program.functions.contains name then b.fail (.functionTwice name) else b
  let fn : Function := { name := name, address := Int64.ofNat b.size, params := params }
  let functions := b.program.functions.insert name fn
  label { b' with program := { b.program with functions := functions } } name

def declareClass (b : Builder) (c : ClassInfo) : Builder :=
  { b with program := { b.program with classes := b.program.classes.insert c.name c } }

def declareEnum (b : Builder) (name : Text) (members : Option (List Text)) : Builder :=
  { b with program := { b.program with enums := b.program.enums.insert name members } }

def Slot.put (slot : Slot) (address : Int64) (ins : Instruction) : Instruction :=
  match slot with
  | .first => { ins with operand := { ins.operand with int := address } }
  | .second => { ins with operand := { ins.operand with int2 := address } }

/-- Puts the addresses in until a label is missing. The instructions patched before that stay
patched. -/
def resolve (labels : List (Text × Nat)) :
    List Fixup → Array Instruction → Array Instruction × Option BuildError
  | [], code => (code, none)
  | f :: fs, code =>
    match labels.lookup f.label with
    | none => (code, some (.undefinedLabel f.label f.at_))
    | some n => resolve labels fs (code.modify f.at_ (Slot.put f.slot (Int64.ofNat n)))

/-- The program with all labels resolved, and the builder to go on with. -/
def build (b : Builder) : Except BuildError Program × Builder :=
  match b.error with
  | some e => (.error e, b)
  | none =>
    let (code, error) := resolve b.labels b.fixups b.program.code
    let p := { b.program with code? := b.program.code?.map fun _ => code }
    (match error with
      | some e => .error e
      | none => .ok p, { b with program := p })

end Builder

end BytecodeMachine
