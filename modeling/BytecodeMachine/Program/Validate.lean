import BytecodeMachine.Program.Basic

/-!
The checks on a program before it runs: known opcodes, addresses inside the code, bases that exist
and do not form a circle, methods that exist. Instructions come first, then functions, then classes.
-/
namespace BytecodeMachine

/-- The first thing wrong with a program. -/
inductive Defect where
  | unknownOpcode (at_ : Nat) (op : UInt8)
  | targetRange (at_ : Nat) (op : Opcode) (target : Int64)
  | handlerRange (at_ : Nat)
  | noHandler (at_ : Nat)
  | noLiteral (at_ : Nat)
  | functionRange (name : Text) (address : Int64)
  | unknownBase (name base : Text)
  | baseCircle (name base : Text)
  | unknownMethod (name member function : Text)
deriving DecidableEq

def Defect.message : Defect → Text
  | unknownOpcode i op =>
    "instruction " ++ Text.ofNat i ++ ": unknown opcode 0x" ++ Text.upperHex 2 op.toNat
  | targetRange i op n =>
    "instruction " ++ Text.ofNat i ++ ": " ++ op.mnemonic ++ " target " ++ Text.ofInt64 n
      ++ " out of range"
  | handlerRange i => "instruction " ++ Text.ofNat i ++ ": TRY_PUSH handler out of range"
  | noHandler i => "instruction " ++ Text.ofNat i ++ ": TRY_PUSH without catch or finally"
  | noLiteral i => "instruction " ++ Text.ofNat i ++ ": PUSH_CONST without literal"
  | functionRange name n =>
    "function " ++ name ++ ": address " ++ Text.ofInt64 n ++ " out of range"
  | unknownBase name base => "class " ++ name ++ ": unknown base class " ++ base
  | baseCircle name base => "class " ++ name ++ ": inheritance cycle through " ++ base
  | unknownMethod name member fn =>
    "class " ++ name ++ ": method " ++ member ++ " refers to unknown function " ++ fn

/-- What is wrong with the instruction at address `i` of a code of `size` instructions. -/
def Instruction.defect? (size : Int) (i : Nat) (ins : Instruction) : Option Defect :=
  match Opcode.ofCode? ins.op with
  | none => some (.unknownOpcode i ins.op)
  | some op =>
    let a := ins.operand.int.toInt
    let b := ins.operand.int2.toInt
    if op.isJump && (a < 0 || size < a) then some (.targetRange i op ins.operand.int)
    else if op = .tryPush && (size ≤ a || size ≤ b) then some (.handlerRange i)
    else if op = .tryPush && (a < 0 && b < 0) then some (.noHandler i)
    else if op = .pushConst && ins.operand.lit.isNone then some (.noLiteral i)
    else none

namespace Program

/-- Follows base names from `base` and gives the first one already seen. Every step adds a name, so
as many steps as there are classes are enough. -/
def circle? (p : Program) : (steps : Nat) → (seen : List Text) → (base : Text) → Option Text
  | 0, _, _ => none
  | steps + 1, seen, base =>
    if base.isEmpty then none
    else if seen.contains base then some base
    else
      match p.classes.get? base with
      | some c => circle? p steps (base :: seen) c.base
      | none => none

def baseDefect? (p : Program) (name : Text) (c : ClassInfo) : Option Defect :=
  if c.base.isEmpty then none
  else if !p.classes.contains c.base then some (.unknownBase name c.base)
  else (circle? p (p.classes.size + 1) [name] c.base).map (.baseCircle name)

def methodDefect? (p : Program) (name : Text) (methods : Table Text) : Option Defect :=
  methods.entries.findSome? fun e =>
    if p.functions.contains e.2 then none else some (.unknownMethod name e.1 e.2)

def classDefect? (p : Program) (name : Text) (c : ClassInfo) : Option Defect :=
  (baseDefect? p name c).or <| (methodDefect? p name c.methods).or
    (methodDefect? p name c.staticMethods)

def codeDefect? (p : Program) : Option Defect :=
  (p.code.toList.zipIdx).findSome? fun e => e.1.defect? p.code.size e.2

def functionDefect? (p : Program) : Option Defect :=
  p.functions.entries.findSome? fun e =>
    if e.2.address.toInt < 0 || (p.code.size : Int) ≤ e.2.address.toInt then
      some (.functionRange e.1 e.2.address)
    else none

/-- The first defect, none for a program that may run. -/
def defect? (p : Program) : Option Defect :=
  p.codeDefect?.or <| p.functionDefect?.or <|
    p.classes.entries.findSome? fun e => p.classDefect? e.1 e.2

/-- Whether a program may run. -/
def isValid (p : Program) : Bool := p.defect?.isNone

end Program

end BytecodeMachine
