import BytecodeMachine.Program.Basic

/-!
Programs as listings for readers: a header with the declarations, then one line an instruction.
-/
namespace BytecodeMachine

/-- The version of the program format that listings name and images carry. -/
def formatVersion : Nat := 1

namespace Program

def addressText (n : Int) : Text := Text.upperHex 4 n

def addressOrDash (n : Int) : Text := if n < 0 then "-" else addressText n

def operandText (ins : Instruction) (kind : OperandKind) : Text :=
  let o := ins.operand
  match kind with
  | .none => []
  | .literal => Literal.optionText o.lit
  | .name => o.name
  | .target => "-> " ++ addressText o.int.toInt
  | .count => Text.ofInt64 o.int
  | .nameCount => o.name ++ "/" ++ Text.ofInt64 o.int
  | .leave => "-> " ++ addressText o.int.toInt ++ " scopes=" ++ Text.ofInt64 o.int2
  | .handlers =>
    "catch=" ++ addressOrDash o.int.toInt ++ " finally=" ++ addressOrDash o.int2.toInt
  | .qualified => o.name ++ "." ++ o.member

def dropBlanks (s : Text) : Text := (s.reverse.dropWhile (· = 32)).reverse

/-- The line of one instruction: address, mnemonic, operands, and the place in the source where one
is known. -/
def instructionText (address : Nat) (ins : Instruction) : Text :=
  let kind := match Opcode.ofCode? ins.op with
    | some op => op.operand
    | none => .none
  let line := addressText address ++ "  " ++ Text.padRight 14 (Opcode.nameOfCode ins.op) ++ " "
    ++ operandText ins kind
  dropBlanks <|
    if 0 < ins.line.toInt then
      Text.padRight 44 line ++ " ; " ++ Text.ofInt64 ins.line ++ ":" ++ Text.ofInt64 ins.col
    else line

/-- The line of the instruction at an address, inside the code or not. -/
def lineAt (p : Program) (address : Int) : Text :=
  match p.instruction? address with
  | some ins => instructionText address.toNat ins
  | none => addressText address ++ "  <out of range>"

def commaList (names : List Text) : Text := Text.join ", " names

def enumText (name : Text) (members : List Text) : Text :=
  ";   " ++ name ++ " \x7b " ++ commaList members ++ " \x7d\n"

def namesText (title : Text) (names : List Text) : Text :=
  if names.isEmpty then [] else ";     " ++ title ++ commaList names ++ "\n"

def methodsText (title : Text) (methods : Table Text) : Text :=
  methods.entries.flatMap fun e => ";     " ++ title ++ " " ++ e.1 ++ " -> " ++ e.2 ++ "\n"

def classText (c : ClassInfo) : Text :=
  ";   " ++ c.name ++ (if c.base.isEmpty then ([] : Text) else " : " ++ c.base) ++ "\n"
    ++ namesText "fields:  " c.fields ++ namesText "statics: " c.statics
    ++ methodsText "method" c.methods ++ methodsText "static" c.staticMethods

/-- The headings of the functions that start at an address. -/
def entriesText (p : Program) (names : List Text) (address : Nat) : Text :=
  names.flatMap fun name =>
    match p.functions.get? name with
    | some fn =>
      if fn.address.toInt = address then "\n" ++ name ++ "(" ++ commaList fn.params ++ "):\n" else []
    | none => []

def headerText (p : Program) : Text :=
  "; === " ++ p.file ++ " ===\n; CFGS Bytecode v" ++ Text.ofNat formatVersion ++ ", "
    ++ Text.ofNat p.code.size ++ " instructions\n"

def enumsText (p : Program) : Text :=
  if p.enums.isEmpty then []
  else Text.ofString "; Enums:\n" ++ p.enums.entries.flatMap fun e => enumText e.1 (e.2.getD [])

def classesText (p : Program) : Text :=
  if p.classes.isEmpty then []
  else Text.ofString "; Classes:\n" ++ p.classes.entries.flatMap fun e => classText e.2

def codeText (p : Program) : Text :=
  let names := p.functionNames
  p.code.toList.zipIdx.flatMap fun e => entriesText p names e.2 ++ instructionText e.2 e.1 ++ [10]

def disassemble (p : Program) : Text :=
  p.headerText ++ p.enumsText ++ p.classesText ++ "\n" ++ p.codeText

end Program

end BytecodeMachine
