import BytecodeMachine.Text.Basic

/-!
The instruction set: every opcode has a number, a mnemonic, a shape of operands and an effect on
the height of the operand stack.
-/
namespace BytecodeMachine

/-- Which operand fields an instruction uses. -/
inductive OperandKind where
  | none
  | literal
  | name
  | target
  | count
  | nameCount
  | leave
  | handlers
  | qualified
deriving DecidableEq, Repr

def OperandKind.number : OperandKind → Nat
  | none => 0
  | literal => 1
  | name => 2
  | target => 3
  | count => 4
  | nameCount => 5
  | leave => 6
  | handlers => 7
  | qualified => 8

inductive Opcode where
  | nop | pop | dup | swap
  | pushConst | pushNull | pushTrue | pushFalse
  | varDecl | loadVar | storeVar | pushScope | popScope
  | add | sub | mul | div | mod | neg | not | eq | ne | lt | le | gt | ge
  | jump | jumpIfFalse | jumpIfTrue | leave | halt
  | call | callIndirect | callMethod | pushClosure | ret
  | makeArray | makeDict | indexGet | indexSet | sliceGet
  | newObject | loadMember | storeMember | loadStatic | storeStatic | pushType
  | tryPush | tryPop | throw | endFinally
  | print
deriving DecidableEq, Repr, Inhabited

/-- What is known of an opcode without running it. A variable number of popped values depends on an
operand. -/
structure OpcodeInfo where
  code : UInt8
  mnemonic : String
  pops : Option Nat
  pushes : Nat
  operand : OperandKind

namespace Opcode

def info : Opcode → OpcodeInfo
  | nop => ⟨0x00, "NOP", some 0, 0, .none⟩
  | pop => ⟨0x01, "POP", some 1, 0, .none⟩
  | dup => ⟨0x02, "DUP", some 1, 2, .none⟩
  | swap => ⟨0x03, "SWAP", some 2, 2, .none⟩
  | pushConst => ⟨0x10, "PUSH_CONST", some 0, 1, .literal⟩
  | pushNull => ⟨0x11, "PUSH_NULL", some 0, 1, .none⟩
  | pushTrue => ⟨0x12, "PUSH_TRUE", some 0, 1, .none⟩
  | pushFalse => ⟨0x13, "PUSH_FALSE", some 0, 1, .none⟩
  | varDecl => ⟨0x20, "VAR_DECL", some 1, 0, .name⟩
  | loadVar => ⟨0x21, "LOAD_VAR", some 0, 1, .name⟩
  | storeVar => ⟨0x22, "STORE_VAR", some 1, 0, .name⟩
  | pushScope => ⟨0x23, "PUSH_SCOPE", some 0, 0, .none⟩
  | popScope => ⟨0x24, "POP_SCOPE", some 0, 0, .none⟩
  | add => ⟨0x30, "ADD", some 2, 1, .none⟩
  | sub => ⟨0x31, "SUB", some 2, 1, .none⟩
  | mul => ⟨0x32, "MUL", some 2, 1, .none⟩
  | div => ⟨0x33, "DIV", some 2, 1, .none⟩
  | mod => ⟨0x34, "MOD", some 2, 1, .none⟩
  | neg => ⟨0x35, "NEG", some 1, 1, .none⟩
  | not => ⟨0x36, "NOT", some 1, 1, .none⟩
  | eq => ⟨0x37, "EQ", some 2, 1, .none⟩
  | ne => ⟨0x38, "NE", some 2, 1, .none⟩
  | lt => ⟨0x39, "LT", some 2, 1, .none⟩
  | le => ⟨0x3A, "LE", some 2, 1, .none⟩
  | gt => ⟨0x3B, "GT", some 2, 1, .none⟩
  | ge => ⟨0x3C, "GE", some 2, 1, .none⟩
  | jump => ⟨0x40, "JUMP", some 0, 0, .target⟩
  | jumpIfFalse => ⟨0x41, "JUMP_IF_FALSE", some 1, 0, .target⟩
  | jumpIfTrue => ⟨0x42, "JUMP_IF_TRUE", some 1, 0, .target⟩
  | leave => ⟨0x43, "LEAVE", some 0, 0, .leave⟩
  | halt => ⟨0x44, "HALT", some 0, 0, .none⟩
  | call => ⟨0x50, "CALL", none, 1, .nameCount⟩
  | callIndirect => ⟨0x51, "CALL_INDIRECT", none, 1, .count⟩
  | callMethod => ⟨0x52, "CALL_METHOD", none, 1, .nameCount⟩
  | pushClosure => ⟨0x53, "PUSH_CLOSURE", some 0, 1, .name⟩
  | ret => ⟨0x54, "RETURN", some 1, 0, .none⟩
  | makeArray => ⟨0x60, "MAKE_ARRAY", none, 1, .count⟩
  | makeDict => ⟨0x61, "MAKE_DICT", none, 1, .count⟩
  | indexGet => ⟨0x62, "INDEX_GET", some 2, 1, .none⟩
  | indexSet => ⟨0x63, "INDEX_SET", some 3, 0, .none⟩
  | sliceGet => ⟨0x64, "SLICE_GET", some 3, 1, .none⟩
  | newObject => ⟨0x70, "NEW_OBJECT", some 0, 1, .name⟩
  | loadMember => ⟨0x71, "LOAD_MEMBER", some 1, 1, .name⟩
  | storeMember => ⟨0x72, "STORE_MEMBER", some 2, 0, .name⟩
  | loadStatic => ⟨0x73, "LOAD_STATIC", some 0, 1, .qualified⟩
  | storeStatic => ⟨0x74, "STORE_STATIC", some 1, 0, .qualified⟩
  | pushType => ⟨0x75, "PUSH_TYPE", some 0, 1, .name⟩
  | tryPush => ⟨0x80, "TRY_PUSH", some 0, 0, .handlers⟩
  | tryPop => ⟨0x81, "TRY_POP", some 0, 0, .none⟩
  | throw => ⟨0x82, "THROW", some 1, 0, .none⟩
  | endFinally => ⟨0x83, "END_FINALLY", some 0, 0, .none⟩
  | print => ⟨0x90, "PRINT", some 1, 0, .none⟩

/-- All opcodes by increasing number. -/
def all : List Opcode :=
  [nop, pop, dup, swap, pushConst, pushNull, pushTrue, pushFalse, varDecl, loadVar, storeVar,
    pushScope, popScope, add, sub, mul, div, mod, neg, not, eq, ne, lt, le, gt, ge, jump,
    jumpIfFalse, jumpIfTrue, leave, halt, call, callIndirect, callMethod, pushClosure, ret,
    makeArray, makeDict, indexGet, indexSet, sliceGet, newObject, loadMember, storeMember,
    loadStatic, storeStatic, pushType, tryPush, tryPop, throw, endFinally, print]

def code (op : Opcode) : UInt8 := op.info.code

def mnemonic (op : Opcode) : Text := Text.ofString op.info.mnemonic

def operand (op : Opcode) : OperandKind := op.info.operand

def ofCode? (n : UInt8) : Option Opcode := all.find? fun op => op.code = n

def ofMnemonic? (name : Text) : Option Opcode := all.find? fun op => op.mnemonic = name

/-- Whether the first number of an instruction is an instruction address. -/
def isJump : Opcode → Bool
  | jump | jumpIfFalse | jumpIfTrue | leave => true
  | _ => false

/-- The name of an opcode number, known or not. -/
def nameOfCode (n : UInt8) : Text :=
  match ofCode? n with
  | some op => op.mnemonic
  | none => "UNKNOWN(0x" ++ Text.upperHex 2 n.toNat ++ ")"

end Opcode

end BytecodeMachine
