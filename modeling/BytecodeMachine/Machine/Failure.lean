import BytecodeMachine.Files.Handle
import BytecodeMachine.Machine.Value
import BytecodeMachine.Text.Quoted

/-!
How executing an instruction can fail: an exception, which programs can catch, a fault of a
malformed program, or the end of the run.
-/
namespace BytecodeMachine

/-- Why the machine raises an exception of its own. -/
inductive ErrorCause where
  | undeclaredVariable (name : Text)
  | undefinedName (name : Text)
  | operandTypes (symbol : String) (a b : Kind)
  | unaryOperand (k : Kind)
  | incomparable (symbol : String) (a b : Kind)
  | integerDivision
  | integerModulo
  | decimalDivision
  | decimalFailure (symbol : String) (e : DecimalError)
  | floatToDecimal (shown : Text)
  | kindToDecimal (k : Kind)
  | textToDecimal (s : Text)
  | noMember (owner name : Text)
  | noStaticMember (owner name : Text)
  | noEnumMember (enum name : Text)
  | assignMethod (name owner : Text)
  | assignStaticMethod (name owner : Text)
  | assignMember (name owner : Text)
  | instanceMember (name owner : Text)
  | notCallable (what : Text)
  | arity (name : Text) (arity : Arity) (argc : Int)
  | receiver (m : Intrinsic) (got : Kind)
  | callDepth (limit : Nat)
  | notInteger (what : Text) (got : Kind)
  | notString (what : Text) (got : Kind)
  | indexRange (i : Int) (size : Nat)
  | indexKinds (obj idx : Kind)
  | immutableString
  | notSliceable (k : Kind)
  | emptyPop
  | insertRange (i : Int) (size : Nat)
  | emptyReduce
  | lenOf (k : Kind)
  | numberToInt (shown : Text)
  | textToInt (s : Text)
  | kindToInt (k : Kind)
  | textToFloat (s : Text)
  | kindToFloat (k : Kind)
  | classOf (k : Kind)
  | pattern (s : Text) (reason : Text)
  | substringRange (start stop : Int) (size : Nat)
  | fileClosed (path : Text)
  | notWritable (path : Text)
  | notReadable (path : Text)
  | fileError (path : Text) (e : FileError)
  | fileMode (path mode : Text)
  | thrown (shown : Text)
  | host (name text : Text)
  | custom (kind message : Text)
deriving DecidableEq

namespace ErrorCause

def kind : ErrorCause → Text
  | undeclaredVariable _ | undefinedName _ => "NameError"
  | integerDivision | integerModulo | decimalDivision | decimalFailure _ _ | floatToDecimal _
  | numberToInt _ => "ArithmeticError"
  | noMember _ _ | noStaticMember _ _ | noEnumMember _ _ | assignMethod _ _
  | assignStaticMethod _ _ | assignMember _ _ | instanceMember _ _ => "MemberError"
  | arity _ _ _ => "ArityError"
  | callDepth _ => "StackOverflowError"
  | indexRange _ _ | emptyPop | insertRange _ _ | emptyReduce | substringRange _ _ _ => "IndexError"
  | fileClosed _ | notWritable _ | notReadable _ | fileError _ _ | fileMode _ _ => "IOError"
  | thrown _ | host _ _ => "Error"
  | custom k _ => k
  | _ => "TypeError"

def arityMessage (name : Text) (a : Arity) (argc : Int) : Text :=
  name ++ " expects " ++ (match a.most with
    | none => "at least " ++ Text.ofNat a.least ++ " argument(s)"
    | some n =>
      if n = a.least then Text.ofNat n ++ " argument(s)"
      else Text.ofNat a.least ++ " to " ++ Text.ofNat n ++ " arguments")
    ++ ", got " ++ Text.ofInt argc

def message : ErrorCause → Text
  | undeclaredVariable name => "assignment to undeclared variable '" ++ name ++ "'"
  | undefinedName name => "name '" ++ name ++ "' is not defined"
  | operandTypes symbol a b =>
    "unsupported operand types for " ++ Text.ofString symbol ++ ": " ++ a.name ++ " and " ++ b.name
  | unaryOperand k => "bad operand type for unary -: " ++ k.name
  | incomparable symbol a b =>
    "cannot compare " ++ a.name ++ " and " ++ b.name ++ " with " ++ Text.ofString symbol
  | integerDivision => "integer division by zero"
  | integerModulo => "integer modulo by zero"
  | decimalDivision => "decimal division by zero"
  | decimalFailure symbol e => "decimal " ++ Text.ofString symbol ++ ": " ++ e.message
  | floatToDecimal shown => "cannot convert " ++ shown ++ " to decimal"
  | kindToDecimal k => "cannot convert " ++ k.name ++ " to decimal"
  | textToDecimal s => "cannot convert " ++ Text.quote s ++ " to decimal"
  | noMember owner name => owner ++ " has no member '" ++ name ++ "'"
  | noStaticMember owner name => owner ++ " has no static member '" ++ name ++ "'"
  | noEnumMember enum name => "enum " ++ enum ++ " has no member '" ++ name ++ "'"
  | assignMethod name owner => "cannot assign to method '" ++ name ++ "' of " ++ owner
  | assignStaticMethod name owner => "cannot assign to static method '" ++ name ++ "' of " ++ owner
  | assignMember name owner => "cannot assign to member '" ++ name ++ "' of " ++ owner
  | instanceMember name owner => "'" ++ name ++ "' is an instance member of " ++ owner
  | notCallable what => what ++ " is not callable"
  | arity name a argc => arityMessage name a argc
  | receiver m got =>
    m.kind.name ++ "." ++ m.name ++ " expects a " ++ m.kind.name ++ " receiver, got " ++ got.name
  | callDepth limit => "maximum call depth " ++ Text.ofNat limit ++ " exceeded"
  | notInteger what got => what ++ " expects an integer, got " ++ got.name
  | notString what got => what ++ " expects a string, got " ++ got.name
  | indexRange i size =>
    "index " ++ Text.ofInt i ++ " out of range for length " ++ Text.ofNat size
  | indexKinds obj idx => "cannot index " ++ obj.name ++ " with " ++ idx.name
  | immutableString => "strings are immutable"
  | notSliceable k => "cannot slice " ++ k.name
  | emptyPop => "pop from empty array"
  | insertRange i size =>
    "insert index " ++ Text.ofInt i ++ " out of range for length " ++ Text.ofNat size
  | emptyReduce => "reduce of empty array with no initial value"
  | lenOf k => "len() of " ++ k.name
  | numberToInt shown => "cannot convert " ++ shown ++ " to int"
  | textToInt s => "cannot convert " ++ Text.quote s ++ " to int"
  | kindToInt k => "cannot convert " ++ k.name ++ " to int"
  | textToFloat s => "cannot convert " ++ Text.quote s ++ " to float"
  | kindToFloat k => "cannot convert " ++ k.name ++ " to float"
  | classOf k => "classOf expects an object, got " ++ k.name
  | pattern s reason => "invalid pattern " ++ Text.quote s ++ ": " ++ reason
  | substringRange start stop size =>
    "substring [" ++ Text.ofInt start ++ ", " ++ Text.ofInt stop ++ ") out of range for length "
      ++ Text.ofNat size
  | fileClosed path => path ++ ": file is closed"
  | notWritable path => path ++ ": file not open for writing"
  | notReadable path => path ++ ": file not open for reading"
  | fileError path e => path ++ ": " ++ e.message
  | fileMode path mode => path ++ ": invalid mode " ++ Text.quote mode
  | thrown shown => shown
  | host name text => name ++ ": " ++ text
  | custom _ m => m

end ErrorCause

/-- Why the machine cannot go on with a program. -/
inductive FaultCause where
  | outsideProgram (ip : Int)
  | unknownOpcode (op : UInt8)
  | stackUnderflow
  | scopeUnderflow
  | leavePast (scopes : Int)
  | tryPopWithoutHandler
  | endFinallyWithoutHandler
  | undefinedFunction (name : Text)
  | undefinedClass (name : Text)
  | undefinedType (name : Text)
  | missingLiteral
  | badDecimal (s : Text)
  | unknownLiteral (kind : UInt8)
  | custom (message : Text)
deriving DecidableEq

def FaultCause.message : FaultCause → Text
  | outsideProgram ip => "instruction pointer " ++ Text.ofInt ip ++ " outside program"
  | unknownOpcode op => "unknown opcode 0x" ++ Text.upperHex 2 op.toNat
  | stackUnderflow => "operand stack underflow"
  | scopeUnderflow => "POP_SCOPE without matching PUSH_SCOPE"
  | leavePast n => "LEAVE pops " ++ Text.ofInt n ++ " scopes past the frame"
  | tryPopWithoutHandler => "TRY_POP without active handler"
  | endFinallyWithoutHandler => "END_FINALLY without active handler"
  | undefinedFunction name => "undefined function " ++ Text.quote name
  | undefinedClass name => "undefined class " ++ Text.quote name
  | undefinedType name => "undefined type " ++ Text.quote name
  | missingLiteral => "missing literal"
  | badDecimal s => "invalid decimal literal " ++ Text.quote s
  | unknownLiteral k => "unknown literal kind " ++ Text.ofNat k.toNat
  | custom m => m

/-- A fault with the instruction it was met at. -/
structure Fault where
  ip : Int
  op : Text
  cause : FaultCause
deriving DecidableEq

/-- A fault as one line. -/
def Fault.message (f : Fault) : Text :=
  "vm fault at " ++ Text.upperHex 4 f.ip
    ++ (if f.op.isEmpty then ([] : Text) else " (" ++ f.op ++ ")") ++ ": " ++ f.cause.message

/-- Why a run is stopped from outside. -/
inductive StopReason where
  | cancelled
  | deadline
deriving DecidableEq

def StopReason.message : StopReason → Text
  | cancelled => "context canceled"
  | deadline => "context deadline exceeded"

/-- What stops an instruction or a native call. -/
inductive Failure where
  /-- A new exception, with the value it carries. -/
  | raise (cause : ErrorCause) (payload : Value)
  /-- An exception that exists already. -/
  | rethrow (id : Nat)
  | fault (f : Fault)
  | halt (v : Value)
  | stopped (reason : StopReason)
  /-- A refused write to the output. -/
  | output (text : Text)
  /-- An error of the host that is no exception. -/
  | host (text : Text)
deriving DecidableEq

def Failure.of (cause : ErrorCause) : Failure := .raise cause .null

end BytecodeMachine
