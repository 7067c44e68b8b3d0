import BytecodeMachine.Machine.Host
import BytecodeMachine.Machine.Region

/-!
The state of a machine: operand stack, call frames, handlers of protected regions, and the native
loops that call back into the program.
-/
namespace BytecodeMachine

/-- What a run is given besides its state. -/
structure Setup where
  program : Program
  maxCallDepth : Nat := 1024
  bufferSize : Nat := 4096
  trace : Bool := false
  host : List HostFunction := []
  /-- The ends of the protected regions by the address they start at. -/
  regionEnds : Array Int

/-- What a return restores in the caller. A callback frame was entered from a native loop. -/
structure Frame where
  name : Text
  returnIp : Int
  callPc : Int
  scope : Nat
  scopeDepth : Nat
  stackBase : Nat
  callback : Bool
deriving DecidableEq, Inhabited

/-- What is left to do after a finally block. -/
inductive Pending where
  | nothing
  | exception (id : Nat)
  | giveBack (v : Value)
  | leave (target scopes : Int)
deriving DecidableEq, Inhabited

/-- How far the handler of a protected region has come. -/
inductive Phase where
  | trying
  | catching
  | finalizing (pending : Pending)
deriving DecidableEq, Inhabited

/-- An active protected region, which spans the addresses after `tryAddr` up to `endAddr`. The depths
are those at its start. A negative address stands for a missing handler. -/
structure Handler where
  catchAddr : Int
  finallyAddr : Int
  tryAddr : Int
  endAddr : Int
  scopeDepth : Nat
  callDepth : Nat
  stackHeight : Nat
  phase : Phase := .trying
deriving DecidableEq, Inhabited

namespace Handler

def hasCatch (h : Handler) : Bool := 0 ≤ h.catchAddr

def hasFinally (h : Handler) : Bool := 0 ≤ h.finallyAddr

def isFinalizing (h : Handler) : Bool :=
  match h.phase with
  | .finalizing _ => true
  | _ => false

def covers (h : Handler) (addr : Int) : Bool := h.tryAddr < addr && addr ≤ h.endAddr

end Handler

/-- What a native loop has gathered so far, last first. -/
inductive Gathered where
  | mapped (results : List Value)
  | filtered (current : Value) (kept : List Value)
  | reduced (acc : Value)
deriving DecidableEq, Inhabited

/-- A native loop over elements that calls back for each. `ip` and `pc` are those of its call,
`boundary` is the number of frames with which its current callback began, and `nested` says that
another native loop called it. -/
structure Loop where
  name : Text
  gathered : Gathered
  callee : Value
  rest : List Value
  ip : Int
  pc : Int
  boundary : Nat
  nested : Bool
deriving DecidableEq, Inhabited

/-- What the machine does next: execute an instruction, or go on with the innermost loop. -/
inductive Control where
  | fetch
  | iterate
deriving DecidableEq, Inhabited

structure Machine where
  world : World
  scope : Nat := World.globals
  scopeDepth : Nat := 0
  stack : List Value := []
  frames : List Frame := []
  handlers : List Handler := []
  loops : List Loop := []
  control : Control := .fetch
  /-- The next instruction. -/
  ip : Int := 0
  /-- The instruction being executed. -/
  pc : Int := 0
  steps : Nat := 0
deriving Inhabited

/-- The outcome of one instruction. -/
inductive Effect where
  | next (m : Machine)
  /-- The frame of a callback gave a value back. -/
  | returned (v : Value) (m : Machine)
  | failed (f : Failure) (m : Machine)

/-- How a run ends. -/
inductive Ending where
  | value (v : Value)
  | exception (id : Nat)
  | fault (f : Fault)
  | stopped (reason : StopReason)
  | failed (text : Text)

inductive Status where
  | running (m : Machine)
  | ended (e : Ending) (m : Machine)

namespace Machine

def depths (m : Machine) : Depths :=
  ⟨m.scopeDepth, m.frames.length, m.handlers.length, m.stack.length⟩

def place (s : Setup) (m : Machine) : Place :=
  ⟨m.pc, match s.program.instruction? m.pc with
    | some ins => Opcode.nameOfCode ins.op
    | none => []⟩

def fault (s : Setup) (m : Machine) (cause : FaultCause) : Failure :=
  .fault ⟨(m.place s).ip, (m.place s).op, cause⟩

def push (m : Machine) (v : Value) : Machine := { m with stack := v :: m.stack }

def underflow (s : Setup) (m : Machine) : Effect := .failed (m.fault s .stackUnderflow) m

/-- Takes the top value off the stack. -/
def pop (s : Setup) (m : Machine) (k : Value → Machine → Effect) : Effect :=
  match m.stack with
  | [] => m.underflow s
  | v :: stack => k v { m with stack := stack }

/-- Takes `n` values off the stack and gives them in the order they were pushed. -/
def popMany (s : Setup) (m : Machine) (n : Int) (k : List Value → Machine → Effect) : Effect :=
  if n < 0 || (m.stack.length : Int) < n then m.underflow s
  else k (m.stack.take n.toNat).reverse { m with stack := m.stack.drop n.toNat }

/-- Looks at the value `depth` places below the top. -/
def peek (s : Setup) (m : Machine) (depth : Int) (k : Value → Effect) : Effect :=
  match (if depth < 0 then none else m.stack[depth.toNat]?) with
  | some v => k v
  | none => m.underflow s

/-- The values of a stack below a height. -/
def truncated (stack : List Value) (height : Nat) : List Value := stack.drop (stack.length - height)

def pushScope (m : Machine) : Machine :=
  let (id, scopes) := m.world.store.scopes.push (some m.scope)
  { m with
    world := { m.world with store := { m.world.store with scopes := scopes } }
    scope := id
    scopeDepth := m.scopeDepth + 1 }

/-- The least scope depth inside the current frame. -/
def scopeFloor (m : Machine) : Nat :=
  match m.frames with
  | [] => 0
  | f :: _ => f.scopeDepth + 1

def leaveScope (m : Machine) : Machine :=
  { m with
    scope := (m.world.store.scopes.parent? m.scope).getD World.globals
    scopeDepth := m.scopeDepth - 1 }

def leaveScopes : Nat → Machine → Machine
  | 0, m => m
  | n + 1, m => leaveScopes n m.leaveScope

def leaveScopesTo (m : Machine) (depth : Int) : Machine :=
  leaveScopes ((m.scopeDepth : Int) - depth).toNat m

/-- Drops the innermost frame and restores the caller's scope and stack. -/
def popFrame (m : Machine) : Machine :=
  match m.frames with
  | [] => m
  | f :: frames =>
    { m with
      frames := frames
      scope := f.scope
      scopeDepth := f.scopeDepth
      stack := truncated m.stack f.stackBase }

def popFrames : Nat → Machine → Machine
  | 0, m => m
  | n + 1, m => popFrames n m.popFrame

/-- Drops frames, scopes and stack values made since a handler was pushed. -/
def unwindTo (m : Machine) (h : Handler) : Machine :=
  let m := popFrames (m.frames.length - h.callDepth) m
  let m := m.leaveScopesTo h.scopeDepth
  { m with stack := truncated m.stack h.stackHeight }

/-- The number of frames below which the innermost native loop does not reach. -/
def boundary (loops : List Loop) : Nat :=
  match loops with
  | [] => 0
  | l :: _ => l.boundary

end Machine

end BytecodeMachine
