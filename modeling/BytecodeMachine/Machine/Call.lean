import BytecodeMachine.Machine.Builtins
import BytecodeMachine.Machine.Intrinsics
import BytecodeMachine.Machine.Unwind

/-!
Calls. A call is checked before anything is taken off the stack, so a refused call leaves the stack
and the frames as they were. Functions of the program get a frame; native ones answer at once,
except for the methods that call back, which start a loop.
-/
namespace BytecodeMachine

/-- An error of the host becomes an exception that names the function it came from. -/
def Failure.named (name : Text) : Failure → Failure
  | .output t | .host t => .of (.host name t)
  | f => f

namespace Value

def calleeName : Value → Text
  | .closure c => c.name
  | .boundMethod _ c _ => c.name
  | .builtin (.standard f) => f.name
  | .builtin (.host name) => name
  | .intrinsic m => m.name
  | .boundIntrinsic _ m _ => m.name
  | v => v.kind.name

/-- A value as the error about calling it names it. -/
def describeCallee : Value → Text
  | .type t => "type " ++ t.name
  | v => v.kind.name

end Value

namespace Setup

def hostFunction? (s : Setup) (name : Text) : Option HostFunction :=
  s.host.find? fun f => f.name = name

/-- The function that a name stands for outside the program; the host's come first. -/
def builtin? (s : Setup) (name : Text) : Option Builtin :=
  if (s.hostFunction? name).isSome then some (.host name)
  else (StandardFunction.ofName? name).map .standard

/-- How many arguments a value takes, none for one that cannot be called. -/
def arity? (s : Setup) : Value → Option Arity
  | .closure c => some (.exactly c.params.length)
  | .boundMethod _ c _ => some (.exactly c.params.length)
  | .builtin (.standard f) => some f.arity
  | .builtin (.host name) => (s.hostFunction? name).map (·.arity)
  | .intrinsic m => some m.unboundArity
  | .boundIntrinsic _ m _ => some m.info.arity
  | _ => none

/-- Why a value cannot be called with a number of arguments. -/
def refusal? (s : Setup) (callee : Value) (argc : Int) : Option ErrorCause :=
  match s.arity? callee with
  | none => some (.notCallable callee.describeCallee)
  | some a => if a.accepts argc then none else some (.arity callee.calleeName a argc)

end Setup

/-- A call by who carries it out. -/
inductive Target where
  /-- A function of the program, with the receiver of a method. -/
  | function (c : Closure) (self : Option Value)
  | builtin (b : Builtin)
  | method (m : Intrinsic) (receiver : Value) (args : List Value)
  | nobody

/-- Splits a callee and its arguments; a method that is not bound takes its receiver first. -/
def Target.of (callee : Value) (args : List Value) : Target :=
  match callee, args with
  | .closure c, _ => .function c none
  | .boundMethod _ c self, _ => .function c (some self)
  | .builtin b, _ => .builtin b
  | .boundIntrinsic _ m receiver, _ => .method m receiver args
  | .intrinsic m, receiver :: args => .method m receiver args
  | _, _ => .nobody

namespace Machine

variable (s : Setup)

/-- Enters a new frame whose scope holds the receiver and the arguments. -/
def enterFrame (m : Machine) (c : Closure) (self : Option Value) (args : List Value)
    (callback : Bool) : Machine :=
  let frame : Frame :=
    { name := c.name, returnIp := m.ip, callPc := m.pc, scope := m.scope
      scopeDepth := m.scopeDepth, stackBase := m.stack.length, callback := callback }
  let (id, scopes) := m.world.store.scopes.push (some c.scope)
  let bound := (self.toList.map fun v => (Text.ofString "self", v)) ++ c.params.zip args
  let scopes := bound.foldl (fun scopes e => scopes.declare e.1 e.2 id) scopes
  { m with
    world := { m.world with store := { m.world.store with scopes := scopes } }
    frames := frame :: m.frames
    scope := id
    scopeDepth := m.scopeDepth + 1
    ip := c.entry }

/-- Why no further frame can be entered. -/
def tooDeep? (m : Machine) : Option ErrorCause :=
  if s.maxCallDepth ≤ m.frames.length then some (.callDepth s.maxCallDepth) else none

/-- What a method that calls back starts with: the state of its loop, what it calls, and on which
elements. -/
def loopOf? (elems : List Value) : Intrinsic → List Value →
    Option (Except ErrorCause (Gathered × Value × List Value))
  | .arrayMap, [f] => some (.ok (.mapped [], f, elems))
  | .arrayFilter, [f] => some (.ok (.filtered .null [], f, elems))
  | .arrayReduce, [f, init] => some (.ok (.reduced init, f, elems))
  | .arrayReduce, [f] =>
    match elems with
    | [] => some (.error .emptyReduce)
    | e :: es => some (.ok (.reduced e, f, es))
  | _, _ => none

/-- How a native call goes on. -/
inductive Native where
  | answered (r : Except Failure Value) (m : Machine)
  | loops (l : Loop) (m : Machine)

def callBuiltin (m : Machine) (b : Builtin) (args : List Value) : Reply Value :=
  match b with
  | .standard f => m.world.standard s.bufferSize f args
  | .host name =>
    match s.hostFunction? name with
    | some f => (f.call ⟨s.program, m.world.store, m.depths⟩ args).carryOut m.world
    | none => m.world.give .null

def answer (m : Machine) (name : Text) (r : Reply Value) : Native :=
  .answered (r.1.mapError (Failure.named name)) { m with world := r.2 }

/-- Calls a method of a built-in value, or starts its loop. -/
def callMethod (m : Machine) (nested : Bool) (im : Intrinsic) (receiver : Value)
    (args : List Value) : Native :=
  let elems := match receiver with
    | .array id => m.world.store.array id
    | _ => []
  match loopOf? elems im args with
  | some (.ok (gathered, callee, rest)) =>
    .loops
      { name := im.name, gathered := gathered, callee := callee, rest := rest, ip := m.ip
        pc := m.pc, boundary := m.frames.length + 1, nested := nested } m
  | some (.error e) => .answered (.error (.of e)) m
  | none => m.answer im.name (m.world.method s.program (m.place s) im receiver args)

/-- Calls something outside the program. -/
def callNative (m : Machine) (nested : Bool) (callee : Value) (args : List Value) : Native :=
  match Target.of callee args with
  | .builtin b => m.answer callee.calleeName (callBuiltin s m b args)
  | .method im receiver args => callMethod s m nested im receiver args
  | _ => .answered (.ok .null) m

/-- Starts the innermost loop. -/
def startLoop (m : Machine) (l : Loop) : Machine :=
  { m with loops := l :: m.loops, control := .iterate }

/-- Takes the arguments off the stack, and `extra` values below them. -/
def popCall (m : Machine) (argc extra : Int) (k : List Value → Machine → Effect) : Effect :=
  m.popMany s argc fun args m => m.popMany s extra fun _ m => k args m

/-- Checks the receiver of a method that is not bound, which is still on the stack. -/
def checkReceiver (m : Machine) (callee : Value) (argc : Int) (k : Effect) : Effect :=
  match callee with
  | .intrinsic im =>
    m.peek s (argc - 1) fun receiver =>
      if receiver.kind = im.kind then k else .failed (.of (.receiver im receiver.kind)) m
  | _ => k

/-- Carries out a call that was not refused. -/
def acceptCall (m : Machine) (callee : Value) (argc extra : Int) : Effect :=
  match callee with
  | .closure _ | .boundMethod _ _ _ =>
    -- The depth is checked while the arguments are still on the stack.
    match m.tooDeep? s with
    | some e => .failed (.of e) m
    | none =>
      m.popCall s argc extra fun args m =>
        match Target.of callee args with
        | .function c self => .next (m.enterFrame c self args false)
        | _ => .next m
  | _ =>
    m.popCall s argc extra fun args m =>
      match callNative s m false callee args with
      | .answered (.ok v) m => .next (m.push v)
      | .answered (.error f) m => .failed f m
      | .loops l m => .next (m.startLoop l)

/-- Calls a value with the top `argc` values of the stack. The `extra` values below them, which are
the callee or the receiver, go with them. -/
def call (m : Machine) (callee : Value) (argc extra : Int) : Effect :=
  match s.refusal? callee argc with
  | some e => .failed (.of e) m
  | none => m.checkReceiver s callee argc (acceptCall s m callee argc extra)

end Machine

end BytecodeMachine
