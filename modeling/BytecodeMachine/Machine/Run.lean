import BytecodeMachine.Machine.Step

/-!
Running a machine. One step executes an instruction or goes on with the innermost native loop; an
exception that no handler inside a loop takes goes to whoever called the loop.
-/
namespace BytecodeMachine

namespace Loop

/-- Takes the answer of a callback in. -/
def absorb (store : Store) (l : Loop) (v : Value) : Loop :=
  match l.gathered with
  | .mapped results => { l with gathered := .mapped (v :: results) }
  | .filtered current kept =>
    { l with gathered := .filtered current (if store.truthy v then current :: kept else kept) }
  | .reduced _ => { l with gathered := .reduced v }

/-- The loop with an element taken out, and the arguments of its callback. -/
def take (l : Loop) (e : Value) (rest : List Value) : Loop × List Value :=
  match l.gathered with
  | .mapped _ => ({ l with rest := rest }, [e])
  | .filtered _ kept => ({ l with rest := rest, gathered := .filtered e kept }, [e])
  | .reduced acc => ({ l with rest := rest }, [acc, e])

/-- The answer of a loop that is through. -/
def result (w : World) (l : Loop) : Value × World :=
  match l.gathered with
  | .mapped results =>
    let (v, s) := w.store.newArray results.reverse
    (v, { w with store := s })
  | .filtered _ kept =>
    let (v, s) := w.store.newArray kept.reverse
    (v, { w with store := s })
  | .reduced acc => (acc, w)

end Loop

namespace Machine

variable (s : Setup)

/-- The end of a run that a failure reached. -/
def endingOf : Failure → Ending
  | .raise cause _ => .failed cause.message
  | .rethrow id => .exception id
  | .fault f => .fault f
  | .halt v => .value v
  | .stopped reason => .stopped reason
  | .output t => .failed t
  | .host t => .failed t

/-- Offers a failure to the handlers above a boundary. -/
def offer (m : Machine) (f : Failure) (boundary : Nat) : Machine ⊕ (Failure × Machine) :=
  match m.exceptionOf f with
  | none => .inr (f, m)
  | some (id, m) =>
    match throwException s m id boundary with
    | .handled m => .inl { m with control := .fetch }
    | .escaped m => .inr (.rethrow id, m)

/-- Carries a failure outwards until a handler takes it or the run ends. `inside` says that it comes
from the instructions inside the innermost loop and not from the loop itself. -/
def fail (inside : Bool) (f : Failure) (m : Machine) : List Loop → Status
  | [] =>
    match m.offer s f 0 with
    | .inl m => .running { m with loops := [] }
    | .inr (f, m) => .ended (endingOf f) { m with loops := [] }
  | l :: loops =>
    match (if inside then m.offer s f l.boundary else .inr (f, m)) with
    | .inl m => .running { m with loops := l :: loops }
    -- Unhandled inside, the failure is one of the call that started the loop.
    | .inr (f, m) => fail (!l.nested) (f.named l.name) { m with ip := l.ip, pc := l.pc } loops

/-- Hands a value to the innermost loop, or ends the run with it where there is none. -/
def deliver (m : Machine) (v : Value) : Status :=
  match m.loops with
  | [] => .ended (.value v) m
  | l :: loops =>
    .running
      { m with
        loops := l.absorb m.world.store v :: loops
        control := .iterate
        ip := l.ip
        pc := l.pc }

def settle : Effect → Status
  | .next m => .running m
  | .returned v m => m.deliver v
  | .failed f m => fail s true f m m.loops

/-- A machine that has noted the instruction it is about to execute. -/
def traced (m : Machine) (ins : Instruction) : Machine :=
  if s.trace then
    let e : Event := .step m.pc (Opcode.nameOfCode ins.op) m.frames.length m.stack.length
    { m with world := { m.world with events := e :: m.world.events } }
  else m

/-- What an instruction takes of the clock, in nanoseconds. -/
def stepTime : Nat := 1000

def tick (m : Machine) : Machine :=
  { m with steps := m.steps + 1, world := { m.world with clock := m.world.clock + stepTime } }

/-- Why the run is to stop before this step; asked every 1024th time. -/
def stopBefore? (m : Machine) : Option StopReason :=
  if m.steps % 1024 = 0 then m.world.stop? else none

/-- Executes the next instruction. Past the last one a program without frames is through. -/
def fetch (m : Machine) : Status :=
  match s.program.instruction? m.ip with
  | none =>
    if m.ip = (s.program.code.size : Int) && m.frames.isEmpty then m.deliver .null
    else
      let m := { m with pc := m.ip }
      fail s true (m.fault s (.outsideProgram m.ip)) m m.loops
  | some ins =>
    let m := m.tick
    match m.stopBefore? with
    | some reason => fail s true (.stopped reason) m m.loops
    | none =>
      -- The address is looked at before it moves on to the next instruction.
      let m := m.markFinalizing
      let m := traced s { m with pc := m.ip, ip := m.ip + 1 } ins
      settle s (m.step s ins)

/-- Ends the innermost loop and hands its answer to its caller. -/
def endLoop (m : Machine) (l : Loop) (loops : List Loop) : Status :=
  let (v, w) := l.result m.world
  let m := { m with world := w, loops := loops }
  if l.nested then m.deliver v else .running { m.push v with control := .fetch }

/-- Why a loop cannot call its callee with these arguments. -/
def callbackRefusal? (callee : Value) (args : List Value) : Option ErrorCause :=
  match s.refusal? callee args.length with
  | some e => some e
  | none =>
    match callee, args with
    | .intrinsic im, receiver :: _ =>
      if receiver.kind = im.kind then none else some (.receiver im receiver.kind)
    | _, _ => none

/-- Calls the callee of the innermost loop. -/
def callBack (m : Machine) (callee : Value) (args : List Value) : Status :=
  match callbackRefusal? s callee args with
  | some e => fail s false (.of e) m m.loops
  | none =>
    match Target.of callee args with
    | .function c self =>
      match m.tooDeep? s with
      | some e => fail s false (.of e) m m.loops
      | none => .running { m.enterFrame c self args true with control := .fetch }
    | _ =>
      match callNative s m true callee args with
      | .answered (.ok v) m => m.deliver v
      | .answered (.error f) m => fail s false f m m.loops
      | .loops l m => .running (m.startLoop l)

/-- Goes on with the innermost loop. -/
def iterate (m : Machine) : Status :=
  match m.loops with
  | [] => .running { m with control := .fetch }
  | l :: loops =>
    match l.rest with
    | [] => m.endLoop l loops
    | e :: rest =>
      let (l, args) := l.take e rest
      let l := { l with boundary := m.frames.length + 1 }
      callBack s { m with loops := l :: loops } l.callee args

/-- One step of a machine. -/
def advance (m : Machine) : Status :=
  match m.control with
  | .fetch => m.fetch s
  | .iterate => m.iterate s

/-- Runs a machine for at most a number of steps. -/
def runFor : Nat → Status → Status
  | 0, st => st
  | _ + 1, .ended e m => .ended e m
  | n + 1, .running m => runFor n (m.advance s)

end Machine

end BytecodeMachine
