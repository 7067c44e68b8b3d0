import BytecodeMachine.Machine.State

/-!
Transfers of control through protected regions: throwing, returning, leaving loops, and the end of a
finally block.
-/
namespace BytecodeMachine.Machine

variable (s : Setup)

def fileOf (file : Text) : Text := if file.isEmpty then s.program.file else file

/-- The place of an instruction in the source. -/
def position (pc : Int) : Text :=
  match s.program.instruction? pc with
  | some ins =>
    fileOf s ins.file ++ ":" ++ Text.ofInt64 ins.line ++ ":" ++ Text.ofInt64 ins.col
  | none => s.program.file

/-- One line a frame, the innermost first, each with the place it has come to. -/
def traceLines (pc : Int) : List Frame → Text
  | [] => "  at <main> (" ++ position s pc ++ ")"
  | f :: fs => "  at " ++ f.name ++ " (" ++ position s pc ++ ")\n" ++ traceLines f.callPc fs

/-- An exception with the place it is raised at and the frames active there. -/
def stamped (m : Machine) (e : Exception) : Exception :=
  let e := match s.program.instruction? m.pc with
    | some ins => { e with file := fileOf s ins.file, line := ins.line, col := ins.col }
    | none => e
  { e with positioned := true, trace := traceLines s m.pc m.frames }

/-- Stamps an exception that was not raised before. -/
def stamp (m : Machine) (id : Nat) : Machine :=
  let store := m.world.store
  if (store.exception id).positioned then m
  else
    let exceptions := store.exceptions.modify id (stamped s m)
    { m with world := { m.world with store := { store with exceptions := exceptions } } }

/-- The exception of a failure, made where it is new; none for a failure that is no exception. -/
def exceptionOf (m : Machine) : Failure → Option (Nat × Machine)
  | .raise cause payload =>
    let (id, store) := m.world.store.newException
      { kind := cause.kind, message := cause.message, payload := payload }
    some (id, { m with world := { m.world with store := store } })
  | .rethrow id => some (id, m)
  | _ => none

/-- Puts the top handler into its finally block. -/
def enterFinally (m : Machine) (h : Handler) (rest : List Handler) (pending : Pending) : Machine :=
  let m := m.unwindTo h
  { m with handlers := { h with phase := .finalizing pending } :: rest, ip := h.finallyAddr }

def enterCatch (m : Machine) (h : Handler) (rest : List Handler) (exc : Nat) : Machine :=
  let m := m.unwindTo h
  { m with
    handlers := { h with phase := .catching } :: rest
    stack := .exception exc :: m.stack
    ip := h.catchAddr }

/-- Where an exception goes: to a handler, or out of the loop. -/
inductive Thrown where
  | handled (m : Machine)
  | escaped (m : Machine)

/-- Offers an exception to the handlers from the top down to those below `boundary`. A handler that
has nothing left to run is dropped. Out of the loop, its frames go. -/
def throwTo (m : Machine) (exc boundary : Nat) : List Handler → Thrown
  | [] =>
    let m := { m with handlers := [] }
    .escaped (popFrames (m.frames.length + 1 - max boundary 1) m)
  | h :: rest =>
    -- The handlers below the boundary belong to whoever called the loop.
    if h.callDepth < boundary then
      let m := { m with handlers := h :: rest }
      .escaped (popFrames (m.frames.length + 1 - max boundary 1) m)
    else if h.phase = .trying && h.hasCatch then .handled (m.enterCatch h rest exc)
    -- An exception out of a catch block still has to pass the finally block.
    else if !h.isFinalizing && h.hasFinally then .handled (m.enterFinally h rest (.exception exc))
    else throwTo m exc boundary rest

/-- Raises an exception at the current instruction. -/
def throwException (m : Machine) (exc boundary : Nat) : Thrown :=
  throwTo (stamp s m exc) exc boundary m.handlers

/-- Runs the finally blocks of the current frame that are still to run, the innermost first; the
others are dropped. -/
def returnThrough (m : Machine) (v : Value) : List Handler → Machine ⊕ Machine
  | [] => .inr { m with handlers := [] }
  | h :: rest =>
    if h.callDepth ≠ m.frames.length then .inr { m with handlers := h :: rest }
    else if h.hasFinally && !h.isFinalizing then .inl (m.enterFinally h rest (.giveBack v))
    else returnThrough m v rest

/-- Returns a value from the current frame, or ends the program where there is none. -/
def giveBack (m : Machine) (v : Value) : Effect :=
  match m.returnThrough v m.handlers with
  | .inl m => .next m
  | .inr m =>
    match m.frames with
    | [] => .failed (.halt v) m
    | f :: _ =>
      let m := m.popFrame
      if f.callback then .returned v m else .next ({ m with ip := f.returnIp }.push v)

/-- Leaves the regions of the current frame that do not cover the target and were entered at or
above the depth `dest`; the innermost with a finally to run defers the rest. -/
def leaveThrough (m : Machine) (target dest : Int) : List Handler → Machine ⊕ Machine
  | [] => .inr { m with handlers := [] }
  | h :: rest =>
    if h.callDepth = m.frames.length && dest ≤ (h.scopeDepth : Int) && !h.covers target then
      if h.hasFinally && !h.isFinalizing then
        .inl (m.enterFinally h rest (.leave target ((h.scopeDepth : Int) - dest)))
      else leaveThrough m target dest rest
    else .inr { m with handlers := h :: rest }

/-- The depth `scopes` below the current one. A negative number of scopes leads up, and beyond the
largest word of 64 bits the depth wraps around. -/
def leaveDepth (m : Machine) (scopes : Int) : Int :=
  let depth := (m.scopeDepth : Int) - scopes
  if scopes < 0 && (twoTo 63 : Int) ≤ depth then depth - (twoTo 64 : Int) else depth

/-- Drops a number of scopes and goes on at an address. -/
def leaveTo (m : Machine) (target scopes : Int) : Effect :=
  let dest := m.leaveDepth scopes
  if dest < (m.scopeFloor : Int) then .failed (m.fault s (.leavePast scopes)) m
  else
    match m.leaveThrough target dest m.handlers with
    | .inl m => .next m
    | .inr m => .next { m.leaveScopesTo dest with ip := target }

/-- Ends a finally block and does what was put off. -/
def endFinally (m : Machine) : Effect :=
  match m.handlers with
  | [] => .failed (m.fault s .endFinallyWithoutHandler) m
  | h :: rest =>
    let m := { m with handlers := rest }
    match h.phase with
    -- The handler is gone by now, so what was put off goes to those around it.
    | .finalizing (.exception id) => .failed (.rethrow id) m
    | .finalizing (.giveBack v) => m.giveBack v
    | .finalizing (.leave target scopes) => leaveTo s m target scopes
    | _ => .next m

/-- Notices that ordinary flow has come to the finally block of the top handler. -/
def markFinalizing (m : Machine) : Machine :=
  match m.handlers with
  | [] => m
  | h :: rest =>
    if h.finallyAddr = m.ip && h.callDepth = m.frames.length && !h.isFinalizing then
      { m with handlers := { h with phase := .finalizing .nothing } :: rest }
    else m

def pushHandler (m : Machine) (catchAddr finallyAddr : Int) : Machine :=
  { m with handlers :=
      { catchAddr := catchAddr
        finallyAddr := finallyAddr
        tryAddr := m.pc
        endAddr := (s.regionEnds[m.pc.toNat]?).getD (max catchAddr finallyAddr)
        scopeDepth := m.scopeDepth
        callDepth := m.frames.length
        stackHeight := m.stack.length } :: m.handlers }

end BytecodeMachine.Machine
