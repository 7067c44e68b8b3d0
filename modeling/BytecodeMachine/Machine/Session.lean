import BytecodeMachine.Machine.Log
import BytecodeMachine.Machine.Run

/-!
Sessions: a valid program that is run any number of times. Runs share the disk and the files they
leave open; everything else starts anew.
-/
namespace BytecodeMachine

/-- What a machine is built with. Numbers that are not positive stand for the defaults. -/
structure Options where
  maxCallDepth : Int := 0
  bufferSize : Int := 0
  trace : Bool := false
  host : List HostFunction := []

def positiveOr (missing : Nat) (n : Int) : Nat := if 0 < n then n.toNat else missing

/-- Checks a program and prepares it for running. -/
def Setup.prepare (p : Program) (o : Options) : Except Defect Setup :=
  match p.defect? with
  | some d => .error d
  | none =>
    .ok
      { program := p
        maxCallDepth := positiveOr 1024 o.maxCallDepth
        bufferSize := positiveOr 4096 o.bufferSize
        trace := o.trace
        host := o.host
        regionEnds := Region.ends p.code }

/-- What a single run is given. -/
structure RunOptions where
  cancelled : Bool := false
  /-- Nanoseconds until the run is stopped. -/
  timeout : Option Nat := none
  outputLimit : Option Nat := none

namespace World

/-- The world of a new run: the disk, the open files and the number of unique names stay. -/
def renew (w : World) (o : RunOptions) : World :=
  let (_, scopes) := ({} : Scopes).push none
  { store := { handles := w.store.handles, scopes := scopes }
    disk := w.disk
    openFiles := w.openFiles
    uuids := w.uuids
    cancelled := o.cancelled
    deadline := o.timeout
    output := { limit := o.outputLimit } }

def closeEach (w : World) : List Nat → Option FileError × World
  | [] => (none, w)
  | id :: ids =>
    let (w, e) := w.closeFile id
    let (later, w) := closeEach w ids
    (e.or later, w)

/-- Closes every file that is open and gives the first error. -/
def closeAll (w : World) : Option FileError × World := w.closeEach w.openFiles.reverse

/-- The value of a global variable. -/
def global? (w : World) (name : Text) : Option Value := w.store.scopes.lookup name globals

end World

/-- A run that has ended. -/
structure Run where
  ending : Ending
  machine : Machine

namespace Setup

/-- Runs a program from its first instruction, for at most `limit` steps; none if that is not
enough. -/
def run? (s : Setup) (limit : Nat) (w : World) (o : RunOptions) : Option Run :=
  match Machine.runFor s limit (.running { world := w.renew o }) with
  | .ended e m => some ⟨e, m⟩
  | .running _ => none

end Setup

namespace Run

def world (r : Run) : World := r.machine.world

/-- The text of the error a run ended with. -/
def message (r : Run) : Text :=
  match r.ending with
  | .value _ => []
  | .exception id => (r.world.store.exception id).text
  | .fault f => f.message
  | .stopped reason => reason.message
  | .failed text => text

/-- The lines a run has logged, in their order. -/
def log (s : Setup) (r : Run) : List LogLine :=
  (LogLine.started s.program.code.size :: r.world.events.reverse.flatMap LogLine.ofEvent
    ++ LogLine.ofEnding r.world.store r.ending ++ [LogLine.finished r.machine.steps]).map
    (LogLine.tagged s.program.file)

end Run

end BytecodeMachine
