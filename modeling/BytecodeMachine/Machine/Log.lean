import BytecodeMachine.Machine.State

/-!
What a run reports to its operator: when it starts and ends, how it fails, which files it opens.
-/
namespace BytecodeMachine

/-- How much a line matters, the most first. -/
inductive LogLevel where
  | error
  | notice
  | info
  | debug
deriving DecidableEq

namespace LogLevel

def rank : LogLevel → Nat
  | error => 0
  | notice => 1
  | info => 2
  | debug => 3

def name : LogLevel → String
  | error => "Error"
  | notice => "Notice"
  | info => "Info"
  | debug => "Debug"

end LogLevel

inductive LogValue where
  | text (t : Text)
  | number (n : Int)
deriving DecidableEq

structure LogLine where
  level : LogLevel
  message : String
  fields : List (String × LogValue)
deriving DecidableEq

namespace LogLine

/-- The lines that matter at least as much as a level. -/
def upTo (level : LogLevel) (lines : List LogLine) : List LogLine :=
  lines.filter fun l => l.level.rank ≤ level.rank

def started (instructions : Nat) : LogLine :=
  ⟨.info, "run started", [("instructions", .number instructions)]⟩

def finished (steps : Nat) : LogLine := ⟨.info, "run finished", [("steps", .number steps)]⟩

def fileOpened (path mode : Text) : LogLine :=
  ⟨.debug, "file opened", [("path", .text path), ("mode", .text mode)]⟩

def uncaught (e : Exception) : LogLine :=
  ⟨.error, "uncaught exception",
    [("kind", .text e.kind), ("message", .text e.message), ("line", .number e.line.toInt),
      ("col", .number e.col.toInt)]⟩

def faulted (f : Fault) : LogLine :=
  ⟨.error, "vm fault",
    [("ip", .number f.ip), ("op", .text f.op), ("message", .text f.cause.message)]⟩

def stopped (reason : StopReason) : LogLine :=
  ⟨.notice, "run cancelled", [("reason", .text reason.message)]⟩

def failed (text : Text) : LogLine := ⟨.error, "run failed", [("error", .text text)]⟩

/-- The line about the end of a run, none for a run that gives a value. -/
def ofEnding (store : Store) : Ending → List LogLine
  | .value _ => []
  | .exception id => [uncaught (store.exception id)]
  | .fault f => [faulted f]
  | .stopped reason => [stopped reason]
  | .failed text => [failed text]

/-- The line about an event, none for a step. -/
def ofEvent : Event → List LogLine
  | .step _ _ _ _ => []
  | .fileOpened path mode => [fileOpened path mode]

/-- Names the file of the program in a line. -/
def tagged (file : Text) (l : LogLine) : LogLine :=
  { l with fields := l.fields ++ [("file", .text file)] }

end LogLine

end BytecodeMachine
