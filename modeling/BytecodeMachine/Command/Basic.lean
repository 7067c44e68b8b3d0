import BytecodeMachine.Command.Flags
import BytecodeMachine.Program.Disassembly
import BytecodeMachine.Program.Load
import BytecodeMachine.Settings.Basic

/-!
The command that shows, assembles or runs a program.
-/
namespace BytecodeMachine.Command

/-- How a command ends. -/
inductive Exit where
  | ok
  | exception
  | failure
deriving DecidableEq

def Exit.code : Exit → Nat
  | ok => 0
  | exception => 1
  | failure => 2

/-- What a command leaves behind. -/
structure Result where
  exit : Exit
  stdout : Text := []
  stderr : Text := []
  disk : Disk

/-- A failure with its message on the error output. -/
def fail (d : Disk) (message : Text) (stdout : Text) : Result :=
  { exit := .failure, stdout := stdout, stderr := "Error: " ++ message ++ "\n", disk := d }

/-- The refusal of a command line; asking for help is no failure. -/
def refuse (d : Disk) (e : FlagError) : Result :=
  let report : Text := match e.message? with
    | some m => m ++ "\n"
    | none => []
  { exit := if e = .help then .ok else .failure, stderr := report ++ usage, disk := d }

/-- The settings for a request: from the file it names, else from the nearest directory upward, else
the defaults. -/
def settings (d : Disk) (r : Request) : Except SettingsError Settings :=
  if !r.config.isEmpty then Settings.load d r.config
  else match Settings.search d d.cwd with
    | .error e => .error e
    | .ok (some s) => .ok s
    | .ok none => .ok { dir := d.cwd }

/-- Writes the image of a program into a file. -/
def writeImage (d : Disk) (path : Text) (p : Program) : Result :=
  match d.create path with
  | .error e => fail d (FileError.message ⟨"open", path, e⟩) []
  | .ok (id, d) =>
    let d := d.truncate id
    match d.write id 0 (Image.encode p) with
    | .error e => fail d ("cannot write " ++ path ++ ": " ++ FileError.message ⟨"write", path, e⟩) []
    | .ok d => { exit := .ok, disk := d }

/-- The report of a run after its files have been closed. -/
def report (r : Run) : Result :=
  let (closing, w) := r.world.closeAll
  let out := r.world.output.text
  match r.ending with
  | .value _ =>
    match closing with
    | none => { exit := .ok, stdout := out, disk := w.disk }
    | some e => fail w.disk e.message out
  | .exception id =>
    let trace := (r.world.store.exception id).trace
    let lines : Text := if trace.isEmpty then [] else trace ++ "\n"
    { exit := .exception, stdout := out, disk := w.disk
      stderr := "Uncaught " ++ r.message ++ "\n" ++ lines }
  | _ => fail w.disk r.message out

/-- Runs a program for at most `limit` steps; none if that is not enough. -/
def execute? (limit : Nat) (d : Disk) (s : Settings) (timeout : Int) (p : Program) :
    Option Result :=
  match Setup.prepare p s.options with
  | .error e => some (fail d e.message [])
  | .ok setup => do
    let timeout := if 0 < timeout then some timeout.toNat else none
    return report (← setup.run? limit { disk := d } { timeout := timeout })

/-- Carries out a request: shows the program, writes its image, or runs it. Without a program on the
command line the settings give the program and may ask for an image. -/
def perform? (limit : Nat) (d : Disk) (r : Request) : Option Result :=
  match settings d r with
  | .error e => some (fail d e.message [])
  | .ok s =>
    let path := if r.program.isEmpty then s.entryPath else r.program
    if path.isEmpty then
      some (fail d ("no program given and no program.entry in " ++ Settings.fileName) [])
    else match Program.load d path with
      | .error e => some (fail d e.message [])
      | .ok p =>
        let output :=
          if r.output.isEmpty && r.program.isEmpty then s.imagePath else r.output
        if r.disasm then some { exit := .ok, stdout := p.disassemble, disk := d }
        else if !output.isEmpty then some (writeImage d output p)
        else execute? limit d { s with trace := s.trace || r.trace } r.timeout p

/-- Carries out a command line on a disk, running a program for at most `limit` steps; none if that
is not enough. -/
def run? (limit : Nat) (d : Disk) (args : List Text) : Option Result :=
  match Request.read args with
  | .error e => some (refuse d e)
  | .ok r => perform? limit d r

end BytecodeMachine.Command
