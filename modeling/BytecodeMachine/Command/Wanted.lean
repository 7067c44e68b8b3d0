import BytecodeMachine.Command.Basic

/-!
The paths a command may touch, as far as they can be told from what is on the disk.
-/
namespace BytecodeMachine.Command

/-- The strings among the constants of a program. -/
def stringConstants (p : Program) : List Text :=
  p.code.toList.filterMap fun ins =>
    match ins.operand.lit with
    | some l => if l.kind = LiteralKind.str.code then some l.str else none
    | none => none

/-- Where the settings of a request may be. -/
def settingsPaths (d : Disk) (r : Request) : List Text :=
  if r.config.isEmpty then
    (Settings.directoriesAbove d.cwd.length d.cwd).map fun dir => Path.join dir Settings.fileName
  else [r.config]

/-- The paths that a request and its settings name. -/
def namedPaths (d : Disk) (r : Request) : List Text :=
  let fromSettings := match settings d r with
    | .ok s => [s.entryPath, s.imagePath]
    | .error _ => []
  r.program :: r.output :: fromSettings

/-- The paths that the program of a request may open. -/
def openedPaths (d : Disk) (r : Request) : List Text :=
  match settings d r with
  | .error _ => []
  | .ok s =>
    match Program.load d (if r.program.isEmpty then s.entryPath else r.program) with
    | .ok p => stringConstants p
    | .error _ => []

/-- All paths a command line may touch. Fetching them can bring up further ones: the settings name
the program, and the program names the files it opens. -/
def wanted (d : Disk) (args : List Text) : List Text :=
  match Request.read args with
  | .error _ => []
  | .ok r =>
    (settingsPaths d r ++ namedPaths d r ++ openedPaths d r).filter fun p => !p.isEmpty

/-- How often fetching can bring up further paths. -/
def wantedRounds : Nat := 3

end BytecodeMachine.Command
