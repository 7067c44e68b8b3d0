import BytecodeMachine.Command.Wanted
import BytecodeMachine.Files.Contents

/-!
The command line. The files a command may touch are fetched before it is carried out, and those it
changes are written back after it.
-/
namespace BytecodeMachine.Terminal

/-- The path as the system takes it; none for bytes that are no text. -/
def systemPath? (path : Text) : Option String := String.fromUTF8? ⟨path.toArray⟩

/-- Puts a file or a directory of the system on the disk; of a missing file, its directory. -/
def fetch (d : Disk) (path : Text) : IO Disk := do
  let place := Path.absolute d.cwd path
  if d.isPresent place then return d
  match systemPath? place, systemPath? (Path.dir place) with
  | some file, some dir =>
    try
      return d.place place (← IO.FS.readBinFile file).toList
    catch _ =>
      try
        discard (IO.FS.realPath file)
        return d.makeDirectory place
      catch _ =>
        try
          discard (IO.FS.realPath dir)
          return d.makeDirectory (Path.dir place)
        catch _ => return d
  | _, _ => return d

/-- The disk with everything a command line may touch. -/
def gather (d : Disk) (args : List Text) : (rounds : Nat) → IO Disk
  | 0 => return d
  | n + 1 => do gather (← (Command.wanted d args).foldlM fetch d) args n

def writeBack (before after : Disk) : IO Unit := do
  for (path, content) in before.changes after do
    match systemPath? path with
    | some file => IO.FS.writeBinFile file ⟨content.toArray⟩
    | none => pure ()

/-- The steps after which a program that has not ended is given up. -/
def stepLimit : Nat := twoTo 62

/-- Carries out a command line. -/
def run (args : List String) : IO UInt32 := do
  let args := args.map Text.ofString
  let empty := Disk.new (Text.ofString (← IO.currentDir).toString)
  let disk ← gather empty args Command.wantedRounds
  match Command.run? stepLimit disk args with
  | none => return (2 : UInt32)
  | some r =>
    (← IO.getStdout).write ⟨r.stdout.toArray⟩
    (← IO.getStderr).write ⟨r.stderr.toArray⟩
    writeBack disk r.disk
    return r.exit.code.toUInt32

end BytecodeMachine.Terminal

def main (args : List String) : IO UInt32 := BytecodeMachine.Terminal.run args
