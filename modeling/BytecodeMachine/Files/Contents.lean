import BytecodeMachine.Files.Disk

/-!
The files on a disk and how they change.
-/
namespace BytecodeMachine.Disk

/-- The files below a node with their paths. A path passes each node once, so `depth` counts nodes. -/
def filesBelow (d : Disk) : (depth : Nat) → (path : Text) → (id : Nat) → List (Text × Text)
  | 0, _, _ => []
  | n + 1, path, id =>
    match d.node id with
    | .directory _ entries =>
      entries.flatMap fun (name, child) => d.filesBelow n (path ++ [Path.slash] ++ name) child
    | .file content => [(path, content)]
    | _ => []

/-- All files by their absolute paths. -/
def files (d : Disk) : List (Text × Text) := d.filesBelow d.nodes.size [] 0

/-- The files that are new on a disk or have other bytes than before. -/
def changes (before after : Disk) : List (Text × Text) :=
  let old := before.files
  after.files.filter fun (path, content) => old.lookup path ≠ some content

/-- Makes a directory at an absolute path with all directories above it. -/
def makeDirectory (d : Disk) (path : Text) : Disk :=
  (d.makeDirectories 0 (Path.components path)).2

end BytecodeMachine.Disk
