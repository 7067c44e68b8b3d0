import BytecodeMachine.Files.Path

/-!
A file system in memory: directories, files with their bytes, and the devices that swallow or
refuse what is written.
-/
namespace BytecodeMachine

/-- What a name stands for. A directory knows the directory above it. -/
inductive DiskNode where
  | directory (parent : Nat) (entries : List (Text × Nat))
  | file (content : Text)
  | nullDevice
  | fullDevice
deriving DecidableEq, Inhabited

/-- Why the system refuses an operation. -/
inductive FileFault where
  | notFound
  | isDirectory
  | notDirectory
  | noSpace
  | nameTooLong
  | invalidName
deriving DecidableEq

def FileFault.message : FileFault → Text
  | notFound => "no such file or directory"
  | isDirectory => "is a directory"
  | notDirectory => "not a directory"
  | noSpace => "no space left on device"
  | nameTooLong => "file name too long"
  | invalidName => "invalid argument"

/-- A refused operation with the path it was given. -/
structure FileError where
  operation : String
  path : Text
  fault : FileFault
deriving DecidableEq

def FileError.message (e : FileError) : Text :=
  Text.ofString e.operation ++ " " ++ e.path ++ ": " ++ e.fault.message

/-- The file system; the root directory is node zero and relative paths start at `cwd`. -/
structure Disk where
  nodes : Array DiskNode := #[.directory 0 []]
  cwd : Text := [Path.slash]
deriving Inhabited

namespace Disk

def node (d : Disk) (id : Nat) : DiskNode := (d.nodes[id]?).getD default

/-- Steps from a directory to the node of one component. -/
def enter (d : Disk) (from_ : Nat) (name : Text) : Except FileFault Nat :=
  match d.node from_ with
  | .directory parent entries =>
    if Path.isDot name then .ok from_
    else if Path.isDotDot name then .ok parent
    else if 255 < name.length then .error .nameTooLong
    else match entries.lookup name with
      | some id => .ok id
      | none => .error .notFound
  | _ => .error .notDirectory

def walk (d : Disk) : Nat → List Text → Except FileFault Nat
  | id, [] => .ok id
  | id, c :: cs =>
    match d.enter id c with
    | .ok next => d.walk next cs
    | .error e => .error e

/-- The components of a path from the root. -/
def fromRoot (d : Disk) (path : Text) : List Text :=
  if Path.isAbsolute path then Path.components path
  else Path.components d.cwd ++ Path.components path

/-- Whether a path asks for a directory by its last byte. -/
def asksDirectory (path : Text) : Bool := path.getLast? = some Path.slash

/-- The node a path names. -/
def find (d : Disk) (path : Text) : Except FileFault Nat :=
  if path.isEmpty then .error .notFound
  else if path.contains 0 then .error .invalidName
  else
    match d.walk 0 (d.fromRoot path) with
    | .error e => .error e
    | .ok id =>
      if asksDirectory path then
        match d.node id with
        | .directory _ _ => .ok id
        | _ => .error .notDirectory
      else .ok id

def setNode (d : Disk) (id : Nat) (n : DiskNode) : Disk :=
  { d with nodes := d.nodes.setIfInBounds id n }

/-- Adds a node under a name to a directory. -/
def attach (d : Disk) (dir : Nat) (name : Text) (n : DiskNode) : Nat × Disk :=
  let id := d.nodes.size
  let d := { d with nodes := d.nodes.push n }
  match d.node dir with
  | .directory parent entries => (id, d.setNode dir (.directory parent (entries ++ [(name, id)])))
  | _ => (id, d)

/-- Opens a path for writing: the node, made new where only the last component is missing. -/
def create (d : Disk) (path : Text) : Except FileFault (Nat × Disk) :=
  match d.find path with
  | .ok id =>
    match d.node id with
    | .directory _ _ => .error .isDirectory
    | _ => .ok (id, d)
  | .error .notFound =>
    match (d.fromRoot path).getLast? with
    | none => .error .notFound
    | some name =>
      if path.isEmpty then .error .notFound
      else match d.walk 0 (d.fromRoot path).dropLast with
        | .error e => .error e
        | .ok dir =>
          match d.node dir with
          | .directory _ _ =>
            if asksDirectory path then .error .isDirectory else .ok (d.attach dir name (.file []))
          | _ => .error .notDirectory
  | .error e => .error e

def content (d : Disk) (id : Nat) : Text :=
  match d.node id with
  | .file c => c
  | _ => []

def truncate (d : Disk) (id : Nat) : Disk :=
  match d.node id with
  | .file _ => d.setNode id (.file [])
  | _ => d

/-- The bytes with `data` put at `offset`, zeros filling a gap. -/
def splice (content data : Text) (offset : Nat) : Text :=
  content.take offset ++ List.replicate (offset - content.length) 0 ++ data
    ++ content.drop (offset + data.length)

/-- Writes bytes into a node. -/
def write (d : Disk) (id : Nat) (offset : Nat) (data : Text) : Except FileFault Disk :=
  match d.node id with
  | .file c => .ok (d.setNode id (.file (splice c data offset)))
  | .nullDevice => .ok d
  | .fullDevice => if data.isEmpty then .ok d else .error .noSpace
  | .directory _ _ => .error .isDirectory

/-- All bytes of the file a path names. -/
def read (d : Disk) (path : Text) : Except FileError Text :=
  match d.find path with
  | .error e => .error ⟨"open", path, e⟩
  | .ok id =>
    match d.node id with
    | .directory _ _ => .error ⟨"read", path, .isDirectory⟩
    | _ => .ok (d.content id)

/-- Replaces the bytes of a file, which is made where it is missing. -/
def writeFile (d : Disk) (path data : Text) : Except FileError Disk :=
  match d.create path with
  | .error e => .error ⟨"open", path, e⟩
  | .ok (id, d) =>
    match (d.truncate id).write id 0 data with
    | .ok d => .ok d
    | .error e => .error ⟨"write", path, e⟩

def isPresent (d : Disk) (path : Text) : Bool :=
  match d.find path with
  | .ok _ => true
  | .error _ => false

/-- Makes the directories of a path that are missing. -/
def makeDirectories (d : Disk) : Nat → List Text → Nat × Disk
  | id, [] => (id, d)
  | id, c :: cs =>
    match d.enter id c with
    | .ok next => d.makeDirectories next cs
    | .error _ =>
      let (next, d) := d.attach id c (.directory id [])
      d.makeDirectories next cs

/-- Puts a file at an absolute path with all directories above it. -/
def place (d : Disk) (path data : Text) : Disk :=
  let (dir, d) := d.makeDirectories 0 (Path.components (Path.dir path))
  match (Path.components path).getLast? with
  | some name => (d.attach dir name (.file data)).2
  | none => d

/-- A disk with the two write devices and an empty working directory. -/
def new (cwd : Text) : Disk :=
  let d : Disk := { cwd := cwd }
  let (dev, d) := d.attach 0 "dev" (.directory 0 [])
  let d := (d.attach dev "null" .nullDevice).2
  let d := (d.attach dev "full" .fullDevice).2
  (d.makeDirectories 0 (Path.components cwd)).2

end Disk

end BytecodeMachine
