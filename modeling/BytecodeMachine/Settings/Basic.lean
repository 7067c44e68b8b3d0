import BytecodeMachine.Files.Disk
import BytecodeMachine.Machine.Session
import BytecodeMachine.Number.Duration
import BytecodeMachine.Toml.Read

/-!
The settings of a run: the program to start with, the limits of the machine and where to log. They
come from a configuration file whose directory relative paths in it refer to.
-/
namespace BytecodeMachine

/-- Settings with their defaults; spans of time are in nanoseconds. -/
structure Settings where
  entry : Text := []
  image : Text := []
  maxCallDepth : Int := 1024
  bufferSize : Int := 4096
  regexTimeout : Int := 1000000000
  trace : Bool := false
  verbosity : Int := 0
  logFile : Text := []
  dir : Text := []
deriving DecidableEq

/-- Why settings cannot be loaded. -/
inductive SettingsError where
  | unreadable (path : Text) (e : FileError)
  /-- The file is no document, or a setting has a value of another kind. -/
  | malformed (path : Text)
  | unknownKey (path : Text) (key : Toml.Key)
  | negative (path : Text) (key : String)
deriving DecidableEq

def SettingsError.message : SettingsError → Text
  | unreadable path e => "cannot read " ++ path ++ ": " ++ e.message
  | malformed path => "parse error in " ++ path ++ ": malformed document"
  | unknownKey path key => path ++ ": unknown key " ++ Toml.keyText key
  | negative path key => path ++ ": " ++ Text.ofString key ++ " must not be negative"

namespace Settings

/-- The name under which settings are looked for. -/
def fileName : Text := "cfgs.toml"

/-- A letter without its case; two letters outside ASCII fold into it too. -/
def foldChar (c : Char) : Char := if c = '\u017f' then 's' else if c = '\u212a' then 'k' else c.toLower

/-- Keys are compared without regard to case. -/
def sameKey (name : String) (key : Text) : Bool := (Text.chars key).map foldChar = name.toList

/-- Puts a value into the setting of a key of a section; none where the value does not fit. A key
that names no setting is left alone. -/
def put (sectionName key : Text) (n : Toml.Node) (s : Settings) : Option Settings :=
  let is (sec name : String) : Bool := sameKey sec sectionName && sameKey name key
  let text (f : Text → Settings) : Option Settings :=
    match n with
    | .value (.text t) => some (f t)
    | _ => none
  let int (f : Int → Settings) : Option Settings :=
    match n with
    | .value (.integer k) => some (f k)
    | _ => none
  if is "program" "entry" then text fun t => { s with entry := t }
  else if is "program" "image" then text fun t => { s with image := t }
  else if is "vm" "max-call-depth" then int fun k => { s with maxCallDepth := k }
  else if is "vm" "file-buffer-size" then int fun k => { s with bufferSize := k }
  else if is "vm" "regex-timeout" then
    match n with
    | .value (.text t) => (Duration.read? t).map fun k => { s with regexTimeout := k }
    | _ => int fun k => { s with regexTimeout := k }
  else if is "vm" "trace" then
    match n with
    | .value (.bool b) => some { s with trace := b }
    | _ => none
  else if is "log" "verbosity" then int fun k => { s with verbosity := k }
  else if is "log" "file" then text fun t => { s with logFile := t }
  else some s

def sections : List (String × List String) :=
  [("program", ["entry", "image"]),
   ("vm", ["max-call-depth", "file-buffer-size", "regex-timeout", "trace"]),
   ("log", ["verbosity", "file"])]

/-- Whether a key names a section or a setting. -/
def isKnown (k : Toml.Key) : Bool :=
  match k with
  | [s] => sections.any fun e => sameKey e.1 s
  | [s, name] => sections.any fun e => sameKey e.1 s && e.2.any fun n => sameKey n name
  | _ => false

/-- The settings of a document over the defaults; none where a value does not fit. -/
def ofEntries (es : Toml.Entries) : Option Settings :=
  es.foldlM (fun s (name, n) =>
    if isKnown [name] then
      match n with
      | .table t => t.foldlM (fun s (key, v) => put name key v s) s
      | _ => none
    else some s) {}

/-- The first setting that is negative and must not be. -/
def negative? (s : Settings) : Option String :=
  if s.maxCallDepth < 0 then some "vm.max-call-depth"
  else if s.bufferSize < 0 then some "vm.file-buffer-size"
  else if s.regexTimeout < 0 then some "vm.regex-timeout"
  else none

/-- Loads settings from a file. -/
def load (d : Disk) (path : Text) : Except SettingsError Settings :=
  match d.read path with
  | .error e => .error (.unreadable path e)
  | .ok text =>
    match Toml.read text with
    | none => .error (.malformed path)
    | some doc =>
      match ofEntries doc.root with
      | none => .error (.malformed path)
      | some s =>
        match doc.keys.reverse.find? fun k => !isKnown k with
        | some k => .error (.unknownKey path k)
        | none =>
          match s.negative? with
          | some name => .error (.negative path name)
          | none => .ok { s with dir := Path.absolute d.cwd (Path.dir path) }

/-- Loads the settings of a directory. -/
def loadFrom (d : Disk) (dir : Text) : Except SettingsError Settings := load d (Path.join dir fileName)

/-- The directory and those above it, the innermost first. -/
def directoriesAbove : (fuel : Nat) → Text → List Text
  | 0, dir => [dir]
  | n + 1, dir => if Path.dir dir = dir then [dir] else dir :: directoriesAbove n (Path.dir dir)

/-- Loads the settings of the first directory upward that has any. -/
def search (d : Disk) (start : Text) : Except SettingsError (Option Settings) :=
  let dir := Path.absolute d.cwd start
  match (directoriesAbove dir.length dir).find? fun x => d.isPresent (Path.join x fileName) with
  | none => .ok none
  | some x => (loadFrom d x).map some

/-- A path as the settings mean it; an empty one stays empty. -/
def resolve (s : Settings) (p : Text) : Text :=
  if p.isEmpty || Path.isAbsolute p then p else Path.join s.dir p

def entryPath (s : Settings) : Text := s.resolve s.entry

def imagePath (s : Settings) : Text := s.resolve s.image

/-- Where to log, if not to the standard error output. -/
def logPath? (s : Settings) : Option Text :=
  if s.logFile.isEmpty then none else some (s.resolve s.logFile)

/-- What a machine is built with under these settings. -/
def options (s : Settings) : Options :=
  { maxCallDepth := s.maxCallDepth, bufferSize := s.bufferSize, trace := s.trace }

end Settings

end BytecodeMachine
