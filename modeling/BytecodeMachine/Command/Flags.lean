import BytecodeMachine.Number.Duration
import BytecodeMachine.Number.IntText
import BytecodeMachine.Text.Quoted

/-!
The flags of the command line.
-/
namespace BytecodeMachine.Command

/-- What the command line asks for; a missing verbosity is that of the settings. -/
structure Request where
  config : Text := []
  verbosity : Option Int := none
  trace : Bool := false
  disasm : Bool := false
  output : Text := []
  /-- Nanoseconds until a run is stopped; none unless positive. -/
  timeout : Int := 0
  program : Text := []
deriving DecidableEq

/-- Why a value does not suit a flag. -/
inductive ValueError where
  | syntactic
  | range
deriving DecidableEq

def ValueError.message : ValueError → Text
  | syntactic => "parse error"
  | range => "value out of range"

/-- Why a command line cannot be carried out. -/
inductive FlagError where
  | help
  | badSyntax (arg : Text)
  | undefined (name : Text)
  | missingValue (name : Text)
  | badValue (name value : Text) (e : ValueError)
  | badBool (name value : Text)
  | programCount (n : Nat)
deriving DecidableEq

/-- The line that reports an error above the usage; help and surplus programs have none. -/
def FlagError.message? : FlagError → Option Text
  | help => none
  | badSyntax arg => some ("bad flag syntax: " ++ arg)
  | undefined name => some ("flag provided but not defined: -" ++ name)
  | missingValue name => some ("flag needs an argument: -" ++ name)
  | badValue name value e =>
    some ("invalid value " ++ Text.quote value ++ " for flag -" ++ name ++ ": " ++ e.message)
  | badBool name value =>
    some ("invalid boolean value " ++ Text.quote value ++ " for -" ++ name ++ ": "
      ++ ValueError.syntactic.message)
  | programCount _ => none

/-- A flag with the way its value enters the request. -/
inductive Flag where
  | switch (set : Bool → Request → Request)
  | valued (set : Text → Request → Except ValueError Request)

def flags : List (String × Flag) :=
  [("config", .valued fun v r => .ok { r with config := v }),
   ("disasm", .switch fun b r => { r with disasm := b }),
   ("o", .valued fun v r => .ok { r with output := v }),
   ("timeout", .valued fun v r =>
      match Duration.read? v with
      | some n => .ok { r with timeout := n }
      | none => .error .syntactic),
   ("trace", .switch fun b r => { r with trace := b }),
   ("v", .valued fun v r =>
      match IntText.read v with
      | .ok n => .ok { r with verbosity := some n }
      | .error .range => .error .range
      | .error .syntactic => .error .syntactic)]

def flag? (name : Text) : Option Flag :=
  (flags.find? fun f => Text.ofString f.1 = name).map (·.2)

def bool? (s : Text) : Option Bool :=
  if ["1", "t", "T", "TRUE", "true", "True"].any fun w => Text.ofString w = s then some true
  else if ["0", "f", "F", "FALSE", "false", "False"].any fun w => Text.ofString w = s then
    some false
  else none

/-- The name of a flag and the value behind an equals sign, which cannot come first. -/
def splitValue (body : Text) : Text × Option Text :=
  match body with
  | [] => ([], none)
  | b :: s =>
    let name := b :: s.takeWhile (· ≠ 61)
    match s.dropWhile (· ≠ 61) with
    | _ :: value => (name, some value)
    | [] => (name, none)

/-- What an argument is: a flag with its dashes off, the mark that ends the flags, or the first of
the programs. -/
inductive Argument where
  | flag (body : Text)
  | endOfFlags
  | program

def Argument.of (arg : Text) : Argument :=
  match arg with
  | [45, 45] => .endOfFlags
  | 45 :: 45 :: body => .flag body
  | 45 :: b :: body => .flag (b :: body)
  | _ => .program

def isFlagBody : Text → Bool
  | [] => false
  | b :: _ => b ≠ 45 && b ≠ 61

/-- A value for a flag that takes one: the one given with it, or the next argument. -/
def takeValue (name : Text) (given : Option Text) (rest : List Text) :
    Except FlagError (Text × List Text) :=
  match given, rest with
  | some v, rest => .ok (v, rest)
  | none, v :: rest => .ok (v, rest)
  | none, [] => .error (.missingValue name)

/-- Reads flags up to the first program; the number bounds how many arguments there are. -/
def readFlags : (fuel : Nat) → Request → List Text → Except FlagError (Request × List Text)
  | 0, r, args => .ok (r, args)
  | _, r, [] => .ok (r, [])
  | n + 1, r, arg :: rest =>
    match Argument.of arg with
    | .program => .ok (r, arg :: rest)
    | .endOfFlags => .ok (r, rest)
    | .flag body =>
      if !isFlagBody body then .error (.badSyntax arg)
      else
        let (name, given) := splitValue body
        match flag? name with
        | none =>
          if name = "help" || name = "h" then .error .help else .error (.undefined name)
        | some (.switch set) =>
          match given with
          | none => readFlags n (set true r) rest
          | some v =>
            match bool? v with
            | some b => readFlags n (set b r) rest
            | none => .error (.badBool name v)
        | some (.valued set) => do
          let (v, rest) ← takeValue name given rest
          match set v r with
          | .ok r => readFlags n r rest
          | .error e => .error (.badValue name v e)

/-- What a command line asks for. At most one program may be given. -/
def Request.read (args : List Text) : Except FlagError Request := do
  match ← readFlags args.length {} args with
  | (r, []) => return r
  | (r, [p]) => return { r with program := p }
  | (_, ps) => throw (.programCount ps.length)

/-- The flags with the name of their value and what they do. -/
def flagHelp : List (String × String) :=
  [("config string", "Path to a cfgs.toml (default: search upward from the working directory)"),
   ("disasm", "Print the disassembled program instead of running it"),
   ("o string", "Write the program as a binary image to this path instead of running it"),
   ("timeout duration", "Cancel the run after this long (0 for no limit)"),
   ("trace", "Log every executed instruction (implies -v 2)"),
   ("v int", "Log verbosity; 1 adds info, 2 adds debug (default from config)")]

/-- How the command is used. -/
def usage : Text :=
  Text.join "\n"
    (["Usage: cfgsvm [options] [program]", "",
      "Runs a CFGS program given as a YAML listing or a binary image.", "", "Options:"].map
        Text.ofString
      ++ flagHelp.flatMap (fun (name, help) =>
        ["  -" ++ Text.ofString name, "    \t" ++ Text.ofString help])
      ++ ["", "Examples:", "  cfgsvm hello.yaml               # Run a listing",
        "  cfgsvm -o hello.cfgsi hello.yaml # Assemble to an image",
        "  cfgsvm -disasm hello.cfgsi       # Show the instructions", ""].map Text.ofString)

end BytecodeMachine.Command
