import BytecodeMachine.Machine.Store

/-!
Values as text. Inside a container strings and characters are quoted. A container met again on the
way from the outermost one to itself is shown by dots.
-/
namespace BytecodeMachine.Store

/-- Whether a container is open on the way to where it is met. -/
inductive Container where
  | array (id : Nat)
  | dict (id : Nat)
deriving DecidableEq

def stringText (quoted : Bool) (s : Text) : Text := if quoted then Text.quote s else s

def charText (quoted : Bool) (c : Int32) : Text :=
  if quoted then Text.quoteCodePoint c.toInt else Text.ofCodePoint c.toInt

/-- The text of a value that is no container. -/
def scalarText (s : Store) (quoted : Bool) : Value → Text
  | .null => "null"
  | .bool b => if b then "true" else "false"
  | .int n => Text.ofInt64 n
  | .int32 n => Text.ofInt n.toInt
  | .float32 x => Numeric.float32Text x
  | .float x => Numeric.float64Text x
  | .decimal d => d.toText
  | .string t => stringText quoted t
  | .char c => charText quoted c
  | .array _ => "[...]"
  | .dict _ => "\x7b...\x7d"
  | .closure c => "<function " ++ c.name ++ ">"
  | .builtin (.standard f) => "<builtin " ++ f.name ++ ">"
  | .builtin (.host name) => "<builtin " ++ name ++ ">"
  | .intrinsic m => "<intrinsic " ++ m.name ++ ">"
  | .boundIntrinsic _ m _ => "<intrinsic " ++ m.name ++ ">"
  | .boundMethod _ m _ => "<method " ++ m.name ++ ">"
  | .type t => "<type " ++ t.name ++ ">"
  | .cls c => "<class " ++ c.name ++ ">"
  | .object id => "<" ++ (s.object id).cls.name ++ " instance>"
  | .static id => "<" ++ (s.object id).cls.name ++ " static>"
  | .enum e => e.enum ++ "." ++ e.member
  | .exception id => (s.exception id).kind ++ ": " ++ (s.exception id).message
  | .file id => "<file " ++ (s.handle id).path ++ ">"

/-- The text of a value below the open containers `path`. A way into the store passes each container
once, so `depth` counts the containers that are not open. -/
def renderIn (s : Store) : (depth : Nat) → (path : List Container) → (quoted : Bool) → Value → Text
  | 0, _, quoted, v => s.scalarText quoted v
  | depth + 1, path, quoted, v =>
    match v with
    | .array id =>
      if path.contains (.array id) then "[...]"
      else
        let inside := (s.array id).map (s.renderIn depth (.array id :: path) true)
        "[" ++ Text.join ", " inside ++ "]"
    | .dict id =>
      if path.contains (.dict id) then "\x7b...\x7d"
      else
        let inside := (s.dict id).entries.toList.map fun e =>
          s.renderIn depth (.dict id :: path) true e.1 ++ ": "
            ++ s.renderIn depth (.dict id :: path) true e.2
        "\x7b" ++ Text.join ", " inside ++ "\x7d"
    | v => s.scalarText quoted v

/-- A value as printed. -/
def text (s : Store) (v : Value) : Text :=
  s.renderIn (s.arrays.size + s.dicts.size + 1) [] false v

/-- A value as it stands inside a container. -/
def repr (s : Store) (v : Value) : Text :=
  s.renderIn (s.arrays.size + s.dicts.size + 1) [] true v

end BytecodeMachine.Store
