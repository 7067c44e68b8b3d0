import BytecodeMachine.Text.Basic

/-!
File paths as text: components divided by slashes, absolute with a leading one.
-/
namespace BytecodeMachine.Path

def slash : UInt8 := 47

def isAbsolute (p : Text) : Bool := p.head? = some slash

/-- The components of a path, empty ones left out. -/
def components (p : Text) : List Text := (Text.splitOn [slash] p).filter fun c => !c.isEmpty

def isDot (c : Text) : Bool := c = Text.ofString "."

def isDotDot (c : Text) : Bool := c = Text.ofString ".."

/-- Resolves `.` and `..` by name; the kept components come last first. -/
def reduceFrom (rooted : Bool) : (kept : List Text) → List Text → List Text
  | kept, [] => kept
  | kept, c :: cs =>
    if isDot c then reduceFrom rooted kept cs
    else if isDotDot c then
      match kept with
      | [] => reduceFrom rooted (if rooted then [] else [c]) cs
      | k :: ks => if isDotDot k then reduceFrom rooted (c :: kept) cs else reduceFrom rooted ks cs
    else reduceFrom rooted (c :: kept) cs

/-- The shortest path that names the same place. -/
def clean (p : Text) : Text :=
  let body := Text.join [slash] (reduceFrom (isAbsolute p) [] (components p)).reverse
  if isAbsolute p then slash :: body else if body.isEmpty then "." else body

/-- A path below a directory. -/
def join (dir p : Text) : Text :=
  if dir.isEmpty && p.isEmpty then []
  else if dir.isEmpty then clean p
  else clean (dir ++ [slash] ++ p)

/-- The directory of a path: everything before the last component. -/
def dir (p : Text) : Text := clean (p.reverse.dropWhile (· ≠ slash)).reverse

/-- The path from the root, where relative ones start at `cwd`. -/
def absolute (cwd p : Text) : Text := if isAbsolute p then clean p else join cwd p

end BytecodeMachine.Path
