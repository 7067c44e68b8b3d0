import BytecodeMachine.Files.Disk
import BytecodeMachine.Text.Quoted

/-!
Open files. What is written waits in a buffer until the buffer is full or the file is flushed or
closed; what is read comes in pieces as large as the buffer.
-/
namespace BytecodeMachine

inductive FileMode where
  | read
  | write
  | append
deriving DecidableEq, Inhabited

def FileMode.ofText? (mode : Text) : Option FileMode :=
  if mode = Text.ofString "r" then some .read
  else if mode = Text.ofString "w" then some .write
  else if mode = Text.ofString "a" then some .append
  else none

/-- An open file. `buffer` holds what was read ahead or is not yet written, `failure` the first
refused write, after which nothing is written any more. -/
structure FileHandle where
  path : Text
  mode : FileMode
  node : Nat
  capacity : Nat
  offset : Nat := 0
  buffer : Text := []
  failure : Option FileError := none
  closed : Bool := false
deriving DecidableEq, Inhabited

namespace FileHandle

/-- The least size of a buffer for reading. -/
def leastReadBuffer : Nat := 16

/-- Opens a file: to read it, to replace its bytes, or to write after them. -/
def openFile (d : Disk) (path : Text) (mode : FileMode) (capacity : Nat) :
    Except FileError (FileHandle × Disk) :=
  match mode with
  | .read =>
    match d.find path with
    | .error e => .error ⟨"open", path, e⟩
    | .ok id =>
      .ok ({ path := path, mode := mode, node := id, capacity := max capacity leastReadBuffer }, d)
  | _ =>
    match d.create path with
    | .error e => .error ⟨"open", path, e⟩
    | .ok (id, d) =>
      let d := if mode = .write then d.truncate id else d
      .ok ({ path := path, mode := mode, node := id, capacity := capacity }, d)

/-- Hands bytes to the file. -/
def put (h : FileHandle) (d : Disk) (data : Text) : FileHandle × Disk :=
  let offset := if h.mode = .append then (d.content h.node).length else h.offset
  match d.write h.node offset data with
  | .ok d => ({ h with offset := offset + data.length }, d)
  | .error e => ({ h with failure := some ⟨"write", h.path, e⟩ }, d)

/-- Hands the buffer to the file. -/
def flush (h : FileHandle) (d : Disk) : FileHandle × Disk :=
  if h.failure.isSome || h.buffer.isEmpty then (h, d)
  else
    let (h', d) := h.put d h.buffer
    (if h'.failure.isSome then h' else { h' with buffer := [] }, d)

/-- Writes through the buffer. What does not fit fills the buffer, which is then flushed; with an
empty buffer it goes to the file at once. `n` bounds the rounds, of which three are enough. -/
def writeRounds : (n : Nat) → FileHandle → Disk → Text → FileHandle × Disk
  | 0, h, d, _ => (h, d)
  | n + 1, h, d, s =>
    if h.failure.isSome then (h, d)
    else
      let room := h.capacity - h.buffer.length
      if s.length ≤ room then ({ h with buffer := h.buffer ++ s }, d)
      else if h.buffer.isEmpty then h.put d s
      else
        let (h, d) := FileHandle.flush { h with buffer := h.buffer ++ s.take room } d
        writeRounds n h d (s.drop room)

def write (h : FileHandle) (d : Disk) (s : Text) : FileHandle × Disk := writeRounds 3 h d s

/-- Flushes and closes; a second time nothing happens. -/
def close (h : FileHandle) (d : Disk) : FileHandle × Disk :=
  if h.closed then (h, d)
  else
    let (h, d) := if h.mode = .read then (h, d) else h.flush d
    ({ h with closed := true }, d)

/-- The next bytes of the file, at most `n`. -/
def fetch (h : FileHandle) (d : Disk) (n : Nat) : Except FileError Text :=
  match d.node h.node with
  | .directory _ _ => .error ⟨"read", h.path, .isDirectory⟩
  | _ => .ok (((d.content h.node).drop h.offset).take n)

/-- What reading a line gives: its bytes with the newline, and whether the file ended before one. -/
structure Line where
  bytes : Text
  ended : Bool

/-- Reads up to a newline, buffer by buffer; `seen` was read before. -/
def readRounds : (n : Nat) → FileHandle → Disk → (seen : Text) → Except FileError Line × FileHandle
  | 0, h, _, seen => (.ok ⟨seen, true⟩, h)
  | n + 1, h, d, seen =>
    match h.buffer.findIdx? (· = 10) with
    | some i =>
      (.ok ⟨seen ++ h.buffer.take (i + 1), false⟩, { h with buffer := h.buffer.drop (i + 1) })
    | none =>
      if h.capacity ≤ h.buffer.length then
        readRounds n { h with buffer := [] } d (seen ++ h.buffer)
      else
        match h.fetch d (h.capacity - h.buffer.length) with
        | .error e => (.error e, { h with buffer := [] })
        | .ok [] => (.ok ⟨seen ++ h.buffer, true⟩, { h with buffer := [] })
        | .ok data =>
          readRounds n { h with buffer := h.buffer ++ data, offset := h.offset + data.length } d seen

/-- The next line with its newline. Every second round takes a byte of the file. -/
def readLine (h : FileHandle) (d : Disk) : Except FileError Line × FileHandle :=
  readRounds (2 * (d.content h.node).length + 4) h d []

/-- Everything not yet read. -/
def readAll (h : FileHandle) (d : Disk) : Except FileError Text × FileHandle :=
  match h.fetch d (d.content h.node).length with
  | .error e => (.error e, { h with buffer := [] })
  | .ok data =>
    (.ok (h.buffer ++ data), { h with buffer := [], offset := h.offset + data.length })

end FileHandle

end BytecodeMachine
