import BytecodeMachine.Machine.Indexing
import BytecodeMachine.Pattern.Basic
import BytecodeMachine.Text.Case

/-!
The methods of arrays, dictionaries, strings, enum members and files, but for those that call back
into the program.
-/
namespace BytecodeMachine.World

/-- The position of the first element equal to a value. -/
def indexOfValue (xs : List Value) (v : Value) : Int :=
  match xs.findIdx? fun x => x.equal v with
  | some i => i
  | none => -1

def arrayMethod (p : Program) (here : Place) (w : World) (m : Intrinsic) (id : Nat)
    (args : List Value) : Reply Value :=
  let xs := w.store.array id
  let put (xs : List Value) : World := { w with store := w.store.setArray id xs }
  match m, args with
  | .arrayPush, vs => (put (xs ++ vs)).give (.ofNat (xs.length + vs.length))
  | .arrayPop, _ =>
    match xs.getLast? with
    | some v => (put xs.dropLast).give v
    | none => w.fail .emptyPop
  | .arrayLen, _ => w.give (.ofNat xs.length)
  | .arrayGet, [i] => w.indexGet p here (.array id) i
  | .arrayInsert, [i, v] =>
    match i.toInteger "insert" with
    | .error e => w.fail e
    | .ok i =>
      if i < 0 || (xs.length : Int) < i then w.fail (.insertRange i xs.length)
      else (put (xs.take i.toNat ++ v :: xs.drop i.toNat)).give .null
  | .arrayRemoveAt, [i] =>
    match i.toInteger "removeAt" with
    | .error e => w.fail e
    | .ok i =>
      match elementAt xs i with
      | .error e => w.fail e
      | .ok v => (put (xs.eraseIdx i.toNat)).give v
  | .arrayContains, [v] => w.give (.bool (0 ≤ indexOfValue xs v))
  | .arrayIndexOf, [v] => w.give (.int (Int64.ofInt (indexOfValue xs v)))
  | .arrayJoin, sep =>
    match optionalText "join" [] sep with
    | .error e => w.fail e
    | .ok sep => w.give (.string (Text.join sep (xs.map w.text)))
  | .arraySlice, start :: stop => w.sliceGet (.array id) start (stop.headD .null)
  | .arrayReverse, _ => (put xs.reverse).give (.array id)
  | _, _ => w.give .null

def dictMethod (w : World) (m : Intrinsic) (id : Nat) (args : List Value) : Reply Value :=
  let d := w.store.dict id
  match m, args with
  | .dictGet, key :: missing => w.give ((d.get? key).getD (missing.headD .null))
  | .dictSet, [key, v] =>
    (.ok .null, { w with store := w.store.modifyDict id fun d => d.insert key v })
  | .dictHas, [key] => w.give (.bool (d.contains key))
  | .dictRemove, [key] =>
    match d.erase key with
    | some (v, d) => (.ok v, { w with store := w.store.modifyDict id fun _ => d })
    | none => w.give .null
  | .dictKeys, _ => w.newArray d.keys
  | .dictValues, _ => w.newArray d.values
  | .dictLen, _ => w.give (.ofNat d.size)
  | _, _ => w.give .null

/-- The pieces of a string around a separator; an empty one divides it into characters. -/
def splitText (s sep : Text) : List Text :=
  if sep.isEmpty then s.splitRunes else Text.splitOn sep s

/-- The position in characters of the first occurrence of a string. -/
def indexOfText (s sub : Text) : Int :=
  match Text.indexOf? sub s with
  | some i => Text.runeCount (s.take i)
  | none => -1

/-- The characters from `start` to before `stop`, both inside. -/
def substring (s : Text) (start : Int) (stop : Option Int) : Except ErrorCause Text :=
  let rs := s.runes
  let stop := stop.getD rs.length
  if start < 0 || (rs.length : Int) < stop || stop < start then
    .error (.substringRange start stop rs.length)
  else .ok (charsText (slice rs start.toNat stop.toNat))

/-- A pattern from an argument. -/
def toPattern (v : Value) : Except ErrorCause Pattern :=
  match v.toText "pattern" with
  | .error e => .error e
  | .ok s =>
    match Pattern.compile s with
    | .ok p => .ok p
    | .error reason => .error (.pattern s reason)

def stringResult (s : Text) (m : Intrinsic) (args : List Value) : Except ErrorCause Value :=
  match m, args with
  | .stringLen, _ => .ok (.ofNat s.runeCount)
  | .stringUpper, _ => .ok (.string s.upper)
  | .stringLower, _ => .ok (.string s.lower)
  | .stringTrim, _ => .ok (.string s.trim)
  | .stringContains, [v] =>
    (v.toSubstring "contains").map fun t => .bool (Text.indexOf? t s).isSome
  | .stringStartsWith, [v] => (v.toSubstring "startsWith").map fun t => .bool (s.startsWith t)
  | .stringEndsWith, [v] => (v.toSubstring "endsWith").map fun t => .bool (s.endsWith t)
  | .stringReplace, [old, new] =>
    match old.toSubstring "replace" with
    | .error e => .error e
    | .ok old => (new.toText "replace").map fun new => .string (Text.replaceAll old new s)
  | .stringMatches, [v] => (toPattern v).map fun p => .bool (p.isMatch s)
  | .stringReplaceRegex, [v, new] =>
    match toPattern v with
    | .error e => .error e
    | .ok p =>
      match new.toText "replaceRegex" with
      | .error e => .error e
      | .ok new =>
        match p.replace s new with
        | .ok t => .ok (.string t)
        | .error reason => .error (.host "replaceRegex" reason)
  | .stringSubstring, [start] =>
    (start.toInteger "substring").bind fun i => (substring s i none).map .string
  | .stringSubstring, [start, stop] =>
    (start.toInteger "substring").bind fun i => (stop.toInteger "substring").bind fun j =>
      (substring s i (some j)).map .string
  | .stringIndexOf, [v] =>
    (v.toSubstring "indexOf").map fun t => .int (Int64.ofInt (indexOfText s t))
  | _, _ => .ok .null

def stringMethod (w : World) (m : Intrinsic) (s : Text) (args : List Value) : Reply Value :=
  match m, args with
  | .stringSplit, [sep] =>
    match sep.toText "split" with
    | .error e => w.fail e
    | .ok sep => w.newArray ((splitText s sep).map .string)
  | _, _ => w.lift (stringResult s m args)

def enumMethod (w : World) (m : Intrinsic) (e : EnumMember) : Reply Value :=
  match m with
  | .enumName => w.give (.string e.member)
  | _ => w.give (.int e.ordinal)

/-- Why a handle cannot be written to. -/
def notWritable? (h : FileHandle) : Option ErrorCause :=
  if h.closed then some (.fileClosed h.path)
  else if h.mode = .read then some (.notWritable h.path)
  else none

/-- Why a handle cannot be read from. -/
def notReadable? (h : FileHandle) : Option ErrorCause :=
  if h.closed then some (.fileClosed h.path)
  else if h.mode = .read then none
  else some (.notReadable h.path)

def keepHandle (w : World) (id : Nat) (h : FileHandle) (disk : Disk) : World :=
  { w with store := w.store.setHandle id h, disk := disk }

/-- The answer after an operation that may have met a refused write. -/
def afterWrite (w : World) (h : FileHandle) : Reply Value :=
  match h.failure with
  | some e => w.fail (.fileError h.path e)
  | none => w.give .null

def writeText (w : World) (id : Nat) (t : Text) : Reply Value :=
  let h := w.store.handle id
  match notWritable? h with
  | some e => w.fail e
  | none =>
    let (h, disk) := h.write w.disk t
    (w.keepHandle id h disk).afterWrite h

/-- A line without its newline and a carriage return before it. -/
def lineText (t : Text) : Text := Text.dropEnd "\r" (Text.dropEnd "\n" t)

def readLine (w : World) (id : Nat) : Reply Value :=
  let h := w.store.handle id
  match notReadable? h with
  | some e => w.fail e
  | none =>
    match h.readLine w.disk with
    | (.error e, h) => (w.keepHandle id h w.disk).fail (.fileError h.path e)
    | (.ok line, h) =>
      let w := w.keepHandle id h w.disk
      if line.bytes.isEmpty && line.ended then w.give .null
      else w.give (.string (lineText line.bytes))

def readAll (w : World) (id : Nat) : Reply Value :=
  let h := w.store.handle id
  match notReadable? h with
  | some e => w.fail e
  | none =>
    match h.readAll w.disk with
    | (.error e, h) => (w.keepHandle id h w.disk).fail (.fileError h.path e)
    | (.ok data, h) => (w.keepHandle id h w.disk).give (.string data)

def flushFile (w : World) (id : Nat) : Reply Value :=
  let h := w.store.handle id
  match notWritable? h with
  | some e => w.fail e
  | none =>
    let (h, disk) := h.flush w.disk
    (w.keepHandle id h disk).afterWrite h

/-- Closes a handle and takes it out of the table; what a handle could not write shows up in the
answer of its first closing. -/
def closeFile (w : World) (id : Nat) : World × Option FileError :=
  let h := w.store.handle id
  let w := { w with openFiles := w.openFiles.filter (· ≠ id) }
  if h.closed then (w, none)
  else
    let (h, disk) := h.close w.disk
    (w.keepHandle id h disk, h.failure)

def fileMethod (w : World) (m : Intrinsic) (id : Nat) (args : List Value) : Reply Value :=
  match m, args with
  | .fileWrite, [v] => w.writeText id (w.text v)
  | .fileWriteLine, [v] => w.writeText id (w.text v ++ [10])
  | .fileReadLine, _ => w.readLine id
  | .fileReadAll, _ => w.readAll id
  | .fileFlush, _ => w.flushFile id
  | .fileClose, _ =>
    match w.closeFile id with
    | (w, some e) => w.fail (.fileError (w.store.handle id).path e)
    | (w, none) => w.give .null
  | .fileIsOpen, _ => w.give (.bool (!(w.store.handle id).closed))
  | .filePath, _ => w.give (.string (w.store.handle id).path)
  | _, _ => w.give .null

/-- Calls a method that does not call back, on a receiver of its kind with the right number of
arguments. -/
def method (p : Program) (here : Place) (w : World) (m : Intrinsic) (receiver : Value)
    (args : List Value) : Reply Value :=
  match receiver with
  | .array id => w.arrayMethod p here m id args
  | .dict id => w.dictMethod m id args
  | .string s => w.stringMethod m s args
  | .enum e => w.enumMethod m e
  | .file id => w.fileMethod m id args
  | _ => w.give .null

end BytecodeMachine.World
