import BytecodeMachine.Machine.Host
import BytecodeMachine.Machine.Indexing

/-!
The functions every program can call.
-/
namespace BytecodeMachine.World

/-- Whole numbers by value, everything else with an integer in it cut towards zero, strings read as
decimal digits. -/
def toInt (w : World) (v : Value) : Except ErrorCause Int64 :=
  let ofFloat (x : Binary64) : Except ErrorCause Int64 :=
    match x.truncate? with
    | some n =>
      if -(twoTo 63 : Int) ≤ n && n < (twoTo 63 : Int) then .ok (Int64.ofInt n)
      else .error (.numberToInt (w.text v))
    | none => .error (.numberToInt (w.text v))
  match v with
  | .int n => .ok n
  | .int32 n => .ok n.toInt64
  | .bool b => .ok (if b then 1 else 0)
  | .char c => .ok c.toInt64
  | .float32 x => ofFloat x.toDouble
  | .float x => ofFloat x
  | .decimal d =>
    match d.integerPart.1.toInt64? with
    | some n => .ok n
    | none => .error (.numberToInt (w.text v))
  | .string s =>
    match Text.toWord? 64 s.trim with
    | some n => .ok (Int64.ofInt n)
    | none => .error (.textToInt s)
  | _ => .error (.kindToInt v.kind)

def toFloat (v : Value) : Except ErrorCause Binary64 :=
  match v.numeric? with
  | some a => .ok a.toBinary64
  | none =>
    match v with
    | .string s =>
      match FloatText.read s.trim with
      | .ok x => .ok x
      | .error _ => .error (.textToFloat s)
    | _ => .error (.kindToFloat v.kind)

def toDecimal (v : Value) : Except ErrorCause Decimal :=
  match v.numeric? with
  | some a => a.toDecimal
  | none =>
    match v with
    | .string s =>
      match Decimal.read? s.trim with
      | some d => .ok d
      | none => .error (.textToDecimal s)
    | _ => .error (.kindToDecimal v.kind)

def length (w : World) (v : Value) : Except ErrorCause Nat :=
  match v with
  | .string s => .ok s.runeCount
  | .array id => .ok (w.store.array id).length
  | .dict id => .ok (w.store.dict id).size
  | _ => .error (.lenOf v.kind)

/-- A new exception, not yet raised. -/
def makeException (w : World) (kind message : Text) (payload : Value) : Reply Value :=
  let (id, s) := w.store.newException { kind := kind, message := message, payload := payload }
  (.ok (.exception id), { w with store := s })

/-- Opens a file and enters it into the table of open files. -/
def openFile (w : World) (bufferSize : Nat) (path mode : Text) : Reply Value :=
  match FileMode.ofText? mode with
  | none => w.fail (.fileMode path mode)
  | some m =>
    match FileHandle.openFile w.disk path m bufferSize with
    | .error e => w.fail (.fileError path e)
    | .ok (h, disk) =>
      let (id, s) := w.store.newHandle h
      (.ok (.file id),
        { w with store := s, disk := disk, openFiles := id :: w.openFiles
                 events := .fileOpened path mode :: w.events })

/-- The digits of the `n`-th unique name: a fixed mixing of its number. -/
def uuidDigits (n : Nat) : Text :=
  Text.hexDigits Text.lowerHexDigit 32
    ((n + 1) * 0x9E3779B97F4A7C15F39CC0605CEDC835 % twoTo 128)

/-- A name no other call gives, with the version digit 4 and the variant digit 8. -/
def uuidText (n : Nat) : Text :=
  let d := uuidDigits n
  slice d 0 8 ++ "-" ++ slice d 8 12 ++ "-4" ++ slice d 13 16 ++ "-8" ++ slice d 17 20 ++ "-"
    ++ slice d 20 32

def readWhole (w : World) (path : Text) : Except Failure Value :=
  match w.disk.read path with
  | .ok data => .ok (.string data)
  | .error e => .error (.of (.fileError path e))

/-- The function that waits for a number of milliseconds, counted as nanoseconds in a word of 64
bits. -/
def sleeping (v : Value) : Deferred :=
  match v.toInteger "sleep" with
  | .ok ms => .upcoming (Int64.ofInt (max ms 0) * 1000000).toInt.toNat (.ok .null)
  | .error e => .settled (.error (.of e))

/-- The function that reads a file while the program waits. -/
def reading (w : World) (v : Value) : Deferred :=
  match v.toText "readFileAsync" with
  | .ok path => .upcoming 0 (w.readWhole path)
  | .error e => .settled (.error (.of e))

/-- Calls a standard function whose number of arguments is right. -/
def standard (w : World) (bufferSize : Nat) (f : StandardFunction) (args : List Value) :
    Reply Value :=
  match f, args with
  | .len, [v] => w.lift ((w.length v).map .ofNat)
  | .typeOf, [v] => w.give (.string v.kind.name)
  | .str, [v] => w.give (.string (w.text v))
  | .int, [v] => w.lift ((w.toInt v).map .int)
  | .float, [v] => w.lift ((toFloat v).map .float)
  | .decimal, [v] => w.lift ((toDecimal v).map .decimal)
  | .exception, kind :: message :: payload =>
    match kind.toText "Exception" with
    | .ok k => w.makeException k (w.text message) (payload.headD .null)
    | .error e => w.fail e
  | .classOf, [.object id] => w.give (.cls (w.store.object id).cls)
  | .classOf, [.static id] => w.give (.cls (w.store.object id).cls)
  | .classOf, [v] => w.fail (.classOf v.kind)
  | .openFile, path :: mode =>
    match path.toText "open" with
    | .error e => w.fail e
    | .ok path =>
      match optionalText "open" "r" mode with
      | .error e => w.fail e
      | .ok mode => w.openFile bufferSize path mode
  | .uuid, _ => (.ok (.string (uuidText w.uuids)), { w with uuids := w.uuids + 1 })
  | .sleep, [v] => w.await (some (sleeping v))
  | .readFileAsync, [v] => w.await (some (w.reading v))
  | _, _ => w.give .null

end BytecodeMachine.World
