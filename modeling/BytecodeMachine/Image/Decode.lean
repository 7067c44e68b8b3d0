import BytecodeMachine.Image.Item
import BytecodeMachine.Program.Basic

/-!
Programs from data items. Null stands for what a field would be without it, unknown fields are
passed over, and of a repeated field the first counts.
-/
namespace BytecodeMachine.Image

/-- The content of an item without tags. The tags of times and big numbers have to stand before
content of their kind; a big number counts as the number it denotes. -/
def untag : Item → Option Item
  | .tag 0 (.text ps) => some (.text ps)
  | .tag 0 _ => none
  | .tag 1 (.unsigned n) => some (.unsigned n)
  | .tag 1 (.negative n) => some (.negative n)
  | .tag 1 (.float x) => some (.float x)
  | .tag 1 _ => none
  | .tag 2 (.bytes b) =>
    if Item.ofBigEndian b < twoTo 64 then some (.unsigned (Item.ofBigEndian b)) else none
  | .tag 2 _ => none
  | .tag 3 (.bytes b) => some (.negative (Item.ofBigEndian b))
  | .tag 3 _ => none
  | .tag _ i => untag i
  | i => some i

/-- An integer from an item; simple values count by their number. -/
def integer? : Item → Option Int
  | .unsigned n => some n
  | .negative n => some (-1 - (n : Int))
  | .simple n => if n = 20 || n = 21 then none else if n = 22 || n = 23 then some 0 else some n
  | _ => none

def int64? (i : Item) : Option Int64 :=
  match (untag i).bind integer? with
  | some n => if -(twoTo 63 : Int) ≤ n && n < (twoTo 63 : Int) then some (Int64.ofInt n) else none
  | none => none

def byte? (i : Item) : Option UInt8 :=
  match (untag i).bind integer? with
  | some n => if 0 ≤ n && n < 256 then some n.toNat.toUInt8 else none
  | none => none

def float? (i : Item) : Option Binary64 :=
  match untag i with
  | some (.float x) => some x
  | some i =>
    match integer? i with
    | some n => if -(twoTo 63 : Int) ≤ n then some (.ofInt n) else none
    | none => none
  | none => none

/-- The bytes of a text whose pieces are all valid. -/
def validText? (pieces : List Text) : Option Text :=
  if pieces.all Text.isValid then some pieces.flatten else none

/-- A text from an item, where null leaves things as they are. -/
def textOr? (missing : Text) (i : Item) : Option Text :=
  match untag i with
  | some (.text pieces) => validText? pieces
  | some i => if i.isNull then some missing else none
  | none => none

def text? (i : Item) : Option Text := textOr? [] i

/-- All elements of a list, if each of them can be had. -/
def all? {α β : Type} (f : α → Option β) : List α → Option (List β)
  | [] => some []
  | a :: as =>
    match f a with
    | none => none
    | some b => (all? f as).map (b :: ·)

/-- A list that may be missing. -/
def optionalList? {α : Type} (f : Item → Option α) (i : Item) : Option (Option (List α)) :=
  match untag i with
  | some (.array items) => (all? f items).map some
  | some i => if i.isNull then some none else none
  | none => none

def list? {α : Type} (f : Item → Option α) (i : Item) : Option (List α) :=
  (optionalList? f i).map (·.getD [])

/-- Whether an item can name a field: a number or a text. -/
def isFieldKey : Item → Bool
  | .unsigned _ => true
  | .negative n => n < twoTo 63
  | .text pieces => pieces.all Text.isValid
  | _ => false

/-- Whether an item names the field of a number, by the number or by its digits. -/
def namesField (k : Nat) : Item → Bool
  | .unsigned n => n = k
  | .text pieces => pieces.flatten = Text.ofNat k
  | _ => false

/-- The fields of a record; null has none. -/
def fields? (i : Item) : Option (List (Item × Item)) :=
  match untag i with
  | some (.map entries) => if entries.all fun e => isFieldKey e.1 then some entries else none
  | some i => if i.isNull then some [] else none
  | none => none

/-- A field of a record, `missing` where there is none. -/
def get? {α : Type} (entries : List (Item × Item)) (k : Nat) (missing : α) (f : Item → Option α) :
    Option α :=
  match entries.find? fun e => namesField k e.1 with
  | some e => f e.2
  | none => some missing

/-- The entries of a table from a name on: a null name repeats the one before it. -/
def entries? {α : Type} (f : Item → Option α) :
    (name : Text) → List (Item × Item) → Option (List (Text × α))
  | _, [] => some []
  | name, (k, v) :: rest =>
    match textOr? name k with
    | none => none
    | some name =>
      match f v with
      | none => none
      | some a => (entries? f name rest).map ((name, a) :: ·)

/-- A table from a map; of a repeated name the last counts. -/
def table? {α : Type} (f : Item → Option α) (i : Item) : Option (Table α) :=
  match untag i with
  | some (.map entries) => (entries? f [] entries).map Table.ofList
  | some i => if i.isNull then some {} else none
  | none => none

/-- The entries of a table of texts: a null repeats the name or the text before it. -/
def textEntries? : (name value : Text) → List (Item × Item) → Option (List (Text × Text))
  | _, _, [] => some []
  | name, value, (k, v) :: rest =>
    match textOr? name k with
    | none => none
    | some name =>
      match textOr? value v with
      | none => none
      | some value => (textEntries? name value rest).map ((name, value) :: ·)

def textTable? (i : Item) : Option (Table Text) :=
  match untag i with
  | some (.map entries) => (textEntries? [] [] entries).map Table.ofList
  | some i => if i.isNull then some {} else none
  | none => none

def literal? (i : Item) : Option Literal := do
  let es ← fields? i
  let kind ← get? es 1 0 byte?
  let int ← get? es 2 0 int64?
  let float ← get? es 3 ⟨0⟩ float?
  let str ← get? es 4 [] text?
  return { kind, int, float, str }

/-- A constant that is there unless the item itself is null. -/
def optionalLiteral? (i : Item) : Option (Option Literal) :=
  if i.isNull then some none else (literal? i).map some

def operand? (i : Item) : Option Operand := do
  let es ← fields? i
  let int ← get? es 1 0 int64?
  let int2 ← get? es 2 0 int64?
  let name ← get? es 3 [] text?
  let member ← get? es 4 [] text?
  let lit ← get? es 5 none optionalLiteral?
  return { int, int2, name, member, lit }

def instruction? (i : Item) : Option Instruction := do
  let es ← fields? i
  let op ← get? es 1 0 byte?
  let operand ← get? es 2 {} operand?
  let line ← get? es 3 0 int64?
  let col ← get? es 4 0 int64?
  let file ← get? es 5 [] text?
  return { op, operand, line, col, file }

def function? (i : Item) : Option Function := do
  let es ← fields? i
  let name ← get? es 1 [] text?
  let address ← get? es 2 0 int64?
  let params ← get? es 3 [] (list? text?)
  return { name, address, params }

def class? (i : Item) : Option ClassInfo := do
  let es ← fields? i
  let name ← get? es 1 [] text?
  let base ← get? es 2 [] text?
  let fields ← get? es 3 [] (list? text?)
  let statics ← get? es 4 [] (list? text?)
  let methods ← get? es 5 {} textTable?
  let staticMethods ← get? es 6 {} textTable?
  return { name, base, fields, statics, methods, staticMethods }

def program? (i : Item) : Option Program := do
  let es ← fields? i
  let file ← get? es 1 [] text?
  let code ← get? es 2 none (optionalList? instruction?)
  let functions ← get? es 3 {} (table? function?)
  let classes ← get? es 4 {} (table? class?)
  let enums ← get? es 5 {} (table? (optionalList? text?))
  return { file, code? := code.map (·.toArray), functions, classes, enums }

end BytecodeMachine.Image
