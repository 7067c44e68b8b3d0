import BytecodeMachine.Number.Binary
import BytecodeMachine.Text.Utf8

/-!
Data items of the concise binary object representation: the tree that a byte string denotes, and its
shortest written form.
-/
namespace BytecodeMachine

/-- A data item. `negative n` stands for `-1 - n`, a text is given by the pieces it was written in,
and the simple values include false, true, null and undefined. -/
inductive Item where
  | unsigned (n : Nat)
  | negative (n : Nat)
  | bytes (b : Text)
  | text (pieces : List Text)
  | array (items : List Item)
  | map (entries : List (Item × Item))
  | tag (n : Nat) (content : Item)
  | simple (n : Nat)
  | float (x : Binary64)
deriving Inhabited

namespace Item

/-- The simple value that stands for nothing. -/
def null : Item := simple 22

/-- Null or undefined. -/
def isNull : Item → Bool
  | simple n => n = 22 || n = 23
  | _ => false

def isTag : Item → Bool
  | tag _ _ => true
  | _ => false

def ofInt (n : Int) : Item := if n < 0 then negative (-1 - n).toNat else unsigned n.toNat

def ofText (t : Text) : Item := text [t]

/-- The number as `width` bytes, the most significant first. -/
def bigEndian : (width : Nat) → Nat → Text
  | 0, _ => []
  | w + 1, n => bigEndian w (n / 256) ++ [(n % 256).toUInt8]

/-- The number that bytes denote, the most significant first. -/
def ofBigEndian (b : Text) : Nat := b.foldl (fun n byte => 256 * n + byte.toNat) 0

/-- The kind of an item and a number, in as few bytes as hold it. -/
def head (major n : Nat) : Text :=
  let start (info : Nat) : UInt8 := (32 * major + info).toUInt8
  if n < 24 then [start n]
  else if n < twoTo 8 then start 24 :: bigEndian 1 n
  else if n < twoTo 16 then start 25 :: bigEndian 2 n
  else if n < twoTo 32 then start 26 :: bigEndian 4 n
  else start 27 :: bigEndian 8 n

/-- The pattern of a double in a narrower format, where that keeps its value. -/
def narrowed? (f : BinaryFormat) (x : Binary64) : Option Nat :=
  let bits := BinaryFormat.double.convert f x.pattern
  if f.convert .double bits = x.pattern then some bits else none

/-- A floating-point number in as few bytes as keep its value; all that are no number look alike. -/
def encodeFloat (x : Binary64) : Text :=
  if x.isNaN then [0xF9, 0x7E, 0x00]
  else match narrowed? .half x with
    | some bits => 0xF9 :: bigEndian 2 bits
    | none =>
      match narrowed? .single x with
      | some bits => 0xFA :: bigEndian 4 bits
      | none => 0xFB :: bigEndian 8 x.pattern

mutual

/-- The shortest written form of an item. -/
def encode : Item → Text
  | unsigned n => head 0 n
  | negative n => head 1 n
  | bytes b => head 2 b.length ++ b
  | text pieces => head 3 pieces.flatten.length ++ pieces.flatten
  | array items => head 4 items.length ++ encodeAll items
  | map entries => head 5 entries.length ++ encodeEntries entries
  | tag n content => head 6 n ++ encode content
  | simple n => head 7 n
  | float x => encodeFloat x

def encodeAll : List Item → Text
  | [] => []
  | i :: is => encode i ++ encodeAll is

def encodeEntries : List (Item × Item) → Text
  | [] => []
  | (k, v) :: es => encode k ++ encode v ++ encodeEntries es

end

/-- The first bytes of an item. An indefinite size has no number. -/
structure Head where
  major : Nat
  info : Nat
  number : Option Nat

/-- A number of `width` bytes and what follows. -/
def readNumber (width : Nat) (t : Text) : Option (Nat × Text) :=
  if t.length < width then none else some (ofBigEndian (t.take width), t.drop width)

/-- Reads the first bytes of an item. Simple values below 32 have no form of two bytes. -/
def readHead : Text → Option (Head × Text)
  | [] => none
  | b :: t =>
    let major := b.toNat / 32
    let info := b.toNat % 32
    if info < 24 then some (⟨major, info, some info⟩, t)
    else if info < 28 then
      match readNumber (twoTo (info - 24)) t with
      | none => none
      | some (n, t) =>
        if major = 7 && info = 24 && n < 32 then none else some (⟨major, info, some n⟩, t)
    else if info = 31 && 2 ≤ major && major ≤ 5 then some (⟨major, info, none⟩, t)
    else none

/-- The byte that ends an item of indefinite size. -/
def breakByte : UInt8 := 0xFF

/-- Reads a number of items, one after the other. -/
def readMany {α : Type} (read : Text → Option (α × Text)) : Nat → Text → Option (List α × Text)
  | 0, t => some ([], t)
  | n + 1, t =>
    match read t with
    | none => none
    | some (a, t) =>
      match readMany read n t with
      | none => none
      | some (as, t) => some (a :: as, t)

/-- Reads items up to a break. The number bounds them; there are no more than bytes. -/
def readUntilBreak {α : Type} (read : Text → Option (α × Text)) :
    Nat → Text → Option (List α × Text)
  | 0, _ => none
  | n + 1, t =>
    match t with
    | [] => none
    | b :: rest =>
      if b = breakByte then some ([], rest)
      else match read t with
        | none => none
        | some (a, t) =>
          match readUntilBreak read n t with
          | none => none
          | some (as, t) => some (a :: as, t)

/-- Reads a given number of items, or those up to a break. -/
def readAll {α : Type} (read : Text → Option (α × Text)) (n : Option Nat) (t : Text) :
    Option (List α × Text) :=
  match n with
  | some n => readMany read n t
  | none => readUntilBreak read (t.length + 1) t

def readBytes (n : Nat) (t : Text) : Option (Text × Text) :=
  if t.length < n then none else some (t.take n, t.drop n)

/-- One piece of a string of indefinite size, which is a string of the same kind. -/
def readPiece (major : Nat) (t : Text) : Option (Text × Text) :=
  match readHead t with
  | some (⟨m, _, some n⟩, t) => if m = major then readBytes n t else none
  | _ => none

/-- The pieces of a string. -/
def readPieces (major : Nat) (n : Option Nat) (t : Text) : Option (List Text × Text) :=
  match n with
  | some n => (readBytes n t).map fun r => ([r.1], r.2)
  | none => readAll (readPiece major) none t

/-- A simple value or a floating-point number by its first bytes. -/
def primitive (info n : Nat) : Item :=
  if info = 25 then float (.ofNatBits (BinaryFormat.half.convert .double n))
  else if info = 26 then float (.ofNatBits (BinaryFormat.single.convert .double n))
  else if info = 27 then float (.ofNatBits n)
  else simple n

/-- The entries of a map by its keys and values in turn. -/
def pairUp : List Item → Option (List (Item × Item))
  | [] => some []
  | k :: v :: rest => (pairUp rest).map ((k, v) :: ·)
  | [_] => none

/-- How many items an array and how many entries a map may have. -/
def sizeLimit : Nat := 131072

/-- How deep containers, and tags directly inside tags, may be nested. -/
def levelLimit : Nat := 32

/-- Reads the items of a container. -/
def readContainer (read : Text → Option (Item × Text)) (each : Nat) (n : Option Nat) (t : Text) :
    Option (List Item × Text) :=
  match n with
  | some n => if sizeLimit < n then none else readAll read (some (each * n)) t
  | none =>
    match readAll read none t with
    | none => none
    | some (items, t) => if sizeLimit < items.length / each then none else some (items, t)

/-- Reads one item. `level` counts the containers that may still be opened; every step goes one
level down or from a tag to what it tags, so `depth` is at most twice as much. -/
def read : (depth level : Nat) → Text → Option (Item × Text)
  | 0, _, _ => none
  | depth + 1, level, t =>
    match readHead t with
    | none => none
    | some (h, t) =>
      match h.major, h.number with
      | 0, some n => some (unsigned n, t)
      | 1, some n => some (negative n, t)
      | 2, n => (readPieces 2 n t).map fun r => (bytes r.1.flatten, r.2)
      | 3, n => (readPieces 3 n t).map fun r => (text r.1, r.2)
      | 4, n =>
        if level = 0 then none
        else (readContainer (read depth (level - 1)) 1 n t).map fun r => (array r.1, r.2)
      | 5, n =>
        if level = 0 then none
        else match readContainer (read depth (level - 1)) 2 n t with
          | none => none
          | some (items, t) => (pairUp items).map fun es => (map es, t)
      | 6, some n =>
        match t with
        | [] => none
        | b :: _ =>
          if b.toNat / 32 = 6 then
            if level = 0 then none else (read depth (level - 1) t).map fun r => (tag n r.1, r.2)
          else (read depth level t).map fun r => (tag n r.1, r.2)
      | 7, some n => some (primitive h.info n, t)
      | _, _ => none

/-- The one item that a byte string holds. -/
def parse (t : Text) : Option Item :=
  match read (2 * levelLimit + 2) levelLimit t with
  | some (i, []) => some i
  | _ => none

end Item

end BytecodeMachine
