import BytecodeMachine.Text.Basic

/-!
A configuration document: nested tables of values, and the rules by which keys may be defined.
-/
namespace BytecodeMachine.Toml

/-- A value. Fractions, times and lists are of kinds that no setting has. -/
inductive Value where
  | text (s : Text)
  | integer (n : Int)
  | bool (b : Bool)
  | other
deriving DecidableEq

/-- What a key stands for: a value, a table, or a list of tables with the newest first. -/
inductive Node where
  | value (v : Value)
  | table (entries : List (Text × Node))
  | tables (items : List (List (Text × Node)))
deriving Inhabited

/-- The entries of a table in the order of their definition. -/
abbrev Entries := List (Text × Node)

/-- A key with its parts, the outermost first. -/
abbrev Key := List Text

/-- Puts a node in the place of an entry, or behind all others. -/
def Entries.set (name : Text) (n : Node) : Entries → Entries
  | [] => [(name, n)]
  | (k, m) :: es => if k = name then (name, n) :: es else (k, m) :: set name n es

/-- Changes the table at a path; of a list of tables the newest is meant. -/
def Entries.update (f : Entries → Option Entries) : Key → Entries → Option Entries
  | [], es => f es
  | k :: ks, es =>
    match es.lookup k with
    | some (.table t) => (update f ks t).map fun t => Entries.set k (.table t) es
    | some (.tables (t :: ts)) => (update f ks t).map fun t => Entries.set k (.tables (t :: ts)) es
    | _ => none

/-- A document while it is read. Tables that were only mentioned on the way to others are implicit
and may be defined once more; the keys that were written are kept, newest first. -/
structure Document where
  root : Entries := []
  implicit : List Key := []
  keys : List Key := []

namespace Document

def mark (d : Document) (k : Key) : Document := { d with implicit := k :: d.implicit }

def unmark (d : Document) (k : Key) : Document :=
  { d with implicit := d.implicit.filter (· ≠ k) }

def note (d : Document) (k : Key) : Document := { d with keys := k :: d.keys }

/-- The table at a path. -/
def table? : Entries → Key → Option Entries
  | es, [] => some es
  | es, k :: ks =>
    match es.lookup k with
    | some (.table t) => table? t ks
    | some (.tables (t :: _)) => table? t ks
    | _ => none

/-- Defines a key in the table at a path. An implicit table becomes a defined one and keeps its
entries; any other definition of a key that exists is refused. -/
def define (d : Document) (context : Key) (name : Text) (n : Node) : Option Document := do
  let es ← table? d.root context
  let full := context ++ [name]
  match es.lookup name with
  | none =>
    let root ← Entries.update (fun es => some (Entries.set name n es)) context d.root
    some { d with root := root }
  | some _ => if d.implicit.contains full then some (d.unmark full) else none

/-- Makes the tables on the way to a key, as far as they are missing. -/
def prepare (d : Document) (done : Key) : Key → Option Document
  | [] => some d
  | k :: ks => do
    let es ← table? d.root done
    let d ← match es.lookup k with
      | none => do
        let root ←
          Entries.update (fun es => some (Entries.set k (.table []) es)) done d.root
        some ({ d with root := root }.mark (done ++ [k]))
      | some (.value _) => none
      | some _ => some d
    prepare d (done ++ [k]) ks

/-- Adds a table to the list of tables that a key stands for. -/
def append (d : Document) (context : Key) (name : Text) : Option Document := do
  let root ← Entries.update (fun es =>
    match es.lookup name with
    | none => some (Entries.set name (.tables [[]]) es)
    | some (.tables ts) => some (Entries.set name (.tables ([] :: ts)) es)
    | some _ => none) context d.root
  some { d with root := root }

/-- Enters the table of a key, or a new table of its list. -/
def enter (d : Document) (k : Key) (list : Bool) : Option Document := do
  let d ← d.prepare [] k.dropLast
  let name ← k.getLast?
  if list then d.append k.dropLast name else d.define k.dropLast name (.table [])

/-- Enters a table that is only mentioned on the way to a key. -/
def mention (d : Document) (k : Key) : Option Document := (d.mark k).enter k false

/-- Mentions the tables on the way to a dotted key, from the outside in. -/
def mentionAll (d : Document) (context : Key) : Key → Option Document
  | [] => some d
  | k :: ks => do mentionAll (← d.mention (context ++ [k])) (context ++ [k]) ks

end Document

/-- The character of a key that needs no quotes. -/
def isBareByte (b : UInt8) : Bool :=
  Text.isDigit b || (65 ≤ b && b ≤ 90) || (97 ≤ b && b ≤ 122) || b = 95 || b = 45

def escapeByte (b : UInt8) : Text :=
  if b = 34 then "\\\""
  else if b = 92 then "\\\\"
  else if b = 8 then "\\b"
  else if b = 9 then "\\t"
  else if b = 10 then "\\n"
  else if b = 12 then "\\f"
  else if b = 13 then "\\r"
  else if b < 32 || b = 127 then
    Text.ofString "\\u" ++ Text.hexDigits Text.lowerHexDigit 4 b.toNat
  else [b]

/-- One part of a key, in quotes where it needs them. -/
def partText (p : Text) : Text :=
  if !p.isEmpty && p.all isBareByte then p
  else (34 : UInt8) :: p.flatMap escapeByte ++ [34]

/-- A key as it is written. -/
def keyText (k : Key) : Text := Text.join "." (k.map partText)

end BytecodeMachine.Toml
