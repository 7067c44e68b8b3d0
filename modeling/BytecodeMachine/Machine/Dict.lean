import BytecodeMachine.Machine.Arith
import Std.Data.HashMap

/-!
Dictionaries in insertion order, found through an index of normalized keys.
-/
namespace BytecodeMachine

/-- Language equality: numbers by value across kinds, strings, enum members, types and classes by
name, bound methods by method and receiver, all else by reference. -/
def Value.equal : Value → Value → Bool
  | .boundIntrinsic _ m r, .boundIntrinsic _ n s => m = n && r.equal s
  | .boundMethod _ m r, .boundMethod _ n s => m.entry = n.entry && r.equal s
  | a, b =>
    match a.numeric?, b.numeric? with
    | some x, some y => x.equal y
    | _, _ =>
      match a, b with
      | .null, .null => true
      | .bool x, .bool y => x = y
      | .char x, .char y => x = y
      | .string x, .string y => x = y
      | .enum x, .enum y => x.enum = y.enum && x.member = y.member
      | .type x, .type y => x.name = y.name
      | .cls x, .cls y => x.name = y.name
      | .array x, .array y => x = y
      | .dict x, .dict y => x = y
      | .closure x, .closure y => x.ref = y.ref
      | .builtin x, .builtin y => x = y
      | .intrinsic x, .intrinsic y => x = y
      | .object x, .object y => x = y
      | .static x, .static y => x = y
      | .exception x, .exception y => x = y
      | .file x, .file y => x = y
      | _, _ => false

/-- A key as the index sees it: whole numbers in the range of a word are one key whatever their
kind, references go by their number. -/
inductive DictKey where
  | null
  | bool (b : Bool)
  | char (c : Int32)
  | int (n : Int64)
  | float (x : Binary64)
  | decimal (neg : Bool) (coeff : Nat) (exponent : Int)
  | string (s : Text)
  | enum (name : Text)
  | type (name : Text)
  | cls (name : Text)
  | builtin (b : Builtin)
  | intrinsic (m : Intrinsic)
  | reference (kind : Kind) (id : Nat)
deriving DecidableEq, Hashable

namespace DictKey

/-- A whole number below 2 ^ 63 in size counts as an integer, every other by its bits. -/
def ofBinary64 (x : Binary64) : DictKey :=
  match x.truncate? with
  | some n => if x.isIntegral && n.natAbs < twoTo 63 then int (Int64.ofInt n) else float x
  | none => float x

/-- A number whose integer part is all of it and fits a word counts as an integer, every other goes
by its digits without zeros at the end. -/
def ofDecimal (d : Decimal) : DictKey :=
  let (integer, fraction) := d.integerPart
  match (if fraction then none else integer.toInt64?) with
  | some n => int n
  | none => decimal d.reduce.negative d.reduce.coeff d.reduce.exponent

def of : Value → DictKey
  | .null => null
  | .bool b => bool b
  | .char c => char c
  | .int n => int n
  | .int32 n => int n.toInt64
  | .float32 x => ofBinary64 x.toDouble
  | .float x => ofBinary64 x
  | .decimal d => ofDecimal d
  | .string s => string s
  | .enum e => enum (e.enum ++ "." ++ e.member)
  | .type t => type t.name
  | .cls c => cls c.name
  | .builtin b => builtin b
  | .intrinsic m => intrinsic m
  | .array id => reference .array id
  | .dict id => reference .dict id
  | .closure c => reference .closure c.ref
  | .boundIntrinsic ref _ _ => reference .boundIntrinsic ref
  | .boundMethod ref _ _ => reference .boundMethod ref
  | .object id => reference .object id
  | .static id => reference .static id
  | .exception id => reference .exception id
  | .file id => reference .file id

end DictKey

/-- Entries in the order of insertion, and the position of every key. -/
structure Dict where
  entries : Array (Value × Value) := #[]
  index : Std.HashMap DictKey Nat := {}
deriving Inhabited

namespace Dict

def size (d : Dict) : Nat := d.entries.size

def position? (d : Dict) (key : Value) : Option Nat := d.index[DictKey.of key]?

def get? (d : Dict) (key : Value) : Option Value :=
  match d.position? key with
  | some i => (d.entries[i]?).map (·.2)
  | none => none

def contains (d : Dict) (key : Value) : Bool := d.index.contains (DictKey.of key)

/-- Puts a value under a key. A key that is present keeps its place and its first spelling. -/
def insert (d : Dict) (key value : Value) : Dict :=
  match d.position? key with
  | some i => { d with entries := d.entries.modify i fun e => (e.1, value) }
  | none =>
    { entries := d.entries.push (key, value)
      index := d.index.insert (DictKey.of key) d.entries.size }

/-- Gives the entries from position `i` on their new places. -/
def reindex (index : Std.HashMap DictKey Nat) : (i : Nat) → List (Value × Value) →
    Std.HashMap DictKey Nat
  | _, [] => index
  | i, e :: es => reindex (index.insert (DictKey.of e.1) i) (i + 1) es

/-- Takes an entry out; those after it move up by one. -/
def erase (d : Dict) (key : Value) : Option (Value × Dict) :=
  match d.position? key with
  | none => none
  | some i =>
    match d.entries[i]? with
    | none => none
    | some e =>
      let entries := d.entries.eraseIdxIfInBounds i
      some (e.2,
        { entries := entries
          index := reindex (d.index.erase (DictKey.of key)) i (entries.toList.drop i) })

def keys (d : Dict) : List Value := d.entries.toList.map (·.1)

def values (d : Dict) : List Value := d.entries.toList.map (·.2)

def ofPairs (pairs : List (Value × Value)) : Dict :=
  pairs.foldl (fun d e => d.insert e.1 e.2) {}

end Dict

end BytecodeMachine
