import BytecodeMachine.Text.Basic
import BytecodeMachine.Text.CategoryTable

/-!
General categories of characters, and the classes that are unions of them.
-/
namespace BytecodeMachine

/-- A general category by its two letters, the first of which names the group. -/
structure Category where
  group : Char
  member : Char
deriving DecidableEq, Inhabited

namespace Category

/-- One run of the table: its category and its length. -/
def readRun? (word : String) : Option (Category × Nat) :=
  match word.toList with
  | [g, m] => some (⟨g, m⟩, 1)
  | g :: m :: digits => some (⟨g, m⟩, digits.foldl (fun n d => 10 * n + (d.toNat - 48)) 0)
  | _ => none

/-- The first code point of every run with its category, in increasing order. -/
def starts : Array (Nat × Category) :=
  (Text.categoryRuns.foldl (fun (acc : Array (Nat × Category) × Nat) line =>
    (line.splitOn " ").foldl (fun acc word =>
      match readRun? word with
      | some (c, n) => (acc.1.push (acc.2, c), acc.2 + n)
      | none => acc) acc) (#[], 0)).1

/-- Halves the interval of runs until one is left; `n` bounds the halvings. -/
def search (code : Nat) : (n lo hi : Nat) → Nat
  | 0, lo, _ => lo
  | n + 1, lo, hi =>
    if hi ≤ lo + 1 then lo
    else
      let mid := (lo + hi) / 2
      match starts[mid]? with
      | some (s, _) => if s ≤ code then search code n mid hi else search code n lo mid
      | none => lo

def ofCode (code : Nat) : Category :=
  match starts[search code 16 0 starts.size]? with
  | some (_, c) => c
  | none => ⟨'C', 'n'⟩

def of (c : Char) : Category := ofCode c.toNat

end Category

namespace Text

/-- Letters, marks, numbers, punctuation and symbols, and of the blanks the space alone. -/
def isPrintable (c : Char) : Bool :=
  if c.toNat < 0x7F then 0x20 ≤ c.toNat else "LMNPS".toList.contains (Category.of c).group

end Text

end BytecodeMachine
