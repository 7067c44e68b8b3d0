import BytecodeMachine.Text.Case
import BytecodeMachine.Text.Category
import BytecodeMachine.Text.SetTable

/-!
Classes of characters in patterns.
-/
namespace BytecodeMachine.Pattern

/-- Letters, marks that take no space, digits and connectors make words, and so do the two joiners. -/
def isWordChar (c : Char) : Bool :=
  let cat := Category.of c
  cat.group = 'L' || cat = ⟨'M', 'n'⟩ || cat = ⟨'N', 'd'⟩ || cat = ⟨'P', 'c'⟩
    || c = '\u200c' || c = '\u200d'

/-- A character without its case. -/
def lower (c : Char) : Char := (Text.lowerChar c).headD c

/-- The capital of a character that has a single one. -/
def upper (c : Char) : Char :=
  match Text.upperChar c with
  | [u] => u
  | _ => c

/-- A set of characters that has a name. -/
inductive CharKind where
  | word
  | space
  | group (letter : Char)
  | category (cat : Category)
  | named (ranges : Array (Nat × Nat))

namespace CharKind

def digit : CharKind := category ⟨'N', 'd'⟩

def has (k : CharKind) (c : Char) : Bool :=
  match k with
  | word => isWordChar c
  | space => Text.isBlank c
  | group letter =>
    let cat := Category.of c
    cat.group = letter && cat ≠ ⟨'C', 'n'⟩
  | category cat => Category.of c = cat
  | named ranges => Text.inRanges ranges c.toNat

def groups : List Char := "CLMNPSZ".toList

def categories : List String :=
  ["Cc", "Cf", "Co", "Cs", "Ll", "Lm", "Lo", "Lt", "Lu", "Mc", "Me", "Mn", "Nd", "Nl", "No", "Pc",
   "Pd", "Pe", "Pf", "Pi", "Po", "Ps", "Sc", "Sk", "Sm", "So", "Zl", "Zp", "Zs"]

/-- The set of a category, a script or a property. -/
def ofName? (name : List Char) : Option CharKind :=
  match name with
  | [g] => if groups.contains g then some (group g) else none
  | [g, m] =>
    if categories.any fun c => c.toList = name then some (category ⟨g, m⟩) else ofTable name
  | _ => ofTable name
where
  ofTable (name : List Char) : Option CharKind :=
    (Text.namedSets.find? fun s => s.1.toList = name).map fun s => named (Text.readRanges s.2)

/-- The sets that a set stands for: without regard to case, each of the three cases of letters stands
for all of them. -/
def cases (fold : Bool) (k : CharKind) : List CharKind :=
  match fold, k with
  | true, category ⟨'L', m⟩ =>
    if m = 'l' || m = 'u' || m = 't' then
      [category ⟨'L', 'l'⟩, category ⟨'L', 'u'⟩, category ⟨'L', 't'⟩]
    else [k]
  | _, _ => [k]

end CharKind

/-- A class in brackets without what is taken away from it. Its ranges are of code points, which need
not be characters. -/
structure Layer where
  negated : Bool := false
  ranges : List (Nat × Nat) := []
  /-- Named sets, with true for their complement. -/
  kinds : List (CharKind × Bool) := []

namespace Layer

def add (l : Layer) (a b : Nat) : Layer := { l with ranges := l.ranges ++ [(a, b)] }

def addKind (l : Layer) (fold : Bool) (k : CharKind) (negated : Bool) : Layer :=
  { l with kinds := l.kinds ++ (k.cases fold).map fun k => (k, negated) }

/-- The first named set that decides wins: a complement decides for every character, a set only for
its own. -/
def hasKind (c : Char) : List (CharKind × Bool) → Bool
  | [] => false
  | (k, negated) :: ks => if k.has c then !negated else if negated then true else hasKind c ks

def inRanges (l : Layer) (c : Char) : Bool :=
  l.ranges.any fun (a, b) => a ≤ c.toNat && c.toNat ≤ b

/-- Membership; without regard to case a range also holds the characters whose capitals it holds. -/
def has (l : Layer) (fold : Bool) (c : Char) : Bool :=
  let inside := l.inRanges c || (fold && l.inRanges (upper c)) || hasKind c l.kinds
  inside != l.negated

end Layer

/-- A class: each layer is taken away from the one before it. -/
abbrev CharClass := List Layer

namespace CharClass

def has (fold : Bool) : CharClass → Char → Bool
  | [], _ => false
  | l :: ls, c => l.has fold c && !has fold ls c

def ofKind (fold : Bool) (k : CharKind) (negated : Bool) : CharClass :=
  [Layer.addKind {} fold k negated]

/-- Every character but line feeds. -/
def notLineFeed : CharClass := [{ negated := true, ranges := [(10, 10)] }]

def any : CharClass := [{ negated := true }]

end CharClass

end BytecodeMachine.Pattern
