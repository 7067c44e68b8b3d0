import BytecodeMachine.Text.Basic

/-!
The tree that a document describes.
-/
namespace BytecodeMachine.Yaml

/-- A node. An alias carries the node it refers to; an alias to a node that contains it is `open_`
while that node is read, and `cyclic` where it would be followed a second time. -/
inductive Node where
  | scalar (tag : Option Text) (quoted : Bool) (text : Text)
  | sequence (items : List Node)
  | mapping (entries : List (Node × Node))
  | reference (name : Text) (target : Node)
  | open_ (name : Text) (anchor : Nat)
  | cyclic
deriving Inhabited

namespace Node

/-- What stands where nothing is written. -/
def empty : Node := scalar none false []

mutual

/-- Puts a node in the place of the open aliases to an anchor. -/
def fill (anchor : Nat) (by_ : Node) : Node → Node
  | sequence items => sequence (fillItems anchor by_ items)
  | mapping entries => mapping (fillEntries anchor by_ entries)
  | reference name target => reference name (fill anchor by_ target)
  | open_ name a => if a = anchor then reference name by_ else open_ name a
  | n => n

def fillItems (anchor : Nat) (by_ : Node) : List Node → List Node
  | [] => []
  | n :: ns => fill anchor by_ n :: fillItems anchor by_ ns

def fillEntries (anchor : Nat) (by_ : Node) : List (Node × Node) → List (Node × Node)
  | [] => []
  | (k, v) :: es => (fill anchor by_ k, fill anchor by_ v) :: fillEntries anchor by_ es

end

/-- Ends the reading of an anchored node: an alias inside refers to the node, in which the same
alias may not be followed again. -/
def close (anchor : Nat) (n : Node) : Node := fill anchor (fill anchor cyclic n) n

/-- The node behind the aliases, unless they go in a circle. -/
def target? : Node → Option Node
  | reference _ n => target? n
  | open_ _ _ => none
  | cyclic => none
  | n => some n

/-- Two keys are the same key when they are of one kind and written with the same text. -/
def sameKey : Node → Node → Bool
  | scalar _ _ s, scalar _ _ t => s == t
  | sequence _, sequence _ => true
  | mapping _, mapping _ => true
  | reference s _, reference t _ => s == t
  | _, _ => false

def repeatsKey : List (Node × Node) → Bool
  | [] => false
  | (k, _) :: es => es.any (fun e => sameKey k e.1) || repeatsKey es

/-- The key under which the entries of other mappings are taken over. -/
def isMerge : Node → Bool
  | scalar none false s => s == Text.ofString "<<"
  | scalar (some tag) _ s => s == Text.ofString "<<" && tag == Text.ofString "tag:yaml.org,2002:merge"
  | _ => false

end Node

end BytecodeMachine.Yaml
