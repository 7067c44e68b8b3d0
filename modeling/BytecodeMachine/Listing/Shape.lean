import BytecodeMachine.Program.Table
import BytecodeMachine.Yaml.Document
import BytecodeMachine.Yaml.Scalar

/-!
Reading values of a known shape out of a document. A part of another shape is noted and left out,
so that a later part that cannot be read at all still counts as malformed.
-/
namespace BytecodeMachine.Listing

open Yaml (Node Scalar)

/-- A reading: it fails on a malformed document, and its flag tells that some part has another
shape. -/
abbrev Shape := StateT Bool Option

namespace Shape

/-- Notes a part of another shape. -/
def mismatch {α : Type} : Shape (Option α) := do
  set true
  return none

/-- The value of a node that has to be a scalar, null excepted. -/
def scalar {α : Type} (accept : Text → Scalar → Option α) (n : Node) : Shape (Option α) := do
  match ← (n.target? : Option Node) with
  | .scalar tag quoted text =>
    match ← (Scalar.ofNode? tag quoted text : Option Scalar) with
    | .null => return none
    | s =>
      match accept text s with
      | some a => return some a
      | none => mismatch
  | _ => mismatch

/-- Every scalar is a text, as it is written. -/
def text : Node → Shape (Option Text) :=
  scalar fun raw s => some (match s with
    | .text t => t
    | _ => raw)

/-- A number within bounds; a fraction is cut off, and a number out of the range of words becomes
the least of them. -/
def int (bits : Nat) : Node → Shape (Option Int) :=
  let within (n : Int) : Option Int :=
    if -(twoTo (bits - 1) : Int) ≤ n && n < (twoTo (bits - 1) : Int) then some n else none
  scalar fun _ s => match s with
    | .int n => within n
    | .float x =>
      match x.truncate? with
      | some n =>
        if (twoTo 63 : Int) < n then none
        else within (if -(twoTo 63 : Int) ≤ n && n < (twoTo 63 : Int) then n else -(twoTo 63 : Int))
      | none => if x.isInfinite && x.isNegative then within (-(twoTo 63 : Int)) else none
    | _ => none

def float : Node → Shape (Option Binary64) :=
  scalar fun _ s => match s with
    | .int n => some (.ofInt n)
    | .float x => some x
    | _ => none

/-- Truth values; some words stand for them too. -/
def bool : Node → Shape (Option Bool) :=
  scalar fun _ s => match s with
    | .bool b => some b
    | .text t =>
      if ["y", "Y", "yes", "on"].any fun w => Text.ofString w = t then some true
      else if ["n", "N", "no", "off"].any fun w => Text.ofString w = t then some false
      else none
    | _ => none

/-- Whether a node is null. -/
def isNull (n : Node) : Bool :=
  match n.target? with
  | some (.scalar tag quoted s) => Scalar.ofNode? tag quoted s == some .null
  | _ => false

/-- The items of a sequence, without those that are null; null itself is empty. -/
def items {α : Type} (item : Node → Shape (Option α)) (n : Node) : Shape (Option (List α)) := do
  match ← (n.target? : Option Node) with
  | .sequence ns => return some (← ns.filterMapM item)
  | .scalar tag quoted text =>
    match ← (Scalar.ofNode? tag quoted text : Option Scalar) with
    | .null => return some []
    | _ => mismatch
  | .mapping _ => mismatch
  | _ => failure

/-- A part that may be null. -/
def optional {α : Type} (part : Node → Shape (Option α)) (n : Node) : Shape (Option (Option α)) := do
  if isNull n then return some none
  return (← part n).map some

/-- The mappings that a merge takes over: one mapping or a sequence of them. -/
def merged : Node → Option (List Node)
  | .sequence ns => ns.mapM mapping
  | n => (mapping n).map fun m => [m]
where
  mapping (n : Node) : Option Node := do
    match ← n.target? with
    | .mapping es => some (.mapping es)
    | _ => none

/-- The named parts of a mapping in the order in which they count: those of the mapping itself, then
those it takes over from others. Null is no mapping. The number bounds how deep mappings take over
from each other. -/
def fields : (fuel : Nat) → Node → Shape (Option (List (Text × Node)))
  | 0, _ => failure
  | k + 1, n => do
    match ← (n.target? : Option Node) with
    | .mapping es =>
      if Node.repeatsKey es then mismatch
      else
        let own ← es.filterMapM fun (key, value) => do
          if key.isMerge then return none
          return (← text key).map fun name => (name, value)
        match (es.filter fun e => e.1.isMerge).getLast? with
        | none => return some own
        | some (_, source) =>
          let others ← (merged source : Option (List Node))
          let taken ← others.mapM fun m => return (← fields k m).getD []
          return some (own ++ taken.flatten)
    | .scalar tag quoted s =>
      match ← (Scalar.ofNode? tag quoted s : Option Scalar) with
      | .null => return none
      | _ => mismatch
    | _ => mismatch

/-- How deep mappings may take over from each other. -/
def mergeLimit : Nat := 10000

/-- A table of parts of one shape; a part that is null is `missing`. -/
def table {α : Type} (part : Node → Shape (Option α)) (missing : α) (n : Node) :
    Shape (Option (Table α)) := do
  if isNull n then return some {}
  match ← fields mergeLimit n with
  | none => return none
  | some fs =>
    let entries ← fs.filterMapM fun (name, value) => do
      match ← part value with
      | some a => return some (name, a)
      | none => return if isNull value then some (name, missing) else none
    return some (entries.foldr (fun (name, a) t => t.insert name a) {})

/-- A named part, where there is one. -/
def part? {α : Type} (fs : List (Text × Node)) (name : String) (part : Node → Shape (Option α)) :
    Shape (Option α) :=
  match fs.lookup (Text.ofString name) with
  | some n => part n
  | none => return none

/-- A named part with a value to take where there is none. -/
def part {α : Type} (fs : List (Text × Node)) (name : String) (part : Node → Shape (Option α))
    (missing : α) : Shape α :=
  return (← part? fs name part).getD missing

end Shape

end BytecodeMachine.Listing
