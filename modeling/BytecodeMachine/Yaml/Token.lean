import BytecodeMachine.Text.Basic

/-!
The tokens of a document.
-/
namespace BytecodeMachine.Yaml

inductive Token where
  | version (major minor : Nat)
  /-- A handle that stands for the beginning of tags. -/
  | handle (name start : Text)
  | documentStart
  | documentEnd
  | blockSequence
  | blockMapping
  | blockEnd
  | flowSequence
  | flowSequenceEnd
  | flowMapping
  | flowMappingEnd
  | entry
  | comma
  | key
  | value
  | reference (name : Text)
  | anchor (name : Text)
  | tag (handle suffix : Text)
  | scalar (quoted : Bool) (text : Text)
  | streamEnd
deriving DecidableEq, Inhabited

/-- The tokens up to the end of the stream or to the first place that cannot be read. -/
structure Tokens where
  items : Array Token
  broken : Bool

/-- The token at an index. Two more tokens have to be readable behind it; the end of the stream
repeats for ever. -/
def Tokens.get? (t : Tokens) (i : Nat) : Option Token :=
  if t.broken && t.items.size < i + 3 then none else some (t.items.getD i .streamEnd)

end BytecodeMachine.Yaml
