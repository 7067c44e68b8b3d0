import BytecodeMachine.Pattern.Replacement

/-!
Patterns that texts are searched for.
-/
namespace BytecodeMachine

/-- A pattern that has been read. -/
structure Pattern where
  groups : Pattern.Groups
  root : Pattern.Node

namespace Pattern

/-- Reads a pattern, or tells why it cannot be read. -/
def compile (source : Text) : Except Text Pattern :=
  match parse (Text.chars source) with
  | .ok (groups, root) => .ok ⟨groups, root⟩
  | .error e => .error (e.report source)

/-- Whether a text has a match anywhere. -/
def isMatch (p : Pattern) (s : Text) : Bool :=
  (matchFrom p.root (Text.chars s).toArray 0).isSome

/-- Puts pieces in the place of matches, from a place on. -/
def splice (p : Pattern) (s : Subject) (pieces : List Piece) : (from_ : Nat) → List Track → List Char
  | from_, [] => s.slice ⟨from_, s.chars.size - from_⟩
  | from_, t :: ts =>
    match t.span? 0 with
    | none => splice p s pieces from_ ts
    | some span =>
      s.slice ⟨from_, span.start - from_⟩ ++ pieces.flatMap (Piece.expand p.groups s t)
        ++ splice p s pieces span.stop ts

/-- Replaces every match; a text without any stays as it is. -/
def replace (p : Pattern) (s new : Text) : Except Text Text :=
  match replacement p.groups (Text.chars new) with
  | .error e => .error (e.report new)
  | .ok pieces =>
    let chars := (Text.chars s).toArray
    match matchesFrom p.root chars (chars.size + 2) 0 with
    | [] => .ok s
    | ts => .ok (Text.ofChars (p.splice { chars := chars } pieces 0 ts))

end Pattern

end BytecodeMachine
