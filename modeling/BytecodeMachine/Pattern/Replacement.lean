import BytecodeMachine.Pattern.Match

/-!
Replacements: texts in which a dollar sign refers to parts of a match.
-/
namespace BytecodeMachine.Pattern

/-- A piece of a replacement. -/
inductive Piece where
  | char (c : Char)
  | group (n : Nat)
  | before
  | after
  | lastGroup
  | whole

namespace Reader

/-- The piece behind a dollar sign; none if it stands for itself. -/
def dollar? : Reader (Option Piece) := do
  let g := (← get).groups
  if (← left) = 0 then return none
  let braced := (← peek 0) = '{' && 1 < (← left)
  if braced then move 1
  let closed : Reader Bool := do
    if !braced then return true
    if 0 < (← left) then return (← next) = '}' else return false
  let c ← peek 0
  if c.isDigit then
    let n ← decimal
    if (← closed) && g.hasNumber n then return some (.group n) else return none
  else if braced then
    if isWordChar c then
      let word ← name
      if ← closed then return (groupNamed? g word).map .group else return none
    else return none
  else
    let piece := match c with
      | '$' => some (Piece.char '$')
      | '&' => some (.group 0)
      | '`' => some .before
      | '\'' => some .after
      | '+' => some .lastGroup
      | '_' => some .whole
      | _ => none
    if piece.isSome then move 1
    return piece

/-- The pieces of a replacement. -/
def pieces : (fuel : Nat) → Reader (List Piece)
  | 0 => return []
  | n + 1 => do
    if (← left) = 0 then return []
    let c ← next
    if c = '$' then
      let start ← place
      match ← dollar? with
      | some p => return p :: (← pieces n)
      | none =>
        goTo start
        return .char '$' :: (← pieces n)
    else return .char c :: (← pieces n)

end Reader

/-- The pieces of a replacement for a pattern with these groups. -/
def replacement (groups : Groups) (source : List Char) : Except PatternError (List Piece) :=
  let text := source.toArray
  ((Reader.pieces (text.size + 1)).run.run { text := text, groups := groups }).1

/-- What a piece stands for in a match. -/
def Piece.expand (groups : Groups) (s : Subject) (t : Track) : Piece → List Char
  | char c => [c]
  | group n => ((t.span? n).map s.slice).getD []
  | before => ((t.span? 0).map fun span => s.slice ⟨0, span.start⟩).getD []
  | after =>
    ((t.span? 0).map fun span => s.slice ⟨span.stop, s.chars.size - span.stop⟩).getD []
  | lastGroup => ((t.span? (groups.numbers.length - 1)).map s.slice).getD []
  | whole => s.chars.toList

end BytecodeMachine.Pattern
