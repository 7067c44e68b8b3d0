import BytecodeMachine.Pattern.Scan

/-!
Reading patterns. A first pass counts the groups, so that a reference may come before its group.
-/
namespace BytecodeMachine.Pattern

namespace Reader

/-- What an option letter switches; of no effect are the letters for debugging and Unicode. -/
def option? (c : Char) (on : Bool) (o : Options) : Option Options :=
  match c.toLower with
  | 'i' => some { o with fold := on }
  | 'm' => some { o with multiline := on }
  | 'n' => some { o with explicit := on }
  | 's' => some { o with dotAll := on }
  | 'x' => some { o with spaced := on }
  | 'd' => some o
  | 'u' => some o
  | _ => none

/-- Switches options on and, behind a minus sign, off. -/
def switches : (fuel : Nat) → (on : Bool) → Reader Unit
  | 0, _ => pure ()
  | n + 1, on => do
    if 0 < (← left) then
      let c ← peek 0
      if c = '-' then
        move 1
        switches n false
      else if c = '+' then
        move 1
        switches n true
      else match option? c on (← options) with
        | some o =>
          setOptions o
          move 1
          switches n on
        | none => pure ()

def readSwitches : Reader Unit := do switches ((← left) + 1) true

/-- Takes the next number for a group without one. -/
def takeGroup : Reader Nat := do
  let n := (← get).nextGroup
  modify fun s => { s with nextGroup := n + 1 }
  return n

def noteGroup (n : Nat) : Reader Unit := modify fun s => { s with groups := s.groups.note n }

/-- Notes a name; it gets its number when all groups are known. -/
def noteName (word : List Char) : Reader Unit := modify fun s =>
  if s.groups.names.any fun e => e.1 = word then s
  else { s with groups := { s.groups with names := s.groups.names ++ [(word, 0)] } }

/-- Counts the group that opens here. Returns whether its options outlive it, and whether a condition
follows. -/
def countOpening : Reader (Bool × Bool) := do
  if 0 < (← left) && (← peek 0) = '?' then
    move 1
    if 1 < (← left) && ((← peek 0) = '<' || (← peek 0) = '\'') then
      move 1
      let c ← peek 0
      if c ≠ '0' && isWordChar c then
        if '1' ≤ c && c ≤ '9' then noteGroup (← decimal) else noteName (← name)
      return (false, false)
    else
      readSwitches
      if 0 < (← left) && (← peek 0) = ')' then
        move 1
        return (true, false)
      else return (false, 0 < (← left) && (← peek 0) = '(')
  else
    let s ← get
    if !s.options.explicit && !s.inCondition then noteGroup (← takeGroup)
    return (false, false)

/-- Counts the groups from here on; the options of the groups that are open are kept aside. -/
def countGroups : (fuel : Nat) → (outer : List Options) → Reader Unit
  | 0, _ => pure ()
  | n + 1, outer => do
    if (← left) = 0 then return ()
    let c ← next
    if c = '\\' then
      if 0 < (← left) then quietly (escape true)
      countGroups n outer
    else if c = '#' && (← options).spaced then
      goTo ((← place) - 1)
      quietly blanks
      countGroups n outer
    else if c = '[' then
      quietly (charClass true)
      countGroups n outer
    else if c = ')' then
      match outer with
      | o :: outer =>
        setOptions o
        countGroups n outer
      | [] => countGroups n []
    else if c = '(' then
      if 2 ≤ (← left) && (← peek 0) = '?' && (← peek 1) = '#' then
        goTo ((← place) - 1)
        quietly blanks
        modify fun s => { s with inCondition := false }
        countGroups n outer
      else
        let o ← options
        let (keeps, condition) ← countOpening
        modify fun s => { s with inCondition := condition }
        countGroups n (if keeps then outer else o :: outer)
    else countGroups n outer

/-- The first number from `n` on that is free; so many numbers are taken that `fuel` bounds them. -/
def freeNumber (g : Groups) : (fuel n : Nat) → Nat
  | 0, n => n
  | k + 1, n => if g.hasNumber n then freeNumber g k (n + 1) else n

/-- Numbers the named groups behind all others, in the order of their names. -/
def numberNames (next : Nat) : List (List Char × Nat) → Groups → Groups
  | [], g => g
  | (word, _) :: rest, g =>
    let n := freeNumber g g.numbers.length next
    numberNames (n + 1) rest { g.note n with names := g.names ++ [(word, n)] }

/-- The groups of a pattern. -/
def findGroups : Reader Groups := do
  countGroups ((← left) + 1) []
  let s ← get
  return numberNames s.nextGroup s.groups.names { s.groups with names := [] }

/-- What a parenthesis opens. -/
inductive Opening where
  | plain
  | capture (group undo : Option Nat)
  | look (negated : Bool)
  | atomic
  | ifCaptured (group : Nat)
  | ifMatches

/-- The group of a number or a name that is to be undone. -/
def undoneGroup (close : Char) : Reader Nat := do
  let g := (← get).groups
  if (← left) = 0 then throw .groupName
  let c ← peek 0
  let n ← if c.isDigit then do
      let n ← decimal
      if !g.hasNumber n then throw (.undefinedGroup n)
      pure n
    else if isWordChar c then do
      let word ← name
      match groupNamed? g word with
      | some n => pure n
      | none => throw (.undefinedName (Text.ofChars word))
    else throw .groupName
  if 0 < (← left) && (← peek 0) ≠ close then throw .groupName
  return n

/-- The name of a group up to its closing mark; none if it is not written as one. -/
def namedOpening (close : Char) : Reader (Option Opening) := do
  let g := (← get).groups
  let c ← peek 0
  let checkEnd : Reader Unit := do
    if 0 < (← left) && (← peek 0) ≠ close && (← peek 0) ≠ '-' then throw .groupName
  let group ← if c.isDigit then do
      let n ← decimal
      checkEnd
      if n = 0 then throw .groupZero
      pure (if g.hasNumber n then some n else none)
    else if isWordChar c then do
      let word ← name
      checkEnd
      pure (groupNamed? g word)
    else if c = '-' then pure none
    else throw .groupName
  let undo ← if (group.isSome || c = '-') && 0 < (← left) && (← peek 0) = '-' then do
      move 1
      pure (some (← undoneGroup close))
    else pure none
  if (group.isSome || undo.isSome) && 0 < (← left) then
    if (← next) = close then return some (.capture group undo) else return none
  else return none

/-- The condition of a choice: a group that has matched, or else a pattern of its own. -/
def conditionOpening : Reader Opening := do
  let g := (← get).groups
  let start ← place
  let c ← peek 0
  if 0 < (← left) && c.isDigit then
    let n ← decimal
    if 0 < (← left) && (← next) = ')' then
      if g.hasNumber n then return .ifCaptured n else throw (.undefinedCondition n)
    else throw (.malformedCondition n)
  let named ← if 0 < (← left) && isWordChar c then do
      let word ← name
      match groupNamed? g word with
      | some n => pure (if 0 < (← left) && (← next) = ')' then some n else none)
      | none => pure none
    else pure none
  match named with
  | some n => return .ifCaptured n
  | none =>
    -- No group is named, so the parenthesis opens a pattern of its own.
    goTo (start - 1)
    modify fun s => { s with inCondition := true }
    if 3 ≤ (← left) && (← peek 1) = '?' then
      if (← peek 2) = '#' then throw .conditionComment
      if (← peek 2) = '\'' then throw .conditionCaptures
      if 4 ≤ (← left) && (← peek 2) = '<' && (← peek 3) ≠ '!' && (← peek 3) ≠ '=' then
        throw .conditionCaptures
    return .ifMatches

/-- What the parenthesis that was just read opens; nothing where it only switches options. Inside a
condition it may not switch any. -/
def opening (conditional : Bool) : Reader (Option Opening) := do
  let start ← place
  let fail {α : Type} : Reader α := do throw (.grouping (Text.ofChars (← since start)))
  if (← left) = 0 || (← peek 0) ≠ '?' || (1 < (← left) && (← peek 1) = ')') then
    let s ← get
    if s.options.explicit || s.inCondition then
      set { s with inCondition := false }
      return some .plain
    else return some (.capture (some (← takeGroup)) none)
  move 1
  if (← left) = 0 then fail
  let o ← options
  let c ← next
  match c with
  | ':' => return some .plain
  | '=' =>
    setOptions { o with back := false }
    return some (.look false)
  | '!' =>
    setOptions { o with back := false }
    return some (.look true)
  | '>' => return some .atomic
  | '(' => return some (← conditionOpening)
  | _ =>
    if c = '<' || c = '\'' then
      if (← left) = 0 then fail
      let d ← peek 0
      if d = '=' || d = '!' then
        move 1
        if c = '\'' then fail
        setOptions { o with back := true }
        return some (.look (d = '!'))
      else match ← namedOpening (if c = '<' then '>' else '\'') with
        | some opened => return some opened
        | none => fail
    else
      goTo ((← place) - 1)
      if !conditional then readSwitches
      if (← left) = 0 then fail
      let d ← next
      if d = ')' then return none
      else if d = ':' then return some .plain
      else fail

/-- Whether a repetition stands here. A brace counts only if it encloses bounds. -/
def atRepeat : Reader Bool := do
  let s ← get
  let rest := (s.text.extract s.pos s.text.size).toList
  match rest with
  | '*' :: _ => return true
  | '+' :: _ => return true
  | '?' :: _ => return true
  | '{' :: cs =>
    let digits := cs.takeWhile Char.isDigit
    match cs.drop digits.length with
    | '}' :: _ => return !digits.isEmpty
    | ',' :: cs => return !digits.isEmpty && (cs.dropWhile Char.isDigit).head? = some '}'
    | _ => return false
  | _ => return false

/-- The bounds of the repetition that stands here. -/
def bounds : Reader (Nat × Option Nat) := do
  match ← next with
  | '*' => return (0, none)
  | '+' => return (1, none)
  | '?' => return (0, some 1)
  | _ =>
    let low ← decimal
    let high ← if (← peek 0) = ',' then do
        move 1
        if (← peek 0) = '}' then pure numberLimit else decimal
      else pure low
    move 1
    -- The greatest number stands for no bound.
    return (low, if high = numberLimit then none else some high)

/-- Signs that do not stand for themselves. -/
def isSign (c : Char) : Bool := "[\\^$.".toList.contains c

/-- Puts the repetition behind a part around it, and tells whether there was one. A comment that is
not closed behind a plain character reaches to the end. -/
def repeated (plain : Bool) (part : Node) : Reader (Node × Bool) := do
  if plain then quietly blanks else blanks
  if ← atRepeat then
    let (low, high) ← bounds
    blanks
    let isLazy := 0 < (← left) && (← peek 0) = '?'
    if isLazy then move 1
    match high with
    | some h => if h < low then throw .repeatCount
    | none => pure ()
    return (.loop isLazy low high part, true)
  else return (part, false)

/-- Parts one after the other; read backward, the last comes first. -/
def sequenceOf (back : Bool) (newestFirst : List Node) : Node :=
  match if back then newestFirst else newestFirst.reverse with
  | [] => .empty
  | [n] => n
  | ns => .sequence ns

def choiceOf : List Node → Node
  | [n] => n
  | ns => .choice ns

/-- The part of a single sign or character, which has been read. -/
def single (c : Char) : Reader Node := do
  let o ← options
  match c with
  | '[' => return .set (← charClass false) o.fold o.back
  | '\\' => escape false
  | '^' => return .anchor (if o.multiline then .lineStart else .beginning)
  | '$' => return .anchor (if o.multiline then .lineEnd else .lastLineEnd)
  | '.' => return .set (if o.dotAll then CharClass.any else CharClass.notLineFeed) false o.back
  | c => return charNode o c.toNat

/-- The parts of a choice under a condition. -/
def branches : List Node → Option (Node × Node)
  | [] => some (.empty, .empty)
  | [yes] => some (yes, .empty)
  | [yes, no] => some (yes, no)
  | _ => none

/-- The node of a group with its alternatives. -/
def close (condition : Node) (alternatives : List Node) : Opening → Reader Node
  | .plain => return choiceOf alternatives
  | .capture group undo => return .capture group undo (choiceOf alternatives)
  | .look negated => return .look negated (choiceOf alternatives)
  | .atomic => return .atomic (choiceOf alternatives)
  | .ifCaptured n =>
    match branches alternatives with
    | some (yes, no) => return .ifCaptured n yes no
    | none => throw .tooManyAlternates
  | .ifMatches =>
    match branches alternatives with
    | some (yes, no) => return .ifMatches condition yes no
    | none => throw .tooManyAlternates

/-- The alternatives up to a closing parenthesis or the end: the parts of the current one and the
finished ones, newest first. -/
def alternatives : (fuel : Nat) → (afterRepeat : Bool) → (parts done : List Node) →
    Reader (List Node)
  | 0, _, _, done => return done.reverse
  | n + 1, afterRepeat, parts, done => do
    blanks
    let o ← options
    let finished := (sequenceOf o.back parts :: done).reverse
    if (← left) = 0 || (← peek 0) = ')' then return finished
    if ← atRepeat then throw (if afterRepeat then .nestedRepeat else .missingRepeatArgument)
    match ← next with
    | '|' => alternatives n false [] (sequenceOf o.back parts :: done)
    | '(' =>
      match ← opening false with
      | none => alternatives n false parts done
      | some opened =>
        let part ← enclosed n opened
        -- What was switched inside a group ends with it.
        setOptions o
        let (part, again) ← repeated false part
        alternatives n again (part :: parts) done
    | c =>
      let (part, again) ← repeated (!isSign c) (← single c)
      alternatives n again (part :: parts) done
termination_by fuel => (fuel, 0)
where
  /-- The inside of a group up to its closing parenthesis. -/
  enclosed (n : Nat) (opened : Opening) : Reader Node := do
    let condition ← match opened with
      | .ifMatches => do
        let o ← options
        move 1
        match ← opening true with
        | some inner =>
          let alts ← alternatives n false [] []
          closing
          setOptions o
          close .empty alts inner
        | none => pure .empty
      | _ => pure .empty
    let alts ← alternatives n false [] []
    closing
    close condition alts opened
  termination_by (n, 1)
  closing : Reader Unit := do
    if (← left) = 0 then throw .missingParen
    move 1

/-- A whole pattern. -/
def whole : Reader Node := do
  let alts ← alternatives ((← left) + 2) false [] []
  if 0 < (← left) then throw .unexpectedParen
  return choiceOf alts

end Reader

/-- The groups and the syntax of a pattern. -/
def parse (source : List Char) : Except PatternError (Groups × Node) := do
  let text := source.toArray
  let (groups, _) := Reader.findGroups.run.run { text := text }
  let groups ← groups
  let (node, _) := Reader.whole.run.run { text := text, groups := groups }
  return (groups, ← node)

end BytecodeMachine.Pattern
