import BytecodeMachine.Pattern.Parse

/-!
Matching by trying the ways of a pattern one after the other. The first way that leads to a match of
the whole counts, which makes repetitions take as much as they can, or as little if they are lazy.
-/
namespace BytecodeMachine.Pattern

/-- The characters to match and where the search begins. -/
structure Subject where
  chars : Array Char
  start : Nat := 0

/-- What a group has taken: from a place on, so many characters. -/
structure Span where
  start : Nat
  size : Nat
deriving DecidableEq

def Span.stop (s : Span) : Nat := s.start + s.size

/-- A state of matching: the place and what the groups have taken, newest first. -/
structure Track where
  pos : Nat
  taken : List (Nat × Span) := []

namespace Track

/-- What a group has taken last. -/
def span? (t : Track) (group : Nat) : Option Span := t.taken.lookup group

def take (t : Track) (group : Nat) (s : Span) : Track := { t with taken := (group, s) :: t.taken }

/-- Forgets what a group has taken last. -/
def forget (t : Track) (group : Nat) : Track :=
  { t with taken := t.taken.eraseP fun e => e.1 = group }

end Track

/-- What remains to be matched. -/
abbrev Goal := Track → Option Track

/-- One way and, if it fails, another. -/
def orElse (first : Option Track) (second : Unit → Option Track) : Option Track :=
  match first with
  | some t => some t
  | none => second ()

namespace Subject

/-- Takes one character in the direction of reading. -/
def step (s : Subject) (back : Bool) (accept : Char → Bool) (k : Goal) (t : Track) : Option Track :=
  if back then
    if t.pos = 0 then none
    else match s.chars[t.pos - 1]? with
      | some c => if accept c then k { t with pos := t.pos - 1 } else none
      | none => none
  else match s.chars[t.pos]? with
    | some c => if accept c then k { t with pos := t.pos + 1 } else none
    | none => none

def isWordAt (s : Subject) (i : Nat) : Bool := ((s.chars[i]?).map isWordChar).getD false

def atBoundary (s : Subject) (pos : Nat) : Bool :=
  (0 < pos && s.isWordAt (pos - 1)) != s.isWordAt pos

/-- Whether an anchor holds at a place. -/
def holds (s : Subject) (pos : Nat) : Anchor → Bool
  | .beginning => pos = 0
  | .lineStart => pos = 0 || s.chars[pos - 1]? = some '\n'
  | .lineEnd => pos = s.chars.size || s.chars[pos]? = some '\n'
  | .lastLineEnd =>
    pos = s.chars.size || (pos + 1 = s.chars.size && s.chars[pos]? = some '\n')
  | .ending => pos = s.chars.size
  | .searchStart => pos = s.start
  | .boundary => s.atBoundary pos
  | .noBoundary => !s.atBoundary pos

def slice (s : Subject) (span : Span) : List Char := (s.chars.extract span.start span.stop).toList

/-- Takes the same characters again that a group has taken. -/
def again (s : Subject) (span : Span) (fold back : Bool) (k : Goal) (t : Track) : Option Track :=
  let plain (cs : List Char) : List Char := if fold then cs.map lower else cs
  if back then
    if t.pos < span.size then none
    else if plain (s.slice ⟨t.pos - span.size, span.size⟩) = plain (s.slice span) then
      k { t with pos := t.pos - span.size }
    else none
  else if s.chars.size < t.pos + span.size then none
  else if plain (s.slice ⟨t.pos, span.size⟩) = plain (s.slice span) then
    k { t with pos := t.pos + span.size }
  else none

end Subject

/-- The span between two places in either order. -/
def Span.between (a b : Nat) : Span := ⟨min a b, max a b - min a b⟩

/-- The part of a new span that lies between it and an undone one. -/
def Span.innermost (s undone : Span) : Span :=
  if undone.stop ≤ s.start then ⟨undone.stop, s.start - undone.stop⟩
  else if s.stop ≤ undone.start then ⟨undone.start, s.stop - undone.start⟩
  else
    let start := max s.start undone.start
    ⟨start, min s.stop undone.stop - start⟩

/-- Ends a group that began at a place. A group to be undone has to have taken something. -/
def finish (group undo : Option Nat) (began : Nat) (t : Track) : Option Track :=
  let span := Span.between began t.pos
  match undo with
  | none => some ((group.map fun g => t.take g span).getD t)
  | some u =>
    (t.span? u).map fun undone =>
      let t := t.forget u
      (group.map fun g => t.take g (span.innermost undone)).getD t

/-- Repeats as often as possible. `count` is how often beyond the least number, negative before that;
a repetition that takes nothing is the last. -/
def repeatMany (body : Goal → Goal) (most : Option Nat) (k : Goal) :
    (fuel : Nat) → (count : Int) → (mark : Option Nat) → Goal
  | 0, _, _, _ => none
  | n + 1, count, mark, t =>
    let full := match most with
      | some m => (m : Int) ≤ count
      | none => false
    -- An empty round changes nothing, so further rounds would not either.
    if full || (mark = some t.pos && 0 ≤ count) then k t
    else orElse (body (repeatMany body most k n (count + 1) (some t.pos)) t)
      fun _ => if 0 ≤ count then k t else none

/-- Repeats as rarely as possible. -/
def repeatFew (body : Goal → Goal) (most : Option Nat) (k : Goal) :
    (fuel : Nat) → (count : Int) → (mark : Option Nat) → Goal
  | 0, _, _, _ => none
  | n + 1, count, mark, t =>
    let once := fun (_ : Unit) => body (repeatFew body most k n (count + 1) (some t.pos)) t
    let open_ := match most with
      | some m => count < (m : Int)
      | none => true
    if count < 0 then once ()
    else orElse (k t) fun _ => if open_ && mark ≠ some t.pos then once () else none

/-- Repeats a part between its bounds; the subject's size bounds how often that takes something. -/
def repeatPart (isLazy : Bool) (least : Nat) (most : Option Nat) (size : Nat) (body : Goal → Goal)
    (k : Goal) : Goal := fun t =>
  let beyond := most.map (· - least)
  let fuel := least + size + 2
  let go := if isLazy then repeatFew body beyond k fuel else repeatMany body beyond k fuel
  if least = 0 then go 0 none t else body (go (1 - (least : Int)) (some t.pos)) t

mutual

/-- Matches a pattern and then what remains. -/
def run (s : Subject) : Node → Goal → Goal
  | .empty, k => k
  | .char code fold back, k =>
    s.step back (fun c => (if fold then lower c else c).toNat = code) k
  | .set cls fold back, k =>
    s.step back (fun c => cls.has fold (if fold then lower c else c)) k
  | .reference g fold back, k => fun t =>
    match t.span? g with
    | some span => s.again span fold back k t
    | none => none
  | .anchor a, k => fun t => if s.holds t.pos a then k t else none
  | .sequence parts, k => runAll s parts k
  | .choice options, k => runAny s options k
  | .loop isLazy least most body, k =>
    repeatPart isLazy least most s.chars.size (fun k => run s body k) k
  | .capture group undo body, k => fun t =>
    run s body (fun t' => (finish group undo t.pos t') >>= k) t
  | .look negated body, k => fun t =>
    match run s body some t with
    -- What the groups took while looking stays, the place does not.
    | some t' => if negated then none else k { t' with pos := t.pos }
    | none => if negated then k t else none
  | .atomic body, k => fun t =>
    match run s body some t with
    | some t' => k t'
    | none => none
  | .ifCaptured g yes no, k => fun t => if (t.span? g).isSome then run s yes k t else run s no k t
  | .ifMatches condition yes no, k => fun t =>
    match run s condition some t with
    | some t' => run s yes k { t' with pos := t.pos }
    | none => run s no k t

def runAll (s : Subject) : List Node → Goal → Goal
  | [], k => k
  | n :: ns, k => run s n (runAll s ns k)

def runAny (s : Subject) : List Node → Goal → Goal
  | [], _ => fun _ => none
  | n :: ns, k => fun t => orElse (run s n k t) fun _ => runAny s ns k t

end

/-- The first match from a place on, with group zero for the whole of it. -/
def search (root : Node) (s : Subject) : (fuel : Nat) → (pos : Nat) → Option Track
  | 0, _ => none
  | n + 1, pos =>
    match run s (.capture (some 0) none root) some { pos := pos } with
    | some t => some t
    | none => if pos < s.chars.size then search root s n (pos + 1) else none

/-- The first match of a search that begins at a place. -/
def matchFrom (root : Node) (chars : Array Char) (start : Nat) : Option Track :=
  search root { chars := chars, start := start } (chars.size - start + 1) start

/-- All matches from a place on. After an empty match the search begins one character later. -/
def matchesFrom (root : Node) (chars : Array Char) : (fuel : Nat) → (start : Nat) → List Track
  | 0, _ => []
  | n + 1, start =>
    match matchFrom root chars start with
    | none => []
    | some t =>
      match t.span? 0 with
      | none => []
      | some span =>
        if span.size = 0 then
          if span.start = chars.size then [t] else t :: matchesFrom root chars n (span.start + 1)
        else t :: matchesFrom root chars n span.stop

end BytecodeMachine.Pattern
