import BytecodeMachine.Machine.Step

/-! Structured programs with blocks, loops, functions and protected regions, and what they mean. The
meaning is given directly, statement by statement, with no regard to how a machine carries it out:
an exception goes to the catch block around it, and a finally block is run on every way out. -/
namespace BytecodeMachine.Structured

/-- A constant, with the value it denotes. -/
structure Const where
  lit : Literal
  value : Value
  denotes : Machine.literal (some lit) = .ok value

/-- Statements of a program with `n` functions. Only `inLoop` there is a loop to break off or to
continue. -/
inductive Stmt (n : Nat) : (inLoop : Bool) → Type
  | skip {l : Bool} : Stmt n l
  | seq {l : Bool} (s t : Stmt n l) : Stmt n l
  | print {l : Bool} (c : Const) : Stmt n l
  /-- Binds a variable in the scope at hand. -/
  | declare {l : Bool} (x : Text) (c : Const) : Stmt n l
  /-- Changes the nearest binding of a variable. -/
  | assign {l : Bool} (x : Text) (c : Const) : Stmt n l
  | ifVar {l : Bool} (x : Text) (s t : Stmt n l) : Stmt n l
  | throw {l : Bool} (c : Const) : Stmt n l
  | ret {l : Bool} (c : Const) : Stmt n l
  | call {l : Bool} (f : Fin n) : Stmt n l
  | block {l : Bool} (s : Stmt n l) : Stmt n l
  | loop {l : Bool} (s : Stmt n true) : Stmt n l
  | breakLoop : Stmt n true
  | continueLoop : Stmt n true
  | tryCatch {l : Bool} (s t : Stmt n l) : Stmt n l
  | tryFinally {l : Bool} (s u : Stmt n l) : Stmt n l
  | tryCatchFinally {l : Bool} (s t u : Stmt n l) : Stmt n l

/-- A program: functions without parameters, by their names, and a main part. -/
structure Source where
  names : List Text
  nodup : names.Nodup
  body : Fin names.length → Stmt names.length false
  main : Stmt names.length false

/-- What an exception carries, apart from its place. -/
structure Raised where
  kind : Text
  message : Text
  payload : Value
deriving DecidableEq

def Raised.of (cause : ErrorCause) (payload : Value) : Raised := ⟨cause.kind, cause.message, payload⟩

/-- How a statement comes to its end. -/
inductive Outcome : (inLoop : Bool) → Type
  | normal {l : Bool} : Outcome l
  | thrown {l : Bool} (e : Raised) : Outcome l
  | returned {l : Bool} (v : Value) : Outcome l
  | broken : Outcome true
  | continued : Outcome true

/-- The end of a finally block lets what came before it go on; any other way out of it does not. -/
def Outcome.over {l : Bool} (before : Outcome l) : Outcome l → Outcome l
  | .normal => before
  | o => o

abbrev Vars := List (Text × Const)

/-- The printed lines, the newest first, and the variables: those of the open scopes of the function
at hand, the innermost first, and the global ones. -/
structure State where
  printed : List Text := []
  locals : List Vars := []
  globals : Vars := []

namespace State

def lookupIn (x : Text) (globals : Vars) : List Vars → Option Const
  | [] => globals.lookup x
  | vs :: rest =>
    match vs.lookup x with
    | some c => some c
    | none => lookupIn x globals rest

def lookup? (σ : State) (x : Text) : Option Const := lookupIn x σ.globals σ.locals

def declare (σ : State) (x : Text) (c : Const) : State :=
  match σ.locals with
  | [] => { σ with globals := bind x c σ.globals }
  | vs :: rest => { σ with locals := bind x c vs :: rest }

def assignIn (x : Text) (c : Const) (globals : Vars) : List Vars → Option (List Vars × Vars)
  | [] => if (globals.lookup x).isSome then some ([], bind x c globals) else none
  | vs :: rest =>
    if (vs.lookup x).isSome then some (bind x c vs :: rest, globals)
    else (assignIn x c globals rest).map fun r => (vs :: r.1, r.2)

def assign? (σ : State) (x : Text) (c : Const) : Option State :=
  (assignIn x c σ.globals σ.locals).map fun r => { σ with locals := r.1, globals := r.2 }

def enter (σ : State) : State := { σ with locals := [] :: σ.locals }

def leave (σ : State) : State := { σ with locals := σ.locals.tail }

end State

/-- The text of a constant, which refers to nothing. -/
def Const.text (c : Const) : Text := ({} : Store).text c.value

def Const.isTrue (c : Const) : Bool := ({} : Store).truthy c.value

/-- What a program is run in: the functions it may call, the names defined outside of it, and how
many calls may be under way at a time. -/
structure Surroundings (n : Nat) where
  body : Fin n → Stmt n false
  defines : Text → Bool
  maxCallDepth : Nat

/-- The outcome of a statement and the state it leaves, none where that takes too long. -/
abbrev Result (l : Bool) := Option (Outcome l × State)

namespace Stmt

variable {n : Nat}

/-- One statement at a call depth. `again` is what loops go round with and functions are called
with. -/
@[simp]
def execWith (S : Surroundings n)
    (again : (l : Bool) → Stmt n l → (depth : Nat) → State → Result l) :
    {l : Bool} → Stmt n l → (depth : Nat) → State → Result l
  | _, .skip, _, σ => some (.normal, σ)
  | _, .seq s t, d, σ =>
    (execWith S again s d σ).bind fun
      | (.normal, σ) => execWith S again t d σ
      | r => some r
  | _, .print c, _, σ => some (.normal, { σ with printed := c.text :: σ.printed })
  | _, .declare x c, _, σ => some (.normal, σ.declare x c)
  | _, .assign x c, _, σ =>
    match σ.assign? x c with
    | some σ => some (.normal, σ)
    | none => some (.thrown (.of (.undeclaredVariable x) .null), σ)
  | _, .ifVar x s t, d, σ =>
    match σ.lookup? x with
    | some c => if c.isTrue then execWith S again s d σ else execWith S again t d σ
    -- A function is always true.
    | none =>
      if S.defines x then execWith S again s d σ
      else some (.thrown (.of (.undefinedName x) .null), σ)
  | _, .throw c, _, σ => some (.thrown (.of (.thrown c.text) c.value), σ)
  | _, .ret c, _, σ => some (.returned c.value, σ)
  | _, .call f, d, σ =>
    if S.maxCallDepth ≤ d then some (.thrown (.of (.callDepth S.maxCallDepth) .null), σ)
    else
      (again false (S.body f) (d + 1) { σ with locals := [[]] }).bind fun
        | (.thrown e, σ') => some (.thrown e, { σ' with locals := σ.locals })
        | (.normal, σ') | (.returned _, σ') => some (.normal, { σ' with locals := σ.locals })
  | _, .block s, d, σ => (execWith S again s d σ.enter).map fun r => (r.1, r.2.leave)
  | l, .loop s, d, σ =>
    (execWith S again s d σ.enter).bind fun
      | (.normal, σ) | (.continued, σ) => again l (.loop s) d σ.leave
      | (.broken, σ) => some (.normal, σ.leave)
      | (.thrown e, σ) => some (.thrown e, σ.leave)
      | (.returned v, σ) => some (.returned v, σ.leave)
  | _, .breakLoop, _, σ => some (.broken, σ)
  | _, .continueLoop, _, σ => some (.continued, σ)
  | _, .tryCatch s t, d, σ =>
    (execWith S again s d σ).bind fun
      | (.thrown _, σ) => execWith S again t d σ
      | r => some r
  | _, .tryFinally s u, d, σ =>
    (execWith S again s d σ).bind fun r =>
      (execWith S again u d r.2).map fun r' => (r.1.over r'.1, r'.2)
  | _, .tryCatchFinally s t u, d, σ =>
    ((execWith S again s d σ).bind fun
      | (.thrown _, σ) => execWith S again t d σ
      | r => some r).bind fun r =>
        (execWith S again u d r.2).map fun r' => (r.1.over r'.1, r'.2)

/-- The meaning of a statement, as far as it shows when loops go round and functions are called at
most `clock` times on any way into it. -/
def exec (S : Surroundings n) :
    (clock : Nat) → (l : Bool) → Stmt n l → (depth : Nat) → State → Result l
  | 0, _, s => s.execWith S fun _ _ _ _ => none
  | clock + 1, _, s => s.execWith S (exec S clock)

end Stmt

/-- How a program ends. -/
inductive Final where
  | value (v : Value)
  | uncaught (e : Raised)
deriving DecidableEq

/-- What comes to the end of a program without being caught or run over. -/
def Outcome.final : Outcome false → Final
  | .normal => .value .null
  | .returned v => .value v
  | .thrown e => .uncaught e

/-- The printed text: every line with its end. -/
def State.output (σ : State) : Text := (σ.printed.reverse.map (· ++ [10])).flatten

/-- How a program ends and what it prints, as far as it shows within `clock`. -/
def Source.eval (p : Source) (defines : Text → Bool) (maxCallDepth clock : Nat) :
    Option (Final × Text) :=
  (Stmt.exec ⟨p.body, defines, maxCallDepth⟩ clock false p.main 0 {}).map fun r =>
    (r.1.final, r.2.output)

end BytecodeMachine.Structured
