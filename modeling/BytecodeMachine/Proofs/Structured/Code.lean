import BytecodeMachine.Machine.Session
import BytecodeMachine.Proofs.Structured.Source

/-! The code of structured programs. Addresses are computed from the sizes of the parts, so the code
of a statement depends on where it stands and on the loop around it. -/
namespace BytecodeMachine.Structured

/-- The way out of the loop around a statement: its first address, the one behind it, and how many
scopes are open between the loop's entry and the statement. -/
structure Exits where
  top : Nat
  out : Nat
  scopes : Nat

def Exits.deeper (x : Exits) : Exits := { x with scopes := x.scopes + 1 }

section Instructions

def plain (op : Opcode) : Instruction := { op := op.code }

def named (op : Opcode) (x : Text) : Instruction := { op := op.code, operand := { name := x } }

def pushing (c : Const) : Instruction :=
  { op := Opcode.pushConst.code, operand := { lit := some c.lit } }

def jumping (op : Opcode) (target : Nat) : Instruction :=
  { op := op.code, operand := { int := .ofNat target } }

def leaving (target scopes : Nat) : Instruction :=
  { op := Opcode.leave.code, operand := { int := .ofNat target, int2 := .ofNat scopes } }

/-- The start of a protected region; a handler that is missing has a negative address. -/
def trying (catchAt finallyAt : Option Nat) : Instruction :=
  { op := Opcode.tryPush.code
    operand :=
      { int := catchAt.elim (-1) Int64.ofNat
        int2 := finallyAt.elim (-1) Int64.ofNat } }

end Instructions

namespace Stmt

variable {n : Nat}

/-- The number of instructions of a statement. -/
@[simp]
def size : {l : Bool} → Stmt n l → Nat
  | _, .skip => 0
  | _, .seq s t => s.size + t.size
  | _, .print _ | _, .declare _ _ | _, .assign _ _ | _, .throw _ | _, .ret _ | _, .call _ => 2
  | _, .ifVar _ s t => s.size + t.size + 3
  | _, .block s => s.size + 2
  | _, .loop s => s.size + 3
  | _, .breakLoop | _, .continueLoop => 1
  | _, .tryCatch s t => s.size + t.size + 5
  | _, .tryFinally s u => s.size + u.size + 2
  | _, .tryCatchFinally s t u => s.size + t.size + u.size + 4

/-- The instructions of a statement at address `a`. -/
@[simp]
def code (name : Fin n → Text) : {l : Bool} → Stmt n l → (a : Nat) → Exits → List Instruction
  | _, .skip, _, _ => []
  | _, .seq s t, a, x => s.code name a x ++ t.code name (a + s.size) x
  | _, .print c, _, _ => [pushing c, plain .print]
  | _, .declare v c, _, _ => [pushing c, named .varDecl v]
  | _, .assign v c, _, _ => [pushing c, named .storeVar v]
  | _, .ifVar v s t, a, x =>
    named .loadVar v :: jumping .jumpIfFalse (a + s.size + 3) :: (s.code name (a + 2) x
      ++ jumping .jump (a + s.size + t.size + 3) :: t.code name (a + s.size + 3) x)
  | _, .throw c, _, _ => [pushing c, plain .throw]
  | _, .ret c, _, _ => [pushing c, plain .ret]
  | _, .call f, _, _ => [named .call (name f), plain .pop]
  | _, .block s, a, x => plain .pushScope :: (s.code name (a + 1) x.deeper ++ [plain .popScope])
  | _, .loop s, a, _ =>
    plain .pushScope :: (s.code name (a + 1) ⟨a, a + s.size + 3, 1⟩
      ++ [plain .popScope, jumping .jump a])
  | _, .breakLoop, _, x => [leaving x.out x.scopes]
  | _, .continueLoop, _, x => [leaving x.top x.scopes]
  | _, .tryCatch s t, a, x =>
    trying (some (a + s.size + 3)) none :: (s.code name (a + 1) x
      ++ plain .tryPop :: jumping .jump (a + s.size + t.size + 5) :: plain .pop
        :: (t.code name (a + s.size + 4) x ++ [plain .tryPop]))
  | _, .tryFinally s u, a, x =>
    trying none (some (a + s.size + 1)) :: (s.code name (a + 1) x
      ++ (u.code name (a + s.size + 1) x ++ [plain .endFinally]))
  | _, .tryCatchFinally s t u, a, x =>
    trying (some (a + s.size + 2)) (some (a + s.size + t.size + 3)) :: (s.code name (a + 1) x
      ++ jumping .jump (a + s.size + t.size + 3) :: plain .pop
        :: (t.code name (a + s.size + 3) x
          ++ (u.code name (a + s.size + t.size + 3) x ++ [plain .endFinally])))

theorem length_code (name : Fin n → Text) {l : Bool} (s : Stmt n l) (a : Nat) (x : Exits) :
    (s.code name a x).length = s.size := by
  induction s generalizing a x with
  | skip => rfl
  | seq s t hs ht => simp [hs, ht]
  | print | declare | assign | throw | ret | call | breakLoop | continueLoop => rfl
  | ifVar v s t hs ht =>
    simp [hs, ht]
    omega
  | block s hs => simp [hs]
  | loop s hs => simp [hs]
  | tryCatch s t hs ht =>
    simp [hs, ht]
    omega
  | tryFinally s u hs hu =>
    simp [hs, hu]
    omega
  | tryCatchFinally s t u hs ht hu =>
    simp [hs, ht, hu]
    omega

end Stmt

/-- The code of functions one after the other; each gives null back at its end. -/
def functionsCode {n : Nat} (name : Fin n → Text) : List (Stmt n false) → (a : Nat) → List Instruction
  | [], _ => []
  | s :: rest, a =>
    s.code name a ⟨0, 0, 0⟩ ++ plain .pushNull :: plain .ret
      :: functionsCode name rest (a + s.size + 2)

/-- The addresses at which functions start that stand one after the other. -/
def entries {n : Nat} : List (Stmt n false) → (a : Nat) → List Nat
  | [], _ => []
  | s :: rest, a => a :: entries rest (a + s.size + 2)

namespace Source

variable (p : Source)

def name (f : Fin p.names.length) : Text := p.names[f]

/-- The main part, which halts, and then the functions. -/
def code : List Instruction :=
  p.main.code p.name 0 ⟨0, 0, 0⟩ ++ plain .halt
    :: functionsCode p.name (List.ofFn p.body) (p.main.size + 1)

def entry (f : Nat) : Nat := (entries (List.ofFn p.body) (p.main.size + 1))[f]?.getD 0

def function (f : Fin p.names.length) : Text × Function :=
  (p.name f, { name := p.name f, address := .ofNat (p.entry f) })

def program : Program where
  code? := some p.code.toArray
  functions := Table.ofList (List.ofFn p.function)

end Source

end BytecodeMachine.Structured
