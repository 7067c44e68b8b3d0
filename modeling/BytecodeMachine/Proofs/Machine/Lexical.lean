import BytecodeMachine.Proofs.Machine.Enclosing
import BytecodeMachine.Proofs.Machine.Safety

/-! Lexical scoping. In every state of a run the scopes are a tree, and the current scope, those of
the frames and those that any function closes over are all in it. So looking a name up, storing to
it and declaring it are told by the chains of scopes alone. -/
namespace BytecodeMachine

variable {q q' : Nat → Prop} {s : Setup}

/-! What functions close over, with more scopes admitted. -/

section Growing

variable (grown : ∀ id, q id → q' id)

include grown

theorem World.Over.mono {w : World} (h : w.Over q) : w.Over q' where
  store := h.store.mono fun _ hv => hv.mono grown
  closures e he := grown _ (h.closures e he)

theorem Loop.Over.mono {l : Loop} (h : l.Over q) : l.Over q' where
  callee := h.callee.mono grown
  rest v hv := (h.rest v hv).mono grown
  gathered := h.gathered.mono fun _ hv => hv.mono grown

theorem Machine.Over.mono {m : Machine} (h : m.Over q)
    (admitted : ∀ id, q' id → id < m.scopes.cells.size) : m.Over q' where
  world := h.world.mono grown
  place := { h.place with admitted := admitted }
  stack v hv := (h.stack v hv).mono grown
  handlers d hd v hv := (h.handlers d hd v hv).mono grown
  loops l hl := (h.loops l hl).mono grown

theorem Status.Over.mono {st : Status} (h : st.Over q)
    (admitted : ∀ id, q' id → id < st.machine.scopes.cells.size) : st.Over q' := by
  cases h with
  | running machine => exact .running (machine.mono grown admitted)
  | @ended e m machine ending =>
    refine .ended (machine.mono grown admitted) ?_
    cases e with
    | value v => exact Value.Over.mono grown ending
    | _ => exact trivial

end Growing

theorem Status.Over.machine {st : Status} (h : st.Over q) : st.machine.Over q := by
  cases h with
  | running machine => exact machine
  | ended machine _ => exact machine

/-- The scopes that a machine has. -/
def Machine.Knows (m : Machine) (id : Nat) : Prop := id < m.scopes.cells.size

/-- Lexical scoping: what looking a name up, storing to it and declaring it do, from every scope. -/
structure Scopes.Lexical (S : Scopes) : Prop where
  /-- The scope that owns a name is the first one on the way outwards that binds it. -/
  owner : ∀ x e o, S.resolve x e = some o ↔ S.ComesTo x e o ∧ (S.binding? x o).isSome = true
  value : ∀ x e, S.lookup x e = (S.resolve x e).bind (S.binding? x)
  assigns : ∀ x v e, (S.assign? x v e).isSome = (S.lookup x e).isSome
  assigned : ∀ x v e S', S.assign? x v e = some S' →
    ∃ o, S.resolve x e = some o ∧ S.Assigned x v o S'
  declared : ∀ x v e, S.Declared x v e (S.declare x v e)

theorem Scopes.Tree.lexical {S : Scopes} (h : S.Tree) : S.Lexical where
  owner _ _ _ := h.resolve_eq_some_iff
  value := S.lookup_eq
  assigns x v e := by rw [assign?, Option.isSome_map, isSome_lookup]
  assigned x v e S' hs := by
    obtain ⟨o, ho, rfl⟩ := Option.map_eq_some_iff.mp hs
    exact ⟨o, ho, assigned_of_binding (comesTo_of_resolveFrom ho).2 v⟩
  declared := h.declared

/-- Storing to a name that is not bound fails and leaves the machine as it is. -/
theorem Machine.assign_of_unbound {m : Machine} {x : Text} (h : m.lookup? x = none) (v : Value) :
    m.assign x v = .failed (.of (.undeclaredVariable x)) m := by
  have hresolve : (m.scopes.resolve x m.scope).isSome = false := by
    rw [← m.scopes.isSome_lookup]
    exact congrArg Option.isSome h
  have hnone : m.world.store.scopes.assign? x v m.scope = none := by
    rw [Scopes.assign?, Option.not_isSome_iff_eq_none.mp (ne_true_of_eq_false hresolve)]
    rfl
  unfold assign
  rw [hnone]
  rfl

/-! Runs. -/

/-- A run begins in the outermost scope, which is the only one, and without values. -/
theorem Machine.over_start (admitted : ∀ id, q id → id < 1) (w : World) (o : RunOptions) :
    Machine.Over q { world := w.renew o } := by
  have htree : (w.renew o).store.scopes.Tree :=
    ⟨Nat.one_pos, rfl, fun id hid hne => absurd (Nat.lt_one_iff.mp hid) hne⟩
  exact (Machine.obeys_start (i := 0) trivial ⟨htree, admitted, Nat.one_pos, by simp⟩).over

namespace Setup

/-- In every state, functions close over scopes that there are. -/
theorem stateAfter_over (hosts : ∀ h ∈ s.host, h.Over) (w : World) (o : RunOptions) (n : Nat) :
    (s.stateAfter w o n).Over (s.stateAfter w o n).machine.Knows := by
  induction n with
  | zero => exact .running (Machine.over_start (fun _ hid => hid) w o)
  | succ n ih =>
    rw [stateAfter_succ]
    cases hst : s.stateAfter w o n with
    | ended e m =>
      rw [hst] at ih
      exact ih
    | running m =>
      rw [hst] at ih
      -- What the machine knows before the step it knows after it, when there may be one scope more.
      have hm : m.Over m.Knows := ih.machine
      have hnext : (m.advance s).Over m.Knows :=
        Machine.advance_over hm.place.tree.root hosts hm hm.place.current
      exact hnext.mono hnext.machine.place.admitted fun _ hid => hid

/-- In every state of every run, the current scope, the scopes that frames go back to, and those
that any function closes over have finite chains that end in the outermost scope; names are looked
up, stored to and declared along these chains, and a store to an unbound name changes nothing. -/
theorem stateAfter_lexical (hosts : ∀ h ∈ s.host, h.Over) (w : World) (o : RunOptions) (n : Nat) :
    let st := s.stateAfter w o n
    let S := st.machine.scopes
    (S.Grounded st.machine.scope ∧ (∀ f ∈ st.machine.frames, S.Grounded f.scope) ∧
      st.Over S.Grounded) ∧
    S.Lexical ∧
    ∀ x v, st.machine.lookup? x = none →
      st.machine.assign x v = .failed (.of (.undeclaredVariable x)) st.machine := by
  intro st S
  have hover : st.Over st.machine.Knows := stateAfter_over hosts w o n
  obtain ⟨htree, -, hcurrent, hcallers⟩ := hover.machine.place
  have hgrounded : ∀ id, st.machine.Knows id → S.Grounded id := fun _ hid => htree.grounded hid
  refine ⟨⟨hgrounded _ hcurrent, fun f hf => hgrounded _ (hcallers f hf), ?_⟩, htree.lexical,
    fun x v => Machine.assign_of_unbound (v := v)⟩
  exact hover.mono hgrounded fun _ hid => hid.1

end Setup

namespace Inspection

theorem functions_over : ∀ h ∈ functions, h.Over := fun h hh => (functions_handOn h hh).over

end Inspection

/-- A function `m` that declares `c` and gives back a function `i`, which stores to `c`. -/
def Program.counting : Program where
  code? := some #[
    { op := Opcode.call.code, operand := { name := [109] } },
    { op := Opcode.callIndirect.code },
    { op := Opcode.halt.code },
    { op := Opcode.pushFalse.code },
    { op := Opcode.varDecl.code, operand := { name := [99] } },
    { op := Opcode.pushClosure.code, operand := { name := [105] } },
    { op := Opcode.ret.code },
    { op := Opcode.pushTrue.code },
    { op := Opcode.storeVar.code, operand := { name := [99] } },
    { op := Opcode.ret.code }]
  functions := Table.ofList
    [([105], { name := [105], address := 7 }), ([109], { name := [109], address := 3 })]

def Setup.counting : Setup where
  program := Program.counting
  host := Inspection.functions
  regionEnds := Region.ends Program.counting.code

/-- Inside `i` a store to `c` changes the scope of the call of `m`, which is over, and every scope
that has it on its chain sees the change. -/
theorem Setup.counting_stores_outwards :
    let m := (counting.stateAfter {} {} 7).machine
    m.scopes.Grounded m.scope ∧ m.scope = 2 ∧ m.frames.length = 1 ∧
      ∃ S', m.scopes.assign? [99] (.bool true) 2 = some S' ∧
        S'.lookup [99] 1 = some (.bool true) ∧ S'.lookup [99] 2 = some (.bool true) ∧
        S'.lookup [99] 0 = none := by
  intro m
  obtain ⟨⟨hscope, -, -⟩, hlexical, -⟩ :=
    stateAfter_lexical (s := counting) Inspection.functions_over {} {} 7
  have hsome : (m.scopes.assign? [99] (.bool true) 2).isSome = true := hlexical.assigns _ _ _
  obtain ⟨S', hS'⟩ := Option.isSome_iff_exists.mp hsome
  obtain ⟨o, ho, hassigned⟩ := hlexical.assigned _ _ _ _ hS'
  obtain rfl : o = 1 := Option.some.inj (ho.symm.trans rfl)
  refine ⟨hscope, rfl, rfl, S', hS', ?_, ?_, ?_⟩
  · rw [hassigned.lookups, if_pos ⟨rfl, rfl⟩]
  · rw [hassigned.lookups, if_pos ⟨rfl, rfl⟩]
  · rw [hassigned.lookups, if_neg fun h => nomatch h.2]
    rfl

end BytecodeMachine
