import BytecodeMachine.Proofs.Program.Blocks
import BytecodeMachine.Proofs.Structured.Layout

/-! The ends of the protected regions of structured code. The code of a statement is made of plain
instructions and blocks, so every region ends with the last instruction of its statement. -/
namespace BytecodeMachine.Structured

open Region

variable {n : Nat} {name : Fin n → Text} {code : List Instruction} {a : Nat} {x : Exits} {l : Bool}

theorem opcodeAt?_eq {ins : Instruction} {op : Opcode} (h : code[a]? = some ins)
    (hop : Opcode.ofCode? ins.op = some op) : opcodeAt? code.toArray a = some op := by
  simp [opcodeAt?, h, hop]

theorem plain_of {ins : Instruction} {op : Opcode} (h : code[a]? = some ins)
    (hop : Opcode.ofCode? ins.op = some op)
    (hother : op ≠ .tryPush ∧ op ≠ .tryPop ∧ op ≠ .endFinally) : Plain code.toArray a := by
  have hat := opcodeAt?_eq h hop
  refine ⟨lt_of_opcodeAt? hat, ?_, ?_, ?_⟩ <;> rw [hat]
  · exact fun heq => hother.1 (Option.some.inj heq)
  · exact fun heq => hother.2.1 (Option.some.inj heq)
  · exact fun heq => hother.2.2 (Option.some.inj heq)

theorem blocks_one {ins : Instruction} {op : Opcode} (h : code[a]? = some ins)
    (hop : Opcode.ofCode? ins.op = some op)
    (hother : op ≠ .tryPush ∧ op ≠ .tryPop ∧ op ≠ .endFinally) :
    Blocks code.toArray a (a + 1) := .one (plain_of h hop hother)

theorem blocks_two {i j : Instruction} {op op' : Opcode} (h : Placed code a [i, j])
    (hop : Opcode.ofCode? i.op = some op)
    (hi : op ≠ .tryPush ∧ op ≠ .tryPop ∧ op ≠ .endFinally)
    (hop' : Opcode.ofCode? j.op = some op')
    (hj : op' ≠ .tryPush ∧ op' ≠ .tryPop ∧ op' ≠ .endFinally) :
    Blocks code.toArray a (a + 2) := by
  rw [Placed.cons_iff, Placed.cons_iff] at h
  exact .plain (plain_of h.1 hop hi) (blocks_one h.2.1 hop' hj)

/-- The addresses of handlers inside the code are read back as they are. -/
theorem opens_trying {catchAt finallyAt : Option Nat}
    (h : code[a]? = some (trying catchAt finallyAt)) (small : code.length < twoTo 63)
    (hcatch : ∀ i ∈ catchAt, i < code.length) (hfinally : ∀ i ∈ finallyAt, i < code.length) :
    Opens code.toArray a catchAt finallyAt := by
  have hread {o : Option Nat} (ho : ∀ i ∈ o, i < code.length) :
      handlerAt? (o.elim (-1) Int64.ofNat) = o := by
    have hint := toInt_handler fun i hi => Nat.lt_trans (ho i hi) small
    unfold handlerAt?
    rw [hint]
    cases o with
    | none => rfl
    | some i =>
      rw [Option.elim_some, if_neg (Int.not_lt.mpr (Int.natCast_nonneg i)), Int.toNat_natCast]
  have hget : code.toArray[a]? = some (trying catchAt finallyAt) := by simpa using h
  exact ⟨trying catchAt finallyAt, hget, rfl, hread hcatch, hread hfinally⟩

section Tries

variable {s t u : Stmt n l}

theorem block_tryCatch (small : code.length < twoTo 63)
    (h : Placed code a ((Stmt.tryCatch s t).code name a x))
    (hs : Blocks code.toArray (a + 1) (a + 1 + s.size))
    (ht : Blocks code.toArray (a + s.size + 4) (a + s.size + 4 + t.size)) :
    Block code.toArray a (a + s.size + t.size + 4) := by
  obtain ⟨htry, -, hleave, hjump, hpop, -, hclose⟩ := h.tryCatch
  have hinside : a + s.size + 3 < code.length := (List.getElem?_eq_some_iff.mp hpop).1
  rw [show a + 1 + s.size = a + s.size + 1 by omega] at hs
  rw [show a + s.size + 4 + t.size = a + s.size + t.size + 4 by omega] at ht
  refine .tryCatch (a + s.size + 1) (opens_trying htry small (by simpa using hinside) (by simp)) hs
    (opcodeAt?_eq hleave rfl) (opcodeAt?_eq hjump rfl) ?_ (opcodeAt?_eq hclose rfl)
  exact .plain (plain_of hpop rfl (by decide)) ht

theorem block_tryFinally (small : code.length < twoTo 63)
    (h : Placed code a ((Stmt.tryFinally s u).code name a x))
    (hs : Blocks code.toArray (a + 1) (a + 1 + s.size))
    (hu : Blocks code.toArray (a + s.size + 1) (a + s.size + 1 + u.size)) :
    Block code.toArray a (a + s.size + u.size + 1) := by
  obtain ⟨htry, -, -, hclose⟩ := h.tryFinally
  have hinside : a + s.size + u.size + 1 < code.length := (List.getElem?_eq_some_iff.mp hclose).1
  rw [show a + 1 + s.size = a + s.size + 1 by omega] at hs
  rw [show a + s.size + 1 + u.size = a + s.size + u.size + 1 by omega] at hu
  have hopens := opens_trying htry small (by simp) (by simp; omega)
  exact .tryFinally (a + s.size + 1) hopens hs hu (opcodeAt?_eq hclose rfl)

theorem block_tryCatchFinally (small : code.length < twoTo 63)
    (h : Placed code a ((Stmt.tryCatchFinally s t u).code name a x))
    (hs : Blocks code.toArray (a + 1) (a + 1 + s.size))
    (ht : Blocks code.toArray (a + s.size + 3) (a + s.size + 3 + t.size))
    (hu : Blocks code.toArray (a + s.size + t.size + 3) (a + s.size + t.size + 3 + u.size)) :
    Block code.toArray a (a + s.size + t.size + u.size + 3) := by
  obtain ⟨htry, -, hjump, hpop, -, -, hclose⟩ := h.tryCatchFinally
  have hinside : a + s.size + t.size + u.size + 3 < code.length :=
    (List.getElem?_eq_some_iff.mp hclose).1
  rw [show a + 1 + s.size = a + s.size + 1 by omega] at hs
  rw [show a + s.size + 3 + t.size = a + s.size + t.size + 3 by omega] at ht
  rw [show a + s.size + t.size + 3 + u.size = a + s.size + t.size + u.size + 3 by omega] at hu
  have hopens := opens_trying htry small (by simp; omega) (by simp; omega)
  exact .tryCatchFinally (a + s.size + 1) _ hopens hs (opcodeAt?_eq hjump rfl)
    (.plain (plain_of hpop rfl (by decide)) ht) hu (opcodeAt?_eq hclose rfl)

end Tries

/-- The code of a statement is made of plain instructions and blocks. -/
theorem blocks_code (small : code.length < twoTo 63) (s : Stmt n l)
    (h : Placed code a (s.code name a x)) : Blocks code.toArray a (a + s.size) := by
  -- On the statement: a protected one is a single block, all others are put together of their parts.
  induction s generalizing a x with
  | skip => exact .nil a
  | seq s t hs ht =>
    have hboth := (hs h.seq.1).trans (ht h.seq.2)
    rwa [Nat.add_assoc] at hboth
  | print | declare | assign | throw | ret | call =>
    exact blocks_two h rfl (by decide) rfl (by decide)
  | ifVar v s t hs ht =>
    obtain ⟨hload, hbranch, hthen, hjump, helse⟩ := h.ifVar
    have hthen := hs hthen
    have helse := ht helse
    rw [show a + 2 + s.size = a + s.size + 2 by omega] at hthen
    rw [show a + s.size + 3 + t.size = a + (s.size + t.size + 3) by omega] at helse
    exact .plain (plain_of hload rfl (by decide)) (.plain (plain_of hbranch rfl (by decide))
      (hthen.trans (.plain (plain_of hjump rfl (by decide)) helse)))
  | block s hs =>
    obtain ⟨hpush, hbody, hpop⟩ := h.block
    have hbody := hs hbody
    rw [show a + 1 + s.size = a + s.size + 1 by omega] at hbody
    exact .plain (plain_of hpush rfl (by decide)) (hbody.trans (blocks_one hpop rfl (by decide)))
  | loop s hs =>
    obtain ⟨hpush, hbody, hpop, hjump⟩ := h.loop
    have hbody := hs hbody
    rw [show a + 1 + s.size = a + s.size + 1 by omega] at hbody
    exact .plain (plain_of hpush rfl (by decide)) (hbody.trans
      (.plain (plain_of hpop rfl (by decide)) (blocks_one hjump rfl (by decide))))
  | breakLoop | continueLoop => exact blocks_one (Placed.cons_iff.mp h).1 rfl (by decide)
  | tryCatch s t hs ht =>
    have hblock := block_tryCatch small h (hs h.tryCatch.2.1) (ht h.tryCatch.2.2.2.2.2.1)
    rw [show a + (Stmt.tryCatch s t).size = a + s.size + t.size + 4 + 1 by
      simp only [Stmt.size]; omega]
    exact .block _ hblock (.nil _)
  | tryFinally s u hs hu =>
    have hblock := block_tryFinally small h (hs h.tryFinally.2.1) (hu h.tryFinally.2.2.1)
    rw [show a + (Stmt.tryFinally s u).size = a + s.size + u.size + 1 + 1 by
      simp only [Stmt.size]; omega]
    exact .block _ hblock (.nil _)
  | tryCatchFinally s t u hs ht hu =>
    have hblock := block_tryCatchFinally small h (hs h.tryCatchFinally.2.1)
      (ht h.tryCatchFinally.2.2.2.2.1) (hu h.tryCatchFinally.2.2.2.2.2.1)
    rw [show a + (Stmt.tryCatchFinally s t u).size = a + s.size + t.size + u.size + 3 + 1 by
      simp only [Stmt.size]; omega]
    exact .block _ hblock (.nil _)

section Ends

variable {s t u : Stmt n l}

theorem ends_tryCatch (small : code.length < twoTo 63)
    (h : Placed code a ((Stmt.tryCatch s t).code name a x)) :
    (ends code.toArray)[a]? = some ((a + s.size + t.size + 4 : Nat) : Int) := by
  obtain ⟨-, hs, -, -, -, ht, -⟩ := h.tryCatch
  exact (block_tryCatch small h (blocks_code small s hs) (blocks_code small t ht)).ends

theorem ends_tryFinally (small : code.length < twoTo 63)
    (h : Placed code a ((Stmt.tryFinally s u).code name a x)) :
    (ends code.toArray)[a]? = some ((a + s.size + u.size + 1 : Nat) : Int) := by
  obtain ⟨-, hs, hu, -⟩ := h.tryFinally
  exact (block_tryFinally small h (blocks_code small s hs) (blocks_code small u hu)).ends

theorem ends_tryCatchFinally (small : code.length < twoTo 63)
    (h : Placed code a ((Stmt.tryCatchFinally s t u).code name a x)) :
    (ends code.toArray)[a]? = some ((a + s.size + t.size + u.size + 3 : Nat) : Int) := by
  obtain ⟨-, hs, -, -, ht, hu, -⟩ := h.tryCatchFinally
  exact (block_tryCatchFinally small h (blocks_code small s hs) (blocks_code small t ht)
    (blocks_code small u hu)).ends

end Ends

end BytecodeMachine.Structured
