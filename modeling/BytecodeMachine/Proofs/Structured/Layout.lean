import BytecodeMachine.Proofs.Program.Tables
import BytecodeMachine.Proofs.Structured.Code
import Mathlib.Tactic.Common

/-! Where the parts of a structured program stand in its code, and that it is one a machine takes. -/
namespace BytecodeMachine

namespace Structured

/-- A list of instructions stands in the code at address `a`. -/
def Placed (code : List Instruction) (a : Nat) (part : List Instruction) : Prop :=
  part <+: code.drop a

namespace Placed

variable {code p q : List Instruction} {a : Nat} {i : Instruction}

theorem cons_iff : Placed code a (i :: p) ↔ code[a]? = some i ∧ Placed code (a + 1) p := by
  unfold Placed
  constructor
  · rintro ⟨t, ht⟩
    have hi : code[a]? = some i := by
      rw [← Nat.add_zero a, ← List.getElem?_drop, ← ht]
      rfl
    refine ⟨hi, t, ?_⟩
    rw [← List.drop_drop, ← ht]
    rfl
  · rintro ⟨hi, t, ht⟩
    obtain ⟨hlt, rfl⟩ := List.getElem?_eq_some_iff.mp hi
    refine ⟨t, ?_⟩
    rw [List.cons_append, ht, List.getElem_cons_drop]

theorem nil : Placed code a [] := List.nil_prefix

theorem append_iff : Placed code a (p ++ q) ↔ Placed code a p ∧ Placed code (a + p.length) q := by
  -- On the first part, one instruction after the other.
  induction p generalizing a with
  | nil => simp [nil]
  | cons i p ih =>
    rw [List.cons_append, cons_iff, cons_iff, ih, List.length_cons, and_assoc,
      Nat.add_assoc, Nat.add_comm 1]

end Placed

variable {n : Nat} {name : Fin n → Text} {code : List Instruction} {a : Nat} {x : Exits} {l : Bool}

section Parts

variable {s t u : Stmt n l}

theorem Placed.seq (h : Placed code a ((Stmt.seq s t).code name a x)) :
    Placed code a (s.code name a x) ∧ Placed code (a + s.size) (t.code name (a + s.size) x) := by
  rw [Stmt.code, append_iff, Stmt.length_code] at h
  exact h

theorem Placed.ifVar {v : Text} (h : Placed code a ((Stmt.ifVar v s t).code name a x)) :
    code[a]? = some (named .loadVar v) ∧
      code[a + 1]? = some (jumping .jumpIfFalse (a + s.size + 3)) ∧
      Placed code (a + 2) (s.code name (a + 2) x) ∧
      code[a + s.size + 2]? = some (jumping .jump (a + s.size + t.size + 3)) ∧
      Placed code (a + s.size + 3) (t.code name (a + s.size + 3) x) := by
  simp only [Stmt.code, cons_iff, append_iff, Stmt.length_code] at h
  obtain ⟨h₁, h₂, h₃, h₄, h₅⟩ := h
  rw [show a + 1 + 1 + s.size = a + s.size + 2 by omega] at h₄ h₅
  exact ⟨h₁, h₂, h₃, h₄, h₅⟩

theorem Placed.block (h : Placed code a ((Stmt.block s).code name a x)) :
    code[a]? = some (plain .pushScope) ∧ Placed code (a + 1) (s.code name (a + 1) x.deeper) ∧
      code[a + s.size + 1]? = some (plain .popScope) := by
  simp only [Stmt.code, cons_iff, append_iff, Stmt.length_code] at h
  obtain ⟨h₁, h₂, h₃, _⟩ := h
  rw [show a + 1 + s.size = a + s.size + 1 by omega] at h₃
  exact ⟨h₁, h₂, h₃⟩

theorem Placed.loop {s : Stmt n true} (h : Placed code a ((Stmt.loop s : Stmt n l).code name a x)) :
    code[a]? = some (plain .pushScope) ∧
      Placed code (a + 1) (s.code name (a + 1) ⟨a, a + s.size + 3, 1⟩) ∧
      code[a + s.size + 1]? = some (plain .popScope) ∧
      code[a + s.size + 2]? = some (jumping .jump a) := by
  simp only [Stmt.code, cons_iff, append_iff, Stmt.length_code] at h
  obtain ⟨h₁, h₂, h₃, h₄, _⟩ := h
  rw [show a + 1 + s.size = a + s.size + 1 by omega] at h₃ h₄
  exact ⟨h₁, h₂, h₃, h₄⟩

theorem Placed.tryCatch (h : Placed code a ((Stmt.tryCatch s t).code name a x)) :
    code[a]? = some (trying (some (a + s.size + 3)) none) ∧
      Placed code (a + 1) (s.code name (a + 1) x) ∧
      code[a + s.size + 1]? = some (plain .tryPop) ∧
      code[a + s.size + 2]? = some (jumping .jump (a + s.size + t.size + 5)) ∧
      code[a + s.size + 3]? = some (plain .pop) ∧
      Placed code (a + s.size + 4) (t.code name (a + s.size + 4) x) ∧
      code[a + s.size + t.size + 4]? = some (plain .tryPop) := by
  simp only [Stmt.code, cons_iff, append_iff, Stmt.length_code] at h
  obtain ⟨h₁, h₂, h₃, h₄, h₅, h₆, h₇, _⟩ := h
  rw [show a + 1 + s.size = a + s.size + 1 by omega] at h₃ h₄ h₅ h₆ h₇
  rw [show a + s.size + 1 + 1 + 1 + 1 + t.size = a + s.size + t.size + 4 by omega] at h₇
  exact ⟨h₁, h₂, h₃, h₄, h₅, h₆, h₇⟩

theorem Placed.tryFinally (h : Placed code a ((Stmt.tryFinally s u).code name a x)) :
    code[a]? = some (trying none (some (a + s.size + 1))) ∧
      Placed code (a + 1) (s.code name (a + 1) x) ∧
      Placed code (a + s.size + 1) (u.code name (a + s.size + 1) x) ∧
      code[a + s.size + u.size + 1]? = some (plain .endFinally) := by
  simp only [Stmt.code, cons_iff, append_iff, Stmt.length_code] at h
  obtain ⟨h₁, h₂, h₃, h₄, _⟩ := h
  rw [show a + 1 + s.size = a + s.size + 1 by omega] at h₃ h₄
  rw [show a + s.size + 1 + u.size = a + s.size + u.size + 1 by omega] at h₄
  exact ⟨h₁, h₂, h₃, h₄⟩

theorem Placed.tryCatchFinally (h : Placed code a ((Stmt.tryCatchFinally s t u).code name a x)) :
    code[a]? = some (trying (some (a + s.size + 2)) (some (a + s.size + t.size + 3))) ∧
      Placed code (a + 1) (s.code name (a + 1) x) ∧
      code[a + s.size + 1]? = some (jumping .jump (a + s.size + t.size + 3)) ∧
      code[a + s.size + 2]? = some (plain .pop) ∧
      Placed code (a + s.size + 3) (t.code name (a + s.size + 3) x) ∧
      Placed code (a + s.size + t.size + 3) (u.code name (a + s.size + t.size + 3) x) ∧
      code[a + s.size + t.size + u.size + 3]? = some (plain .endFinally) := by
  simp only [Stmt.code, cons_iff, append_iff, Stmt.length_code] at h
  obtain ⟨h₁, h₂, h₃, h₄, h₅, h₆, h₇, _⟩ := h
  rw [show a + 1 + s.size = a + s.size + 1 by omega] at h₃ h₄ h₅ h₆ h₇
  rw [show a + s.size + 1 + 1 + 1 + t.size = a + s.size + t.size + 3 by omega] at h₆ h₇
  rw [show a + s.size + t.size + 3 + u.size = a + s.size + t.size + u.size + 3 by omega] at h₇
  exact ⟨h₁, h₂, h₃, h₄, h₅, h₆, h₇⟩

end Parts

/-- Every function stands where its entry says. -/
theorem Placed.functions {bodies : List (Stmt n false)}
    (h : Placed code a (functionsCode name bodies a)) {i : Nat} {s : Stmt n false}
    (hs : bodies[i]? = some s) : ∃ e, (entries bodies a)[i]? = some e ∧
      Placed code e (s.code name e ⟨0, 0, 0⟩) ∧ code[e + s.size]? = some (plain .pushNull) ∧
      code[e + s.size + 1]? = some (plain .ret) := by
  -- On the functions: each starts behind the two last instructions of the one before.
  induction bodies generalizing a i with
  | nil => simp at hs
  | cons b rest ih =>
    simp only [functionsCode, append_iff, cons_iff, Stmt.length_code] at h
    obtain ⟨hb, hnull, hret, hrest⟩ := h
    cases i with
    | zero =>
      cases hs
      exact ⟨a, rfl, hb, hnull, hret⟩
    | succ i => exact ih hrest hs

section Valid

/-- Nothing is wrong with an instruction of a code of `size` instructions, wherever it stands. -/
def Sound (size : Nat) (ins : Instruction) : Prop := ∀ i, ins.defect? size i = none

variable {size : Nat}

/-- An address that fits into a word is read back as it is. -/
theorem toInt_address {a : Nat} (h : a < twoTo 63) : (Int64.ofNat a).toInt = a :=
  Int64.toInt_ofNat_of_lt h

theorem sound_of_target {ins : Instruction} {op : Opcode} {target : Nat}
    (hop : Opcode.ofCode? ins.op = some op) (hjump : op.isJump = true)
    (hint : ins.operand.int = .ofNat target) (ht : target ≤ size) (hsize : size < twoTo 63) :
    Sound size ins := by
  intro i
  have htarget : ins.operand.int.toInt = target := by
    rw [hint]
    exact toInt_address (by omega)
  have htry : op ≠ .tryPush ∧ op ≠ .pushConst := by
    constructor <;> rintro rfl <;> cases hjump
  simp [Instruction.defect?, hop, hjump, htarget, htry, ht]

/-- The address of a handler, negative where there is none. -/
theorem toInt_handler {o : Option Nat} (ho : ∀ a ∈ o, a < twoTo 63) :
    (o.elim (-1) Int64.ofNat).toInt = o.elim (-1) fun a => (a : Int) := by
  cases o with
  | none => rfl
  | some a => exact toInt_address (ho a rfl)

theorem sound_trying {c f : Option Nat} (hc : ∀ a ∈ c, a < size) (hf : ∀ a ∈ f, a < size)
    (has : c ≠ none ∨ f ≠ none) (hsize : size < twoTo 63) : Sound size (trying c f) := by
  intro i
  have hcatch := toInt_handler fun a ha => Nat.lt_trans (hc a ha) hsize
  have hfinally := toInt_handler fun a ha => Nat.lt_trans (hf a ha) hsize
  have hop : Opcode.ofCode? (trying c f).op = some .tryPush := rfl
  have hjump : Opcode.tryPush.isJump = false := rfl
  have hinside {o : Option Nat} (ho : ∀ a ∈ o, a < size) :
      ¬(size : Int) ≤ o.elim (-1) fun a => (a : Int) := by
    cases o with
    | none =>
      rw [Option.elim_none]
      omega
    | some a =>
      have := ho a rfl
      rw [Option.elim_some]
      omega
  have hone : (c.elim (-1) fun a => (a : Int)) < 0 → ¬(f.elim (-1) fun a => (a : Int)) < 0 := by
    cases c with
    | none =>
      cases f with
      | none => simp at has
      | some b => simp
    | some a =>
      intro ha
      rw [Option.elim_some] at ha
      omega
  unfold Instruction.defect?
  rw [hop]
  dsimp only [trying]
  rw [hcatch, hfinally]
  simp only [hjump, Bool.false_and, Bool.false_eq_true, if_false, decide_true, Bool.true_and,
    hinside hc, hinside hf, decide_false, Bool.or_false]
  split
  · next h =>
    simp only [Bool.and_eq_true, decide_eq_true_eq] at h
    exact absurd h.2 (hone h.1)
  · rfl

variable {s t u : Stmt n l}

/-- The instructions of a statement are sound where their addresses lie inside the code. -/
theorem sound_code (s : Stmt n l) (hsize : size < twoTo 63) (ha : a + s.size ≤ size)
    (hx : x.top ≤ size ∧ x.out ≤ size) : ∀ ins ∈ s.code name a x, Sound size ins := by
  have hpush (c : Const) : Sound size (pushing c) := fun _ => rfl
  -- On the statement; addresses inside it are below its end, those of the loop around are given.
  induction s generalizing a x with
  | skip => simp [Stmt.code]
  | seq s t hs ht =>
    rw [Stmt.size] at ha
    rw [Stmt.code, List.forall_mem_append]
    exact ⟨hs (by omega) hx, ht (by omega) hx⟩
  | print | declare | assign | throw | ret =>
    simp only [Stmt.code, List.forall_mem_cons]
    exact ⟨hpush _, fun _ => rfl, by simp⟩
  | ifVar v s t hs ht =>
    rw [Stmt.size] at ha
    simp only [Stmt.code, List.forall_mem_cons, List.forall_mem_append]
    exact ⟨fun _ => rfl, sound_of_target rfl rfl rfl (by omega) hsize, hs (by omega) hx,
      sound_of_target rfl rfl rfl (by omega) hsize, ht (by omega) hx⟩
  | call f =>
    simp only [Stmt.code, List.forall_mem_cons]
    exact ⟨fun _ => rfl, fun _ => rfl, by simp⟩
  | block s hs =>
    rw [Stmt.size] at ha
    simp only [Stmt.code, List.forall_mem_cons, List.forall_mem_append]
    exact ⟨fun _ => rfl, hs (by omega) hx, fun _ => rfl, by simp⟩
  | loop s hs =>
    rw [Stmt.size] at ha
    simp only [Stmt.code, List.forall_mem_cons, List.forall_mem_append]
    exact ⟨fun _ => rfl, hs (by omega) ⟨by dsimp only; omega, by dsimp only; omega⟩,
      fun _ => rfl, sound_of_target rfl rfl rfl (by omega) hsize, by simp⟩
  | breakLoop =>
    simp only [Stmt.code, List.forall_mem_cons]
    exact ⟨sound_of_target rfl rfl rfl hx.2 hsize, by simp⟩
  | continueLoop =>
    simp only [Stmt.code, List.forall_mem_cons]
    exact ⟨sound_of_target rfl rfl rfl hx.1 hsize, by simp⟩
  | tryCatch s t hs ht =>
    rw [Stmt.size] at ha
    simp only [Stmt.code, List.forall_mem_cons, List.forall_mem_append]
    refine ⟨sound_trying ?_ (by simp) (by simp) hsize, hs (by omega) hx, fun _ => rfl,
      sound_of_target rfl rfl rfl (by omega) hsize, fun _ => rfl, ht (by omega) hx, fun _ => rfl,
      by simp⟩
    simp
    omega
  | tryFinally s u hs hu =>
    rw [Stmt.size] at ha
    simp only [Stmt.code, List.forall_mem_cons, List.forall_mem_append]
    refine ⟨sound_trying (by simp) ?_ (by simp) hsize, hs (by omega) hx, hu (by omega) hx,
      fun _ => rfl, by simp⟩
    simp
    omega
  | tryCatchFinally s t u hs ht hu =>
    rw [Stmt.size] at ha
    simp only [Stmt.code, List.forall_mem_cons, List.forall_mem_append]
    refine ⟨sound_trying ?_ ?_ (by simp) hsize, hs (by omega) hx,
      sound_of_target rfl rfl rfl (by omega) hsize, fun _ => rfl, ht (by omega) hx,
      hu (by omega) hx, fun _ => rfl, by simp⟩
    · simp
      omega
    · simp
      omega

theorem sound_functionsCode (bodies : List (Stmt n false)) (hsize : size < twoTo 63)
    (ha : a + (functionsCode name bodies a).length ≤ size) :
    ∀ ins ∈ functionsCode name bodies a, Sound size ins := by
  induction bodies generalizing a with
  | nil => simp [functionsCode]
  | cons s rest ih =>
    simp only [functionsCode, List.length_append, List.length_cons, Stmt.length_code] at ha
    simp only [functionsCode, List.forall_mem_cons, List.forall_mem_append]
    exact ⟨sound_code s hsize (by omega) ⟨Nat.zero_le _, Nat.zero_le _⟩, fun _ => rfl,
      fun _ => rfl, ih (by omega)⟩

end Valid

namespace Source

variable (p : Source)

theorem instruction?_eq (a : Nat) : p.program.instruction? a = p.code[a]? := by
  rw [Program.instruction?, if_neg (by omega), Int.toNat_natCast]
  exact List.getElem?_toArray

theorem placed_main : Placed p.code 0 (p.main.code p.name 0 ⟨0, 0, 0⟩) ∧
    p.code[p.main.size]? = some (plain .halt) ∧
    Placed p.code (p.main.size + 1) (functionsCode p.name (List.ofFn p.body) (p.main.size + 1)) := by
  have hall : Placed p.code 0 p.code := List.prefix_refl _
  conv at hall => rhs; rw [code]
  rw [Placed.append_iff, Placed.cons_iff, Stmt.length_code, Nat.zero_add] at hall
  exact hall

theorem placed_body (f : Fin p.names.length) :
    Placed p.code (p.entry f) ((p.body f).code p.name (p.entry f) ⟨0, 0, 0⟩) ∧
      p.code[p.entry f + (p.body f).size]? = some (plain .pushNull) ∧
      p.code[p.entry f + (p.body f).size + 1]? = some (plain .ret) := by
  have hbody : (List.ofFn p.body)[f.val]? = some (p.body f) := by simp
  obtain ⟨e, he, h⟩ := p.placed_main.2.2.functions hbody
  have hentry : p.entry f = e := by simp [entry, he]
  rw [hentry]
  exact h

theorem get?_functions (f : Fin p.names.length) :
    p.program.functions.get? (p.name f) = some (p.function f).2 := by
  have hnames : (List.ofFn p.function).map (·.1) = p.names := by
    rw [List.map_ofFn]
    exact List.ofFn_getElem
  refine Table.get?_ofList (e := p.function f) ?_ ?_
  · rw [hnames]
    exact p.nodup
  · rw [List.mem_ofFn]
    exact ⟨f, rfl⟩

/-- The code of a program that fits into its addresses passes all checks. -/
theorem defect?_eq_none (fits : p.code.length < twoTo 63) : p.program.defect? = none := by
  have hcode : p.program.code = p.code.toArray := rfl
  have hlength : p.main.size + 1 +
      (functionsCode p.name (List.ofFn p.body) (p.main.size + 1)).length = p.code.length := by
    rw [code, List.length_append, List.length_cons, Stmt.length_code]
    omega
  have hsound : ∀ ins ∈ p.code, Sound p.code.length ins := by
    intro ins hi
    rw [code] at hi
    rcases List.mem_append.mp hi with hi | hi
    · exact sound_code p.main fits (by omega) ⟨Nat.zero_le _, Nat.zero_le _⟩ ins hi
    · rcases List.mem_cons.mp hi with rfl | hi
      · exact fun _ => rfl
      · exact sound_functionsCode _ fits (by omega) ins hi
  have hfunctions : p.program.functionDefect? = none := by
    rw [Program.functionDefect?, List.findSome?_eq_none_iff]
    intro e he
    obtain ⟨f, rfl⟩ := List.mem_ofFn.mp (Table.mem_of_mem_entries_ofList he)
    have hlt : p.entry f < p.code.length := by
      have := (List.getElem?_eq_some_iff.mp (p.placed_body f).2.1).1
      omega
    have hint : (p.function f).2.address.toInt = p.entry f :=
      toInt_address (by omega)
    rw [hint, hcode, List.size_toArray]
    simp
    omega
  have hinstructions : p.program.codeDefect? = none := by
    rw [Program.codeDefect?, List.findSome?_eq_none_iff, hcode, List.size_toArray]
    intro e he
    exact hsound e.1 (List.fst_mem_of_mem_zipIdx he) e.2
  rw [Program.defect?, hinstructions, hfunctions]
  rfl

end Source

end Structured

end BytecodeMachine
