import BytecodeMachine.Machine.Member
import BytecodeMachine.Proofs.Program.Tables
import BytecodeMachine.Proofs.Program.Regions

/-! What the checks on a program establish. Of the defects that are looked for, each rules out one way
in which running the program could go beyond its code or its tables. -/
namespace BytecodeMachine

theorem Table.get?_of_contains {α : Type} {t : Table α} {name : Text}
    (h : t.contains name = true) : ∃ a, t.get? name = some a := Option.isSome_iff_exists.mp h

namespace Program

variable {p : Program}

/-- Where execution may stand: at an instruction, or behind the last one. -/
def Address (p : Program) (a : Int) : Prop := 0 ≤ a ∧ a ≤ (p.code.size : Int)

theorem instruction?_eq {a : Int} {ins : Instruction} (h : p.instruction? a = some ins) :
    0 ≤ a ∧ p.code[a.toNat]? = some ins := by
  unfold instruction? at h
  split at h
  · cases h
  · exact ⟨by omega, h⟩

theorem Address.of_instruction {a : Int} {ins : Instruction} (h : p.instruction? a = some ins) :
    p.Address a ∧ p.Address (a + 1) := by
  obtain ⟨hnonneg, hget⟩ := instruction?_eq h
  have hlt : a.toNat < p.code.size := (Array.getElem?_eq_some_iff.mp hget).1
  refine ⟨⟨hnonneg, ?_⟩, ?_, ?_⟩ <;> omega

/-- The only address without an instruction is the one behind the last. -/
theorem Address.eq_size {a : Int} (ha : p.Address a) (h : p.instruction? a = none) :
    a = p.code.size := by
  unfold instruction? at h
  rw [if_neg (by have := ha.1; omega)] at h
  have hle : p.code.size ≤ a.toNat := Array.getElem?_eq_none_iff.mp h
  have := ha.1
  have := ha.2
  omega

/-- What a program without defects promises its machine. -/
structure Checked (p : Program) : Prop where
  opcode : ∀ {a ins}, p.instruction? a = some ins → ∃ op, Opcode.ofCode? ins.op = some op
  target : ∀ {a ins op}, p.instruction? a = some ins → Opcode.ofCode? ins.op = some op →
    op.isJump = true → p.Address ins.operand.int.toInt
  handler : ∀ {a ins}, p.instruction? a = some ins → Opcode.ofCode? ins.op = some .tryPush →
    ins.operand.int.toInt < p.code.size ∧ ins.operand.int2.toInt < p.code.size
  literal : ∀ {a ins}, p.instruction? a = some ins → Opcode.ofCode? ins.op = some .pushConst →
    ins.operand.lit.isSome = true
  entry : ∀ {name fn}, p.functions.get? name = some fn →
    0 ≤ fn.address.toInt ∧ fn.address.toInt < p.code.size
  base : ∀ {key c}, p.classes.get? key = some c → c.base.isEmpty = false →
    p.classes.contains c.base = true
  method : ∀ {key c name fn}, p.classes.get? key = some c →
    c.methods.get? name = some fn ∨ c.staticMethods.get? name = some fn →
    p.functions.contains fn = true

theorem methodDefect?_eq_none {name : Text} {methods : Table Text}
    (h : p.methodDefect? name methods = none) {member fn : Text}
    (hget : methods.get? member = some fn) : p.functions.contains fn = true := by
  have hentry := List.findSome?_eq_none_iff.mp h _ (mem_of_lookup hget)
  dsimp only at hentry
  split at hentry
  · assumption
  · cases hentry

theorem defect?_of_codeDefect? (h : p.codeDefect? = none) {i : Nat} {ins : Instruction}
    (hget : p.code[i]? = some ins) : ins.defect? p.code.size i = none := by
  have hmem : (ins, i) ∈ p.code.toList.zipIdx := by
    rw [List.mem_zipIdx_iff_getElem?, Array.getElem?_toList]
    exact hget
  exact List.findSome?_eq_none_iff.mp h _ hmem

/-- The handlers of a region are inside the code, and at least one of them is there. -/
theorem handlers_of_defect? {size : Int} {i : Nat} {ins : Instruction}
    (h : ins.defect? size i = none) (hop : Opcode.ofCode? ins.op = some .tryPush) :
    ins.operand.int.toInt < size ∧ ins.operand.int2.toInt < size ∧
      (0 ≤ ins.operand.int.toInt ∨ 0 ≤ ins.operand.int2.toInt) := by
  unfold Instruction.defect? at h
  rw [hop] at h
  simp only [Opcode.isJump, Bool.false_and, decide_true, Bool.true_and] at h
  split at h
  · contradiction
  · split at h
    · cases h
    · next hin =>
      split at h
      · cases h
      · next hthere =>
        simp only [Bool.or_eq_true, Bool.and_eq_true, decide_eq_true_eq, not_or, not_and] at hin hthere
        omega

theorem checked_of_defect? (h : p.defect? = none) : p.Checked := by
  unfold defect? at h
  obtain ⟨hcode, hrest⟩ := Option.or_eq_none_iff.mp h
  obtain ⟨hfunctions, hclasses⟩ := Option.or_eq_none_iff.mp hrest
  have hins {a : Int} {ins : Instruction} (hget : p.instruction? a = some ins) :
      ins.defect? p.code.size a.toNat = none := defect?_of_codeDefect? hcode (instruction?_eq hget).2
  have hclass {key : Text} {c : ClassInfo} (hget : p.classes.get? key = some c) :
      p.baseDefect? key c = none ∧ p.methodDefect? key c.methods = none ∧
        p.methodDefect? key c.staticMethods = none := by
    have hnone := List.findSome?_eq_none_iff.mp hclasses _ (mem_of_lookup hget)
    obtain ⟨hbase, hmethods⟩ := Option.or_eq_none_iff.mp hnone
    exact ⟨hbase, Option.or_eq_none_iff.mp hmethods⟩
  constructor
  case opcode =>
    intro a ins hget
    have hnone := hins hget
    unfold Instruction.defect? at hnone
    split at hnone
    · cases hnone
    · next op hop => exact ⟨op, hop⟩
  case target =>
    intro a ins op hget hop hjump
    have hnone := hins hget
    unfold Instruction.defect? at hnone
    rw [hop] at hnone
    dsimp only at hnone
    split at hnone
    · cases hnone
    · next hin =>
      simp only [hjump, Bool.true_and, Bool.or_eq_true, decide_eq_true_eq, not_or] at hin
      exact ⟨by omega, by omega⟩
  case handler =>
    intro a ins hget hop
    obtain ⟨hcatch, hfinally, -⟩ := handlers_of_defect? (hins hget) hop
    exact ⟨hcatch, hfinally⟩
  case literal =>
    intro a ins hget hop
    have hnone := hins hget
    unfold Instruction.defect? at hnone
    rw [hop] at hnone
    cases hlit : ins.operand.lit with
    | some l => rfl
    | none => simp [Opcode.isJump, hlit] at hnone
  case entry =>
    intro name fn hget
    have hnone := List.findSome?_eq_none_iff.mp hfunctions _ (mem_of_lookup hget)
    dsimp only at hnone
    split at hnone
    · cases hnone
    · next hin =>
      simp only [Bool.or_eq_true, decide_eq_true_eq, not_or] at hin
      exact ⟨by omega, by omega⟩
  case base =>
    intro key c hget hbase
    have hnone := (hclass hget).1
    unfold baseDefect? at hnone
    rw [hbase] at hnone
    cases hcontains : p.classes.contains c.base with
    | true => rfl
    | false => simp [hcontains] at hnone
  case method =>
    intro key c name fn hget hname
    rcases hname with hname | hname
    · exact methodDefect?_eq_none (hclass hget).2.1 hname
    · exact methodDefect?_eq_none (hclass hget).2.2 hname

/-- The functions that a class declares as methods are in the table of functions. -/
theorem Checked.declared (checked : p.Checked) {key name fn : Text} {c : ClassInfo}
    (hc : p.classes.get? key = some c)
    (h : declared? c name = some (.method fn) ∨ declared? c name = some (.staticMethod fn)) :
    ∃ f, p.functions.get? fn = some f := by
  have hmethod : c.methods.get? name = some fn ∨ c.staticMethods.get? name = some fn := by
    unfold declared? at h
    split at h
    · simp at h
    · split at h
      · next hget =>
        left
        simpa [hget] using h
      · split at h
        · simp at h
        · split at h
          · next hget =>
            right
            simpa [hget] using h
          · simp at h
  exact Table.get?_of_contains (checked.method hc hmethod)

/-- Every start of a region has an entry in the table of ends. -/
theorem regionEnd_of_tryPush {a : Int} {ins : Instruction} (h : p.instruction? a = some ins)
    (hop : Opcode.ofCode? ins.op = some .tryPush) :
    (Region.ends p.code)[a.toNat]? =
      some (Region.endOf p.code (Region.ends p.code) a.toNat ins.operand) :=
  Region.ends_eq (instruction?_eq h).2 hop

end Program

end BytecodeMachine
