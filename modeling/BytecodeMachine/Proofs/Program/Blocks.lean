import BytecodeMachine.Proofs.Program.Regions

/-! Code made of plain instructions and of blocks with handlers, nested in any way. A block begins
with the instruction that opens its region; its region ends with the last instruction of the block,
whatever blocks there are in its body and in its handlers. -/
namespace BytecodeMachine.Region

variable {code : Array Instruction} {a b c last : Nat}

/-- The address of a handler, none where it is negative. -/
def handlerAt? (n : Int64) : Option Nat := if n.toInt < 0 then none else some n.toInt.toNat

/-- The instruction at `a` opens a region with these handlers. -/
def Opens (code : Array Instruction) (a : Nat) (catchAt finallyAt : Option Nat) : Prop :=
  ∃ ins, code[a]? = some ins ∧ Opcode.ofCode? ins.op = some .tryPush ∧
    handlerAt? ins.operand.int = catchAt ∧ handlerAt? ins.operand.int2 = finallyAt

/-- The instruction at `a` neither opens a region nor closes one. -/
structure Plain (code : Array Instruction) (a : Nat) : Prop where
  inside : a < code.size
  notPush : opcodeAt? code a ≠ some .tryPush
  notPop : opcodeAt? code a ≠ some .tryPop
  notEnd : opcodeAt? code a ≠ some .endFinally

mutual

/-- The code from `a` up to `b` is a sequence of plain instructions and blocks. -/
inductive Blocks (code : Array Instruction) : Nat → Nat → Prop
  | nil (a : Nat) : Blocks code a a
  | plain {a b : Nat} (first : Plain code a) (rest : Blocks code (a + 1) b) : Blocks code a b
  | block {a b : Nat} (last : Nat) (first : Block code a last) (rest : Blocks code (last + 1) b) :
    Blocks code a b

/-- The code from `a` up to and with `last` is a block. -/
inductive Block (code : Array Instruction) : Nat → Nat → Prop
  | tryCatch {a last : Nat} (pop : Nat) (opens : Opens code a (some (pop + 2)) none)
    (body : Blocks code (a + 1) pop) (leaves : opcodeAt? code pop = some .tryPop)
    (jumps : opcodeAt? code (pop + 1) = some .jump) (catches : Blocks code (pop + 2) last)
    (closes : opcodeAt? code last = some .tryPop) : Block code a last
  | tryFinally {a last : Nat} (fin : Nat) (opens : Opens code a none (some fin))
    (body : Blocks code (a + 1) fin) (final : Blocks code fin last)
    (closes : opcodeAt? code last = some .endFinally) : Block code a last
  | tryCatchFinally {a last : Nat} (jump fin : Nat)
    (opens : Opens code a (some (jump + 1)) (some fin)) (body : Blocks code (a + 1) jump)
    (jumps : opcodeAt? code jump = some .jump) (catches : Blocks code (jump + 1) fin)
    (final : Blocks code fin last) (closes : opcodeAt? code last = some .endFinally) : Block code a last

end

mutual

theorem Blocks.le {a b : Nat} : Blocks code a b → a ≤ b
  | .nil a => Nat.le_refl a
  | .plain _ rest => Nat.le_of_succ_le rest.le
  | .block _ first rest => by
    have hfirst := first.lt
    have hrest := rest.le
    omega

theorem Block.lt {a last : Nat} : Block code a last → a < last
  | .tryCatch _ _ body _ _ catches _ => by
    have hbody := body.le
    have hcatch := catches.le
    omega
  | .tryFinally _ _ body final _ => by
    have hbody := body.le
    have hfinal := final.le
    omega
  | .tryCatchFinally _ _ _ body _ catches final _ => by
    have hbody := body.le
    have hcatch := catches.le
    have hfinal := final.le
    omega

end

theorem Blocks.trans {a b c : Nat} : Blocks code a b → Blocks code b c → Blocks code a c
  | .nil _, h => h
  | .plain first rest, h => .plain first (rest.trans h)
  | .block last first rest, h => .block last first (rest.trans h)

theorem Blocks.one (h : Plain code a) : Blocks code a (a + 1) := .plain h (.nil _)

/-! The end of a block. -/

theorem handlerAt?_eq_some {n : Int64} {i : Nat} (h : handlerAt? n = some i) : n.toInt = i := by
  unfold handlerAt? at h
  split at h
  · cases h
  · cases h
    omega

theorem handlerAt?_eq_none {n : Int64} (h : handlerAt? n = none) : n.toInt < 0 := by
  unfold handlerAt? at h
  split at h
  · assumption
  · cases h

/-- The search for the end of a region passes over the code from `a` up to `b`. -/
def Passed (code : Array Instruction) (a b : Nat) : Prop :=
  ∀ closer, closer = .tryPop ∨ closer = .endFinally → found? code closer a = found? code closer b

theorem Passed.one (h : Plain code a) : Passed code a (a + 1) := by
  intro closer hc
  have hother : opcodeAt? code a ≠ some closer := by
    rcases hc with rfl | rfl
    · exact h.notPop
    · exact h.notEnd
  rw [found?_eq h.inside, if_neg h.notPush, if_neg hother]

/-- A region whose end is known. -/
theorem Passed.region (h : opcodeAt? code a = some .tryPush)
    (hend : (ends code)[a]? = some (last : Int)) (hlt : a < last) : Passed code a (last + 1) := by
  intro closer _
  have hbehind : behind (ends code) a = last + 1 := by
    unfold behind
    rw [hend]
    simp [hlt]
  rw [found?_eq (lt_of_opcodeAt? h), if_pos h, hbehind]

theorem Opens.opcodeAt? {catchAt finallyAt : Option Nat} (h : Opens code a catchAt finallyAt) :
    opcodeAt? code a = some .tryPush := by
  obtain ⟨ins, hins, hop, -, -⟩ := h
  rw [Region.opcodeAt?, hins]
  exact hop

theorem found?_closer {closer : Opcode} (hc : closer = .tryPop ∨ closer = .endFinally)
    (h : opcodeAt? code last = some closer) : found? code closer last = some last := by
  have hother : opcodeAt? code last ≠ some .tryPush := by
    rw [h]
    rcases hc with rfl | rfl <;> decide
  rw [found?_eq (lt_of_opcodeAt? h), if_neg hother, if_pos h]

/-- A region is searched from its last handler on, and ends where the search comes to its closer. -/
theorem Opens.ends {catchAt finallyAt : Option Nat} {start : Nat} {closer : Opcode}
    (h : Opens code a catchAt finallyAt)
    (hstart : finallyAt = some start ∧ closer = .endFinally ∨
      finallyAt = none ∧ catchAt = some start ∧ closer = .tryPop)
    (hlt : a < start) (hpass : Passed code start last)
    (hclose : Region.opcodeAt? code last = some closer) :
    (Region.ends code)[a]? = some (last : Int) := by
  obtain ⟨ins, hins, hop, hcatch, hfinally⟩ := h
  have hopening : ins.operand.opening = start ∧ ins.operand.closer = closer := by
    unfold Operand.opening Operand.closer
    rcases hstart with ⟨rfl, rfl⟩ | ⟨rfl, rfl, rfl⟩
    · have hint := handlerAt?_eq_some hfinally
      rw [if_pos (by omega), if_pos (by omega)]
      exact ⟨hint, rfl⟩
    · have hint := handlerAt?_eq_some hcatch
      have hnone := handlerAt?_eq_none hfinally
      rw [if_neg (by omega), if_neg (by omega)]
      exact ⟨hint, rfl⟩
  have hclosing : closer = .tryPop ∨ closer = .endFinally :=
    hopening.2 ▸ ins.operand.closer_cases
  rw [ends_eq_found hins hop, hopening.1, hopening.2, if_neg (by omega), Int.toNat_natCast,
    hpass closer hclosing, found?_closer hclosing hclose]

theorem Block.opening (h : Block code a last) : opcodeAt? code a = some .tryPush := by
  cases h with
  | tryCatch _ opens | tryFinally _ opens | tryCatchFinally _ _ opens => exact opens.opcodeAt?

mutual

/-- Blocks are passed over as a whole, each by its own end. -/
theorem Blocks.passed {a b : Nat} : Blocks code a b → Passed code a b
  | .nil _ => fun _ _ => rfl
  | .plain first rest => fun closer hc => (Passed.one first closer hc).trans (rest.passed closer hc)
  | .block _ first rest => fun closer hc =>
    (Passed.region first.opening first.ends first.lt closer hc).trans (rest.passed closer hc)

/-- The region of a block ends with its last instruction. -/
theorem Block.ends {a last : Nat} : Block code a last → (Region.ends code)[a]? = some (last : Int)
  | .tryCatch _ opens body _ _ catches closes => by
    have hbody := body.le
    exact opens.ends (Or.inr ⟨rfl, rfl, rfl⟩) (by omega) catches.passed closes
  | .tryFinally _ opens body final closes => by
    have hbody := body.le
    exact opens.ends (Or.inl ⟨rfl, rfl⟩) (by omega) final.passed closes
  | .tryCatchFinally _ _ opens body _ catches final closes => by
    have hbody := body.le
    have hcatch := catches.le
    exact opens.ends (Or.inl ⟨rfl, rfl⟩) (by omega) final.passed closes

end

/-- A block has one last instruction. -/
theorem Block.unique {last' : Nat} (h : Block code a last) (h' : Block code a last') :
    last = last' := by
  have hsame := h.ends.symm.trans h'.ends
  exact Int.ofNat.inj (Option.some.inj hsame)

/-! The blocks of nested code. -/

theorem ne_of_opening {op : Opcode} {i j : Nat} (h : opcodeAt? code i = some .tryPush)
    (h' : opcodeAt? code j = some op) (hop : op ≠ .tryPush) : i ≠ j := by
  rintro rfl
  exact hop (Option.some.inj (h'.symm.trans h))

mutual

/-- Every region that is opened in nested code is that of a block inside. -/
theorem Blocks.exists_block {a b i : Nat} : Blocks code a b → a ≤ i → i < b →
    opcodeAt? code i = some .tryPush → ∃ last, Block code i last ∧ last < b
  | .nil _, hle, hlt, _ => by omega
  | .plain first rest, hle, hlt, hi => by
    rcases Nat.eq_or_lt_of_le hle with rfl | hgt
    · exact absurd hi first.notPush
    · exact rest.exists_block hgt hlt hi
  | .block last first rest, hle, hlt, hi => by
    have hrest := rest.le
    rcases Nat.eq_or_lt_of_le hle with rfl | hgt
    · exact ⟨last, first, by omega⟩
    · rcases Nat.lt_or_ge last i with hout | hin
      · exact rest.exists_block hout hlt hi
      · obtain ⟨last', hblock, hlast⟩ := first.exists_inside hgt hin hi
        exact ⟨last', hblock, by omega⟩

/-- So is every region that is opened inside a block. -/
theorem Block.exists_inside {a last i : Nat} : Block code a last → a < i → i ≤ last →
    opcodeAt? code i = some .tryPush → ∃ last', Block code i last' ∧ last' < last
  | .tryCatch pop _ body leaves jumps catches closes, hlt, hle, hi => by
    have hcatch := catches.le
    rcases Nat.lt_or_ge i pop with hin | hout
    · obtain ⟨last', hblock, hlast⟩ := body.exists_block hlt hin hi
      exact ⟨last', hblock, by omega⟩
    have hpop : i ≠ pop := ne_of_opening hi leaves (by decide)
    have hjump : i ≠ pop + 1 := ne_of_opening hi jumps (by decide)
    have hlast : i ≠ last := ne_of_opening hi closes (by decide)
    exact catches.exists_block (by omega) (by omega) hi
  | .tryFinally fin _ body final closes, hlt, hle, hi => by
    have hfinal := final.le
    rcases Nat.lt_or_ge i fin with hin | hout
    · obtain ⟨last', hblock, hlast⟩ := body.exists_block hlt hin hi
      exact ⟨last', hblock, by omega⟩
    have hlast : i ≠ last := ne_of_opening hi closes (by decide)
    exact final.exists_block hout (by omega) hi
  | .tryCatchFinally jump fin _ body jumps catches final closes, hlt, hle, hi => by
    have hcatch := catches.le
    have hfinal := final.le
    rcases Nat.lt_or_ge i jump with hin | hout
    · obtain ⟨last', hblock, hlast⟩ := body.exists_block hlt hin hi
      exact ⟨last', hblock, by omega⟩
    have hjump : i ≠ jump := ne_of_opening hi jumps (by decide)
    rcases Nat.lt_or_ge i fin with hin | hout
    · obtain ⟨last', hblock, hlast⟩ := catches.exists_block (by omega) hin hi
      exact ⟨last', hblock, by omega⟩
    have hlast : i ≠ last := ne_of_opening hi closes (by decide)
    exact final.exists_block hout (by omega) hi

end

end BytecodeMachine.Region
