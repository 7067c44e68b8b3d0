import BytecodeMachine.Proofs.Machine.Checked
import BytecodeMachine.Proofs.Machine.Finally
import BytecodeMachine.Proofs.Machine.Restoring
import BytecodeMachine.Proofs.Program.Recursion

/-! The regions that handlers cover. In every run a handler keeps the region of the instruction that
pushed it. Main statement: the ends of the regions are those that the recursion gives, with or without
remembering, and in code made of blocks a handler covers its own block, behind the instruction that
opens it. -/
namespace BytecodeMachine

variable {s : Setup}

/-- A handler covers the region of an instruction that opens one, as the table has it. -/
def Handler.Opened (s : Setup) (h : Handler) : Prop :=
  ∃ pc : Nat, h.tryAddr = pc ∧ Region.opcodeAt? s.program.code pc = some .tryPush ∧
    s.regionEnds[pc]? = some h.endAddr

theorem Handler.Opened.phase {h : Handler} (ho : h.Opened s) (phase : Phase) :
    Handler.Opened s { h with phase := phase } := ho

/-- What happens to a handler that is there does not move its region. -/
theorem Shift.opened {e : HandlerEvent} {hs hs' : List Handler} (h : Shift e hs hs')
    (old : e ≠ .pushed) (ho : ∀ d ∈ hs, d.Opened s) : ∀ d ∈ hs', d.Opened s := by
  cases h with
  | pushed => exact absurd rfl old
  | arrived | caught | entered =>
    obtain ⟨htop, hrest⟩ := List.forall_mem_cons.mp ho
    exact List.forall_mem_cons.mpr ⟨htop.phase _, hrest⟩
  | spent | popped | ended => exact (List.forall_mem_cons.mp ho).2

namespace Machine

variable {m m' : Machine}

/-- Changes that push no handler. -/
theorem Changes.opened {log : List HandlerEvent} (h : Changes s m log m') (old : .pushed ∉ log)
    (ho : ∀ d ∈ m.handlers, d.Opened s) : ∀ d ∈ m'.handlers, d.Opened s := by
  induction h with
  | refl => exact ho
  | cons hc _ ih =>
    rw [List.mem_append, not_or] at old
    refine ih old.2 ?_
    cases hc with
    | quiet hq => rwa [hq.handlers]
    | pushScope | popScope | unwindScope => exact ho
    | popFrame => rwa [popFrame_handlers]
    | pushHandler => simp at old
    | shift hs hold => exact hs.opened hold ho

theorem Advances.opened {log : List HandlerEvent} (h : Advances s m log m') (old : .pushed ∉ log)
    (ho : ∀ d ∈ m.handlers, d.Opened s) : ∀ d ∈ m'.handlers, d.Opened s := by
  obtain hc | ⟨m₁, hc, -, hi⟩ := h
  · exact hc.opened old ho
  · rw [hi.handlers]
    exact hc.opened old ho

theorem begun_opened (ins : Instruction) (ho : ∀ d ∈ m.handlers, d.Opened s) :
    ∀ d ∈ (m.begun s ins).handlers, d.Opened s := by
  intro d hd
  rw [begun_handlers] at hd
  rcases mem_markFinalizing hd with hd | ⟨e, he, rfl⟩
  · exact ho d hd
  · exact (ho e he).phase _

/-- The handler that an instruction pushes covers the region that the instruction opens. -/
theorem pushHandler_opened (built : s.regionEnds = Region.ends s.program.code) {ins : Instruction}
    (hi : s.program.instruction? m.pc = some ins) (hop : Opcode.ofCode? ins.op = some .tryPush)
    (catchAddr finallyAddr : Int) (ho : ∀ d ∈ m.handlers, d.Opened s) :
    ∀ d ∈ (m.pushHandler s catchAddr finallyAddr).handlers, d.Opened s := by
  obtain ⟨hnonneg, hget⟩ := Program.instruction?_eq hi
  refine List.forall_mem_cons.mpr ⟨⟨m.pc.toNat, (Int.toNat_of_nonneg hnonneg).symm, ?_, ?_⟩, ho⟩
  · rw [Region.opcodeAt?, hget]
    exact hop
  · dsimp only
    rw [built, Region.ends_eq hget hop]
    rfl

theorem advance_opened (built : s.regionEnds = Region.ends s.program.code)
    (hn : m.advance s = .running m') (ho : ∀ d ∈ m.handlers, d.Opened s) :
    ∀ d ∈ m'.handlers, d.Opened s := by
  by_cases hop : m.opcode? s = some .tryPush
  · obtain ⟨hc, ins, hi, hcode⟩ := executes_of_opcode? hop
    have hins := settle_of_running hc hi hn
    rw [step, hcode] at hins
    cases hins
    rw [← begun_pc m ins] at hi
    exact pushHandler_opened built hi hcode _ _ (begun_opened ins ho)
  · obtain ⟨log, hlog, hadv⟩ := advance_advances (s := s) m
    rw [hn] at hadv
    exact hadv.opened (fun hpush => hop (hlog.by_instruction _ hpush)) ho

end Machine

theorem Setup.stateAfter_opened (built : s.regionEnds = Region.ends s.program.code) {w : World}
    {o : RunOptions} {n : Nat} {m : Machine} (running : s.stateAfter w o n = .running m) :
    ∀ d ∈ m.handlers, d.Opened s := by
  induction n generalizing m with
  | zero =>
    cases running
    exact fun d hd => by cases hd
  | succ n ih =>
    rw [stateAfter_succ] at running
    cases hst : s.stateAfter w o n with
    | running q =>
      rw [hst] at running
      exact Machine.advance_opened built running (ih hst)
    | ended e q =>
      rw [hst] at running
      cases running

/-- In code without a defect every region ends at an instruction, whether anything closes it or not. -/
theorem Program.regionEnd_inside {p : Program} (checked : p.codeDefect? = none) {pc : Nat}
    (hop : Region.opcodeAt? p.code pc = some .tryPush) :
    ∃ last : Nat, (Region.ends p.code)[pc]? = some (last : Int) ∧ last < p.code.size := by
  obtain ⟨ins, hins, hcode⟩ := Option.bind_eq_some_iff.mp hop
  obtain ⟨hcatch, hfinally, hthere⟩ := handlers_of_defect? (defect?_of_codeDefect? checked hins) hcode
  have hunclosed : ∃ last : Nat, ins.operand.unclosed = last ∧ last < p.code.size := by
    unfold Operand.unclosed
    exact ⟨(max ins.operand.int.toInt ins.operand.int2.toInt).toNat, by omega, by omega⟩
  obtain ⟨last, hlast, hlt⟩ := hunclosed
  rw [Region.ends_eq_found hins hcode, hlast]
  split
  · exact ⟨last, rfl, hlt⟩
  · cases hfound : Region.found? p.code ins.operand.closer ins.operand.opening.toNat with
    | some e => exact ⟨e, rfl, Region.lt_of_closing? hfound⟩
    | none => exact ⟨last, rfl, hlt⟩

/-- The table of region ends. In code without a defect the recursion that remembers what it has found
comes to its end; it remembers an end inside the code for every region and nothing else, namely the end
that the recursion alone gives, and the one in the table. In code that is made of plain instructions
and blocks, however nested, every region is that of one block and ends with the last instruction of
it; and in every run each handler covers what follows the opening of its own block up to there. -/
theorem Setup.regions_end_with_their_blocks (built : s.regionEnds = Region.ends s.program.code) :
    (s.program.codeDefect? = none → ∀ fuel, 2 * s.program.code.size ≤ fuel →
      ∃ known, Region.remembered s.program.code fuel = some known ∧ ∀ pc,
        (Region.opcodeAt? s.program.code pc = some .tryPush →
          ∃ last : Nat, last < s.program.code.size ∧ known pc = some (last : Int) ∧
            Region.plainEnd s.program.code fuel pc = some (last : Int) ∧
            s.regionEnds[pc]? = some (last : Int)) ∧
        (Region.opcodeAt? s.program.code pc ≠ some .tryPush → known pc = none)) ∧
    (Region.Blocks s.program.code 0 s.program.code.size →
      (∀ pc, Region.opcodeAt? s.program.code pc = some .tryPush →
        ∃ last, (∀ e, Region.Block s.program.code pc e ↔ e = last) ∧
          s.regionEnds[pc]? = some (last : Int)) ∧
      ∀ w o n m, s.stateAfter w o n = .running m → ∀ h ∈ m.handlers, ∃ pc last : Nat,
        h.tryAddr = pc ∧ Region.Block s.program.code pc last ∧
          ∀ addr : Int, h.covers addr = true ↔ pc < addr ∧ addr ≤ last) := by
  refine ⟨fun checked fuel hfuel => ?_, fun nested => ?_⟩
  · obtain ⟨known, hknown, hall⟩ := Region.remembered_eq hfuel
    refine ⟨known, hknown, fun pc => ⟨fun hop => ?_, fun hop => ?_⟩⟩
    · obtain ⟨last, hlast, hlt⟩ := Program.regionEnd_inside checked hop
      have hpc := hall pc
      rw [if_pos hop, hlast] at hpc
      exact ⟨last, hlt, hpc, (Region.plainEnd_eq hfuel hop).trans hlast, built ▸ hlast⟩
    · rw [hall pc, if_neg hop]
  · have hblock (pc : Nat) (hop : Region.opcodeAt? s.program.code pc = some .tryPush) :
        ∃ last, Region.Block s.program.code pc last := by
      obtain ⟨last, hlast, -⟩ :=
        nested.exists_block (Nat.zero_le pc) (Region.lt_of_opcodeAt? hop) hop
      exact ⟨last, hlast⟩
    refine ⟨fun pc hop => ?_, fun w o n m running h hh => ?_⟩
    · obtain ⟨last, hlast⟩ := hblock pc hop
      exact ⟨last, fun e => ⟨fun he => he.unique hlast, fun he => he ▸ hlast⟩, built ▸ hlast.ends⟩
    · obtain ⟨pc, htry, hop, hend⟩ := Setup.stateAfter_opened built running h hh
      obtain ⟨last, hlast⟩ := hblock pc hop
      rw [built, hlast.ends] at hend
      have hlastAddr : h.endAddr = last := (Option.some.inj hend).symm
      refine ⟨pc, last, htry, hlast, fun addr => ?_⟩
      rw [Handler.covers, htry, hlastAddr, Bool.and_eq_true, decide_eq_true_iff, decide_eq_true_iff]

/-- A block with a catch inside one with a finally, whose finally block has a block inside as well. -/
def Program.nested : Program where
  code? := some #[
    { op := Opcode.tryPush.code, operand := { int := -1, int2 := 6 } },
    { op := Opcode.tryPush.code, operand := { int := 4, int2 := -1 } },
    { op := Opcode.tryPop.code },
    { op := Opcode.jump.code, operand := { int := 6 } },
    { op := Opcode.pop.code },
    { op := Opcode.tryPop.code },
    { op := Opcode.tryPush.code, operand := { int := -1, int2 := 7 } },
    { op := Opcode.endFinally.code },
    { op := Opcode.endFinally.code },
    { op := Opcode.halt.code }]

def Setup.nested : Setup where
  program := Program.nested
  regionEnds := Region.ends Program.nested.code

theorem Program.nested_blocks : Region.Blocks nested.code 0 nested.code.size := by
  have hplain (a : Nat) (ha : a < 10) (h : Region.opcodeAt? nested.code a ≠ some .tryPush ∧
      Region.opcodeAt? nested.code a ≠ some .tryPop ∧
      Region.opcodeAt? nested.code a ≠ some .endFinally) : Region.Plain nested.code a :=
    ⟨ha, h.1, h.2.1, h.2.2⟩
  have hinner : Region.Block nested.code 1 5 :=
    .tryCatch 2 ⟨_, rfl, rfl, rfl, rfl⟩ (.nil 2) rfl rfl (.one (hplain 4 (by decide) (by decide))) rfl
  have hfinally : Region.Block nested.code 6 7 :=
    .tryFinally 7 ⟨_, rfl, rfl, rfl, rfl⟩ (.nil 7) (.nil 7) rfl
  have houter : Region.Block nested.code 0 8 :=
    .tryFinally 6 ⟨_, rfl, rfl, rfl, rfl⟩ (.block 5 hinner (.nil 6)) (.block 7 hfinally (.nil 8)) rfl
  exact .block 8 houter (.one (hplain 9 (by decide) (by decide)))

theorem Setup.nested_regions_end :
    nested.regionEnds = Region.ends nested.program.code ∧ nested.program.codeDefect? = none ∧
    Region.Blocks nested.program.code 0 nested.program.code.size ∧
    (∃ known, Region.remembered nested.program.code 20 = some known ∧ known 9 = none ∧
      ∃ last : Nat, last < 10 ∧ known 0 = some (last : Int)) ∧
    nested.regionEnds[0]? = some 8 ∧
    ∃ m, nested.stateAfter {} {} 2 = .running m ∧ m.handlers.length = 2 ∧
      ∀ h ∈ m.handlers, ∃ pc last : Nat, h.tryAddr = pc ∧ Region.Block nested.program.code pc last ∧
        ∀ addr : Int, h.covers addr = true ↔ pc < addr ∧ addr ≤ last := by
  have hchecked : nested.program.codeDefect? = none := by decide
  have hnested : Region.Blocks nested.program.code 0 nested.program.code.size :=
    Program.nested_blocks
  obtain ⟨hterminates, hblocks⟩ := regions_end_with_their_blocks (s := nested) rfl
  obtain ⟨known, hknown, hall⟩ := hterminates hchecked 20 (by decide)
  obtain ⟨last, hlt, hfirst, -, -⟩ := (hall 0).1 rfl
  obtain ⟨m, running, hlength⟩ : ∃ m, nested.stateAfter {} {} 2 = .running m ∧
      m.handlers.length = 2 := ⟨_, rfl, rfl⟩
  exact ⟨rfl, hchecked, hnested, ⟨known, hknown, (hall 9).2 (by decide), last, hlt, hfirst⟩, rfl,
    m, running, hlength, (hblocks hnested).2 {} {} 2 m running⟩

end BytecodeMachine
