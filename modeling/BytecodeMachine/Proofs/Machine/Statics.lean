import BytecodeMachine.Proofs.Machine.Cells
import BytecodeMachine.Proofs.Machine.Edits
import BytecodeMachine.Proofs.Machine.WellFormed
import Mathlib.Data.Nat.Init

/-! Static fields as programs see them. The instructions that store and load members go to the cell that
the receiver and the name stand for, and from step to step a cell keeps what was stored last. -/
namespace BytecodeMachine

variable {s : Setup}

namespace Machine

/-- The member that the next step sets: its receiver, its name and the value. -/
inductive Sets (s : Setup) (m : Machine) : Value → Text → Value → Prop
  | static {ins : Instruction} {t : TypeRef} {v : Value} {rest : List Value}
      (starts : m.Starts s ins) (op : Opcode.ofCode? ins.op = some .storeStatic)
      (type : s.program.resolveType? ins.operand.name = some t) (stack : m.stack = v :: rest) :
      Sets s m (.type t) ins.operand.member v
  | member {ins : Instruction} {receiver v : Value} {rest : List Value}
      (starts : m.Starts s ins) (op : Opcode.ofCode? ins.op = some .storeMember)
      (stack : m.stack = v :: receiver :: rest) : Sets s m receiver ins.operand.name v
  | index {ins : Instruction} {receiver v : Value} {name : Text} {rest : List Value}
      (starts : m.Starts s ins) (op : Opcode.ofCode? ins.op = some .indexSet)
      (stack : m.stack = v :: .string name :: receiver :: rest) : Sets s m receiver name v

/-- The member that the next step loads: its receiver, its name and the values below. -/
inductive Gets (s : Setup) (m : Machine) : Value → Text → List Value → Prop
  | static {ins : Instruction} {t : TypeRef}
      (starts : m.Starts s ins) (op : Opcode.ofCode? ins.op = some .loadStatic)
      (type : s.program.resolveType? ins.operand.name = some t) :
      Gets s m (.type t) ins.operand.member m.stack
  | member {ins : Instruction} {receiver : Value} {rest : List Value}
      (starts : m.Starts s ins) (op : Opcode.ofCode? ins.op = some .loadMember)
      (stack : m.stack = receiver :: rest) : Gets s m receiver ins.operand.name rest
  | index {ins : Instruction} {receiver : Value} {name : Text} {rest : List Value}
      (starts : m.Starts s ins) (op : Opcode.ofCode? ins.op = some .indexGet)
      (stack : m.stack = .string name :: receiver :: rest) : Gets s m receiver name rest

/-- The next step stores a value into a cell: into a static field by a route of any class that finds
it, or into a field of an instance by the instance. -/
inductive StoresInto (s : Setup) (m : Machine) : Cell → Value → Prop
  | static {receiver v : Value} {cls owner name : Text} (sets : m.Sets s receiver name v)
      (route : m.world.classOf? receiver = some cls)
      (finds : s.program.findMember? cls name = some (owner, .static)) :
      StoresInto s m (.static owner name) v
  | field {id : Nat} {name : Text} {v : Value} (sets : m.Sets s (.object id) name v)
      (declared : m.world.Declares s.program (.field id name)) : StoresInto s m (.field id name) v

/-- The next step loads from a cell, onto the values below. -/
inductive LoadsFrom (s : Setup) (m : Machine) : Cell → List Value → Prop
  | static {receiver : Value} {cls owner name : Text} {rest : List Value}
      (gets : m.Gets s receiver name rest) (route : m.world.classOf? receiver = some cls)
      (finds : s.program.findMember? cls name = some (owner, .static)) :
      LoadsFrom s m (.static owner name) rest
  | field {id : Nat} {name : Text} {rest : List Value} (gets : m.Gets s (.object id) name rest)
      (declared : m.world.Declares s.program (.field id name)) : LoadsFrom s m (.field id name) rest

theorem Starts.advance_eq {m : Machine} {ins : Instruction} {op : Opcode} (h : m.Starts s ins)
    (hop : Opcode.ofCode? ins.op = some op) :
    m.advance s = settle s ((m.begun s ins).perform s ins.operand op) := by
  have hstep : (m.begun s ins).step s ins = (m.begun s ins).perform s ins.operand op := by
    rw [step, hop]
  rw [advance, h.control]
  change m.fetch s = _
  rw [fetch_eq_settle h.has h.go, hstep]

theorem begun_stack (m : Machine) (ins : Instruction) : (m.begun s ins).stack = m.stack := by
  obtain ⟨_, heq⟩ := m.begun_eq (s := s) ins
  rw [heq]

theorem begun_objects (m : Machine) (ins : Instruction) :
    (m.begun s ins).world.store.objects = m.world.store.objects := by
  obtain ⟨_, heq⟩ := m.begun_eq (s := s) ins
  rw [heq]
  rfl

theorem begun_edits (m : Machine) (ins : Instruction) :
    m.world.Edits s.program false (m.begun s ins).world :=
  (tick_edits m).trans (begun_turns m ins).edits

variable {m : Machine} {receiver v : Value} {name : Text} {rest : List Value} {c : Cell}

/-- A store goes to the native code for members, whatever instruction it is. -/
theorem Sets.advance_eq (h : m.Sets s receiver name v)
    (hc : m.world.cellOf? s.program receiver name = some c) :
    ∃ q : Machine, m.world.Edits s.program false q.world ∧
      q.world.store.objects = m.world.store.objects ∧
      q.world.cellOf? s.program receiver name = some c ∧
      m.advance s = settle s (q.storeMember s receiver name v) := by
  have hcell (ins : Instruction) :
      (m.begun s ins).world.cellOf? s.program receiver name = some c := by
    rw [World.cellOf?_of_eq (begun_objects m ins), hc]
  cases h with
  | @static ins t v rest starts op type stack =>
    have hstack : (m.begun s ins).stack = v :: rest := (begun_stack m ins).trans stack
    refine ⟨{ m.begun s ins with stack := rest }, begun_edits m ins, begun_objects m ins,
      hcell ins, ?_⟩
    rw [starts.advance_eq op]
    simp only [perform, withType]
    rw [type]
    exact congrArg (settle s) (pop_of_cons hstack _)
  | @member ins receiver v rest starts op stack =>
    have hstack : (m.begun s ins).stack = v :: receiver :: rest := (begun_stack m ins).trans stack
    refine ⟨{ m.begun s ins with stack := rest }, begun_edits m ins, begun_objects m ins,
      hcell ins, ?_⟩
    rw [starts.advance_eq op]
    simp only [perform, pop2]
    rw [pop_of_cons hstack, pop_of_cons rfl]
  | @index ins receiver v name rest starts op stack =>
    have hstack : (m.begun s ins).stack = v :: .string name :: receiver :: rest :=
      (begun_stack m ins).trans stack
    refine ⟨{ m.begun s ins with stack := rest }, begun_edits m ins, begun_objects m ins,
      hcell ins, ?_⟩
    rw [starts.advance_eq op]
    simp only [perform, indexSet, pop3]
    rw [pop_of_cons hstack, pop_of_cons rfl, pop_of_cons rfl]
    dsimp only
    rw [World.indexSet_of_cell (hcell ins)]
    rfl

/-- A store by a route of a cell goes well, sets it, and sets no other. -/
theorem Sets.advance (h : m.Sets s receiver name v) (arranged : m.world.Arranged s.program)
    (hc : m.world.cellOf? s.program receiver name = some c) :
    ∃ q, m.advance s = .running q ∧
      (q.world.Declares s.program c → m.world.Declares s.program c ∧ q.world.read c = v) ∧
      ∀ c', q.world.Declares s.program c' → c' ≠ c → q.world.read c' = m.world.read c' := by
  obtain ⟨b, hedits, hobjects, hcell, hadvance⟩ := h.advance_eq hc
  obtain ⟨hok, hset, hother⟩ := World.storeMember_of_cell (arranged.edits hedits) hcell v
  have hrun : m.advance s =
      .running { b with world := (b.world.storeMember s.program receiver name v).2 } := by
    have hpair : b.world.storeMember s.program receiver name v =
        (.ok (), (b.world.storeMember s.program receiver name v).2) := Prod.ext hok rfl
    rw [hadvance]
    unfold storeMember reply
    rw [hpair]
    rfl
  refine ⟨_, hrun, fun hd => ?_, fun c' hd hne => (hother c' hd hne).trans (hedits.read c')⟩
  obtain ⟨hbefore, hread⟩ := hset hd
  exact ⟨World.declares_of_eq hobjects hbefore, hread⟩

/-- A load goes to the native code for members, whatever instruction it is. -/
theorem Gets.advance_eq (h : m.Gets s receiver name rest)
    (hc : m.world.cellOf? s.program receiver name = some c) :
    ∃ (q : Machine) (here : Place), m.world.Edits s.program false q.world ∧ q.stack = rest ∧
      q.world.cellOf? s.program receiver name = some c ∧
      m.advance s = settle s (q.pushReply (q.world.loadMember s.program here receiver name)) := by
  have hcell (ins : Instruction) :
      (m.begun s ins).world.cellOf? s.program receiver name = some c := by
    rw [World.cellOf?_of_eq (begun_objects m ins), hc]
  cases h with
  | @static ins t starts op type =>
    refine ⟨m.begun s ins, (m.begun s ins).place s, begun_edits m ins, begun_stack m ins,
      hcell ins, ?_⟩
    rw [starts.advance_eq op]
    simp only [perform, withType]
    rw [type]
    rfl
  | @member ins receiver rest starts op stack =>
    have hstack : (m.begun s ins).stack = receiver :: rest := (begun_stack m ins).trans stack
    refine ⟨{ m.begun s ins with stack := rest }, (m.begun s ins).place s, begun_edits m ins, rfl,
      hcell ins, ?_⟩
    rw [starts.advance_eq op]
    simp only [perform]
    rw [pop_of_cons hstack]
    rfl
  | @index ins receiver name rest starts op stack =>
    have hstack : (m.begun s ins).stack = .string name :: receiver :: rest :=
      (begun_stack m ins).trans stack
    refine ⟨{ m.begun s ins with stack := rest }, (m.begun s ins).place s, begun_edits m ins, rfl,
      hcell ins, ?_⟩
    rw [starts.advance_eq op]
    simp only [perform, pop2]
    rw [pop_of_cons hstack, pop_of_cons rfl]
    dsimp only
    rw [World.indexGet_of_cell (hcell ins)]
    rfl

/-- A load from a cell goes well and pushes what the cell holds. -/
theorem Gets.advance (h : m.Gets s receiver name rest)
    (hc : m.world.cellOf? s.program receiver name = some c) :
    ∃ q, m.advance s = .running q ∧ q.stack = m.world.read c :: rest := by
  obtain ⟨b, here, hedits, hstack, hcell, hadvance⟩ := h.advance_eq hc
  have hok : (b.world.loadMember s.program here receiver name).1 = .ok (b.world.read c) :=
    World.loadMember_of_cell hcell
  have hpair : b.world.loadMember s.program here receiver name =
      (.ok (b.world.read c), (b.world.loadMember s.program here receiver name).2) := Prod.ext hok rfl
  have hrun : m.advance s = .running
      ({ b with world := (b.world.loadMember s.program here receiver name).2 }.push
        (b.world.read c)) := by
    rw [hadvance]
    unfold pushReply reply
    rw [hpair]
    rfl
  exact ⟨_, hrun, congrArg₂ List.cons (hedits.read c) hstack⟩

/-- An instruction that would set a member that stands for no cell sets no field. -/
theorem perform_turns_of_unset {ins : Instruction} {op : Opcode} (starts : m.Starts s ins)
    (hop : Opcode.ofCode? ins.op = some op) (sets : op.setsMember = true)
    (unset : ∀ receiver name v, m.Sets s receiver name v →
      m.world.cellOf? s.program receiver name = none) :
    (m.begun s ins).Turns s false ((m.begun s ins).perform s ins.operand op).machine := by
  have hnone {receiver v : Value} {name : Text} (h : m.Sets s receiver name v) :
      (m.begun s ins).world.cellOf? s.program receiver name = none := by
    rw [World.cellOf?_of_eq (begun_objects m ins)]
    exact unset receiver name v h
  have hbegun := begun_stack (s := s) m ins
  cases op with
  | storeStatic =>
    simp only [perform, withType]
    split
    · next t type =>
      refine pop_turns_of_stack fun v rest hv => ?_
      have h : m.Sets s (.type t) ins.operand.member v := .static starts hop type (hbegun ▸ hv)
      exact reply_turns (World.storeMember_of_none (hnone h) v) fun _ m' => .refl m'
    · exact .refl _
  | storeMember =>
    simp only [perform, pop2]
    refine pop_turns_of_stack fun v stack hv => pop_turns_of_stack fun receiver rest hrest => ?_
    have hstack : m.stack = v :: receiver :: rest := by
      rw [← hbegun, hv]
      exact congrArg (v :: ·) hrest
    have h : m.Sets s receiver ins.operand.name v := .member starts hop hstack
    exact reply_turns (World.storeMember_of_none (hnone h) v) fun _ m' => .refl m'
  | indexSet =>
    simp only [perform, indexSet, pop3]
    refine pop_turns_of_stack fun v stack hv => pop_turns_of_stack fun idx stack' hidx =>
      pop_turns_of_stack fun receiver rest hrest => ?_
    refine reply_turns (World.indexSet_of_none (fun name hname => ?_) v) fun _ m' => .refl m'
    have hstack : m.stack = v :: .string name :: receiver :: rest := by
      rw [← hbegun, hv, ← hname]
      exact congrArg (v :: ·) (hidx.trans (congrArg (idx :: ·) hrest))
    exact hnone (.index starts hop hstack)
  | _ => cases sets

/-- A step that stores into no cell sets no field. -/
theorem edits_of_unset (unset : ∀ receiver name v, m.Sets s receiver name v →
    m.world.cellOf? s.program receiver name = none) :
    m.world.Edits s.program false (m.advance s).machine.world := by
  -- A step that executes none of the three instructions that set members sets nothing anyway.
  by_cases hsets : ∃ ins op, m.Starts s ins ∧ Opcode.ofCode? ins.op = some op ∧
      op.setsMember = true
  · obtain ⟨ins, op, hstarts, hop, hmember⟩ := hsets
    have hperform := perform_turns_of_unset hstarts hop hmember unset
    rw [hstarts.advance_eq hop]
    exact (begun_edits m ins).trans (settle_turns hperform).edits
  · refine advance_edits m fun ins op hstarts hop hmember => ?_
    exact absurd ⟨ins, op, hstarts, hop, hmember⟩ hsets

theorem Sets.storesInto (h : m.Sets s receiver name v)
    (hc : m.world.cellOf? s.program receiver name = some c)
    (declared : m.world.Declares s.program c) : m.StoresInto s c v := by
  rcases World.cellOf?_cases hc with ⟨cls, owner, route, finds, rfl⟩ | ⟨id, owner, rfl, -, rfl⟩
  · exact .static h route finds
  · exact .field h declared

theorem StoresInto.sets (h : m.StoresInto s c v) :
    ∃ receiver name, m.Sets s receiver name v ∧
      m.world.cellOf? s.program receiver name = some c ∧ m.world.Declares s.program c := by
  cases h with
  | @static receiver v cls owner name sets route finds =>
    have howner : s.program.findMember? owner name = some (owner, .static) :=
      Program.findMember?_owner finds
    exact ⟨receiver, name, sets, World.cellOf?_static route finds, howner⟩
  | @field id name v sets declared =>
    have hcell : m.world.cellOf? s.program (.object id) name = some (.field id name) := by
      obtain ⟨-, owner, finds⟩ := declared
      exact World.cellOf?_field finds
    exact ⟨.object id, name, sets, hcell, declared⟩

theorem LoadsFrom.gets (h : m.LoadsFrom s c rest) :
    ∃ receiver name, m.Gets s receiver name rest ∧
      m.world.cellOf? s.program receiver name = some c ∧ m.world.Declares s.program c := by
  cases h with
  | @static receiver cls owner name rest gets route finds =>
    have howner : s.program.findMember? owner name = some (owner, .static) :=
      Program.findMember?_owner finds
    exact ⟨receiver, name, gets, World.cellOf?_static route finds, howner⟩
  | @field id name rest gets declared =>
    have hcell : m.world.cellOf? s.program (.object id) name = some (.field id name) := by
      obtain ⟨-, owner, finds⟩ := declared
      exact World.cellOf?_field finds
    exact ⟨.object id, name, gets, hcell, declared⟩

/-- Only the instructions that set members store into cells. -/
theorem StoresInto.setsMember (h : m.StoresInto s c v) :
    ∃ ins op, m.Starts s ins ∧ Opcode.ofCode? ins.op = some op ∧ op.setsMember = true := by
  obtain ⟨receiver, name, hsets, -, -⟩ := h.sets
  cases hsets with
  | static starts op _ _ => exact ⟨_, _, starts, op, rfl⟩
  | member starts op _ => exact ⟨_, _, starts, op, rfl⟩
  | index starts op _ => exact ⟨_, _, starts, op, rfl⟩

theorem follows_advance (m : Machine) : m.world.Follows (m.advance s).machine.world := by
  have hedits : m.world.Edits s.program true (m.advance s).machine.world :=
    m.advance_edits fun _ _ _ _ _ => rfl
  exact hedits.follows

/-- A store into a cell goes well, and after it every declared cell but this one is as before. -/
theorem StoresInto.advance (h : m.StoresInto s c v) (arranged : m.world.Arranged s.program) :
    ∃ q, m.advance s = .running q ∧ q.world.read c = v ∧
      ∀ c', q.world.Declares s.program c' → c' ≠ c → q.world.read c' = m.world.read c' := by
  obtain ⟨receiver, name, hsets, hcell, declared⟩ := h.sets
  obtain ⟨q, hq, hset, hother⟩ := hsets.advance arranged hcell
  have hfollows := follows_advance (s := s) m
  rw [hq] at hfollows
  exact ⟨q, hq, (hset (hfollows.declares declared)).2, hother⟩

/-- A load from a cell goes well and pushes what the cell holds. -/
theorem LoadsFrom.advance (h : m.LoadsFrom s c rest) :
    ∃ q, m.advance s = .running q ∧ q.stack = m.world.read c :: rest := by
  obtain ⟨receiver, name, hgets, hcell, -⟩ := h.gets
  exact hgets.advance hcell

/-- A cell that a step does not store into holds what it held, if the program declares it. -/
theorem read_advance (arranged : m.world.Arranged s.program)
    (declared : (m.advance s).machine.world.Declares s.program c)
    (unset : ∀ v, ¬ m.StoresInto s c v) :
    (m.advance s).machine.world.read c = m.world.read c := by
  -- Either the step stores into another cell, or it stores into none.
  by_cases hsets : ∃ receiver name v c', m.Sets s receiver name v ∧
      m.world.cellOf? s.program receiver name = some c'
  · obtain ⟨receiver, name, v, c', h, hc⟩ := hsets
    obtain ⟨q, hq, hset, hother⟩ := h.advance arranged hc
    rw [hq] at declared ⊢
    refine hother c declared fun heq => unset v ?_
    subst heq
    exact h.storesInto hc (hset declared).1
  · refine (edits_of_unset fun receiver name v h => ?_).read c
    refine Option.eq_none_iff_forall_ne_some.mpr fun c' hc => ?_
    exact hsets ⟨receiver, name, v, c', h, hc⟩

end Machine

/-- A cell that was not declared before holds nothing. -/
theorem World.read_of_undeclared {p : Program} {w w' : World} {c : Cell} (h : w.Follows w')
    (declared : w'.Declares p c) (before : ¬ w.Declares p c) : w.read c = .null := by
  cases c with
  | static owner name => exact absurd declared before
  | field id name =>
    have hnone : w.store.objects[id]? = none := by
      refine Option.eq_none_iff_forall_ne_some.mpr fun o ho => before ?_
      obtain ⟨o', ho', hcls⟩ := h.classes id o ho
      obtain ⟨-, owner, hfield⟩ := declared
      have hclass : (w'.store.object id).cls = (w.store.object id).cls := by
        unfold Store.object
        rw [ho, ho']
        exact hcls
      exact ⟨(Array.getElem?_eq_some_iff.mp ho).1, owner, hclass ▸ hfield⟩
    unfold read Store.field Store.object
    dsimp only
    rw [hnone]
    rfl

namespace Setup

/-- A run stores nothing into a cell from one state on until another one. -/
def LeavesAlone (s : Setup) (w : World) (o : RunOptions) (c : Cell) (i j : Nat) : Prop :=
  ∀ k q v, i ≤ k → k < j → s.stateAfter w o k = .running q → ¬ q.StoresInto s c v

/-- The value that a run stored into a cell last, null if it stored none. -/
def LastStored (s : Setup) (w : World) (o : RunOptions) (c : Cell) (j : Nat) (v : Value) : Prop :=
  (∃ i q, i < j ∧ s.stateAfter w o i = .running q ∧ q.StoresInto s c v ∧
      s.LeavesAlone w o c (i + 1) j) ∨
    s.LeavesAlone w o c 0 j ∧ v = .null

variable {w : World} {o : RunOptions} {c : Cell}

theorem edits_stateAfter_succ (w : World) (o : RunOptions) (n : Nat) :
    (s.stateAfter w o n).machine.world.Edits s.program true
      (s.stateAfter w o (n + 1)).machine.world := by
  rw [stateAfter_succ]
  cases s.stateAfter w o n with
  | running m => exact m.advance_edits fun _ _ _ _ _ => rfl
  | ended e m => exact .refl

theorem arranged_stateAfter (w : World) (o : RunOptions) (n : Nat) :
    (s.stateAfter w o n).machine.world.Arranged s.program := by
  induction n with
  | zero => exact ⟨fun e he => absurd he List.not_mem_nil, List.nodup_nil⟩
  | succ n ih => exact ih.edits (edits_stateAfter_succ w o n)

theorem follows_stateAfter {i j : Nat} (hij : i ≤ j) :
    (s.stateAfter w o i).machine.world.Follows (s.stateAfter w o j).machine.world := by
  induction j, hij using Nat.le_induction with
  | base => exact .refl _
  | succ j _ ih => exact ih.trans (edits_stateAfter_succ w o j).follows

/-- A cell that nothing is stored into for a step holds what it held. -/
theorem read_stateAfter_succ {n : Nat}
    (declared : (s.stateAfter w o (n + 1)).machine.world.Declares s.program c)
    (alone : ∀ q v, s.stateAfter w o n = .running q → ¬ q.StoresInto s c v) :
    (s.stateAfter w o (n + 1)).machine.world.read c = (s.stateAfter w o n).machine.world.read c := by
  have harranged := s.arranged_stateAfter w o n
  rw [stateAfter_succ] at declared ⊢
  cases hst : s.stateAfter w o n with
  | running m =>
    rw [hst] at declared harranged
    exact Machine.read_advance harranged declared fun v => alone m v hst
  | ended e m => rfl

/-- A cell that nothing is stored into holds what it held. -/
theorem read_of_leavesAlone {i j : Nat} (hij : i ≤ j)
    (declared : (s.stateAfter w o i).machine.world.Declares s.program c)
    (alone : s.LeavesAlone w o c i j) :
    (s.stateAfter w o j).machine.world.read c = (s.stateAfter w o i).machine.world.read c := by
  induction j, hij using Nat.le_induction with
  | base => rfl
  | succ j hij ih =>
    have hlater := (follows_stateAfter (Nat.le_succ_of_le hij)).declares declared
    have hstep := read_stateAfter_succ hlater fun q v => alone j q v hij (Nat.lt_succ_self j)
    refine hstep.trans (ih fun k q v hik hkj => ?_)
    exact alone k q v hik (Nat.lt_succ_of_lt hkj)

/-- A run goes on after a store into a cell, which holds the value, and every other declared cell
holds what it held. -/
theorem stateAfter_of_storesInto {i : Nat} {m : Machine} {v : Value}
    (hst : s.stateAfter w o i = .running m) (h : m.StoresInto s c v) :
    ∃ q, s.stateAfter w o (i + 1) = .running q ∧ q.world.read c = v ∧
      ∀ c', q.world.Declares s.program c' → c' ≠ c → q.world.read c' = m.world.read c' := by
  have harranged := s.arranged_stateAfter w o i
  rw [hst] at harranged
  obtain ⟨q, hq, hread⟩ := h.advance harranged
  refine ⟨q, ?_, hread⟩
  rw [stateAfter_succ, hst]
  exact hq

/-- A run goes on after a load from a cell, with what the cell holds on the stack. -/
theorem stateAfter_of_loadsFrom {j : Nat} {m : Machine} {rest : List Value}
    (hst : s.stateAfter w o j = .running m) (h : m.LoadsFrom s c rest) :
    ∃ q, s.stateAfter w o (j + 1) = .running q ∧ q.stack = m.world.read c :: rest := by
  obtain ⟨q, hq, hstack⟩ := h.advance
  refine ⟨q, ?_, hstack⟩
  rw [stateAfter_succ, hst]
  exact hq

theorem LeavesAlone.succ {i j : Nat} (h : s.LeavesAlone w o c i j)
    (alone : ∀ q v, s.stateAfter w o j = .running q → ¬ q.StoresInto s c v) :
    s.LeavesAlone w o c i (j + 1) := by
  intro k q v hik hkj hst
  rcases Nat.lt_succ_iff_lt_or_eq.mp hkj with hkj | rfl
  · exact h k q v hik hkj hst
  · exact alone q v hst

theorem LastStored.succ {j : Nat} {v : Value} (h : s.LastStored w o c j v)
    (alone : ∀ q v, s.stateAfter w o j = .running q → ¬ q.StoresInto s c v) :
    s.LastStored w o c (j + 1) v := by
  rcases h with ⟨i, q, hij, hst, hstores, hsince⟩ | ⟨hsince, hv⟩
  · exact Or.inl ⟨i, q, Nat.lt_succ_of_lt hij, hst, hstores, hsince.succ alone⟩
  · exact Or.inr ⟨hsince.succ alone, hv⟩

/-- A cell holds what the run stored into it last. -/
theorem lastStored_read {j : Nat}
    (declared : (s.stateAfter w o j).machine.world.Declares s.program c) :
    s.LastStored w o c j ((s.stateAfter w o j).machine.world.read c) := by
  -- State by state: the next step stores into the cell, or leaves what it found.
  induction j with
  | zero =>
    refine Or.inr ⟨fun k q v _ hk => absurd hk (Nat.not_lt_zero k), ?_⟩
    cases c <;> rfl
  | succ j ih =>
    by_cases hstores : ∃ q v, s.stateAfter w o j = .running q ∧ q.StoresInto s c v
    · obtain ⟨q, v, hst, h⟩ := hstores
      obtain ⟨n, hnext, hread, -⟩ := stateAfter_of_storesInto hst h
      refine Or.inl ⟨j, q, Nat.lt_succ_self j, hst, ?_, fun k q v hjk hkj => absurd hkj (by omega)⟩
      rw [hnext]
      exact hread ▸ h
    · have halone (q : Machine) (v : Value) (hst : s.stateAfter w o j = .running q) :
          ¬ q.StoresInto s c v := fun h => hstores ⟨q, v, hst, h⟩
      rw [read_stateAfter_succ declared halone]
      by_cases hbefore : (s.stateAfter w o j).machine.world.Declares s.program c
      · exact (ih hbefore).succ halone
      · have hnull := World.read_of_undeclared (follows_stateAfter (Nat.le_succ j)) declared hbefore
        refine Or.inr ⟨LeavesAlone.succ (fun k q v _ hkj hst h => hbefore ?_) halone, hnull⟩
        -- What was stored into before was declared then.
        obtain ⟨-, -, -, -, hdeclared⟩ := h.sets
        have hfollows : q.world.Follows (s.stateAfter w o j).machine.world := by
          have hlater := follows_stateAfter (s := s) (w := w) (o := o) (Nat.le_of_lt hkj)
          rwa [hst] at hlater
        exact hfollows.declares hdeclared

/-- A class has one static object in a run. -/
theorem staticObject_unique {i j : Nat} {key : Text} {id id' : Nat}
    (h : (key, id) ∈ (s.stateAfter w o i).machine.world.statics)
    (h' : (key, id') ∈ (s.stateAfter w o j).machine.world.statics) : id = id' := by
  -- Both are among the static objects of the later one of the two states.
  have hboth (k : Nat) (hik : i ≤ k) (hjk : j ≤ k) : id = id' := by
    have hmem := (follows_stateAfter hik).statics _ h
    have hmem' := (follows_stateAfter hjk).statics _ h'
    have hsame := List.inj_on_of_nodup_map (s.arranged_stateAfter w o k).keys hmem hmem' rfl
    exact congrArg Prod.snd hsame
  rcases Nat.le_total i j with hij | hji
  · exact hboth j hij (Nat.le_refl j)
  · exact hboth i (Nat.le_refl i) hji

/-- All routes to a static field reach one cell, and a field of an instance has one of its own. What is
stored by a route of any class that finds a static field is what any route of any class that finds
the same one loads, until something else is stored. A store changes no other cell, classes have one
static object each, and what is loaded from a cell, a static one or one of an instance, is what was
stored last into that very cell, null before anything was. -/
theorem static_routes_reach_one_cell (s : Setup) (w : World) (o : RunOptions) :
    (∀ (C D O name : Text) (i j : Nat) (m m' : Machine) (receiver receiver' v : Value)
        (rest : List Value), s.program.findMember? C name = some (O, .static) →
      s.program.findMember? D name = some (O, .static) →
      s.stateAfter w o i = .running m → m.world.classOf? receiver = some C →
      m.Sets s receiver name v → i < j → s.LeavesAlone w o (.static O name) (i + 1) j →
      s.stateAfter w o j = .running m' → m'.world.classOf? receiver' = some D →
      m'.Gets s receiver' name rest →
      ∃ q, s.stateAfter w o (j + 1) = .running q ∧ q.stack = v :: rest) ∧
    (∀ (i : Nat) (m : Machine) (c : Cell) (v : Value), s.stateAfter w o i = .running m →
      m.StoresInto s c v →
      ∃ q, s.stateAfter w o (i + 1) = .running q ∧ q.world.read c = v ∧
        ∀ c', q.world.Declares s.program c' → c' ≠ c → q.world.read c' = m.world.read c') ∧
    (∀ (i j : Nat) (key : Text) (id id' : Nat),
      (key, id) ∈ (s.stateAfter w o i).machine.world.statics →
      (key, id') ∈ (s.stateAfter w o j).machine.world.statics → id = id') ∧
    ∀ (j : Nat) (m : Machine) (c : Cell) (rest : List Value), s.stateAfter w o j = .running m →
      m.LoadsFrom s c rest →
      ∃ q v, s.stateAfter w o (j + 1) = .running q ∧ q.stack = v :: rest ∧
        s.LastStored w o c j v := by
  refine ⟨?_, fun i m c v hst h => stateAfter_of_storesInto hst h,
    fun i j key id id' h h' => staticObject_unique h h', ?_⟩
  · intro C D O name i j m m' receiver receiver' v rest hC hD hst hclass hsets hij halone hst' hclass'
      hgets
    obtain ⟨n, hn, hread, -⟩ := stateAfter_of_storesInto hst (.static hsets hclass hC)
    obtain ⟨q, hq, hstack⟩ := stateAfter_of_loadsFrom hst' (.static hgets hclass' hD)
    -- Both routes lead to the cell of the class `O` that declares the field.
    have hkept : (s.stateAfter w o j).machine.world.read (.static O name) =
        (s.stateAfter w o (i + 1)).machine.world.read (.static O name) :=
      read_of_leavesAlone hij (Program.findMember?_owner hC) halone
    rw [hst', hn] at hkept
    have hsame : m'.world.read (.static O name) = v := hkept.trans hread
    exact ⟨q, hq, hsame ▸ hstack⟩
  · intro j m c rest hst h
    obtain ⟨q, hq, hstack⟩ := stateAfter_of_loadsFrom hst h
    obtain ⟨-, -, -, -, declared⟩ := h.gets
    have hlast : s.LastStored w o c j ((s.stateAfter w o j).machine.world.read c) := by
      refine lastStored_read ?_
      rw [hst]
      exact declared
    rw [hst] at hlast
    exact ⟨q, _, hq, hstack, hlast⟩

end Setup

/-- A program with a static field of a class, stored by the name of a class that inherits it and
loaded by an instance of its own class. -/
def Program.sharing : Program where
  code? := some #[
    { op := Opcode.pushConst.code,
      operand := { lit := some { kind := LiteralKind.int.code, int := 7 } } },
    { op := Opcode.storeStatic.code, operand := { name := [65], member := [120] } },
    { op := Opcode.newObject.code, operand := { name := [66] } },
    { op := Opcode.loadMember.code, operand := { name := [120] } },
    { op := Opcode.halt.code }]
  classes := ⟨[([65], { name := [65], base := [66] }), ([66], { name := [66], statics := [[120]] })],
    by decide⟩

def Setup.sharing : Setup where
  program := Program.sharing
  regionEnds := Region.ends Program.sharing.code

/-- What was stored by the name of the class `A` is loaded from an instance of its base. -/
theorem Setup.sharing_loads_seven :
    ∃ q, sharing.stateAfter {} {} 4 = .running q ∧ q.stack = [.int 7] := by
  let m := (sharing.stateAfter {} {} 1).machine
  let m' := (sharing.stateAfter {} {} 3).machine
  let store : Instruction :=
    { op := Opcode.storeStatic.code, operand := { name := [65], member := [120] } }
  let load : Instruction := { op := Opcode.loadMember.code, operand := { name := [120] } }
  have hstore : m.Starts sharing store := ⟨rfl, rfl, rfl⟩
  have hload : m'.Starts sharing load := ⟨rfl, rfl, rfl⟩
  have hsets : m.Sets sharing (.type ⟨[65], .cls⟩) [120] (.int 7) := .static hstore rfl rfl rfl
  have hgets : m'.Gets sharing (.object 1) [120] [] := .member hload rfl rfl
  have halone : sharing.LeavesAlone {} {} (.static [66] [120]) 2 3 := by
    intro k q v hk hk' hst h
    obtain rfl : k = 2 := by omega
    obtain ⟨ins, op, starts, hop, hmember⟩ := h.setsMember
    have hq : (sharing.stateAfter {} {} 2).machine = q := congrArg Status.machine hst
    have hins : ins = { op := Opcode.newObject.code, operand := { name := [66] } } := by
      have has := starts.has
      rw [← hq] at has
      exact (Option.some.inj has).symm
    rw [hins] at hop
    cases hop
    cases hmember
  exact (static_routes_reach_one_cell sharing {} {}).1 [65] [66] [66] [120] 1 3 m m' _ _ _ _ rfl rfl rfl
    rfl hsets (by decide) halone rfl rfl hgets

end BytecodeMachine
