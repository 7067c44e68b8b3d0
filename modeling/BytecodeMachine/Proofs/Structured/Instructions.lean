import BytecodeMachine.Proofs.Machine.Signal
import BytecodeMachine.Proofs.Machine.WellFormed
import BytecodeMachine.Proofs.Structured.Memory

/-! What single instructions of structured code do to a machine that shows a state. -/
namespace BytecodeMachine.Structured

/-- What stays the same from the start of a statement to its end. -/
structure Spot where
  base : Nat
  frames : List Frame
  depth : Nat
  handlers : List Handler

/-- A spot inside one more scope. -/
def Spot.deeper (x : Spot) : Spot := { x with depth := x.depth + 1 }

/-- A spot inside the region of one more handler. -/
def Spot.under (x : Spot) (d : Handler) : Spot := { x with handlers := d :: x.handlers }

/-- The handler of a region that starts at a spot. -/
def Spot.handler (x : Spot) (catchAt finallyAt : Option Nat) (a e : Nat) : Handler :=
  { catchAddr := catchAt.elim (-1) fun b => (b : Int)
    finallyAddr := finallyAt.elim (-1) fun b => (b : Int)
    tryAddr := a, endAddr := e, scopeDepth := x.depth, callDepth := x.frames.length
    stackHeight := 0 }

/-- How many scopes the callers of a function have open. -/
def openOutside : List Frame → Nat
  | [] => 0
  | f :: _ => f.scopeDepth

/-- A machine shows a state at a spot. -/
structure Stands (s : Setup) (x : Spot) (σ : State) (m : Machine) : Prop where
  frames : m.frames = x.frames
  depth : m.scopeDepth = x.depth
  scopes : openOutside x.frames + σ.locals.length = x.depth
  loops : m.loops = []
  control : m.control = .fetch
  shows : Shows s.program x.base σ m.scope m.world

/-- A machine is about to execute the instruction at an address. -/
structure Poised (s : Setup) (x : Spot) (σ : State) (stack : List Value) (a : Nat) (m : Machine) :
    Prop extends Stands s x σ m where
  handlers : m.handlers = x.handlers
  stack : m.stack = stack
  ip : m.ip = a

/-- Ordinary flow does not come to a finally block at an address. -/
def Spot.Calm (x : Spot) (a : Nat) : Prop :=
  ∀ h ∈ x.handlers.head?, h.callDepth = x.frames.length → h.isFinalizing = false →
    h.finallyAddr ≠ a

/-- A machine goes on for a number of steps. -/
def Moves (s : Setup) (base k : Nat) (m m' : Machine) : Prop :=
  Machine.runFor s k (.running m) = .running m' ∧ Keeps base m.world m'.world

variable {p : Source} {s : Setup} {x : Spot} {σ : State} {stack : List Value} {a : Nat}
  {m : Machine} {ins : Instruction} {op : Opcode}

theorem Moves.refl (s : Setup) (base : Nat) (m : Machine) : Moves s base 0 m m :=
  ⟨rfl, Keeps.refl base m.world⟩

theorem Moves.trans {base j k : Nat} {m m' m'' : Machine} (h : Moves s base j m m')
    (h' : Moves s base k m' m'') : Moves s base (j + k) m m'' := by
  refine ⟨?_, h.2.trans h'.2⟩
  rw [Machine.runFor_add, h.1, h'.1]

theorem Moves.mono {base base' k : Nat} {m' : Machine} (h : Moves s base k m m')
    (hb : base' ≤ base) : Moves s base' k m m' := ⟨h.1, h.2.mono hb⟩

theorem markFinalizing_eq_self (h : Poised s x σ stack a m) (calm : x.Calm a) :
    m.tick.markFinalizing = m.tick := by
  have hhandlers : m.tick.handlers = x.handlers := h.handlers
  unfold Machine.markFinalizing
  rw [hhandlers]
  split
  · rfl
  · next d rest hd =>
    rw [if_neg]
    intro hc
    simp only [Bool.and_eq_true, decide_eq_true_eq, Bool.not_eq_true'] at hc
    obtain ⟨⟨hip, hframes⟩, hfresh⟩ := hc
    have hframes' : d.callDepth = x.frames.length := by
      rw [hframes, ← h.frames]
      rfl
    exact calm d (by simp [hd]) hframes' hfresh (hip.trans h.ip)

/-- Coming to an instruction changes nothing that a state shows in. -/
theorem Poised.begun (h : Poised s x σ stack a m) (calm : x.Calm a) (ins : Instruction) :
    Poised s x σ stack (a + 1) (m.begun s ins) ∧ (m.begun s ins).pc = a ∧
      (m.begun s ins).scope = m.scope ∧ (m.begun s ins).world.store = m.world.store := by
  have hbegun : m.begun s ins =
      Machine.traced s { m.tick with pc := m.tick.ip, ip := m.tick.ip + 1 } ins := by
    unfold Machine.begun
    rw [markFinalizing_eq_self h calm]
  have hip : m.tick.ip + 1 = ((a + 1 : Nat) : Int) := by
    change m.ip + 1 = _
    rw [h.ip]
    omega
  -- The clock and the trace are no part of what shows.
  have hshows {w : World} (hs : w.store = m.world.store) (ho : w.output = m.world.output)
      (hg : w.cancelled = m.world.cancelled ∧ w.deadline = m.world.deadline)
      (hc : w.closures = m.world.closures) : Shows s.program x.base σ m.scope w := by
    obtain ⟨chain, pos, le, pieces, unlimited, going, closures⟩ := h.shows
    exact ⟨hs ▸ chain, pos, hs ▸ le, ho ▸ pieces, ho ▸ unlimited, by rwa [hg.1, hg.2], hc ▸ closures⟩
  rw [hbegun]
  unfold Machine.traced
  split
  · exact ⟨⟨⟨h.frames, h.depth, h.scopes, h.loops, h.control, hshows rfl rfl ⟨rfl, rfl⟩ rfl⟩, h.handlers,
      h.stack, hip⟩, h.ip, rfl, rfl⟩
  · exact ⟨⟨⟨h.frames, h.depth, h.scopes, h.loops, h.control, hshows rfl rfl ⟨rfl, rfl⟩ rfl⟩, h.handlers,
      h.stack, hip⟩, h.ip, rfl, rfl⟩

theorem Poised.advance_step (hp : s.program = p.program) (h : Poised s x σ stack a m)
    (hins : p.code[a]? = some ins) :
    m.advance s = Machine.settle s ((m.begun s ins).step s ins) := by
  have hi : s.program.instruction? m.ip = some ins := by
    rw [hp, h.ip, p.instruction?_eq, hins]
  -- Runs are not cancelled and have no deadline.
  have hgo : m.tick.stopBefore? = none := by
    have hstop : m.tick.world.stop? = none := by
      have hcancelled : m.tick.world.cancelled = false := h.shows.going.1
      have hdeadline : m.tick.world.deadline = none := h.shows.going.2
      unfold World.stop?
      rw [hcancelled, hdeadline]
      rfl
    unfold Machine.stopBefore?
    rw [hstop, ite_self]
  unfold Machine.advance
  rw [h.control]
  dsimp only
  rw [Machine.fetch_eq_settle hi hgo]

theorem Poised.advance_eq (hp : s.program = p.program) (h : Poised s x σ stack a m)
    (hins : p.code[a]? = some ins) (hop : Opcode.ofCode? ins.op = some op) :
    m.advance s = Machine.settle s ((m.begun s ins).perform s ins.operand op) := by
  rw [h.advance_step hp hins]
  unfold Machine.step
  rw [hop]

/-- An instruction that goes on. -/
theorem Poised.next {base : Nat} {Q : Machine → Prop} (hp : s.program = p.program)
    (h : Poised s x σ stack a m) (calm : x.Calm a) (hins : p.code[a]? = some ins)
    (hop : Opcode.ofCode? ins.op = some op)
    (hdo : ∀ m₁, Poised s x σ stack (a + 1) m₁ →
      m₁.pc = a ∧ m₁.scope = m.scope ∧ m₁.world.store = m.world.store → ∃ m',
        m₁.perform s ins.operand op = .next m' ∧ Q m' ∧ Keeps base m₁.world m'.world) :
    ∃ m', Moves s base 1 m m' ∧ Q m' := by
  obtain ⟨hb, hsame⟩ := h.begun calm ins
  obtain ⟨m', hperform, hq, hkeeps⟩ := hdo _ hb hsame
  have hstore := hsame.2.2
  refine ⟨m', ⟨?_, (Keeps.of_store ?_ ?_).trans hkeeps⟩, hq⟩
  · change m.advance s = .running m'
    rw [h.advance_eq hp hins hop, hperform]
    rfl
  · rw [hstore]
  · rw [hstore]

/-- An exception in the store carries what was raised, and its place is known. -/
def Carries (w : World) (id : Nat) (e : Raised) : Prop :=
  ∃ ex, w.store.exceptions[id]? = some ex ∧ ex.kind = e.kind ∧ ex.message = e.message ∧
    ex.payload = e.payload ∧ ex.positioned = true

theorem Carries.keep {base id : Nat} {w w' : World} {e : Raised} (h : Carries w id e)
    (hk : Keeps base w w') : Carries w' id e := by
  obtain ⟨ex, hex, hrest⟩ := h
  exact ⟨ex, hk.exceptions id ex hex, hrest⟩

theorem Carries.exception {w : World} {id : Nat} {e : Raised} (h : Carries w id e) :
    (w.store.exception id).kind = e.kind ∧ (w.store.exception id).message = e.message ∧
      (w.store.exception id).payload = e.payload ∧ (w.store.exception id).positioned = true := by
  obtain ⟨ex, hex, hrest⟩ := h
  rw [Store.exception, hex]
  exact hrest

/-- A signal leaves a spot: a run has come to where the signal leads that starts there. -/
def Departs (s : Setup) (x : Spot) (σ : State) (before : World) (P : World → Signal → Prop)
    (st : Status) : Prop :=
  ∃ m' sig, st.Like (Machine.carry s m' x.handlers sig) ∧ Stands s x σ m' ∧ m'.stack = [] ∧
    Keeps x.base before m'.world ∧ P m'.world sig

/-- An instruction that hands a signal to the handlers. -/
theorem Poised.departs {P : World → Signal → Prop} (hp : s.program = p.program)
    (h : Poised s x σ stack a m) (calm : x.Calm a) (hins : p.code[a]? = some ins)
    (hop : Opcode.ofCode? ins.op = some op) {x' : Spot} (hbase : x'.base = x.base)
    (hdo : ∀ m₁, Poised s x σ stack (a + 1) m₁ → m₁.world.store = m.world.store → ∃ m' sig,
      Machine.settle s (m₁.perform s ins.operand op) = Machine.carry s m' x'.handlers sig ∧
        Stands s x' σ m' ∧ m'.stack = [] ∧ Keeps x.base m₁.world m'.world ∧ P m'.world sig) :
    Departs s x' σ m.world P (m.advance s) := by
  obtain ⟨hb, _, _, hstore⟩ := h.begun calm ins
  obtain ⟨m', sig, hsettle, hstands, hstack, hkeeps, hsig⟩ := hdo _ hb hstore
  refine ⟨m', sig, ?_, hstands, hstack, ?_, hsig⟩
  · rw [h.advance_eq hp hins hop, hsettle]
    exact Status.Like.refl _
  · rw [hbase]
    exact (Keeps.of_store (by rw [hstore]) (by rw [hstore])).trans hkeeps

/-- A signal is an exception with what was raised. -/
def Throws (e : Raised) (w : World) (sig : Signal) : Prop := ∃ id, sig = .thrown id ∧ Carries w id e

/-- An instruction that raises an exception. -/
theorem Poised.raises {cause : ErrorCause} {payload : Value} (hp : s.program = p.program)
    (h : Poised s x σ stack a m) (calm : x.Calm a) (hins : p.code[a]? = some ins)
    (hop : Opcode.ofCode? ins.op = some op)
    (hdo : ∀ m₁, Poised s x σ stack (a + 1) m₁ → ∃ m₂,
      m₁.perform s ins.operand op = .failed (.raise cause payload) m₂ ∧
        Poised s x σ [] (a + 1) m₂ ∧ Keeps x.base m₁.world m₂.world) :
    Departs s x σ m.world (Throws (.of cause payload)) (m.advance s) := by
  refine h.departs hp calm hins hop rfl fun m₁ h₁ _ => ?_
  obtain ⟨m₂, hperform, h₂, hkeeps⟩ := hdo m₁ h₁
  obtain ⟨e, hcarry, hkind, hmessage, hpayload, hpositioned⟩ :=
    Machine.settle_raise (s := s) h₂.loops cause payload
  have hpush : Keeps x.base m₂.world (m₂.withException e).world := by
    refine ⟨fun _ _ _ => rfl, fun id ex hex => ?_⟩
    have hlt := (Array.getElem?_eq_some_iff.mp hex).1
    rw [← hex]
    exact (Array.getElem?_push_lt hlt).trans (Array.getElem?_eq_getElem hlt).symm
  obtain ⟨chain, pos, le, pieces, unlimited, going, closures⟩ := h₂.shows
  -- The new exception is behind all that there are, so those keep their numbers.
  refine ⟨m₂.withException e, .thrown m₂.world.store.exceptions.size, ?_,
    ⟨h₂.frames, h₂.depth, h₂.scopes, h₂.loops, h₂.control,
      ⟨chain, pos, le, pieces, unlimited, going, closures⟩⟩, h₂.stack, hkeeps.trans hpush, _, rfl,
      e, ?_, hkind, hmessage, hpayload, hpositioned⟩
  · rw [hperform, hcarry, h₂.handlers]
  · simp [Machine.withException]

/-- A machine with another world and another stack. -/
theorem Poised.update {σ' : State} {w : World} (h : Poised s x σ stack a m) (stack' : List Value)
    (hlen : σ'.locals.length = σ.locals.length) (hw : Shows s.program x.base σ' m.scope w) :
    Poised s x σ' stack' a { m with world := w, stack := stack' } :=
  ⟨⟨h.frames, h.depth, by rw [hlen, h.scopes], h.loops, h.control, hw⟩, h.handlers, rfl, h.ip⟩

section Ordinary

variable (hp : s.program = p.program)
include hp

theorem Poised.pushConst (h : Poised s x σ stack a m) (calm : x.Calm a) {c : Const}
    (hins : p.code[a]? = some (pushing c)) :
    ∃ m', Moves s x.base 1 m m' ∧ Poised s x σ (c.value :: stack) (a + 1) m' := by
  refine h.next hp calm hins rfl fun m₁ h₁ _ => ⟨m₁.push c.value, ?_, ?_, Keeps.refl _ _⟩
  · simp only [Machine.perform, pushing, c.denotes]
  · rw [Machine.push, h₁.stack]
    exact h₁.update _ rfl h₁.shows

theorem Poised.pushNull (h : Poised s x σ stack a m) (calm : x.Calm a)
    (hins : p.code[a]? = some (plain .pushNull)) :
    ∃ m', Moves s x.base 1 m m' ∧ Poised s x σ (.null :: stack) (a + 1) m' := by
  refine h.next hp calm hins rfl fun m₁ h₁ _ => ⟨m₁.push .null, rfl, ?_, Keeps.refl _ _⟩
  rw [Machine.push, h₁.stack]
  exact h₁.update _ rfl h₁.shows

theorem Poised.pop {v : Value} (h : Poised s x σ (v :: stack) a m) (calm : x.Calm a)
    (hins : p.code[a]? = some (plain .pop)) :
    ∃ m', Moves s x.base 1 m m' ∧ Poised s x σ stack (a + 1) m' := by
  refine h.next hp calm hins rfl fun m₁ h₁ _ =>
    ⟨{ m₁ with stack := stack }, ?_, h₁.update _ rfl h₁.shows, Keeps.refl _ _⟩
  simp only [Machine.perform, Machine.pop, h₁.stack]

theorem Poised.jump (h : Poised s x σ stack a m) (calm : x.Calm a) {target : Nat}
    (small : target < twoTo 63) (hins : p.code[a]? = some (jumping .jump target)) :
    ∃ m', Moves s x.base 1 m m' ∧ Poised s x σ stack target m' := by
  refine h.next hp calm hins rfl fun m₁ h₁ _ => ⟨{ m₁ with ip := target }, ?_, ?_, Keeps.refl _ _⟩
  · simp only [Machine.perform, jumping, toInt_address small]
  · exact ⟨⟨h₁.frames, h₁.depth, h₁.scopes, h₁.loops, h₁.control, h₁.shows⟩, h₁.handlers, h₁.stack, rfl⟩

theorem Poised.print {c : Const} (h : Poised s x σ [c.value] a m) (calm : x.Calm a)
    (hins : p.code[a]? = some (plain .print)) :
    ∃ m', Moves s x.base 1 m m' ∧
      Poised s x { σ with printed := c.text :: σ.printed } [] (a + 1) m' := by
  refine h.next hp calm hins rfl fun m₁ h₁ _ => ?_
  obtain ⟨chain, pos, le, pieces, unlimited, going, closures⟩ := h₁.shows
  let line := c.text ++ [10]
  let output : Output := { m₁.world.output with
    pieces := line :: m₁.world.output.pieces, size := m₁.world.output.size + line.length }
  refine ⟨{ m₁ with stack := [], world := { m₁.world with output := output } }, ?_,
    h₁.update _ rfl ⟨chain, pos, le, congrArg (line :: ·) pieces, unlimited, going, closures⟩,
    Keeps.of_store rfl rfl⟩
  have hwrite : m₁.world.output.write? line = some output := by
    simp only [Output.write?, unlimited, output]
  have htext : m₁.world.text c.value = c.text := c.text_eq _
  simp only [Machine.perform, Machine.pop, h₁.stack, Machine.print, htext]
  rw [hwrite]

theorem Poised.varDecl {c : Const} {v : Text} (h : Poised s x σ [c.value] a m) (calm : x.Calm a)
    (hins : p.code[a]? = some (named .varDecl v)) :
    ∃ m', Moves s x.base 1 m m' ∧ Poised s x (σ.declare v c) [] (a + 1) m' := by
  refine h.next hp calm hins rfl fun m₁ h₁ _ => ?_
  obtain ⟨hshows, hkeeps⟩ := h₁.shows.declare v c
  refine ⟨_, ?_, h₁.update [] (σ.length_declare v c) hshows, hkeeps⟩
  simp only [Machine.perform, named, Machine.pop, h₁.stack]
  rfl

theorem Poised.storeVar {c : Const} {v : Text} {σ' : State} (h : Poised s x σ [c.value] a m)
    (calm : x.Calm a) (hins : p.code[a]? = some (named .storeVar v))
    (hx : σ.assign? v c = some σ') :
    ∃ m', Moves s x.base 1 m m' ∧ Poised s x σ' [] (a + 1) m' := by
  refine h.next hp calm hins rfl fun m₁ h₁ _ => ?_
  obtain ⟨S, hassign, hshows, hkeeps, hlen⟩ := h₁.shows.assign hx
  refine ⟨_, ?_, h₁.update [] hlen hshows, hkeeps⟩
  simp only [Machine.perform, named, Machine.pop, h₁.stack, Machine.assign, hassign]
  rfl

theorem Poised.storeVar_raises {c : Const} {v : Text} (h : Poised s x σ [c.value] a m)
    (calm : x.Calm a) (hins : p.code[a]? = some (named .storeVar v))
    (hx : σ.assign? v c = none) :
    Departs s x σ m.world (Throws (.of (.undeclaredVariable v) .null)) (m.advance s) := by
  refine h.raises hp calm hins rfl fun m₁ h₁ =>
    ⟨{ m₁ with stack := [] }, ?_, h₁.update [] rfl h₁.shows, Keeps.refl _ _⟩
  simp only [Machine.perform, named, Machine.pop, h₁.stack, Machine.assign, h₁.shows.assign_none hx]
  rfl

theorem Poised.throw {c : Const} (h : Poised s x σ [c.value] a m) (calm : x.Calm a)
    (hins : p.code[a]? = some (plain .throw)) :
    Departs s x σ m.world (Throws (.of (.thrown c.text) c.value)) (m.advance s) := by
  refine h.raises hp calm hins rfl fun m₁ h₁ =>
    ⟨{ m₁ with stack := [] }, ?_, h₁.update [] rfl h₁.shows, Keeps.refl _ _⟩
  have htext : m₁.world.text c.value = c.text := c.text_eq _
  have hthrown : Machine.thrown { m₁ with stack := [] } c.value =
      .raise (.thrown (m₁.world.text c.value)) c.value := by
    have hplain := c.isPlain_value
    cases hv : c.value <;> rw [hv] at hplain <;> first | rfl | cases hplain
  simp only [Machine.perform, Machine.pop, h₁.stack, hthrown, htext]

/-- Loading a variable gives its value, a function where there is no such variable. -/
theorem Poised.loadVar {v : Text} (h : Poised s x σ [] a m) (calm : x.Calm a)
    (hins : p.code[a]? = some (named .loadVar v)) {b : Bool}
    (hb : (σ.lookup? v).map (·.isTrue) = some b ∨ σ.lookup? v = none ∧ b = true ∧
      (s.program.functions.contains v || (s.builtin? v).isSome) = true) :
    ∃ m', Moves s x.base 1 m m' ∧
      ∃ w, Poised s x σ [w] (a + 1) m' ∧ ∀ st : Store, st.truthy w = b := by
  have hdo : ∀ m₁, Poised s x σ [] (a + 1) m₁ → ∃ w world,
      m₁.valueOfName s v = (.ok w, world) ∧ Shows s.program x.base σ m₁.scope world ∧
        Keeps x.base m₁.world world ∧ ∀ st : Store, st.truthy w = b := by
    intro m₁ h₁
    have hlookup : m₁.lookup? v = (σ.lookup? v).map (·.value) := h₁.shows.chain.lookup_eq v
    unfold Machine.valueOfName
    rw [hlookup]
    -- A variable comes before a function of the table, and that before one from outside.
    rcases hb with hb | ⟨hnone, rfl, hdef⟩
    · obtain ⟨c, hc, rfl⟩ := Option.map_eq_some_iff.mp hb
      rw [hc]
      exact ⟨c.value, m₁.world, rfl, h₁.shows, Keeps.refl _ _, c.truthy_eq⟩
    · rw [hnone]
      simp only [Option.map_none]
      split
      · next hcontains =>
        obtain ⟨fn, hfn⟩ := Option.isSome_iff_exists.mp hcontains
        obtain ⟨c, w, hc, _, hshows, hs, he⟩ := h₁.shows.functionClosure (m₁.place s) hfn
        refine ⟨.closure c, w, ?_, hshows, Keeps.of_store hs he, fun _ => rfl⟩
        rw [Machine.tableFunction, hc]
        rfl
      · next hcontains =>
        rw [Bool.eq_false_iff.mpr hcontains, Bool.false_or] at hdef
        obtain ⟨f, hf⟩ := Option.isSome_iff_exists.mp hdef
        refine ⟨.builtin f, m₁.world, ?_, h₁.shows, Keeps.refl _ _, fun _ => rfl⟩
        rw [Machine.outsideFunction, hf]
        rfl
  refine h.next hp calm hins rfl fun m₁ h₁ _ => ?_
  obtain ⟨w, world, hvalue, hshows, hkeeps, htrue⟩ := hdo m₁ h₁
  refine ⟨_, ?_, ⟨w, h₁.update [w] rfl hshows, htrue⟩, hkeeps⟩
  simp only [Machine.perform, named, Machine.pushReply, Machine.reply, hvalue, Machine.push, h₁.stack]

theorem Poised.loadVar_raises {v : Text} (h : Poised s x σ [] a m) (calm : x.Calm a)
    (hins : p.code[a]? = some (named .loadVar v)) (hnone : σ.lookup? v = none)
    (hdef : (s.program.functions.contains v || (s.builtin? v).isSome) = false) :
    Departs s x σ m.world (Throws (.of (.undefinedName v) .null)) (m.advance s) := by
  refine h.raises hp calm hins rfl fun m₁ h₁ => ⟨m₁, ?_, ?_, Keeps.refl _ _⟩
  · have hlookup : m₁.lookup? v = (σ.lookup? v).map (·.value) := h₁.shows.chain.lookup_eq v
    obtain ⟨hcontains, hbuiltin⟩ := Bool.or_eq_false_iff.mp hdef
    have hvalue : m₁.valueOfName s v = m₁.world.fail (.undefinedName v) := by
      rw [Machine.valueOfName, hlookup, hnone]
      simp only [Option.map_none, hcontains, Bool.false_eq_true, if_false]
      have hnone : s.builtin? v = none := by simpa using hbuiltin
      rw [Machine.outsideFunction, hnone]
    simp only [Machine.perform, named, Machine.pushReply, Machine.reply]
    rw [hvalue]
    rfl
  · exact h₁

theorem Poised.jumpIfFalse {w : Value} {b : Bool} (h : Poised s x σ [w] a m) (calm : x.Calm a)
    {target : Nat} (small : target < twoTo 63)
    (hins : p.code[a]? = some (jumping .jumpIfFalse target)) (hb : ∀ st : Store, st.truthy w = b) :
    ∃ m', Moves s x.base 1 m m' ∧ Poised s x σ [] (if b then a + 1 else target) m' := by
  refine h.next hp calm hins rfl fun m₁ h₁ _ => ?_
  have hdo : m₁.perform s (jumping .jumpIfFalse target).operand .jumpIfFalse =
      .next (if b = false then { m₁ with stack := [], ip := target }
        else { m₁ with stack := [] }) := by
    simp only [Machine.perform, jumping, toInt_address small, Machine.branch, Machine.pop,
      h₁.stack, hb]
  refine ⟨_, hdo, ?_, ?_⟩
  · cases b with
    | false => exact ⟨⟨h₁.frames, h₁.depth, h₁.scopes, h₁.loops, h₁.control, h₁.shows⟩, h₁.handlers, rfl, rfl⟩
    | true => exact h₁.update [] rfl h₁.shows
  · cases b <;> exact Keeps.refl _ _

theorem Poised.ret {v : Value} (h : Poised s x σ [v] a m) (calm : x.Calm a)
    (hins : p.code[a]? = some (plain .ret)) :
    Departs s x σ m.world (fun _ sig => sig = .returned v) (m.advance s) := by
  refine h.departs hp calm hins rfl rfl fun m₁ h₁ _ => ⟨{ m₁ with stack := [] }, .returned v, ?_,
    (h₁.update [] rfl h₁.shows).toStands, rfl, Keeps.refl _ _, rfl⟩
  simp only [Machine.perform, Machine.pop, h₁.stack]
  rw [Machine.settle_giveBack]
  exact congrArg (Machine.carry s _ · _) h₁.handlers

theorem Poised.leave (h : Poised s x σ [] a m) (calm : x.Calm a) {target scopes dest : Nat}
    (small : target < twoTo 63 ∧ scopes < twoTo 63) (hdest : dest + scopes = x.depth)
    (inside : floorOf x.frames ≤ dest) (hins : p.code[a]? = some (leaving target scopes)) :
    Departs s x σ m.world (fun _ sig => sig = .left target dest) (m.advance s) := by
  refine h.departs hp calm hins rfl rfl fun m₁ h₁ _ => ⟨m₁, .left target dest, ?_, h₁.toStands,
    h₁.stack, Keeps.refl _ _, rfl⟩
  have hdepth := h₁.depth
  have hfloor : m₁.scopeFloor = floorOf x.frames := by rw [m₁.scopeFloor_eq, h₁.frames]
  have hsettle : Machine.settle s (Machine.leaveTo s m₁ target scopes) =
      Machine.carry s m₁ m₁.handlers (.left target dest) :=
    Machine.settle_leaveTo m₁ target (by omega) (by omega) (by omega)
  simp only [Machine.perform, leaving, toInt_address small.1,
    toInt_address small.2]
  rw [hsettle, h₁.handlers]

theorem Poised.tryPush (h : Poised s x σ [] a m) (calm : x.Calm a) {catchAt finallyAt : Option Nat}
    (small : (∀ b ∈ catchAt, b < twoTo 63) ∧ ∀ b ∈ finallyAt, b < twoTo 63) {e : Nat}
    (hend : s.regionEnds[a]? = some (e : Int))
    (hins : p.code[a]? = some (trying catchAt finallyAt)) :
    ∃ m', Moves s x.base 1 m m' ∧
      Poised s (x.under (x.handler catchAt finallyAt a e)) σ [] (a + 1) m' := by
  refine h.next hp calm hins rfl fun m₁ h₁ hpc => ⟨_, rfl,
    ⟨⟨h₁.frames, h₁.depth, h₁.scopes, h₁.loops, h₁.control, h₁.shows⟩, ?_, h₁.stack, h₁.ip⟩, Keeps.refl _ _⟩
  simp only [Spot.under, Spot.handler, Machine.pushHandler, trying, toInt_handler small.1,
    toInt_handler small.2, hpc.1,
    Int.toNat_natCast, hend, Option.getD_some, h₁.depth, h₁.frames, h₁.stack, h₁.handlers,
    List.length_nil]

theorem Poised.tryPop {d : Handler} (h : Poised s (x.under d) σ [] a m) (calm : (x.under d).Calm a)
    (hins : p.code[a]? = some (plain .tryPop)) :
    ∃ m', Moves s x.base 1 m m' ∧ Poised s x σ [] (a + 1) m' := by
  refine h.next hp calm hins rfl fun m₁ h₁ _ => ⟨{ m₁ with handlers := x.handlers }, ?_,
    ⟨⟨h₁.frames, h₁.depth, h₁.scopes, h₁.loops, h₁.control, h₁.shows⟩, rfl, h₁.stack, h₁.ip⟩,
    Keeps.refl _ _⟩
  have hhandlers : m₁.handlers = d :: x.handlers := h₁.handlers
  simp only [Machine.perform, Machine.popHandler, hhandlers]

/-- The end of a finally block that was entered by ordinary flow. -/
theorem Poised.endFinally {d : Handler} (h : Poised s (x.under d) σ [] a m)
    (calm : (x.under d).Calm a) (hnothing : d.pending = .nothing)
    (hins : p.code[a]? = some (plain .endFinally)) :
    ∃ m', Moves s x.base 1 m m' ∧ Poised s x σ [] (a + 1) m' := by
  refine h.next hp calm hins rfl fun m₁ h₁ _ => ⟨{ m₁ with handlers := x.handlers }, ?_,
    ⟨⟨h₁.frames, h₁.depth, h₁.scopes, h₁.loops, h₁.control, h₁.shows⟩, rfl, h₁.stack, h₁.ip⟩,
    Keeps.refl _ _⟩
  have hhandlers : m₁.handlers = d :: x.handlers := h₁.handlers
  simp only [Machine.perform, Machine.endFinally_eq_replay hhandlers, hnothing, Machine.replay]

/-- The end of a finally block that a signal entered. -/
theorem Poised.endFinally_departs {d : Handler} {sig : Signal} (h : Poised s (x.under d) σ [] a m)
    (calm : (x.under d).Calm a) (hpending : d.pending = sig.pending d)
    (hdepth : d.scopeDepth = x.depth)
    (positioned : ∀ id, sig = .thrown id → ∃ e, Carries m.world id e)
    (inside : ∀ target dest, sig = .left target dest →
      (floorOf x.frames : Int) ≤ dest ∧ dest ≤ (x.depth : Int))
    (hins : p.code[a]? = some (plain .endFinally)) :
    Departs s x σ m.world (fun _ sig' => sig' = sig) (m.advance s) := by
  refine h.departs hp calm hins rfl rfl fun m₁ h₁ hstore =>
    ⟨{ m₁ with handlers := x.handlers }, sig, ?_,
      ⟨h₁.frames, h₁.depth, h₁.scopes, h₁.loops, h₁.control, h₁.shows⟩, h₁.stack, Keeps.refl _ _,
      rfl⟩
  have hhandlers : m₁.handlers = d :: x.handlers := h₁.handlers
  have hscopes : m₁.scopeDepth = x.depth := h₁.depth
  have hfloor : m₁.scopeFloor = floorOf x.frames := by
    rw [m₁.scopeFloor_eq, h₁.frames]
    rfl
  simp only [Machine.perform, Machine.endFinally_eq_replay hhandlers, hpending]
  -- What was put off goes on as the signal it was: an exception keeps its place, a leave its target
  -- and the depth it leads to.
  refine Machine.settle_replay (m := { m₁ with handlers := x.handlers }) h₁.loops
    (hdepth.trans h₁.depth.symm) (fun id hid => ?_) fun target dest ht => ?_
  · obtain ⟨e, he⟩ := positioned id hid
    have hpos := he.exception.2.2.2
    rw [← hstore] at hpos
    exact hpos
  · obtain ⟨hle, hle'⟩ := inside target dest ht
    rw [← hfloor] at hle
    rw [← hscopes] at hle'
    exact ⟨hle, hle'⟩

theorem Poised.pushScope (h : Poised s x σ [] a m) (calm : x.Calm a)
    (hins : p.code[a]? = some (plain .pushScope)) :
    ∃ m', Moves s x.base 1 m m' ∧
      Poised s x.deeper σ.enter [] (a + 1) m' := by
  refine h.next hp calm hins rfl fun m₁ h₁ _ => ⟨m₁.pushScope, rfl,
    ⟨⟨h₁.frames, congrArg (· + 1) h₁.depth, congrArg (· + 1) h₁.scopes, h₁.loops, h₁.control,
      h₁.shows.enter⟩, h₁.handlers, h₁.stack, h₁.ip⟩, keeps_push _ h₁.shows.base_le⟩

end Ordinary

/-- A machine that leaves the innermost scope of a state. -/
theorem Stands.leaveScope (h : Stands s x.deeper σ m)
    (inside : floorOf x.frames ≤ x.depth) : Stands s x σ.leave m.leaveScope := by
  have hdepth : m.leaveScope.scopeDepth = m.scopeDepth - 1 := rfl
  have hscopes : openOutside x.frames + σ.locals.length = x.depth + 1 := h.scopes
  -- The scopes of the callers lie below the floor, so the innermost one is of this function.
  have hout : openOutside x.frames ≤ x.depth := by
    cases hf : x.frames with
    | nil => exact Nat.zero_le _
    | cons f fs =>
      rw [hf] at inside
      exact Nat.le_of_succ_le inside
  have hlen : σ.leave.locals.length = σ.locals.length - 1 := List.length_tail
  have has : σ.locals ≠ [] := List.length_pos_iff.mp (by omega)
  exact ⟨h.frames, by rw [hdepth, h.depth]; rfl, by omega, h.loops, h.control, h.shows.leave has⟩

theorem Poised.popScope (hp : s.program = p.program)
    (h : Poised s x.deeper σ [] a m)
    (calm : x.Calm a) (inside : floorOf x.frames ≤ x.depth)
    (hins : p.code[a]? = some (plain .popScope)) :
    ∃ m', Moves s x.base 1 m m' ∧ Poised s x σ.leave [] (a + 1) m' := by
  refine h.next hp calm hins rfl fun m₁ h₁ _ => ⟨m₁.leaveScope, ?_,
    ⟨h₁.toStands.leaveScope inside, h₁.handlers, h₁.stack, h₁.ip⟩, Keeps.refl _ _⟩
  have hframes : m₁.frames = x.frames := h₁.frames
  have hfloor : m₁.scopeFloor = floorOf x.frames := by rw [m₁.scopeFloor_eq, hframes]
  have hdepth : m₁.scopeDepth = x.depth + 1 := h₁.depth
  simp only [Machine.perform, Machine.popScope]
  rw [if_neg]
  omega

section Calls

/-- The frame of a call at a spot that was made in a scope and goes on at an address. -/
structure CalledFrom (x : Spot) (scope back : Nat) (f : Frame) : Prop where
  returnIp : f.returnIp = back
  scope : f.scope = scope
  scopeDepth : f.scopeDepth = x.depth
  callback : f.callback = false

/-- The spot inside a call. -/
def Spot.inside (x : Spot) (base : Nat) (f : Frame) : Spot :=
  { base := base, frames := f :: x.frames, depth := x.depth + 1, handlers := x.handlers }

/-- The name of a function stands for a closure of it. -/
theorem Poised.callee (hp : s.program = p.program) (fits : p.code.length < twoTo 63)
    (h : Poised s x σ stack a m) (f : Fin p.names.length) :
    ∃ c w, m.calleeOfName s (p.name f) = (.ok (.closure c), w) ∧ c.entry = p.entry f ∧
      c.params = [] ∧ c.scope = World.globals ∧ Shows s.program x.base σ m.scope w ∧
      w.store.scopes = m.world.store.scopes ∧ w.store.exceptions = m.world.store.exceptions := by
  have hfn : s.program.functions.get? (p.name f) = some (p.function f).2 := by
    rw [hp]
    exact p.get?_functions f
  have hcontains : s.program.functions.contains (p.name f) = true := by
    rw [Table.contains, hfn]
    rfl
  obtain ⟨c, w, hc, ⟨fn, hget, hentry, hparams, hscope⟩, hshows, hs, he⟩ :=
    h.shows.functionClosure (m.place s) hfn
  rw [hfn] at hget
  cases hget
  refine ⟨c, w, ?_, ?_, hparams, hscope, hshows, hs, he⟩
  · rw [Machine.calleeOfName, if_pos hcontains, Machine.tableFunction, hc]
    rfl
  · have hlt := (List.getElem?_eq_some_iff.mp (p.placed_body f).2.1).1
    exact hentry.trans (toInt_address (by omega))

theorem call_closure {c : Closure} (hparams : c.params = []) (m : Machine) :
    m.call s (.closure c) 0 0 =
      if s.maxCallDepth ≤ m.frames.length then .failed (.of (.callDepth s.maxCallDepth)) m
      else .next (m.enterFrame c none [] false) := by
  have hrefusal : s.refusal? (.closure c) 0 = none := by
    rw [Setup.refusal?, Setup.arity?, hparams]
    rfl
  have hmany (m : Machine) (k : List Value → Machine → Effect) : m.popMany s 0 k = k [] m := by
    rw [Machine.popMany, if_neg (by simp)]
    rfl
  rw [Machine.call, hrefusal]
  simp only [Machine.checkReceiver, Machine.acceptCall, Machine.tooDeep?, Machine.popCall, hmany,
    Target.of]
  by_cases hdeep : s.maxCallDepth ≤ m.frames.length
  · rw [if_pos hdeep, if_pos hdeep]
  · rw [if_neg hdeep, if_neg hdeep]

theorem enterFrame_eq {c : Closure} (hparams : c.params = []) (m : Machine) :
    m.enterFrame c none [] false =
      { m with
        world := withScopes m.world (m.world.store.scopes.push (some c.scope)).2
        frames :=
          { name := c.name, returnIp := m.ip, callPc := m.pc, scope := m.scope
            scopeDepth := m.scopeDepth, stackBase := m.stack.length, callback := false } :: m.frames
        scope := m.world.store.scopes.cells.size
        scopeDepth := m.scopeDepth + 1
        ip := c.entry } := by
  rw [Machine.enterFrame, hparams]
  rfl

theorem Poised.call (hp : s.program = p.program) (fits : p.code.length < twoTo 63)
    (h : Poised s x σ [] a m) (calm : x.Calm a) {f : Fin p.names.length}
    (hins : p.code[a]? = some (named .call (p.name f)))
    (hdepth : x.frames.length < s.maxCallDepth) :
    ∃ m', Moves s m.world.store.scopes.cells.size 1 m m' ∧ ∃ fr, CalledFrom x m.scope (a + 1) fr ∧
      Poised s (x.inside m.world.store.scopes.cells.size fr) { σ with locals := [[]] } []
        (p.entry f) m' := by
  refine h.next hp calm hins rfl fun m₁ h₁ ⟨_, hscope, hstore⟩ => ?_
  obtain ⟨c, w, hcallee, hentry, hparams, hglobals, hshows, hs, he⟩ := h₁.callee hp fits f
  have hdo : m₁.perform s (named .call (p.name f)).operand .call =
      .next (Machine.enterFrame { m₁ with world := w } c none [] false) := by
    simp only [Machine.perform, named, Machine.reply, hcallee]
    change Machine.call s { m₁ with world := w } (.closure c) 0 0 = _
    rw [call_closure hparams, if_neg]
    exact Nat.not_le.mpr (h₁.frames ▸ hdepth)
  -- Making the closure may add a reference, but no scope.
  have hsize : w.store.scopes.cells.size = m.world.store.scopes.cells.size := by rw [hs, hstore]
  have henter := hshows.call
  have hkeeps := keeps_push (some World.globals) (Nat.le_of_eq hsize.symm)
  rw [← hglobals] at henter hkeeps
  rw [enterFrame_eq hparams] at hdo
  refine ⟨_, hdo, ⟨_, ⟨h₁.ip, hscope, h₁.depth, rfl⟩,
    ⟨⟨congrArg (_ :: ·) h₁.frames, congrArg (· + 1) h₁.depth, congrArg (· + 1) h₁.depth, h₁.loops,
      h₁.control, ?_⟩, h₁.handlers, h₁.stack, hentry⟩⟩, (Keeps.of_store hs he).trans hkeeps⟩
  change Shows s.program m.world.store.scopes.cells.size _ w.store.scopes.cells.size _
  rw [← hsize]
  exact henter

theorem Poised.call_raises (hp : s.program = p.program) (fits : p.code.length < twoTo 63)
    (h : Poised s x σ [] a m) (calm : x.Calm a) {f : Fin p.names.length}
    (hins : p.code[a]? = some (named .call (p.name f)))
    (hdepth : s.maxCallDepth ≤ x.frames.length) :
    Departs s x σ m.world (Throws (.of (.callDepth s.maxCallDepth) .null)) (m.advance s) := by
  refine h.raises hp calm hins rfl fun m₁ h₁ => ?_
  obtain ⟨c, w, hcallee, _, hparams, _, hshows, hs, he⟩ := h₁.callee hp fits f
  refine ⟨{ m₁ with world := w }, ?_, ?_, Keeps.of_store hs he⟩
  · simp only [Machine.perform, named, Machine.reply, hcallee]
    change Machine.call s { m₁ with world := w } (.closure c) 0 0 = _
    rw [call_closure hparams, if_pos (h₁.frames ▸ hdepth)]
    rfl
  · exact ⟨⟨h₁.frames, h₁.depth, h₁.scopes, h₁.loops, h₁.control, hshows⟩, h₁.handlers, h₁.stack,
      h₁.ip⟩

/-- A machine that drops the frame of a call shows what the call has left, with the variables of the
caller. -/
theorem Stands.popFrame {scope back : Nat} {fr : Frame} {σ' : State} {w : World} {m' : Machine}
    (h : Shows s.program x.base σ scope w)
    (hscopes : openOutside x.frames + σ.locals.length = x.depth)
    (called : CalledFrom x scope back fr)
    (h' : Stands s (x.inside w.store.scopes.cells.size fr) σ' m') (stack : m'.stack = [])
    (hk : Keeps w.store.scopes.cells.size w m'.world) :
    Stands s x { σ' with locals := σ.locals } m'.popFrame ∧ m'.popFrame.stack = [] ∧
      m'.popFrame.world = m'.world := by
  have hpop : m'.popFrame = { m' with
      frames := x.frames, scope := scope, scopeDepth := x.depth, stack := [] } := by
    rw [Machine.popFrame, h'.frames]
    simp only [Spot.inside, called.scope, called.scopeDepth, stack, Machine.truncated, List.drop_nil]
  rw [hpop]
  exact ⟨⟨rfl, rfl, hscopes, h'.loops, h'.control, h.back h'.shows hk⟩, rfl, rfl⟩

end Calls

end BytecodeMachine.Structured
