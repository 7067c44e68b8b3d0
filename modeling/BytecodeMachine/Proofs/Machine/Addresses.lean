import BytecodeMachine.Proofs.Machine.NativeLinks
import BytecodeMachine.Proofs.Machine.Signal

/-! Every address that a machine saves for later is one where execution may stand: the return addresses
of frames, the addresses of handlers, the targets of leaves that are put off, and the places of
native loops. Unwinding only drops frames, scopes and values, so it keeps them all. -/
namespace BytecodeMachine

/-- The faults of a machine in the given frames: of the instruction it executes, of running off the
end inside a function, or of a host function. -/
inductive Fault.Listed (s : Setup) (frames : List Frame) (f : Fault) : Prop
  | instruction {ins : Instruction} {op : Opcode} (here : s.program.instruction? f.ip = some ins)
      (known : Opcode.ofCode? ins.op = some op)
      (raised : op.Faults s.program ins.operand f.cause)
  | ranOff (behind : f.ip = s.program.code.size) (raised : f.cause = .outsideProgram f.ip)
      (inside : frames ≠ [])
  | host {h : HostFunction} (registered : h ∈ s.host) (answered : h.Faults f)

/-- What is put off until the end of a finally block. -/
def Pending.Linked (p : Program) (objects : Nat) : Pending → Prop
  | .giveBack v => v.Linked p objects
  | .leave target _ => p.Address target
  | _ => True

structure Handler.Linked (p : Program) (objects : Nat) (h : Handler) : Prop where
  catchAddr : h.hasCatch = true → p.Address h.catchAddr
  finallyAddr : h.hasFinally = true → p.Address h.finallyAddr
  pending : h.pending.Linked p objects

structure Loop.Linked (p : Program) (objects : Nat) (l : Loop) : Prop where
  ip : p.Address l.ip
  pc : p.Address l.pc
  callee : l.callee.Linked p objects
  rest : ∀ v ∈ l.rest, v.Linked p objects
  gathered : l.gathered.Holds (Value.Linked p objects)

/-- A machine whose values are linked to the program and whose addresses are places to stand. -/
structure Machine.Linked (p : Program) (m : Machine) : Prop where
  world : m.world.Linked p
  stack : ∀ v ∈ m.stack, v.Linked p m.world.objects
  frames : ∀ f ∈ m.frames, p.Address f.returnIp
  handlers : ∀ h ∈ m.handlers, h.Linked p m.world.objects
  loops : ∀ l ∈ m.loops, l.Linked p m.world.objects
  ip : p.Address m.ip
  pc : p.Address m.pc

/-- An effect that leaves the machine linked, and whose faults are listed. -/
inductive Effect.Linked (s : Setup) : Effect → Prop
  | next {m : Machine} (machine : m.Linked s.program) : Linked s (.next m)
  | returned {v : Value} {m : Machine} (machine : m.Linked s.program)
      (value : v.Linked s.program m.world.objects) : Linked s (.returned v m)
  | failed {f : Failure} {m : Machine} (machine : m.Linked s.program)
      (failure : f.Linked s.program (Fault.Listed s m.frames) m.world.objects) :
      Linked s (.failed f m)

variable {s : Setup}

theorem Pending.Linked.mono {p : Program} {n n' : Nat} (hn : n ≤ n') {d : Pending}
    (h : d.Linked p n) : d.Linked p n' := by
  cases d with
  | giveBack v => exact Value.Linked.mono hn h
  | _ => exact h

theorem Handler.Linked.mono {p : Program} {n n' : Nat} (hn : n ≤ n') {h : Handler}
    (hh : h.Linked p n) : h.Linked p n' := { hh with pending := hh.pending.mono hn }

theorem Loop.Linked.mono {p : Program} {n n' : Nat} (hn : n ≤ n') {l : Loop}
    (h : l.Linked p n) : l.Linked p n' where
  ip := h.ip
  pc := h.pc
  callee := h.callee.mono hn
  rest v hv := (h.rest v hv).mono hn
  gathered := h.gathered.mono fun _ hv => hv.mono hn

namespace Machine

variable {p : Program} {m : Machine}

/-- Everything linked stays so in a world with more objects. -/
theorem Linked.with_world (h : m.Linked p) {w : World} (hw : w.Linked p)
    (grown : m.world.objects ≤ w.objects) : Linked p { m with world := w } where
  world := hw
  stack v hv := (h.stack v hv).mono grown
  frames := h.frames
  handlers d hd := (h.handlers d hd).mono grown
  loops l hl := (h.loops l hl).mono grown
  ip := h.ip
  pc := h.pc

theorem Linked.push (h : m.Linked p) {v : Value} (hv : v.Linked p m.world.objects) :
    (m.push v).Linked p := by
  refine { h with stack := fun u hu => ?_ }
  rcases List.mem_cons.mp hu with rfl | hu
  · exact hv
  · exact h.stack u hu

theorem Linked.with_stack (h : m.Linked p) {stack : List Value}
    (hs : ∀ v ∈ stack, v ∈ m.stack) : Linked p { m with stack := stack } :=
  { h with stack := fun v hv => h.stack v (hs v hv) }

theorem Linked.with_ip (h : m.Linked p) {ip : Int} (hip : p.Address ip) :
    Linked p { m with ip := ip } := { h with ip := hip }

theorem Linked.with_handlers (h : m.Linked p) {handlers : List Handler}
    (hs : ∀ d ∈ handlers, d.Linked p m.world.objects) :
    Linked p { m with handlers := handlers } := { h with handlers := hs }

theorem Linked.popFrames (h : m.Linked p) (n : Nat) : (popFrames n m).Linked p := by
  induction n generalizing m with
  | zero => exact h
  | succ n ih =>
    refine ih ?_
    unfold popFrame
    split
    · exact h
    · next f frames hf =>
      have hrest : ∀ g ∈ frames, p.Address g.returnIp := fun g hg =>
        h.frames g (hf ▸ List.mem_cons_of_mem _ hg)
      exact { h with
        frames := hrest
        stack := fun v hv => h.stack v (mem_of_mem_truncated hv) }

theorem leaveScopes_world (n : Nat) (m : Machine) : (leaveScopes n m).world = m.world := by
  induction n generalizing m with
  | zero => rfl
  | succ n ih => exact ih m.leaveScope

theorem Linked.leaveScopes (h : m.Linked p) (n : Nat) : (leaveScopes n m).Linked p := by
  induction n generalizing m with
  | zero => exact h
  | succ n ih => exact ih (m := m.leaveScope) { h with }

theorem unwindTo_world (m : Machine) (h : Handler) : (m.unwindTo h).world = m.world :=
  (leaveScopes_world _ _).trans (popFrames_world _ _)

theorem Linked.unwindTo (h : m.Linked p) (d : Handler) : (m.unwindTo d).Linked p :=
  ((h.popFrames _).leaveScopes _).with_stack fun _ hv => mem_of_mem_truncated hv

/-- What a handler does first, in whichever phase it then is. -/
theorem Linked.unwoundIn (h : m.Linked p) {d : Handler} {rest : List Handler}
    (hd : d.Linked p m.world.objects) (hrest : ∀ e ∈ rest, e.Linked p m.world.objects)
    (phase : Phase) (hpending : { d with phase := phase }.pending.Linked p m.world.objects) :
    Linked p { m.unwindTo d with handlers := { d with phase := phase } :: rest } := by
  have hu : (m.unwindTo d).Linked p := h.unwindTo d
  refine hu.with_handlers ?_
  -- Unwinding leaves the world, so what was linked before still is.
  rw [unwindTo_world]
  intro e he
  rcases List.mem_cons.mp he with rfl | he
  · exact ⟨hd.catchAddr, hd.finallyAddr, hpending⟩
  · exact hrest e he

/-- A transfer that is put off until the finally block of a handler is through. -/
theorem Linked.enterFinally (h : m.Linked p) {d : Handler} {rest : List Handler}
    {pending : Pending} (hd : d.Linked p m.world.objects) (has : d.hasFinally = true)
    (hrest : ∀ e ∈ rest, e.Linked p m.world.objects)
    (hpending : pending.Linked p m.world.objects) :
    (m.enterFinally d rest pending).Linked p :=
  (h.unwoundIn hd hrest (.finalizing pending) hpending).with_ip (hd.finallyAddr has)

theorem Linked.enterCatch (h : m.Linked p) {d : Handler} {rest : List Handler}
    (hd : d.Linked p m.world.objects) (has : d.hasCatch = true)
    (hrest : ∀ e ∈ rest, e.Linked p m.world.objects) (exc : Nat) :
    (m.enterCatch d rest exc).Linked p := by
  have hu := h.unwoundIn hd hrest .catching trivial
  exact (hu.push (v := .exception exc) trivial).with_ip (hd.catchAddr has)

theorem Linked.throwTo (h : m.Linked p) (exc boundary : Nat) {handlers : List Handler}
    (hs : ∀ d ∈ handlers, d.Linked p m.world.objects) :
    (m.throwTo exc boundary handlers).machine.Linked p := by
  have ht := throwTo_throws m exc boundary handlers
  generalize m.throwTo exc boundary handlers = t at ht ⊢
  cases ht with
  | caught above found _ _ _ has =>
    obtain ⟨hd, hrest⟩ := List.forall_mem_cons.mp (List.forall_mem_append.mp (found ▸ hs)).2
    exact h.enterCatch hd has hrest exc
  | entered above found _ _ has =>
    obtain ⟨hd, hrest⟩ := List.forall_mem_cons.mp (List.forall_mem_append.mp (found ▸ hs)).2
    exact h.enterFinally hd has hrest trivial
  | escaped above found =>
    exact (h.with_handlers (List.forall_mem_append.mp (found ▸ hs)).2).popFrames _

theorem throwTo_world (m : Machine) (exc boundary : Nat) (handlers : List Handler) :
    (m.throwTo exc boundary handlers).machine.world = m.world := by
  have ht := throwTo_throws m exc boundary handlers
  generalize m.throwTo exc boundary handlers = t at ht ⊢
  cases ht with
  | @caught _ _ d | @entered _ _ d => exact unwindTo_world m d
  | escaped => exact popFrames_world _ _

/-- A return or a leave enters a finally block with what it puts off, or goes on in the same world. -/
theorem Linked.defers (h : m.Linked p) {exits : Handler → Prop} {pending : Handler → Pending}
    {handlers : List Handler} {r : Machine ⊕ Machine} (hr : Defers m exits pending handlers r)
    (hs : ∀ d ∈ handlers, d.Linked p m.world.objects)
    (hp : ∀ d, (pending d).Linked p m.world.objects) :
    (r.elim id id).Linked p ∧ ∀ n, r = .inr n → n.world = m.world := by
  cases hr with
  | @entered _ _ d found _ _ has =>
    obtain ⟨hd, hrest⟩ := List.forall_mem_cons.mp (List.forall_mem_append.mp (found ▸ hs)).2
    exact ⟨h.enterFinally hd has hrest (hp d), fun n hn => by cases hn⟩
  | out above found =>
    refine ⟨h.with_handlers (List.forall_mem_append.mp (found ▸ hs)).2, fun n hn => ?_⟩
    cases hn
    rfl

theorem giveBack_linked (h : m.Linked s.program) {v : Value}
    (hv : v.Linked s.program m.world.objects) : (m.giveBack v).Linked s := by
  obtain ⟨hr, hworld⟩ := h.defers (returnThrough_defers m v m.handlers) h.handlers fun _ => hv
  unfold giveBack
  split
  · next n heq =>
    rw [heq] at hr
    exact .next hr
  · next n heq =>
    rw [heq] at hr
    have hn : n.Linked s.program := hr
    have hvn : v.Linked s.program n.world.objects := by
      rw [hworld n heq]
      exact hv
    split
    · exact .failed hn hvn
    · next f fs hf =>
      have hpop : n.popFrame.Linked s.program := hn.popFrames 1
      have hvp : v.Linked s.program n.popFrame.world.objects := by
        rw [show n.popFrame.world = n.world from popFrames_world 1 n]
        exact hvn
      dsimp only
      split
      · exact .returned hpop hvp
      · have hreturn : s.program.Address f.returnIp := hn.frames f (hf ▸ List.mem_cons_self ..)
        exact .next ((hpop.with_ip hreturn).push hvp)

theorem leaveTo_linked (h : m.Linked s.program) {target scopes : Int}
    (htarget : s.program.Address target)
    (past : Fault.Listed s m.frames ⟨(m.place s).ip, (m.place s).op, .leavePast scopes⟩) :
    (leaveTo s m target scopes).Linked s := by
  obtain ⟨hl, -⟩ := h.defers (leaveThrough_defers m target (m.leaveDepth scopes) m.handlers)
    h.handlers fun _ => htarget
  unfold leaveTo
  dsimp only
  split
  · exact .failed h past
  · split
    · next n heq =>
      rw [heq] at hl
      exact .next hl
    · next n heq =>
      rw [heq] at hl
      have hleft : (n.leaveScopesTo (m.leaveDepth scopes)).Linked s.program :=
        Linked.leaveScopes hl _
      exact .next (hleft.with_ip htarget)

/-- What was put off goes on among the handlers around the one whose block has ended. -/
theorem endFinally_linked (h : m.Linked s.program)
    (without : Fault.Listed s m.frames
      ⟨(m.place s).ip, (m.place s).op, .endFinallyWithoutHandler⟩)
    (past : ∀ scopes, Fault.Listed s m.frames
      ⟨(m.place s).ip, (m.place s).op, .leavePast scopes⟩) :
    (endFinally s m).Linked s := by
  cases hh : m.handlers with
  | nil =>
    unfold endFinally
    rw [hh]
    exact .failed h without
  | cons d rest =>
    have hd : d.Linked s.program m.world.objects := h.handlers d (hh ▸ List.mem_cons_self ..)
    have hm : Linked s.program { m with handlers := rest } :=
      h.with_handlers fun e he => h.handlers e (hh ▸ List.mem_cons_of_mem _ he)
    have hpending : d.pending.Linked s.program m.world.objects := hd.pending
    rw [endFinally_eq_replay hh]
    cases hp : d.pending with
    | nothing => exact .next hm
    | exception id => exact .failed hm trivial
    | giveBack v =>
      rw [hp] at hpending
      exact giveBack_linked hm hpending
    | leave target scopes =>
      rw [hp] at hpending
      exact leaveTo_linked hm hpending (past scopes)

theorem Linked.exceptionOf (h : m.Linked p) {F : Fault → Prop} {f : Failure}
    (hf : f.Linked p F m.world.objects) {id : Nat} {n : Machine}
    (he : m.exceptionOf f = some (id, n)) :
    n.Linked p ∧ n.world.objects = m.world.objects := by
  unfold Machine.exceptionOf at he
  split at he
  · cases he
    exact ⟨h.with_world (h.world.newException hf) (Nat.le_refl _), rfl⟩
  · cases he
    exact ⟨h, rfl⟩
  · cases he

/-- Stamping an exception leaves the value it carries. -/
theorem Linked.stamp (h : m.Linked s.program) (id : Nat) :
    (stamp s m id).Linked s.program ∧ (stamp s m id).world.objects = m.world.objects := by
  have hpayload (e : Exception) : (stamped s m e).payload = e.payload := by
    unfold stamped
    dsimp only
    split <;> rfl
  have hexceptions : ∀ e ∈ m.world.store.exceptions.modify id (stamped s m),
      e.payload.Linked s.program m.world.objects := by
    refine forall_mem_modify (f := stamped s m) h.world.store.values.exceptions id fun e he => ?_
    rw [hpayload]
    exact he
  unfold Machine.stamp
  dsimp only
  split
  · exact ⟨h, rfl⟩
  · refine ⟨h.with_world ?_ (Nat.le_refl _), rfl⟩
    exact h.world.of_holds rfl rfl rfl { h.world.store.values with exceptions := hexceptions }

/-- A failure that is offered to handlers goes to one of them or comes out; a fault comes out at once,
before any frame is dropped. -/
theorem Linked.offer (h : m.Linked s.program) {f : Failure}
    (hf : f.Linked s.program (Fault.Listed s m.frames) m.world.objects) (boundary : Nat) :
    (∃ n, m.offer s f boundary = .inl n ∧ n.Linked s.program ∧
        n.world.objects = m.world.objects) ∨
      ∃ g n, m.offer s f boundary = .inr (g, n) ∧ n.Linked s.program ∧
        g.Linked s.program (Fault.Listed s n.frames) n.world.objects ∧
        n.world.objects = m.world.objects := by
  unfold Machine.offer
  cases he : m.exceptionOf f with
  | none => exact Or.inr ⟨f, m, rfl, h, hf, rfl⟩
  | some r =>
    obtain ⟨id, m'⟩ := r
    obtain ⟨hm', hobjects⟩ := h.exceptionOf hf he
    obtain ⟨hstamp, hsame⟩ := hm'.stamp id
    have hhandlers : ∀ d ∈ m'.handlers, d.Linked s.program (Machine.stamp s m' id).world.objects := by
      rw [hsame]
      exact hm'.handlers
    have hthrown := hstamp.throwTo id boundary hhandlers
    have hworld := throwTo_world (Machine.stamp s m' id) id boundary m'.handlers
    dsimp only
    unfold throwException
    split
    · next n heq =>
      rw [heq] at hthrown hworld
      refine Or.inl ⟨_, rfl, { hthrown with }, ?_⟩
      change n.world.objects = m.world.objects
      rw [show n.world = (Machine.stamp s m' id).world from hworld, hsame, hobjects]
    · next n heq =>
      rw [heq] at hthrown hworld
      refine Or.inr ⟨_, _, rfl, hthrown, trivial, ?_⟩
      rw [show n.world = (Machine.stamp s m' id).world from hworld, hsame, hobjects]

end Machine

/-- A run whose machine is linked, and which ends with listed faults only. -/
inductive Status.Linked (s : Setup) : Status → Prop
  | running {m : Machine} (machine : m.Linked s.program) : Linked s (.running m)
  | ended {e : Ending} {m : Machine} (machine : m.Linked s.program)
      (faults : ∀ f, e = .fault f → f.Listed s m.frames) : Linked s (.ended e m)

theorem Status.Linked.machine {st : Status} (h : st.Linked s) : st.machine.Linked s.program := by
  cases h with
  | running machine => exact machine
  | ended machine _ => exact machine

namespace Machine

variable {m : Machine}

theorem Linked.with_loops {p : Program} (h : m.Linked p) {loops : List Loop}
    (hl : ∀ l ∈ loops, l.Linked p m.world.objects) : Linked p { m with loops := loops } :=
  { h with loops := hl }

/-- A failure on its way outwards ends in a handler, or ends the run. -/
theorem fail_linked (inside : Bool) {f : Failure} {loops : List Loop} (h : m.Linked s.program)
    (hl : ∀ l ∈ loops, l.Linked s.program m.world.objects)
    (hf : f.Linked s.program (Fault.Listed s m.frames) m.world.objects) :
    (fail s inside f m loops).Linked s := by
  -- Each loop that the failure leaves hands on a machine at the place of its own call.
  induction loops generalizing inside f m with
  | nil =>
    have hnone {n : Machine} : ∀ l ∈ ([] : List Loop), l.Linked s.program n.world.objects :=
      fun l hl => absurd hl List.not_mem_nil
    unfold fail
    obtain ⟨n, heq, hn, -⟩ | ⟨g, n, heq, hn, hg, -⟩ := h.offer hf 0
    · rw [heq]
      exact .running (hn.with_loops hnone)
    · rw [heq]
      refine .ended (hn.with_loops hnone) fun x hx => ?_
      cases g with
      | fault y =>
        cases hx
        exact hg
      | _ => cases hx
  | cons l loops ih =>
    have hrest : ∀ k ∈ loops, k.Linked s.program m.world.objects := fun k hk =>
      hl k (List.mem_cons_of_mem _ hk)
    have hlinked : l.Linked s.program m.world.objects := hl l (List.mem_cons_self ..)
    have hpass {g : Failure} {n : Machine} (hn : n.Linked s.program)
        (hg : g.Linked s.program (Fault.Listed s n.frames) n.world.objects)
        (hsame : n.world.objects = m.world.objects) :
        (fail s (!l.nested) (g.named l.name) { n with ip := l.ip, pc := l.pc } loops).Linked s := by
      refine ih (!l.nested) { hn with ip := hlinked.ip, pc := hlinked.pc } ?_ (hg.named l.name)
      change ∀ k ∈ loops, k.Linked s.program n.world.objects
      rw [hsame]
      exact hrest
    unfold fail
    cases inside with
    | false => exact hpass h hf rfl
    | true =>
      simp only [if_true]
      obtain ⟨n, heq, hn, hsame⟩ | ⟨g, n, heq, hn, hg, hsame⟩ := h.offer hf l.boundary
      · rw [heq]
        refine .running (hn.with_loops ?_)
        rw [hsame]
        exact hl
      · rw [heq]
        exact hpass hn hg hsame

end Machine

end BytecodeMachine
