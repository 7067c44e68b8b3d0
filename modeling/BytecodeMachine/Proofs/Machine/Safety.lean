import BytecodeMachine.Machine.Inspection
import BytecodeMachine.Proofs.Machine.Lookups
import BytecodeMachine.Proofs.Machine.Uncatchable

/-! The checks on a program are enough for a safe run. Every step of a machine keeps it linked, so in
every state execution stands inside the code or right behind it, every look into a table finds an
entry, and a run that ends with a fault ends with one that the checks do not rule out. -/
namespace BytecodeMachine

variable {s : Setup}

/-! Steps. -/

theorem Loop.Linked.absorb {p : Program} {n : Nat} {l : Loop} (h : l.Linked p n) (store : Store)
    {v : Value} (hv : v.Linked p n) : (l.absorb store v).Linked p n := by
  rw [absorb_with_gathered]
  exact { h with gathered := absorb_gathered h.gathered store hv }

theorem Loop.Linked.take {p : Program} {n : Nat} {l : Loop} (h : l.Linked p n) {e : Value}
    {rest : List Value} (he : e.Linked p n) (hrest : ∀ v ∈ rest, v.Linked p n) :
    (l.take e rest).1.Linked p n ∧ ∀ v ∈ (l.take e rest).2, v.Linked p n := by
  obtain ⟨hgathered, hargs⟩ := take_gathered h.gathered he rest
  rw [take_with_gathered]
  exact ⟨{ h with rest := hrest, gathered := hgathered }, hargs⟩

namespace Machine

variable {m : Machine}

theorem deliver_linked (h : m.Linked s.program) {v : Value}
    (hv : v.Linked s.program m.world.objects) : (m.deliver v).Linked s := by
  unfold deliver
  split
  · exact .ended h fun f hf => by cases hf
  · next l loops hl =>
    have hlinked : l.Linked s.program m.world.objects := h.loops l (hl ▸ List.mem_cons_self ..)
    have hloops : ∀ k ∈ l.absorb m.world.store v :: loops, k.Linked s.program m.world.objects := by
      intro k hk
      rcases List.mem_cons.mp hk with rfl | hk
      · exact hlinked.absorb _ hv
      · exact h.loops k (hl ▸ List.mem_cons_of_mem _ hk)
    exact .running { h with loops := hloops, ip := hlinked.ip, pc := hlinked.pc }

theorem settle_linked {e : Effect} (h : e.Linked s) : (settle s e).Linked s := by
  cases h with
  | next machine => exact .running machine
  | returned machine value => exact deliver_linked machine value
  | failed machine failure => exact fail_linked true machine machine.loops failure

theorem tick_linked (h : m.Linked s.program) : m.tick.Linked s.program := by
  have hworld : m.tick.world.Linked s.program := h.world.of_values rfl
  exact { h.with_world hworld (Nat.le_refl _) with }

/-- Before an instruction is executed, the address moves on to the next one. -/
theorem begun_linked (h : m.Linked s.program) {ins : Instruction}
    (hi : s.program.instruction? m.ip = some ins) :
    (m.begun s ins).Linked s.program ∧ (m.begun s ins).pc = m.ip := by
  have htick : m.tick.Linked s.program := tick_linked h
  have hmarked : ∀ d ∈ m.tick.markFinalizing.handlers, d.Linked s.program m.world.objects := by
    intro d hd
    rcases mem_markFinalizing hd with hd | ⟨e, he, rfl⟩
    · exact htick.handlers d hd
    · have hlinked := htick.handlers e he
      exact ⟨hlinked.catchAddr, hlinked.finallyAddr, trivial⟩
  obtain ⟨haddress, hnext⟩ := Program.Address.of_instruction hi
  obtain ⟨events, heq⟩ := m.begun_eq (s := s) ins
  rw [heq]
  have hworld : World.Linked s.program { m.tick.world with events := events } :=
    htick.world.of_values rfl
  exact ⟨{ htick with world := hworld, handlers := hmarked, ip := hnext, pc := haddress }, rfl⟩

theorem fetch_linked (sound : s.Sound) (h : m.Linked s.program) : (m.fetch s).Linked s := by
  cases hi : s.program.instruction? m.ip with
  | none =>
    -- Without an instruction the address can only be the one behind the code.
    have hip : m.ip = s.program.code.size := h.ip.eq_size hi
    unfold fetch
    rw [hi]
    dsimp only
    split
    · exact deliver_linked h trivial
    · next hpast =>
      have inside : m.frames ≠ [] := by
        intro hnil
        exact hpast (by simp [hip, hnil])
      have hm : Linked s.program { m with pc := m.ip } := { h with pc := h.ip }
      exact fail_linked true hm h.loops (.ranOff hip rfl inside)
  | some ins =>
    cases hgo : m.tick.stopBefore? with
    | some reason =>
      have htick : m.tick.Linked s.program := tick_linked h
      unfold fetch
      rw [hi]
      dsimp only
      rw [hgo]
      exact fail_linked true htick htick.loops trivial
    | none =>
      obtain ⟨op, hop⟩ := sound.checked.opcode hi
      obtain ⟨hbegun, hpc⟩ := begun_linked h hi
      have ex : (m.begun s ins).Executes s ins op := ⟨hpc ▸ hi, hop⟩
      have hstep : ((m.begun s ins).step s ins).Linked s := by
        unfold step
        rw [hop]
        exact perform_linked sound hbegun ex
      rw [fetch_eq_settle hi hgo]
      exact settle_linked hstep

theorem endLoop_linked (sound : s.Sound) (h : m.Linked s.program) {l : Loop} {loops : List Loop}
    (hl : l.Linked s.program m.world.objects)
    (hloops : ∀ k ∈ loops, k.Linked s.program m.world.objects) :
    (m.endLoop l loops).Linked s := by
  have hstable := sound.stable (F := Fault.Listed s m.frames)
  obtain ⟨hworld, hv⟩ := Loop.result_obeys hstable h.world.obeys hl.gathered
  have hsame : (l.result m.world).2.objects = m.world.objects := hworld.knows
  have hm : Linked s.program { m with world := (l.result m.world).2, loops := loops } :=
    (h.with_loops hloops).with_world hworld.linked (Nat.le_of_eq hsame.symm)
  rw [← hsame] at hv
  unfold endLoop
  dsimp only
  split
  · exact deliver_linked hm hv
  · exact .running { hm.push hv with }

/-- A callback enters the frame of a linked closure, or runs native code on linked values. -/
theorem callBack_linked (sound : s.Sound) (h : m.Linked s.program) {callee : Value}
    (hc : callee.Linked s.program m.world.objects) {args : List Value}
    (ha : ∀ v ∈ args, v.Linked s.program m.world.objects) :
    (m.callBack s callee args).Linked s := by
  unfold callBack
  split
  · exact fail_linked false h h.loops trivial
  · split
    · next c self heq =>
      obtain ⟨hclosure, hself⟩ := closure_of_target hc heq
      split
      · exact fail_linked false h h.loops trivial
      · exact .running { enterFrame_linked sound h hclosure hself ha true with }
    · have hn := callNative_linked sound h true callee ha
      cases hcall : callNative s m true callee args with
      | answered r n =>
        rw [hcall] at hn
        cases hn with
        | answered machine value => exact deliver_linked machine value
        | failed machine failure => exact fail_linked false machine machine.loops failure
      | loops l n =>
        rw [hcall] at hn
        cases hn with
        | loops machine loop => exact .running (startLoop_linked machine loop)

theorem iterate_linked (sound : s.Sound) (h : m.Linked s.program) : (m.iterate s).Linked s := by
  unfold iterate
  cases hloops : m.loops with
  | nil => exact .running { h with loops := fun l hl => absurd hl List.not_mem_nil }
  | cons l loops =>
    have hl : l.Linked s.program m.world.objects := h.loops l (hloops ▸ List.mem_cons_self ..)
    have houter : ∀ k ∈ loops, k.Linked s.program m.world.objects := fun k hk =>
      h.loops k (hloops ▸ List.mem_cons_of_mem _ hk)
    dsimp only
    cases hrest : l.rest with
    | nil => exact endLoop_linked sound h hl houter
    | cons e rest =>
      have he : e.Linked s.program m.world.objects := hl.rest e (hrest ▸ List.mem_cons_self ..)
      have hlater : ∀ v ∈ rest, v.Linked s.program m.world.objects := fun v hv =>
        hl.rest v (hrest ▸ List.mem_cons_of_mem _ hv)
      obtain ⟨htaken, hargs⟩ := hl.take he hlater
      -- The loop that calls is not the one on top before: it has lost an element and has a new boundary.
      let l' : Loop := { (l.take e rest).1 with boundary := m.frames.length + 1 }
      have hl' : l'.Linked s.program m.world.objects := { htaken with }
      have hm : Linked s.program { m with loops := l' :: loops } := by
        refine h.with_loops fun k hk => ?_
        rcases List.mem_cons.mp hk with rfl | hk
        · exact hl'
        · exact houter k hk
      exact callBack_linked (m := { m with loops := l' :: loops }) sound hm hl'.callee hargs

/-- Every step keeps a machine linked, and ends a run with listed faults only. -/
theorem advance_linked (sound : s.Sound) (h : m.Linked s.program) : (m.advance s).Linked s := by
  unfold advance
  split
  · exact fetch_linked sound h
  · exact iterate_linked sound h

end Machine

/-! Runs. -/

theorem Setup.sound_of_prepare {p : Program} {options : Options}
    (prepared : Setup.prepare p options = .ok s) (hosts : ∀ h ∈ options.host, h.Linked p) :
    s.Sound ∧ s.program = p ∧ s.host = options.host := by
  unfold Setup.prepare at prepared
  split at prepared
  · cases prepared
  · next hnone =>
    cases prepared
    exact ⟨⟨Program.checked_of_defect? hnone, rfl, hosts⟩, rfl, rfl⟩

/-- A run begins without values, at the first instruction or behind an empty code. -/
theorem Machine.linked_start (p : Program) (w : World) (o : RunOptions) :
    Machine.Linked p { world := w.renew o } := by
  have haddress : p.Address 0 := ⟨Int.le_refl 0, Int.natCast_nonneg _⟩
  exact ⟨(World.obeys_renew rfl).linked, by simp, by simp, by simp, by simp, haddress, haddress⟩

theorem Setup.stateAfter_linked (sound : s.Sound) (w : World) (o : RunOptions) (n : Nat) :
    (s.stateAfter w o n).Linked s := by
  -- A state is linked after one step more since steps keep it so; an ended run stays as it is.
  induction n with
  | zero => exact .running (Machine.linked_start s.program w o)
  | succ n ih =>
    rw [stateAfter_succ]
    cases hst : s.stateAfter w o n with
    | running m =>
      rw [hst] at ih
      exact Machine.advance_linked sound ih.machine
    | ended e m =>
      rw [hst] at ih
      exact ih

/-! Faults. -/

/-- The faults that the checks on a program rule out. -/
inductive FaultCause.RuledOut (p : Program) : FaultCause → Prop
  | unknownOpcode (op : UInt8) : RuledOut p (.unknownOpcode op)
  | missingLiteral : RuledOut p .missingLiteral
  | outsideProgram {ip : Int} (outside : ¬ p.Address ip) : RuledOut p (.outsideProgram ip)
  /-- A function that a class names as a method. -/
  | undefinedFunction {key member fn : Text} {c : ClassInfo} (cls : p.classes.get? key = some c)
      (method : c.methods.get? member = some fn ∨ c.staticMethods.get? member = some fn) :
      RuledOut p (.undefinedFunction fn)

theorem Opcode.Faults.not_ruledOut {p : Program} (checked : p.Checked) {o : Operand} {op : Opcode}
    {c : FaultCause} (h : op.Faults p o c) : ¬ c.RuledOut p := by
  intro hout
  cases hout with
  | unknownOpcode => cases h
  | missingLiteral => cases h
  | outsideProgram => cases h
  | undefinedFunction hcls hmethod =>
    -- Only closures are pushed of functions that are missing, and methods have theirs.
    cases h with
    | undefinedFunction missing =>
      obtain ⟨fn, hget⟩ := Table.get?_of_contains (checked.method hcls hmethod)
      rw [missing] at hget
      cases hget

theorem Fault.Listed.not_ruledOut (sound : s.Sound) {frames : List Frame} {f : Fault}
    (h : f.Listed s frames) (own : ∀ h ∈ s.host, ¬ h.Faults f) :
    ¬ f.cause.RuledOut s.program := by
  cases h with
  | instruction here known raised => exact raised.not_ruledOut sound.checked
  | ranOff behind raised inside =>
    intro hout
    rw [raised] at hout
    cases hout with
    | outsideProgram outside =>
      refine outside ⟨?_, Int.le_of_eq behind⟩
      rw [behind]
      exact Int.natCast_nonneg _
  | host registered answered => exact absurd answered (own _ registered)

/-- The checks on a program are enough for a safe run. Whatever state its machine reaches, all that is
saved for later is linked to the program, what is looked up without a check is there, before an
instruction as well as in its midst, and only listed faults end the run. -/
theorem Setup.stateAfter_safe {p : Program} {options : Options}
    (prepared : Setup.prepare p options = .ok s) (hosts : ∀ h ∈ options.host, h.Linked p)
    (w : World) (o : RunOptions) (n : Nat) :
    s.Complete ∧ (s.stateAfter w o n).machine.Linked p ∧ (s.stateAfter w o n).machine.Served s ∧
      (∀ m ins, s.stateAfter w o n = .running m → p.instruction? m.ip = some ins →
        (m.begun s ins).Served s) ∧
      ∀ f m, s.stateAfter w o n = .ended (.fault f) m →
        f.Listed s m.frames ∧
          ((∀ h ∈ options.host, ¬ h.Faults f) → ¬ f.cause.RuledOut p) := by
  obtain ⟨sound, rfl, hhost⟩ := Setup.sound_of_prepare prepared hosts
  have hlinked := Setup.stateAfter_linked sound w o n
  refine ⟨sound.complete, hlinked.machine, hlinked.machine.served sound, ?_, ?_⟩
  · intro m ins hst hi
    rw [hst] at hlinked
    have hbegun : (m.begun s ins).Linked s.program := (Machine.begun_linked hlinked.machine hi).1
    exact hbegun.served sound
  · intro f m hst
    rw [hst] at hlinked
    cases hlinked with
    | ended machine faults =>
      have hlisted : f.Listed s m.frames := faults f rfl
      refine ⟨hlisted, fun own => ?_⟩
      rw [← hhost] at own
      exact hlisted.not_ruledOut sound own

/-! A host that lets programs look at their machine. -/

/-- The values that native code makes out of nothing. -/
def Value.isScalar : Value → Bool
  | .null | .bool _ | .int _ | .string _ => true
  | _ => false

namespace Inspection

/-- What the functions of the host answer: values of which a predicate holds, and no fault but one with
a message of its own. -/
inductive Answers (P : Value → Prop) : HostReply → Prop
  | value {v : Value} (holds : P v) : Answers P (.value v)
  | newArray {elems : List Value} (holds : ∀ v ∈ elems, P v) : Answers P (.newArray elems)
  | raised (e : ErrorCause) : Answers P (.failure (.of e))
  | failed (t : Text) : Answers P (.failure (.host t))
  | faulted (ip : Int) (op t : Text) : Answers P (.failure (.fault ⟨ip, op, .custom t⟩))
  | stopped (reason : StopReason) : Answers P (.failure (.stopped reason))
  | cancel : Answers P .cancel
  | noWait : Answers P (.wait none)
  | pending : Answers P (.wait (some .pending))
  | arrived {v : Value} (holds : P v) : Answers P (.wait (some (.settled (.ok v))))
  | rejected (t : Text) : Answers P (.wait (some (.settled (.error (.host t)))))

variable {P : Value → Prop}

theorem Answers.holds (null : P .null) {r : HostReply} (h : Answers P r) : r.Holds P := by
  refine ⟨fun v hv => ?_, fun f hf => ?_, fun elems helems => ?_⟩
  · cases h with
    | value holds | arrived holds =>
      cases hv
      exact holds
    | _ => cases hv
  · cases h with
    | raised e =>
      cases hf
      exact null
    | failed | faulted | stopped | rejected =>
      cases hf
      exact trivial
    | _ => cases hf
  · cases h with
    | newArray holds =>
      cases helems
      exact holds
    | _ => cases helems

theorem Answers.fault {r : HostReply} (h : Answers P r) {f : Fault}
    (hf : r.answer? = some (.error (.fault f))) : ∃ t, f.cause = .custom t := by
  cases h with
  | faulted ip op t =>
    cases hf
    exact ⟨t, rfl⟩
  | _ => cases hf

/-- A deferred is settled by the first mark, if there is one. -/
theorem settled_answers (scalar : ∀ v, v.isScalar = true → P v) (marks : List Rune) :
    Answers P (.wait (some (settled marks))) := by
  let settle (d : Deferred) (e : Rune × Nat) : Deferred :=
    if e.1.char = 'v' then d.resolve (.ofNat e.2)
    else d.reject (.host ("rejected " ++ Text.ofNat e.2))
  have hsettle (d : Deferred) (e : Rune × Nat) (hd : Answers P (.wait (some d))) :
      Answers P (.wait (some (settle d e))) := by
    dsimp only [settle]
    cases hd with
    | pending =>
      split
      · exact .arrived (scalar _ rfl)
      · exact .rejected _
    | arrived holds => split <;> exact .arrived holds
    | rejected t => split <;> exact .rejected t
  have hfold (es : List (Rune × Nat)) (d : Deferred) (hd : Answers P (.wait (some d))) :
      Answers P (.wait (some (es.foldl settle d))) := by
    induction es generalizing d with
    | nil => exact hd
    | cons e es ih => exact ih _ (hsettle d e hd)
  exact hfold marks.zipIdx .pending .pending

theorem call_answers (scalar : ∀ v, v.isScalar = true → P v) {h : HostFunction}
    (hh : h ∈ functions) (view : HostView) {args : List Value} (ha : ∀ v ∈ args, P v) :
    Answers P (h.call view args) := by
  have hhead : P (args.headD .null) := by
    cases args with
    | nil => exact scalar _ rfl
    | cons v vs => exact ha v (List.mem_cons_self ..)
  have hnumbers : ∀ v ∈ numbers view.depths, P v := by
    intro v hv
    obtain ⟨k, -, rfl⟩ := List.mem_map.mp hv
    exact scalar _ rfl
  have hbool (b : Bool) : P (.bool b) := scalar _ rfl
  simp only [functions, List.mem_cons, List.not_mem_nil, or_false] at hh
  rcases hh with rfl | rfl | rfl | rfl | rfl | rfl | rfl | rfl | rfl | rfl | rfl | rfl
  · exact .newArray hnumbers
  · exact .value (scalar _ rfl)
  · exact .value (hbool _)
  · dsimp only [subclassOf]
    split
    · exact .value (hbool _)
    · exact .raised _
  · exact .failed _
  · dsimp only [raised]
    split
    · exact .raised _
    · exact .value (scalar _ rfl)
  · exact .faulted _ _ _
  · exact .cancel
  · exact .stopped _
  · exact .noWait
  · exact .arrived hhead
  · exact settled_answers scalar _

theorem functions_handOn : ∀ h ∈ functions, h.HandsOn := by
  intro h hh H view args plain _ ha
  have hscalar : ∀ v : Value, v.isScalar = true → H v := by
    intro v hv
    refine plain v ?_
    cases v <;> first | exact trivial | cases hv
  exact (call_answers hscalar hh view ha).holds (plain _ trivial)

theorem functions_linked (p : Program) : ∀ h ∈ functions, h.Linked p := fun h hh =>
  (functions_handOn h hh).linked

theorem cause_of_faults {h : HostFunction} (hh : h ∈ functions) {f : Fault} (hf : h.Faults f) :
    ∃ t, f.cause = .custom t := by
  obtain ⟨view, args, hanswer⟩ := hf
  have hcall : Answers (fun _ => True) (h.call view args) :=
    call_answers (fun _ _ => trivial) hh view fun _ _ => trivial
  exact hcall.fault hanswer

end Inspection

/-- Each callback leaves a scope that it has not entered. -/
def Setup.leavingScope : Setup := { mapping .popScope with host := Inspection.functions }

/-- A scope that was not entered ends the run with a fault that the checks do not rule out, although
a handler is open around the call. -/
theorem Setup.popScope_in_callback_safe : ∃ f m,
    Setup.prepare (.mapping .popScope) { host := Inspection.functions } = .ok leavingScope ∧
      leavingScope.stateAfter {} {} 8 = .ended (.fault f) m ∧ f.cause = .scopeUnderflow ∧
      f.Listed leavingScope m.frames ∧ m.Served leavingScope ∧
      ¬ f.cause.RuledOut (.mapping .popScope) := by
  have hprepare : Setup.prepare (.mapping .popScope) { host := Inspection.functions } =
      .ok leavingScope := rfl
  obtain ⟨f, m, hend, hcause⟩ : ∃ f m, leavingScope.stateAfter {} {} 8 = .ended (.fault f) m ∧
      f.cause = .scopeUnderflow := ⟨_, _, rfl, rfl⟩
  obtain ⟨-, -, hserved, -, hfault⟩ :=
    Setup.stateAfter_safe hprepare (Inspection.functions_linked _) {} {} 8
  obtain ⟨hlisted, hruled⟩ := hfault f m hend
  have hown : ∀ h ∈ Inspection.functions, ¬ h.Faults f := by
    intro h hh hf
    obtain ⟨t, ht⟩ := Inspection.cause_of_faults hh hf
    rw [hcause] at ht
    cases ht
  rw [hend] at hserved
  exact ⟨f, m, hprepare, hend, hcause, hlisted, hserved, hruled hown⟩

end BytecodeMachine
