import BytecodeMachine.Proofs.Machine.WellFormed

/-! The machine with its unguarded steps made partial. Here a scope is left only where it has a parent
and a frame is dropped only where there is one; a step that would do either without is undefined. In
every run this machine is defined, and it is the machine. -/
namespace BytecodeMachine

namespace Machine

variable (s : Setup)

/-- Leaves a scope, where it has a parent. -/
def leaveScope? (m : Machine) : Option Machine :=
  (m.scopes.parent? m.scope).map fun p => { m with scope := p, scopeDepth := m.scopeDepth - 1 }

def leaveScopes? : Nat → Machine → Option Machine
  | 0, m => some m
  | n + 1, m => m.leaveScope?.bind (leaveScopes? n)

def leaveScopesTo? (m : Machine) (depth : Int) : Option Machine :=
  leaveScopes? ((m.scopeDepth : Int) - depth).toNat m

/-- Drops a frame, where there is one. -/
def popFrame? (m : Machine) : Option Machine :=
  match m.frames with
  | [] => none
  | _ :: _ => some m.popFrame

def popFrames? : Nat → Machine → Option Machine
  | 0, m => some m
  | n + 1, m => m.popFrame?.bind (popFrames? n)

def unwindTo? (m : Machine) (h : Handler) : Option Machine :=
  (popFrames? (m.frames.length - h.callDepth) m).bind fun m =>
    (m.leaveScopesTo? h.scopeDepth).map fun m =>
      { m with stack := truncated m.stack h.stackHeight }

def enterFinally? (m : Machine) (h : Handler) (rest : List Handler) (pending : Pending) :
    Option Machine :=
  (m.unwindTo? h).map fun m =>
    { m with handlers := { h with phase := .finalizing pending } :: rest, ip := h.finallyAddr }

def enterCatch? (m : Machine) (h : Handler) (rest : List Handler) (exc : Nat) : Option Machine :=
  (m.unwindTo? h).map fun m =>
    { m with
      handlers := { h with phase := .catching } :: rest
      stack := .exception exc :: m.stack
      ip := h.catchAddr }

def throwTo? (m : Machine) (exc boundary : Nat) : List Handler → Option Thrown
  | [] =>
    (popFrames? (m.frames.length + 1 - max boundary 1) { m with handlers := [] }).map .escaped
  | h :: rest =>
    if h.callDepth < boundary then
      (popFrames? (m.frames.length + 1 - max boundary 1) { m with handlers := h :: rest }).map
        .escaped
    else if h.phase = .trying && h.hasCatch then (m.enterCatch? h rest exc).map .handled
    else if !h.isFinalizing && h.hasFinally then
      (m.enterFinally? h rest (.exception exc)).map .handled
    else throwTo? m exc boundary rest

def returnThrough? (m : Machine) (v : Value) : List Handler → Option (Machine ⊕ Machine)
  | [] => some (.inr { m with handlers := [] })
  | h :: rest =>
    if h.callDepth ≠ m.frames.length then some (.inr { m with handlers := h :: rest })
    else if h.hasFinally && !h.isFinalizing then (m.enterFinally? h rest (.giveBack v)).map .inl
    else returnThrough? m v rest

/-- Leaves the current frame with a value, or ends the program where there is none. -/
def returnFrom? (m : Machine) (v : Value) : Option Effect :=
  match m.frames with
  | [] => some (.failed (.halt v) m)
  | f :: _ =>
    m.popFrame?.map fun m =>
      if f.callback then .returned v m else .next ({ m with ip := f.returnIp }.push v)

def giveBack? (m : Machine) (v : Value) : Option Effect :=
  (m.returnThrough? v m.handlers).bind fun
    | .inl m => some (.next m)
    | .inr m => m.returnFrom? v

def leaveThrough? (m : Machine) (target dest : Int) : List Handler → Option (Machine ⊕ Machine)
  | [] => some (.inr { m with handlers := [] })
  | h :: rest =>
    if h.callDepth = m.frames.length && dest ≤ (h.scopeDepth : Int) && !h.covers target then
      if h.hasFinally && !h.isFinalizing then
        (m.enterFinally? h rest (.leave target ((h.scopeDepth : Int) - dest))).map .inl
      else leaveThrough? m target dest rest
    else some (.inr { m with handlers := h :: rest })

def leaveTo? (m : Machine) (target scopes : Int) : Option Effect :=
  let dest := m.leaveDepth scopes
  if dest < (m.scopeFloor : Int) then some (.failed (m.fault s (.leavePast scopes)) m)
  else
    (m.leaveThrough? target dest m.handlers).bind fun
      | .inl m => some (.next m)
      | .inr m => (m.leaveScopesTo? dest).map fun m => .next { m with ip := target }

def endFinally? (m : Machine) : Option Effect :=
  match m.handlers with
  | [] => some (.failed (m.fault s .endFinallyWithoutHandler) m)
  | h :: rest =>
    let m := { m with handlers := rest }
    match h.phase with
    | .finalizing (.exception id) => some (.failed (.rethrow id) m)
    | .finalizing (.giveBack v) => m.giveBack? v
    | .finalizing (.leave target scopes) => leaveTo? s m target scopes
    | _ => some (.next m)

def popScope? (m : Machine) : Option Effect :=
  if m.scopeDepth ≤ m.scopeFloor then some (.failed (m.fault s .scopeUnderflow) m)
  else m.leaveScope?.map .next

def ret? (m : Machine) : Option Effect :=
  match m.stack with
  | [] => some (m.underflow s)
  | v :: stack => { m with stack := stack }.giveBack? v

/-- Only these four instructions leave scopes or drop frames. -/
def perform? (m : Machine) (o : Operand) : Opcode → Option Effect
  | .popScope => m.popScope? s
  | .leave => leaveTo? s m o.int.toInt o.int2.toInt
  | .ret => m.ret? s
  | .endFinally => endFinally? s m
  | op => some (m.perform s o op)

def step? (m : Machine) (ins : Instruction) : Option Effect :=
  match Opcode.ofCode? ins.op with
  | some op => m.perform? s ins.operand op
  | none => some (.failed (m.fault s (.unknownOpcode ins.op)) m)

def offer? (m : Machine) (f : Failure) (boundary : Nat) : Option (Machine ⊕ (Failure × Machine)) :=
  match m.exceptionOf f with
  | none => some (.inr (f, m))
  | some (id, m) =>
    ((stamp s m id).throwTo? id boundary m.handlers).map fun
      | .handled m => .inl { m with control := .fetch }
      | .escaped m => .inr (.rethrow id, m)

def fail? (inside : Bool) (f : Failure) (m : Machine) : List Loop → Option Status
  | [] =>
    (m.offer? s f 0).map fun
      | .inl m => .running { m with loops := [] }
      | .inr (f, m) => .ended (endingOf f) { m with loops := [] }
  | l :: loops =>
    (if inside then m.offer? s f l.boundary else some (.inr (f, m))).bind fun
      | .inl m => some (.running { m with loops := l :: loops })
      | .inr (f, m) => fail? (!l.nested) (f.named l.name) { m with ip := l.ip, pc := l.pc } loops

def settle? : Effect → Option Status
  | .next m => some (.running m)
  | .returned v m => some (m.deliver v)
  | .failed f m => fail? s true f m m.loops

def fetch? (m : Machine) : Option Status :=
  match s.program.instruction? m.ip with
  | none =>
    if m.ip = (s.program.code.size : Int) && m.frames.isEmpty then some (m.deliver .null)
    else
      let m := { m with pc := m.ip }
      fail? s true (m.fault s (.outsideProgram m.ip)) m m.loops
  | some ins =>
    let m := m.tick
    match m.stopBefore? with
    | some reason => fail? s true (.stopped reason) m m.loops
    | none =>
      let m := m.markFinalizing
      let m := traced s { m with pc := m.ip, ip := m.ip + 1 } ins
      (m.step? s ins).bind (settle? s)

def callBack? (m : Machine) (callee : Value) (args : List Value) : Option Status :=
  match callbackRefusal? s callee args with
  | some e => fail? s false (.of e) m m.loops
  | none =>
    match Target.of callee args with
    | .function c self =>
      match m.tooDeep? s with
      | some e => fail? s false (.of e) m m.loops
      | none => some (.running { m.enterFrame c self args true with control := .fetch })
    | _ =>
      match callNative s m true callee args with
      | .answered (.ok v) m => some (m.deliver v)
      | .answered (.error f) m => fail? s false f m m.loops
      | .loops l m => some (.running (m.startLoop l))

def iterate? (m : Machine) : Option Status :=
  match m.loops with
  | [] => some (.running { m with control := .fetch })
  | l :: loops =>
    match l.rest with
    | [] => some (m.endLoop l loops)
    | e :: rest =>
      let (l, args) := l.take e rest
      let l := { l with boundary := m.frames.length + 1 }
      callBack? s { m with loops := l :: loops } l.callee args

def advance? (m : Machine) : Option Status :=
  match m.control with
  | .fetch => m.fetch? s
  | .iterate => m.iterate? s

def runFor? : Nat → Status → Option Status
  | 0, st => some st
  | _ + 1, .ended e m => some (.ended e m)
  | n + 1, .running m => (m.advance? s).bind (runFor? n)

variable {s} {m : Machine} {bases : List Nat}

theorem popFrame?_eq (has : m.frames ≠ []) : m.popFrame? = some m.popFrame := by
  unfold popFrame?
  split
  · next h => exact absurd h has
  · rfl

theorem popFrames?_eq (n : Nat) (m : Machine) (hn : n ≤ m.frames.length) :
    popFrames? n m = some (popFrames n m) := by
  induction n generalizing m with
  | zero => rfl
  | succ n ih =>
    have hone := popFrame?_eq (m := m) (List.length_pos_iff.mp (by omega))
    have hlen : m.popFrame.frames.length = m.frames.length - 1 := by
      rw [popFrame_frames, List.length_tail]
    rw [popFrames?, hone, Option.bind_some, ih m.popFrame (by omega), popFrames]

theorem Anchored.leaveScope?_eq (h : m.Anchored bases) (inside : m.scopeFloor < m.scopeDepth) :
    m.leaveScope? = some m.leaveScope := by
  rw [leaveScope?, (h.leaveScope inside).1, Option.map_some]
  rfl

theorem Anchored.leaveScopesTo?_eq (h : m.Anchored bases) {depth : Int}
    (inside : (m.scopeFloor : Int) ≤ depth) :
    m.leaveScopesTo? depth = some (m.leaveScopesTo depth) := by
  have hmany (n : Nat) (m : Machine) (h : m.Anchored bases)
      (hn : n ≤ m.scopeDepth - m.scopeFloor) : leaveScopes? n m = some (leaveScopes n m) := by
    induction n generalizing m with
    | zero => rfl
    | succ n ih =>
      have hin : m.scopeFloor < m.scopeDepth := by omega
      have hd : m.leaveScope.scopeDepth = m.scopeDepth - 1 := rfl
      have hf : m.leaveScope.scopeFloor = m.scopeFloor := rfl
      rw [leaveScopes?, h.leaveScope?_eq hin, Option.bind_some,
        ih m.leaveScope (h.leaveScope hin).2 (by omega), leaveScopes]
  exact hmany _ m h (by omega)

namespace WellFormed

/-- The frames above a handler of the stack are there, and so are the scopes above its depth. -/
theorem unwindTo?_eq (h : m.WellFormed s bases) {d : Handler} (hd : d ∈ m.handlers) :
    m.unwindTo? d = some (m.unwindTo d) := by
  let n := popFrames (m.frames.length - d.callDepth) m
  have hbase := h.toAnchored.popFrames (Nat.sub_le m.frames.length d.callDepth)
  have hfloor : (n.scopeFloor : Int) ≤ d.scopeDepth := by
    have hin := h.handlers_inside d hd
    rw [scopeFloor_eq, popFrames_frames]
    exact_mod_cast hin
  rw [unwindTo?, popFrames?_eq _ m (Nat.sub_le _ _), Option.bind_some,
    hbase.leaveScopesTo?_eq hfloor, Option.map_some]
  rfl

theorem enterFinally?_eq (h : m.WellFormed s bases) {d : Handler} (hd : d ∈ m.handlers)
    (rest : List Handler) (pending : Pending) :
    m.enterFinally? d rest pending = some (m.enterFinally d rest pending) := by
  rw [enterFinally?, h.unwindTo?_eq hd]
  rfl

theorem enterCatch?_eq (h : m.WellFormed s bases) {d : Handler} (hd : d ∈ m.handlers)
    (rest : List Handler) (exc : Nat) :
    m.enterCatch? d rest exc = some (m.enterCatch d rest exc) := by
  rw [enterCatch?, h.unwindTo?_eq hd]
  rfl

/-- A throw that looks at some of the handlers of the stack. -/
theorem throwTo?_eq (h : m.WellFormed s bases) (exc boundary : Nat) {handlers : List Handler}
    (hs : ∀ d ∈ handlers, d ∈ m.handlers) :
    m.throwTo? exc boundary handlers = some (m.throwTo exc boundary handlers) := by
  have hescape (handlers : List Handler) :
      popFrames? (m.frames.length + 1 - max boundary 1) { m with handlers := handlers } =
        some (popFrames (m.frames.length + 1 - max boundary 1) { m with handlers := handlers }) :=
    popFrames?_eq _ _ (by change _ ≤ m.frames.length; omega)
  induction handlers with
  | nil => rw [throwTo?, hescape, throwTo, Option.map_some]
  | cons d rest ih =>
    obtain ⟨hd, hrest⟩ := List.forall_mem_cons.mp hs
    rw [throwTo?, throwTo, hescape, h.enterCatch?_eq hd, h.enterFinally?_eq hd, ih hrest]
    split
    · rfl
    · split
      · rfl
      · split <;> rfl

theorem returnThrough?_eq (h : m.WellFormed s bases) (v : Value) {handlers : List Handler}
    (hs : ∀ d ∈ handlers, d ∈ m.handlers) :
    m.returnThrough? v handlers = some (m.returnThrough v handlers) := by
  induction handlers with
  | nil => rfl
  | cons d rest ih =>
    obtain ⟨hd, hrest⟩ := List.forall_mem_cons.mp hs
    rw [returnThrough?, returnThrough, h.enterFinally?_eq hd, ih hrest]
    split
    · rfl
    · split <;> rfl

theorem leaveThrough?_eq (h : m.WellFormed s bases) (target dest : Int) {handlers : List Handler}
    (hs : ∀ d ∈ handlers, d ∈ m.handlers) :
    m.leaveThrough? target dest handlers = some (m.leaveThrough target dest handlers) := by
  induction handlers with
  | nil => rfl
  | cons d rest ih =>
    obtain ⟨hd, hrest⟩ := List.forall_mem_cons.mp hs
    rw [leaveThrough?, leaveThrough, h.enterFinally?_eq hd, ih hrest]
    split
    · split <;> rfl
    · rfl

end WellFormed

theorem returnFrom?_eq (m : Machine) (v : Value) : m.returnFrom? v = some (m.returnFrom v) := by
  unfold returnFrom? returnFrom
  cases hf : m.frames with
  | nil => rfl
  | cons f fs =>
    rw [popFrame?_eq (by simp [hf])]
    rfl

namespace WellFormed

theorem giveBack?_eq (h : m.WellFormed s bases) (v : Value) :
    m.giveBack? v = some (m.giveBack v) := by
  rw [giveBack?, h.returnThrough?_eq v fun _ hd => hd, giveBack_eq, Option.bind_some]
  cases m.returnThrough v m.handlers with
  | inl n => rfl
  | inr n => exact n.returnFrom?_eq v

theorem leaveTo?_eq (h : m.WellFormed s bases) (target scopes : Int) :
    leaveTo? s m target scopes = some (leaveTo s m target scopes) := by
  unfold leaveTo? leaveTo
  dsimp only
  split
  · rfl
  · next hfloor =>
    have hl := leaveThrough_defers m target (m.leaveDepth scopes) m.handlers
    rw [h.leaveThrough?_eq target _ fun _ hd => hd, Option.bind_some]
    generalize m.leaveThrough target (m.leaveDepth scopes) m.handlers = r at hl ⊢
    cases hl with
    | entered => rfl
    | @out above rest found =>
      have hn : { m with handlers := rest }.Anchored bases := ⟨h.frames_sorted, h.floor_le, h.rooted⟩
      dsimp only
      rw [hn.leaveScopesTo?_eq (Int.not_lt.mp hfloor), Option.map_some]

theorem endFinally?_eq (h : m.WellFormed s bases) : endFinally? s m = some (endFinally s m) := by
  unfold endFinally? endFinally
  cases top : m.handlers with
  | nil => rfl
  | cons d rest =>
    have hn : { m with handlers := rest }.WellFormed s bases :=
      h.shift (e := .ended d.pending) (by rw [top]; exact Shift.ended) (by simp)
    dsimp only
    cases d.phase with
    | trying | catching => rfl
    | finalizing pending =>
      cases pending with
      | nothing | exception => rfl
      | giveBack v => exact hn.giveBack?_eq v
      | leave target scopes => exact hn.leaveTo?_eq target scopes

theorem popScope?_eq (h : m.WellFormed s bases) : m.popScope? s = some (m.popScope s) := by
  unfold popScope? popScope
  split
  · rfl
  · rw [h.toAnchored.leaveScope?_eq (by omega), Option.map_some]

theorem ret?_eq (h : m.WellFormed s bases) :
    m.ret? s = some (m.pop s fun v m => m.giveBack v) := by
  unfold ret? pop
  cases m.stack with
  | nil => rfl
  | cons v stack => exact (h.quiet (m.quiet_stack stack)).giveBack?_eq v

theorem step?_eq (h : m.WellFormed s bases) (ins : Instruction) :
    m.step? s ins = some (m.step s ins) := by
  unfold step? step
  cases Opcode.ofCode? ins.op with
  | none => rfl
  | some op =>
    cases op with
    | popScope => exact h.popScope?_eq
    | leave => exact h.leaveTo?_eq _ _
    | ret => exact h.ret?_eq
    | endFinally => exact h.endFinally?_eq
    | _ => rfl

variable {f : Failure}

theorem offer?_eq (h : f.isFinal = true ∨ m.WellFormed s bases) (boundary : Nat) :
    m.offer? s f boundary = some (m.offer s f boundary) := by
  rcases h with hf | h
  · rw [offer_of_final hf]
    unfold offer?
    cases f <;> first | rfl | cases hf
  · unfold offer? offer
    cases he : m.exceptionOf f with
    | none => rfl
    | some p =>
      obtain ⟨id, n⟩ := p
      have hn := h.quiet ((exceptionOf_quiet he).trans (stamp_quiet (s := s) n id))
      have hhandlers : ∀ d ∈ n.handlers, d ∈ (stamp s n id).handlers := by
        intro d hd
        rwa [(stamp_quiet (s := s) n id).handlers]
      exact congrArg (Option.map _) (hn.throwTo?_eq id boundary hhandlers)

theorem fail?_eq (bases : List Nat) (h : f.isFinal = true ∨ m.WellFormed s bases) (inside : Bool)
    (loops : List Loop) : fail? s inside f m loops = some (fail s inside f m loops) := by
  induction loops generalizing inside f m bases with
  | nil =>
    unfold fail? fail
    exact congrArg (Option.map _) (offer?_eq h 0)
  | cons l loops ih =>
    have hout {f : Failure} {n : Machine} (bases : List Nat)
        (h : f.isFinal = true ∨ n.WellFormed s bases) :
        fail? s (!l.nested) (f.named l.name) { n with ip := l.ip, pc := l.pc } loops =
          some (fail s (!l.nested) (f.named l.name) { n with ip := l.ip, pc := l.pc } loops) := by
      have hq : n.Quiet { n with ip := l.ip, pc := l.pc } := Quiet.of_eq rfl rfl rfl rfl rfl
      refine ih bases (h.imp (fun hf => ?_) fun hn => hn.quiet hq) _
      rwa [Failure.named_of_isFinal hf]
    unfold fail? fail
    cases inside with
    | false => exact hout bases h
    | true =>
      rw [if_pos rfl, if_pos rfl, offer?_eq h, Option.bind_some]
      cases hr : m.offer s f l.boundary with
      | inl n => rfl
      | inr p =>
        -- What escapes is the failure as it was, or an exception from a machine further out.
        refine hout (bases.drop (m.frames.length - p.2.frames.length)) ?_
        rcases h with hf | hm
        · rw [offer_of_final hf] at hr
          cases hr
          exact Or.inl hf
        · obtain ⟨log, hch, -⟩ := offer_changes (s := s) m f l.boundary
          rw [hr] at hch
          exact Or.inr (hm.changes hch).2

/-- An instruction that fails ends the run, or leaves the machine it was executed on well-formed. -/
theorem step_failed (h : m.WellFormed s bases) {ins : Instruction} {n : Machine}
    (hf : m.step s ins = .failed f n) : f.isFinal = true ∨ n.WellFormed s bases := by
  unfold step at hf
  cases hop : Opcode.ofCode? ins.op with
  | none =>
    rw [hop] at hf
    cases hf
    exact Or.inl rfl
  | some op =>
    rw [hop] at hf
    cases hother : op.transfers with
    | false =>
      have hplain := m.perform_plain (s := s) ins.operand hother
      rw [show m.perform s ins.operand op = .failed f n from hf] at hplain
      cases hplain with
      | failed hq => exact Or.inr (h.quiet hq)
    | true =>
      cases op with
      | pushScope | tryPush => cases hf
      | popScope =>
        change m.popScope s = _ at hf
        unfold popScope at hf
        split at hf <;> cases hf
        exact Or.inl rfl
      | leave => exact Or.inl (leaveTo_failed hf)
      | ret =>
        change (m.pop s fun v m => m.giveBack v) = _ at hf
        unfold pop at hf
        split at hf
        · cases hf
          exact Or.inl rfl
        · exact Or.inl (giveBack_failed hf)
      | tryPop =>
        change m.popHandler s = _ at hf
        unfold popHandler at hf
        split at hf <;> cases hf
        exact Or.inl rfl
      | endFinally =>
        change endFinally s m = _ at hf
        cases top : m.handlers with
        | nil =>
          unfold endFinally at hf
          rw [top] at hf
          cases hf
          exact Or.inl rfl
        | cons d rest =>
          rw [endFinally_eq_replay top] at hf
          cases hp : d.pending with rw [hp] at hf
          | nothing => cases hf
          | exception id =>
            cases hf
            exact Or.inr (h.shift (e := .ended d.pending) (by rw [top]; exact Shift.ended) (by simp))
          | giveBack v => exact Or.inl (giveBack_failed hf)
          | leave target scopes => exact Or.inl (leaveTo_failed hf)
      | _ => cases hother

theorem settle?_eq {e : Effect} (h : ∀ f n, e = .failed f n → f.isFinal = true ∨ n.WellFormed s bases) :
    settle? s e = some (settle s e) := by
  cases e with
  | next n => rfl
  | returned v n => rfl
  | failed f n => exact fail?_eq bases (h f n rfl) true n.loops

theorem begun (h : m.WellFormed s bases) {ins : Instruction} (inside : 0 ≤ m.ip) :
    (m.begun s ins).WellFormed s bases := by
  have htick : m.tick.WellFormed s bases := h.quiet (Quiet.of_eq rfl rfl rfl rfl rfl)
  have hmark : m.tick.markFinalizing.WellFormed s bases := by
    rcases markFinalizing_changes (s := s) m.tick inside with ⟨d, rest, -, hch, -⟩ | ⟨-, hsame⟩
    · obtain ⟨-, hm⟩ := htick.changes hch
      have hlen : m.tick.markFinalizing.frames.length = m.tick.frames.length := by
        rw [markFinalizing_eq]
      rwa [hlen, Nat.sub_self, List.drop_zero] at hm
    · rwa [hsame]
  refine hmark.quiet ?_
  unfold Machine.begun traced
  split <;> exact Quiet.of_eq rfl rfl rfl rfl rfl

theorem fetch?_eq (h : m.WellFormed s bases) : m.fetch? s = some (m.fetch s) := by
  unfold fetch? fetch
  cases hi : s.program.instruction? m.ip with
  | none =>
    dsimp only
    split
    · rfl
    · exact fail?_eq bases (Or.inl rfl) true _
  | some ins =>
    dsimp only
    cases m.tick.stopBefore? with
    | some reason => exact fail?_eq bases (Or.inl rfl) true _
    | none =>
      have hb : (m.begun s ins).WellFormed s bases := h.begun (instruction?_nonneg hi)
      change ((m.begun s ins).step? s ins).bind (settle? s) =
        some (settle s ((m.begun s ins).step s ins))
      rw [hb.step?_eq ins, Option.bind_some]
      exact settle?_eq fun f n hf => hb.step_failed hf

theorem callBack?_eq (h : m.WellFormed s bases) (callee : Value) (args : List Value) :
    m.callBack? s callee args = some (m.callBack s callee args) := by
  unfold callBack? callBack
  cases callbackRefusal? s callee args with
  | some e => exact fail?_eq bases (Or.inr h) false _
  | none =>
    dsimp only
    cases Target.of callee args with
    | function c self =>
      cases m.tooDeep? s with
      | some e => exact fail?_eq bases (Or.inr h) false _
      | none => rfl
    | builtin | method | nobody =>
      have hq := callNative_quiet (s := s) m true callee args
      dsimp only
      cases hn : callNative s m true callee args with
      | loops l n => rfl
      | answered r n =>
        rw [hn] at hq
        cases r with
        | ok v => rfl
        | error f => exact fail?_eq bases (Or.inr (h.quiet hq)) false _

theorem iterate?_eq (h : m.WellFormed s bases) : m.iterate? s = some (m.iterate s) := by
  unfold iterate? iterate
  cases m.loops with
  | nil => rfl
  | cons l loops =>
    dsimp only
    cases l.rest with
    | nil => rfl
    | cons e rest =>
      let l' : Loop := { (l.take e rest).1 with boundary := m.frames.length + 1 }
      have hm : { m with loops := l' :: loops }.WellFormed s bases :=
        h.quiet (Quiet.of_eq rfl rfl rfl rfl rfl)
      exact hm.callBack?_eq l'.callee (l.take e rest).2

theorem advance?_eq (h : m.WellFormed s bases) : m.advance? s = some (m.advance s) := by
  unfold advance? Machine.advance
  cases m.control with
  | fetch => exact h.fetch?_eq
  | iterate => exact h.iterate?_eq

/-- The run of the partial machine goes as far as the run of the machine. -/
theorem runFor?_eq (n : Nat) {st : Status} (h : st.machine.WellFormed s bases) :
    runFor? s n st = some (runFor s n st) := by
  induction n generalizing st bases with
  | zero => rfl
  | succ n ih =>
    cases st with
    | ended e m => rfl
    | running m =>
      have hm : m.WellFormed s bases := h
      rw [runFor?, hm.advance?_eq, Option.bind_some]
      exact ih hm.advance

end WellFormed

end Machine

/-- A run of the partial machine. -/
def Setup.stateAfter? (s : Setup) (w : World) (o : RunOptions) (n : Nat) : Option Status :=
  Machine.runFor? s n (.running { world := w.renew o })

/-- After any number of steps of any run the machine is well-formed. And it has come there without
leaving a scope that has no parent or dropping a frame where there is none. -/
theorem Setup.stateAfter_wellFormed_and_unwindable (s : Setup) (w : World) (o : RunOptions) (n : Nat) :
    (s.stateAfter w o n).machine.WellFormed s (s.basesAfter w o n) ∧
      s.stateAfter? w o n = some (s.stateAfter w o n) :=
  ⟨s.wellFormed_stateAfter w o n,
    Machine.WellFormed.runFor?_eq n (s.wellFormed_stateAfter w o 0)⟩

end BytecodeMachine
