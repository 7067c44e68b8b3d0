import BytecodeMachine.Proofs.Machine.Calling
import BytecodeMachine.Proofs.Machine.Data

/-! What instructions do, said once for all of them but those that move between scopes, frames and
handlers. Such an instruction takes values off the stack; then it puts values on it, goes elsewhere,
binds a variable, prints, throws, ends the run or calls, and before that it may ask native code for a
value or tell it to change one. A relation that all of this keeps, between a machine and others that
execute the same instruction, is kept by the instruction; a property of one machine is such a
relation to no others. -/
namespace BytecodeMachine

/-- The instructions that move between scopes, frames and handlers. -/
def Opcode.transfers : Opcode → Bool
  | .pushScope | .popScope | .leave | .ret | .tryPush | .tryPop | .endFinally => true
  | _ => false

/-- The instructions that call. -/
def Opcode.calls : Opcode → Bool
  | .call | .callIndirect | .callMethod => true
  | _ => false

/-- How many values an instruction puts on the stack. -/
def Opcode.puts : Opcode → Nat
  | dup => 1
  | op => op.info.pushes

/-- The faults that an instruction can raise by itself, in a program without defects. -/
inductive Opcode.Faults (p : Program) (o : Operand) : Opcode → FaultCause → Prop
  | stackUnderflow {op : Opcode} (pops : op.info.pops ≠ some 0) : Faults p o op .stackUnderflow
  | scopeUnderflow : Faults p o .popScope .scopeUnderflow
  | leavePast : Faults p o .leave (.leavePast o.int2.toInt)
  /-- The end of a finally block goes on with a leave that was put off. -/
  | resumedLeavePast (scopes : Int) : Faults p o .endFinally (.leavePast scopes)
  | tryPopWithoutHandler : Faults p o .tryPop .tryPopWithoutHandler
  | endFinallyWithoutHandler : Faults p o .endFinally .endFinallyWithoutHandler
  | undefinedFunction (missing : p.functions.get? o.name = none) :
      Faults p o .pushClosure (.undefinedFunction o.name)
  | undefinedClass (missing : p.classes.contains o.name = false) :
      Faults p o .newObject (.undefinedClass o.name)
  | undefinedType {op : Opcode} (names : op = .loadStatic ∨ op = .storeStatic ∨ op = .pushType)
      (missing : p.resolveType? o.name = none) : Faults p o op (.undefinedType o.name)
  | badDecimal {l : Literal} (lit : o.lit = some l) (unreadable : Decimal.read? l.str = none) :
      Faults p o .pushConst (.badDecimal l.str)
  | unknownLiteral {l : Literal} (lit : o.lit = some l)
      (unknown : LiteralKind.ofCode? l.kind = none) :
      Faults p o .pushConst (.unknownLiteral l.kind)

/-- What native code is asked for. -/
inductive Query where
  | name (name : Text)
  | callee (name : Text)
  | member (receiver : Value) (name : Text)
  | typeMember (t : TypeRef) (name : Text)
  | index (obj idx : Value)
  | slice (obj start stop : Value)
  | array (elems : List Value)
  /-- Two arrays of the store as one. -/
  | joined (x y : Nat)
  | dict (entries : List (Value × Value))
  | closure (fn : Function)
  | object (name : Text)

/-- What native code is told to change. -/
inductive Update where
  | index (obj idx v : Value)
  | member (receiver : Value) (name : Text) (v : Value)

/-- What instructions ask for, of values of which a predicate holds. -/
inductive Opcode.Asks (s : Setup) (o : Operand) (H : Value → Prop) : Opcode → Query → Prop
  | loadVar : Asks s o H .loadVar (.name o.name)
  | call : Asks s o H .call (.callee o.name)
  | callMethod {receiver : Value} (has : H receiver) : Asks s o H .callMethod (.member receiver o.name)
  | loadMember {receiver : Value} (has : H receiver) : Asks s o H .loadMember (.member receiver o.name)
  | loadStatic {t : TypeRef} (names : s.program.resolveType? o.name = some t) :
      Asks s o H .loadStatic (.typeMember t o.member)
  | indexGet {obj idx : Value} (hobj : H obj) (hidx : H idx) : Asks s o H .indexGet (.index obj idx)
  | sliceGet {obj start stop : Value} (has : H obj) : Asks s o H .sliceGet (.slice obj start stop)
  | makeArray {elems : List Value} (has : ∀ v ∈ elems, H v) : Asks s o H .makeArray (.array elems)
  | makeDict {vs : List Value} (has : ∀ v ∈ vs, H v) :
      Asks s o H .makeDict (.dict (Machine.pairs vs))
  | add (x y : Nat) : Asks s o H .add (.joined x y)
  | pushClosure {fn : Function} (found : s.program.functions.get? o.name = some fn) :
      Asks s o H .pushClosure (.closure fn)
  | newObject (found : s.program.classes.contains o.name = true) :
      Asks s o H .newObject (.object o.name)

/-- What instructions tell native code to change, with such values. -/
inductive Opcode.Tells (s : Setup) (o : Operand) (H : Value → Prop) : Opcode → Update → Prop
  | indexSet {obj idx v : Value} (hidx : H idx) (hv : H v) :
      Tells s o H .indexSet (.index obj idx v)
  | storeMember {receiver v : Value} (hv : H v) :
      Tells s o H .storeMember (.member receiver o.name v)
  | storeStatic {t : TypeRef} {v : Value} (hv : H v) :
      Tells s o H .storeStatic (.member (.type t) o.member v)

section Weaken

variable {s : Setup} {o : Operand} {op : Opcode} {H H' : Value → Prop}

theorem Opcode.Asks.mono {q : Query} (weaker : ∀ v, H v → H' v) (h : op.Asks s o H q) :
    op.Asks s o H' q := by
  cases h with
  | loadVar => exact .loadVar
  | call => exact .call
  | callMethod has => exact .callMethod (weaker _ has)
  | loadMember has => exact .loadMember (weaker _ has)
  | loadStatic names => exact .loadStatic names
  | indexGet hobj hidx => exact .indexGet (weaker _ hobj) (weaker _ hidx)
  | sliceGet has => exact .sliceGet (weaker _ has)
  | makeArray has => exact .makeArray fun v hv => weaker v (has v hv)
  | makeDict has => exact .makeDict fun v hv => weaker v (has v hv)
  | add x y => exact .add x y
  | pushClosure found => exact .pushClosure found
  | newObject found => exact .newObject found

theorem Opcode.Tells.mono {u : Update} (weaker : ∀ v, H v → H' v) (h : op.Tells s o H u) :
    op.Tells s o H' u := by
  cases h with
  | indexSet hidx hv => exact .indexSet (weaker _ hidx) (weaker _ hv)
  | storeMember hv => exact .storeMember (weaker _ hv)
  | storeStatic hv => exact .storeStatic (weaker _ hv)

end Weaken

namespace Machine

section Native

variable (s : Setup) (m : Machine)

def ask : Query → Reply Value
  | .name name => m.valueOfName s name
  | .callee name => m.calleeOfName s name
  | .member receiver name => m.world.loadMember s.program (m.place s) receiver name
  | .typeMember t name => m.world.typeMember s.program (m.place s) t name
  | .index obj idx => m.world.indexGet s.program (m.place s) obj idx
  | .slice obj start stop => m.world.sliceGet obj start stop
  | .array elems => m.world.newArray elems
  | .joined x y => m.world.newArray (m.world.store.array x ++ m.world.store.array y)
  | .dict entries =>
    let (v, w) := m.world.newDict (Dict.ofPairs entries)
    (.ok v, w)
  | .closure fn =>
    let (ref, w) := m.world.newRef
    (.ok (.closure ⟨ref, fn.name, fn.address.toInt, fn.params, m.scope⟩), w)
  | .object name =>
    let (id, store) := m.world.store.newObject (s.program.classRef name)
    (.ok (.object id), { m.world with store := store })

def tell : Update → Reply Unit
  | .index obj idx v => m.world.indexSet s.program obj idx v
  | .member receiver name v => m.world.storeMember s.program receiver name v

/-- The value that an instruction is about to call. -/
def calleeOf? (o : Operand) : Opcode → Option Value
  | .call => (m.calleeOfName s o.name).1.toOption
  | .callIndirect => m.stack[o.int.toInt.toNat]?
  | .callMethod => m.stack[o.int.toInt.toNat]?.bind fun receiver =>
    (m.world.loadMember s.program (m.place s) receiver o.name).1.toOption
  | _ => none

/-- How many values a call takes off the stack when its callee is looked up first. -/
def lookupTakes (argc extra : Int) (r : Reply Value) : Nat :=
  match r.1 with
  | .ok callee => callTakes s m callee argc extra
  | .error _ => 0

/-- How many values an instruction takes off the stack. One that only looks at the top takes none. -/
def takes (o : Operand) : Opcode → Nat
  | .dup => 0
  | .call => lookupTakes s m o.int.toInt 0 (m.calleeOfName s o.name)
  | .callIndirect =>
    match m.stack[o.int.toInt.toNat]? with
    | some callee => callTakes s m callee o.int.toInt 1
    | none => 0
  | .callMethod =>
    match m.stack[o.int.toInt.toNat]? with
    | some receiver =>
      lookupTakes s m o.int.toInt 1 (m.world.loadMember s.program (m.place s) receiver o.name)
    | none => 0
  | .makeArray => o.int.toInt.toNat
  | .makeDict => (2 * o.int).toInt.toNat
  | op => op.info.pops.getD 0

end Native

/-- A relation of a machine to others, in the course of an instruction and at its end, and what it
has to allow for. -/
structure Accord (s : Setup) (o : Operand) (op : Opcode) (ι : Type) where
  /-- After so many values have been taken; of all that are left a predicate holds. -/
  After : Nat → (Value → Prop) → Machine → (ι → Machine) → Prop
  /-- What the instruction may call. -/
  Called : Value → Prop := fun _ => True
  /-- At the end of the instruction, which takes so many values in all and puts so many. -/
  Ends : Nat → Nat → Effect → (ι → Effect) → Prop
  stack {j H m ms} : After j H m ms → ∀ i, (ms i).stack = m.stack
  truthy {j H m ms} : After j H m ms →
    ∀ i v, (ms i).world.store.truthy v = m.world.store.truthy v
  text {j H m ms v} : After j H m ms → H v → ∀ i, (ms i).world.text v = m.world.text v
  refusal {j H m ms} : After j H m ms →
    ∀ i callee argc, callRefusal? s (ms i) callee argc = callRefusal? s m callee argc
  held {j H m ms} : After j H m ms → ∀ v ∈ m.stack, H v
  data {j H m ms} {v : Value} : After j H m ms → v.Data → H v
  type {j H m ms t} : After j H m ms → s.program.resolveType? o.name = some t → H (.type t)
  drop {j H m ms} (n : Nat) : After j H m ms → After (j + n) H { m with stack := m.stack.drop n }
    fun i => { ms i with stack := (ms i).stack.drop n }
  next {j H m ms} (vs : List Value) : After j H m ms → (∀ v ∈ vs, H v) →
    Ends j vs.length (.next { m with stack := vs ++ m.stack })
      fun i => .next { ms i with stack := vs ++ (ms i).stack }
  fault {j k p H m ms c} : After j H m ms → j ≤ k →
    op.Faults s.program o c ∨ op = .pushConst ∧ o.lit = none →
    Ends k p (.failed (m.fault s c) m) fun i => .failed ((ms i).fault s c) (ms i)
  raise {j k p H m ms} (c : ErrorCause) : After j H m ms → j ≤ k →
    Ends k p (.failed (.of c) m) fun i => .failed (.of c) (ms i)
  thrown {j p H m ms v} : op = .throw → After j H m ms → H v →
    Ends j p (.failed (m.thrown v) m) fun i => .failed ((ms i).thrown v) (ms i)
  halt {j p H m ms} : op = .halt → After j H m ms →
    Ends j p (.failed (.halt .null) m) fun i => .failed (.halt .null) (ms i)
  jump {j H m ms} : op.isJump = true → After j H m ms →
    Ends j 0 (.next { m with ip := o.int.toInt }) fun i => .next { ms i with ip := o.int.toInt }
  declare {j H m ms v} : op = .varDecl → After j H m ms → H v →
    Ends j 0 (.next (m.declare o.name v)) fun i => .next ((ms i).declare o.name v)
  assign {j H m ms v} : op = .storeVar → After j H m ms → H v →
    Ends j 0 (m.assign o.name v) fun i => (ms i).assign o.name v
  print {j H m ms v} : op = .print → After j H m ms → H v →
    Ends j 0 (m.print v) fun i => (ms i).print v
  ask {j k p H m ms q} {K : Value → Machine → Effect} : After j H m ms → op.Asks s o H q → j ≤ k →
    (∀ v w (ws : ι → World) H', m.ask s q = (.ok v, w) → H' v →
      After j H' { m with world := w } (fun i => { ms i with world := ws i }) →
      Ends k p (K v { m with world := w }) fun i => K v { ms i with world := ws i }) →
    Ends k p (m.reply (m.ask s q) K) fun i => (ms i).reply ((ms i).ask s q) K
  tell {j H m ms u} : After j H m ms → op.Tells s o H u →
    Ends j 0 (m.reply (m.tell s u) fun _ n => .next n)
      fun i => (ms i).reply ((ms i).tell s u) fun _ n => .next n
  carryOut {j H m ms callee args} : op.calls = true → After j H m ms → H callee → Called callee →
    (∀ v ∈ args, H v) →
    (∀ c self, Target.of callee args = .function c self → m.frames.length < s.maxCallDepth) →
    Ends j 1 (carryOut s m callee args) fun i => Machine.carryOut s (ms i) callee args

namespace Accord

variable {s : Setup} {o : Operand} {op : Opcode} {ι : Type} (A : Accord s o op ι)
  {j k p : Nat} {H : Value → Prop} {m : Machine} {ms : ι → Machine}

theorem congr {e e' : Effect} {es es' : ι → Effect} (he : e = e') (hes : ∀ i, es i = es' i)
    (h : A.Ends k p e' es') : A.Ends k p e es := by
  obtain rfl := he
  obtain rfl : es = es' := funext hes
  exact h

/-! Taking values. -/

theorem underflow (h : A.After j H m ms) (hj : j ≤ k) (pops : op.info.pops ≠ some 0) :
    A.Ends k p (m.underflow s) fun i => (ms i).underflow s :=
  A.fault h hj (.inl (.stackUnderflow pops))

theorem pop (h : A.After j H m ms) (hj : j ≤ k) (pops : op.info.pops ≠ some 0)
    {K : Value → Machine → Effect}
    (hK : ∀ v n ns, H v → A.After (j + 1) H n ns → A.Ends k p (K v n) fun i => K v (ns i)) :
    A.Ends k p (m.pop s K) fun i => (ms i).pop s K := by
  have hstack := A.stack h
  cases hst : m.stack with
  | nil =>
    refine A.congr (pop_of_nil hst K) (fun i => ?_) (A.underflow h hj pops)
    exact pop_of_nil ((hstack i).trans hst) K
  | cons v stack =>
    have hv : H v := A.held h v (hst ▸ List.mem_cons_self ..)
    refine A.congr ?_ (fun i => ?_) (hK v _ _ hv (A.drop 1 h))
    · rw [pop_of_cons hst, hst, List.drop_one, List.tail_cons]
    · rw [pop_of_cons ((hstack i).trans hst), hstack i, hst, List.drop_one, List.tail_cons]

theorem pop2 (h : A.After j H m ms) (hj : j + 1 ≤ k) (pops : op.info.pops ≠ some 0)
    {K : Value → Value → Machine → Effect}
    (hK : ∀ a b n ns, H a → H b → A.After (j + 2) H n ns →
      A.Ends k p (K a b n) fun i => K a b (ns i)) :
    A.Ends k p (m.pop2 s K) fun i => (ms i).pop2 s K :=
  A.pop h (by omega) pops fun b _ _ hb h' => A.pop h' hj pops fun a n ns ha hn =>
    hK a b n ns ha hb hn

theorem pop3 (h : A.After j H m ms) (hj : j + 2 ≤ k) (pops : op.info.pops ≠ some 0)
    {K : Value → Value → Value → Machine → Effect}
    (hK : ∀ a b c n ns, H a → H b → H c → A.After (j + 3) H n ns →
      A.Ends k p (K a b c n) fun i => K a b c (ns i)) :
    A.Ends k p (m.pop3 s K) fun i => (ms i).pop3 s K :=
  A.pop h (by omega) pops fun c _ _ hc h' => A.pop2 h' hj pops fun a b n ns ha hb hn =>
    hK a b c n ns ha hb hc hn

/-- What comes after is known of the machines themselves, which are as before but for the stack. -/
theorem popMany (h : A.After j H m ms) (hj : j ≤ k) (pops : op.info.pops ≠ some 0) {count : Int}
    {K : List Value → Machine → Effect}
    (hK : ∀ vs ns, (∀ v ∈ vs, H v) →
      A.After (j + count.toNat) H { m with stack := m.stack.drop count.toNat } ns →
      A.Ends k p (K vs { m with stack := m.stack.drop count.toNat }) fun i => K vs (ns i)) :
    A.Ends k p (m.popMany s count K) fun i => (ms i).popMany s count K := by
  have hstack := A.stack h
  by_cases hfew : (decide (count < 0) || decide ((m.stack.length : Int) < count)) = true
  · refine A.congr (if_pos hfew) (fun i => ?_) (A.underflow h hj pops)
    exact if_pos (by rw [hstack i]; exact hfew)
  · have hvs : ∀ v ∈ (m.stack.take count.toNat).reverse, H v := fun v hv =>
      A.held h v (List.mem_of_mem_take (List.mem_reverse.mp hv))
    refine A.congr (if_neg hfew) (fun i => ?_) (hK _ _ hvs (A.drop count.toNat h))
    unfold Machine.popMany
    rw [hstack i, if_neg hfew]

theorem peek (h : A.After j H m ms) (hj : j ≤ k) (pops : op.info.pops ≠ some 0) {depth : Int}
    {K : Value → Effect} {Ks : ι → Value → Effect}
    (hK : ∀ v, m.stack[depth.toNat]? = some v → H v → A.Ends k p (K v) fun i => Ks i v) :
    A.Ends k p (m.peek s depth K) fun i => (ms i).peek s depth (Ks i) := by
  have hstack := A.stack h
  cases hv : (if depth < 0 then none else m.stack[depth.toNat]?) with
  | none =>
    refine A.congr ?_ (fun i => ?_) (A.underflow h hj pops)
    · unfold Machine.peek
      rw [hv]
    · unfold Machine.peek
      rw [hstack i, hv]
  | some v =>
    have hget : m.stack[depth.toNat]? = some v := by
      split at hv
      · cases hv
      · exact hv
    refine A.congr ?_ (fun i => ?_) (hK v hget (A.held h v (List.mem_of_getElem? hget)))
    · unfold Machine.peek
      rw [hv]
    · unfold Machine.peek
      rw [hstack i, hv]

/-! Going on. -/

theorem still (h : A.After j H m ms) : A.Ends j 0 (.next m) fun i => .next (ms i) :=
  A.next [] h nofun

theorem push (h : A.After j H m ms) {v : Value} (hv : H v) :
    A.Ends j 1 (.next (m.push v)) fun i => .next ((ms i).push v) :=
  A.next [v] h fun _ hu => List.mem_singleton.mp hu ▸ hv

theorem pushData (h : A.After j H m ms) {v : Value} (hv : v.Data) :
    A.Ends j 1 (.next (m.push v)) fun i => .next ((ms i).push v) := A.push h (A.data h hv)

theorem pushResult (h : A.After j H m ms) {r : Except ErrorCause Value}
    (hr : Yields Value.Data r) : A.Ends j 1 (m.pushResult r) fun i => (ms i).pushResult r := by
  cases r with
  | ok v => exact A.pushData h (hr v rfl)
  | error e => exact A.raise e h (Nat.le_refl j)

theorem pushReply (h : A.After j H m ms) {q : Query} (asks : op.Asks s o H q) :
    A.Ends j 1 (m.pushReply (m.ask s q)) fun i => (ms i).pushReply ((ms i).ask s q) :=
  A.ask h asks (Nat.le_refl j) fun _ _ _ _ _ hv hn => A.push hn hv

theorem withType (h : A.After j H m ms) (hj : j ≤ k)
    (names : op = .loadStatic ∨ op = .storeStatic ∨ op = .pushType) {K : TypeRef → Effect}
    {Ks : ι → TypeRef → Effect}
    (hK : ∀ t, s.program.resolveType? o.name = some t → A.Ends k p (K t) fun i => Ks i t) :
    A.Ends k p (m.withType s o.name K) fun i => (ms i).withType s o.name (Ks i) := by
  unfold Machine.withType
  cases ht : s.program.resolveType? o.name with
  | none => exact A.fault h hj (.inl (.undefinedType names ht))
  | some t => exact hK t ht

/-! Instructions. -/

theorem pushConst {A : Accord s o .pushConst ι} (h : A.After 0 H m ms) :
    A.Ends 0 1 (m.perform s o .pushConst) fun i => (ms i).perform s o .pushConst := by
  dsimp only [perform]
  cases hl : literal o.lit with
  | ok v => exact A.pushData h (literal_data o.lit v hl)
  | error c =>
    refine A.fault h (Nat.le_refl 0) ?_
    unfold literal at hl
    split at hl
    · next hnone => exact .inr ⟨rfl, hnone⟩
    · next l hlit =>
      split at hl
      case h_7 =>
        split at hl
        · cases hl
        · next hread =>
          cases hl
          exact .inl (.badDecimal hlit hread)
      case h_10 =>
        next hkind =>
        cases hl
        exact .inl (.unknownLiteral hlit hkind)
      all_goals cases hl

theorem add (h : A.After j H m ms) (hop : op = .add) {a b : Value} (ha : H a) (hb : H b) :
    A.Ends j 1 (m.add a b) fun i => (ms i).add a b := by
  subst hop
  have htext : A.Ends j 1 (.next (m.push (.string (m.world.text a ++ m.world.text b))))
      fun i => .next ((ms i).push (.string ((ms i).world.text a ++ (ms i).world.text b))) := by
    refine A.congr rfl (fun i => ?_) (A.pushData h (.string _))
    rw [A.text h ha, A.text h hb]
  unfold Machine.add
  split
  · exact htext
  · exact htext
  · exact A.pushReply h (.add _ _)
  · exact A.pushResult h (Value.arith_data _ _ _)

theorem arithmetic (h : A.After 0 H m ms) (pops : op.info.pops ≠ some 0) {aop : ArithOp}
    (hop : aop = .add → op = .add) :
    A.Ends 2 1 (m.arithmetic s aop) fun i => (ms i).arithmetic s aop := by
  refine A.pop2 h (Nat.le_succ 1) pops fun a b n ns ha hb hn => ?_
  by_cases hadd : aop = .add
  · simp only [if_pos hadd]
    exact A.add hn (hop hadd) ha hb
  · simp only [if_neg hadd]
    exact A.pushResult hn (Value.arith_data _ _ _)

theorem comparison (h : A.After 0 H m ms) (pops : op.info.pops ≠ some 0) (cop : CompareOp) :
    A.Ends 2 1 (m.comparison s cop) fun i => (ms i).comparison s cop :=
  A.pop2 h (Nat.le_succ 1) pops fun _ _ _ _ _ _ hn => A.pushResult hn (.map .bool)

theorem branch (h : A.After 0 H m ms) (pops : op.info.pops ≠ some 0)
    (hop : op.isJump = true) (sense : Bool) :
    A.Ends 1 0 (m.branch s sense o.int.toInt) fun i => (ms i).branch s sense o.int.toInt := by
  refine A.pop h (Nat.zero_le 1) pops fun v n ns _ hn => ?_
  have htruthy := A.truthy hn
  by_cases htruth : n.world.store.truthy v = sense
  · refine A.congr (congrArg Effect.next (if_pos htruth)) (fun i => ?_) (A.jump hop hn)
    exact congrArg Effect.next (if_pos ((htruthy i v).trans htruth))
  · refine A.congr (congrArg Effect.next (if_neg htruth)) (fun i => ?_) (A.still hn)
    exact congrArg Effect.next (if_neg (by rwa [htruthy i v]))

theorem pushClosure {A : Accord s o .pushClosure ι} (h : A.After 0 H m ms) :
    A.Ends 0 1 (m.pushClosure s o.name) fun i => (ms i).pushClosure s o.name := by
  unfold Machine.pushClosure
  cases hf : s.program.functions.get? o.name with
  | none => exact A.fault h (Nat.le_refl 0) (.inl (.undefinedFunction hf))
  | some fn => exact A.pushReply h (.pushClosure hf)

theorem newObject {A : Accord s o .newObject ι} (h : A.After 0 H m ms) :
    A.Ends 0 1 (m.newObject s o.name) fun i => (ms i).newObject s o.name := by
  unfold Machine.newObject
  by_cases hc : s.program.classes.contains o.name = true
  · simp only [if_pos hc]
    exact A.pushReply h (.newObject hc)
  · simp only [if_neg hc]
    exact A.fault h (Nat.le_refl 0) (.inl (.undefinedClass (Bool.eq_false_iff.mpr hc)))

/-- A refused call leaves everything; one that is not takes its arguments and what is below them. -/
theorem call (hop : op.calls = true) (pops : op.info.pops ≠ some 0) (h : A.After 0 H m ms)
    {callee : Value} (hc : H callee) (called : A.Called callee) (argc extra : Int) :
    A.Ends (callTakes s m callee argc extra) 1 (m.call s callee argc extra)
      fun i => (ms i).call s callee argc extra := by
  have hsame := A.refusal h
  unfold callTakes
  cases hr : callRefusal? s m callee argc with
  | some e =>
    refine A.congr (call_of_refused hr) (fun i => ?_) (A.raise e h (Nat.zero_le _))
    exact call_of_refused ((hsame i callee argc).trans hr)
  | none =>
    have htaken : A.Ends (argc.toNat + extra.toNat) 1
        (m.popCall s argc extra fun args n => Machine.carryOut s n callee args)
        fun i => (ms i).popCall s argc extra fun args n => Machine.carryOut s n callee args := by
      refine A.popMany h (Nat.zero_le _) pops fun args ns ha h₁ => ?_
      rw [Nat.zero_add] at h₁
      refine A.popMany h₁ (Nat.le_add_right _ _) pops fun _ os _ h₂ => ?_
      refine A.carryOut hop h₂ hc called ha fun c self ht => ?_
      exact room_of_accepted (m := m) hr ht
    refine A.congr (call_of_accepted hr) (fun i => ?_) htaken
    exact call_of_accepted ((hsame i callee argc).trans hr)

/-- The lookup of a callee leaves the stack as it is, so what the call takes is known before. -/
theorem calling (hop : op.calls = true) (pops : op.info.pops ≠ some 0) (h : A.After 0 H m ms)
    {q : Query} (asks : op.Asks s o H q) (called : ∀ c ∈ (m.ask s q).1.toOption, A.Called c)
    (argc extra : Int) :
    A.Ends (lookupTakes s m argc extra (m.ask s q)) 1
      (m.reply (m.ask s q) fun callee n => n.call s callee argc extra)
      fun i => (ms i).reply ((ms i).ask s q) fun callee n => n.call s callee argc extra := by
  refine A.ask h asks (Nat.zero_le _) fun callee w ws H' hr hc hn => ?_
  rw [hr] at called
  unfold lookupTakes
  rw [hr]
  exact A.call hop pops hn hc (called callee rfl) argc extra

theorem looking (h : A.After 0 H m ms) (pops : op.info.pops ≠ some 0) {depth : Int}
    {taken : Value → Nat} {K : Value → Effect} {Ks : ι → Value → Effect}
    (hK : ∀ v, m.stack[depth.toNat]? = some v → H v → A.Ends (taken v) p (K v) fun i => Ks i v) :
    A.Ends (match m.stack[depth.toNat]? with
      | some v => taken v
      | none => 0) p (m.peek s depth K) fun i => (ms i).peek s depth (Ks i) := by
  refine A.peek h (Nat.zero_le _) pops fun v hget hv => ?_
  rw [hget]
  exact hK v hget hv

/-- One case an instruction. -/
theorem perform (h : A.After 0 H m ms) (stays : op.transfers = false)
    (called : ∀ c ∈ m.calleeOf? s o op, A.Called c) :
    A.Ends (m.takes s o op) op.puts (m.perform s o op) fun i => (ms i).perform s o op := by
  cases op
  case pushScope | popScope | leave | ret | tryPush | tryPop | endFinally => cases stays
  case pushConst => exact pushConst h
  all_goals dsimp only [Machine.perform, takes, Opcode.info, Opcode.puts, Option.getD_some]
  case nop => exact A.still h
  case pop => exact A.pop h (by decide) (by decide) fun _ _ _ _ hn => A.still hn
  case dup => exact A.peek h (by decide) (by decide) fun _ _ hv => A.push h hv
  case swap =>
    refine A.pop2 h (by decide) (by decide) fun a b n ns ha hb hn => A.next [a, b] hn ?_
    exact List.forall_mem_cons.mpr ⟨ha, List.forall_mem_cons.mpr ⟨hb, nofun⟩⟩
  case pushNull => exact A.pushData h .null
  case pushTrue => exact A.pushData h (.bool true)
  case pushFalse => exact A.pushData h (.bool false)
  case varDecl => exact A.pop h (by decide) (by decide) fun _ _ _ hv hn => A.declare rfl hn hv
  case loadVar => exact A.pushReply h .loadVar
  case storeVar => exact A.pop h (by decide) (by decide) fun _ _ _ hv hn => A.assign rfl hn hv
  case add => exact A.arithmetic h (by decide) fun _ => rfl
  case sub => exact A.arithmetic h (by decide) nofun
  case mul => exact A.arithmetic h (by decide) nofun
  case div => exact A.arithmetic h (by decide) nofun
  case mod => exact A.arithmetic h (by decide) nofun
  case neg =>
    exact A.pop h (by decide) (by decide) fun v _ _ _ hn => A.pushResult hn (Value.negate_data v)
  case not =>
    refine A.pop h (by decide) (by decide) fun v n ns _ hn => ?_
    refine A.congr rfl (fun i => ?_) (A.pushData hn (.bool (!n.world.store.truthy v)))
    rw [A.truthy hn]
  case eq => exact A.pop2 h (by decide) (by decide) fun _ _ _ _ _ _ hn => A.pushData hn (.bool _)
  case ne => exact A.pop2 h (by decide) (by decide) fun _ _ _ _ _ _ hn => A.pushData hn (.bool _)
  case lt => exact A.comparison h (by decide) _
  case le => exact A.comparison h (by decide) _
  case gt => exact A.comparison h (by decide) _
  case ge => exact A.comparison h (by decide) _
  case jump => exact A.jump rfl h
  case jumpIfFalse => exact A.branch h (by decide) rfl _
  case jumpIfTrue => exact A.branch h (by decide) rfl _
  case halt => exact A.halt rfl h
  case call => exact A.calling rfl (by decide) h .call called _ _
  case callIndirect =>
    exact A.looking h (by decide) fun c hget hc =>
      A.call rfl (by decide) h hc (called c hget) _ _
  case callMethod =>
    refine A.looking h (by decide) fun receiver hget hr => ?_
    refine A.calling rfl (by decide) h (.callMethod hr) (fun c hc => called c ?_) _ _
    exact Option.bind_eq_some_iff.mpr ⟨receiver, hget, hc⟩
  case pushClosure => exact pushClosure h
  case makeArray =>
    refine A.popMany h (Nat.zero_le _) (by decide) fun vs ns hvs hn => ?_
    rw [Nat.zero_add] at hn
    exact A.pushReply hn (.makeArray hvs)
  case makeDict =>
    refine A.popMany h (Nat.zero_le _) (by decide) fun vs ns hvs hn => ?_
    rw [Nat.zero_add] at hn
    exact A.pushReply hn (.makeDict hvs)
  case indexGet =>
    exact A.pop2 h (by decide) (by decide) fun _ _ _ _ hobj hidx hn =>
      A.pushReply hn (.indexGet hobj hidx)
  case indexSet =>
    exact A.pop3 h (by decide) (by decide) fun _ _ _ _ _ _ hidx hv hn => A.tell hn (.indexSet hidx hv)
  case sliceGet =>
    exact A.pop3 h (by decide) (by decide) fun _ _ _ _ _ hobj _ _ hn => A.pushReply hn (.sliceGet hobj)
  case newObject => exact newObject h
  case loadMember =>
    exact A.pop h (by decide) (by decide) fun _ _ _ hv hn => A.pushReply hn (.loadMember hv)
  case storeMember =>
    exact A.pop2 h (by decide) (by decide) fun _ _ _ _ _ hv hn => A.tell hn (.storeMember hv)
  case loadStatic =>
    exact A.withType h (by decide) (by decide) fun _ ht => A.pushReply h (.loadStatic ht)
  case storeStatic =>
    exact A.withType h (by decide) (by decide) fun _ _ =>
      A.pop h (by decide) (by decide) fun _ _ _ hv hn => A.tell hn (.storeStatic hv)
  case pushType =>
    exact A.withType h (by decide) (by decide) fun _ ht => A.push h (A.type h ht)
  case throw => exact A.pop h (by decide) (by decide) fun _ _ _ hv hn => A.thrown rfl hn hv
  case print => exact A.pop h (by decide) (by decide) fun _ _ _ hv hn => A.print rfl hn hv

end Accord

end Machine

end BytecodeMachine
