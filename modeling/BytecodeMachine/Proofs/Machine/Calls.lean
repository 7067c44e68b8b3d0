import BytecodeMachine.Proofs.Machine.Cells
import BytecodeMachine.Proofs.Machine.Lookups

/-! Calls by instructions. All that can be wrong with a call is found before anything is taken off
the stack, so a call that is refused leaves the machine as it was. A call of a function of the
program that is not refused takes its operands, and enters one frame with one scope of bindings. -/
namespace BytecodeMachine

/-! What there is to be called. -/

/-- How many values below its arguments an instruction that calls takes off the stack. -/
def Opcode.extra? : Opcode → Option Nat
  | .call => some 0
  | .callIndirect | .callMethod => some 1
  | _ => none

/-- The error about a static member that neither a class nor one of its bases has, or that is a
member of instances only. -/
inductive Program.LacksStatic (p : Program) (key name : Text) : ErrorCause → Prop where
  | nowhere (missing : p.findMember? key name = none) :
    LacksStatic p key name (.noStaticMember (p.classRef key).name name)
  | field {owner : Text} (found : p.findMember? key name = some (owner, .field)) :
    LacksStatic p key name (.instanceMember name (p.classRef owner).name)
  | method {owner fn : Text} (found : p.findMember? key name = some (owner, .method fn)) :
    LacksStatic p key name (.instanceMember name (p.classRef owner).name)

/-- The error about a member that a value does not have. A dictionary has all members. -/
inductive World.Lacks (p : Program) (w : World) (name : Text) : Value → ErrorCause → Prop where
  | object {id : Nat} (missing : p.findMember? (w.store.object id).cls.key name = none) :
    Lacks p w name (.object id) (.noMember (w.store.object id).cls.name name)
  | static {id : Nat} {e : ErrorCause}
    (missing : p.LacksStatic (w.store.object id).cls.key name e) : Lacks p w name (.static id) e
  | cls {c : ClassRef} {e : ErrorCause} (missing : p.LacksStatic c.key name e) :
    Lacks p w name (.cls c) e
  | classType {t : TypeRef} {e : ErrorCause} (target : t.target = .cls)
    (missing : p.LacksStatic t.name name e) : Lacks p w name (.type t) e
  | enumType {t : TypeRef} (target : t.target = .enum) (missing : name ∉ p.enumMembers t.name) :
    Lacks p w name (.type t) (.noEnumMember t.name name)
  | builtinType {t : TypeRef} {k : Kind} (target : t.target = .builtin k)
    (missing : Intrinsic.find? k name = none) : Lacks p w name (.type t) (.noMember t.name name)
  | exception {id : Nat} (missing : exceptionMember? (w.store.exception id) name = none) :
    Lacks p w name (.exception id) (.noMember "exception" name)
  | value {v : Value}
    (builtin : v.kind ∉ [Kind.object, .static, .cls, .type, .exception, .dict])
    (missing : Intrinsic.find? v.kind name = none) : Lacks p w name v (.noMember v.kind.name name)

namespace Machine

/-- The error about a callee that is not found: a name that is no function of the table, no variable
in sight and no function from outside, or a member that the receiver does not have. -/
inductive Unfound (s : Setup) (m : Machine) (o : Operand) : Opcode → ErrorCause → Prop where
  | name (table : s.program.functions.contains o.name = false) (hidden : m.lookup? o.name = none)
    (outside : s.builtin? o.name = none) : Unfound s m o .call (.undefinedName o.name)
  | member {receiver : Value} {e : ErrorCause}
    (there : m.stack[o.int.toInt.toNat]? = some receiver)
    (missing : m.world.Lacks s.program o.name receiver e) : Unfound s m o .callMethod e

/-- The callee that an instruction finds, by its name, on the stack or as a member of the receiver,
and the world after it has been looked up. -/
inductive Calls (s : Setup) (m : Machine) (o : Operand) : Opcode → Value → World → Prop where
  | name {callee : Value} {w : World} (found : m.calleeOfName s o.name = (.ok callee, w)) :
    Calls s m o .call callee w
  | indirect {callee : Value} (there : m.stack[o.int.toInt.toNat]? = some callee) :
    Calls s m o .callIndirect callee m.world
  | member {receiver callee : Value} {w : World}
    (there : m.stack[o.int.toInt.toNat]? = some receiver)
    (found : m.world.loadMember s.program (m.place s) receiver o.name = (.ok callee, w)) :
    Calls s m o .callMethod callee w

end Machine

/-- Why a callee is not called with arguments at a number of frames. What comes first counts. -/
inductive Setup.Refuses (s : Setup) (depth : Nat) (callee : Value) (args : List Value) :
    ErrorCause → Prop where
  | notCallable (arity : s.arity? callee = none) :
    Refuses s depth callee args (.notCallable callee.describeCallee)
  | arity {a : Arity} (arity : s.arity? callee = some a)
    (outside : args.length < a.least ∨ ∃ n ∈ a.most, n < args.length) :
    Refuses s depth callee args (.arity callee.calleeName a args.length)
  | receiver {im : Intrinsic} {receiver : Value} {rest : List Value}
    (unbound : callee = .intrinsic im) (accepts : im.unboundArity.accepts args.length = true)
    (first : args = receiver :: rest) (other : receiver.kind ≠ im.kind) :
    Refuses s depth callee args (.receiver im receiver.kind)
  | callDepth {c : Closure} {self : Option Value}
    (target : Target.of callee args = .function c self) (counted : c.params.length = args.length)
    (deep : s.maxCallDepth ≤ depth) : Refuses s depth callee args (.callDepth s.maxCallDepth)

namespace Machine

/-- What a function is called with under which names, the receiver of a method first. -/
def bindings (c : Closure) (self : Option Value) (args : List Value) : List (Text × Value) :=
  (self.toList.map fun v => (Text.ofString "self", v)) ++ c.params.zip args

/-- What a machine is after a call in a world in which its callee has been found: the operands are
off the stack, and there is one frame and one scope more. -/
structure Entered (m : Machine) (w : World) (operands : Nat) (c : Closure) (receiver : Option Value)
    (args : List Value) (n : Machine) : Prop where
  stack : n.stack = m.stack.drop operands
  frames : n.frames = ⟨c.name, m.ip, m.pc, m.scope, m.scopeDepth, m.stack.length - operands, false⟩
    :: m.frames
  scopeDepth : n.scopeDepth = m.scopeDepth + 1
  scope : n.scope = m.world.store.scopes.cells.size
  scopes : ∃ vars, n.world.store.scopes.cells =
      m.world.store.scopes.cells.push { vars := vars, parent := some c.scope } ∧
    (∀ x, vars.lookup x = (bindings c receiver args).reverse.lookup x) ∧
    (((bindings c receiver args).map (·.1)).Nodup → vars = bindings c receiver args)
  world : n.world = { w with store := { w.store with scopes := n.world.store.scopes } }
  handlers : n.handlers = m.handlers
  loops : n.loops = m.loops
  control : n.control = m.control
  ip : n.ip = c.entry
  pc : n.pc = m.pc

end Machine

/-! Members that are found and members that are not. -/

variable {p : Program} {here : Place} {w : World} {name : Text}

namespace World

theorem staticMember_of_lacks {key : Text} {e : ErrorCause} (h : p.LacksStatic key name e) :
    w.staticMember p here key name = w.fail e := by
  cases h with
  | nowhere missing => rw [staticMember, missing]
  | field found => rw [staticMember, found]
  | method found => rw [staticMember, found]

theorem enumOrdinal?_eq_none {members : List Text} :
    enumOrdinal? members name = none ↔ name ∉ members := by
  unfold enumOrdinal?
  rw [List.findIdx?_eq_none_iff]
  constructor
  · exact fun h hmem => by simpa using h name hmem
  · intro h x hx
    exact decide_eq_false fun heq => h (heq ▸ hx)

/-- A member that is missing is found to be so, and nothing is changed on the way. -/
theorem loadMember_of_lacks {receiver : Value} {e : ErrorCause} (h : w.Lacks p name receiver e) :
    w.loadMember p here receiver name = w.fail e := by
  cases h with
  | object missing => simp only [loadMember, instanceMember, missing]
  | static missing => exact staticMember_of_lacks missing
  | cls missing => exact staticMember_of_lacks missing
  | classType target missing =>
    simp only [loadMember, typeMember, target]
    exact staticMember_of_lacks missing
  | enumType target missing =>
    simp only [loadMember, typeMember, target, enumMember, enumOrdinal?_eq_none.mpr missing]
  | builtinType target missing => simp only [loadMember, typeMember, target, missing]
  | exception missing => simp only [loadMember, missing]
  | value builtin missing =>
    cases receiver
    case object | static | cls | type | exception | dict => simp [Value.kind] at builtin
    all_goals simp only [loadMember, missing]

/-- An answer that is a value. -/
def Answers {α : Type} (r : Reply α) : Prop := ∃ a w, r = (.ok a, w)

theorem functionClosure_answers {fn : Function} (h : p.functions.get? name = some fn) :
    Answers (w.functionClosure p here name) := by
  unfold functionClosure
  split
  · exact ⟨_, _, rfl⟩
  · rw [h]
    exact ⟨_, _, rfl⟩

theorem bindMethod_answers {fn : Function} (h : p.functions.get? name = some fn)
    (receiver : Value) : Answers (w.bindMethod p here name receiver) := by
  obtain ⟨c, w', hc⟩ : Answers (w.functionClosure p here name) := functionClosure_answers h
  rw [bindMethod, hc]
  exact ⟨_, _, rfl⟩

theorem staticMember_answers (checked : p.Checked) {key : Text}
    (h : ∀ e, ¬p.LacksStatic key name e) : Answers (w.staticMember p here key name) := by
  unfold staticMember
  split
  · exact ⟨_, _, rfl⟩
  · next owner fn hfind =>
    obtain ⟨info, hget, hdeclared⟩ := Program.findMember?_eq hfind
    obtain ⟨f, hf⟩ := checked.declared hget (.inr hdeclared)
    obtain ⟨c, w', hc⟩ : Answers (w.functionClosure p here fn) := functionClosure_answers hf
    rw [hc]
    exact ⟨_, _, rfl⟩
  · next owner member hstatic hmethod hfind =>
    cases member with
    | field => exact absurd (.field hfind) (h _)
    | method fn => exact absurd (.method hfind) (h _)
    | static => exact absurd rfl hstatic
    | staticMethod fn => exact absurd rfl (hmethod fn)
  · next hfind => exact absurd (.nowhere hfind) (h _)

/-- A static member that is reached through an instance is one of the class that declares it. -/
theorem instanceMember_answers (checked : p.Checked) {id : Nat}
    (h : p.findMember? (w.store.object id).cls.key name ≠ none) :
    Answers (w.instanceMember p here id name) := by
  unfold instanceMember
  dsimp only
  split
  · exact ⟨_, _, rfl⟩
  · next fn hfind =>
    obtain ⟨info, hget, hdeclared⟩ := Program.findMember?_eq hfind
    obtain ⟨f, hf⟩ := checked.declared hget (.inl hdeclared)
    exact bindMethod_answers hf _
  · next owner member hfield hmethod hfind =>
    have hself := Program.findMember?_owner hfind
    refine staticMember_answers checked fun e hlacks => ?_
    cases hlacks with
    | nowhere missing =>
      rw [missing] at hself
      cases hself
    | field found =>
      cases found.symm.trans hself
      exact hfield rfl
    | method found =>
      cases found.symm.trans hself
      exact hmethod _ rfl
  · next hfind => exact absurd hfind h

theorem typeMember_answers (checked : p.Checked) {t : TypeRef}
    (h : ∀ e, ¬w.Lacks p name (.type t) e) : Answers (w.typeMember p here t name) := by
  unfold typeMember
  split
  · next htarget => exact staticMember_answers checked fun e he => h e (.classType htarget he)
  · next htarget =>
    unfold enumMember
    split
    · exact ⟨_, _, rfl⟩
    · next hnone => exact absurd (.enumType htarget (enumOrdinal?_eq_none.mp hnone)) (h _)
  · next k htarget =>
    split
    · exact ⟨_, _, rfl⟩
    · next hnone => exact absurd (.builtinType htarget hnone) (h _)

/-- A member that is not missing is found. -/
theorem loadMember_answers (checked : p.Checked) {receiver : Value}
    (h : ∀ e, ¬w.Lacks p name receiver e) : Answers (w.loadMember p here receiver name) := by
  cases receiver
  case object id => exact instanceMember_answers checked fun hnone => h _ (.object hnone)
  case static id => exact staticMember_answers checked fun e he => h e (.static he)
  case cls c => exact staticMember_answers checked fun e he => h e (.cls he)
  case type t => exact typeMember_answers checked h
  case exception id =>
    unfold loadMember
    dsimp only
    split
    · exact ⟨_, _, rfl⟩
    · next hnone => exact absurd (.exception hnone) (h _)
  case dict id =>
    unfold loadMember
    dsimp only
    split <;> exact ⟨_, _, rfl⟩
  all_goals
    unfold loadMember
    dsimp only
    split
    · exact ⟨_, _, rfl⟩
    · next hnone => exact absurd (.value (by simp [Value.kind]) hnone) (h _)

end World

/-! Calls that are refused. -/

theorem Arity.accepts_eq_false_iff {a : Arity} {n : Nat} :
    a.accepts n = false ↔ n < a.least ∨ ∃ k ∈ a.most, k < n := by
  unfold Arity.accepts
  cases a.most with
  | none => simp
  | some k =>
    rw [Bool.and_eq_false_iff, decide_eq_false_iff_not, decide_eq_false_iff_not]
    simp

variable {s : Setup} {m : Machine} {callee : Value} {args rest : List Value} {e : ErrorCause}

namespace Setup

theorem refusal?_of_none {argc : Int} (h : s.arity? callee = none) :
    s.refusal? callee argc = some (.notCallable callee.describeCallee) := by
  rw [refusal?, h]

theorem refusal?_of_some {argc : Int} {a : Arity} (h : s.arity? callee = some a) :
    s.refusal? callee argc =
      if a.accepts argc then none else some (.arity callee.calleeName a argc) := by
  rw [refusal?, h]

/-- Only values with a count of parameters are functions of the program. -/
theorem arity?_of_function {c : Closure} {self : Option Value}
    (h : Target.of callee args = .function c self) :
    s.arity? callee = some (.exactly c.params.length) := by
  unfold Target.of at h
  split at h <;> cases h <;> rfl

theorem callbackRefusal?_of_function {c : Closure} {self : Option Value}
    (h : Target.of callee args = .function c self) (counted : c.params.length = args.length) :
    Machine.callbackRefusal? s callee args = none := by
  have haccepts : (Arity.exactly c.params.length).accepts args.length = true := by
    simp [Arity.accepts, Arity.exactly, counted]
  unfold Machine.callbackRefusal?
  rw [refusal?_of_some (arity?_of_function h), if_pos haccepts]
  unfold Target.of at h
  split at h <;> cases h <;> rfl

/-- What both kinds of calls refuse, apart from the depth. -/
theorem refuses_of_callbackRefusal? (depth : Nat)
    (h : Machine.callbackRefusal? s callee args = some e) : s.Refuses depth callee args e := by
  unfold Machine.callbackRefusal? at h
  cases ha : s.arity? callee with
  | none =>
    rw [refusal?_of_none ha] at h
    cases h
    exact .notCallable ha
  | some a =>
    rw [refusal?_of_some ha] at h
    cases haccepts : a.accepts args.length with
    | false =>
      rw [haccepts] at h
      cases h
      exact .arity ha (Arity.accepts_eq_false_iff.mp haccepts)
    | true =>
      rw [haccepts, if_pos rfl] at h
      dsimp only at h
      split at h
      · next im receiver rest =>
        split at h
        · cases h
        · next hother =>
          cases h
          cases ha
          exact .receiver rfl haccepts rfl hother
      · cases h

/-- A call is refused for the reasons that are looked for. The receiver of a method that is not
bound is looked at where it stands, below the other arguments. -/
theorem refuses_iff (hs : m.stack = args.reverse ++ rest) :
    s.Refuses m.frames.length callee args e ↔
      Machine.callRefusal? s m callee args.length = some e := by
  have hpushed := Machine.callRefusal?_pushed (s := s) { m with stack := rest } callee args
  dsimp only at hpushed
  rw [← hs] at hpushed
  rw [hpushed]
  constructor
  · intro h
    cases h with
    | notCallable harity =>
      unfold Machine.callbackRefusal?
      rw [refusal?_of_none harity]
    | arity harity outside =>
      unfold Machine.callbackRefusal?
      rw [refusal?_of_some harity, Arity.accepts_eq_false_iff.mpr outside]
      rfl
    | @receiver im receiver others unbound accepts first other =>
      subst unbound first
      have hrefusal : s.refusal? (.intrinsic im) (receiver :: others).length = none := by
        rw [refusal?_of_some rfl, if_pos accepts]
      unfold Machine.callbackRefusal?
      rw [hrefusal]
      dsimp only
      rw [if_neg other]
    | callDepth target counted deep =>
      rw [callbackRefusal?_of_function target counted, target]
      exact if_pos deep
  · intro h
    split at h
    · next hcallback =>
      cases h
      exact refuses_of_callbackRefusal? _ hcallback
    · next hcallback =>
      split at h
      · next c self htarget =>
        unfold Machine.tooDeep? at h
        split at h
        · next hdeep =>
          cases h
          have hrefusal : s.refusal? callee args.length = none := by
            unfold Machine.callbackRefusal? at hcallback
            split at hcallback
            · cases hcallback
            · assumption
          obtain ⟨a, ha, haccepts⟩ := accepts_of_refusal? hrefusal
          cases ha.symm.trans (arity?_of_function htarget)
          exact .callDepth htarget (Arity.eq_of_exactly haccepts) hdeep
        · cases h
      · cases h

end Setup

/-! Calls that are accepted. -/

theorem lookup_foldl_bind (bound vars : List (Text × Value)) (x : Text) :
    (bound.foldl (fun vars e => bind e.1 e.2 vars) vars).lookup x =
      (bound.reverse.lookup x).or (vars.lookup x) := by
  induction bound generalizing vars with
  | nil => rfl
  | cons e bound ih =>
    rw [List.foldl_cons, ih, List.reverse_cons, List.lookup_append, lookup_bind, Option.or_assoc,
      lookup_cons_eq]
    congr 1
    split <;> rfl

theorem bind_of_not_mem {α : Type} {x : Text} {es : List (Text × α)} (h : x ∉ es.map (·.1))
    (a : α) : bind x a es = es ++ [(x, a)] := by
  induction es with
  | nil => rfl
  | cons e es ih =>
    rw [List.map_cons, List.mem_cons, not_or] at h
    rw [bind, if_neg fun heq => h.1 heq.symm, ih h.2]
    rfl

/-- Names that are all different are bound one after the other. -/
theorem foldl_bind_of_nodup {bound vars : List (Text × Value)}
    (h : ((vars ++ bound).map (·.1)).Nodup) :
    bound.foldl (fun vars e => bind e.1 e.2 vars) vars = vars ++ bound := by
  induction bound generalizing vars with
  | nil => exact (List.append_nil vars).symm
  | cons e bound ih =>
    have hassoc : vars ++ e :: bound = vars ++ [(e.1, e.2)] ++ bound := by simp
    have hfresh : e.1 ∉ vars.map (·.1) := by
      rw [List.map_append, List.map_cons, List.nodup_append] at h
      exact fun hmem => h.2.2 _ hmem _ List.mem_cons_self rfl
    rw [List.foldl_cons, bind_of_not_mem hfresh, hassoc]
    exact ih (hassoc ▸ h)

theorem modify_push_size {α : Type} (xs : Array α) (x : α) (f : α → α) :
    (xs.push x).modify xs.size f = xs.push (f x) := by
  refine Array.ext_getElem? fun i => ?_
  rw [Array.getElem?_modify, Array.getElem?_push, Array.getElem?_push]
  by_cases hi : i = xs.size
  · rw [if_pos hi.symm, if_pos hi, if_pos hi]
    rfl
  · rw [if_neg fun h => hi h.symm, if_neg hi, if_neg hi]

/-- Declaring in the newest scope changes its bindings only. -/
theorem Scopes.foldl_declare_newest (bound vars : List (Text × Value)) (parent : Option Nat)
    (cells : Array Scope) :
    bound.foldl (fun (scopes : Scopes) e => scopes.declare e.1 e.2 cells.size)
        ⟨cells.push { vars := vars, parent := parent }⟩ =
      ⟨cells.push
        { vars := bound.foldl (fun vars e => bind e.1 e.2 vars) vars, parent := parent }⟩ := by
  induction bound generalizing vars with
  | nil => rfl
  | cons e bound ih =>
    rw [List.foldl_cons, List.foldl_cons, ← ih, Scopes.declare, modify_push_size]

namespace Machine

theorem popMany_of_le {n : Nat} (h : n ≤ m.stack.length) (k : List Value → Machine → Effect) :
    m.popMany s n k = k (m.stack.take n).reverse { m with stack := m.stack.drop n } := by
  rw [popMany_eq_of_le (Int.natCast_nonneg n) (Int.ofNat_le.mpr h), Int.toNat_natCast]

theorem popCall_of_le {argc extra : Nat} (h : argc + extra ≤ m.stack.length)
    (k : List Value → Machine → Effect) : m.popCall s argc extra k =
      k (m.stack.take argc).reverse { m with stack := m.stack.drop (argc + extra) } := by
  have hrest : extra ≤ (m.stack.drop argc).length := by
    rw [List.length_drop]
    omega
  rw [popCall, popMany_of_le (by omega), popMany_of_le hrest, List.drop_drop]

theorem enterFrame_entered {w : World} (scopes : w.store.scopes = m.world.store.scopes)
    (operands : Nat) (c : Closure) (self : Option Value) (args : List Value) :
    m.Entered w operands c self args
      ({ m with world := w, stack := m.stack.drop operands }.enterFrame c self args false) := by
  have hcells := Scopes.foldl_declare_newest (bindings c self args) [] (some c.scope)
    m.world.store.scopes.cells
  constructor
  case scopes =>
    refine ⟨(bindings c self args).foldl (fun vars e => bind e.1 e.2 vars) [], ?_, fun x => ?_,
      fun h => ?_⟩
    · rw [← scopes] at hcells ⊢
      exact congrArg Scopes.cells hcells
    · rw [lookup_foldl_bind]
      exact Option.or_none
    · exact foldl_bind_of_nodup h
  case stack => rfl
  case frames =>
    unfold enterFrame
    dsimp only
    rw [List.length_drop]
  case scope =>
    rw [← scopes]
    rfl
  all_goals rfl

/-- A call with its operands on the stack leaves them there or takes all of them. -/
theorem call_of_operands {w : World} (scopes : w.store.scopes = m.world.store.scopes)
    {argc extra : Nat} (there : argc + extra ≤ m.stack.length) (callee : Value) :
    (∀ e, s.Refuses m.frames.length callee (m.stack.take argc).reverse e →
      { m with world := w }.call s callee argc extra = .failed (.of e) { m with world := w }) ∧
    ((∀ e, ¬s.Refuses m.frames.length callee (m.stack.take argc).reverse e) →
      ∀ c self, Target.of callee (m.stack.take argc).reverse = .function c self →
        c.params.length = argc ∧ ∃ n, { m with world := w }.call s callee argc extra = .next n ∧
          m.Entered w (argc + extra) c self (m.stack.take argc).reverse n) := by
  have hlength : (m.stack.take argc).reverse.length = argc := by
    rw [List.length_reverse, List.length_take]
    omega
  have hstack : { m with world := w }.stack =
      (m.stack.take argc).reverse.reverse ++ m.stack.drop argc := by
    rw [List.reverse_reverse, List.take_append_drop]
  have hrefuses (e : ErrorCause) :
      s.Refuses m.frames.length callee (m.stack.take argc).reverse e ↔ _ :=
    Setup.refuses_iff hstack
  rw [hlength] at hrefuses
  refine ⟨fun e he => call_of_refused ((hrefuses e).mp he), fun hnone c self htarget => ?_⟩
  have haccepted : callRefusal? s { m with world := w } callee argc = none := by
    rw [Option.eq_none_iff_forall_ne_some]
    exact fun e he => hnone e ((hrefuses e).mpr he)
  have hcounted : c.params.length = argc := by
    by_contra hne
    refine hnone _ (.arity (Setup.arity?_of_function htarget) ?_)
    rw [hlength]
    rcases Nat.lt_or_gt_of_ne hne with hless | hmore
    · exact .inr ⟨_, rfl, hless⟩
    · exact .inl hmore
  refine ⟨hcounted, _, ?_, enterFrame_entered scopes (argc + extra) c self _⟩
  rw [call_of_accepted haccepted, popCall_of_le (m := { m with world := w }) there, carryOut,
    htarget]

/-! Callees that are found and callees that are not. -/

theorem perform_of_unfound {o : Operand} {op : Opcode} (counted : 0 ≤ o.int.toInt)
    (h : m.Unfound s o op e) : m.perform s o op = .failed (.of e) m := by
  cases h with
  | name table hidden outside =>
    have hcallee : m.calleeOfName s o.name = m.world.fail (.undefinedName o.name) := by
      simp only [calleeOfName, table, hidden, outsideFunction, outside, Bool.false_eq_true,
        if_false]
    rw [perform, hcallee]
    rfl
  | member there missing =>
    rw [perform, peek_of_get there counted, World.loadMember_of_lacks missing]
    rfl

theorem calleeOfName_answers {name : Text} (h : s.program.functions.contains name = false →
    m.lookup? name = none → s.builtin? name ≠ none) : World.Answers (m.calleeOfName s name) := by
  unfold calleeOfName
  split
  · next htable =>
    obtain ⟨fn, hfn⟩ := Table.get?_of_contains htable
    obtain ⟨c, w, hc⟩ : World.Answers (m.world.functionClosure s.program (m.place s) name) :=
      World.functionClosure_answers hfn
    rw [tableFunction, hc]
    exact ⟨_, _, rfl⟩
  · next htable =>
    split
    · exact ⟨_, _, rfl⟩
    · next hhidden =>
      obtain ⟨b, hb⟩ := Option.ne_none_iff_exists'.mp (h (by simpa using htable) hhidden)
      rw [outsideFunction, hb]
      exact ⟨_, _, rfl⟩

/-- An instruction that calls either does not find its callee or goes on to call it. -/
theorem calls_of_found (checked : s.program.Checked) {o : Operand} {op : Opcode} {extra : Nat}
    (calls : op.extra? = some extra) (counted : 0 ≤ o.int.toInt)
    (there : o.int.toInt.toNat + extra ≤ m.stack.length) (h : ∀ e, ¬m.Unfound s o op e) :
    ∃ callee w, m.Calls s o op callee w ∧ m.world.Works s.program false w ∧
      m.perform s o op = { m with world := w }.call s callee o.int.toInt extra := by
  cases op <;> cases calls
  case call =>
    obtain ⟨callee, w, hcallee⟩ : World.Answers (m.calleeOfName s o.name) :=
      calleeOfName_answers fun table hidden outside => h _ (.name table hidden outside)
    have hworks : m.world.Works s.program false (m.calleeOfName s o.name).2 :=
      calleeOfName_works s m o.name
    rw [hcallee] at hworks
    refine ⟨callee, w, .name hcallee, hworks, ?_⟩
    rw [perform, hcallee]
    rfl
  case callIndirect =>
    obtain ⟨callee, hget⟩ : ∃ v, m.stack[o.int.toInt.toNat]? = some v :=
      ⟨_, List.getElem?_eq_getElem there⟩
    refine ⟨callee, m.world, .indirect hget, .refl _, ?_⟩
    rw [perform, peek_of_get hget counted]
    rfl
  case callMethod =>
    obtain ⟨receiver, hget⟩ : ∃ v, m.stack[o.int.toInt.toNat]? = some v :=
      ⟨_, List.getElem?_eq_getElem there⟩
    obtain ⟨callee, w, hmember⟩ :
        World.Answers (m.world.loadMember s.program (m.place s) receiver o.name) :=
      World.loadMember_answers checked fun e he => h e (.member hget he)
    have hworks : m.world.Works s.program false
        (m.world.loadMember s.program (m.place s) receiver o.name).2 :=
      World.loadMember_works m.world receiver o.name
    rw [hmember] at hworks
    refine ⟨callee, w, .member hget hmember, hworks, ?_⟩
    rw [perform, peek_of_get hget counted, hmember]
    rfl

/-- An instruction that calls either fails with its operands, frames, scopes and handlers as they
were, or takes exactly its operands. Where its callee is not found, it fails with the error about
what is missing and leaves the machine alone altogether. Where the call is refused, it fails with
the first error about it. A function of the program that is not refused is entered. -/
theorem call_takes_all_or_nothing {ins : Instruction} {op : Opcode} {extra : Nat}
    (valid : s.program.defect? = none) (known : Opcode.ofCode? ins.op = some op)
    (calls : op.extra? = some extra) (counted : 0 ≤ ins.operand.int.toInt)
    (there : ins.operand.int.toInt.toNat + extra ≤ m.stack.length) :
    (∀ e, m.Unfound s ins.operand op e → m.step s ins = .failed (.of e) m) ∧
    ((∀ e, ¬m.Unfound s ins.operand op e) → ∃ callee w, m.Calls s ins.operand op callee w ∧
      w.store.scopes = m.world.store.scopes ∧ m.world.Works s.program false w ∧
      let args := (m.stack.take ins.operand.int.toInt.toNat).reverse
      (∀ e, s.Refuses m.frames.length callee args e →
        m.step s ins = .failed (.of e) { m with world := w }) ∧
      ((∀ e, ¬s.Refuses m.frames.length callee args e) →
        ∀ c self, Target.of callee args = .function c self →
          c.params.length = args.length ∧ ∃ n, m.step s ins = .next n ∧
            m.Entered w (args.length + extra) c self args n)) := by
  have hstep : m.step s ins = m.perform s ins.operand op := by rw [step, known]
  have hargc : ins.operand.int.toInt = (ins.operand.int.toInt.toNat : Nat) := by omega
  have hlength : (m.stack.take ins.operand.int.toInt.toNat).reverse.length =
      ins.operand.int.toInt.toNat := by
    rw [List.length_reverse, List.length_take]
    omega
  rw [hstep]
  refine ⟨fun e he => perform_of_unfound counted he, fun hfound => ?_⟩
  obtain ⟨callee, w, hcalls, hworks, hperform⟩ :=
    calls_of_found (Program.checked_of_defect? valid) calls counted there hfound
  refine ⟨callee, w, hcalls, hworks.scopes, hworks, ?_⟩
  dsimp only
  rw [hperform, hlength, hargc]
  exact call_of_operands hworks.scopes there callee

/-- A program with a class whose one method takes two arguments. -/
def pairing : Program where
  code? := some #[{ op := Opcode.ret.code }]
  functions := .ofList [(Text.ofString "Pair.of", { params := ["left", "right"] })]
  classes := .ofList [(Text.ofString "Pair",
    { name := "Pair", methods := .ofList [("of", "Pair.of")] })]

/-- A method call with an instance of the class as its receiver and a value below it. -/
def paired : Machine where
  world := { store := { objects := #[{ cls := ⟨"Pair", "Pair"⟩ }], scopes := ⟨#[{}]⟩ } }
  stack := [.int 2, .int 1, .object 0, .null]

theorem paired_takes_all :
    let s : Setup := { program := pairing, regionEnds := Region.ends pairing.code }
    let ins : Instruction := { op := Opcode.callMethod.code, operand := { int := 2, name := "of" } }
    s.program.defect? = none ∧ Opcode.ofCode? ins.op = some .callMethod ∧
      Opcode.callMethod.extra? = some 1 ∧ 0 ≤ ins.operand.int.toInt ∧
      ins.operand.int.toInt.toNat + 1 ≤ paired.stack.length ∧
      ∃ n, paired.step s ins = .next n ∧ n.stack = [.null] ∧ n.frames.length = 1 ∧
        n.world.store.scopes.cells[1]? = some
          { vars := [("self", .object 0), ("left", .int 1), ("right", .int 2)]
            parent := some World.globals } := by
  intro s ins
  have hvalid : s.program.defect? = none := by decide
  refine ⟨hvalid, rfl, rfl, by decide, by decide, ?_⟩
  obtain ⟨-, hfound⟩ := @call_takes_all_or_nothing s paired ins _ _ hvalid rfl rfl
    (by decide) (by decide)
  obtain ⟨callee, w, hcalls, -, -, -, haccepted⟩ := hfound fun e he => by
    cases he with
    | member hthere hmissing =>
      cases hthere
      cases hmissing with
      | object hnone => exact absurd hnone (by decide)
      | value hplain => exact absurd hplain (by decide)
  obtain ⟨w', hpair⟩ : ∃ w', paired.world.loadMember s.program (paired.place s) (.object 0) "of" =
      (.ok (.boundMethod 1 ⟨0, [], 0, ["left", "right"], 0⟩ (.object 0)), w') := ⟨_, rfl⟩
  cases hcalls with
  | member hthere hmember =>
    cases hthere
    cases hmember.symm.trans hpair
    obtain ⟨-, n, hstep, hentered⟩ := haccepted (fun e he => by
      cases he with
      | notCallable harity => cases harity
      | arity harity houtside =>
        cases harity
        exact absurd houtside (by decide)
      | receiver hunbound => cases hunbound
      | callDepth _ _ hdeep => exact absurd hdeep (by decide)) _ _ rfl
    obtain ⟨vars, hcells, -, hvars⟩ := hentered.scopes
    refine ⟨n, hstep, hentered.stack, ?_, ?_⟩
    · rw [hentered.frames]
      rfl
    · rw [hcells, hvars (by decide)]
      rfl

end Machine

end BytecodeMachine
