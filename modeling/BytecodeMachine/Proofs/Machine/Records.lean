import BytecodeMachine.Machine.Session
import BytecodeMachine.Proofs.Machine.Addresses
import BytecodeMachine.Proofs.Machine.Ordinary

/-! What instructions do to exceptions and files. They touch neither, except where they call something
outside the program: then it is the call that may make an exception, open a file or use one. It is
also calls alone that enter frames and start native loops. -/
namespace BytecodeMachine

namespace World

variable {p : Program} {here : Place}

/-- The exceptions and the files of a world. -/
def records (w : World) : Array Exception × Array FileHandle × Disk × List Nat :=
  (w.store.exceptions, w.store.handles, w.disk, w.openFiles)

@[simp] theorem records_lift {α : Type} (w : World) (r : Except ErrorCause α) :
    (w.lift r).2.records = w.records := by
  cases r <;> rfl

@[simp] theorem records_functionClosure (w : World) (name : Text) :
    (w.functionClosure p here name).2.records = w.records := by
  unfold functionClosure
  split
  · rfl
  · split <;> rfl

@[simp] theorem records_staticObject (w : World) (key : Text) :
    (w.staticObject p key).2.records = w.records := by
  unfold staticObject
  split <;> rfl

@[simp] theorem records_bindMethod (w : World) (function : Text) (receiver : Value) :
    (w.bindMethod p here function receiver).2.records = w.records := by
  have hc : (w.functionClosure p here function).2.records = w.records := records_functionClosure w _
  unfold bindMethod
  split
  · next heq =>
    rw [heq] at hc
    exact hc
  · next heq =>
    rw [heq] at hc
    exact hc

@[simp] theorem records_staticMember (w : World) (key name : Text) :
    (w.staticMember p here key name).2.records = w.records := by
  unfold staticMember
  split
  · exact records_staticObject w _
  · next owner fn _ =>
    have hc : (w.functionClosure p here fn).2.records = w.records := records_functionClosure w fn
    split
    · next heq =>
      rw [heq] at hc
      exact hc
    · next w' heq =>
      rw [heq] at hc
      exact (records_staticObject w' owner).trans hc
  · rfl
  · rfl

@[simp] theorem records_setStaticMember (w : World) (key name : Text) (v : Value) :
    (w.setStaticMember p key name v).2.records = w.records := by
  unfold setStaticMember
  split
  · exact records_staticObject w _
  all_goals rfl

@[simp] theorem records_instanceMember (w : World) (id : Nat) (name : Text) :
    (w.instanceMember p here id name).2.records = w.records := by
  unfold instanceMember
  dsimp only
  split
  · rfl
  · exact records_bindMethod w _ _
  · exact records_staticMember w _ _
  · rfl

@[simp] theorem records_setInstanceMember (w : World) (id : Nat) (name : Text) (v : Value) :
    (w.setInstanceMember p id name v).2.records = w.records := by
  unfold setInstanceMember
  dsimp only
  split
  · rfl
  · exact records_staticObject w _
  all_goals rfl

@[simp] theorem records_typeMember (w : World) (t : TypeRef) (name : Text) :
    (w.typeMember p here t name).2.records = w.records := by
  unfold typeMember
  split
  · exact records_staticMember w _ _
  · unfold enumMember
    split <;> rfl
  · split <;> rfl

@[simp] theorem records_loadMember (w : World) (receiver : Value) (name : Text) :
    (w.loadMember p here receiver name).2.records = w.records := by
  unfold loadMember
  split
  · exact records_instanceMember w _ _
  · exact records_staticMember w _ _
  · exact records_staticMember w _ _
  · exact records_typeMember w _ _
  all_goals split <;> rfl

@[simp] theorem records_storeMember (w : World) (receiver : Value) (name : Text) (v : Value) :
    (w.storeMember p receiver name v).2.records = w.records := by
  unfold storeMember
  split
  · exact records_setInstanceMember w _ _ _
  · exact records_setStaticMember w _ _ _
  · exact records_setStaticMember w _ _ _
  · split
    · exact records_setStaticMember w _ _ _
    · rfl
  all_goals rfl

@[simp] theorem records_indexGet (w : World) (obj idx : Value) :
    (w.indexGet p here obj idx).2.records = w.records := by
  unfold indexGet
  split
  · exact records_lift w _
  · exact records_lift w _
  · rfl
  iterate 4
    · split
      · exact records_loadMember w _ _
      · rfl
  · rfl

@[simp] theorem records_indexSet (w : World) (obj idx v : Value) :
    (w.indexSet p obj idx v).2.records = w.records := by
  unfold indexSet
  split
  · split <;> rfl
  · rfl
  · rfl
  iterate 4
    · split
      · exact records_storeMember w _ _ _
      · rfl
  · rfl

@[simp] theorem records_sliceGet (w : World) (obj start stop : Value) :
    (w.sliceGet obj start stop).2.records = w.records := by
  unfold sliceGet
  split
  · dsimp only
    split <;> rfl
  · dsimp only
    split <;> rfl
  · rfl

theorem records_arrayMethod (w : World) (m : Intrinsic) (id : Nat) (args : List Value) :
    (w.arrayMethod p here m id args).2.records = w.records := by
  unfold arrayMethod
  dsimp only
  split
  case h_4 => exact records_indexGet w _ _
  case h_10 => exact records_sliceGet w _ _ _
  all_goals repeat' split
  all_goals rfl

theorem records_dictMethod (w : World) (m : Intrinsic) (id : Nat) (args : List Value) :
    (w.dictMethod m id args).2.records = w.records := by
  unfold dictMethod
  dsimp only
  split
  all_goals repeat' split
  all_goals rfl

theorem records_stringMethod (w : World) (m : Intrinsic) (t : Text) (args : List Value) :
    (w.stringMethod m t args).2.records = w.records := by
  unfold stringMethod
  split
  · split <;> rfl
  · exact records_lift w _

theorem records_wait (w : World) (delay : Nat) : (w.wait delay).2.records = w.records := by
  unfold wait
  split
  · rfl
  · split
    · split <;> rfl
    · rfl

theorem records_await (w : World) (d : Option Deferred) : (w.await d).2.records = w.records := by
  unfold await
  split
  · rfl
  · rfl
  · next delay _ =>
    have hw : (w.wait delay).2.records = w.records := records_wait w delay
    split
    · next heq =>
      rw [heq] at hw
      exact hw
    · next heq =>
      rw [heq] at hw
      exact hw
  · rfl

/-- Functions of the host change neither. -/
theorem records_carryOut (w : World) (r : HostReply) : (r.carryOut w).2.records = w.records := by
  cases r with
  | wait d => exact records_await w d
  | _ => rfl

/-- A standard function may make an exception or open a file. -/
theorem records_standard (w : World) (bufferSize : Nat) {f : StandardFunction}
    (hexception : f ≠ .exception) (hopen : f ≠ .openFile) (args : List Value) :
    (w.standard bufferSize f args).2.records = w.records := by
  unfold standard
  split
  case h_7 => exact absurd rfl hexception
  case h_11 => exact absurd rfl hopen
  case h_13 => exact records_await w _
  case h_14 => exact records_await w _
  all_goals first | exact records_lift w _ | rfl

/-- The function that makes exceptions makes one or leaves the world as it is. -/
theorem standard_exception (w : World) (bufferSize : Nat) (args : List Value) :
    (∃ kind message payload,
      w.standard bufferSize .exception args = w.makeException kind message payload) ∨
    (w.standard bufferSize .exception args).2 = w := by
  match args with
  | [] => exact .inr rfl
  | [_] => exact .inr rfl
  | kind :: message :: payload =>
    unfold standard
    dsimp only
    split
    · exact .inl ⟨_, _, _, rfl⟩
    · exact .inr rfl

/-- A method may use a file. -/
theorem records_method (w : World) (m : Intrinsic) {receiver : Value}
    (hfile : ∀ id, receiver ≠ .file id) (args : List Value) :
    (w.method p here m receiver args).2.records = w.records := by
  unfold method
  split
  · exact records_arrayMethod w _ _ _
  · exact records_dictMethod w _ _ _
  · exact records_stringMethod w _ _ _
  · unfold enumMethod
    split <;> rfl
  · exact absurd rfl (hfile _)
  · rfl

end World

theorem Loop.records_result (w : World) (l : Loop) : (l.result w).2.records = w.records := by
  unfold Loop.result
  split <;> rfl

variable {s : Setup}

namespace Machine

variable {m : Machine}

theorem records_tableFunction (m : Machine) (name : Text) :
    (m.tableFunction s name).2.records = m.world.records := by
  have hc : (m.world.functionClosure s.program (m.place s) name).2.records = m.world.records :=
    World.records_functionClosure _ name
  unfold tableFunction
  split
  · next heq =>
    rw [heq] at hc
    exact hc
  · next heq =>
    rw [heq] at hc
    exact hc

theorem records_outsideFunction (m : Machine) (name : Text) :
    (m.outsideFunction s name).2.records = m.world.records := by
  unfold outsideFunction
  split <;> rfl

theorem records_valueOfName (m : Machine) (name : Text) :
    (m.valueOfName s name).2.records = m.world.records := by
  unfold valueOfName
  split
  · rfl
  · split
    · exact m.records_tableFunction name
    · exact m.records_outsideFunction name

theorem records_calleeOfName (m : Machine) (name : Text) :
    (m.calleeOfName s name).2.records = m.world.records := by
  unfold calleeOfName
  split
  · exact m.records_tableFunction name
  · split
    · rfl
    · exact m.records_outsideFunction name

end Machine

/-! Instructions. -/

/-- A machine that is where another is: the exceptions and the files, the instruction being executed
and the native loops are the same, and it has entered no frame. -/
structure Machine.InPlace (m n : Machine) : Prop where
  records : n.world.records = m.world.records
  pc : n.pc = m.pc
  loops : n.loops = m.loops
  height : n.frames.length ≤ m.frames.length

/-- An effect that leaves a machine where it is. -/
def Effect.Spares (m : Machine) (e : Effect) : Prop := m.InPlace e.machine

theorem Machine.InPlace.refl (m : Machine) : m.InPlace m := ⟨rfl, rfl, rfl, Nat.le_refl _⟩

theorem Machine.InPlace.trans {m n o : Machine} (h : m.InPlace n) (h' : n.InPlace o) :
    m.InPlace o :=
  ⟨h'.records.trans h.records, h'.pc.trans h.pc, h'.loops.trans h.loops,
    Nat.le_trans h'.height h.height⟩

theorem Machine.InPlace.of_world {m : Machine} {w : World} (same : w.records = m.world.records) :
    m.InPlace { m with world := w } := ⟨same, rfl, rfl, Nat.le_refl _⟩

theorem Effect.Spares.after {m n : Machine} {e : Effect} (h : e.Spares n) (there : m.InPlace n) :
    e.Spares m := there.trans h

namespace Machine

variable {m : Machine}

theorem failed_spares (m : Machine) (f : Failure) : (Effect.failed f m).Spares m := .refl m

theorem declare_spares (m : Machine) (name : Text) (v : Value) :
    (Effect.next (m.declare name v)).Spares m := .of_world rfl

theorem assign_spares (m : Machine) (name : Text) (v : Value) : (m.assign name v).Spares m := by
  unfold assign
  split
  · exact .of_world rfl
  · exact m.failed_spares _

theorem print_spares (m : Machine) (v : Value) : (m.print v).Spares m := by
  unfold print
  split
  · exact .of_world rfl
  · exact m.failed_spares _

theorem records_ask (m : Machine) (q : Query) : (m.ask s q).2.records = m.world.records := by
  cases q with
  | name name => exact m.records_valueOfName name
  | callee name => exact m.records_calleeOfName name
  | member receiver name => exact World.records_loadMember _ _ _
  | typeMember t name => exact World.records_typeMember _ _ _
  | index obj idx => exact World.records_indexGet _ _ _
  | slice obj start stop => exact World.records_sliceGet _ _ _ _
  | array | joined | dict | closure | object => rfl

theorem records_tell (m : Machine) (u : Update) : (m.tell s u).2.records = m.world.records := by
  cases u with
  | index obj idx v => exact World.records_indexSet _ _ _ _
  | member receiver name v => exact World.records_storeMember _ _ _ _

/-- Only calls reach the exceptions and the files, and only they enter anything. -/
def Accord.spares (s : Setup) (m : Machine) (o : Operand) {op : Opcode} (other : op.calls = false) :
    Accord s o op Empty where
  After _ H n _ := m.InPlace n ∧ ∀ v, H v
  Ends _ _ e _ := e.Spares m
  stack _ i := i.elim
  truthy _ i := i.elim
  text _ _ i := i.elim
  refusal _ i := i.elim
  held h v _ := h.2 v
  data h _ := h.2 _
  type h _ := h.2 _
  drop _ h := ⟨h.1.trans ⟨rfl, rfl, rfl, Nat.le_refl _⟩, h.2⟩
  next _ h _ := h.1.trans ⟨rfl, rfl, rfl, Nat.le_refl _⟩
  fault h _ _ := h.1
  raise _ h _ := h.1
  thrown _ h _ := h.1
  halt _ h := h.1
  jump _ h := h.1.trans ⟨rfl, rfl, rfl, Nat.le_refl _⟩
  declare _ h _ := (declare_spares _ _ _).after h.1
  assign _ h _ := (assign_spares _ _ _).after h.1
  print _ h _ := (print_spares _ _).after h.1
  ask {_ _ _ H n _ q _} h _ _ hK := by
    have hn := h.1.trans (.of_world (n.records_ask (s := s) q))
    rcases hr : n.ask s q with ⟨f | v, w⟩ <;> rw [hr] at hn
    · exact hn
    · exact hK v w Empty.elim H hr (h.2 v) ⟨hn, h.2⟩
  tell {_ _ n _ u} h _ := by
    have hn := h.1.trans (.of_world (n.records_tell (s := s) u))
    rcases hr : n.tell s u with ⟨f | v, w⟩ <;> rw [hr] at hn
    · exact hn
    · exact hn
  carryOut calls _ _ _ _ _ := absurd (other.symm.trans calls) Bool.false_ne_true

/-! Transfers of control leave the world alone altogether. -/

theorem popFrames_inPlace (k : Nat) (m : Machine) : m.InPlace (popFrames k m) := by
  induction k generalizing m with
  | zero => exact .refl m
  | succ k ih =>
    have hone : m.InPlace m.popFrame := by
      refine ⟨congrArg World.records (popFrames_world 1 m), ?_, ?_, ?_⟩
      · unfold popFrame
        split <;> rfl
      · unfold popFrame
        split <;> rfl
      · rw [popFrame_frames, List.length_tail]
        exact Nat.sub_le _ 1
    exact hone.trans (ih m.popFrame)

theorem leaveScopes_inPlace (k : Nat) (m : Machine) : m.InPlace (leaveScopes k m) := by
  induction k generalizing m with
  | zero => exact .refl m
  | succ k ih =>
    have hone : m.InPlace m.leaveScope := ⟨rfl, rfl, rfl, Nat.le_refl _⟩
    exact hone.trans (ih m.leaveScope)

theorem unwindTo_inPlace (m : Machine) (h : Handler) : m.InPlace (m.unwindTo h) := by
  have hpop := popFrames_inPlace (m.frames.length - h.callDepth) m
  have hleave (n : Machine) : n.InPlace (n.leaveScopesTo h.scopeDepth) := leaveScopes_inPlace _ n
  exact (hpop.trans (hleave _)).trans ⟨rfl, rfl, rfl, Nat.le_refl _⟩

theorem enterFinally_inPlace (m : Machine) (h : Handler) (rest : List Handler)
    (pending : Pending) : m.InPlace (m.enterFinally h rest pending) :=
  (m.unwindTo_inPlace h).trans ⟨rfl, rfl, rfl, Nat.le_refl _⟩

theorem Defers.inPlace {exits : Handler → Prop} {pending : Handler → Pending}
    {handlers : List Handler} {r : Machine ⊕ Machine} (h : Defers m exits pending handlers r) :
    m.InPlace (r.elim id id) := by
  cases h with
  | @entered _ rest d => exact m.enterFinally_inPlace d rest _
  | out => exact ⟨rfl, rfl, rfl, Nat.le_refl _⟩

theorem giveBack_spares (m : Machine) (v : Value) : (m.giveBack v).Spares m := by
  have hr := (returnThrough_defers m v m.handlers).inPlace
  unfold giveBack
  split
  · next heq =>
    rw [heq] at hr
    exact hr
  · next n heq =>
    rw [heq] at hr
    split
    · exact hr
    · have hpop : m.InPlace n.popFrame := hr.trans (popFrames_inPlace 1 n)
      dsimp only
      split
      · exact hpop
      · exact hpop.trans ⟨rfl, rfl, rfl, Nat.le_refl _⟩

theorem leaveTo_spares (m : Machine) (target scopes : Int) :
    (leaveTo s m target scopes).Spares m := by
  have hl := (leaveThrough_defers m target (m.leaveDepth scopes) m.handlers).inPlace
  unfold leaveTo
  dsimp only
  split
  · exact m.failed_spares _
  · split
    · next heq =>
      rw [heq] at hl
      exact hl
    · next n heq =>
      rw [heq] at hl
      exact (hl.trans (leaveScopes_inPlace _ n)).trans ⟨rfl, rfl, rfl, Nat.le_refl _⟩

theorem endFinally_spares (m : Machine) : (endFinally s m).Spares m := by
  unfold endFinally
  split
  · exact m.failed_spares _
  · next rest _ =>
    have hleft : m.InPlace { m with handlers := rest } := ⟨rfl, rfl, rfl, Nat.le_refl _⟩
    dsimp only
    split
    · exact hleft
    · exact (giveBack_spares _ _).after hleft
    · exact (leaveTo_spares _ _ _).after hleft
    · exact hleft

end Machine

end BytecodeMachine
