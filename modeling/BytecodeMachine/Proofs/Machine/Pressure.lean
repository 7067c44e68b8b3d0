import BytecodeMachine.Machine.Run

/-! Native code under pressure. A word that cancels the run or a deadline changes no answer of native
code but one: a wait may be cut short, and then fails because the run is to stop. -/
namespace BytecodeMachine

/-- What stops a run from outside: a word that cancels it, and a deadline. -/
structure Pressure where
  cancelled : Bool
  deadline : Option Nat

namespace World

/-- A world under pressure; a deadline that it has already stays. -/
def under (x : Pressure) (w : World) : World :=
  { w with cancelled := w.cancelled || x.cancelled, deadline := w.deadline.or x.deadline }

section Fields

variable (x : Pressure) (w : World)

@[simp] theorem under_store : (w.under x).store = w.store := rfl

@[simp] theorem under_disk : (w.under x).disk = w.disk := rfl

@[simp] theorem under_closures : (w.under x).closures = w.closures := rfl

@[simp] theorem under_statics : (w.under x).statics = w.statics := rfl

@[simp] theorem under_clock : (w.under x).clock = w.clock := rfl

end Fields

end World

/-- An answer whose world is under pressure. -/
def Reply.under {α : Type} (x : Pressure) (r : Reply α) : Reply α := (r.1, r.2.under x)

/-- An answer given under pressure: the same one, or that the run is to stop. -/
def Reply.Cut {α : Type} (x : Pressure) (r r' : Reply α) : Prop :=
  r = r'.under x ∨ ∃ reason, r.1 = .error (.stopped reason)

namespace World

variable {x : Pressure} {p : Program} {here : Place} (w : World)

theorem lift_under {α : Type} (r : Except ErrorCause α) :
    (w.under x).lift r = (w.lift r).under x := by
  cases r <;> rfl

theorem functionClosure_under (name : Text) :
    (w.under x).functionClosure p here name = (w.functionClosure p here name).under x := by
  unfold functionClosure
  rw [under_closures]
  split
  · rfl
  · split <;> rfl

theorem staticObject_under (key : Text) :
    (w.under x).staticObject p key =
      ((w.staticObject p key).1, (w.staticObject p key).2.under x) := by
  unfold staticObject
  rw [under_statics]
  split <;> rfl

theorem bindMethod_under (function : Text) (receiver : Value) :
    (w.under x).bindMethod p here function receiver =
      (w.bindMethod p here function receiver).under x := by
  unfold bindMethod
  rw [functionClosure_under]
  obtain ⟨r, w'⟩ := w.functionClosure p here function
  cases r <;> rfl

theorem staticMember_under (key name : Text) :
    (w.under x).staticMember p here key name = (w.staticMember p here key name).under x := by
  unfold staticMember
  split
  · next owner _ =>
    rw [staticObject_under]
    rfl
  · next owner fn _ =>
    rw [functionClosure_under]
    obtain ⟨r, w'⟩ := w.functionClosure p here fn
    cases r with
    | error e => rfl
    | ok c =>
      dsimp only [Reply.under]
      rw [staticObject_under]
      rfl
  · rfl
  · rfl

theorem setStaticMember_under (key name : Text) (v : Value) :
    (w.under x).setStaticMember p key name v = (w.setStaticMember p key name v).under x := by
  unfold setStaticMember
  split
  · rw [staticObject_under]
    rfl
  all_goals rfl

theorem instanceMember_under (id : Nat) (name : Text) :
    (w.under x).instanceMember p here id name = (w.instanceMember p here id name).under x := by
  unfold instanceMember
  rw [under_store]
  dsimp only
  split
  · rfl
  · exact bindMethod_under w _ _
  · exact staticMember_under w _ _
  · rfl

theorem setInstanceMember_under (id : Nat) (name : Text) (v : Value) :
    (w.under x).setInstanceMember p id name v = (w.setInstanceMember p id name v).under x := by
  unfold setInstanceMember
  rw [under_store]
  dsimp only
  split
  · rfl
  · rw [staticObject_under]
    rfl
  all_goals rfl

theorem typeMember_under (t : TypeRef) (name : Text) :
    (w.under x).typeMember p here t name = (w.typeMember p here t name).under x := by
  unfold typeMember
  split
  · exact staticMember_under w _ _
  · unfold enumMember
    split <;> rfl
  · split <;> rfl

theorem loadMember_under (receiver : Value) (name : Text) :
    (w.under x).loadMember p here receiver name = (w.loadMember p here receiver name).under x := by
  unfold loadMember
  rw [under_store]
  split
  · exact instanceMember_under w _ _
  · exact staticMember_under w _ _
  · exact staticMember_under w _ _
  · exact typeMember_under w _ _
  all_goals split
  all_goals rfl

theorem storeMember_under (receiver : Value) (name : Text) (v : Value) :
    (w.under x).storeMember p receiver name v = (w.storeMember p receiver name v).under x := by
  unfold storeMember
  rw [under_store]
  split
  · exact setInstanceMember_under w _ _ _
  · exact setStaticMember_under w _ _ _
  · exact setStaticMember_under w _ _ _
  · split
    · exact setStaticMember_under w _ _ _
    · rfl
  all_goals rfl

theorem indexGet_under (obj idx : Value) :
    (w.under x).indexGet p here obj idx = (w.indexGet p here obj idx).under x := by
  unfold indexGet
  rw [under_store]
  split
  · exact lift_under w _
  · exact lift_under w _
  · rfl
  iterate 4
    · split
      · exact loadMember_under w _ _
      · rfl
  · rfl

theorem indexSet_under (obj idx v : Value) :
    (w.under x).indexSet p obj idx v = (w.indexSet p obj idx v).under x := by
  unfold indexSet
  rw [under_store]
  split
  · split <;> rfl
  · rfl
  · rfl
  iterate 4
    · split
      · exact storeMember_under w _ _ _
      · rfl
  · rfl

theorem sliceGet_under (obj start stop : Value) :
    (w.under x).sliceGet obj start stop = (w.sliceGet obj start stop).under x := by
  unfold sliceGet
  rw [under_store]
  split
  · dsimp only
    split <;> rfl
  · dsimp only
    split <;> rfl
  · rfl

theorem arrayMethod_under (m : Intrinsic) (id : Nat) (args : List Value) :
    (w.under x).arrayMethod p here m id args = (w.arrayMethod p here m id args).under x := by
  unfold arrayMethod
  rw [under_store]
  dsimp only
  split
  case h_4 => exact indexGet_under w _ _
  case h_10 => exact sliceGet_under w _ _ _
  all_goals repeat' split
  all_goals rfl

theorem dictMethod_under (m : Intrinsic) (id : Nat) (args : List Value) :
    (w.under x).dictMethod m id args = (w.dictMethod m id args).under x := by
  unfold dictMethod
  rw [under_store]
  dsimp only
  split
  all_goals repeat' split
  all_goals rfl

theorem stringMethod_under (m : Intrinsic) (s : Text) (args : List Value) :
    (w.under x).stringMethod m s args = (w.stringMethod m s args).under x := by
  unfold stringMethod
  split
  · split <;> rfl
  · exact lift_under w _

theorem afterWrite_under (h : FileHandle) :
    (w.under x).afterWrite h = (w.afterWrite h).under x := by
  unfold afterWrite
  split <;> rfl

theorem closeFile_under (id : Nat) :
    (w.under x).closeFile id = ((w.closeFile id).1.under x, (w.closeFile id).2) := by
  unfold closeFile
  rw [under_store]
  dsimp only
  split <;> rfl

theorem writeText_under (id : Nat) (t : Text) :
    (w.under x).writeText id t = (w.writeText id t).under x := by
  unfold writeText
  rw [under_store, under_disk]
  dsimp only
  split
  · rfl
  · exact afterWrite_under (w.keepHandle id _ _) _

theorem readLine_under (id : Nat) : (w.under x).readLine id = (w.readLine id).under x := by
  unfold readLine
  rw [under_store, under_disk]
  dsimp only
  repeat' split
  all_goals rfl

theorem readAll_under (id : Nat) : (w.under x).readAll id = (w.readAll id).under x := by
  unfold readAll
  rw [under_store, under_disk]
  dsimp only
  repeat' split
  all_goals rfl

theorem flushFile_under (id : Nat) : (w.under x).flushFile id = (w.flushFile id).under x := by
  unfold flushFile
  rw [under_store, under_disk]
  dsimp only
  split
  · rfl
  · exact afterWrite_under (w.keepHandle id _ _) _

theorem fileMethod_under (m : Intrinsic) (id : Nat) (args : List Value) :
    (w.under x).fileMethod m id args = (w.fileMethod m id args).under x := by
  unfold fileMethod
  split
  · exact writeText_under w _ _
  · exact writeText_under w _ _
  · exact readLine_under w _
  · exact readAll_under w _
  · exact flushFile_under w _
  · rw [closeFile_under]
    obtain ⟨w', e⟩ := w.closeFile id
    cases e <;> rfl
  all_goals rfl

theorem method_under (m : Intrinsic) (receiver : Value) (args : List Value) :
    (w.under x).method p here m receiver args = (w.method p here m receiver args).under x := by
  unfold method
  split
  · exact arrayMethod_under w _ _ _
  · exact dictMethod_under w _ _ _
  · exact stringMethod_under w _ _ _
  · unfold enumMethod
    split <;> rfl
  · exact fileMethod_under w _ _ _
  · rfl

theorem openFile_under (bufferSize : Nat) (path mode : Text) :
    (w.under x).openFile bufferSize path mode = (w.openFile bufferSize path mode).under x := by
  unfold openFile
  rw [under_disk]
  split
  · rfl
  · split <;> rfl

/-- A run that goes on under pressure would go on without. -/
theorem stop?_of_under (go : (w.under x).stop? = none) : w.stop? = none := by
  unfold stop? at go ⊢
  split at go
  · cases go
  · next hcancelled =>
    have hnot : ¬ w.cancelled = true := by
      intro h
      refine hcancelled ?_
      change (w.cancelled || x.cancelled) = true
      rw [h, Bool.true_or]
    rw [if_neg hnot]
    cases hdeadline : w.deadline with
    | none => rfl
    | some t =>
      have hsame : (w.under x).deadline = some t := by
        change w.deadline.or x.deadline = some t
        rw [hdeadline, Option.some_or]
      rw [hsame] at go
      exact go

section Waiting

variable {w : World} {delay t : Nat}

theorem wait_of_deadline (go : w.stop? = none) (h : w.deadline = some t) :
    w.wait delay =
      if t ≤ w.clock + delay then (some .deadline, { w with clock := t })
      else (none, { w with clock := w.clock + delay }) := by
  unfold wait
  rw [go, h]

theorem wait_of_none (go : w.stop? = none) (h : w.deadline = none) :
    w.wait delay = (none, { w with clock := w.clock + delay }) := by
  unfold wait
  rw [go, h]

end Waiting

/-- Under pressure a wait is as long as without, or it is cut short. -/
theorem wait_under (delay : Nat) :
    (w.under x).wait delay = ((w.wait delay).1, (w.wait delay).2.under x) ∨
      ∃ reason, ((w.under x).wait delay).1 = some reason := by
  cases hstop : (w.under x).stop? with
  | some reason =>
    refine .inr ⟨reason, ?_⟩
    unfold wait
    rw [hstop]
  | none =>
    have hgo := w.stop?_of_under hstop
    have hdeadline : (w.under x).deadline = w.deadline.or x.deadline := rfl
    cases hown : w.deadline with
    | some t =>
      rw [hown, Option.some_or] at hdeadline
      rw [wait_of_deadline hstop hdeadline, wait_of_deadline hgo hown]
      rw [under_clock]
      split <;> exact .inl rfl
    | none =>
      rw [hown, Option.none_or] at hdeadline
      rw [wait_of_none hgo hown]
      -- Only a deadline that comes with the pressure can cut the wait short.
      cases hgiven : x.deadline with
      | none =>
        rw [hgiven] at hdeadline
        rw [wait_of_none hstop hdeadline]
        exact .inl rfl
      | some t =>
        rw [hgiven] at hdeadline
        rw [wait_of_deadline hstop hdeadline]
        split
        · exact .inr ⟨.deadline, rfl⟩
        · exact .inl rfl

theorem await_cut (d : Option Deferred) : Reply.Cut x ((w.under x).await d) (w.await d) := by
  unfold await
  split
  · exact .inl rfl
  · exact .inl rfl
  · next delay r =>
    rcases wait_under (x := x) w delay with heq | ⟨reason, hreason⟩
    · rw [heq]
      obtain ⟨stop, w'⟩ := w.wait delay
      cases stop <;> exact .inl rfl
    · refine .inr ⟨reason, ?_⟩
      split
      · next heq =>
        rw [heq] at hreason
        cases hreason
        rfl
      · next heq =>
        rw [heq] at hreason
        cases hreason
  · exact .inr ⟨_, rfl⟩

theorem standard_cut (bufferSize : Nat) (f : StandardFunction) (args : List Value) :
    Reply.Cut x ((w.under x).standard bufferSize f args) (w.standard bufferSize f args) := by
  unfold standard
  split
  case h_1 => exact .inl (lift_under w _)
  case h_4 => exact .inl (lift_under w _)
  case h_5 => exact .inl (lift_under w _)
  case h_6 => exact .inl (lift_under w _)
  case h_7 => split <;> exact .inl rfl
  case h_11 =>
    split
    · exact .inl rfl
    · split
      · exact .inl rfl
      · exact .inl (openFile_under w _ _ _)
  case h_13 => exact await_cut w _
  case h_14 => exact await_cut w _
  all_goals exact .inl rfl

theorem carryOut_cut (r : HostReply) : Reply.Cut x (r.carryOut (w.under x)) (r.carryOut w) := by
  cases r with
  | wait d => exact await_cut w d
  | _ => exact .inl rfl

end World

theorem Loop.result_under (x : Pressure) (w : World) (l : Loop) :
    l.result (w.under x) = ((l.result w).1, (l.result w).2.under x) := by
  unfold Loop.result
  split <;> rfl

namespace Machine

/-- A machine whose run is under pressure. -/
def under (x : Pressure) (m : Machine) : Machine := { m with world := m.world.under x }

section Fields

variable (x : Pressure) (m : Machine)

@[simp] theorem under_world : (m.under x).world = m.world.under x := rfl

@[simp] theorem under_stack : (m.under x).stack = m.stack := rfl

@[simp] theorem under_frames : (m.under x).frames = m.frames := rfl

@[simp] theorem under_handlers : (m.under x).handlers = m.handlers := rfl

@[simp] theorem under_loops : (m.under x).loops = m.loops := rfl

@[simp] theorem under_control : (m.under x).control = m.control := rfl

@[simp] theorem under_ip : (m.under x).ip = m.ip := rfl

@[simp] theorem under_steps : (m.under x).steps = m.steps := rfl

@[simp] theorem under_scopeDepth : (m.under x).scopeDepth = m.scopeDepth := rfl

@[simp] theorem under_scopeFloor : (m.under x).scopeFloor = m.scopeFloor := rfl

@[simp] theorem under_tick : (m.under x).tick = m.tick.under x := rfl

@[simp] theorem under_place (s : Setup) : (m.under x).place s = m.place s := rfl

@[simp] theorem under_tooDeep? (s : Setup) : (m.under x).tooDeep? s = m.tooDeep? s := rfl

@[simp] theorem under_lookup? (name : Text) : (m.under x).lookup? name = m.lookup? name := rfl

end Fields

variable {x : Pressure} (s : Setup) (m : Machine)

theorem callBuiltin_cut (b : Builtin) (args : List Value) :
    Reply.Cut x (callBuiltin s (m.under x) b args) (callBuiltin s m b args) := by
  unfold callBuiltin
  split
  · exact World.standard_cut _ _ _ _
  · split
    · exact World.carryOut_cut _ _
    · exact .inl rfl

theorem tableFunction_under (name : Text) :
    (m.under x).tableFunction s name = (m.tableFunction s name).under x := by
  unfold tableFunction
  rw [under_place, under_world, World.functionClosure_under]
  obtain ⟨r, w'⟩ := m.world.functionClosure s.program (m.place s) name
  cases r <;> rfl

theorem outsideFunction_under (name : Text) :
    (m.under x).outsideFunction s name = (m.outsideFunction s name).under x := by
  unfold outsideFunction
  split <;> rfl

theorem valueOfName_under (name : Text) :
    (m.under x).valueOfName s name = (m.valueOfName s name).under x := by
  unfold valueOfName
  rw [under_lookup?]
  split
  · rfl
  · split
    · exact tableFunction_under s m name
    · exact outsideFunction_under s m name

theorem calleeOfName_under (name : Text) :
    (m.under x).calleeOfName s name = (m.calleeOfName s name).under x := by
  unfold calleeOfName
  rw [under_lookup?]
  split
  · exact tableFunction_under s m name
  · split
    · rfl
    · exact outsideFunction_under s m name

end Machine

end BytecodeMachine
