import BytecodeMachine.Proofs.Machine.Checked
import BytecodeMachine.Proofs.Machine.Conditions

/-! Native code keeps a world linked. To be linked is a condition that allows for what native code
does: the functions and the classes that it looks up are in the table, by the checks on the program. -/
namespace BytecodeMachine

/-- To be linked to a program. What is known of a world is how many objects there are. -/
def Condition.linked (p : Program) : Condition Nat where
  knows n w := w.objects = n
  value := Value.Linked p
  closure := Closure.Linked p
  cls := ClassRef.Linked p

variable {p : Program} {F : Fault → Prop}

theorem Program.classRef_linked {key : Text} {info : ClassInfo}
    (h : p.classes.get? key = some info) : (p.classRef key).Linked p := by
  unfold Program.classRef
  rw [h]
  exact ⟨info, h, rfl⟩

/-- A type that is named is one its name resolves to. -/
theorem Program.type_linked {name : Text} {t : TypeRef} (n : Nat)
    (ht : p.resolveType? name = some t) : Value.Linked p n (.type t) := by
  have hname : t.name = name := by
    unfold Program.resolveType? at ht
    split_ifs at ht
    · cases ht
      rfl
    · cases ht
      rfl
    · obtain ⟨k, -, rfl⟩ := Option.map_eq_some_iff.mp ht
      rfl
  change p.resolveType? t.name = some t
  rw [hname]
  exact ht

/-- Functions that are not in the table are never asked for. -/
theorem Condition.linked_stable (checked : p.Checked) :
    (linked p).Stable p fun n f => f.Linked p F n where
  mono hn hv := Value.Linked.mono hn hv
  plain hv := hv.linked
  ofClosure hc := hc
  ofClass hc := hc
  ofType {n _ _} ht := Program.type_linked n ht
  aside hw same _ := same.trans hw
  boundMethod hw hc hr _ := ⟨_, le_rfl, hw, hc, hr⟩
  boundIntrinsic hw kind hr := ⟨_, le_rfl, hw, kind, hr⟩
  newObject {n w} c hw := by
    obtain rfl : w.objects = n := hw
    have hsize : (w.store.newObject c).2.objects.size = w.objects + 1 := by simp [Store.newObject]
    exact ⟨_, Nat.le_succ _, hsize, Nat.lt_succ_self _, Nat.lt_succ_self _⟩
  object hw hid := .inl (hid.elim (hw ▸ ·) (hw ▸ ·))
  table hget := ⟨_, _, hget, rfl, rfl, rfl⟩
  classRef hget := Program.classRef_linked hget
  declared hget hdeclared := .inl (checked.declared hget hdeclared)
  raised _ := trivial
  stopped _ := trivial

theorem World.Linked.obeys {w : World} (h : w.Linked p) : w.Obeys (.linked p) w.objects where
  knows := rfl
  values := h.store.values
  classes := h.store.classes
  closures := h.closures
  statics := h.statics

theorem World.Obeys.linked {w : World} {n : Nat} (h : w.Obeys (.linked p) n) : w.Linked p := by
  obtain rfl : w.objects = n := h.knows
  exact ⟨⟨h.values, h.classes⟩, h.closures, h.statics⟩

theorem Reply.Obeys.linked {α : Type} {Q : Nat → α → Prop} {w : World} {r : Reply α}
    (h : Reply.Obeys (.linked p) (fun n f => f.Linked p F n) Q w.objects r) :
    Reply.Linked p F Q w r := by
  cases h with
  | @give j w' a world grown given =>
    obtain rfl : w'.objects = j := world.knows
    exact .give world.linked grown given
  | @fault j w' f world grown failed =>
    obtain rfl : w'.objects = j := world.knows
    exact .fault world.linked grown failed

namespace World.Linked

variable {w w' : World}

/-- A change of the store that keeps the objects as they are. -/
theorem of_holds (h : w.Linked p) (objects : w'.store.objects = w.store.objects)
    (closures : w'.closures = w.closures) (statics : w'.statics = w.statics)
    (holds : w'.store.Holds (Value.Linked p w.objects)) : w'.Linked p :=
  (h.obeys.of_holds (congrArg Array.size objects) objects closures statics holds).linked

/-- A change of what refers to no value. -/
theorem of_values (h : w.Linked p) (same : w'.values = w.values) : w'.Linked p :=
  (h.obeys.of_values (congrArg (fun vs => vs.2.2.1.size) same : w'.objects = _) same).linked

/-- An answer that changes nothing. -/
theorem gives {α : Type} {Q : Nat → α → Prop} (h : w.Linked p) {a : α} (ha : Q w.objects a) :
    Reply.Linked p F Q w (.ok a, w) := .give h (Nat.le_refl _) ha

theorem newException (h : w.Linked p) {e : Exception} (he : e.payload.Linked p w.objects) :
    World.Linked p { w with store := (w.store.newException e).2 } :=
  h.of_holds rfl rfl rfl (h.store.values.newException he)

theorem with_scopes (h : w.Linked p) {S : Scopes} (hS : S.Holds (Value.Linked p w.objects)) :
    World.Linked p { w with store := { w.store with scopes := S } } :=
  h.of_holds rfl rfl rfl (h.store.values.with_scopes hS)

/-- The answer of a host function, of whose faults a predicate holds. -/
theorem carryOut (h : w.Linked p) (checked : p.Checked) {r : HostReply} (hr : r.Linked p w.objects)
    (faults : ∀ f, r.answer? = some (.error (.fault f)) → F f) :
    Reply.LinkedValue p F w (r.carryOut w) := by
  refine (World.carryOut_obeys (Condition.linked_stable checked) h.obeys hr.value (fun f hf => ?_)
    hr.elems).linked
  have hfailure := hr.failure f hf
  cases f with
  | fault x => exact faults x hf
  | _ => exact hfailure

end World.Linked

end BytecodeMachine
