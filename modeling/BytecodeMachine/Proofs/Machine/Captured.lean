import BytecodeMachine.Proofs.Machine.Upholding

/-! The scopes that values close over. Native code makes functions over the outermost scope only and
otherwise hands on those it was given or finds in the store, so it brings no scope into a world that
its functions did not close over before. -/
namespace BytecodeMachine

/-- A value whose functions close over scopes that `q` admits. The same goes for its receiver. -/
def Value.Over (q : Nat → Prop) : Value → Prop
  | .closure c => q c.scope
  | .boundMethod _ c receiver => q c.scope ∧ receiver.Over q
  | .boundIntrinsic _ _ receiver => receiver.Over q
  | _ => True

/-- A failure that carries such a value, if any. -/
def Failure.Over (q : Nat → Prop) : Failure → Prop
  | .raise _ v | .halt v => v.Over q
  | _ => True

structure World.Over (q : Nat → Prop) (w : World) : Prop where
  store : w.store.Holds (Value.Over q)
  closures : ∀ e ∈ w.closures, q e.2.scope

variable {q : Nat → Prop}

theorem Value.Over.mono {q' : Nat → Prop} (hq : ∀ id, q id → q' id) {v : Value} (h : v.Over q) :
    v.Over q' := by
  induction v with
  | closure c => exact hq _ h
  | boundIntrinsic _ _ _ ih => exact ih h
  | boundMethod _ _ _ ih => exact ⟨hq _ h.1, ih h.2⟩
  | _ => exact trivial

/-- A plain value is no function, not even inside its receivers. -/
theorem Value.Plain.over {v : Value} (h : v.Plain) : v.Over q := by
  cases v <;> first | exact trivial | exact h.elim

/-- To close over scopes that `q` admits, whatever is known. -/
def Condition.capturing (q : Nat → Prop) : Condition Nat where
  knows _ _ := True
  value _ := Value.Over q
  closure c := q c.scope
  cls _ := True

/-- Native code makes functions over the outermost scope only. -/
theorem Condition.capturing_stable (p : Program) (hq : q World.globals) :
    (capturing q).Stable p fun _ f => f.Holds (Value.Over q) where
  mono _ hv := hv
  plain hv := hv.over
  ofClosure hc := hc
  ofClass _ := trivial
  ofType _ := trivial
  aside _ _ _ := trivial
  boundMethod _ hc hr _ := ⟨_, le_rfl, trivial, hc, hr⟩
  boundIntrinsic _ _ hr := ⟨_, le_rfl, trivial, hr⟩
  newObject _ _ := ⟨_, le_rfl, trivial, trivial, trivial⟩
  object _ _ := .inr fun _ => trivial
  table _ := hq
  classRef _ := trivial
  declared _ _ := .inr fun _ _ _ => trivial
  raised _ := trivial
  stopped _ := trivial

theorem World.Over.obeys {w : World} (h : w.Over q) : w.Obeys (.capturing q) 0 where
  knows := trivial
  values := h.store
  classes _ _ := trivial
  closures := h.closures
  statics _ _ := trivial

theorem World.Obeys.over {w : World} {n : Nat} (h : w.Obeys (.capturing q) n) : w.Over q :=
  ⟨h.values, h.closures⟩

/-- A host's answer that brings in no other scopes. -/
structure HostReply.Over (q : Nat → Prop) (r : HostReply) : Prop where
  value : ∀ v, r.answer? = some (.ok v) → v.Over q
  failure : ∀ f, r.answer? = some (.error f) → f.Over q
  elems : ∀ vs, r = .newArray vs → ∀ v ∈ vs, v.Over q

/-- A host function that hands on functions and makes up none, but over the outermost scope. -/
def HostFunction.Over (f : HostFunction) : Prop :=
  ∀ (q : Nat → Prop) view args, q World.globals → view.store.Holds (Value.Over q) →
    (∀ v ∈ args, v.Over q) → (f.call view args).Over q

theorem HostReply.Over.holds {r : HostReply} (h : r.Over q) : r.Holds (Value.Over q) where
  value := h.value
  failure f hf := by
    have hover := h.failure f hf
    cases f with
    | raise _ _ | halt _ => exact hover
    | _ => exact trivial
  elems := h.elems

theorem HostFunction.HandsOn.over {f : HostFunction} (h : f.HandsOn) : f.Over := by
  intro q view args _ hstore ha
  obtain ⟨hvalue, hfailure, helems⟩ := h _ view args (fun _ hv => hv.over) hstore ha
  refine ⟨hvalue, fun x hx => ?_, helems⟩
  have hholds := hfailure x hx
  cases x with
  | raise _ _ | halt _ => exact hholds
  | _ => exact trivial

structure Loop.Over (q : Nat → Prop) (l : Loop) : Prop where
  callee : l.callee.Over q
  rest : ∀ v ∈ l.rest, v.Over q
  gathered : l.gathered.Holds (Value.Over q)

end BytecodeMachine
