import BytecodeMachine.Proofs.Machine.Collisions
import BytecodeMachine.Proofs.Machine.Safety
import BytecodeMachine.Proofs.Machine.Upholding

/-! References of bound functions. To bind a function makes a value with the next reference, and
everything else a step does hands on the bound functions that there are. So in a run a reference
stands for one function with one receiver, and unequal values have one key only where they collide. -/
namespace BytecodeMachine

variable {known : Value → Prop} {s : Setup}

/-- The reference of a bound function. -/
def Value.ref? : Value → Option Nat
  | .boundIntrinsic ref _ _ | .boundMethod ref _ _ => some ref
  | _ => none

/-- No bound function, or one of those that have been bound. -/
def Value.Among (known : Value → Prop) (v : Value) : Prop := ∀ ref ∈ v.ref?, known v

/-- The functions that have been bound in a world: their references have been made, each of them for
one function. -/
structure World.HasBound (known : Value → Prop) (w : World) : Prop where
  older : ∀ v, known v → ∀ ref ∈ v.ref?, ref < w.store.refs
  together : ∀ a b, known a → known b → a.Together b

theorem Value.together_of_ref?_ne {a b : Value} (h : ∀ ref ∈ a.ref?, ref ∉ b.ref?) :
    a.Together b := by
  unfold Together
  split
  · next i _ _ _ _ _ => exact fun hij => absurd (congrArg some hij.symm) (h i rfl)
  · next i _ _ _ _ _ => exact fun hij => absurd (congrArg some hij.symm) (h i rfl)
  · exact trivial

theorem Value.Plain.among {v : Value} (h : v.Plain) : v.Among known := by
  cases v with
  | boundIntrinsic | boundMethod => exact h.elim
  | _ => exact fun ref href => by cases href

/-- Values among the functions that have been bound in a world are together. -/
theorem World.HasBound.together_of_among {w : World} (h : w.HasBound known) {a b : Value}
    (ha : a.Among known) (hb : b.Among known) : a.Together b := by
  by_cases hrefs : ∃ ref, ref ∈ a.ref? ∧ ref ∈ b.ref?
  · obtain ⟨ref, hrefa, hrefb⟩ := hrefs
    exact h.together a b (ha ref hrefa) (hb ref hrefb)
  · exact Value.together_of_ref?_ne fun ref hrefa hrefb => hrefs ⟨ref, hrefa, hrefb⟩

/-- A function that is bound with the next reference stands beside those that were bound before. -/
theorem World.HasBound.newRef {w : World} (h : w.HasBound known) {v : Value}
    (next : v.ref? = some w.store.refs) (self : v.Together v) :
    w.newRef.2.HasBound fun u => known u ∨ u = v := by
  have hnew {u : Value} (hu : known u) : ∀ ref ∈ u.ref?, ref ∉ v.ref? := by
    intro ref href hv
    rw [next, Option.mem_some_iff] at hv
    exact absurd (h.older u hu ref href) (hv ▸ Nat.lt_irrefl _)
  constructor
  · rintro u (hu | rfl) ref href
    · exact Nat.lt_succ_of_lt (h.older u hu ref href)
    · rw [next, Option.mem_some_iff] at href
      exact href ▸ Nat.lt_succ_self _
  · rintro a b (ha | rfl) (hb | rfl)
    · exact h.together a b ha hb
    · exact Value.together_of_ref?_ne (hnew ha)
    · exact Value.together_of_ref?_ne fun ref href hb' => hnew hb ref hb' href
    · exact self

/-- To be no bound function but one of those that are known. -/
def Condition.references : Condition (Value → Prop) where
  knows known w := w.HasBound known
  value known v := v.Among known
  closure _ := True
  cls _ := True

theorem Condition.references_stable (p : Program) :
    Condition.references.Stable p fun known f => f.Holds (Value.Among known) where
  mono grown hv ref href := grown _ (hv ref href)
  plain hv := hv.among
  ofClosure _ _ href := by cases href
  ofClass _ _ href := by cases href
  ofType _ _ href := by cases href
  aside hw _ refs := { hw with
    older := fun v hv ref href => Nat.lt_of_lt_of_le (hw.older v hv ref href) refs }
  boundMethod {i w c receiver id} hw _ _ hid := by
    have hself : (Value.boundMethod w.store.refs c receiver).Together
        (.boundMethod w.store.refs c receiver) := fun _ => ⟨rfl, rfl, id, hid⟩
    exact ⟨_, fun _ => .inl, hw.newRef rfl hself, fun _ _ => .inr rfl⟩
  boundIntrinsic {i w m receiver} hw kind _ := by
    have hself : (Value.boundIntrinsic w.store.refs m receiver).Together
        (.boundIntrinsic w.store.refs m receiver) := fun _ => ⟨rfl, rfl, kind⟩
    exact ⟨_, fun _ => .inl, hw.newRef rfl hself, fun _ _ => .inr rfl⟩
  newObject {i w} c hw := by
    refine ⟨i, le_rfl, ⟨hw.older, hw.together⟩, ?_, ?_⟩ <;> exact fun ref href => by cases href
  object _ _ := .inr fun _ => trivial
  table _ := trivial
  classRef _ := trivial
  declared _ _ := .inr fun _ _ _ => trivial
  raised _ _ href := by cases href
  stopped _ := trivial

/-- The receiver of a bound method is an object, which is no bound function. -/
theorem Setup.keeps_references (hosts : ∀ h ∈ s.host, h.HandsOn) :
    s.Keeps .references fun _ _ _ => True where
  condition := Condition.references_stable s.program
  standing := ⟨fun _ _ _ _ => trivial, fun _ => trivial, fun _ => trivial, fun _ _ _ => trivial,
    fun _ => trivial⟩
  closure _ := trivial
  method hw hv := by
    refine ⟨trivial, fun ref href => ?_⟩
    obtain ⟨-, -, id, rfl | rfl⟩ := hw.together _ _ (hv _ rfl) (hv _ rfl) rfl <;> cases href
  host h hh _ _ _ args hw ha := hosts h hh _ _ args (fun _ hv => hv.among) hw.values ha

/-! The values of a state. -/

/-- All values of a machine: those in the store, on the stack, put off by handlers and in loops. -/
structure Machine.All (H : Value → Prop) (m : Machine) : Prop where
  store : m.world.store.Holds H
  stack : ∀ v ∈ m.stack, H v
  handlers : ∀ h ∈ m.handlers, h.Holds H
  loops : ∀ l ∈ m.loops, l.Holds H

/-- All values of a state, with the one that a run has ended with. -/
inductive Status.All (H : Value → Prop) : Status → Prop
  | running {m : Machine} (machine : m.All H) : All H (.running m)
  | ended {e : Ending} {m : Machine} (machine : m.All H) (ending : e.Holds H) : All H (.ended e m)

section Mono

variable {H H' : Value → Prop} (weaker : ∀ v, H v → H' v)

include weaker

theorem Machine.All.mono {m : Machine} (h : m.All H) : m.All H' where
  store := h.store.mono weaker
  stack v hv := weaker v (h.stack v hv)
  handlers d hd := (h.handlers d hd).mono weaker
  loops l hl := (h.loops l hl).mono weaker

theorem Status.All.mono {st : Status} (h : st.All H) : st.All H' := by
  cases h with
  | running machine => exact .running (machine.mono weaker)
  | @ended e m machine ending =>
    refine .ended (machine.mono weaker) ?_
    cases e with
    | value v => exact weaker v ending
    | _ => exact trivial

end Mono

theorem Machine.Obeys.all {ι : Type} {C : Condition ι} {P : Standing} {i : ι} {m : Machine}
    (h : m.Obeys C P i) : m.All (C.value i) := ⟨h.world.values, h.stack, h.handlers, h.loops⟩

theorem Status.Obeys.all {ι : Type} {C : Condition ι} {P : Standing} {i : ι} {st : Status}
    (h : st.Obeys C P i) : st.All (C.value i) := by
  cases h with
  | running machine => exact .running machine.all
  | ended machine ending => exact .ended machine.all ending

theorem Status.Obeys.machine {ι : Type} {C : Condition ι} {P : Standing} {i : ι} {st : Status}
    (h : st.Obeys C P i) : st.machine.Obeys C P i := by
  cases h with
  | running machine => exact machine
  | ended machine _ => exact machine

theorem Value.Among.mono {known' : Value → Prop} (grown : known ≤ known') {v : Value}
    (h : v.Among known) : v.Among known' := fun ref href => grown v (h ref href)

namespace Setup

variable (hosts : ∀ h ∈ s.host, h.HandsOn) (w : World) (o : RunOptions)

include hosts

/-- After any number of steps there are the functions that have been bound, and all values that the
machine has or has had are among them. -/
theorem stateAfter_bound (n : Nat) :
    ∃ known, (s.stateAfter w o n).Obeys .references (fun _ _ _ => True) known ∧
      ∀ k ≤ n, (s.stateAfter w o k).All (Value.Among known) := by
  induction n with
  | zero =>
    -- Nothing has been bound before the first step.
    have hnone : (w.renew o).HasBound fun _ => False := ⟨fun _ hv => hv.elim, fun _ _ ha => ha.elim⟩
    have hstart : (s.stateAfter w o 0).Obeys .references (fun _ _ _ => True) fun _ => False :=
      .running (Machine.obeys_start hnone trivial)
    exact ⟨_, hstart, fun k hk => Nat.le_zero.mp hk ▸ hstart.all⟩
  | succ n ih =>
    obtain ⟨known, hst, hearlier⟩ := ih
    obtain ⟨known', grown, hnext⟩ : ∃ known', known ≤ known' ∧
        (s.stateAfter w o (n + 1)).Obeys .references (fun _ _ _ => True) known' := by
      rw [stateAfter_succ]
      generalize s.stateAfter w o n = st at hst ⊢
      cases hst with
      | running machine =>
        exact Machine.advance_obeys (keeps_references hosts) machine fun _ => trivial
      | ended machine ending => exact ⟨known, le_rfl, .ended machine ending⟩
    refine ⟨known', hnext, fun k hk => ?_⟩
    rcases Nat.le_succ_iff.mp hk with hk | rfl
    · exact (hearlier k hk).mono fun _ hv => hv.mono grown
    · exact hnext.all

/-- The values that the machine of a run has, at one time or at different times, are together: a
reference stands for one bound function with one receiver. -/
theorem stateAfter_together (k n : Nat) :
    (s.stateAfter w o k).All fun a => (s.stateAfter w o n).All fun b => a.Together b := by
  obtain ⟨known, hst, hall⟩ := stateAfter_bound hosts w o (max k n)
  have hbound : (s.stateAfter w o (max k n)).machine.world.HasBound known :=
    hst.machine.world.knows
  refine (hall k (Nat.le_max_left k n)).mono fun a ha => ?_
  exact (hall n (Nat.le_max_right k n)).mono fun b hb => hbound.together_of_among ha hb

/-- Of the values of a run, unequal ones have one key only where they collide. -/
theorem stateAfter_collides_iff (k n : Nat) :
    (s.stateAfter w o k).All fun a => (s.stateAfter w o n).All fun b =>
      (a.Collides b ↔ DictKey.of a = DictKey.of b ∧ a.equal b = false) :=
  (stateAfter_together hosts w o k n).mono fun _ ha =>
    ha.mono fun _ hab => Value.collides_iff hab

end Setup

end BytecodeMachine
