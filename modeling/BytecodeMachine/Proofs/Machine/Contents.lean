import BytecodeMachine.Machine.Store
import Mathlib.Tactic.Common

/-! Predicates that hold of every value in a store. Each change of a store puts given values in and
otherwise keeps, moves or drops those that are there; each look into a store finds one of them, or
null. -/
namespace BytecodeMachine

theorem forall_mem_push {α : Type} {P : α → Prop} {xs : Array α} (h : ∀ x ∈ xs, P x) {y : α}
    (hy : P y) : ∀ x ∈ xs.push y, P x := by
  intro x hx
  rcases Array.mem_push.mp hx with hx | rfl
  · exact h x hx
  · exact hy

theorem forall_mem_set {α : Type} {P : α → Prop} {xs : Array α} (h : ∀ x ∈ xs, P x) (i : Nat)
    {y : α} (hy : P y) : ∀ x ∈ xs.setIfInBounds i y, P x := by
  intro x hx
  rcases Array.mem_or_eq_of_mem_setIfInBounds hx with hx | rfl
  · exact h x hx
  · exact hy

theorem forall_mem_modify {α : Type} {P : α → Prop} {xs : Array α} (h : ∀ x ∈ xs, P x) (i : Nat)
    {f : α → α} (hf : ∀ x, P x → P (f x)) : ∀ x ∈ xs.modify i f, P x := by
  intro x hx
  obtain ⟨j, hj⟩ := Array.mem_iff_getElem?.mp hx
  rw [Array.getElem?_modify] at hj
  split at hj
  · obtain ⟨y, hy, rfl⟩ := Option.map_eq_some_iff.mp hj
    exact hf y (h y (Array.mem_of_getElem? hy))
  · exact h x (Array.mem_of_getElem? hj)

/-- An entry that may be missing is one of the array or the default. -/
theorem getD_of_forall_mem {α : Type} {P : α → Prop} {xs : Array α} (h : ∀ x ∈ xs, P x) (i : Nat)
    {d : α} (hd : P d) : P ((xs[i]?).getD d) := by
  cases hi : xs[i]? with
  | none => exact hd
  | some x => exact h x (Array.mem_of_getElem? hi)

variable {P : Value → Prop}

/-- Every value bound in a list satisfies a predicate. -/
def Bound (P : Value → Prop) (es : List (Text × Value)) : Prop := ∀ e ∈ es, P e.2

theorem Bound.bind {es : List (Text × Value)} (h : Bound P es) (name : Text) {v : Value}
    (hv : P v) : Bound P (bind name v es) := by
  induction es with
  | nil =>
    intro e he
    rw [List.mem_singleton.mp he]
    exact hv
  | cons d ds ih =>
    intro e he
    have hds : Bound P ds := fun e he => h e (List.mem_cons_of_mem _ he)
    rw [BytecodeMachine.bind] at he
    split at he
    · rcases List.mem_cons.mp he with rfl | he
      · exact hv
      · exact hds e he
    · rcases List.mem_cons.mp he with rfl | he
      · exact h e (List.mem_cons_self ..)
      · exact ih hds e he

theorem Bound.lookup {es : List (Text × Value)} (h : Bound P es) {name : Text} {v : Value}
    (hv : es.lookup name = some v) : P v := by
  obtain ⟨before, after, rfl, -⟩ := List.lookup_eq_some_iff.mp hv
  exact h (name, v) (List.mem_append_right _ (List.mem_cons_self ..))

namespace Dict

/-- Every key and every value of a dictionary satisfies a predicate. -/
def Holds (P : Value → Prop) (d : Dict) : Prop := ∀ e ∈ d.entries, P e.1 ∧ P e.2

theorem Holds.empty : Holds P {} := by
  intro e he
  simp at he

theorem Holds.insert {d : Dict} (h : d.Holds P) {key v : Value} (hk : P key) (hv : P v) :
    (d.insert key v).Holds P := by
  unfold Dict.insert
  split
  · exact forall_mem_modify (f := fun e => (e.1, v)) h _ fun _ he => ⟨he.1, hv⟩
  · exact forall_mem_push (y := (key, v)) h ⟨hk, hv⟩

theorem Holds.ofPairs {pairs : List (Value × Value)} (h : ∀ e ∈ pairs, P e.1 ∧ P e.2) :
    (ofPairs pairs).Holds P := by
  have hall (d : Dict) (hd : d.Holds P) :
      (pairs.foldl (fun d e => d.insert e.1 e.2) d).Holds P := by
    induction pairs generalizing d with
    | nil => exact hd
    | cons e es ih =>
      have he := h e (List.mem_cons_self ..)
      exact ih (fun e he => h e (List.mem_cons_of_mem _ he)) _ (hd.insert he.1 he.2)
  exact hall {} Holds.empty

theorem Holds.get? {d : Dict} (h : d.Holds P) {key v : Value} (hv : d.get? key = some v) : P v := by
  unfold Dict.get? at hv
  split at hv
  · obtain ⟨e, he, rfl⟩ := Option.map_eq_some_iff.mp hv
    exact (h e (Array.mem_of_getElem? he)).2
  · cases hv

theorem Holds.erase {d d' : Dict} (h : d.Holds P) {key v : Value}
    (he : d.erase key = some (v, d')) : P v ∧ d'.Holds P := by
  unfold Dict.erase at he
  split at he
  · cases he
  · next i _ =>
    split at he
    · cases he
    · next e hget =>
      cases he
      refine ⟨(h e (Array.mem_of_getElem? hget)).2, fun x hx => ?_⟩
      have hlt : i < d.entries.size := (Array.getElem?_eq_some_iff.mp hget).1
      dsimp only at hx
      rw [Array.eraseIdxIfInBounds, dif_pos hlt] at hx
      exact h x (Array.mem_of_mem_eraseIdx hx)

theorem Holds.keys {d : Dict} (h : d.Holds P) : ∀ v ∈ d.keys, P v := by
  intro v hv
  obtain ⟨e, he, rfl⟩ := List.mem_map.mp hv
  exact (h e (Array.mem_toList_iff.mp he)).1

theorem Holds.values {d : Dict} (h : d.Holds P) : ∀ v ∈ d.values, P v := by
  intro v hv
  obtain ⟨e, he, rfl⟩ := List.mem_map.mp hv
  exact (h e (Array.mem_toList_iff.mp he)).2

end Dict

namespace Scopes

/-- Every variable of every scope satisfies a predicate. -/
def Holds (P : Value → Prop) (S : Scopes) : Prop := ∀ c ∈ S.cells, Bound P c.vars

variable {S : Scopes}

theorem Holds.push (h : S.Holds P) (parent : Option Nat) : (S.push parent).2.Holds P :=
  forall_mem_push (P := fun c : Scope => Bound P c.vars) h fun _ he => absurd he List.not_mem_nil

theorem Holds.declare (h : S.Holds P) (name : Text) {v : Value} (hv : P v) (id : Nat) :
    (S.declare name v id).Holds P :=
  forall_mem_modify (f := fun c : Scope => { c with vars := bind name v c.vars }) h id
    fun _ hc => Bound.bind hc name hv

theorem Holds.assign? (h : S.Holds P) {name : Text} {v : Value} (hv : P v) {id : Nat}
    {S' : Scopes} (hs : S.assign? name v id = some S') : S'.Holds P := by
  obtain ⟨owner, -, rfl⟩ := Option.map_eq_some_iff.mp hs
  exact h.declare name hv owner

theorem Holds.lookup (h : S.Holds P) {name : Text} {id : Nat} {v : Value}
    (hv : S.lookup name id = some v) : P v := by
  unfold Scopes.lookup at hv
  split at hv
  · obtain ⟨c, hc, hv⟩ := Option.bind_eq_some_iff.mp hv
    exact Bound.lookup (h c (Array.mem_of_getElem? hc)) hv
  · cases hv

/-- The arguments of a call, bound one after the other. -/
theorem Holds.bindings (h : S.Holds P) {bound : List (Text × Value)} (hb : Bound P bound)
    (id : Nat) : (bound.foldl (fun scopes e => scopes.declare e.1 e.2 id) S).Holds P := by
  induction bound generalizing S with
  | nil => exact h
  | cons e es ih =>
    have he : P e.2 := hb e (List.mem_cons_self ..)
    exact ih (h.declare e.1 he id) fun e he => hb e (List.mem_cons_of_mem _ he)

end Scopes

namespace Store

/-- Every value that a store keeps satisfies a predicate. -/
structure Holds (P : Value → Prop) (st : Store) : Prop where
  arrays : ∀ vs ∈ st.arrays, ∀ v ∈ vs, P v
  dicts : ∀ d ∈ st.dicts, d.Holds P
  objects : ∀ o ∈ st.objects, Bound P o.fields
  exceptions : ∀ e ∈ st.exceptions, P e.payload
  scopes : st.scopes.Holds P

namespace Holds

variable {st : Store}

theorem mono {Q : Value → Prop} (hPQ : ∀ v, P v → Q v) (h : st.Holds P) : st.Holds Q where
  arrays vs hvs v hv := hPQ v (h.arrays vs hvs v hv)
  dicts d hd e he := ⟨hPQ _ (h.dicts d hd e he).1, hPQ _ (h.dicts d hd e he).2⟩
  objects o ho e he := hPQ _ (h.objects o ho e he)
  exceptions e he := hPQ _ (h.exceptions e he)
  scopes c hc e he := hPQ _ (h.scopes c hc e he)

theorem array (h : st.Holds P) (id : Nat) : ∀ v ∈ st.array id, P v :=
  getD_of_forall_mem h.arrays id fun _ hv => absurd hv List.not_mem_nil

theorem dict (h : st.Holds P) (id : Nat) : (st.dict id).Holds P :=
  getD_of_forall_mem h.dicts id Dict.Holds.empty

theorem field (h : st.Holds P) (null : P .null) (id : Nat) (name : Text) :
    P (st.field id name) := by
  have hfields : Bound P (st.object id).fields :=
    getD_of_forall_mem (P := fun o : Object => Bound P o.fields) h.objects id fun _ he =>
      absurd he List.not_mem_nil
  unfold Store.field
  cases hv : (st.object id).fields.lookup name with
  | none => exact null
  | some v => exact hfields.lookup hv

theorem payload (h : st.Holds P) (null : P .null) (id : Nat) : P (st.exception id).payload :=
  getD_of_forall_mem (P := fun e : Exception => P e.payload) h.exceptions id null

theorem newArray (h : st.Holds P) {elems : List Value} (he : ∀ v ∈ elems, P v) :
    (st.newArray elems).2.Holds P :=
  { h with arrays := forall_mem_push h.arrays he }

theorem setArray (h : st.Holds P) (id : Nat) {elems : List Value} (he : ∀ v ∈ elems, P v) :
    (st.setArray id elems).Holds P :=
  { h with arrays := forall_mem_set h.arrays id he }

theorem newDict (h : st.Holds P) {d : Dict} (hd : d.Holds P) : (st.newDict d).2.Holds P :=
  { h with dicts := forall_mem_push h.dicts hd }

theorem modifyDict (h : st.Holds P) (id : Nat) {f : Dict → Dict}
    (hf : ∀ d, d.Holds P → (f d).Holds P) : (st.modifyDict id f).Holds P :=
  { h with dicts := forall_mem_modify h.dicts id hf }

theorem newObject (h : st.Holds P) (cls : ClassRef) : (st.newObject cls).2.Holds P :=
  { h with
    objects := forall_mem_push (P := fun o : Object => Bound P o.fields) h.objects fun _ he =>
      absurd he List.not_mem_nil }

theorem setField (h : st.Holds P) (id : Nat) (name : Text) {v : Value} (hv : P v) :
    (st.setField id name v).Holds P :=
  { h with
    objects := forall_mem_modify (f := fun o : Object => { o with fields := bind name v o.fields })
      h.objects id fun _ ho => Bound.bind ho name hv }

theorem newException (h : st.Holds P) {e : Exception} (he : P e.payload) :
    (st.newException e).2.Holds P :=
  { h with
    exceptions := forall_mem_push (P := fun e : Exception => P e.payload) h.exceptions he }

theorem with_scopes (h : st.Holds P) {S : Scopes} (hS : S.Holds P) :
    Holds P { st with scopes := S } := { h with scopes := hS }

end Holds

end Store

end BytecodeMachine
