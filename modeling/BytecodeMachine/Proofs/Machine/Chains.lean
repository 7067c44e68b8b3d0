import BytecodeMachine.Proofs.Machine.Cells
import BytecodeMachine.Proofs.Machine.Change

/-! Scopes are a tree, and a name is looked up on the way from a scope to the root. Storing to a
name changes the one binding that looking it up finds; declaring a name is seen wherever looking it
up comes past the scope that it is declared in. -/
namespace BytecodeMachine.Scopes

variable {S S' : Scopes} {x : Text} {v : Value}

/-- Every scope but the outermost one lies in an older one. -/
structure Tree (S : Scopes) : Prop where
  root : World.globals < S.cells.size
  outermost : S.parent? World.globals = none
  inner : ∀ id < S.cells.size, id ≠ World.globals → ∃ p < id, S.parent? id = some p

/-- A scope whose chain of parents is finite and ends in the outermost one. -/
def Grounded (S : Scopes) (id : Nat) : Prop :=
  id < S.cells.size ∧ ∃ n, S.climb n id = some World.globals ∧ S.climb (n + 1) id = none

/-- The value that a scope itself binds a name to. -/
def binding? (S : Scopes) (x : Text) (id : Nat) : Option Value :=
  (S.cells[id]?).bind fun c => c.vars.lookup x

/-- Looking a name up from a scope comes to another one, since none before it binds the name. -/
inductive ComesTo (S : Scopes) (x : Text) : Nat → Nat → Prop
  | here (e : Nat) : ComesTo S x e e
  | outwards {f p e : Nat} (unbound : S.binding? x f = none) (parent : S.parent? f = some p)
      (further : ComesTo S x p e) : ComesTo S x f e

/-! The tree. -/

section Tree

theorem lt_size_of_parent? {id p : Nat} (h : S.parent? id = some p) : id < S.cells.size := by
  obtain ⟨c, hc, -⟩ := Option.bind_eq_some_iff.mp h
  exact (Array.getElem?_eq_some_iff.mp hc).1

theorem Tree.older (h : S.Tree) {id p : Nat} (hp : S.parent? id = some p) : p < id := by
  have hne : id ≠ World.globals := by
    rintro rfl
    rw [h.outermost] at hp
    cases hp
  obtain ⟨q, hq, hparent⟩ := h.inner id (lt_size_of_parent? hp) hne
  rw [hparent] at hp
  cases hp
  exact hq

/-- Upwards from parent to parent, each older than the scope inside it. -/
theorem Tree.grounded (h : S.Tree) {id : Nat} (hid : id < S.cells.size) : S.Grounded id := by
  induction id using Nat.strongRecOn with
  | ind id ih =>
    refine ⟨hid, ?_⟩
    by_cases hroot : id = World.globals
    · subst hroot
      exact ⟨0, rfl, by rw [climb, h.outermost]; rfl⟩
    · obtain ⟨p, hlt, hp⟩ := h.inner id hid hroot
      obtain ⟨-, n, hend, hnone⟩ := ih p hlt (Nat.lt_trans hlt hid)
      have hclimb (k : Nat) : S.climb (k + 1) id = S.climb k p := by
        rw [climb, hp, Option.bind_some]
      exact ⟨n + 1, (hclimb n).trans hend, (hclimb (n + 1)).trans hnone⟩

theorem Tree.of_same (h : S.Tree) (size : S'.cells.size = S.cells.size)
    (parents : ∀ i, S'.parent? i = S.parent? i) : S'.Tree where
  root := size ▸ h.root
  outermost := (parents _).trans h.outermost
  inner id hid hne := by
    rw [parents]
    exact h.inner id (size ▸ hid) hne

theorem size_declare (S : Scopes) (x : Text) (v : Value) (id : Nat) :
    (S.declare x v id).cells.size = S.cells.size := Array.size_modify

theorem Tree.declare (h : S.Tree) (x : Text) (v : Value) (id : Nat) : (S.declare x v id).Tree :=
  h.of_same (S.size_declare x v id) (S.parent?_declare x v id)

theorem size_push (S : Scopes) (parent : Option Nat) :
    (S.push parent).2.cells.size = S.cells.size + 1 := Array.size_push _

theorem parent?_push (S : Scopes) (parent : Option Nat) {id : Nat} (hid : id < S.cells.size) :
    (S.push parent).2.parent? id = S.parent? id := by
  simp only [push, parent?, Array.getElem?_push_lt hid, Array.getElem?_eq_getElem hid]

/-- A new scope in one that is there. -/
theorem Tree.push (h : S.Tree) {p : Nat} (hp : p < S.cells.size) : (S.push (some p)).2.Tree where
  root := by
    rw [size_push]
    exact Nat.lt_succ_of_lt h.root
  outermost := by
    rw [parent?_push _ _ h.root]
    exact h.outermost
  inner id hid hne := by
    rw [size_push] at hid
    rcases Nat.lt_succ_iff_lt_or_eq.mp hid with hold | rfl
    · rw [parent?_push _ _ hold]
      exact h.inner id hold hne
    · exact ⟨p, hp, S.parent?_push_fresh (some p)⟩

end Tree

/-! Looking up. -/

section Lookups

theorem lookup_eq (S : Scopes) (x : Text) (f : Nat) :
    S.lookup x f = (S.resolve x f).bind (S.binding? x) := by
  unfold lookup
  cases S.resolve x f <;> rfl

theorem resolveFrom_succ (S : Scopes) (x : Text) (n f : Nat) :
    S.resolveFrom x (n + 1) f =
      if (S.binding? x f).isSome then some f else (S.parent? f).bind (S.resolveFrom x n) := by
  rw [resolveFrom, binding?, parent?]
  cases S.cells[f]? with
  | none => rfl
  | some c =>
    simp only [Option.bind_some]
    split
    · rfl
    · cases c.parent <;> rfl

/-- What is found is on the way and binds the name, however far the search goes. -/
theorem comesTo_of_resolveFrom {n f owner : Nat} (h : S.resolveFrom x n f = some owner) :
    S.ComesTo x f owner ∧ (S.binding? x owner).isSome = true := by
  induction n generalizing f with
  | zero => cases h
  | succ n ih =>
    rw [resolveFrom_succ] at h
    split at h
    · next hbound =>
      cases h
      exact ⟨.here _, hbound⟩
    · next hunbound =>
      obtain ⟨p, hp, hrest⟩ := Option.bind_eq_some_iff.mp h
      obtain ⟨hway, hbound⟩ := ih hrest
      exact ⟨.outwards (Option.not_isSome_iff_eq_none.mp hunbound) hp hway, hbound⟩

/-- In a tree as many steps as there are scopes go all the way. -/
theorem Tree.resolveFrom_of_comesTo (h : S.Tree) {n f owner : Nat} (hn : f < n)
    (hway : S.ComesTo x f owner) (hbound : (S.binding? x owner).isSome = true) :
    S.resolveFrom x n f = some owner := by
  induction hway generalizing n with
  | here e =>
    obtain ⟨k, rfl⟩ := Nat.exists_eq_add_one_of_ne_zero (Nat.ne_zero_of_lt hn)
    rw [resolveFrom_succ, if_pos hbound]
  | outwards hunbound hp _ ih =>
    obtain ⟨k, rfl⟩ := Nat.exists_eq_add_one_of_ne_zero (Nat.ne_zero_of_lt hn)
    have hlt := h.older hp
    rw [resolveFrom_succ, hunbound, Option.isSome_none, if_neg Bool.false_ne_true, hp,
      Option.bind_some]
    exact ih (by omega) hbound

theorem ComesTo.lt_size {f owner : Nat} (hway : S.ComesTo x f owner)
    (hbound : (S.binding? x owner).isSome = true) : f < S.cells.size := by
  cases hway with
  | here =>
    obtain ⟨v, hv⟩ := Option.isSome_iff_exists.mp hbound
    obtain ⟨c, hc, -⟩ := Option.bind_eq_some_iff.mp hv
    exact (Array.getElem?_eq_some_iff.mp hc).1
  | outwards _ hp _ => exact lt_size_of_parent? hp

theorem Tree.resolve_eq_some_iff (h : S.Tree) {f owner : Nat} :
    S.resolve x f = some owner ↔ S.ComesTo x f owner ∧ (S.binding? x owner).isSome = true :=
  ⟨comesTo_of_resolveFrom, fun ⟨hway, hbound⟩ =>
    h.resolveFrom_of_comesTo (hway.lt_size hbound) hway hbound⟩

theorem isSome_lookup (S : Scopes) (x : Text) (f : Nat) :
    (S.lookup x f).isSome = (S.resolve x f).isSome := by
  rw [lookup_eq]
  cases h : S.resolve x f with
  | none => rfl
  | some owner => exact (comesTo_of_resolveFrom h).2

theorem resolveFrom_congr (parents : ∀ i, S'.parent? i = S.parent? i)
    (bindings : ∀ i, (S'.binding? x i).isSome = (S.binding? x i).isSome) (n f : Nat) :
    S'.resolveFrom x n f = S.resolveFrom x n f := by
  induction n generalizing f with
  | zero => rfl
  | succ n ih =>
    rw [resolveFrom_succ, resolveFrom_succ, parents, bindings]
    congr 2
    funext p
    exact ih p

end Lookups

/-! Binding. -/

section Binding

theorem binding?_declare (S : Scopes) (x : Text) (v : Value) (e : Nat) (y : Text) (i : Nat) :
    (S.declare x v e).binding? y i =
      if y = x ∧ i = e ∧ e < S.cells.size then some v else S.binding? y i := by
  unfold binding? declare
  rw [Array.getElem?_modify]
  by_cases hi : e = i
  · subst hi
    by_cases hsize : e < S.cells.size
    · simp [lookup_bind, hsize]
    · simp [hsize]
  · have hne : ¬ i = e := fun h => hi h.symm
    simp [hi, hne]

/-- One binding of a name is changed: that of the scope `owner`. -/
structure Assigned (S : Scopes) (x : Text) (v : Value) (owner : Nat) (S' : Scopes) : Prop where
  size : S'.cells.size = S.cells.size
  parents : ∀ i, S'.parent? i = S.parent? i
  bindings : ∀ y i, S'.binding? y i = if y = x ∧ i = owner then some v else S.binding? y i
  owners : ∀ y f, S'.resolve y f = S.resolve y f
  lookups : ∀ y f, S'.lookup y f =
    if y = x ∧ S.resolve x f = some owner then some v else S.lookup y f

/-- A scope that binds a name already goes on owning it for the same lookups. -/
theorem assigned_of_binding {owner : Nat} (hbound : (S.binding? x owner).isSome = true)
    (v : Value) : S.Assigned x v owner (S.declare x v owner) := by
  have hsize : owner < S.cells.size := (ComesTo.here owner).lt_size hbound
  have hbindings (y : Text) (i : Nat) : (S.declare x v owner).binding? y i =
      if y = x ∧ i = owner then some v else S.binding? y i := by
    rw [binding?_declare]
    simp only [hsize, and_true]
  have hresolve (y : Text) (f : Nat) : (S.declare x v owner).resolve y f = S.resolve y f := by
    unfold resolve
    rw [size_declare]
    refine resolveFrom_congr (S.parent?_declare x v owner) (fun i => ?_) _ f
    rw [hbindings]
    split
    · next heq =>
      obtain ⟨rfl, rfl⟩ := heq
      exact hbound.symm
    · rfl
  refine ⟨S.size_declare x v owner, S.parent?_declare x v owner, hbindings, hresolve, fun y f => ?_⟩
  rw [lookup_eq, lookup_eq, hresolve]
  by_cases hy : y = x
  · subst hy
    cases S.resolve y f with
    | none => simp
    | some other => simp [hbindings]
  · cases S.resolve y f with
    | none => simp [hy]
    | some other => simp [hbindings, hy]

/-- Before the scope that a name is declared in, the way of a lookup is as it was. -/
theorem ComesTo.declare {f e : Nat} (hway : S.ComesTo x f e) (v : Value) :
    (S.declare x v e).ComesTo x f e := by
  induction hway with
  | here e => exact .here e
  | @outwards f p e hunbound hp _ ih =>
    by_cases hf : f = e
    · subst hf
      exact .here f
    · refine .outwards ?_ ((S.parent?_declare x v e f).trans hp) ih
      rw [binding?_declare, if_neg fun h => hf h.2.1]
      exact hunbound

/-- A lookup that does not come past the scope does not see the declaration. -/
theorem resolveFrom_declare_of_not {e n f : Nat} (hway : ¬ S.ComesTo x f e) (v : Value) :
    (S.declare x v e).resolveFrom x n f = S.resolveFrom x n f := by
  induction n generalizing f with
  | zero => rfl
  | succ n ih =>
    have hf : f ≠ e := by
      rintro rfl
      exact hway (.here f)
    have hbinding : (S.declare x v e).binding? x f = S.binding? x f := by
      rw [binding?_declare, if_neg fun h => hf h.2.1]
    rw [resolveFrom_succ, resolveFrom_succ, parent?_declare, hbinding]
    split
    · rfl
    · next hunbound =>
      cases hp : S.parent? f with
      | none => rfl
      | some p =>
        exact ih fun hrest =>
          hway (.outwards (Option.not_isSome_iff_eq_none.mp hunbound) hp hrest)

/-- Looking up `x` gives the declared value where it comes to the scope of the declaration, and no
other lookup is changed. -/
structure Declared (S : Scopes) (x : Text) (v : Value) (e : Nat) (S' : Scopes) : Prop where
  seen : e < S.cells.size → ∀ f, S.ComesTo x f e → S'.lookup x f = some v
  unseen : ∀ y f, y ≠ x ∨ ¬ S.ComesTo x f e → S'.lookup y f = S.lookup y f

theorem Tree.declared (h : S.Tree) (x : Text) (v : Value) (e : Nat) :
    S.Declared x v e (S.declare x v e) where
  seen hsize f hway := by
    have hbinding : (S.declare x v e).binding? x e = some v := by
      rw [binding?_declare, if_pos ⟨rfl, rfl, hsize⟩]
    have hresolve : (S.declare x v e).resolve x f = some e :=
      (h.declare x v e).resolve_eq_some_iff.mpr ⟨hway.declare v, hbinding ▸ rfl⟩
    rw [lookup_eq, hresolve, Option.bind_some, hbinding]
  unseen y f hother := by
    rw [lookup_eq, lookup_eq, resolve, resolve, size_declare]
    by_cases hy : y = x
    · subst hy
      have hway : ¬ S.ComesTo y f e := hother.resolve_left fun h => h rfl
      rw [resolveFrom_declare_of_not hway v]
      refine Option.bind_congr fun owner howner => ?_
      -- What is found is on the way, and the scope of the declaration is not.
      have hne : owner ≠ e := by
        rintro rfl
        exact hway (comesTo_of_resolveFrom howner).1
      rw [binding?_declare, if_neg fun h => hne h.2.1]
    · have hbinding (i : Nat) : (S.declare x v e).binding? y i = S.binding? y i := by
        rw [binding?_declare, if_neg fun h => hy h.1]
      rw [resolveFrom_congr (S.parent?_declare x v e) fun i => congrArg _ (hbinding i)]
      exact congrArg _ (funext hbinding)

end Binding

end BytecodeMachine.Scopes
