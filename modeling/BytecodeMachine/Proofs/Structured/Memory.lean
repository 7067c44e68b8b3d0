import BytecodeMachine.Machine.Session
import BytecodeMachine.Proofs.Structured.Layout

/-! How the state of a structured program lies in the world of a machine: the open scopes are a chain
of cells that ends at the global one, and what has been printed is the output. -/
namespace BytecodeMachine.Structured

/-- Whether a value stands for itself and refers to nothing in a store. -/
def isPlain : Value → Bool
  | .null | .bool _ | .int _ | .int32 _ | .float32 _ | .float _ | .decimal _ | .string _
  | .char _ => true
  | _ => false

theorem Const.isPlain_value (c : Const) : isPlain c.value = true := by
  obtain ⟨lit, value, denotes⟩ := c
  unfold Machine.literal at denotes
  dsimp only at denotes
  split at denotes
  case h_7 =>
    split at denotes
    · cases denotes
      rfl
    · cases denotes
  case h_10 => cases denotes
  all_goals
    cases denotes
    rfl

/-- Constants look the same in every store. -/
theorem Const.text_eq (c : Const) (st : Store) : st.text c.value = c.text := by
  have hplain := c.isPlain_value
  unfold Const.text
  cases hv : c.value <;> rw [hv] at hplain <;> first | rfl | cases hplain

theorem Const.truthy_eq (c : Const) (st : Store) : st.truthy c.value = c.isTrue := by
  have hplain := c.isPlain_value
  unfold Const.isTrue
  cases hv : c.value <;> rw [hv] at hplain <;> first | rfl | cases hplain

/-- The variables of a scope with their values. -/
def values (vs : Vars) : List (Text × Value) := vs.map fun e => (e.1, e.2.value)

theorem lookup_values (vs : Vars) (x : Text) :
    (values vs).lookup x = (vs.lookup x).map (·.value) := by
  induction vs with
  | nil => rfl
  | cons e vs ih =>
    rw [values, List.map_cons, lookup_cons_eq, lookup_cons_eq]
    by_cases hx : x = e.1
    · rw [if_pos hx, if_pos hx]
      rfl
    · rw [if_neg hx, if_neg hx]
      exact ih

theorem values_bind (x : Text) (c : Const) (vs : Vars) :
    values (bind x c vs) = bind x c.value (values vs) := by
  induction vs with
  | nil => rfl
  | cons e vs ih =>
    have hcons : values (e :: vs) = (e.1, e.2.value) :: values vs := rfl
    rw [hcons, bind, bind]
    by_cases hx : e.1 = x
    · rw [if_pos hx, if_pos hx]
      rfl
    · rw [if_neg hx, if_neg hx, ← ih]
      rfl

/-- The open scopes of a function, from a cell outwards. Those of its own are not below `base`. -/
def Chain (S : Scopes) (base : Nat) (globals : Vars) : (id : Nat) → List Vars → Prop
  | id, [] => id = World.globals ∧ S.cells[World.globals]? = some { vars := values globals }
  | id, vs :: rest => base ≤ id ∧ ∃ p, p < id ∧
      S.cells[id]? = some { vars := values vs, parent := some p } ∧ Chain S base globals p rest

namespace Chain

variable {S S' : Scopes} {base id : Nat} {globals : Vars} {locals : List Vars}

theorem lt_size (h : Chain S base globals id locals) : id < S.cells.size := by
  cases locals with
  | nil =>
    obtain ⟨rfl, hcell⟩ := h
    exact (Array.getElem?_eq_some_iff.mp hcell).1
  | cons vs rest =>
    obtain ⟨_, p, _, hcell, _⟩ := h
    exact (Array.getElem?_eq_some_iff.mp hcell).1

theorem globals_eq (h : Chain S base globals id locals) :
    S.cells[World.globals]? = some { vars := values globals } := by
  induction locals generalizing id with
  | nil => exact h.2
  | cons vs rest ih =>
    obtain ⟨_, p, _, _, hrest⟩ := h
    exact ih hrest

/-- The cells of a chain decide it, apart from the global one. -/
theorem congr {globals' : Vars} (h : Chain S base globals id locals)
    (hcells : ∀ i, 0 < i → i ≤ id → S'.cells[i]? = S.cells[i]?)
    (hglobals : S'.cells[World.globals]? = some { vars := values globals' }) :
    Chain S' base globals' id locals := by
  induction locals generalizing id with
  | nil => exact ⟨h.1, hglobals⟩
  | cons vs rest ih =>
    obtain ⟨hbase, p, hp, hcell, hrest⟩ := h
    refine ⟨hbase, p, hp, ?_, ih hrest fun i hi hle => hcells i hi (by omega)⟩
    rw [hcells id (by omega) (Nat.le_refl id)]
    exact hcell

theorem push (h : Chain S base globals id locals) (hbase : base ≤ S.cells.size) :
    Chain (S.push (some id)).2 base globals S.cells.size ([] :: locals) := by
  have hold (i : Nat) (hi : i < S.cells.size) : (S.push (some id)).2.cells[i]? = S.cells[i]? := by
    simp [Scopes.push, Array.getElem?_push_lt hi, Array.getElem?_eq_getElem hi]
  have hlt := h.lt_size
  refine ⟨hbase, id, hlt, ?_, h.congr (fun i _ hi => hold i (by omega)) ?_⟩
  · simp [Scopes.push, values]
  · rw [hold _ (Array.getElem?_eq_some_iff.mp h.globals_eq).1]
    exact h.globals_eq

/-- Variables are looked up from the innermost scope outwards. -/
theorem resolveFrom_eq (h : Chain S base globals id locals) (x : Text) {n : Nat} (hn : id < n) :
    (State.lookupIn x globals locals = none → S.resolveFrom x n id = none) ∧
      ∀ c, State.lookupIn x globals locals = some c → ∃ owner,
        S.resolveFrom x n id = some owner ∧
          (S.cells[owner]?.bind fun d => d.vars.lookup x) = some c.value := by
  -- On the scopes from the inside out; the bound on the way down the cells follows the parents.
  induction locals generalizing id n with
  | nil =>
    obtain ⟨rfl, hcell⟩ := h
    obtain ⟨n, rfl⟩ : ∃ k, n = k + 1 := ⟨n - 1, by omega⟩
    simp only [State.lookupIn, Scopes.resolveFrom, hcell, lookup_values, Option.isSome_map]
    cases hx : globals.lookup x with
    | none => simp
    | some c =>
      refine ⟨fun h => (by cases h), fun c' hc => ⟨World.globals, by simp, ?_⟩⟩
      cases hc
      rw [hcell]
      simp [lookup_values, hx]
  | cons vs rest ih =>
    obtain ⟨_, p, hp, hcell, hrest⟩ := h
    obtain ⟨n, rfl⟩ : ∃ k, n = k + 1 := ⟨n - 1, by omega⟩
    simp only [State.lookupIn, Scopes.resolveFrom, hcell, lookup_values, Option.isSome_map]
    cases hx : vs.lookup x with
    | none =>
      simp only [Option.isSome_none, Bool.false_eq_true, if_false]
      exact ih hrest (by omega)
    | some c =>
      refine ⟨fun h => (by cases h), fun c' hc => ⟨id, by simp, ?_⟩⟩
      cases hc
      rw [hcell]
      simp [lookup_values, hx]

theorem lookup_eq (h : Chain S base globals id locals) (x : Text) :
    S.lookup x id = (State.lookupIn x globals locals).map (·.value) := by
  obtain ⟨hnone, hsome⟩ := h.resolveFrom_eq x h.lt_size
  unfold Scopes.lookup Scopes.resolve
  cases hx : State.lookupIn x globals locals with
  | none =>
    rw [hnone hx]
    rfl
  | some c =>
    obtain ⟨owner, hr, hc⟩ := hsome c hx
    rw [hr]
    exact hc

theorem cells_declare (S : Scopes) (x : Text) (v : Value) (id i : Nat) :
    (S.declare x v id).cells[i]? =
      if id = i then S.cells[i]?.map fun d => { d with vars := bind x v d.vars } else S.cells[i]? :=
  Array.getElem?_modify

/-- Binding a name in the innermost scope. -/
theorem declareHere {σ : State} (h : Chain S base σ.globals id σ.locals) (x : Text) (c : Const) :
    Chain (S.declare x c.value id) base (σ.declare x c).globals id (σ.declare x c).locals ∧
      (id = World.globals ∨ base ≤ id) := by
  obtain ⟨printed, locals, globals⟩ := σ
  -- Outside all scopes the innermost cell is the global one.
  cases locals with
  | nil =>
    obtain ⟨rfl, hcell⟩ := h
    refine ⟨⟨rfl, ?_⟩, Or.inl rfl⟩
    rw [cells_declare, if_pos rfl, hcell]
    change some ({ vars := bind x c.value (values globals) } : Scope) =
      some { vars := values (bind x c globals) }
    rw [values_bind]
  | cons vs rest =>
    obtain ⟨hbase, p, hp, hcell, hrest⟩ := h
    have hother (i : Nat) (hi : i < id) :
        (S.declare x c.value id).cells[i]? = S.cells[i]? := by
      rw [cells_declare, if_neg (by omega)]
    refine ⟨⟨hbase, p, hp, ?_, hrest.congr (fun i _ hi => hother i (by omega)) ?_⟩, Or.inr hbase⟩
    · rw [cells_declare, if_pos rfl, hcell]
      change some ({ vars := bind x c.value (values vs), parent := some p } : Scope) =
        some { vars := values (bind x c vs), parent := some p }
      rw [values_bind]
    · rw [hother _ (by unfold World.globals; omega)]
      exact hrest.globals_eq

/-- Changing the nearest binding of a name. -/
theorem assignNearest (h : Chain S base globals id locals) {x : Text} {c : Const} {n : Nat}
    (hn : id < n) {locals' : List Vars} {globals' : Vars}
    (hx : State.assignIn x c globals locals = some (locals', globals')) :
    ∃ owner, S.resolveFrom x n id = some owner ∧ owner ≤ id ∧
      (owner = World.globals ∨ base ≤ owner) ∧
      Chain (S.declare x c.value owner) base globals' id locals' ∧
      locals'.length = locals.length := by
  -- On the scopes from the inside out, as the machine looks for the owner.
  induction locals generalizing id n locals' with
  | nil =>
    obtain ⟨rfl, hcell⟩ := h
    obtain ⟨n, rfl⟩ : ∃ k, n = k + 1 := ⟨n - 1, by omega⟩
    rw [State.assignIn] at hx
    split at hx
    · next hsome =>
      cases hx
      refine ⟨World.globals, ?_, Nat.le_refl _, Or.inl rfl, ⟨rfl, ?_⟩, rfl⟩
      · simp [Scopes.resolveFrom, hcell, lookup_values, hsome]
      · rw [cells_declare, if_pos rfl, hcell, values_bind]
        rfl
    · cases hx
  | cons vs rest ih =>
    obtain ⟨hbase, p, hp, hcell, hrest⟩ := h
    obtain ⟨n, rfl⟩ : ∃ k, n = k + 1 := ⟨n - 1, by omega⟩
    rw [State.assignIn] at hx
    split at hx
    · next hsome =>
      cases hx
      have hother (i : Nat) (hi : i < id) :
          (S.declare x c.value id).cells[i]? = S.cells[i]? := by
        rw [cells_declare, if_neg (by omega)]
      refine ⟨id, ?_, Nat.le_refl _, Or.inr hbase, ⟨hbase, p, hp, ?_, ?_⟩, rfl⟩
      · simp [Scopes.resolveFrom, hcell, lookup_values, hsome]
      · rw [cells_declare, if_pos rfl, hcell, values_bind]
        rfl
      · refine hrest.congr (fun i _ hi => hother i (by omega)) ?_
        rw [hother _ (by unfold World.globals; omega)]
        exact hrest.globals_eq
    · next hnone =>
      obtain ⟨⟨rest', globals''⟩, hrec, hpair⟩ := Option.map_eq_some_iff.mp hx
      cases hpair
      obtain ⟨owner, hr, hle, hown, hchain, hlen⟩ := ih hrest (n := n) (by omega) hrec
      refine ⟨owner, ?_, by omega, hown, ⟨hbase, p, hp, ?_, hchain⟩, ?_⟩
      · simpa [Scopes.resolveFrom, hcell, lookup_values, hnone] using hr
      · rw [cells_declare, if_neg (by omega)]
        exact hcell
      · rw [List.length_cons, List.length_cons, hlen]

theorem assignIn_eq_none {x : Text} {c : Const}
    (hx : State.assignIn x c globals locals = none) : State.lookupIn x globals locals = none := by
  induction locals with
  | nil =>
    rw [State.assignIn] at hx
    split at hx
    · cases hx
    · next h => exact Option.not_isSome_iff_eq_none.mp h
  | cons vs rest ih =>
    rw [State.assignIn] at hx
    split at hx
    · cases hx
    · next h =>
      have hnone : vs.lookup x = none := Option.not_isSome_iff_eq_none.mp h
      rw [State.lookupIn, hnone]
      exact ih (Option.map_eq_none_iff.mp hx)

end Chain

/-- What a statement leaves alone: the cells between the global one and those of its own function,
and the exceptions that there are. -/
structure Keeps (base : Nat) (w w' : World) : Prop where
  cells : ∀ i, 0 < i → i < base → w'.store.scopes.cells[i]? = w.store.scopes.cells[i]?
  exceptions : ∀ (id : Nat) (e : Exception), w.store.exceptions[id]? = some e →
    w'.store.exceptions[id]? = some e

theorem Keeps.refl (base : Nat) (w : World) : Keeps base w w := ⟨fun _ _ _ => rfl, fun _ _ h => h⟩

theorem Keeps.of_store {base : Nat} {w w' : World} (h : w'.store.scopes = w.store.scopes)
    (he : w'.store.exceptions = w.store.exceptions) : Keeps base w w' :=
  ⟨fun _ _ _ => by rw [h], fun _ _ hid => by rwa [he]⟩

theorem Keeps.trans {base : Nat} {w w' w'' : World} (h : Keeps base w w') (h' : Keeps base w' w'') :
    Keeps base w w'' :=
  ⟨fun i hi hb => (h'.cells i hi hb).trans (h.cells i hi hb),
    fun id e he => h'.exceptions id e (h.exceptions id e he)⟩

theorem Keeps.mono {base base' : Nat} {w w' : World} (h : Keeps base w w') (hb : base' ≤ base) :
    Keeps base' w w' :=
  ⟨fun i hi hlt => h.cells i hi (by omega), h.exceptions⟩

/-- A closure stands for a function of the table. -/
def Represents (p : Program) (name : Text) (c : Closure) : Prop :=
  ∃ fn, p.functions.get? name = some fn ∧ c.entry = fn.address.toInt ∧ c.params = fn.params ∧
    c.scope = World.globals

/-- The world of a machine in a scope shows a state. -/
structure Shows (p : Program) (base : Nat) (σ : State) (scope : Nat) (w : World) : Prop where
  chain : Chain w.store.scopes base σ.globals scope σ.locals
  base_pos : 0 < base
  base_le : base ≤ w.store.scopes.cells.size
  pieces : w.output.pieces = σ.printed.map (· ++ [10])
  unlimited : w.output.limit = none
  going : w.cancelled = false ∧ w.deadline = none
  closures : ∀ name c, w.closures.lookup name = some c → Represents p name c

theorem Shows.output_eq {p : Program} {base scope : Nat} {σ : State} {w : World}
    (h : Shows p base σ scope w) : w.output.text = σ.output := by
  rw [Output.text, State.output, h.pieces, List.map_reverse]

/-- The world with other scopes. -/
def withScopes (w : World) (S : Scopes) : World := { w with store := { w.store with scopes := S } }

/-- A name is bound in one of the scopes of a state. -/
theorem Shows.declared {p : Program} {base scope owner : Nat} {σ σ' : State} {w : World}
    (h : Shows p base σ scope w) {v : Text} {c : Const} (hown : owner = World.globals ∨ base ≤ owner)
    (hchain : Chain (w.store.scopes.declare v c.value owner) base σ'.globals scope σ'.locals)
    (hprinted : σ'.printed = σ.printed) :
    Shows p base σ' scope (withScopes w (w.store.scopes.declare v c.value owner)) ∧
      Keeps base w (withScopes w (w.store.scopes.declare v c.value owner)) := by
  -- The owner is the global cell or one of the function, so what others see of it is kept.
  refine ⟨⟨hchain, h.base_pos, ?_, ?_, h.unlimited, h.going, h.closures⟩, fun i hi hlt => ?_,
    fun _ _ he => he⟩
  · exact Nat.le_trans h.base_le (Nat.le_of_eq Array.size_modify.symm)
  · rw [hprinted]
    exact h.pieces
  · have hne : owner ≠ i := by
      unfold World.globals at hown
      omega
    exact (Chain.cells_declare _ v c.value owner i).trans (if_neg hne)

theorem State.declare_printed (σ : State) (v : Text) (c : Const) :
    (σ.declare v c).printed = σ.printed := by
  unfold State.declare
  split <;> rfl

theorem State.length_declare (σ : State) (v : Text) (c : Const) :
    (σ.declare v c).locals.length = σ.locals.length := by
  obtain ⟨printed, locals, globals⟩ := σ
  cases locals <;> rfl

theorem Shows.declare {p : Program} {base scope : Nat} {σ : State} {w : World}
    (h : Shows p base σ scope w) (v : Text) (c : Const) :
    Shows p base (σ.declare v c) scope (withScopes w (w.store.scopes.declare v c.value scope)) ∧
      Keeps base w (withScopes w (w.store.scopes.declare v c.value scope)) := by
  obtain ⟨hchain, hown⟩ := h.chain.declareHere v c
  exact h.declared hown hchain (σ.declare_printed v c)

theorem Shows.assign {p : Program} {base scope : Nat} {σ σ' : State} {w : World}
    (h : Shows p base σ scope w) {v : Text} {c : Const} (hx : σ.assign? v c = some σ') :
    ∃ S, w.store.scopes.assign? v c.value scope = some S ∧ Shows p base σ' scope (withScopes w S) ∧
      Keeps base w (withScopes w S) ∧ σ'.locals.length = σ.locals.length := by
  obtain ⟨⟨locals', globals'⟩, hin, rfl⟩ := Option.map_eq_some_iff.mp hx
  obtain ⟨owner, hr, _, hown, hchain, hlen⟩ := h.chain.assignNearest h.chain.lt_size hin
  obtain ⟨hshows, hkeeps⟩ : Shows p base { σ with locals := locals', globals := globals' } scope
      (withScopes w (w.store.scopes.declare v c.value owner)) ∧
        Keeps base w (withScopes w (w.store.scopes.declare v c.value owner)) :=
    h.declared hown hchain rfl
  refine ⟨_, ?_, hshows, hkeeps, hlen⟩
  rw [Scopes.assign?, Scopes.resolve, hr, Option.map_some]

theorem Shows.assign_none {p : Program} {base scope : Nat} {σ : State} {w : World}
    (h : Shows p base σ scope w) {v : Text} {c : Const} (hx : σ.assign? v c = none) :
    w.store.scopes.assign? v c.value scope = none := by
  have hnone := Chain.assignIn_eq_none (Option.map_eq_none_iff.mp hx)
  rw [Scopes.assign?, Scopes.resolve, (h.chain.resolveFrom_eq v h.chain.lt_size).1 hnone,
    Option.map_none]

/-- A function of the table as a value is a closure over the global scope. -/
theorem Shows.functionClosure {p : Program} {base scope : Nat} {σ : State} {w : World}
    (h : Shows p base σ scope w) (here : Place) {name : Text} {fn : Function}
    (hfn : p.functions.get? name = some fn) :
    ∃ c w', w.functionClosure p here name = (.ok c, w') ∧ Represents p name c ∧
      Shows p base σ scope w' ∧ w'.store.scopes = w.store.scopes ∧
      w'.store.exceptions = w.store.exceptions := by
  unfold World.functionClosure
  cases hc : w.closures.lookup name with
  | some c => exact ⟨c, w, rfl, h.closures name c hc, h, rfl, rfl⟩
  | none =>
    dsimp only
    rw [hfn]
    refine ⟨_, _, rfl, ⟨fn, hfn, rfl, rfl, rfl⟩,
      ⟨h.chain, h.base_pos, h.base_le, h.pieces, h.unlimited, h.going, fun name' c' hc' => ?_⟩, rfl, rfl⟩
    rw [lookup_cons_eq] at hc'
    split at hc'
    · next heq =>
      cases hc'
      exact ⟨fn, heq ▸ hfn, rfl, rfl, rfl⟩
    · exact h.closures name' c' hc'

theorem cells_push {S : Scopes} {parent : Option Nat} {i : Nat} (hi : i < S.cells.size) :
    (S.push parent).2.cells[i]? = S.cells[i]? := by
  simp [Scopes.push, Array.getElem?_push_lt hi, Array.getElem?_eq_getElem hi]

theorem size_push (S : Scopes) (parent : Option Nat) :
    (S.push parent).2.cells.size = S.cells.size + 1 := Array.size_push _

theorem keeps_push {base : Nat} {w : World} (parent : Option Nat)
    (hbase : base ≤ w.store.scopes.cells.size) :
    Keeps base w (withScopes w (w.store.scopes.push parent).2) :=
  ⟨fun _ _ hlt => cells_push (by omega), fun _ _ he => he⟩

/-- A new scope inside the one at hand. -/
theorem Shows.enter {p : Program} {base scope : Nat} {σ : State} {w : World}
    (h : Shows p base σ scope w) :
    Shows p base σ.enter w.store.scopes.cells.size
      (withScopes w (w.store.scopes.push (some scope)).2) := by
  refine ⟨h.chain.push h.base_le, h.base_pos, ?_, h.pieces, h.unlimited, h.going, h.closures⟩
  have hle := h.base_le
  rw [withScopes, size_push]
  omega

/-- The scope around the one at hand. -/
theorem Shows.leave {p : Program} {base scope : Nat} {σ : State} {w : World}
    (h : Shows p base σ scope w) (has : σ.locals ≠ []) :
    Shows p base σ.leave ((w.store.scopes.parent? scope).getD World.globals) w := by
  obtain ⟨printed, locals, globals⟩ := σ
  cases locals with
  | nil => exact absurd rfl has
  | cons vs rest =>
    obtain ⟨_, parent, _, hcell, hrest⟩ := h.chain
    have hparent : w.store.scopes.parent? scope = some parent := by
      rw [Scopes.parent?, hcell]
      rfl
    rw [hparent]
    exact ⟨hrest, h.base_pos, h.base_le, h.pieces, h.unlimited, h.going, h.closures⟩

/-- The first scope of a function lies in the global one. -/
theorem Shows.call {p : Program} {base scope : Nat} {σ : State} {w : World}
    (h : Shows p base σ scope w) :
    Shows p w.store.scopes.cells.size { σ with locals := [[]] } w.store.scopes.cells.size
      (withScopes w (w.store.scopes.push (some World.globals)).2) := by
  have hglobals : Chain w.store.scopes w.store.scopes.cells.size σ.globals World.globals [] :=
    ⟨rfl, h.chain.globals_eq⟩
  refine ⟨hglobals.push (Nat.le_refl _), ?_, ?_, h.pieces, h.unlimited, h.going, h.closures⟩
  · exact Nat.lt_of_le_of_lt (Nat.zero_le _) h.chain.lt_size
  · rw [withScopes, size_push]
    omega

/-- The scopes of a caller are as they were when the function it called is through. -/
theorem Shows.back {p : Program} {base scope scope' : Nat} {σ σ' : State} {w w' : World}
    (h : Shows p base σ scope w) (h' : Shows p w.store.scopes.cells.size σ' scope' w')
    (hk : Keeps w.store.scopes.cells.size w w') :
    Shows p base { σ' with locals := σ.locals } scope w' := by
  have hlt := h.chain.lt_size
  refine ⟨h.chain.congr (fun i hi hle => hk.cells i hi (by omega)) h'.chain.globals_eq, h.base_pos,
    ?_, h'.pieces, h'.unlimited, h'.going, h'.closures⟩
  exact Nat.le_trans h.base_le h'.base_le

end BytecodeMachine.Structured
