import BytecodeMachine.Proofs.Machine.Faults

/-! The looks into tables that a machine makes without a check: the class of a reference, the function of
a method, the end of a region, and all that a call needs of its callee once its arguments have been
counted. In a linked machine each of them finds an entry. -/
namespace BytecodeMachine

variable {s : Setup}

/-- The tables of a program without defects have an entry for each name that they mention. -/
structure Setup.Complete (s : Setup) : Prop where
  type : ∀ {name t}, s.program.resolveType? name = some t → t.target = .cls →
    ∃ c, s.program.classes.get? t.name = some c
  base : ∀ {key c}, s.program.classes.get? key = some c → c.base.isEmpty = false →
    ∃ b, s.program.classes.get? c.base = some b
  owner : ∀ {key name owner member}, s.program.findMember? key name = some (owner, member) →
    ∃ c, s.program.classes.get? owner = some c
  method : ∀ {key name owner fn},
    s.program.findMember? key name = some (owner, .method fn) ∨
      s.program.findMember? key name = some (owner, .staticMethod fn) →
    ∃ f, s.program.functions.get? fn = some f
  region : ∀ {a ins}, s.program.instruction? a = some ins →
    Opcode.ofCode? ins.op = some .tryPush →
    s.regionEnds[a.toNat]? =
      some (Region.endOf s.program.code (Region.ends s.program.code) a.toNat ins.operand)

/-- A call that can be carried out. A function begins inside the code and is given a value for each
of its parameters; native code is there and is given as many arguments as it takes; a method has a
receiver of its kind. -/
def Target.Served (s : Setup) (args : List Value) : Target → Prop
  | .function c _ =>
    0 ≤ c.entry ∧ c.entry < s.program.code.size ∧ c.params.length = args.length
  | .builtin (.standard f) => f.arity.accepts args.length = true
  | .builtin (.host name) =>
    ∃ f, s.hostFunction? name = some f ∧ f.arity.accepts args.length = true
  | .method im receiver rest =>
    receiver.kind = im.kind ∧ im.info.arity.accepts rest.length = true
  | .nobody => False

/-- The values that an instruction can find as the callee of a call. -/
inductive Machine.Finds (s : Setup) (m : Machine) : Value → Prop
  | named {name : Text} {v : Value} (found : (m.calleeOfName s name).1 = .ok v) : Finds s m v
  | stacked {v : Value} (found : v ∈ m.stack) : Finds s m v
  | member {receiver v : Value} {name : Text} (stacked : receiver ∈ m.stack)
      (found : (m.world.loadMember s.program (m.place s) receiver name).1 = .ok v) : Finds s m v

/-- What a machine looks up for the values on its stack and the callees of its loops. A call that is
not refused, by an instruction or by a loop, can be carried out. -/
structure Machine.Served (s : Setup) (m : Machine) : Prop where
  type : ∀ t, .type t ∈ m.stack → t.target = .cls →
    ∃ c, s.program.classes.get? t.name = some c
  cls : ∀ c, .cls c ∈ m.stack → ∃ info, s.program.classes.get? c.key = some info
  object : ∀ id, .object id ∈ m.stack ∨ .static id ∈ m.stack → id < m.world.objects ∧
    ∃ info, s.program.classes.get? (m.world.store.object id).cls.key = some info
  call : ∀ callee args rest, m.Finds s callee → m.stack = args.reverse ++ rest →
    m.callRefusal? s callee args.length = none → (Target.of callee args).Served s args
  callback : ∀ l ∈ m.loops, ∀ args, callbackRefusal? s l.callee args = none →
    (Target.of l.callee args).Served s args

theorem Program.class_of_resolveType? {p : Program} {name : Text} {t : TypeRef}
    (h : p.resolveType? name = some t) (hcls : t.target = .cls) :
    ∃ c, p.classes.get? t.name = some c := by
  unfold Program.resolveType? at h
  split_ifs at h with has
  · cases h
    exact Table.get?_of_contains has
  · cases h
    cases hcls
  · obtain ⟨k, -, rfl⟩ := Option.map_eq_some_iff.mp h
    cases hcls

theorem Setup.Sound.complete (sound : s.Sound) : s.Complete where
  type := Program.class_of_resolveType?
  base hc hbase := Table.get?_of_contains (sound.checked.base hc hbase)
  owner h := by
    obtain ⟨c, hc, -⟩ := Program.findMember?_eq h
    exact ⟨c, hc⟩
  method h := by
    rcases h with h | h
    · obtain ⟨c, hc, hdeclared⟩ := Program.findMember?_eq h
      exact sound.checked.declared hc (Or.inl hdeclared)
    · obtain ⟨c, hc, hdeclared⟩ := Program.findMember?_eq h
      exact sound.checked.declared hc (Or.inr hdeclared)
  region hi hop := by
    rw [sound.ends]
    exact Program.regionEnd_of_tryPush hi hop

/-! Calls. -/

theorem Setup.accepts_of_refusal? {callee : Value} {argc : Int}
    (h : s.refusal? callee argc = none) :
    ∃ a, s.arity? callee = some a ∧ a.accepts argc = true := by
  unfold Setup.refusal? at h
  split at h
  · cases h
  · next a ha =>
    split at h
    · next haccepts => exact ⟨a, ha, haccepts⟩
    · cases h

theorem Arity.eq_of_exactly {n : Nat} {argc : Nat}
    (h : (Arity.exactly n).accepts argc = true) : n = argc := by
  unfold Arity.accepts Arity.exactly at h
  obtain ⟨hleast, hmost⟩ := (Bool.and_eq_true _ _).mp h
  have hge : (n : Int) ≤ argc := of_decide_eq_true hleast
  have hle : (argc : Int) ≤ n := of_decide_eq_true hmost
  omega

/-- A method that is not bound counts its receiver among the arguments. -/
theorem Intrinsic.accepts_of_unbound {im : Intrinsic} {rest : Nat}
    (h : im.unboundArity.accepts (rest + 1 : Nat) = true) : im.info.arity.accepts rest = true := by
  unfold Intrinsic.unboundArity Arity.accepts at h
  unfold Arity.accepts
  cases hmost : im.info.arity.most with
  | none =>
    simp only [hmost, Option.map_none, Bool.and_true, decide_eq_true_eq] at h ⊢
    omega
  | some most =>
    simp only [hmost, Option.map_some, Bool.and_eq_true, decide_eq_true_eq] at h ⊢
    omega

theorem closure_served (sound : s.Sound) {c : Closure} (hc : c.Linked s.program)
    {self : Option Value} {args : List Value}
    (h : (Arity.exactly c.params.length).accepts args.length = true) :
    (Target.function c self).Served s args := by
  obtain ⟨key, fn, hget, -, hentry, -⟩ := hc
  obtain ⟨hnonneg, hlt⟩ := sound.checked.entry hget
  refine ⟨?_, ?_, Arity.eq_of_exactly h⟩
  · rw [hentry]
    exact hnonneg
  · rw [hentry]
    exact hlt

/-- Counting the arguments and looking at the receiver are enough for a call of a linked value. -/
theorem Target.served (sound : s.Sound) {callee : Value} {n : Nat}
    (hc : callee.Linked s.program n) {args : List Value}
    (h : Machine.callbackRefusal? s callee args = none) :
    (Target.of callee args).Served s args := by
  unfold Machine.callbackRefusal? at h
  split at h
  · cases h
  · next hr =>
    obtain ⟨a, ha, haccepts⟩ := Setup.accepts_of_refusal? hr
    cases callee with
    | closure c =>
      cases ha
      exact closure_served sound hc haccepts
    | boundMethod ref c receiver =>
      cases ha
      exact closure_served sound hc.1 haccepts
    | builtin b =>
      cases b with
      | standard f =>
        cases ha
        exact haccepts
      | host name =>
        obtain ⟨f, hf, rfl⟩ := Option.map_eq_some_iff.mp ha
        exact ⟨f, hf, haccepts⟩
    | boundIntrinsic ref im receiver =>
      cases ha
      exact ⟨hc.1, haccepts⟩
    | intrinsic im =>
      cases ha
      -- At least the receiver is among the arguments, and its kind has been looked at.
      cases args with
      | nil => exact absurd (Machine.one_le_of_refusal?_intrinsic hr) (by simp)
      | cons receiver rest =>
        have hkind : receiver.kind = im.kind := by
          by_contra hne
          dsimp only at h
          rw [if_neg hne] at h
          cases h
        exact ⟨hkind, Intrinsic.accepts_of_unbound haccepts⟩
    | _ => cases ha

namespace Machine

variable {m : Machine}

/-- An instruction that is not refused its call has checked no less than a loop does. -/
theorem callbackRefusal?_eq_none {callee : Value} {args rest : List Value}
    (hs : m.stack = args.reverse ++ rest) (h : m.callRefusal? s callee args.length = none) :
    callbackRefusal? s callee args = none := by
  -- The stack is the one below the call with the arguments pushed.
  have hpushed := callRefusal?_pushed (s := s) { m with stack := rest } callee args
  dsimp only at hpushed
  rw [← hs] at hpushed
  rw [h] at hpushed
  cases hc : callbackRefusal? s callee args with
  | none => rfl
  | some e =>
    rw [hc] at hpushed
    cases hpushed

theorem Finds.linked (sound : s.Sound) (h : m.Linked s.program) {callee : Value}
    (hf : m.Finds s callee) : ∃ n, callee.Linked s.program n := by
  cases hf with
  | @named name _ found =>
    have hr := calleeOfName_linked (F := fun _ => True) sound h name
    exact ⟨_, hr.given _ found⟩
  | stacked found => exact ⟨_, h.stack _ found⟩
  | @member receiver _ name stacked found =>
    have hreceiver : receiver.Linked s.program m.world.objects := h.stack receiver stacked
    have hr : Reply.LinkedValue s.program (fun _ => True) m.world
        (m.world.loadMember s.program (m.place s) receiver name) :=
      (World.loadMember_obeys sound.stable h.world.obeys hreceiver name).linked
    exact ⟨_, hr.given _ found⟩

theorem Linked.served (sound : s.Sound) (h : m.Linked s.program) : m.Served s where
  type t ht hcls := Program.class_of_resolveType? (h.stack _ ht) hcls
  cls c hc := by
    obtain ⟨info, hget, -⟩ := h.stack _ hc
    exact ⟨info, hget⟩
  object id hid := by
    have hlt : id < m.world.objects := by
      rcases hid with hid | hid
      · exact h.stack _ hid
      · exact h.stack _ hid
    obtain ⟨info, hget, -⟩ := h.world.store.classes _ (Store.object_mem hlt)
    exact ⟨hlt, info, hget⟩
  call callee args rest hf hs haccepted := by
    obtain ⟨n, hc⟩ := hf.linked sound h
    exact Target.served sound hc (callbackRefusal?_eq_none hs haccepted)
  callback l hl args haccepted := Target.served sound (h.loops l hl).callee haccepted

end Machine

end BytecodeMachine
