import BytecodeMachine.Proofs.Program.Scripts
import Mathlib.Data.List.Induction

/-! Building from labels. A builder that has followed a script knows its labels and its code, up to
what stands in the slots that labels go into. Building succeeds where every label is bound once and
every label that is referred to is bound, and then fills all slots. Attempts to build on the way,
failed ones too, leave no trace. -/
namespace BytecodeMachine

namespace Builder

/-! What a builder knows of the script that it has followed. -/

section Tracking

variable {file : Text} {cs ds : Script} {c : Call}

/-- A split of a script with one more call is a split of the script, or before that call. -/
theorem split_concat {before after : Script} {d : Call} (h : cs ++ [c] = before ++ d :: after) :
    (∃ rest, after = rest ++ [c] ∧ cs = before ++ d :: rest) ∨
      (cs = before ∧ c = d ∧ after = []) := by
  rcases List.eq_nil_or_concat after with rfl | ⟨rest, e, rfl⟩
  · obtain ⟨hcs, hc⟩ := List.append_inj' h rfl
    exact .inr ⟨hcs, List.singleton_inj.mp hc, rfl⟩
  · rw [List.concat_eq_append, ← List.cons_append, ← List.append_assoc] at h
    obtain ⟨hcs, hc⟩ := List.append_inj' h rfl
    cases hc
    exact .inl ⟨rest, List.concat_eq_append .., hcs⟩

theorem size_append : Script.size (cs ++ ds) = cs.size + ds.size := by
  simp [Script.size]

theorem names_append : Script.names (cs ++ ds) = cs.names ++ ds.names := List.filterMap_append

theorem position_concat : Script.position (cs ++ [c]) = c.place cs.position := by
  simp [Script.position]

theorem run_concat : Script.run file (cs ++ [c]) = c.perform (cs.run file) := by
  simp [Script.run]

theorem Script.Binds.append {l : Text} {n : Nat} (h : cs.Binds l n) : (cs ++ ds).Binds l n := by
  obtain ⟨before, c, after, rfl, hbound, hn⟩ := h
  exact ⟨before, c, after ++ ds, by simp, hbound, hn⟩

theorem lookup_isSome_iff {labels : List (Text × Nat)} {l : Text} :
    (labels.lookup l).isSome = true ↔ l ∈ labels.map (·.1) := by
  rw [List.lookup_isSome_iff, List.mem_map]
  constructor
  · rintro ⟨e, he, heq⟩
    exact ⟨e, he, (beq_iff_eq.mp heq).symm⟩
  · rintro ⟨e, he, rfl⟩
    exact ⟨e, he, beq_self_eq_true _⟩

/-- The labels and functions of a builder are those that a script binds. -/
structure Names (cs : Script) (b : Builder) : Prop where
  labels : b.labels.map (·.1) = cs.names.reverse
  binds : ∀ e ∈ b.labels, cs.Binds e.1 e.2
  error : b.error = none ↔ cs.names.Nodup
  defined : ∀ name, b.program.functions.contains name = true → name ∈ cs.names
  function : cs.names.Nodup → ∀ before name params after,
    cs = before ++ .function name params :: after →
    b.program.functions.get? name = some ⟨name, Int64.ofNat (Script.size before), params⟩

/-- The code of a builder, with all slots filled, is the code of a script. What stands in the slots
before they are filled is left open. -/
structure Emits (file : Text) (cs : Script) (b : Builder) : Prop where
  ofFile : b.program.file = file
  place : (b.line, b.col) = cs.position
  size : b.size = cs.size
  missing : b.program.code? = none ↔ cs.size = 0
  refers : ∀ l, (∃ f ∈ b.fixups, f.label = l) ↔ cs.Refers l
  below : ∀ f ∈ b.fixups, f.at_ < b.size
  written : ∀ address before c after op operand, cs = before ++ c :: after →
    c.emitted? = some (op, operand) →
    (patch address b.fixups b.program.code)[Script.size before]? =
      some (fill address (c.fixups (Script.size before))
        { op := op, operand := operand, line := (Script.position before).1
          col := (Script.position before).2, file := file })

variable {b b' : Builder}

theorem label?_of_not_emitted (h : c.emitted? = none) (slot : Slot) : c.label? slot = none := by
  cases c <;> first | rfl | cases h

theorem bound?_of_emitted {e : UInt8 × Operand} (h : c.emitted? = some e) :
    c.bound? = none ∧ ∀ here, c.place here = here := by
  cases c <;> first | exact ⟨rfl, fun _ => rfl⟩ | cases h

theorem Names.keep (h : Names cs b) (hbound : c.bound? = none) (labels : b'.labels = b.labels)
    (error : b'.error = b.error) (functions : b'.program.functions = b.program.functions) :
    Names (cs ++ [c]) b' := by
  have hnames : Script.names (cs ++ [c]) = cs.names := by
    rw [names_append]
    simp [Script.names, hbound]
  constructor
  case labels => rw [labels, hnames, h.labels]
  case binds => exact fun e he => (h.binds e (labels ▸ he)).append
  case error => rw [error, hnames, h.error]
  case defined => rw [functions, hnames]; exact h.defined
  case function =>
    rw [functions, hnames]
    intro hnodup before name params after heq
    rcases split_concat heq with ⟨rest, -, hcs⟩ | ⟨-, rfl, -⟩
    · exact h.function hnodup before name params rest hcs
    · cases hbound

theorem Names.bind (h : Names cs b) {l : Text} (hbound : c.bound? = some l)
    (size : b.size = cs.size)
    (labels : b'.labels = (l, b.size) :: b.labels)
    (error : b'.error = none ↔ b.error = none ∧ l ∉ cs.names)
    (functions : ∀ name, b'.program.functions.get? name =
      match c with
      | .function f params =>
        if name = f then some ⟨f, Int64.ofNat b.size, params⟩ else b.program.functions.get? name
      | _ => b.program.functions.get? name) :
    Names (cs ++ [c]) b' := by
  have hnames : Script.names (cs ++ [c]) = cs.names ++ [l] := by
    rw [names_append]
    simp [Script.names, hbound]
  constructor
  case labels => rw [labels, hnames, List.map_cons, h.labels, List.reverse_append]; rfl
  case binds =>
    intro e he
    rw [labels] at he
    rcases List.mem_cons.mp he with rfl | he
    · exact ⟨cs, c, [], rfl, hbound, size⟩
    · exact (h.binds e he).append
  case error =>
    rw [error, hnames, h.error, List.nodup_append_comm, List.singleton_append, List.nodup_cons]
    exact And.comm
  case defined =>
    intro name hname
    rw [hnames, List.mem_append, List.mem_singleton]
    have hget := functions name
    rw [Table.contains, hget] at hname
    cases c with
    | function f params =>
      cases hbound
      by_cases hf : name = l
      · exact .inr hf
      · exact .inl (h.defined name (by simpa [hf, Table.contains] using hname))
    | _ => exact .inl (h.defined name hname)
  case function =>
    rw [hnames]
    intro hnodup before name params after heq
    rw [functions name]
    rcases split_concat heq with ⟨rest, -, hcs⟩ | ⟨rfl, rfl, -⟩
    · have hold := h.function hnodup.of_append_left before name params rest hcs
      have hne : name ≠ l := by
        have hmem : name ∈ cs.names := by
          rw [hcs, names_append]
          simp [Script.names, Call.bound?]
        rintro rfl
        exact (List.nodup_append.mp hnodup).2.2 name hmem name (List.mem_singleton_self name) rfl
      cases c with
      | function f params =>
        cases hbound
        rw [← hold]
        exact if_neg hne
      | _ => exact hold
    · rw [← size]
      exact if_pos rfl

theorem Emits.keep (h : Emits file cs b) (hemitted : c.emitted? = none)
    (ofFile : b'.program.file = b.program.file)
    (place : (b'.line, b'.col) = c.place (b.line, b.col))
    (missing : b'.program.code? = none ↔ b.program.code? = none)
    (size : b'.size = b.size)
    (fixups : b'.fixups = b.fixups)
    (code : ∀ address,
      patch address b.fixups b'.program.code = patch address b.fixups b.program.code) :
    Emits file (cs ++ [c]) b' := by
  have hsize : Script.size (cs ++ [c]) = cs.size := by
    rw [size_append]
    simp [Script.size, hemitted]
  constructor
  case ofFile => rw [ofFile, h.ofFile]
  case place => rw [place, position_concat, h.place]
  case size => rw [size, hsize, h.size]
  case missing => rw [missing, hsize, h.missing]
  case refers =>
    intro l
    rw [fixups, h.refers]
    simp [Script.Refers, or_and_right, exists_or, label?_of_not_emitted hemitted]
  case below => rw [fixups, size]; exact h.below
  case written =>
    intro address before d after op operand heq hd
    rw [fixups, code]
    rcases split_concat heq with ⟨rest, -, hcs⟩ | ⟨-, rfl, -⟩
    · exact h.written address before d rest op operand hcs hd
    · rw [hemitted] at hd
      cases hd

theorem Emits.emit (h : Emits file cs b) {op : UInt8} {operand : Operand}
    (hemitted : c.emitted? = some (op, operand)) :
    Emits file (cs ++ [c]) { b.emit op operand with fixups := b.fixups ++ c.fixups b.size } := by
  have hsize : Script.size (cs ++ [c]) = cs.size + 1 := by
    rw [size_append]
    simp [Script.size, hemitted]
  constructor
  case ofFile => exact h.ofFile
  case place =>
    rw [position_concat, (bound?_of_emitted hemitted).2]
    exact h.place
  case size =>
    rw [hsize, ← h.size]
    exact Array.size_push ..
  case missing =>
    rw [hsize]
    simp [Builder.emit]
  case refers =>
    intro l
    have hcall : (∃ f ∈ c.fixups b.size, f.label = l) ↔ ∃ slot, c.label? slot = some l := by
      constructor
      · rintro ⟨f, hf, rfl⟩
        exact ⟨f.slot, (mem_fixups.mp hf).2⟩
      · rintro ⟨slot, hslot⟩
        exact ⟨⟨b.size, l, slot⟩, mem_fixups.mpr ⟨rfl, hslot⟩, rfl⟩
    have hbefore := h.refers l
    simp only [Script.Refers, List.mem_append, or_and_right, exists_or, List.mem_singleton,
      exists_eq_left] at hbefore ⊢
    exact or_congr hbefore hcall
  case below =>
    intro f hf
    have hgrown : (b.emit op operand).size = b.size + 1 := Array.size_push ..
    change f.at_ < (b.emit op operand).size
    rcases List.mem_append.mp hf with hf | hf
    · have := h.below f hf
      omega
    · have := (mem_fixups.mp hf).1
      omega
  case written =>
    intro address before d after op' operand' heq hd
    change (patch address (b.fixups ++ c.fixups b.size) (b.program.code.push _))[_]? = _
    have hend : b.program.code.size = b.size := rfl
    rw [patch_append, patch_push h.below, getElem?_patch, Array.getElem?_push, size_patch, hend]
    rcases split_concat heq with ⟨rest, -, hcs⟩ | ⟨rfl, rfl, -⟩
    · -- The slots of this call are those of the instruction at the end.
      have hlt : Script.size before < b.size := by
        rw [h.size, hcs, size_append]
        simp [Script.size, hd]
      have hnone : (c.fixups b.size).filter (·.at_ = Script.size before) = [] := by
        refine List.filter_eq_nil_iff.mpr fun f hf hat => ?_
        have hend := (mem_fixups.mp hf).1
        have heq : f.at_ = Script.size before := by simpa using hat
        omega
      rw [if_neg (Nat.ne_of_lt hlt), hnone, h.written address before d rest op' operand' hcs hd]
      rfl
    · have hall : (c.fixups b.size).filter (·.at_ = Script.size cs) = c.fixups b.size := by
        refine List.filter_eq_self.mpr fun f hf => ?_
        rw [(mem_fixups.mp hf).1, h.size]
        exact decide_eq_true rfl
      have hpair := hemitted.symm.trans hd
      cases hpair
      rw [← h.size] at hall ⊢
      rw [if_pos rfl, hall, ← h.ofFile, ← h.place]
      rfl

/-- What a builder knows is kept up with every call. -/
theorem names_and_emits_perform (hnames : Names cs b) (hemits : Emits file cs b) (c : Call) :
    Names (cs ++ [c]) (c.perform b) ∧ Emits file (cs ++ [c]) (c.perform b) := by
  cases hemitted : c.emitted? with
  | some e =>
    obtain ⟨op, operand⟩ := e
    rw [perform_of_emitted hemitted]
    exact ⟨hnames.keep (bound?_of_emitted hemitted).1 rfl rfl rfl, hemits.emit hemitted⟩
  | none =>
    have htwice (name : Text) : (b.labels.lookup name).isSome = true ↔ name ∈ cs.names := by
      rw [lookup_isSome_iff, hnames.labels, List.mem_reverse]
    cases c
    case label name =>
      rw [perform_label]
      refine ⟨hnames.bind rfl hemits.size rfl ?_ fun _ => rfl,
        hemits.keep rfl rfl rfl Iff.rfl rfl rfl fun _ => rfl⟩
      rw [← htwice name]
      dsimp only
      split
      · next h => simp [h]
      · next h => simp [h]
    case function name params =>
      rw [perform_function]
      refine ⟨hnames.bind rfl hemits.size rfl ?_ fun x => Table.get?_insert ..,
        hemits.keep rfl rfl rfl Iff.rfl rfl rfl fun _ => rfl⟩
      -- The name of a function that is there is a label that is bound.
      have hdefined := hnames.defined name
      rw [← htwice name] at hdefined ⊢
      dsimp only
      split
      · next h => simp [h]
      · next h =>
        rw [if_neg fun hc => h (hdefined hc)]
        simp [h]
    case locate line col =>
      exact ⟨hnames.keep rfl rfl rfl rfl, hemits.keep rfl rfl rfl Iff.rfl rfl rfl fun _ => rfl⟩
    case declareClass c =>
      exact ⟨hnames.keep rfl rfl rfl rfl, hemits.keep rfl rfl rfl Iff.rfl rfl rfl fun _ => rfl⟩
    case declareEnum name members =>
      exact ⟨hnames.keep rfl rfl rfl rfl, hemits.keep rfl rfl rfl Iff.rfl rfl rfl fun _ => rfl⟩
    case build =>
      have hperform : Call.build.perform b = b.build.2 := rfl
      rw [hperform]
      refine ⟨hnames.keep rfl (by rw [build_snd]) (by rw [build_snd]) (by rw [build_snd]),
        hemits.keep rfl (by rw [build_snd]) (by rw [build_snd]; rfl) ?_ ?_ (by rw [build_snd])
          fun address => ?_⟩
      · rw [build_snd]
        dsimp only
        split <;> simp
      · change b.build.2.program.code.size = b.program.code.size
        rw [build_code]
        split
        · exact size_resolve ..
        · rfl
      · rw [build_code]
        split
        · exact patch_resolve b.labels (List.Subset.refl _)
        · rfl
    all_goals cases hemitted

/-- After every script, however its calls are mixed, a builder knows its labels and its code. -/
theorem names_and_emits (file : Text) (cs : Script) :
    Names cs (Script.run file cs) ∧ Emits file cs (Script.run file cs) := by
  induction cs using List.reverseRecOn with
  | nil =>
    refine ⟨⟨rfl, ?_, ?_, ?_, ?_⟩, ⟨rfl, rfl, rfl, ?_, ?_, ?_, ?_⟩⟩
    · exact fun e he => absurd he List.not_mem_nil
    · exact ⟨fun _ => List.nodup_nil, fun _ => rfl⟩
    · exact fun name h => absurd h Bool.false_ne_true
    · exact fun _ before name params after h => absurd h (by simp)
    · exact ⟨fun _ => rfl, fun _ => rfl⟩
    · exact fun l => by simp [Script.run, new, Script.Refers]
    · exact fun f hf => absurd hf List.not_mem_nil
    · exact fun _ before c after _ _ h => absurd h (by simp)
  | append_singleton cs c ih =>
    rw [run_concat]
    exact names_and_emits_perform ih.1 ih.2 c

end Tracking

/-! Building. -/

section Building

variable {file : Text} {cs : Script} {p q : Program}

/-- Building succeeds where no error was noted before and every label referred to is bound; then all
slots are filled. -/
theorem build_eq_ok_iff {b : Builder} :
    b.build.1 = .ok p ↔ b.error = none ∧ (∀ f ∈ b.fixups, (b.labels.lookup f.label).isSome) ∧
      p = { b.program with
        code? := b.program.code?.map fun _ =>
          patch (addressIn b.labels) b.fixups b.program.code } := by
  unfold build
  cases herror : b.error with
  | some e => simp
  | none =>
    dsimp only
    have hfinds : (resolve b.labels b.fixups b.program.code).2 = none ↔ _ :=
      resolve_eq_none_iff b.labels b.fixups
    rw [← hfinds]
    cases hresolve : (resolve b.labels b.fixups b.program.code).2 with
    | some e => simp
    | none =>
      have hfound := (resolve_eq_none_iff b.labels b.fixups).mp hresolve
      simp [resolve_eq_patch b.labels hfound, eq_comm]

/-- Every label of a script is bound once, and every one that is referred to is bound. -/
def Script.Complete (cs : Script) : Prop :=
  cs.names.Nodup ∧ ∀ l, cs.Refers l → l ∈ cs.names

theorem succeeds_iff :
    (∃ p, (Script.run file cs).build.1 = .ok p) ↔ cs.Complete := by
  obtain ⟨hnames, hemits⟩ := names_and_emits file cs
  have hfound : (∀ f ∈ (Script.run file cs).fixups,
      ((Script.run file cs).labels.lookup f.label).isSome) ↔ ∀ l, cs.Refers l → l ∈ cs.names := by
    have hlabel (l : Text) : ((Script.run file cs).labels.lookup l).isSome ↔ l ∈ cs.names := by
      rw [lookup_isSome_iff, hnames.labels, List.mem_reverse]
    constructor
    · intro h l hl
      obtain ⟨f, hf, rfl⟩ := (hemits.refers l).mpr hl
      exact (hlabel f.label).mp (h f hf)
    · exact fun h f hf => (hlabel f.label).mpr (h f.label ((hemits.refers f.label).mp ⟨f, hf, rfl⟩))
  rw [Script.Complete, ← hnames.error, ← hfound]
  constructor
  · rintro ⟨p, hp⟩
    obtain ⟨herror, hall, -⟩ := build_eq_ok_iff.mp hp
    exact ⟨herror, hall⟩
  · rintro ⟨herror, hall⟩
    exact ⟨_, build_eq_ok_iff.mpr ⟨herror, hall, rfl⟩⟩

theorem code_of_build {b : Builder} (h : b.build.1 = .ok p) :
    p.code = patch (addressIn b.labels) b.fixups b.program.code := by
  obtain ⟨-, -, rfl⟩ := build_eq_ok_iff.mp h
  unfold Program.code
  cases b.program.code? with
  | some code => rfl
  | none => exact (Array.size_eq_zero_iff.mp size_patch).symm

/-- A program without instructions has no list of them. -/
theorem code?_of_build (h : (Script.run file cs).build.1 = .ok p) :
    p.code? = if p.code.size = 0 then none else some p.code := by
  have hemits := (names_and_emits file cs).2
  have hcode := code_of_build h
  have hmissing : (Script.run file cs).program.code? = none ↔ p.code.size = 0 := by
    rw [hemits.missing, ← hemits.size, hcode, size_patch]
    rfl
  obtain ⟨-, -, hp⟩ := build_eq_ok_iff.mp h
  split
  · next hempty =>
    rw [hp, hmissing.mpr hempty]
    rfl
  · next hsome =>
    obtain ⟨code, hc⟩ := Option.ne_none_iff_exists'.mp fun hnone => hsome (hmissing.mp hnone)
    rw [hcode, hp, hc]
    rfl

/-- What is built is what the script says. -/
theorem resolves_of_build (h : (Script.run file cs).build.1 = .ok p) : Resolves file cs p := by
  obtain ⟨hnames, hemits⟩ := names_and_emits file cs
  obtain ⟨herror, hfound, hp⟩ := build_eq_ok_iff.mp h
  have hsize : p.code.size = cs.size := by rw [code_of_build h, size_patch]; exact hemits.size
  constructor
  case ofFile => rw [hp]; exact hemits.ofFile
  case size => exact hsize
  case instruction =>
    intro before c after op operand hcs hc
    let address := addressIn (Script.run file cs).labels
    have hget := hemits.written address before c after op operand hcs hc
    rw [← code_of_build h] at hget
    obtain ⟨hrest, hslots⟩ := @fill_fixups address c (Script.size before) _
    refine ⟨_, hget, hrest, fun slot => ?_⟩
    rw [hslots slot]
    cases hlabel : c.label? slot with
    | none => rfl
    | some l =>
      have hrefers : cs.Refers l := ⟨c, by simp [hcs], slot, hlabel⟩
      obtain ⟨f, hf, rfl⟩ := (hemits.refers l).mpr hrefers
      obtain ⟨n, hn⟩ := Option.isSome_iff_exists.mp (hfound f hf)
      have hbinds : cs.Binds f.label n := hnames.binds _ (mem_of_lookup hn)
      have haddress : address f.label = Int64.ofNat n := by
        change addressIn _ _ = _
        rw [addressIn, hn]
        rfl
      have hle : n ≤ p.code.size := by
        obtain ⟨before, d, after, hsplit, -, rfl⟩ := hbinds
        rw [hsize, hsplit, size_append]
        omega
      refine ⟨n, hle, hbinds, haddress, fun hsmall => ?_⟩
      change (address f.label).toInt = n
      rw [haddress]
      exact Int64.toInt_ofNat_of_lt (by omega)
  case function =>
    intro before name params after hcs
    rw [hp]
    exact hnames.function (hnames.error.mp herror) before name params after hcs

end Building

/-! Attempts to build on the way. -/

section Plain

variable {file : Text} {cs : Script} {p q : Program}

theorem mem_names_of_binds {l : Text} {n : Nat} (h : cs.Binds l n) : l ∈ cs.names := by
  obtain ⟨before, c, after, rfl, hbound, -⟩ := h
  exact List.mem_filterMap.mpr ⟨c, by simp, hbound⟩

theorem binds_cons {c : Call} {l : Text} {n : Nat} :
    Script.Binds (c :: cs) l n ↔
      (c.bound? = some l ∧ n = 0) ∨ ∃ m, cs.Binds l m ∧ n = Script.size [c] + m := by
  constructor
  · rintro ⟨before, d, after, heq, hbound, rfl⟩
    rcases List.cons_eq_append_iff.mp heq with ⟨rfl, hcons⟩ | ⟨rest, rfl, rfl⟩
    · cases hcons
      exact .inl ⟨hbound, rfl⟩
    · exact .inr ⟨Script.size rest, ⟨rest, d, after, rfl, hbound, rfl⟩, @size_append [c] _⟩
  · rintro (⟨hbound, rfl⟩ | ⟨m, ⟨before, d, after, rfl, hbound, rfl⟩, rfl⟩)
    · exact ⟨[], c, cs, rfl, hbound, rfl⟩
    · exact ⟨c :: before, d, after, rfl, hbound, (@size_append [c] _).symm⟩

/-- A label that is bound once has one address. -/
theorem binds_unique (hnodup : cs.names.Nodup) {l : Text} {n m : Nat} (hn : cs.Binds l n)
    (hm : cs.Binds l m) : n = m := by
  induction cs generalizing n m with
  | nil =>
    obtain ⟨before, c, after, heq, -⟩ := hn
    simp at heq
  | cons c cs ih =>
    have hrest : (Script.names cs).Nodup :=
      hnodup.sublist (List.Sublist.filterMap _ (List.sublist_cons_self c cs))
    have hfirst (hbound : c.bound? = some l) {k : Nat} (hk : Script.Binds cs l k) : False := by
      have heq : Script.names (c :: cs) = l :: Script.names cs := by
        simp [Script.names, hbound]
      rw [heq, List.nodup_cons] at hnodup
      exact hnodup.1 (mem_names_of_binds hk)
    rcases binds_cons.mp hn with ⟨hc, rfl⟩ | ⟨i, hi, rfl⟩ <;>
      rcases binds_cons.mp hm with ⟨hc', rfl⟩ | ⟨j, hj, rfl⟩
    · rfl
    · exact (hfirst hc hj).elim
    · exact (hfirst hc' hi).elim
    · rw [ih hrest hi hj]

theorem size_plain : Script.size cs.plain = cs.size := by
  unfold Script.size Script.plain
  rw [List.filterMap_filter]
  congr 2
  funext c
  cases c <;> rfl

theorem names_plain : Script.names cs.plain = cs.names := by
  unfold Script.names Script.plain
  rw [List.filterMap_filter]
  congr 1
  funext c
  cases c <;> rfl

theorem position_plain : Script.position cs.plain = cs.position := by
  unfold Script.position Script.plain
  rw [List.foldl_filter]
  congr 1
  funext here c
  cases c <;> rfl

theorem refers_plain {l : Text} : Script.Refers cs.plain l ↔ cs.Refers l := by
  constructor
  · rintro ⟨c, hc, slot, hlabel⟩
    exact ⟨c, List.mem_of_mem_filter hc, slot, hlabel⟩
  · rintro ⟨c, hc, slot, hlabel⟩
    have hkept : (!c.isBuild) = true := by cases c <;> first | rfl | cases hlabel
    exact ⟨c, List.mem_filter.mpr ⟨hc, hkept⟩, slot, hlabel⟩

theorem complete_plain : Script.Complete cs.plain ↔ cs.Complete := by
  simp only [Script.Complete, names_plain, refers_plain]

theorem plain_split {before after : Script} {c : Call} (h : c.isBuild = false) :
    Script.plain (before ++ c :: after) = before.plain ++ c :: after.plain := by
  simp [Script.plain, h]

theorem binds_plain {l : Text} {n : Nat} (h : cs.Binds l n) : Script.Binds cs.plain l n := by
  obtain ⟨before, c, after, rfl, hbound, rfl⟩ := h
  have hkept : c.isBuild = false := by cases c <;> first | rfl | cases hbound
  exact ⟨Script.plain before, c, Script.plain after, plain_split hkept, hbound, size_plain.symm⟩

/-- Every address of a script's code is that of an instruction which one of its calls emits. -/
theorem exists_split_of_lt {i : Nat} (hi : i < cs.size) :
    ∃ before c after e, cs = before ++ c :: after ∧ c.emitted? = some e ∧
      Script.size before = i := by
  induction cs using List.reverseRecOn with
  | nil => exact absurd hi (Nat.not_lt_zero i)
  | append_singleton cs c ih =>
    by_cases hlt : i < Script.size cs
    · obtain ⟨before, d, after, e, rfl, hd, hsize⟩ := ih hlt
      exact ⟨before, d, after ++ [c], e, by simp, hd, hsize⟩
    · rw [size_append] at hi
      cases hc : c.emitted? with
      | none =>
        simp [Script.size, hc] at hi hlt
        omega
      | some e =>
        refine ⟨cs, c, [], e, rfl, hc, ?_⟩
        simp [Script.size, hc] at hi hlt ⊢
        omega

/-- Two programs that are what a script and its plain part say have the same code. -/
theorem code_eq_of_resolves (hcomplete : cs.Complete) (hp : Resolves file cs p)
    (hq : Resolves file cs.plain q) : p.code = q.code := by
  have hsizes : p.code.size = q.code.size := by rw [hp.size, hq.size, size_plain]
  refine Array.ext hsizes fun i hi hi' => ?_
  obtain ⟨before, c, after, ⟨op, operand⟩, hcs, hc, rfl⟩ := exists_split_of_lt (hp.size ▸ hi)
  have hkept : c.isBuild = false := by cases c <;> first | rfl | cases hc
  have hplain : cs.plain = Script.plain before ++ c :: Script.plain after := by
    rw [hcs, plain_split hkept]
  obtain ⟨ins, hget, hins, hslots⟩ := hp.instruction before c after op operand hcs hc
  obtain ⟨ins', hget', hins', hslots'⟩ := hq.instruction _ c _ op operand hplain hc
  rw [size_plain] at hget'
  have hslot (slot : Slot) : slot.of ins.operand = slot.of ins'.operand := by
    have h := hslots slot
    have h' := hslots' slot
    cases hlabel : c.label? slot with
    | none =>
      rw [hlabel] at h h'
      exact h.trans h'.symm
    | some l =>
      rw [hlabel] at h h'
      obtain ⟨n, -, hbinds, hn, -⟩ := h
      obtain ⟨m, -, hbinds', hm, -⟩ := h'
      have hsame : n = m :=
        binds_unique (@names_plain cs ▸ hcomplete.1) (binds_plain hbinds) hbinds'
      rw [hn, hm, hsame]
  have hsame : ins = ins' := by
    have hint : ins.operand.int = ins'.operand.int := hslot .first
    have hint2 : ins.operand.int2 = ins'.operand.int2 := hslot .second
    rw [position_plain, ← hint, ← hint2] at hins'
    exact hins.trans hins'.symm
  have hgets := hget.trans ((congrArg some hsame).trans hget'.symm)
  rw [Array.getElem?_eq_getElem hi, Array.getElem?_eq_getElem hi'] at hgets
  exact Option.some.inj hgets

/-- What a call does to the tables of a program. -/
def Call.declare (at_ : Nat) (p : Program) : Call → Program
  | .function name params =>
    { p with functions := p.functions.insert name ⟨name, Int64.ofNat at_, params⟩ }
  | .declareClass c => { p with classes := p.classes.insert c.name c }
  | .declareEnum name members => { p with enums := p.enums.insert name members }
  | _ => p

/-- A program without its code. -/
def tables (p : Program) : Program := { p with code? := none }

theorem tables_perform (b : Builder) (c : Call) :
    tables (c.perform b).program = c.declare b.size (tables b.program) := by
  cases hemitted : c.emitted? with
  | some e =>
    rw [@perform_of_emitted c b e.1 e.2 hemitted]
    cases c <;> first | rfl | cases hemitted
  | none =>
    cases c
    case label name => rw [perform_label]; rfl
    case function name params => rw [perform_function]; rfl
    case build =>
      have hperform : Call.build.perform b = b.build.2 := rfl
      rw [hperform, build_snd]
      rfl
    case locate => rfl
    case declareClass => rfl
    case declareEnum => rfl
    all_goals cases hemitted

theorem tables_plain (file : Text) (cs : Script) :
    tables (Script.run file cs).program = tables (Script.run file cs.plain).program := by
  induction cs using List.reverseRecOn with
  | nil => rfl
  | append_singleton cs c ih =>
    have hsize : (Script.run file cs).size = (Script.run file (Script.plain cs)).size := by
      rw [(names_and_emits file cs).2.size, (names_and_emits file (Script.plain cs)).2.size,
        size_plain]
    rw [run_concat, tables_perform, ih, hsize]
    cases hbuild : c.isBuild with
    | false =>
      have hplain : Script.plain (cs ++ [c]) = Script.plain cs ++ [c] := plain_split hbuild
      rw [hplain, run_concat, tables_perform]
    | true =>
      have hplain : Script.plain (cs ++ [c]) = Script.plain cs := by simp [Script.plain, hbuild]
      rw [hplain]
      cases c <;> first | rfl | cases hbuild

/-- Attempts to build on the way change nothing about what is built in the end. -/
theorem build_plain (h : (Script.run file cs).build.1 = .ok p) :
    (Script.run file cs.plain).build.1 = .ok p := by
  have hcomplete : cs.Complete := succeeds_iff.mp ⟨p, h⟩
  obtain ⟨q, hq⟩ := (@succeeds_iff file _).mpr (complete_plain.mpr hcomplete)
  have hcode : p.code = q.code :=
    code_eq_of_resolves hcomplete (resolves_of_build h) (resolves_of_build hq)
  have htables : tables p = tables q := by
    obtain ⟨-, -, hp⟩ := build_eq_ok_iff.mp h
    obtain ⟨-, -, hq⟩ := build_eq_ok_iff.mp hq
    rw [hp, hq]
    exact tables_plain file cs
  have heq : p = q := by
    calc p = { tables p with code? := p.code? } := rfl
      _ = { tables q with code? := q.code? } := by
        rw [htables, code?_of_build h, code?_of_build hq, hcode]
      _ = q := rfl
  rw [heq]
  exact hq

end Plain

/-- Building succeeds for a script exactly if every label is bound once and all labels referred to
are bound. Then the program is what the script says, with the addresses of labels in their slots, and
it is the same whatever attempts to build there were on the way. -/
theorem build_resolves_labels (file : Text) (cs : Script) :
    ((∃ p, (Script.run file cs).build.1 = .ok p) ↔ cs.Complete) ∧
    ∀ p, ((Script.run file cs).build.1 = .ok p → Resolves file cs p) ∧
      ((Script.run file cs).build.1 = .ok p ↔ (Script.run file cs.plain).build.1 = .ok p) := by
  refine ⟨succeeds_iff, fun p => ⟨resolves_of_build, build_plain, fun hplain => ?_⟩⟩
  have hcomplete : cs.Complete := complete_plain.mp (succeeds_iff.mp ⟨p, hplain⟩)
  obtain ⟨q, hq⟩ := (@succeeds_iff file _).mpr hcomplete
  have hsame : q = p := Except.ok.inj ((build_plain hq).symm.trans hplain)
  rw [← hsame]
  exact hq

/-- A loop with a handler, and an attempt to build it before all of its labels are bound. -/
def loopScript : Script :=
  [.label "top", .jump Opcode.jumpIfFalse.code "done", .build, .leave "top" 2, .locate 3 5,
    .tryPush "catch" "", .label "catch", .label "done", .build, .emit Opcode.halt.code {}]

example : ((Script.run "loop" loopScript).build.1.toOption.map fun p =>
    p.code.toList.map fun ins => (ins.operand.int, ins.operand.int2, ins.line)) =
    some [(3, 0, 0), (0, 2, 0), (3, -1, 3), (0, 0, 3)] := by decide +kernel

end Builder

end BytecodeMachine
