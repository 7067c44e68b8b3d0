import BytecodeMachine.Machine.Member
import BytecodeMachine.Proofs.Program.Tables

/-! Class tables. The check on a table follows base names from every class. It always ends,
whichever way the entries are gone through, and accepts the tables in which all names are there and
every class has a line of bases that comes to an end. Inheritance is a partial order on the classes
of such a table. -/
namespace BytecodeMachine

namespace Program

/-- The base that a class names, the empty text for a class that has none or is not there. -/
def baseOf (p : Program) (key : Text) : Text := ((p.classes.get? key).map (·.base)).getD []

/-- The class that a class is linked to as its base. -/
def base? (p : Program) (key : Text) : Option Text :=
  match p.classes.get? key with
  | some c => if c.base.isEmpty then none else some c.base
  | none => none

/-- Following base names, without a bound, until there is none left or one comes up again. -/
inductive Walk (p : Program) : (seen : List Text) → (base : Text) → Option Text → Prop where
  | done {seen : List Text} : Walk p seen [] none
  | circle {seen : List Text} {base : Text} (named : base ≠ []) (again : base ∈ seen) :
    Walk p seen base (some base)
  | step {seen : List Text} {base : Text} {r : Option Text} (named : base ≠ [])
    (new : base ∉ seen) (rest : Walk p (base :: seen) (p.baseOf base) r) : Walk p seen base r

/-- Looking for a member from a class upwards, without a bound. -/
inductive Lookup (p : Program) (name : Text) : Option Text → Option (Text × Member) → Prop where
  | nowhere : Lookup p name none none
  | here {key : Text} {c : ClassInfo} {m : Member} (found : p.classes.get? key = some c)
    (declares : declared? c name = some m) : Lookup p name (some key) (some (key, m))
  | up {key : Text} {c : ClassInfo} {r : Option (Text × Member)}
    (found : p.classes.get? key = some c) (silent : declared? c name = none)
    (rest : Lookup p name (p.base? key) r) : Lookup p name (some key) r

/-- Looking for a class from another one upwards, without a bound. -/
inductive Climb (p : Program) (other : Text) : Option Text → Bool → Prop where
  | nowhere : Climb p other none false
  | here : Climb p other (some other) true
  | up {key : Text} {r : Bool} (differs : key ≠ other) (rest : Climb p other (p.base? key) r) :
    Climb p other (some key) r

/-- A class with its bases, up to one that has none. -/
inductive Lineage (p : Program) : Text → List Text → Prop where
  | root {key : Text} {c : ClassInfo} (found : p.classes.get? key = some c)
    (rootless : c.base = []) : Lineage p key [key]
  | base {key : Text} {c : ClassInfo} {line : List Text} (found : p.classes.get? key = some c)
    (named : c.base ≠ []) (rest : Lineage p c.base line) : Lineage p key (key :: line)

/-- Tables whose classes rest on each other without a gap or a circle. -/
structure Grounded (p : Program) : Prop where
  bases : ∀ key c, p.classes.get? key = some c → c.base ≠ [] →
    p.classes.contains c.base = true
  lines : ∀ key c, p.classes.get? key = some c → ∃ line, p.Lineage key line
  methods : ∀ key c, p.classes.get? key = some c → ∀ e ∈ c.methods.entries,
    p.functions.contains e.2 = true
  staticMethods : ∀ key c, p.classes.get? key = some c → ∀ e ∈ c.staticMethods.entries,
    p.functions.contains e.2 = true

/-- Orders in which the check may go through the entries of the tables. -/
structure Orders (p : Program) where
  functions : List (Text × Function)
  functions_perm : functions.Perm p.functions.entries
  classes : List (Text × ClassInfo)
  classes_perm : classes.Perm p.classes.entries
  methods : Text → List (Text × Text)
  methods_perm : ∀ key c, p.classes.get? key = some c → (methods key).Perm c.methods.entries
  staticMethods : Text → List (Text × Text)
  staticMethods_perm : ∀ key c, p.classes.get? key = some c →
    (staticMethods key).Perm c.staticMethods.entries

variable {p : Program}

/-- The first defect that is found in given orders. -/
def defectIn (p : Program) (o : p.Orders) : Option Defect :=
  let methodDefect (name : Text) (e : Text × Text) : Option Defect :=
    if p.functions.contains e.2 then none else some (.unknownMethod name e.1 e.2)
  p.codeDefect?.or <|
    (o.functions.findSome? fun e =>
      if e.2.address.toInt < 0 || (p.code.size : Int) ≤ e.2.address.toInt then
        some (.functionRange e.1 e.2.address)
      else none).or <|
    o.classes.findSome? fun e => (p.baseDefect? e.1 e.2).or <|
      ((o.methods e.1).findSome? (methodDefect e.1)).or <|
        (o.staticMethods e.1).findSome? (methodDefect e.1)

/-- The order of the names. -/
def Orders.sorted (p : Program) : p.Orders where
  functions := p.functions.entries
  functions_perm := .refl _
  classes := p.classes.entries
  classes_perm := .refl _
  methods key := ((p.classes.get? key).map (·.methods.entries)).getD []
  methods_perm key c h := by rw [h]; exact .refl _
  staticMethods key := ((p.classes.get? key).map (·.staticMethods.entries)).getD []
  staticMethods_perm key c h := by rw [h]; exact .refl _

/-! The walk from a class. -/

theorem Walk.unique {seen : List Text} {base : Text} {r r' : Option Text} (h : p.Walk seen base r)
    (h' : p.Walk seen base r') : r = r' := by
  induction h with
  | done =>
    cases h' with
    | done => rfl
    | circle named => exact absurd rfl named
    | step named => exact absurd rfl named
  | circle named again =>
    cases h' with
    | done => exact absurd rfl named
    | circle => rfl
    | step _ new => exact absurd again new
  | step named new _ ih =>
    cases h' with
    | done => exact absurd rfl named
    | circle _ again => exact absurd again new
    | step _ _ rest => exact ih rest

/-- The names of classes that have not been seen. -/
def unseen (p : Program) (seen : List Text) : List Text := p.classes.names.filter (· ∉ seen)

theorem unseen_cons_lt {seen : List Text} {base : Text} (new : base ∉ seen)
    (found : base ∈ p.classes.names) :
    (p.unseen (base :: seen)).length < (p.unseen seen).length := by
  have hsub : p.unseen (base :: seen) = (p.unseen seen).filter (· ≠ base) := by
    unfold unseen
    rw [List.filter_filter]
    refine List.filter_congr fun x _ => ?_
    simp [not_or]
  have hmem : base ∈ p.unseen seen := List.mem_filter.mpr ⟨found, by simpa using new⟩
  rw [hsub]
  exact List.length_filter_lt_length_iff_exists.mpr ⟨base, hmem, by simp⟩

/-- More steps than there are classes left to be seen are enough for the walk to end. -/
theorem walk_circle? {steps : Nat} {seen : List Text} (base : Text)
    (h : (p.unseen seen).length < steps) : p.Walk seen base (p.circle? steps seen base) := by
  induction steps generalizing seen base with
  | zero => exact absurd h (Nat.not_lt_zero _)
  | succ steps ih =>
    rw [circle?]
    split
    · next hempty =>
      rw [List.isEmpty_iff.mp hempty]
      exact .done
    · next hnamed =>
      have named : base ≠ [] := fun h => hnamed (List.isEmpty_iff.mpr h)
      split
      · next hseen => exact .circle named (List.contains_iff_mem.mp hseen)
      · next hnew =>
        have new : base ∉ seen := fun h => hnew (List.contains_iff_mem.mpr h)
        refine .step named new ?_
        split
        · next c hc =>
          have hbase : p.baseOf base = c.base := by rw [baseOf, hc]; rfl
          have hfound : base ∈ p.classes.names :=
            List.mem_map.mpr ⟨(base, c), mem_of_lookup hc, rfl⟩
          have hless := unseen_cons_lt new hfound
          rw [hbase]
          exact ih _ (by omega)
        · next hc =>
          have hbase : p.baseOf base = [] := by rw [baseOf, hc]; rfl
          rw [hbase]
          exact .done

/-- The walk from a class ends, with what the bounded walk finds. -/
theorem walk_iff {name base : Text} {r : Option Text} :
    p.Walk [name] base r ↔ r = p.circle? (p.classes.size + 1) [name] base := by
  have hwalk : p.Walk [name] base (p.circle? (p.classes.size + 1) [name] base) := by
    refine walk_circle? base (Nat.lt_succ_of_le ?_)
    exact Nat.le_trans (List.length_filter_le _ _) (Nat.le_of_eq (List.length_map ..))
  constructor
  · exact fun h => h.unique hwalk
  · rintro rfl
    exact hwalk

/-! Lines of bases. -/

namespace Lineage

variable {key : Text} {line : List Text}

theorem found (h : p.Lineage key line) : ∃ c, p.classes.get? key = some c := by
  cases h with
  | root found => exact ⟨_, found⟩
  | base found => exact ⟨_, found⟩

theorem head (h : p.Lineage key line) : ∃ rest, line = key :: rest := by
  cases h with
  | root => exact ⟨[], rfl⟩
  | base => exact ⟨_, rfl⟩

theorem unique {line' : List Text} (h : p.Lineage key line) (h' : p.Lineage key line') :
    line = line' := by
  induction h generalizing line' with
  | root found rootless =>
    cases h' with
    | root => rfl
    | base found' named =>
      cases found.symm.trans found'
      exact absurd rootless named
  | base found named _ ih =>
    cases h' with
    | root found' rootless =>
      cases found.symm.trans found'
      exact absurd rootless named
    | base found' _ rest =>
      cases found.symm.trans found'
      rw [ih rest]

/-- The line of a base is an end of the line. -/
theorem of_mem (h : p.Lineage key line) {other : Text} (hmem : other ∈ line) :
    ∃ rest, rest <:+ line ∧ p.Lineage other rest := by
  induction h with
  | root found rootless =>
    rw [List.mem_singleton.mp hmem]
    exact ⟨_, List.suffix_refl _, .root found rootless⟩
  | base found named hrest ih =>
    rcases List.mem_cons.mp hmem with rfl | hmem
    · exact ⟨_, List.suffix_refl _, .base found named hrest⟩
    · obtain ⟨rest, hsuffix, hother⟩ := ih hmem
      exact ⟨rest, hsuffix.trans (List.suffix_cons ..), hother⟩

/-- No class comes twice: its line would be shorter than itself. -/
theorem nodup (h : p.Lineage key line) : line.Nodup := by
  induction h with
  | root => exact List.nodup_singleton _
  | @base key c line found named hrest ih =>
    refine List.nodup_cons.mpr ⟨fun hmem => ?_, ih⟩
    obtain ⟨rest, hsuffix, hkey⟩ := hrest.of_mem hmem
    have hsame : key :: line = rest := (Lineage.base found named hrest).unique hkey
    have hlength := hsuffix.length_le
    rw [← hsame, List.length_cons] at hlength
    omega

theorem subset (h : p.Lineage key line) : line ⊆ p.classes.names := by
  intro other hmem
  obtain ⟨rest, -, hother⟩ := h.of_mem hmem
  obtain ⟨c, hc⟩ := hother.found
  exact List.mem_map.mpr ⟨(other, c), mem_of_lookup hc, rfl⟩

theorem length_le (h : p.Lineage key line) : line.length ≤ p.classes.size := by
  have hle : line.length ≤ p.classes.names.length := h.nodup.length_le_of_subset h.subset
  rwa [Table.names, List.length_map] at hle

/-- A walk along a line whose classes have not been seen comes to its end. -/
theorem walk (h : p.Lineage key line) {seen : List Text} (hkey : key ≠ [])
    (hnew : ∀ other ∈ line, other ∉ seen) : p.Walk seen key none := by
  induction h generalizing seen with
  | @root key c found rootless =>
    have hbase : p.baseOf key = [] := by rw [baseOf, found]; exact rootless
    refine .step hkey (hnew _ (List.mem_singleton_self _)) ?_
    rw [hbase]
    exact .done
  | @base key c line found named hrest ih =>
    have hbase : p.baseOf key = c.base := by rw [baseOf, found]; rfl
    refine .step hkey (hnew _ List.mem_cons_self) ?_
    rw [hbase]
    refine ih named fun other hmem hseen => ?_
    have hnodup := (Lineage.base found named hrest).nodup
    rcases List.mem_cons.mp hseen with rfl | hseen
    · exact (List.nodup_cons.mp hnodup).1 hmem
    · exact hnew other (List.mem_cons_of_mem _ hmem) hseen

end Lineage

/-- Where all bases that are named are there, a walk that ends without a circle follows a line. -/
theorem Walk.lineage (bases : ∀ key c, p.classes.get? key = some c → c.base ≠ [] →
    p.classes.contains c.base = true) {seen : List Text} {base : Text}
    (h : p.Walk seen base none) (named : base ≠ []) (there : p.classes.contains base = true) :
    ∃ line, p.Lineage base line := by
  generalize hr : (none : Option Text) = r at h
  induction h with
  | done => exact absurd rfl named
  | circle => cases hr
  | @step seen base r _ _ _ ih =>
    obtain ⟨c, hc⟩ := Option.isSome_iff_exists.mp there
    have hbase : p.baseOf base = c.base := by rw [baseOf, hc]; rfl
    by_cases hroot : c.base = []
    · exact ⟨[base], .root hc hroot⟩
    · rw [hbase] at ih
      obtain ⟨line, hline⟩ := ih hroot (bases base c hc hroot) hr
      exact ⟨base :: line, .base hc hroot hline⟩

/-! The check and the order of the entries. -/

theorem get?_of_mem {α : Type} {t : Table α} {e : Text × α} (h : e ∈ t.entries) :
    t.get? e.1 = some e.2 := by
  have hfound := Table.get?_ofList t.nodup_names h
  rwa [Table.ofList_eq_of_perm (.refl _)] at hfound

theorem findSome?_eq_none_perm {α β : Type} {f : α → Option β} {es es' : List α}
    (h : es.Perm es') : es.findSome? f = none ↔ es'.findSome? f = none := by
  rw [List.findSome?_eq_none_iff, List.findSome?_eq_none_iff]
  exact ⟨fun hall e he => hall e (h.mem_iff.mpr he), fun hall e he => hall e (h.mem_iff.mp he)⟩

/-- Which defect is found first may depend on the order, whether there is one does not. -/
theorem defectIn_eq_none (o : p.Orders) : p.defectIn o = none ↔ p.defect? = none := by
  unfold defectIn defect? functionDefect?
  simp only [Option.or_eq_none_iff]
  refine and_congr_right fun _ => and_congr (findSome?_eq_none_perm o.functions_perm) ?_
  rw [findSome?_eq_none_perm o.classes_perm, List.findSome?_eq_none_iff,
    List.findSome?_eq_none_iff]
  refine forall₂_congr fun e he => ?_
  have hget : p.classes.get? e.1 = some e.2 := get?_of_mem he
  unfold classDefect? methodDefect?
  simp only [Option.or_eq_none_iff]
  exact and_congr_right fun _ => and_congr
    (findSome?_eq_none_perm (o.methods_perm _ _ hget))
    (findSome?_eq_none_perm (o.staticMethods_perm _ _ hget))

theorem findSome?_congr {α β : Type} {f g : α → Option β} {es : List α}
    (h : ∀ e ∈ es, f e = g e) : es.findSome? f = es.findSome? g := by
  induction es with
  | nil => rfl
  | cons e es ih =>
    rw [List.findSome?_cons, List.findSome?_cons, h e List.mem_cons_self,
      ih fun d hd => h d (List.mem_cons_of_mem _ hd)]

/-- The check itself goes through the entries in the order of their names. -/
theorem defectIn_sorted (p : Program) : p.defectIn (.sorted p) = p.defect? := by
  unfold defectIn defect? functionDefect?
  dsimp only
  congr 2
  refine findSome?_congr fun e he => ?_
  have hget : p.classes.get? e.1 = some e.2 := get?_of_mem he
  have hmethods : (Orders.sorted p).methods e.1 = e.2.methods.entries := by
    simp only [Orders.sorted, hget, Option.map_some, Option.getD_some]
  have hstatics : (Orders.sorted p).staticMethods e.1 = e.2.staticMethods.entries := by
    simp only [Orders.sorted, hget, Option.map_some, Option.getD_some]
  rw [hmethods, hstatics]
  rfl

theorem isValid_iff : p.isValid = true ↔ p.defect? = none := Option.isNone_iff_eq_none

/-! What the check accepts. -/

theorem methodDefect?_eq_none_iff {name : Text} {methods : Table Text} :
    p.methodDefect? name methods = none ↔
      ∀ e ∈ methods.entries, p.functions.contains e.2 = true := by
  unfold methodDefect?
  rw [List.findSome?_eq_none_iff]
  refine forall₂_congr fun e _ => ?_
  cases p.functions.contains e.2 <;> simp

theorem baseDefect?_eq_none_iff {name : Text} {c : ClassInfo} :
    p.baseDefect? name c = none ↔
      (c.base ≠ [] → p.classes.contains c.base = true ∧ p.Walk [name] c.base none) := by
  unfold baseDefect?
  split
  · next hempty => exact ⟨fun _ named => absurd (List.isEmpty_iff.mp hempty) named, fun _ => rfl⟩
  · next hnamed =>
    have named : c.base ≠ [] := fun h => hnamed (List.isEmpty_iff.mpr h)
    split
    · next hmissing =>
      refine ⟨nofun, fun h => ?_⟩
      rw [(h named).1] at hmissing
      cases hmissing
    · next hthere =>
      have there : p.classes.contains c.base = true := by simpa using hthere
      rw [Option.map_eq_none_iff, walk_iff]
      exact ⟨fun h _ => ⟨there, h.symm⟩, fun h => (h named).2.symm⟩

theorem classes_sound_iff :
    (p.classes.entries.findSome? fun e => p.classDefect? e.1 e.2) = none ↔
      ∀ key c, p.classes.get? key = some c → p.baseDefect? key c = none ∧
        p.methodDefect? key c.methods = none ∧ p.methodDefect? key c.staticMethods = none := by
  rw [List.findSome?_eq_none_iff]
  unfold classDefect?
  simp only [Option.or_eq_none_iff]
  exact ⟨fun h key c hget => h _ (mem_of_lookup hget), fun h e he => h _ _ (get?_of_mem he)⟩

/-- A class whose base is there and whose walk does not come around heads a line of bases. -/
theorem lineage_of_baseDefect? (h : ∀ key c, p.classes.get? key = some c →
    p.baseDefect? key c = none) {key : Text} {c : ClassInfo} (found : p.classes.get? key = some c) :
    ∃ line, p.Lineage key line := by
  have bases (key : Text) (c : ClassInfo) (found : p.classes.get? key = some c)
      (named : c.base ≠ []) : p.classes.contains c.base = true :=
    (baseDefect?_eq_none_iff.mp (h key c found) named).1
  by_cases rootless : c.base = []
  · exact ⟨[key], .root found rootless⟩
  · obtain ⟨there, hwalk⟩ := baseDefect?_eq_none_iff.mp (h key c found) rootless
    obtain ⟨line, hline⟩ := hwalk.lineage bases rootless there
    exact ⟨key :: line, .base found rootless hline⟩

/-- The walk from a class with a line of bases does not come around. -/
theorem Lineage.walk_base {key : Text} {line : List Text} (h : p.Lineage key line) {c : ClassInfo}
    (found : p.classes.get? key = some c) (named : c.base ≠ []) : p.Walk [key] c.base none := by
  have hnodup := h.nodup
  cases h with
  | root found' rootless =>
    cases found.symm.trans found'
    exact absurd rootless named
  | base found' _ rest =>
    cases found.symm.trans found'
    refine rest.walk named fun other hmem hseen => ?_
    rw [List.mem_singleton.mp hseen] at hmem
    exact (List.nodup_cons.mp hnodup).1 hmem

theorem classes_sound_iff_grounded :
    (p.classes.entries.findSome? fun e => p.classDefect? e.1 e.2) = none ↔ p.Grounded := by
  rw [classes_sound_iff]
  constructor
  · intro h
    constructor
    case bases =>
      exact fun key c found named => (baseDefect?_eq_none_iff.mp (h key c found).1 named).1
    case lines =>
      exact fun key c found => lineage_of_baseDefect? (fun key c found => (h key c found).1) found
    case methods => exact fun key c found => methodDefect?_eq_none_iff.mp (h key c found).2.1
    case staticMethods => exact fun key c found => methodDefect?_eq_none_iff.mp (h key c found).2.2
  · intro h key c found
    obtain ⟨line, hline⟩ := h.lines key c found
    refine ⟨baseDefect?_eq_none_iff.mpr fun named => ?_, ?_, ?_⟩
    · exact ⟨h.bases key c found named, hline.walk_base found named⟩
    · exact methodDefect?_eq_none_iff.mpr (h.methods key c found)
    · exact methodDefect?_eq_none_iff.mpr (h.staticMethods key c found)

theorem grounded_of_isValid (h : p.isValid = true) : p.Grounded := by
  have hdefect := isValid_iff.mp h
  unfold defect? at hdefect
  simp only [Option.or_eq_none_iff] at hdefect
  exact classes_sound_iff_grounded.mp hdefect.2.2

/-! Looking along a line of bases. -/

theorem base?_of_root {key : Text} {c : ClassInfo} (found : p.classes.get? key = some c)
    (rootless : c.base = []) : p.base? key = none := by simp [base?, found, rootless]

theorem base?_of_named {key : Text} {c : ClassInfo} (found : p.classes.get? key = some c)
    (named : c.base ≠ []) : p.base? key = some c.base := by simp [base?, found, named]

theorem findMemberFrom_succ {key name : Text} {c : ClassInfo} {n : Nat}
    (found : p.classes.get? key = some c) : p.findMemberFrom name (n + 1) key =
      match declared? c name with
      | some m => some (key, m)
      | none => if c.base.isEmpty then none else p.findMemberFrom name n c.base := by
  cases hdeclared : declared? c name with
  | none => simp only [findMemberFrom, found, hdeclared]
  | some m => simp only [findMemberFrom, found, hdeclared]

theorem Lookup.unique {name : Text} {key : Option Text} {r r' : Option (Text × Member)}
    (h : p.Lookup name key r) (h' : p.Lookup name key r') : r = r' := by
  induction h with
  | nowhere =>
    cases h'
    rfl
  | here found declares =>
    cases h' with
    | here found' declares' =>
      cases found.symm.trans found'
      cases declares.symm.trans declares'
      rfl
    | up found' silent =>
      cases found.symm.trans found'
      cases declares.symm.trans silent
  | up found silent _ ih =>
    cases h' with
    | here found' declares =>
      cases found.symm.trans found'
      cases declares.symm.trans silent
    | up _ _ rest => exact ih rest

theorem Climb.unique {other : Text} {key : Option Text} {r r' : Bool}
    (h : p.Climb other key r) (h' : p.Climb other key r') : r = r' := by
  induction h with
  | nowhere =>
    cases h'
    rfl
  | here =>
    cases h' with
    | here => rfl
    | up differs => exact absurd rfl differs
  | up differs _ ih =>
    cases h' with
    | here => exact absurd rfl differs
    | up _ rest => exact ih rest

namespace Lineage

variable {key : Text} {line : List Text}

/-- As many classes as the line has are enough to look for a member. -/
theorem lookup_from (h : p.Lineage key line) (name : Text) {n : Nat} (hn : line.length ≤ n) :
    p.Lookup name (some key) (p.findMemberFrom name n key) := by
  induction h generalizing n with
  | @root key c found rootless =>
    obtain - | n := n
    · exact absurd hn (Nat.not_succ_le_zero _)
    rw [findMemberFrom_succ found]
    cases hdeclared : declared? c name with
    | some m => exact .here found hdeclared
    | none =>
      refine .up found hdeclared ?_
      rw [base?_of_root found rootless]
      simp only [rootless, List.isEmpty_nil, if_true]
      exact .nowhere
  | @base key c line found named _ ih =>
    obtain - | n := n
    · exact absurd hn (Nat.not_succ_le_zero _)
    have hrest : line.length ≤ n := Nat.le_of_succ_le_succ hn
    rw [findMemberFrom_succ found]
    cases hdeclared : declared? c name with
    | some m => exact .here found hdeclared
    | none =>
      refine .up found hdeclared ?_
      rw [base?_of_named found named]
      dsimp only
      rw [if_neg fun h => named (List.isEmpty_iff.mp h)]
      exact ih hrest

/-- The classes above a class are those of its line. -/
theorem isSubclassFrom_iff (h : p.Lineage key line) (other : Text) {n : Nat}
    (hn : line.length ≤ n) : p.isSubclassFrom other n key = true ↔ other ∈ line := by
  induction h generalizing n with
  | @root key c found rootless =>
    obtain - | n := n
    · exact absurd hn (Nat.not_succ_le_zero _)
    rw [isSubclassFrom, found]
    simp [rootless, eq_comm]
  | @base key c line found named _ ih =>
    obtain - | n := n
    · exact absurd hn (Nat.not_succ_le_zero _)
    have hrest := ih (n := n) (by simp only [List.length_cons] at hn; omega)
    rw [isSubclassFrom, found, List.mem_cons]
    dsimp only
    rw [if_neg fun h => named (List.isEmpty_iff.mp h)]
    by_cases hsame : key = other
    · rw [if_pos hsame]
      exact iff_of_true rfl (.inl hsame.symm)
    · rw [if_neg hsame, hrest]
      exact ⟨.inr, fun h => h.resolve_left fun h => hsame h.symm⟩

theorem climb (h : p.Lineage key line) (other : Text) :
    p.Climb other (some key) (decide (other ∈ line)) := by
  induction h with
  | @root key c found rootless =>
    by_cases hsame : key = other
    · subst hsame
      simp only [List.mem_singleton, decide_true]
      exact .here
    · refine .up hsame ?_
      rw [base?_of_root found rootless]
      have hout : other ∉ [key] := fun h => hsame (List.mem_singleton.mp h).symm
      rw [decide_eq_false hout]
      exact .nowhere
  | @base key c line found named _ ih =>
    by_cases hsame : key = other
    · subst hsame
      simp only [List.mem_cons_self, decide_true]
      exact .here
    · refine .up hsame ?_
      have hrest : other ∈ key :: line ↔ other ∈ line :=
        List.mem_cons.trans (or_iff_right fun h => hsame h.symm)
      rw [base?_of_named found named, decide_eq_decide.mpr hrest]
      exact ih

/-- Two classes in each other's lines are one: the lines are ends of each other. -/
theorem eq_of_mem_of_mem {other : Text} {line' : List Text} (h : p.Lineage key line)
    (h' : p.Lineage other line') (hother : other ∈ line) (hkey : key ∈ line') : key = other := by
  obtain ⟨rest, hsuffix, hrest⟩ := h.of_mem hother
  obtain ⟨rest', hsuffix', hrest'⟩ := h'.of_mem hkey
  cases hrest.unique h'
  cases hrest'.unique h
  have hsame : line = line' :=
    hsuffix'.eq_of_length (Nat.le_antisymm hsuffix'.length_le hsuffix.length_le)
  obtain ⟨tail, rfl⟩ := h.head
  obtain ⟨tail', rfl⟩ := h'.head
  exact (List.cons.inj hsame).1

end Lineage

namespace Grounded

variable {key other : Text}

theorem lineage (h : p.Grounded) (there : p.classes.contains key = true) :
    ∃ line, p.Lineage key line := by
  obtain ⟨c, found⟩ := Option.isSome_iff_exists.mp there
  exact h.lines key c found

theorem lookup_iff (h : p.Grounded) (there : p.classes.contains key = true) (name : Text)
    (r : Option (Text × Member)) : p.Lookup name (some key) r ↔ r = p.findMember? key name := by
  obtain ⟨line, hline⟩ := h.lineage there
  have hlookup : p.Lookup name (some key) (p.findMember? key name) :=
    hline.lookup_from name hline.length_le
  constructor
  · exact fun h => h.unique hlookup
  · rintro rfl
    exact hlookup

theorem isSubclass_iff {line : List Text} (hline : p.Lineage key line) :
    p.isSubclass key other = true ↔ other ∈ line :=
  hline.isSubclassFrom_iff other hline.length_le

theorem climb_iff (h : p.Grounded) (there : p.classes.contains key = true) (r : Bool) :
    p.Climb other (some key) r ↔ r = p.isSubclass key other := by
  obtain ⟨line, hline⟩ := h.lineage there
  have hclimb : p.Climb other (some key) (p.isSubclass key other) := by
    have hends := hline.climb other
    have hsame : decide (other ∈ line) = p.isSubclass key other := by
      rw [Bool.eq_iff_iff, decide_eq_true_iff, isSubclass_iff hline]
    rwa [hsame] at hends
  constructor
  · exact fun h => h.unique hclimb
  · rintro rfl
    exact hclimb

theorem isSubclass_refl (h : p.Grounded) (there : p.classes.contains key = true) :
    p.isSubclass key key = true := by
  obtain ⟨line, hline⟩ := h.lineage there
  obtain ⟨rest, rfl⟩ := hline.head
  exact (isSubclass_iff hline).mpr List.mem_cons_self

theorem isSubclass_trans (h : p.Grounded) {third : Text}
    (there : p.classes.contains key = true) (hbase : p.isSubclass key other = true)
    (hbase' : p.isSubclass other third = true) : p.isSubclass key third = true := by
  obtain ⟨line, hline⟩ := h.lineage there
  obtain ⟨rest, hsuffix, hother⟩ := hline.of_mem ((isSubclass_iff hline).mp hbase)
  exact (isSubclass_iff hline).mpr (hsuffix.subset ((isSubclass_iff hother).mp hbase'))

theorem isSubclass_antisymm (h : p.Grounded) (there : p.classes.contains key = true)
    (there' : p.classes.contains other = true) (hbase : p.isSubclass key other = true)
    (hbase' : p.isSubclass other key = true) : key = other := by
  obtain ⟨line, hline⟩ := h.lineage there
  obtain ⟨line', hline'⟩ := h.lineage there'
  exact hline.eq_of_mem_of_mem hline' ((isSubclass_iff hline).mp hbase)
    ((isSubclass_iff hline').mp hbase')

end Grounded

/-- The check on class tables ends whatever names they hold, does not depend on the order in which
entries come up, and accepts the tables that are grounded. In those, looking for members and for
base classes ends, and inheritance is a partial order. -/
theorem class_tables_decided (p : Program) :
    (∀ name base r, p.Walk [name] base r ↔ r = p.circle? (p.classes.size + 1) [name] base) ∧
    p.defectIn (.sorted p) = p.defect? ∧
    (∀ o : p.Orders, p.defectIn o = none ↔ p.isValid = true) ∧
    (p.codeDefect? = none → p.functionDefect? = none → (p.isValid = true ↔ p.Grounded)) ∧
    (p.isValid = true → ∀ key, p.classes.contains key = true →
      (∀ name r, p.Lookup name (some key) r ↔ r = p.findMember? key name) ∧
      (∀ other r, p.Climb other (some key) r ↔ r = p.isSubclass key other) ∧
      p.isSubclass key key = true ∧
      (∀ other third, p.isSubclass key other = true → p.isSubclass other third = true →
        p.isSubclass key third = true) ∧
      ∀ other, p.classes.contains other = true → p.isSubclass key other = true →
        p.isSubclass other key = true → key = other) := by
  refine ⟨fun name base r => walk_iff, defectIn_sorted p, fun o => ?_, fun hcode hfunctions => ?_,
    fun hvalid key there => ?_⟩
  · exact (defectIn_eq_none o).trans isValid_iff.symm
  · rw [isValid_iff, ← classes_sound_iff_grounded, defect?, hcode, hfunctions]
    rfl
  · have h := grounded_of_isValid hvalid
    exact ⟨h.lookup_iff there, fun other => h.climb_iff there, h.isSubclass_refl there,
      fun other third => h.isSubclass_trans there, fun other => h.isSubclass_antisymm there⟩

/-- A circle, which is a shape, which is a thing, which may be something in its turn. -/
def shapes (base : String) : Program where
  classes := .ofList [
    (Text.ofString "Circle", { base := Text.ofString "Shape" }),
    (Text.ofString "Shape", { base := Text.ofString "Thing" }),
    (Text.ofString "Thing", { base := Text.ofString base })]

example : (shapes "").isValid = true ∧
    (shapes "").isSubclass (Text.ofString "Circle") (Text.ofString "Thing") = true := by decide

-- The names come around without passing the class that the walk starts from.
example : (shapes "Shape").defect? =
    some (.baseCircle (Text.ofString "Circle") (Text.ofString "Shape")) := by decide

end Program

end BytecodeMachine
