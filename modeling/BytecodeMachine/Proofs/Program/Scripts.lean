import BytecodeMachine.Program.Builder
import BytecodeMachine.Proofs.Program.Tables
import Mathlib.Algebra.Group.Nat.Defs

/-! Scripts of calls on a builder, and the program that a script stands for: a label stands for the
number of instructions emitted before it is bound. Filling the slots that labels go into can be
begun, broken off and done again. -/
namespace BytecodeMachine

/-- The number of an operand that a slot names. -/
def Slot.of : Slot → Operand → Int64
  | .first, o => o.int
  | .second, o => o.int2

namespace Builder

/-- A call on a builder. Instructions without labels are emitted with their operand. -/
inductive Call where
  | locate (line col : Int64)
  | emit (op : UInt8) (operand : Operand)
  | label (name : Text)
  | jump (op : UInt8) (target : Text)
  | leave (target : Text) (scopes : Int64)
  | tryPush (catchLabel finallyLabel : Text)
  | function (name : Text) (params : List Text)
  | declareClass (c : ClassInfo)
  | declareEnum (name : Text) (members : Option (List Text))
  | build

namespace Call

def perform (b : Builder) : Call → Builder
  | .locate line col => b.locate line col
  | .emit op operand => b.emit op operand
  | .label name => b.label name
  | .jump op l => b.jump op l
  | .leave l scopes => b.leave l scopes
  | .tryPush catchLabel finallyLabel => b.tryPush catchLabel finallyLabel
  | .function name params => b.function name params
  | .declareClass c => b.declareClass c
  | .declareEnum name members => b.declareEnum name members
  | .build => b.build.2

/-- The opcode and the operand of the instruction that a call emits, labels left out. -/
def emitted? : Call → Option (UInt8 × Operand)
  | .emit op operand => some (op, operand)
  | .jump op _ => some (op, {})
  | .leave _ scopes => some (Opcode.leave.code, { int2 := scopes })
  | .tryPush _ _ => some (Opcode.tryPush.code, { int := -1, int2 := -1 })
  | _ => none

/-- The label whose address goes into a slot. An empty label of a handler refers to nothing. -/
def label? : Call → Slot → Option Text
  | .jump _ l, .first => some l
  | .leave l _, .first => some l
  | .tryPush catchLabel _, .first => if catchLabel.isEmpty then none else some catchLabel
  | .tryPush _ finallyLabel, .second => if finallyLabel.isEmpty then none else some finallyLabel
  | _, _ => none

/-- The label that a call binds; the name of a function is one. -/
def bound? : Call → Option Text
  | .label name => some name
  | .function name _ => some name
  | _ => none

def isBuild : Call → Bool
  | .build => true
  | _ => false

/-- The place in the source after a call. -/
def place (here : Int64 × Int64) : Call → Int64 × Int64
  | .locate line col => (line, col)
  | _ => here

/-- The slots that are to be filled in the instruction that a call emits at an address. -/
def fixups (at_ : Nat) (c : Call) : List Fixup :=
  [Slot.first, Slot.second].filterMap fun slot => (c.label? slot).map fun l => ⟨at_, l, slot⟩

end Call

/-- Calls in the order in which they are made. -/
abbrev Script := List Call

namespace Script

/-- The builder after a script. -/
def run (file : Text) (cs : Script) : Builder := cs.foldl Call.perform (new file)

/-- How many instructions a script emits. -/
def size (cs : Script) : Nat := (cs.filterMap Call.emitted?).length

/-- The labels that a script binds, in order and with repetitions. -/
def names (cs : Script) : List Text := cs.filterMap Call.bound?

/-- The place in the source that a script has come to. -/
def position (cs : Script) : Int64 × Int64 := cs.foldl Call.place (0, 0)

/-- Some call of a script refers to a label. -/
def Refers (cs : Script) (l : Text) : Prop := ∃ c ∈ cs, ∃ slot, c.label? slot = some l

/-- A label is bound by a call before which `n` instructions are emitted. -/
def Binds (cs : Script) (l : Text) (n : Nat) : Prop :=
  ∃ before c after, cs = before ++ c :: after ∧ c.bound? = some l ∧ n = size before

/-- The script without attempts to build. -/
def plain (cs : Script) : Script := cs.filter fun c => !c.isBuild

end Script

/-- A program is what a script says. Each instruction is the one emitted, with the place of the call
before which it was emitted, but for the numbers that labels go into. -/
structure Resolves (file : Text) (cs : Script) (p : Program) : Prop where
  ofFile : p.file = file
  size : p.code.size = cs.size
  instruction : ∀ before c after op operand, cs = before ++ c :: after →
    c.emitted? = some (op, operand) →
    ∃ ins, p.code[Script.size before]? = some ins ∧
      ins = { op := op
              operand := { operand with int := ins.operand.int, int2 := ins.operand.int2 }
              line := (Script.position before).1
              col := (Script.position before).2
              file := file } ∧
      ∀ slot, match c.label? slot with
        | none => slot.of ins.operand = slot.of operand
        | some l => ∃ n ≤ p.code.size, cs.Binds l n ∧ slot.of ins.operand = Int64.ofNat n ∧
          (p.code.size < 2 ^ 63 → (slot.of ins.operand).toInt = n)
  function : ∀ before name params after, cs = before ++ .function name params :: after →
    p.functions.get? name = some ⟨name, Int64.ofNat (Script.size before), params⟩

/-! Filling slots. -/

section Filling

variable (address : Text → Int64)

/-- An instruction with the addresses of labels put in. -/
def fill (fs : List Fixup) (ins : Instruction) : Instruction :=
  fs.foldl (fun ins f => Slot.put f.slot (address f.label) ins) ins

/-- A code with the addresses of labels put in. -/
def patch (fs : List Fixup) (code : Array Instruction) : Array Instruction :=
  fs.foldl (fun code f => code.modify f.at_ (Slot.put f.slot (address f.label))) code

variable {address} {fs : List Fixup} {code : Array Instruction}

theorem size_patch : (patch address fs code).size = code.size := by
  induction fs generalizing code with
  | nil => rfl
  | cons f fs ih => exact ih.trans (Array.size_modify ..)

theorem getElem?_patch (i : Nat) :
    (patch address fs code)[i]? = code[i]?.map (fill address (fs.filter (·.at_ = i))) := by
  induction fs generalizing code with
  | nil => exact Option.map_id'.symm
  | cons f fs ih =>
    have hstep : patch address (f :: fs) code =
        patch address fs (code.modify f.at_ (Slot.put f.slot (address f.label))) := rfl
    rw [hstep, ih, Array.getElem?_modify, List.filter_cons]
    by_cases hf : f.at_ = i
    · rw [if_pos hf, if_pos (by simpa using hf), Option.map_map]
      rfl
    · rw [if_neg hf, if_neg (by simpa using hf)]

/-- Slots of later instructions are filled by nobody. -/
theorem patch_push (hfs : ∀ f ∈ fs, f.at_ < code.size) (ins : Instruction) :
    patch address fs (code.push ins) = (patch address fs code).push ins := by
  refine Array.ext_getElem? fun i => ?_
  rw [getElem?_patch, Array.getElem?_push, Array.getElem?_push, size_patch, getElem?_patch]
  split
  · next hi =>
    have hnone : fs.filter (·.at_ = i) = [] := by
      refine List.filter_eq_nil_iff.mpr fun f hf hat => ?_
      have hlt := hfs f hf
      have heq : f.at_ = i := by simpa using hat
      omega
    rw [hnone]
    rfl
  · rfl

theorem mem_fixups {c : Call} {at_ : Nat} {f : Fixup} :
    f ∈ c.fixups at_ ↔ f.at_ = at_ ∧ c.label? f.slot = some f.label := by
  unfold Call.fixups
  rw [List.mem_filterMap]
  constructor
  · rintro ⟨slot, -, hslot⟩
    obtain ⟨l, hl, rfl⟩ := Option.map_eq_some_iff.mp hslot
    exact ⟨rfl, hl⟩
  · rintro ⟨rfl, hlabel⟩
    refine ⟨f.slot, by cases f.slot <;> simp, ?_⟩
    rw [hlabel]
    rfl

theorem patch_append (gs : List Fixup) :
    patch address (fs ++ gs) code = patch address gs (patch address fs code) := List.foldl_append

theorem put_put_self (slot : Slot) (a b : Int64) (ins : Instruction) :
    Slot.put slot b (Slot.put slot a ins) = Slot.put slot b ins := by
  cases slot <;> rfl

theorem put_put_comm {s t : Slot} (h : s ≠ t) (a b : Int64) (ins : Instruction) :
    Slot.put t b (Slot.put s a ins) = Slot.put s a (Slot.put t b ins) := by
  cases s <;> cases t <;> first | rfl | exact absurd rfl h

/-- What was in a slot before does not matter where it is filled. -/
theorem fill_put {s : Slot} (h : ∃ f ∈ fs, f.slot = s) (a : Int64) (ins : Instruction) :
    fill address fs (Slot.put s a ins) = fill address fs ins := by
  have hcons (f : Fixup) (fs : List Fixup) (ins : Instruction) :
      fill address (f :: fs) ins = fill address fs (Slot.put f.slot (address f.label) ins) := rfl
  induction fs generalizing ins with
  | nil => simp at h
  | cons f fs ih =>
    rw [hcons, hcons]
    by_cases hf : f.slot = s
    · rw [hf, put_put_self]
    · obtain ⟨g, hg, hslot⟩ := h
      have hlater : ∃ g ∈ fs, g.slot = s := by
        rcases List.mem_cons.mp hg with rfl | hg
        · exact absurd hslot hf
        · exact ⟨g, hg, hslot⟩
      rw [put_put_comm (Ne.symm hf)]
      exact ih hlater _

theorem patch_modify {f : Fixup} (hf : f ∈ fs) (a : Int64) :
    patch address fs (code.modify f.at_ (Slot.put f.slot a)) = patch address fs code := by
  refine Array.ext_getElem? fun i => ?_
  rw [getElem?_patch, getElem?_patch, Array.getElem?_modify]
  split
  · next hat =>
    have hslot : ∃ g ∈ fs.filter (·.at_ = i), g.slot = f.slot :=
      ⟨f, List.mem_filter.mpr ⟨hf, by simpa using hat⟩, rfl⟩
    rw [Option.map_map]
    exact Option.map_congr fun ins _ => fill_put hslot a ins
  · rfl

/-- An attempt to build, successful or not, fills no slot that will not be filled again. -/
theorem patch_resolve (labels : List (Text × Nat)) {gs : List Fixup} (hgs : gs ⊆ fs) :
    patch address fs (resolve labels gs code).1 = patch address fs code := by
  induction gs generalizing code with
  | nil => rfl
  | cons g gs ih =>
    have hg : g ∈ fs := hgs (List.mem_cons_self ..)
    have hrest : gs ⊆ fs := fun f hf => hgs (List.mem_cons_of_mem g hf)
    rw [resolve]
    split
    · rfl
    · exact (ih hrest).trans (patch_modify hg _)

theorem size_resolve (labels : List (Text × Nat)) (gs : List Fixup) :
    (resolve labels gs code).1.size = code.size := by
  induction gs generalizing code with
  | nil => rfl
  | cons g gs ih =>
    rw [resolve]
    split
    · rfl
    · exact ih.trans (Array.size_modify ..)

/-- The address that a list of bound labels gives for a name. -/
def addressIn (labels : List (Text × Nat)) (l : Text) : Int64 :=
  Int64.ofNat ((labels.lookup l).getD 0)

theorem resolve_eq_none_iff (labels : List (Text × Nat)) (gs : List Fixup) :
    (resolve labels gs code).2 = none ↔ ∀ g ∈ gs, (labels.lookup g.label).isSome := by
  induction gs generalizing code with
  | nil => exact ⟨fun _ g hg => absurd hg List.not_mem_nil, fun _ => rfl⟩
  | cons g gs ih =>
    rw [resolve, List.forall_mem_cons]
    cases hg : labels.lookup g.label with
    | none => simp
    | some n => simpa using ih

theorem resolve_eq_patch (labels : List (Text × Nat)) {gs : List Fixup}
    (h : ∀ g ∈ gs, (labels.lookup g.label).isSome) :
    (resolve labels gs code).1 = patch (addressIn labels) gs code := by
  induction gs generalizing code with
  | nil => rfl
  | cons g gs ih =>
    obtain ⟨hg, hrest⟩ := List.forall_mem_cons.mp h
    obtain ⟨n, hn⟩ := Option.isSome_iff_exists.mp hg
    have haddress : addressIn labels g.label = Int64.ofNat n := by rw [addressIn, hn]; rfl
    rw [resolve, hn]
    dsimp only
    rw [ih hrest, ← haddress]
    rfl

/-- The numbers of an instruction after its call's slots were filled, and that nothing else of it
has changed. -/
theorem fill_fixups (c : Call) (at_ : Nat) (ins : Instruction) :
    fill address (c.fixups at_) ins =
        { ins with operand :=
            { ins.operand with
              int := (fill address (c.fixups at_) ins).operand.int
              int2 := (fill address (c.fixups at_) ins).operand.int2 } } ∧
      ∀ slot, slot.of (fill address (c.fixups at_) ins).operand =
        ((c.label? slot).map address).getD (slot.of ins.operand) := by
  cases h₁ : c.label? .first <;> cases h₂ : c.label? .second <;>
    refine ⟨?_, fun slot => ?_⟩ <;> try cases slot
  all_goals simp [fill, Call.fixups, Slot.put, Slot.of, h₁, h₂]

end Filling

/-! What a call does to a builder, by what kind of call it is. -/

section Calls

variable {c : Call} {b : Builder}

theorem perform_of_emitted {op : UInt8} {operand : Operand} (h : c.emitted? = some (op, operand)) :
    c.perform b = { b.emit op operand with fixups := b.fixups ++ c.fixups b.size } := by
  cases c
  case emit => cases h; simp [Call.perform, Call.fixups, Call.label?, emit]
  case jump => cases h; rfl
  case leave => cases h; rfl
  case tryPush catchLabel finallyLabel =>
    cases h
    cases catchLabel <;> cases finallyLabel <;>
      simp [Call.perform, tryPush, Call.fixups, Call.label?, refer, emit]
  all_goals cases h

theorem perform_label (name : Text) :
    (Call.label name).perform b =
      { b with
        labels := (name, b.size) :: b.labels
        error := if (b.labels.lookup name).isSome then b.error.or (some (.labelTwice name))
          else b.error } := by
  simp only [Call.perform, label]
  split <;> rfl

theorem perform_function (name : Text) (params : List Text) :
    (Call.function name params).perform b =
      { b with
        program := { b.program with
          functions := b.program.functions.insert name ⟨name, Int64.ofNat b.size, params⟩ }
        labels := (name, b.size) :: b.labels
        error :=
          let error := if b.program.functions.contains name then
            b.error.or (some (.functionTwice name)) else b.error
          if (b.labels.lookup name).isSome then error.or (some (.labelTwice name))
          else error } := by
  by_cases hfunction : b.program.functions.contains name <;>
    by_cases hlabel : (b.labels.lookup name).isSome <;>
    simp [Call.perform, function, label, fail, size, Program.code, hfunction, hlabel]

theorem build_snd :
    b.build.2 =
      { b with program := { b.program with
          code? := if b.error = none then
            b.program.code?.map fun _ => (resolve b.labels b.fixups b.program.code).1
            else b.program.code? } } := by
  unfold build
  split
  · next e h => rw [if_neg (by simp [h])]
  · next h => rw [if_pos h]

/-- The code after an attempt to build. A code that is not there has no slots. -/
theorem build_code :
    b.build.2.program.code = if b.error = none then
      (resolve b.labels b.fixups b.program.code).1 else b.program.code := by
  rw [build_snd]
  unfold Program.code
  cases b.program.code? with
  | some code => split <;> rfl
  | none =>
    split
    · exact (Array.size_eq_zero_iff.mp (@size_resolve #[] b.labels b.fixups)).symm
    · rfl

end Calls

end Builder

end BytecodeMachine
