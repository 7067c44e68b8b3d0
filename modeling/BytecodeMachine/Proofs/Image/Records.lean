import BytecodeMachine.Image.Basic
import BytecodeMachine.Proofs.Image.Items
import BytecodeMachine.Proofs.Program.Tables

/-!
Programs from the data items they are written as. A field that is left out counts as zero or empty,
which is why it was left out; tables come in another order and are the same.
-/
namespace BytecodeMachine

section Storable

/-- A text that an image gives back: valid, and of a length that eight bytes can say. -/
structure Text.Storable (t : Text) : Prop where
  valid : t.isValid = true
  fits : t.length < twoTo 64

instance : DecidablePred Text.Storable := fun t =>
  decidable_of_iff (t.isValid = true ∧ t.length < twoTo 64)
    ⟨fun h => ⟨h.1, h.2⟩, fun h => ⟨h.valid, h.fits⟩⟩

/-- A list of texts that an image gives back. -/
structure Text.AllStorable (l : List Text) : Prop where
  size : l.length ≤ Item.sizeLimit
  all : ∀ t ∈ l, t.Storable

instance : DecidablePred Text.AllStorable := fun l =>
  decidable_of_iff (l.length ≤ Item.sizeLimit ∧ ∀ t ∈ l, t.Storable)
    ⟨fun h => ⟨h.1, h.2⟩, fun h => ⟨h.size, h.all⟩⟩

/-- A constant that an image gives back; minus zero would be left out as a zero. -/
structure Literal.Storable (l : Literal) : Prop where
  text : l.str.Storable
  zero : l.float.isZero = true → l.float = ⟨0⟩

instance : DecidablePred Literal.Storable := fun l =>
  decidable_of_iff (l.str.Storable ∧ (l.float.isZero = true → l.float = ⟨0⟩))
    ⟨fun h => ⟨h.1, h.2⟩, fun h => ⟨h.text, h.zero⟩⟩

structure Operand.Storable (o : Operand) : Prop where
  name : o.name.Storable
  member : o.member.Storable
  lit : ∀ l ∈ o.lit, l.Storable

instance : DecidablePred Operand.Storable := fun o =>
  decidable_of_iff (o.name.Storable ∧ o.member.Storable ∧ ∀ l ∈ o.lit, l.Storable)
    ⟨fun h => ⟨h.1, h.2.1, h.2.2⟩, fun h => ⟨h.name, h.member, h.lit⟩⟩

structure Instruction.Storable (i : Instruction) : Prop where
  operand : i.operand.Storable
  file : i.file.Storable

instance : DecidablePred Instruction.Storable := fun i =>
  decidable_of_iff (i.operand.Storable ∧ i.file.Storable)
    ⟨fun h => ⟨h.1, h.2⟩, fun h => ⟨h.operand, h.file⟩⟩

structure Function.Storable (f : Function) : Prop where
  name : f.name.Storable
  params : Text.AllStorable f.params

instance : DecidablePred Function.Storable := fun f =>
  decidable_of_iff (f.name.Storable ∧ Text.AllStorable f.params)
    ⟨fun h => ⟨h.1, h.2⟩, fun h => ⟨h.name, h.params⟩⟩

/-- A table whose names and entries an image gives back. -/
structure Table.Storable {α : Type} (P : α → Prop) (t : Table α) : Prop where
  size : t.size ≤ Item.sizeLimit
  names : ∀ e ∈ t.entries, e.1.Storable
  all : ∀ e ∈ t.entries, P e.2

instance {α : Type} {P : α → Prop} [DecidablePred P] : DecidablePred (Table.Storable P) := fun t =>
  decidable_of_iff (t.size ≤ Item.sizeLimit ∧ (∀ e ∈ t.entries, e.1.Storable) ∧
      ∀ e ∈ t.entries, P e.2)
    ⟨fun h => ⟨h.1, h.2.1, h.2.2⟩, fun h => ⟨h.size, h.names, h.all⟩⟩

structure ClassInfo.Storable (c : ClassInfo) : Prop where
  name : c.name.Storable
  base : c.base.Storable
  fields : Text.AllStorable c.fields
  statics : Text.AllStorable c.statics
  methods : c.methods.Storable Text.Storable
  staticMethods : c.staticMethods.Storable Text.Storable

instance : DecidablePred ClassInfo.Storable := fun c =>
  decidable_of_iff (c.name.Storable ∧ c.base.Storable ∧ Text.AllStorable c.fields ∧
      Text.AllStorable c.statics ∧ c.methods.Storable Text.Storable ∧
      c.staticMethods.Storable Text.Storable)
    ⟨fun h => ⟨h.1, h.2.1, h.2.2.1, h.2.2.2.1, h.2.2.2.2.1, h.2.2.2.2.2⟩,
      fun h => ⟨h.name, h.base, h.fields, h.statics, h.methods, h.staticMethods⟩⟩

/-- A program that an image gives back: its texts are valid, no list or table is longer than a reader
takes, and no constant is minus zero. -/
structure Program.Storable (p : Program) : Prop where
  file : p.file.Storable
  size : p.code.size ≤ Item.sizeLimit
  code : ∀ i ∈ p.code.toList, i.Storable
  functions : p.functions.Storable Function.Storable
  classes : p.classes.Storable ClassInfo.Storable
  enums : p.enums.Storable fun members => ∀ l ∈ members, Text.AllStorable l

instance : DecidablePred Program.Storable := fun p =>
  decidable_of_iff (p.file.Storable ∧ p.code.size ≤ Item.sizeLimit ∧
      (∀ i ∈ p.code.toList, i.Storable) ∧ p.functions.Storable Function.Storable ∧
      p.classes.Storable ClassInfo.Storable ∧
      p.enums.Storable fun members => ∀ l ∈ members, Text.AllStorable l)
    ⟨fun h => ⟨h.1, h.2.1, h.2.2.1, h.2.2.2.1, h.2.2.2.2.1, h.2.2.2.2.2⟩,
      fun h => ⟨h.file, h.size, h.code, h.functions, h.classes, h.enums⟩⟩

end Storable

namespace Image

variable {α β : Type}

section Fields

/-- The entries of a record: fields by number, each with whether it is written. -/
def record (fields : List (Bool × ℕ × Item)) : List (Item × Item) :=
  fields.flatMap fun e => fieldIf e.1 e.2.1 e.2.2

variable {fields : List (Bool × ℕ × Item)} {keep : Bool} {k : ℕ} {i : Item} {m a : α}
  {f : Item → Option α}

theorem fields?_record (fields : List (Bool × ℕ × Item)) :
    fields? (.map (record fields)) = some (record fields) := by
  have hkeys : (record fields).all (fun e => isFieldKey e.1) = true := by
    rw [List.all_eq_true]
    intro e he
    obtain ⟨d, -, he⟩ := List.mem_flatMap.1 he
    unfold fieldIf at he
    split at he
    · rw [List.mem_singleton.1 he]
      rfl
    · cases he
  rw [fields?]
  dsimp only [untag]
  rw [if_pos hkeys]

theorem get?_cons (e : Bool × ℕ × Item) (fields : List (Bool × ℕ × Item)) (k : ℕ) (m : α)
    (f : Item → Option α) : get? (record (e :: fields)) k m f =
      if e.1 = true ∧ e.2.1 = k then f e.2.2 else get? (record fields) k m f := by
  obtain ⟨keep, j, i⟩ := e
  cases keep with
  | false =>
    have hcons : record ((false, j, i) :: fields) = record fields := rfl
    rw [hcons, if_neg (by simp)]
  | true =>
    have hcons : record ((true, j, i) :: fields) = field j i :: record fields := rfl
    rw [hcons, get?]
    by_cases h : j = k
    · rw [List.find?_cons_of_pos (by simp [field, namesField, h]), if_pos ⟨rfl, h⟩]
      rfl
    · rw [List.find?_cons_of_neg (by simp [field, namesField, h]), if_neg (by simp [h])]
      rfl

theorem get?_of_notMem (h : k ∉ fields.map (·.2.1)) : get? (record fields) k m f = some m := by
  induction fields with
  | nil => rfl
  | cons e es ih =>
    rw [List.map_cons, List.mem_cons, not_or] at h
    rw [get?_cons, if_neg (fun he => h.1 he.2.symm), ih h.2]

/-- A field is read back where it is written, and is what is missing where it is not. -/
theorem get?_of_mem (distinct : (fields.map (·.2.1)).Nodup) (hmem : (keep, k, i) ∈ fields)
    (hkeep : keep = true → f i = some a) (hdrop : keep = false → m = a) :
    get? (record fields) k m f = some a := by
  induction fields with
  | nil => cases hmem
  | cons e es ih =>
    rw [List.map_cons, List.nodup_cons] at distinct
    rw [get?_cons]
    rcases List.mem_cons.1 hmem with rfl | hmem
    · cases keep with
      | true => rw [if_pos ⟨rfl, rfl⟩, hkeep rfl]
      | false => rw [if_neg (by simp), get?_of_notMem distinct.1, hdrop rfl]
    -- Numbers are distinct, so an earlier field is not taken for this one.
    · have hne : e.2.1 ≠ k := fun heq => distinct.1 (List.mem_map.2 ⟨_, hmem, heq.symm⟩)
      rw [if_neg (fun he => hne he.2), ih distinct.2 hmem]

/-- A field that is always written is read back. -/
theorem get?_always (distinct : (fields.map (·.2.1)).Nodup) (hmem : (true, k, i) ∈ fields)
    (h : f i = some a) : get? (record fields) k m f = some a :=
  get?_of_mem distinct hmem (fun _ => h) nofun

end Fields

section Leaves

theorem untag_ofInt (n : ℤ) : untag (.ofInt n) = some (.ofInt n) := by
  unfold Item.ofInt
  split <;> rfl

theorem integer?_ofInt (n : ℤ) : integer? (.ofInt n) = some n := by
  unfold Item.ofInt
  split
  · simp only [integer?, Option.some.injEq]
    omega
  · simp only [integer?, Option.some.injEq]
    omega

theorem int64?_ofInt (n : Int64) : int64? (.ofInt n.toInt) = some n := by
  have hlow := Int64.le_toInt n
  have hhigh := Int64.toInt_lt n
  have htwo : (twoTo 63 : ℤ) = 2 ^ 63 := rfl
  rw [int64?, untag_ofInt, Option.bind_some, integer?_ofInt]
  dsimp only
  rw [if_pos (by simp [htwo]; omega), Int64.ofInt_toInt]

theorem byte?_unsigned (b : UInt8) : byte? (.unsigned b.toNat) = some b := by
  have hlt : b.toNat < 256 := b.toNat_lt
  simp only [byte?, untag, Option.bind_some, integer?]
  rw [if_pos (by simp; omega)]
  simp

theorem text?_ofText {t : Text} (h : t.isValid = true) (missing : Text) :
    textOr? missing (.ofText t) = some t := by
  simp [textOr?, Item.ofText, untag, validText?, h]

end Leaves

section Lists

theorem all?_map {g : α → Item} {f : Item → Option α} {l : List α}
    (h : ∀ a ∈ l, f (g a) = some a) : all? f (l.map g) = some l := by
  induction l with
  | nil => rfl
  | cons a as ih =>
    rw [List.map_cons, all?, h a List.mem_cons_self, ih fun b hb => h b (List.mem_cons_of_mem a hb)]
    rfl

theorem optionalList?_optionalList {g : α → Item} {f : Item → Option α} {o : Option (List α)}
    (h : ∀ l ∈ o, ∀ a ∈ l, f (g a) = some a) : optionalList? f (optionalList g o) = some o := by
  cases o with
  | none => rfl
  | some l =>
    rw [optionalList, optionalList?]
    dsimp only [untag]
    rw [all?_map (h l rfl)]
    rfl

theorem list?_texts {l : List Text} (h : ∀ t ∈ l, t.isValid = true) :
    list? text? (texts l) = some l := by
  have hlist := optionalList?_optionalList (g := .ofText) (f := text?) (o := some l) (by
    intro m hm t ht
    cases hm
    exact text?_ofText (h t ht) [])
  rw [optionalList] at hlist
  rw [list?, texts, hlist]
  rfl

end Lists

section Tables

/-- A table is written in another order. -/
theorem ordered_perm (t : Table α) : (ordered t).Perm t.entries := List.mergeSort_perm _ _

theorem entries?_map {g : α → Item} {f : Item → Option α} {es : List (Text × α)}
    (hname : ∀ e ∈ es, e.1.isValid = true) (hvalue : ∀ e ∈ es, f (g e.2) = some e.2) (name : Text) :
    entries? f name (es.map fun e => (.ofText e.1, g e.2)) = some es := by
  induction es generalizing name with
  | nil => rfl
  | cons e es ih =>
    rw [List.map_cons, entries?, text?_ofText (hname e List.mem_cons_self)]
    dsimp only
    rw [hvalue e List.mem_cons_self]
    dsimp only
    rw [ih (fun d hd => hname d (List.mem_cons_of_mem e hd))
      fun d hd => hvalue d (List.mem_cons_of_mem e hd)]
    rfl

theorem table?_table {g : α → Item} {f : Item → Option α} {t : Table α}
    (hname : ∀ e ∈ t.entries, e.1.isValid = true) (hvalue : ∀ e ∈ t.entries, f (g e.2) = some e.2) :
    table? f (table g t) = some t := by
  have hperm := ordered_perm t
  rw [table, table?]
  dsimp only [untag]
  rw [entries?_map (fun e he => hname e (hperm.mem_iff.1 he)) fun e he => hvalue e (hperm.mem_iff.1 he)]
  -- The entries come in the order of their lengths, and a table sorts them by name again.
  exact congrArg some (Table.ofList_eq_of_perm hperm)

theorem textEntries?_map {es : List (Text × Text)} (hname : ∀ e ∈ es, e.1.isValid = true)
    (hvalue : ∀ e ∈ es, e.2.isValid = true) (name value : Text) :
    textEntries? name value (es.map fun e => (.ofText e.1, .ofText e.2)) = some es := by
  induction es generalizing name value with
  | nil => rfl
  | cons e es ih =>
    rw [List.map_cons, textEntries?, text?_ofText (hname e List.mem_cons_self)]
    dsimp only
    rw [text?_ofText (hvalue e List.mem_cons_self)]
    dsimp only
    rw [ih (fun d hd => hname d (List.mem_cons_of_mem e hd))
      fun d hd => hvalue d (List.mem_cons_of_mem e hd)]
    rfl

theorem textTable?_table {t : Table Text} (hname : ∀ e ∈ t.entries, e.1.isValid = true)
    (hvalue : ∀ e ∈ t.entries, e.2.isValid = true) : textTable? (table .ofText t) = some t := by
  have hperm := ordered_perm t
  rw [table, textTable?]
  dsimp only [untag]
  rw [textEntries?_map (fun e he => hname e (hperm.mem_iff.1 he))
    fun e he => hvalue e (hperm.mem_iff.1 he)]
  exact congrArg some (Table.ofList_eq_of_perm hperm)

end Tables

section Records

variable {fields : List (Bool × ℕ × Item)} {k : ℕ}

theorem get?_int (distinct : (fields.map (·.2.1)).Nodup) {n : Int64}
    (hmem : (decide (n ≠ 0), k, .ofInt n.toInt) ∈ fields) :
    get? (record fields) k 0 int64? = some n :=
  get?_of_mem distinct hmem (fun _ => int64?_ofInt n)
    fun h => (not_not.1 (of_decide_eq_false h)).symm

theorem eq_nil_of_isEmpty {l : List α} (h : (!l.isEmpty) = false) : [] = l := by
  cases l with
  | nil => rfl
  | cons a as => cases h

theorem get?_text (distinct : (fields.map (·.2.1)).Nodup) {t : Text} (ht : t.isValid = true)
    (hmem : (!t.isEmpty, k, .ofText t) ∈ fields) : get? (record fields) k [] text? = some t :=
  get?_of_mem distinct hmem (fun _ => text?_ofText ht []) eq_nil_of_isEmpty

theorem get?_texts (distinct : (fields.map (·.2.1)).Nodup) {l : List Text}
    (hl : ∀ t ∈ l, t.isValid = true) (hmem : (!l.isEmpty, k, texts l) ∈ fields) :
    get? (record fields) k [] (list? text?) = some l :=
  get?_of_mem distinct hmem (fun _ => list?_texts hl) eq_nil_of_isEmpty

theorem get?_table (distinct : (fields.map (·.2.1)).Nodup) {g : α → Item}
    {f : Item → Option (Table α)} {t : Table α} (ht : f (table g t) = some t)
    (hmem : (!t.isEmpty, k, table g t) ∈ fields) : get? (record fields) k {} f = some t :=
  get?_of_mem distinct hmem (fun _ => ht) fun h => Table.ext (eq_nil_of_isEmpty h)

/-- The fields of a constant. -/
def literalFields (l : Literal) : List (Bool × ℕ × Item) :=
  [(true, 1, .unsigned l.kind.toNat), (l.int ≠ 0, 2, .ofInt l.int.toInt),
    (!l.float.isZero, 3, .float l.float), (!l.str.isEmpty, 4, .ofText l.str)]

theorem ofLiteral_eq (l : Literal) : ofLiteral l = .map (record (literalFields l)) := by
  simp [ofLiteral, record, literalFields, fieldIf, intField, textField]

theorem literal?_ofLiteral {l : Literal} (h : l.Storable) : literal? (ofLiteral l) = some l := by
  have distinct : ((literalFields l).map (·.2.1)).Nodup := by simp [literalFields]
  have hkind : get? (record (literalFields l)) 1 0 byte? = some l.kind :=
    get?_always distinct (by simp [literalFields]) (byte?_unsigned l.kind)
  have hint : get? (record (literalFields l)) 2 0 int64? = some l.int :=
    get?_int distinct (by simp [literalFields])
  have hfloat : get? (record (literalFields l)) 3 ⟨0⟩ float? = some l.float := by
    have hmem : (!l.float.isZero, 3, .float l.float) ∈ literalFields l := by simp [literalFields]
    exact get?_of_mem distinct hmem (fun _ => rfl) fun hz => (h.zero (by simpa using hz)).symm
  have hstr : get? (record (literalFields l)) 4 [] text? = some l.str :=
    get?_text distinct h.text.valid (by simp [literalFields])
  simp only [literal?, ofLiteral_eq, fields?_record, Option.bind_eq_bind, Option.bind_some, hkind,
    hint, hfloat, hstr]
  rfl

/-- The fields of an operand. -/
def operandFields (o : Operand) : List (Bool × ℕ × Item) :=
  [(o.int ≠ 0, 1, .ofInt o.int.toInt), (o.int2 ≠ 0, 2, .ofInt o.int2.toInt),
    (!o.name.isEmpty, 3, .ofText o.name), (!o.member.isEmpty, 4, .ofText o.member),
    (o.lit.isSome, 5, (o.lit.map ofLiteral).getD .null)]

theorem ofOperand_eq (o : Operand) : ofOperand o = .map (record (operandFields o)) := by
  cases hl : o.lit <;>
    simp [ofOperand, record, operandFields, fieldIf, intField, textField, literalField, hl]

theorem operand?_ofOperand {o : Operand} (h : o.Storable) : operand? (ofOperand o) = some o := by
  have distinct : ((operandFields o).map (·.2.1)).Nodup := by simp [operandFields]
  have hint : get? (record (operandFields o)) 1 0 int64? = some o.int :=
    get?_int distinct (by simp [operandFields])
  have hint2 : get? (record (operandFields o)) 2 0 int64? = some o.int2 :=
    get?_int distinct (by simp [operandFields])
  have hname : get? (record (operandFields o)) 3 [] text? = some o.name :=
    get?_text distinct h.name.valid (by simp [operandFields])
  have hmember : get? (record (operandFields o)) 4 [] text? = some o.member :=
    get?_text distinct h.member.valid (by simp [operandFields])
  have hlit : get? (record (operandFields o)) 5 none optionalLiteral? = some o.lit := by
    have hmem : (o.lit.isSome, 5, (o.lit.map ofLiteral).getD .null) ∈ operandFields o := by
      simp [operandFields]
    refine get?_of_mem distinct hmem (fun hsome => ?_) fun hnone => ?_
    · obtain ⟨l, hl⟩ := Option.isSome_iff_exists.1 hsome
      rw [hl, Option.map_some, Option.getD_some, optionalLiteral?, literal?_ofLiteral (h.lit l hl)]
      rw [ofLiteral_eq]
      rfl
    · exact (Option.isSome_eq_false_iff.1 hnone |> Option.isNone_iff_eq_none.1).symm
  simp only [operand?, ofOperand_eq, fields?_record, Option.bind_eq_bind, Option.bind_some, hint,
    hint2, hname, hmember, hlit]
  rfl

/-- The fields of an instruction. -/
def instructionFields (i : Instruction) : List (Bool × ℕ × Item) :=
  [(true, 1, .unsigned i.op.toNat), (true, 2, ofOperand i.operand),
    (i.line ≠ 0, 3, .ofInt i.line.toInt), (i.col ≠ 0, 4, .ofInt i.col.toInt),
    (!i.file.isEmpty, 5, .ofText i.file)]

theorem ofInstruction_eq (i : Instruction) :
    ofInstruction i = .map (record (instructionFields i)) := by
  simp [ofInstruction, record, instructionFields, fieldIf, intField, textField]

theorem instruction?_ofInstruction {i : Instruction} (h : i.Storable) :
    instruction? (ofInstruction i) = some i := by
  have distinct : ((instructionFields i).map (·.2.1)).Nodup := by simp [instructionFields]
  have hop : get? (record (instructionFields i)) 1 0 byte? = some i.op :=
    get?_always distinct (by simp [instructionFields]) (byte?_unsigned i.op)
  have hoperand : get? (record (instructionFields i)) 2 {} operand? = some i.operand :=
    get?_always distinct (by simp [instructionFields]) (operand?_ofOperand h.operand)
  have hline : get? (record (instructionFields i)) 3 0 int64? = some i.line :=
    get?_int distinct (by simp [instructionFields])
  have hcol : get? (record (instructionFields i)) 4 0 int64? = some i.col :=
    get?_int distinct (by simp [instructionFields])
  have hfile : get? (record (instructionFields i)) 5 [] text? = some i.file :=
    get?_text distinct h.file.valid (by simp [instructionFields])
  simp only [instruction?, ofInstruction_eq, fields?_record, Option.bind_eq_bind, Option.bind_some,
    hop, hoperand, hline, hcol, hfile]
  rfl

/-- The fields of a function. -/
def functionFields (f : Function) : List (Bool × ℕ × Item) :=
  [(true, 1, .ofText f.name), (true, 2, .ofInt f.address.toInt),
    (!f.params.isEmpty, 3, texts f.params)]

theorem ofFunction_eq (f : Function) : ofFunction f = .map (record (functionFields f)) := by
  simp [ofFunction, record, functionFields, fieldIf, textsField]

theorem function?_ofFunction {f : Function} (h : f.Storable) :
    function? (ofFunction f) = some f := by
  have distinct : ((functionFields f).map (·.2.1)).Nodup := by simp [functionFields]
  have hname : get? (record (functionFields f)) 1 [] text? = some f.name :=
    get?_always distinct (by simp [functionFields]) (text?_ofText h.name.valid [])
  have haddress : get? (record (functionFields f)) 2 0 int64? = some f.address :=
    get?_always distinct (by simp [functionFields]) (int64?_ofInt f.address)
  have hparams : get? (record (functionFields f)) 3 [] (list? text?) = some f.params :=
    get?_texts distinct (fun t ht => (h.params.all t ht).valid) (by simp [functionFields])
  simp only [function?, ofFunction_eq, fields?_record, Option.bind_eq_bind, Option.bind_some, hname,
    haddress, hparams]
  rfl

/-- The fields of a class. -/
def classFields (c : ClassInfo) : List (Bool × ℕ × Item) :=
  [(true, 1, .ofText c.name), (!c.base.isEmpty, 2, .ofText c.base),
    (!c.fields.isEmpty, 3, texts c.fields), (!c.statics.isEmpty, 4, texts c.statics),
    (!c.methods.isEmpty, 5, table .ofText c.methods),
    (!c.staticMethods.isEmpty, 6, table .ofText c.staticMethods)]

theorem ofClass_eq (c : ClassInfo) : ofClass c = .map (record (classFields c)) := by
  simp [ofClass, record, classFields, fieldIf, textField, textsField, tableField]

theorem class?_ofClass {c : ClassInfo} (h : c.Storable) : class? (ofClass c) = some c := by
  have distinct : ((classFields c).map (·.2.1)).Nodup := by simp [classFields]
  have hname : get? (record (classFields c)) 1 [] text? = some c.name :=
    get?_always distinct (by simp [classFields]) (text?_ofText h.name.valid [])
  have hbase : get? (record (classFields c)) 2 [] text? = some c.base :=
    get?_text distinct h.base.valid (by simp [classFields])
  have hfields : get? (record (classFields c)) 3 [] (list? text?) = some c.fields :=
    get?_texts distinct (fun t ht => (h.fields.all t ht).valid) (by simp [classFields])
  have hstatics : get? (record (classFields c)) 4 [] (list? text?) = some c.statics :=
    get?_texts distinct (fun t ht => (h.statics.all t ht).valid) (by simp [classFields])
  have htable {t : Table Text} (ht : t.Storable Text.Storable) :
      textTable? (table .ofText t) = some t :=
    textTable?_table (fun e he => (ht.names e he).valid) fun e he => (ht.all e he).valid
  have hmethods : get? (record (classFields c)) 5 {} textTable? = some c.methods :=
    get?_table distinct (htable h.methods) (by simp [classFields])
  have hstaticMethods : get? (record (classFields c)) 6 {} textTable? = some c.staticMethods :=
    get?_table distinct (htable h.staticMethods) (by simp [classFields])
  simp only [class?, ofClass_eq, fields?_record, Option.bind_eq_bind, Option.bind_some, hname, hbase,
    hfields, hstatics, hmethods, hstaticMethods]
  rfl

/-- The fields of a program. -/
def programFields (p : Program) : List (Bool × ℕ × Item) :=
  [(!p.file.isEmpty, 1, .ofText p.file),
    (true, 2, optionalList ofInstruction (p.code?.map (·.toList))),
    (!p.functions.isEmpty, 3, table ofFunction p.functions),
    (!p.classes.isEmpty, 4, table ofClass p.classes),
    (!p.enums.isEmpty, 5, table (optionalList Item.ofText) p.enums)]

theorem ofProgram_eq (p : Program) : ofProgram p = .map (record (programFields p)) := by
  simp [ofProgram, record, programFields, fieldIf, textField, tableField]

/-- A program is read back from the item it is written as. -/
theorem program?_ofProgram {p : Program} (h : p.Storable) : program? (ofProgram p) = some p := by
  have distinct : ((programFields p).map (·.2.1)).Nodup := by simp [programFields]
  have hfile : get? (record (programFields p)) 1 [] text? = some p.file :=
    get?_text distinct h.file.valid (by simp [programFields])
  have hcode : get? (record (programFields p)) 2 none (optionalList? instruction?) =
      some (p.code?.map (·.toList)) := by
    refine get?_always distinct (by simp [programFields])
      (optionalList?_optionalList (g := ofInstruction) ?_)
    intro l hl i hi
    obtain ⟨code, hcode, rfl⟩ := Option.map_eq_some_iff.1 hl
    refine instruction?_ofInstruction (h.code i ?_)
    rwa [Program.code, hcode]
  have hfunctions : get? (record (programFields p)) 3 {} (table? function?) = some p.functions :=
    get?_table distinct (table?_table (fun e he => (h.functions.names e he).valid)
      fun e he => function?_ofFunction (h.functions.all e he)) (by simp [programFields])
  have hclasses : get? (record (programFields p)) 4 {} (table? class?) = some p.classes :=
    get?_table distinct (table?_table (fun e he => (h.classes.names e he).valid)
      fun e he => class?_ofClass (h.classes.all e he)) (by simp [programFields])
  have henums : get? (record (programFields p)) 5 {} (table? (optionalList? text?)) = some p.enums :=
    get?_table distinct (table?_table (fun e he => (h.enums.names e he).valid)
      fun e he => optionalList?_optionalList fun l hl t ht =>
        text?_ofText ((h.enums.all e he l hl).all t ht).valid []) (by simp [programFields])
  simp only [program?, ofProgram_eq, fields?_record, Option.bind_eq_bind, Option.bind_some, hfile,
    hcode, hfunctions, hclasses, henums, Option.map_map]
  cases p with
  | mk file code? functions classes enums =>
    cases code? <;> rfl

end Records

end Image

end BytecodeMachine
