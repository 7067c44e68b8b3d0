import BytecodeMachine.Image.Basic
import BytecodeMachine.Proofs.Image.Records

/-!
Programs read back from their images. An image gives back every program that it can hold, field by
field, with one pattern for all constants that are no number. A code that is too long for a reader is
written all the same, and its image is refused.
-/
namespace BytecodeMachine

/-- An instruction with its constant changed. -/
def Instruction.mapLiteral (f : Literal → Literal) (i : Instruction) : Instruction :=
  { i with operand := { i.operand with lit := i.operand.lit.map f } }

/-- A constant as an image gives it back. -/
def Literal.canonical (l : Literal) : Literal :=
  if l.float.isNaN then { l with float := Item.canonicalNaN } else l

def Operand.canonical (o : Operand) : Operand := { o with lit := o.lit.map Literal.canonical }

def Instruction.canonical (i : Instruction) : Instruction :=
  { i with operand := i.operand.canonical }

/-- A program with its constants changed. -/
def Program.mapLiterals (f : Literal → Literal) (p : Program) : Program :=
  { p with code? := p.code?.map fun code => code.map (Instruction.mapLiteral f) }

/-- A program as an image gives it back. -/
def Program.canonical (p : Program) : Program :=
  { p with code? := p.code?.map fun code => code.map Instruction.canonical }

/-- A constant that is a number, or the pattern that stands for all that are none. -/
def Literal.Settled (l : Literal) : Prop := l.float.isNaN = true → l.float = Item.canonicalNaN

def Instruction.Settled (i : Instruction) : Prop := ∀ l ∈ i.operand.lit, l.Settled

namespace Image

open Item (Writable levelLimit sizeLimit canonicalNaN)

section Writing

variable {level : ℕ}

theorem length_record_le (fields : List (Bool × ℕ × Item)) :
    (record fields).length ≤ fields.length := by
  induction fields with
  | nil => rfl
  | cons e es ih =>
    have hcons : record (e :: es) = fieldIf e.1 e.2.1 e.2.2 ++ record es := rfl
    have hone : (fieldIf e.1 e.2.1 e.2.2).length ≤ 1 := by
      unfold fieldIf
      split <;> simp
    rw [hcons, List.length_append, List.length_cons]
    omega

theorem writable_record {fields : List (Bool × ℕ × Item)} (size : fields.length ≤ sizeLimit)
    (numbers : ∀ e ∈ fields, e.2.1 < twoTo 64)
    (items : ∀ e ∈ fields, e.1 = true → Writable level e.2.2) :
    Writable (level + 1) (.map (record fields)) := by
  have hmem {e : Item × Item} (he : e ∈ record fields) :
      ∃ d ∈ fields, d.1 = true ∧ e = field d.2.1 d.2.2 := by
    obtain ⟨d, hd, he⟩ := List.mem_flatMap.1 he
    unfold fieldIf at he
    split at he
    · next hkeep => exact ⟨d, hd, hkeep, List.mem_singleton.1 he⟩
    · cases he
  refine .map ((length_record_le fields).trans size) (fun e he => ?_) fun e he => ?_
  · obtain ⟨d, hd, -, rfl⟩ := hmem he
    exact .unsigned (numbers d hd)
  · obtain ⟨d, hd, hkeep, rfl⟩ := hmem he
    exact items d hd hkeep

theorem writable_ofInt (n : Int64) : Writable level (.ofInt n.toInt) := by
  have hlow := Int64.le_toInt n
  have hhigh := Int64.toInt_lt n
  have htwo : twoTo 64 = 2 ^ 64 := rfl
  unfold Item.ofInt
  split
  · exact .negative (by omega)
  · exact .unsigned (by omega)

theorem writable_byte (b : UInt8) : Writable level (.unsigned b.toNat) := by
  have hlt : b.toNat < 256 := b.toNat_lt
  exact .unsigned (hlt.trans (by decide))

theorem writable_texts {l : List Text} (h : Text.AllStorable l) : Writable (level + 1) (texts l) := by
  refine .array (by rw [List.length_map]; exact h.size) fun i hi => ?_
  obtain ⟨t, ht, rfl⟩ := List.mem_map.1 hi
  exact .text (h.all t ht).fits

theorem writable_table {α : Type} {P : α → Prop} {g : α → Item} {t : Table α} (h : t.Storable P)
    (hg : ∀ a, P a → Writable level (g a)) : Writable (level + 1) (table g t) := by
  have hperm := ordered_perm t
  have hmem {e : Item × Item} (he : e ∈ (ordered t).map fun e => (Item.ofText e.1, g e.2)) :
      ∃ d ∈ t.entries, e = (Item.ofText d.1, g d.2) := by
    obtain ⟨d, hd, rfl⟩ := List.mem_map.1 he
    exact ⟨d, hperm.mem_iff.1 hd, rfl⟩
  refine .map ?_ (fun e he => ?_) fun e he => ?_
  · rw [List.length_map, hperm.length_eq]
    exact h.size
  · obtain ⟨d, hd, rfl⟩ := hmem he
    exact .text (h.names d hd).fits
  · obtain ⟨d, hd, rfl⟩ := hmem he
    exact hg d.2 (h.all d hd)

theorem writable_ofLiteral {l : Literal} (h : l.Storable) (settled : l.Settled) :
    Writable (level + 1) (ofLiteral l) := by
  have hfloat : Writable level (.float l.float) := .float settled
  have hstr : Writable level (.ofText l.str) := .text h.text.fits
  rw [ofLiteral_eq]
  exact writable_record (by simp [literalFields, sizeLimit]) (by simp [literalFields, twoTo])
    (by simp [literalFields, writable_byte, writable_ofInt, hfloat, hstr])

theorem writable_ofOperand {o : Operand} (h : o.Storable) (settled : ∀ l ∈ o.lit, l.Settled) :
    Writable (level + 2) (ofOperand o) := by
  have hname : Writable (level + 1) (.ofText o.name) := .text h.name.fits
  have hmember : Writable (level + 1) (.ofText o.member) := .text h.member.fits
  have hlit : o.lit.isSome = true → Writable (level + 1) ((o.lit.map ofLiteral).getD .null) := by
    intro hsome
    obtain ⟨l, hl⟩ := Option.isSome_iff_exists.1 hsome
    rw [hl]
    exact writable_ofLiteral (h.lit l hl) (settled l hl)
  rw [ofOperand_eq]
  exact writable_record (by simp [operandFields, sizeLimit]) (by simp [operandFields, twoTo])
    (by simpa [operandFields, writable_ofInt, hname, hmember] using hlit)

theorem writable_ofInstruction {i : Instruction} (h : i.Storable) (settled : i.Settled) :
    Writable (level + 3) (ofInstruction i) := by
  have hoperand : Writable (level + 2) (ofOperand i.operand) := writable_ofOperand h.operand settled
  have hfile : Writable (level + 2) (.ofText i.file) := .text h.file.fits
  rw [ofInstruction_eq]
  exact writable_record (by simp [instructionFields, sizeLimit])
    (by simp [instructionFields, twoTo])
    (by simp [instructionFields, writable_byte, writable_ofInt, hoperand, hfile])

theorem writable_ofFunction {f : Function} (h : f.Storable) : Writable (level + 2) (ofFunction f) := by
  have hname : Writable (level + 1) (.ofText f.name) := .text h.name.fits
  rw [ofFunction_eq]
  exact writable_record (by simp [functionFields, sizeLimit]) (by simp [functionFields, twoTo])
    (by simp [functionFields, writable_ofInt, hname, writable_texts h.params])

theorem writable_ofClass {c : ClassInfo} (h : c.Storable) : Writable (level + 2) (ofClass c) := by
  have hname : Writable (level + 1) (.ofText c.name) := .text h.name.fits
  have hbase : Writable (level + 1) (.ofText c.base) := .text h.base.fits
  have htable {t : Table Text} (ht : t.Storable Text.Storable) :
      Writable (level + 1) (table .ofText t) := writable_table ht fun a ha => .text ha.fits
  rw [ofClass_eq]
  exact writable_record (by simp [classFields, sizeLimit]) (by simp [classFields, twoTo])
    (by simp [classFields, hname, hbase, writable_texts h.fields, writable_texts h.statics,
      htable h.methods, htable h.staticMethods])

theorem writable_members {members : Option (List Text)} (h : ∀ l ∈ members, Text.AllStorable l) :
    Writable (level + 1) (optionalList Item.ofText members) := by
  cases members with
  | none => exact .null
  | some l => exact writable_texts (h l rfl)

/-- The item of a program can be read back: it is nested five deep. -/
theorem writable_ofProgram {p : Program} (h : p.Storable)
    (settled : ∀ i ∈ p.code.toList, i.Settled) : Writable (level + 5) (ofProgram p) := by
  have hfile : Writable (level + 4) (.ofText p.file) := .text h.file.fits
  have hcode : Writable (level + 4) (optionalList ofInstruction (p.code?.map (·.toList))) := by
    have hsize := h.size
    have hall := h.code
    unfold Program.code at hsize hall settled
    cases hc : p.code? with
    | none => exact .null
    | some code =>
      rw [hc] at hsize hall settled
      refine .array (by simpa using hsize) fun i hi => ?_
      obtain ⟨ins, hins, rfl⟩ := List.mem_map.1 hi
      exact writable_ofInstruction (hall ins hins) (settled ins hins)
  have hfunctions : Writable (level + 4) (table ofFunction p.functions) :=
    writable_table h.functions fun f hf => writable_ofFunction hf
  have hclasses : Writable (level + 4) (table ofClass p.classes) :=
    writable_table h.classes fun c hc => writable_ofClass hc
  have henums : Writable (level + 4) (table (optionalList Item.ofText) p.enums) :=
    writable_table h.enums fun m hm => writable_members hm
  rw [ofProgram_eq]
  exact writable_record (by simp [programFields, sizeLimit]) (by simp [programFields, twoTo])
    (by simp [programFields, hfile, hcode, hfunctions, hclasses, henums])

end Writing

section Canonical

/-- Lists of items that are written alike. -/
theorem encode_array_congr {items others : List Item}
    (h : items.map Item.encode = others.map Item.encode) :
    (Item.array items).encode = (Item.array others).encode := by
  have hall (l : List Item) : Item.encodeAll l = (l.map Item.encode).flatten := by
    induction l with
    | nil => rfl
    | cons i is ih =>
      rw [Item.encodeAll, ih]
      rfl
  have hlen : items.length = others.length := by simpa using congrArg List.length h
  rw [Item.encode, Item.encode, hall, hall, h, hlen]

/-- Entries with keys and values that are written alike. -/
theorem encode_map_congr {es ds : List (Item × Item)}
    (h : es.map (fun e => (e.1.encode, e.2.encode)) = ds.map fun e => (e.1.encode, e.2.encode)) :
    (Item.map es).encode = (Item.map ds).encode := by
  have hall (l : List (Item × Item)) : Item.encodeEntries l =
      ((l.map fun e => (e.1.encode, e.2.encode)).map fun b => b.1 ++ b.2).flatten := by
    induction l with
    | nil => rfl
    | cons e es ih =>
      rw [Item.encodeEntries, ih]
      rfl
  have hlen : es.length = ds.length := by simpa using congrArg List.length h
  rw [Item.encode, Item.encode, hall, hall, h, hlen]

/-- Records with the same fields that are written alike. -/
theorem encode_record_congr {fields others : List (Bool × ℕ × Item)}
    (h : fields.map (fun e => (e.1, e.2.1, e.2.2.encode)) =
      others.map fun e => (e.1, e.2.1, e.2.2.encode)) :
    (Item.map (record fields)).encode = (Item.map (record others)).encode := by
  have hrecord (l : List (Bool × ℕ × Item)) :
      (record l).map (fun e => (e.1.encode, e.2.encode)) =
        (l.map fun e => (e.1, e.2.1, e.2.2.encode)).flatMap fun b =>
          if b.1 then [((Item.unsigned b.2.1).encode, b.2.2)] else [] := by
    rw [record, List.map_flatMap, List.flatMap_map]
    refine congrArg (List.flatMap · l) (funext fun e => ?_)
    unfold fieldIf
    split <;> rfl
  refine encode_map_congr ?_
  rw [hrecord, hrecord, h]

theorem encode_ofLiteral_canonical (l : Literal) :
    (ofLiteral l.canonical).encode = (ofLiteral l).encode := by
  unfold Literal.canonical
  split
  · next hnan =>
    have hmagnitude : BinaryFormat.double.infinityBits < BinaryFormat.double.magnitude l.float.pattern :=
      of_decide_eq_true hnan
    -- What is no number is no zero either, so both constants have the field.
    have hzero : l.float.isZero = false := decide_eq_false (by omega)
    have hfloat : (Item.float canonicalNaN).encode = (Item.float l.float).encode := by
      rw [Item.encode, Item.encode, Item.encodeFloat, Item.encodeFloat, if_pos hnan,
        if_pos (by decide)]
    rw [ofLiteral_eq, ofLiteral_eq]
    refine encode_record_congr ?_
    simp only [literalFields, List.map_cons, List.map_nil, hzero, hfloat]
    rfl
  · rfl

section Constants

variable {f : Literal → Literal} (hf : ∀ l, (ofLiteral (f l)).encode = (ofLiteral l).encode)

include hf

theorem encode_ofInstruction_mapLiteral (i : Instruction) :
    (ofInstruction (i.mapLiteral f)).encode = (ofInstruction i).encode := by
  have hoperand : (ofOperand (i.mapLiteral f).operand).encode = (ofOperand i.operand).encode := by
    rw [ofOperand_eq, ofOperand_eq]
    refine encode_record_congr ?_
    cases hl : i.operand.lit with
    | none => simp [operandFields, Instruction.mapLiteral, hl]
    | some l => simp [operandFields, Instruction.mapLiteral, hl, hf]
  rw [ofInstruction_eq, ofInstruction_eq]
  refine encode_record_congr ?_
  simp only [instructionFields, List.map_cons, List.map_nil, hoperand]
  rfl

/-- Programs whose constants are written alike have one image. -/
theorem encode_mapLiterals (p : Program) : encode (p.mapLiterals f) = encode p := by
  have hcode : (optionalList ofInstruction ((p.mapLiterals f).code?.map (·.toList))).encode =
      (optionalList ofInstruction (p.code?.map (·.toList))).encode := by
    unfold Program.mapLiterals
    cases p.code? with
    | none => rfl
    | some code =>
      refine encode_array_congr ?_
      simp [encode_ofInstruction_mapLiteral hf]
  have hprogram : (ofProgram (p.mapLiterals f)).encode = (ofProgram p).encode := by
    rw [ofProgram_eq, ofProgram_eq]
    refine encode_record_congr ?_
    simp only [programFields, List.map_cons, List.map_nil, hcode]
    rfl
  rw [encode, encode, hprogram]

end Constants

/-- A program and what its image gives back have one image. -/
theorem encode_canonical (p : Program) : encode p.canonical = encode p :=
  encode_mapLiterals encode_ofLiteral_canonical p

end Canonical

section Storing

theorem storable_canonical_literal {l : Literal} (h : l.Storable) : l.canonical.Storable := by
  unfold Literal.canonical
  split
  · exact ⟨h.text, fun hzero => absurd (show canonicalNaN.isZero = true from hzero) (by decide)⟩
  · exact h

theorem settled_canonical (l : Literal) : l.canonical.Settled := by
  unfold Literal.canonical Literal.Settled
  split
  · exact fun _ => rfl
  · next hnan => exact fun h => absurd h hnan

theorem storable_canonical_instruction {i : Instruction} (h : i.Storable) :
    i.canonical.Storable := by
  refine ⟨⟨h.operand.name, h.operand.member, fun l hl => ?_⟩, h.file⟩
  obtain ⟨k, hk, rfl⟩ := Option.map_eq_some_iff.1 hl
  exact storable_canonical_literal (h.operand.lit k hk)

theorem settled_canonical_instruction (i : Instruction) : i.canonical.Settled := by
  intro l hl
  obtain ⟨k, -, rfl⟩ := Option.map_eq_some_iff.1 hl
  exact settled_canonical k

theorem code_mapLiterals (f : Literal → Literal) (p : Program) :
    (p.mapLiterals f).code = p.code.map (Instruction.mapLiteral f) := by
  unfold Program.code Program.mapLiterals
  cases p.code? with
  | none => simp
  | some code => rfl

theorem code_canonical (p : Program) : p.canonical.code = p.code.map Instruction.canonical :=
  code_mapLiterals Literal.canonical p

theorem storable_canonical {p : Program} (h : p.Storable) : p.canonical.Storable where
  file := h.file
  size := by
    rw [code_canonical, Array.size_map]
    exact h.size
  code := by
    intro i hi
    rw [code_canonical, Array.toList_map] at hi
    obtain ⟨j, hj, rfl⟩ := List.mem_map.1 hi
    exact storable_canonical_instruction (h.code j hj)
  functions := h.functions
  classes := h.classes
  enums := h.enums

theorem instruction_defect?_mapLiteral (f : Literal → Literal) (size : ℤ) (n : ℕ) (i : Instruction) :
    (i.mapLiteral f).defect? size n = i.defect? size n := by
  have hlit : (i.mapLiteral f).operand.lit.isNone = i.operand.lit.isNone := Option.isNone_map
  unfold Instruction.defect?
  rw [hlit]
  rfl

theorem circle?_mapLiterals (f : Literal → Literal) (p : Program) (steps : ℕ) (seen : List Text)
    (base : Text) : (p.mapLiterals f).circle? steps seen base = p.circle? steps seen base := by
  induction steps generalizing seen base with
  | zero => rfl
  | succ steps ih =>
    have hclasses : (p.mapLiterals f).classes = p.classes := rfl
    rw [Program.circle?, Program.circle?, hclasses]
    simp only [ih]

/-- What is wrong with a program does not hang on its constants. -/
theorem defect?_mapLiterals (f : Literal → Literal) (p : Program) :
    (p.mapLiterals f).defect? = p.defect? := by
  have hcode : (p.mapLiterals f).codeDefect? = p.codeDefect? := by
    unfold Program.codeDefect?
    rw [code_mapLiterals, Array.toList_map, Array.size_map, List.zipIdx_map, List.findSome?_map]
    refine congrArg (List.findSome? · p.code.toList.zipIdx) (funext fun e => ?_)
    exact instruction_defect?_mapLiteral f _ _ _
  have hfunction : (p.mapLiterals f).functionDefect? = p.functionDefect? := by
    unfold Program.functionDefect?
    rw [code_mapLiterals, Array.size_map]
    rfl
  have hclass (name : Text) (c : ClassInfo) :
      (p.mapLiterals f).classDefect? name c = p.classDefect? name c := by
    unfold Program.classDefect? Program.baseDefect?
    rw [circle?_mapLiterals]
    rfl
  unfold Program.defect?
  rw [hcode, hfunction]
  simp only [hclass]
  rfl

end Storing

/-- An image is read by its mark, its version and the item that follows. -/
theorem decode_encode_eq (p : Program) : decode (encode p) =
    match (Item.parse (ofProgram p).encode).bind program? with
    | none => .error .body
    | some q =>
      match q.defect? with
      | some d => .error (.image d)
      | none => .ok q := by
  have hbytes : encode p = 67 :: 70 :: 71 :: 66 :: 1 :: 0 :: (ofProgram p).encode := by
    have hmark : mark = [67, 70, 71, 66] := by decide
    rw [encode, hmark]
    rfl
  rw [hbytes]
  rfl

theorem canonical_eq_self {p : Program}
    (h : ∀ i ∈ p.code.toList, ∀ l ∈ i.operand.lit, l.float.isNaN = false) : p.canonical = p := by
  have hliteral {l : Literal} (hl : l.float.isNaN = false) : l.canonical = l := if_neg (by simp [hl])
  have hinstruction {i : Instruction} (hi : ∀ l ∈ i.operand.lit, l.float.isNaN = false) :
      i.canonical = i := by
    have hlit : i.operand.lit.map Literal.canonical = i.operand.lit := by
      cases hl : i.operand.lit with
      | none => rfl
      | some l => rw [Option.map_some, hliteral (hi l hl)]
    unfold Instruction.canonical Operand.canonical
    rw [hlit]
  have hcode : p.code?.map (fun code => code.map Instruction.canonical) = p.code? := by
    unfold Program.code at h
    cases hc : p.code? with
    | none => rfl
    | some code =>
      rw [hc] at h
      have hmap : code.map Instruction.canonical = code.map id :=
        Array.map_congr_left fun i hi => hinstruction (h i (by simpa using hi))
      rw [Option.map_some, hmap, Array.map_id]
  unfold Program.canonical
  rw [hcode]

/-- A program that a machine takes and an image can hold comes back from its image, with one pattern for
all constants that are no number. -/
theorem decode_encode_eq_canonical {p : Program} (valid : p.defect? = none)
    (storable : p.Storable) : decode (encode p) = .ok p.canonical := by
  have hwritable : Writable levelLimit (ofProgram p.canonical) := by
    refine @writable_ofProgram 27 p.canonical (storable_canonical storable) fun i hi => ?_
    rw [code_canonical, Array.toList_map] at hi
    obtain ⟨j, -, rfl⟩ := List.mem_map.1 hi
    exact settled_canonical_instruction j
  -- The image is also that of the canonical program, of which every item is read back as it is.
  rw [← encode_canonical, decode_encode_eq, hwritable.parse_encode, Option.bind_some,
    program?_ofProgram (storable_canonical storable)]
  dsimp only
  have hvalid : p.canonical.defect? = none := (defect?_mapLiterals Literal.canonical p).trans valid
  rw [hvalid]

/-- The image of a program with too many instructions is not read. -/
theorem decode_encode_of_long {p : Program} (long : sizeLimit < p.code.size)
    (code : p.code.size < twoTo 64) (file : p.file.length < twoTo 64) :
    decode (encode p) = .error .body := by
  have harray : optionalList ofInstruction (p.code?.map (·.toList)) =
      .array (p.code.toList.map ofInstruction) := by
    unfold Program.code at long ⊢
    cases hc : p.code? with
    | none =>
      rw [hc] at long
      exact absurd long (by decide)
    | some code => rfl
  have hlen : (p.code.toList.map ofInstruction).length = p.code.size := by simp
  -- The code is the second field, and nothing but the name of the file comes before it.
  have hfields : ∃ after, record (programFields p) =
      fieldIf (!p.file.isEmpty) 1 (.ofText p.file) ++
        (.unsigned 2, .array (p.code.toList.map ofInstruction)) :: after := by
    rw [← harray]
    exact ⟨_, rfl⟩
  obtain ⟨after, hfields⟩ := hfields
  have hsmall : (record (programFields p)).length < twoTo 64 :=
    (length_record_le _).trans_lt (by simp [programFields, twoTo])
  have hbefore : ∀ e ∈ fieldIf (!p.file.isEmpty) 1 (.ofText p.file),
      Writable 31 e.1 ∧ Writable 31 e.2 := by
    intro e he
    unfold fieldIf at he
    split at he
    · rw [List.mem_singleton.1 he]
      exact ⟨.unsigned (by decide), .text file⟩
    · cases he
  have hread := @Item.read_map_eq_none 31 65 (fieldIf (!p.file.isEmpty) 1 (.ofText p.file)) after
    (.unsigned 2) (.array (p.code.toList.map ofInstruction)) (hfields ▸ hsmall) hbefore
    (.unsigned (by decide)) (by decide)
    (Item.read_array_eq_none (hlen ▸ long) (hlen ▸ code)) []
  rw [List.append_nil, ← hfields, ← ofProgram_eq] at hread
  have hparse : Item.parse (ofProgram p).encode = none := by
    unfold Item.parse
    rw [show 2 * levelLimit + 2 = 66 from rfl, show levelLimit = 32 from rfl, hread]
  rw [decode_encode_eq, hparse]
  rfl

theorem isImage_encode (p : Program) : isImage (encode p) = true := by
  rw [isImage, encode, List.append_assoc]
  exact decide_eq_true rfl

end Image

end BytecodeMachine
