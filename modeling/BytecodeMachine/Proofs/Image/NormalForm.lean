import BytecodeMachine.Proofs.Image.Bounded
import BytecodeMachine.Proofs.Image.RoundTrip
import BytecodeMachine.Proofs.Text.Valid

/-!
Images written anew. Whatever spelling of a program an image holds, the program is one that an image
gives back, up to the sign of a zero; so its own image is accepted, holds the same program, and is what
every further writing gives.
-/
namespace BytecodeMachine

section Alike

/-- Numbers that comparison does not tell apart, and all that are no number. -/
def Binary64.Alike (x y : Binary64) : Prop :=
  x.compare? y = some .eq ∨ x.isNaN = true ∧ y.isNaN = true

/-- Constants that differ at most in the pattern of a number. -/
structure Literal.Alike (l k : Literal) : Prop where
  kind : l.kind = k.kind
  int : l.int = k.int
  float : l.float.Alike k.float
  str : l.str = k.str

structure Instruction.Alike (i j : Instruction) : Prop where
  op : i.op = j.op
  int : i.operand.int = j.operand.int
  int2 : i.operand.int2 = j.operand.int2
  name : i.operand.name = j.operand.name
  member : i.operand.member = j.operand.member
  lit : Option.Rel Literal.Alike i.operand.lit j.operand.lit
  line : i.line = j.line
  col : i.col = j.col
  file : i.file = j.file

/-- Programs that differ at most in the patterns of numbers among their constants. -/
structure Program.Alike (p q : Program) : Prop where
  file : p.file = q.file
  code : Option.Rel (fun c d => List.Forall₂ Instruction.Alike c.toList d.toList) p.code? q.code?
  functions : p.functions = q.functions
  classes : p.classes = q.classes
  enums : p.enums = q.enums

theorem Instruction.alike_mapLiteral {f : Literal → Literal} (hf : ∀ l, (f l).Alike l)
    (i : Instruction) : (i.mapLiteral f).Alike i where
  op := rfl
  int := rfl
  int2 := rfl
  name := rfl
  member := rfl
  lit := by
    unfold Instruction.mapLiteral
    cases i.operand.lit with
    | none => exact .none
    | some l => exact .some (hf l)
  line := rfl
  col := rfl
  file := rfl

theorem Program.alike_mapLiterals {f : Literal → Literal} (hf : ∀ l, (f l).Alike l) (p : Program) :
    (p.mapLiterals f).Alike p where
  file := rfl
  code := by
    unfold Program.mapLiterals
    cases p.code? with
    | none => exact .none
    | some code =>
      refine .some ?_
      rw [Array.toList_map, List.forall₂_map_left_iff]
      exact List.forall₂_same.2 fun i _ => i.alike_mapLiteral hf
  functions := rfl
  classes := rfl
  enums := rfl

theorem Program.mapLiterals_mapLiterals (f g : Literal → Literal) (p : Program) :
    (p.mapLiterals f).mapLiterals g = p.mapLiterals (g ∘ f) := by
  unfold Program.mapLiterals
  cases p.code? with
  | none => rfl
  | some code => simp [Instruction.mapLiteral, Function.comp_def]

end Alike

/-- A constant without the sign of a zero. -/
def Literal.unsignZero (l : Literal) : Literal :=
  if l.float.isZero then { l with float := ⟨0⟩ } else l

theorem Binary64.alike_zero {x : Binary64} (hx : x.isZero = true) : Binary64.Alike ⟨0⟩ x := by
  have hmagnitude : BinaryFormat.double.magnitude x.pattern = 0 := of_decide_eq_true hx
  have hunpack : BinaryFormat.double.unpack x.pattern =
      .finite (BinaryFormat.double.signOf x.pattern) 0 BinaryFormat.double.minExponent := by
    rw [BinaryFormat.unpack, hmagnitude]
    rfl
  have hvalue : BinaryFormat.double.value? x.pattern = some 0 := by
    rw [BinaryFormat.value?_of_unpack hunpack, scaled_zero]
  have hzero : BinaryFormat.double.value? (Binary64.pattern ⟨0⟩) = some 0 := by
    rw [BinaryFormat.value?_of_unpack (s := false) (m := 0) (e := BinaryFormat.double.minExponent)
      (by decide +kernel), scaled_zero]
  exact Or.inl (by rw [compare?, BinaryFormat.compare?_of_value hzero hvalue, cmp_self_eq_eq])

theorem Binary64.alike_refl (x : Binary64) : x.Alike x := by
  cases hx : x.isNaN with
  | true => exact Or.inr ⟨hx, hx⟩
  | false => exact Or.inl (BinaryFormat.compare?_self hx)

/-- What an image gives back for a constant is alike to it. -/
theorem Literal.alike_canonical_unsignZero (l : Literal) : (l.unsignZero.canonical).Alike l := by
  unfold unsignZero
  split
  · next hzero =>
    have hplain : ({ l with float := ⟨0⟩ } : Literal).canonical = { l with float := ⟨0⟩ } :=
      if_neg (show ¬ Binary64.isNaN ⟨0⟩ = true by decide)
    rw [hplain]
    exact ⟨rfl, rfl, Binary64.alike_zero hzero, rfl⟩
  · unfold canonical
    split
    · next hnan => exact ⟨rfl, rfl, Or.inr ⟨show Item.canonicalNaN.isNaN = true by decide, hnan⟩, rfl⟩
    · exact ⟨rfl, rfl, l.float.alike_refl, rfl⟩

namespace Image

open Item (Bounded sizeLimit)

variable {α β : Type} {n : ℕ} {P : α → Prop} {f : Item → Option α}

/-- Whether what is made of items within the bounds has a property. -/
def Gives (n : ℕ) (f : Item → Option α) (P : α → Prop) : Prop :=
  ∀ ⦃i a⦄, Bounded n i → f i = some a → P a

section Parts

theorem bounded_of_untag {i j : Item} (h : Bounded n i) (hi : untag i = some j) : Bounded n j := by
  -- A tag is passed over, or it stands before content that is returned or before a number's bytes.
  fun_induction untag i with
  | case1 ps =>
    cases hi
    cases h with
    | tag _ h => exact h
  | case3 k =>
    cases hi
    exact .unsigned k
  | case4 k =>
    cases hi
    exact .negative k
  | case5 x =>
    cases hi
    exact .float x
  | case7 b =>
    cases hi
    exact .unsigned _
  | case10 b =>
    cases hi
    exact .negative _
  | case12 =>
    rename_i ih
    cases h with
    | tag _ h => exact ih h hi
  | case13 i =>
    cases hi
    exact h
  | _ => cases hi

theorem gives_textOr? (hn : n < twoTo 64) {missing : Text} (hmissing : missing.Storable) :
    Gives n (textOr? missing) Text.Storable := by
  intro i t h ht
  unfold textOr? at ht
  split at ht
  · next ps hps =>
    have hbounded := bounded_of_untag h hps
    unfold validText? at ht
    split at ht
    · next hvalid =>
      cases ht
      cases hbounded with
      | text fits => exact ⟨Text.isValid_flatten hvalid, by omega⟩
    · cases ht
  · split at ht
    · cases ht
      exact hmissing
    · cases ht
  · cases ht

theorem storable_nil : Text.Storable [] := ⟨rfl, by decide⟩

theorem gives_text? (hn : n < twoTo 64) : Gives n text? Text.Storable := gives_textOr? hn storable_nil

theorem all?_spec {is : List Item} {as : List α} (h : all? f is = some as) :
    as.length = is.length ∧ ∀ a ∈ as, ∃ i ∈ is, f i = some a := by
  induction is generalizing as with
  | nil =>
    cases h
    simp
  | cons i is ih =>
    rw [all?] at h
    split at h
    · cases h
    · next b hb =>
      obtain ⟨bs, hbs, rfl⟩ := Option.map_eq_some_iff.1 h
      obtain ⟨hlen, hall⟩ := ih hbs
      refine ⟨by rw [List.length_cons, List.length_cons, hlen], fun a ha => ?_⟩
      rcases List.mem_cons.1 ha with rfl | ha
      · exact ⟨i, List.mem_cons_self, hb⟩
      · obtain ⟨j, hj, hja⟩ := hall a ha
        exact ⟨j, List.mem_cons_of_mem i hj, hja⟩

theorem Gives.optionalList? (h : Gives n f P) : Gives n (optionalList? f)
    fun o => ∀ l ∈ o, l.length ≤ sizeLimit ∧ ∀ a ∈ l, P a := by
  intro i o hi ho l hl
  unfold Image.optionalList? at ho
  split at ho
  · next items hitems =>
    obtain ⟨as, has, rfl⟩ := Option.map_eq_some_iff.1 ho
    cases hl
    obtain ⟨hlen, hall⟩ := all?_spec has
    cases bounded_of_untag hi hitems with
    | array size all =>
      refine ⟨hlen ▸ size, fun a ha => ?_⟩
      obtain ⟨j, hj, hja⟩ := hall a ha
      exact h (all j hj) hja
  · split at ho
    · cases ho
      cases hl
    · cases ho
  · cases ho

theorem gives_texts? (hn : n < twoTo 64) : Gives n (list? text?) Text.AllStorable := by
  intro i l hi hl
  obtain ⟨o, ho, rfl⟩ := Option.map_eq_some_iff.1 hl
  have hall := (gives_text? hn).optionalList? hi ho
  cases o with
  | none => exact ⟨Nat.zero_le _, by simp⟩
  | some l => exact ⟨(hall l rfl).1, (hall l rfl).2⟩

end Parts

section Tables

theorem storable_ofList {es : List (Text × α)} (size : es.length ≤ sizeLimit)
    (all : ∀ e ∈ es, e.1.Storable ∧ P e.2) : (Table.ofList es).Storable P where
  size := (Table.size_ofList_le es).trans size
  names := fun e he => (all e (Table.mem_of_mem_entries_ofList he)).1
  all := fun e he => (all e (Table.mem_of_mem_entries_ofList he)).2

theorem storable_empty : (({} : Table α)).Storable P := ⟨Nat.zero_le _, nofun, nofun⟩

/-- The entries of a table, of which a null name repeats the one before it. -/
theorem entries?_spec (hn : n < twoTo 64) (h : Gives n f P) {es : List (Item × Item)}
    (hes : ∀ e ∈ es, Bounded n e.1 ∧ Bounded n e.2) {name : Text} (hname : name.Storable)
    {l : List (Text × α)} (hl : entries? f name es = some l) :
    l.length = es.length ∧ ∀ e ∈ l, e.1.Storable ∧ P e.2 := by
  induction es generalizing name l with
  | nil =>
    cases hl
    simp
  | cons e es ih =>
    obtain ⟨⟨hk, hv⟩, hrest⟩ := List.forall_mem_cons.1 hes
    rw [entries?] at hl
    split at hl
    · cases hl
    · next name' hname' =>
      have hstorable := gives_textOr? hn hname hk hname'
      split at hl
      · cases hl
      · next a ha =>
        obtain ⟨ds, hds, rfl⟩ := Option.map_eq_some_iff.1 hl
        obtain ⟨hlen, hall⟩ := ih hrest hstorable hds
        exact ⟨by rw [List.length_cons, List.length_cons, hlen],
          List.forall_mem_cons.2 ⟨⟨hstorable, h hv ha⟩, hall⟩⟩

theorem Gives.table? (hn : n < twoTo 64) (h : Gives n f P) : Gives n (table? f) (Table.Storable P) := by
  intro i t hi ht
  unfold Image.table? at ht
  split at ht
  · next es hes =>
    obtain ⟨l, hl, rfl⟩ := Option.map_eq_some_iff.1 ht
    cases bounded_of_untag hi hes with
    | map size keys values =>
      obtain ⟨hlen, hall⟩ := entries?_spec hn h (fun e he => ⟨keys e he, values e he⟩) storable_nil hl
      exact storable_ofList (hlen ▸ size) hall
  · split at ht
    · cases ht
      exact storable_empty
    · cases ht
  · cases ht

theorem textEntries?_spec (hn : n < twoTo 64) {es : List (Item × Item)}
    (hes : ∀ e ∈ es, Bounded n e.1 ∧ Bounded n e.2) {name value : Text} (hname : name.Storable)
    (hvalue : value.Storable) {l : List (Text × Text)} (hl : textEntries? name value es = some l) :
    l.length = es.length ∧ ∀ e ∈ l, e.1.Storable ∧ e.2.Storable := by
  induction es generalizing name value l with
  | nil =>
    cases hl
    simp
  | cons e es ih =>
    obtain ⟨⟨hk, hv⟩, hrest⟩ := List.forall_mem_cons.1 hes
    rw [textEntries?] at hl
    split at hl
    · cases hl
    · next name' hname' =>
      have hstorable := gives_textOr? hn hname hk hname'
      split at hl
      · cases hl
      · next value' hvalue' =>
        have hstorable' := gives_textOr? hn hvalue hv hvalue'
        obtain ⟨ds, hds, rfl⟩ := Option.map_eq_some_iff.1 hl
        obtain ⟨hlen, hall⟩ := ih hrest hstorable hstorable' hds
        exact ⟨by rw [List.length_cons, List.length_cons, hlen],
          List.forall_mem_cons.2 ⟨⟨hstorable, hstorable'⟩, hall⟩⟩

theorem gives_textTable? (hn : n < twoTo 64) : Gives n textTable? (Table.Storable Text.Storable) := by
  intro i t hi ht
  unfold textTable? at ht
  split at ht
  · next es hes =>
    obtain ⟨l, hl, rfl⟩ := Option.map_eq_some_iff.1 ht
    cases bounded_of_untag hi hes with
    | map size keys values =>
      obtain ⟨hlen, hall⟩ := textEntries?_spec hn (fun e he => ⟨keys e he, values e he⟩) storable_nil
        storable_nil hl
      exact storable_ofList (hlen ▸ size) hall
  · split at ht
    · cases ht
      exact storable_empty
    · cases ht
  · cases ht

end Tables

section Records

theorem bounded_of_fields? {i : Item} {es : List (Item × Item)} (hi : Bounded n i)
    (hes : fields? i = some es) : ∀ e ∈ es, Bounded n e.2 := by
  unfold fields? at hes
  split at hes
  · next ds hds =>
    split at hes
    · cases hes
      cases bounded_of_untag hi hds with
      | map _ _ values => exact values
    · cases hes
  · split at hes
    · cases hes
      simp
    · cases hes
  · cases hes

/-- A field has the property of what is missing or of what its item gives. -/
theorem Gives.get? (h : Gives n f P) {es : List (Item × Item)} (hes : ∀ e ∈ es, Bounded n e.2) {k : ℕ}
    {missing a : α} (hmissing : P missing) (ha : get? es k missing f = some a) : P a := by
  unfold Image.get? at ha
  split at ha
  · next e he => exact h (hes e (List.mem_of_find?_eq_some he)) ha
  · cases ha
    exact hmissing

theorem gives_literal? (hn : n < twoTo 64) : Gives n literal? fun l => l.unsignZero.Storable := by
  intro i l hi hl
  simp only [literal?, Option.bind_eq_bind, Option.bind_eq_some_iff] at hl
  obtain ⟨es, hes, kind, -, int, -, float, -, str, hstr, hl⟩ := hl
  cases hl
  have htext : Text.Storable str := (gives_text? hn).get? (bounded_of_fields? hi hes) storable_nil hstr
  unfold Literal.unsignZero
  split
  · exact ⟨htext, fun _ => rfl⟩
  · next hzero => exact ⟨htext, fun h => absurd h hzero⟩

theorem gives_optionalLiteral? (hn : n < twoTo 64) :
    Gives n optionalLiteral? fun o => ∀ l ∈ o, l.unsignZero.Storable := by
  intro i o hi ho l hl
  unfold optionalLiteral? at ho
  split at ho
  · cases ho
    cases hl
  · obtain ⟨k, hk, rfl⟩ := Option.map_eq_some_iff.1 ho
    cases hl
    exact gives_literal? hn hi hk

theorem gives_operand? (hn : n < twoTo 64) : Gives n operand? fun o =>
    o.name.Storable ∧ o.member.Storable ∧ ∀ l ∈ o.lit, l.unsignZero.Storable := by
  intro i o hi ho
  simp only [operand?, Option.bind_eq_bind, Option.bind_eq_some_iff] at ho
  obtain ⟨es, hes, int, -, int2, -, name, hname, member, hmember, lit, hlit, ho⟩ := ho
  cases ho
  have hbounded := bounded_of_fields? hi hes
  exact ⟨(gives_text? hn).get? hbounded storable_nil hname,
    (gives_text? hn).get? hbounded storable_nil hmember,
    (gives_optionalLiteral? hn).get? hbounded (by simp) hlit⟩

theorem gives_instruction? (hn : n < twoTo 64) :
    Gives n instruction? fun i => (i.mapLiteral Literal.unsignZero).Storable := by
  intro i ins hi hins
  simp only [instruction?, Option.bind_eq_bind, Option.bind_eq_some_iff] at hins
  obtain ⟨es, hes, op, -, operand, hoperand, line, -, col, -, file, hfile, hins⟩ := hins
  cases hins
  have hbounded := bounded_of_fields? hi hes
  obtain ⟨hname, hmember, hlit⟩ :=
    (gives_operand? hn).get? hbounded ⟨storable_nil, storable_nil, by simp⟩ hoperand
  refine ⟨⟨hname, hmember, fun l hl => ?_⟩, (gives_text? hn).get? hbounded storable_nil hfile⟩
  obtain ⟨k, hk, rfl⟩ := Option.map_eq_some_iff.1 hl
  exact hlit k hk

theorem allStorable_nil : Text.AllStorable [] := ⟨Nat.zero_le _, by simp⟩

theorem gives_function? (hn : n < twoTo 64) : Gives n function? Function.Storable := by
  intro i fn hi hfn
  simp only [function?, Option.bind_eq_bind, Option.bind_eq_some_iff] at hfn
  obtain ⟨es, hes, name, hname, address, -, params, hparams, hfn⟩ := hfn
  cases hfn
  have hbounded := bounded_of_fields? hi hes
  exact ⟨(gives_text? hn).get? hbounded storable_nil hname,
    (gives_texts? hn).get? hbounded allStorable_nil hparams⟩

theorem gives_class? (hn : n < twoTo 64) : Gives n class? ClassInfo.Storable := by
  intro i c hi hc
  simp only [class?, Option.bind_eq_bind, Option.bind_eq_some_iff] at hc
  obtain ⟨es, hes, name, hname, base, hbase, fields, hfields, statics, hstatics, methods, hmethods,
    staticMethods, hstaticMethods, hc⟩ := hc
  cases hc
  have hbounded := bounded_of_fields? hi hes
  exact {
    name := (gives_text? hn).get? hbounded storable_nil hname
    base := (gives_text? hn).get? hbounded storable_nil hbase
    fields := (gives_texts? hn).get? hbounded allStorable_nil hfields
    statics := (gives_texts? hn).get? hbounded allStorable_nil hstatics
    methods := (gives_textTable? hn).get? hbounded storable_empty hmethods
    staticMethods := (gives_textTable? hn).get? hbounded storable_empty hstaticMethods }

/-- What is read from any item within the bounds is a program that an image gives back, but for the
sign of zeros. -/
theorem gives_program? (hn : n < twoTo 64) :
    Gives n program? fun p => (p.mapLiterals Literal.unsignZero).Storable := by
  intro i p hi hp
  simp only [program?, Option.bind_eq_bind, Option.bind_eq_some_iff] at hp
  obtain ⟨es, hes, file, hfile, code, hcode, functions, hfunctions, classes, hclasses, enums, henums,
    hp⟩ := hp
  cases hp
  have hbounded := bounded_of_fields? hi hes
  have hinstructions := (gives_instruction? hn).optionalList?.get? hbounded (by simp) hcode
  have hmembers : Gives n (optionalList? text?) fun o => ∀ l ∈ o, Text.AllStorable l :=
    fun j o hj ho l hl => ⟨((gives_text? hn).optionalList? hj ho l hl).1,
      ((gives_text? hn).optionalList? hj ho l hl).2⟩
  refine {
    file := (gives_text? hn).get? hbounded storable_nil hfile
    size := ?_
    code := ?_
    functions := ((gives_function? hn).table? hn).get? hbounded storable_empty hfunctions
    classes := ((gives_class? hn).table? hn).get? hbounded storable_empty hclasses
    enums := (hmembers.table? hn).get? hbounded storable_empty henums }
  · rw [code_mapLiterals, Array.size_map]
    cases code with
    | none => exact Nat.zero_le _
    | some l => exact (hinstructions l rfl).1
  · intro j hj
    rw [code_mapLiterals, Array.toList_map] at hj
    obtain ⟨ins, hins, rfl⟩ := List.mem_map.1 hj
    cases code with
    | none => cases hins
    | some l => exact (hinstructions l rfl).2 ins (by simpa [Program.code] using hins)

end Records

/-- The sign of a zero is not written. -/
theorem ofLiteral_unsignZero (l : Literal) : ofLiteral l.unsignZero = ofLiteral l := by
  unfold Literal.unsignZero
  split
  · next hzero =>
    have hplain : Binary64.isZero ⟨0⟩ = true := by decide
    simp [ofLiteral, hzero, hplain, fieldIf]
  · rfl

/-- What an image that is accepted holds. -/
theorem holds_of_decode {x : Text} {p : Program} (h : decode x = .ok p) :
    p.defect? = none ∧ ∃ i, Item.parse (x.drop 6) = some i ∧ program? i = some p := by
  unfold decode at h
  split at h
  · cases h
  split at h
  · cases h
  split at h
  · cases h
  split at h
  · cases h
  next q hq =>
  split at h
  · cases h
  next hvalid =>
  cases h
  exact ⟨hvalid, Option.bind_eq_some_iff.1 hq⟩

/-- A program that is read from any byte string, of a length that a word can say, is one that a machine
takes; its own image is accepted and gives it back with numbers compared as such, and what is given
back has the same image. -/
theorem decode_encode_of_decode {x : Text} {p : Program} (small : x.length < twoTo 63)
    (h : decode x = .ok p) :
    p.defect? = none ∧ ∃ q, decode (encode p) = .ok q ∧ q.Alike p ∧ encode q = encode p := by
  obtain ⟨hvalid, i, hparse, hprogram⟩ := holds_of_decode h
  have hdrop : (x.drop 6).length < twoTo 64 := by
    have htwo : twoTo 64 = 2 * twoTo 63 := rfl
    rw [List.length_drop]
    omega
  -- Without the signs of its zeros the program is one that an image gives back, and has the same image.
  have hstorable : (p.mapLiterals Literal.unsignZero).Storable :=
    gives_program? hdrop (Item.bounded_of_parse hparse) hprogram
  have hvalid' : (p.mapLiterals Literal.unsignZero).defect? = none :=
    (defect?_mapLiterals _ p).trans hvalid
  have hsame : encode (p.mapLiterals Literal.unsignZero) = encode p :=
    encode_mapLiterals (fun l => congrArg Item.encode (ofLiteral_unsignZero l)) p
  refine ⟨hvalid, (p.mapLiterals Literal.unsignZero).canonical, ?_, ?_, ?_⟩
  · rw [← hsame]
    exact decode_encode_eq_canonical hvalid' hstorable
  · have hcanonical : (p.mapLiterals Literal.unsignZero).canonical =
        p.mapLiterals (Literal.canonical ∘ Literal.unsignZero) :=
      p.mapLiterals_mapLiterals Literal.unsignZero Literal.canonical
    rw [hcanonical]
    exact p.alike_mapLiterals Literal.alike_canonical_unsignZero
  · rw [encode_canonical, hsame]

/-- An image with indefinite sizes, a number in too many bytes, fields in another order, one unknown
and one repeated, and minus zero for a constant. -/
theorem decode_encode_of_minus_zero :
    let x : Text := [67, 70, 71, 66, 1, 0, 0xBF, 0x18, 2, 0x9F, 0xA3, 2, 0xA1, 5, 0xA3, 3, 0xF9, 0x80, 0,
      1, 5, 1, 7, 1, 0x10, 0x18, 99, 0xF6, 0xA1, 1, 0x18, 0x44, 0xFF, 0xFF]
    let p : Program := { code? := some #[
      { op := 0x10, operand := { lit := some (.ofFloat ⟨0x8000000000000000⟩) } }, { op := 0x44 }] }
    x.length < twoTo 63 ∧ decode x = .ok p ∧
      ∃ q, decode (encode p) = .ok q ∧ q.Alike p ∧ encode q = encode p := by
  intro x p
  have small : x.length < twoTo 63 := by decide
  have h : decode x = .ok p := by decide +kernel
  exact ⟨small, h, (decode_encode_of_decode small h).2⟩

end Image

end BytecodeMachine
