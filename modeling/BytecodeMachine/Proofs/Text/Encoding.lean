import BytecodeMachine.Proofs.Text.Valid

/-!
Reading and writing characters. The bytes that a character is written as are read as that character,
whatever follows, and the bytes of the positions of a text are the text. So the valid texts are
those that lists of characters are written as.
-/
namespace BytecodeMachine.Text

variable {a b c d : UInt8} {s : Text} {ch : Char} {cs ds : List Char} {n : Nat}

/-! Bytes by their numbers. -/

theorem toNat_byte (h : n < 256) : (UInt8.ofNat n).toNat = n := by
  rw [UInt8.toNat_ofNat', Nat.mod_eq_of_lt h]

theorem byte_eq (h : n = a.toNat) : UInt8.ofNat n = a := by
  rw [h, UInt8.ofNat_toNat]

theorem isTail_iff : isTail b = true ↔ 0x80 ≤ b.toNat ∧ b.toNat ≤ 0xBF := by
  simp [isTail, UInt8.le_iff_toNat_le]

theorem isSecondOfThree_iff : isSecondOfThree a b = true ↔
    0x80 ≤ b.toNat ∧ b.toNat ≤ 0xBF ∧ (a.toNat = 0xE0 → 0xA0 ≤ b.toNat) ∧
      (a.toNat = 0xED → b.toNat ≤ 0x9F) := by
  simp only [isSecondOfThree, Bool.and_eq_true, decide_eq_true_eq, UInt8.le_iff_toNat_le,
    ← UInt8.toNat_inj]
  split <;> split <;> simp_all <;> omega

theorem isSecondOfFour_iff : isSecondOfFour a b = true ↔
    0x80 ≤ b.toNat ∧ b.toNat ≤ 0xBF ∧ (a.toNat = 0xF0 → 0x90 ≤ b.toNat) ∧
      (a.toNat = 0xF4 → b.toNat ≤ 0x8F) := by
  simp only [isSecondOfFour, Bool.and_eq_true, decide_eq_true_eq, UInt8.le_iff_toNat_le,
    ← UInt8.toNat_inj]
  split <;> split <;> simp_all <;> omega

/-! Characters by their numbers. -/

theorem toNat_ofNat (h : n.isValidChar) : (Char.ofNat n).toNat = n := by
  rw [Char.ofNat, dif_pos h]
  rfl

theorem ofChar_one (hn : ch.toNat = n) (h : n ≤ 0x7F) : ofChar ch = [UInt8.ofNat n] := by
  subst hn
  unfold ofChar String.utf8EncodeChar
  exact if_pos h

theorem ofChar_two (hn : ch.toNat = n) (h : 0x7F < n) (h' : n ≤ 0x7FF) :
    ofChar ch = [UInt8.ofNat (n / 64 + 0xC0), UInt8.ofNat (n % 64 + 0x80)] := by
  subst hn
  have hlead : ch.toNat / 64 % 32 = ch.toNat / 64 := Nat.mod_eq_of_lt (by omega)
  unfold ofChar String.utf8EncodeChar
  simp only [Char.toNat_val]
  rw [if_neg (by omega), if_pos h', hlead]

theorem ofChar_three (hn : ch.toNat = n) (h : 0x7FF < n) (h' : n ≤ 0xFFFF) :
    ofChar ch = [UInt8.ofNat (n / 4096 + 0xE0), UInt8.ofNat (n / 64 % 64 + 0x80),
      UInt8.ofNat (n % 64 + 0x80)] := by
  subst hn
  have hlead : ch.toNat / 4096 % 16 = ch.toNat / 4096 := Nat.mod_eq_of_lt (by omega)
  unfold ofChar String.utf8EncodeChar
  simp only [Char.toNat_val]
  rw [if_neg (by omega), if_neg (by omega), if_pos h', hlead]

theorem toNat_lt (ch : Char) : ch.toNat < 0x110000 := by
  have hvalid : ch.toNat.isValidChar := ch.valid
  rcases hvalid with h | h <;> omega

theorem ofChar_four (hn : ch.toNat = n) (h : 0xFFFF < n) :
    ofChar ch = [UInt8.ofNat (n / 262144 + 0xF0), UInt8.ofNat (n / 4096 % 64 + 0x80),
      UInt8.ofNat (n / 64 % 64 + 0x80), UInt8.ofNat (n % 64 + 0x80)] := by
  subst hn
  have hlt := toNat_lt ch
  have hlead : ch.toNat / 262144 % 8 = ch.toNat / 262144 := Nat.mod_eq_of_lt (by omega)
  unfold ofChar String.utf8EncodeChar
  simp only [Char.toNat_val]
  rw [if_neg (by omega), if_neg (by omega), if_neg (by omega), hlead]

/-! One character at the start of a text, by the number of its bytes. -/

theorem runes_one (ha : a.toNat ≤ 0x7F) :
    runes (a :: s) = .scalar (Char.ofNat a.toNat) :: runes s := by
  rw [runes.eq_def]
  exact if_pos (UInt8.lt_iff_toNat_lt.2 (Nat.lt_succ_of_le ha))

theorem runes_two (ha : 0xC2 ≤ a.toNat) (ha' : a.toNat ≤ 0xDF) (hb : isTail b = true) :
    runes (a :: b :: s) = scalarOfTwo a b :: runes s := by
  have hbig : ¬ a < 0x80 := fun h => by
    have hlt := UInt8.lt_iff_toNat_lt.1 h
    simp at hlt
    omega
  have hlead : (decide (0xC2 ≤ a) && decide (a ≤ 0xDF)) = true := by
    simp [UInt8.le_iff_toNat_le, ha, ha']
  rw [runes.eq_def]
  simp only [hbig, hlead, hb, if_true, if_false]

/-- A byte that starts a sequence of three or four is no character alone and starts none of two. -/
theorem lead_of_le (ha : 0xE0 ≤ a.toNat) :
    ¬ a < 0x80 ∧ (decide (0xC2 ≤ a) && decide (a ≤ 0xDF)) = false := by
  have htwo : ¬ a ≤ 0xDF := fun h => by
    have hle := UInt8.le_iff_toNat_le.1 h
    simp at hle
    omega
  refine ⟨fun h => ?_, by simp [htwo]⟩
  have hlt := UInt8.lt_iff_toNat_lt.1 h
  simp at hlt
  omega

theorem runes_three (ha : 0xE0 ≤ a.toNat) (ha' : a.toNat ≤ 0xEF)
    (hb : isSecondOfThree a b = true) (hc : isTail c = true) :
    runes (a :: b :: c :: s) = scalarOfThree a b c :: runes s := by
  obtain ⟨hbig, htwo⟩ := lead_of_le ha
  have hlead : (decide (0xE0 ≤ a) && decide (a ≤ 0xEF) && isSecondOfThree a b) = true := by
    simp [UInt8.le_iff_toNat_le, ha, ha', hb]
  rw [runes.eq_def]
  simp only [hbig, htwo, hlead, hc, if_true, if_false, Bool.false_eq_true]

theorem runes_four (ha : 0xF0 ≤ a.toNat) (ha' : a.toNat ≤ 0xF4)
    (hb : isSecondOfFour a b = true) (hc : isTail c = true) (hd : isTail d = true) :
    runes (a :: b :: c :: d :: s) = scalarOfFour a b c d :: runes s := by
  obtain ⟨hbig, htwo⟩ := lead_of_le (Nat.le_trans (by decide) ha)
  have hthree : (decide (0xE0 ≤ a) && decide (a ≤ 0xEF) && isSecondOfThree a b) = false := by
    have hlarge : ¬ a ≤ 0xEF := fun h => by
      have hle := UInt8.le_iff_toNat_le.1 h
      simp at hle
      omega
    simp [hlarge]
  have hlead : (decide (0xF0 ≤ a) && decide (a ≤ 0xF4) && isSecondOfFour a b) = true := by
    simp [UInt8.le_iff_toNat_le, ha, ha', hb]
  rw [runes.eq_def]
  simp only [hbig, htwo, hthree, hlead, hc, hd, if_true, if_false, Bool.false_eq_true]

/-! What a character is written as is read as that character, by the number of bytes. -/

theorem runes_ofChar_one (hn : ch.toNat = n) (h : n ≤ 0x7F) :
    runes (ofChar ch ++ s) = .scalar ch :: runes s := by
  have ha : (UInt8.ofNat n).toNat = n := toNat_byte (by omega)
  rw [ofChar_one hn h, List.singleton_append, runes_one (by omega), ha, ← hn, Char.ofNat_toNat]

theorem runes_ofChar_two (hn : ch.toNat = n) (h : 0x7F < n) (h' : n ≤ 0x7FF) :
    runes (ofChar ch ++ s) = .scalar ch :: runes s := by
  have ha : (UInt8.ofNat (n / 64 + 0xC0)).toNat = n / 64 + 0xC0 := toNat_byte (by omega)
  have hb : (UInt8.ofNat (n % 64 + 0x80)).toNat = n % 64 + 0x80 := toNat_byte (by omega)
  have hnumber : (n / 64 + 0xC0 - 0xC0) * 64 + (n % 64 + 0x80 - 0x80) = n := by omega
  rw [ofChar_two hn h h', List.cons_append, List.singleton_append,
    runes_two (by omega) (by omega) (isTail_iff.2 (by omega)), scalarOfTwo, ha, hb, hnumber, ← hn,
    Char.ofNat_toNat]

theorem runes_ofChar_three (hn : ch.toNat = n) (h : 0x7FF < n) (h' : n ≤ 0xFFFF) :
    runes (ofChar ch ++ s) = .scalar ch :: runes s := by
  have ha : (UInt8.ofNat (n / 4096 + 0xE0)).toNat = n / 4096 + 0xE0 := toNat_byte (by omega)
  have hb : (UInt8.ofNat (n / 64 % 64 + 0x80)).toNat = n / 64 % 64 + 0x80 := toNat_byte (by omega)
  have hc : (UInt8.ofNat (n % 64 + 0x80)).toNat = n % 64 + 0x80 := toNat_byte (by omega)
  have hnumber : (n / 4096 + 0xE0 - 0xE0) * 4096 + (n / 64 % 64 + 0x80 - 0x80) * 64 +
      (n % 64 + 0x80 - 0x80) = n := by omega
  -- No character has a number between those of the sequences that 0xED starts and those after.
  have hsecond : isSecondOfThree (UInt8.ofNat (n / 4096 + 0xE0))
      (UInt8.ofNat (n / 64 % 64 + 0x80)) = true := by
    have hvalid : n.isValidChar := hn ▸ ch.valid
    rw [isSecondOfThree_iff, ha, hb]
    rcases hvalid with hlow | hhigh <;> refine ⟨by omega, by omega, by omega, by omega⟩
  rw [ofChar_three hn h h', List.cons_append, List.cons_append, List.singleton_append,
    runes_three (by omega) (by omega) hsecond (isTail_iff.2 (by omega)), scalarOfThree, ha, hb, hc,
    hnumber, ← hn, Char.ofNat_toNat]

theorem runes_ofChar_four (hn : ch.toNat = n) (h : 0xFFFF < n) :
    runes (ofChar ch ++ s) = .scalar ch :: runes s := by
  have hlt : n < 0x110000 := hn ▸ toNat_lt ch
  have ha : (UInt8.ofNat (n / 262144 + 0xF0)).toNat = n / 262144 + 0xF0 := toNat_byte (by omega)
  have hb : (UInt8.ofNat (n / 4096 % 64 + 0x80)).toNat = n / 4096 % 64 + 0x80 :=
    toNat_byte (by omega)
  have hc : (UInt8.ofNat (n / 64 % 64 + 0x80)).toNat = n / 64 % 64 + 0x80 := toNat_byte (by omega)
  have hd : (UInt8.ofNat (n % 64 + 0x80)).toNat = n % 64 + 0x80 := toNat_byte (by omega)
  have hnumber : (n / 262144 + 0xF0 - 0xF0) * 262144 + (n / 4096 % 64 + 0x80 - 0x80) * 4096 +
      (n / 64 % 64 + 0x80 - 0x80) * 64 + (n % 64 + 0x80 - 0x80) = n := by omega
  have hsecond : isSecondOfFour (UInt8.ofNat (n / 262144 + 0xF0))
      (UInt8.ofNat (n / 4096 % 64 + 0x80)) = true := by
    rw [isSecondOfFour_iff, ha, hb]
    refine ⟨by omega, by omega, by omega, by omega⟩
  rw [ofChar_four hn h, List.cons_append, List.cons_append, List.cons_append,
    List.singleton_append, runes_four (by omega) (by omega) hsecond (isTail_iff.2 (by omega))
      (isTail_iff.2 (by omega)),
    scalarOfFour, ha, hb, hc, hd, hnumber, ← hn, Char.ofNat_toNat]

theorem runes_ofChar_append (ch : Char) (s : Text) :
    runes (ofChar ch ++ s) = .scalar ch :: runes s := by
  by_cases hone : ch.toNat ≤ 0x7F
  · exact runes_ofChar_one rfl hone
  by_cases htwo : ch.toNat ≤ 0x7FF
  · exact runes_ofChar_two rfl (by omega) htwo
  by_cases hthree : ch.toNat ≤ 0xFFFF
  · exact runes_ofChar_three rfl (by omega) hthree
  · exact runes_ofChar_four rfl (by omega)

/-! All characters of a text. -/

@[simp] theorem ofChars_nil : ofChars [] = [] := rfl

theorem ofChars_cons (ch : Char) (cs : List Char) : ofChars (ch :: cs) = ofChar ch ++ ofChars cs :=
  List.flatMap_cons

theorem ofChars_append (cs ds : List Char) : ofChars (cs ++ ds) = ofChars cs ++ ofChars ds :=
  List.flatMap_append

/-- The positions of what some characters are written as are these characters. -/
theorem runes_ofChars (cs : List Char) : runes (ofChars cs) = cs.map .scalar := by
  induction cs with
  | nil => rw [ofChars_nil, runes, List.map_nil]
  | cons ch cs ih => rw [ofChars_cons, runes_ofChar_append, ih, List.map_cons]

theorem runeCount_ofChars (cs : List Char) : (ofChars cs).runeCount = cs.length := by
  rw [runeCount, runes_ofChars, List.length_map]

theorem isValid_ofChars (cs : List Char) : isValid (ofChars cs) = true := by
  rw [isValid, runes_ofChars, List.all_map]
  exact List.all_eq_true.2 fun _ _ => rfl

theorem ofChars_inj (h : ofChars cs = ofChars ds) : cs = ds := by
  have hrunes : cs.map Rune.scalar = ds.map Rune.scalar := by
    rw [← runes_ofChars, ← runes_ofChars, h]
  exact (List.map_inj_right fun _ _ => Rune.scalar.inj).1 hrunes

/-! And back: a position is written as the bytes it was read from. -/

theorem bytes_scalarOfTwo (ha : 0xC2 ≤ a.toNat) (ha' : a.toNat ≤ 0xDF) (hb : isTail b = true) :
    (scalarOfTwo a b).bytes = [a, b] := by
  have hb := isTail_iff.1 hb
  have hchar := ofChar_two (toNat_ofNat (n := (a.toNat - 0xC0) * 64 + (b.toNat - 0x80))
    (.inl (by omega))) (by omega) (by omega)
  rw [byte_eq (a := a) (by omega), byte_eq (a := b) (by omega)] at hchar
  exact hchar

theorem bytes_scalarOfThree (ha : 0xE0 ≤ a.toNat) (ha' : a.toNat ≤ 0xEF)
    (hb : isSecondOfThree a b = true) (hc : isTail c = true) :
    (scalarOfThree a b c).bytes = [a, b, c] := by
  have hb := isSecondOfThree_iff.1 hb
  have hc := isTail_iff.1 hc
  have hvalid : ((a.toNat - 0xE0) * 4096 + (b.toNat - 0x80) * 64 +
      (c.toNat - 0x80)).isValidChar := by
    by_cases hlow : a.toNat ≤ 0xED
    · by_cases hsurrogates : a.toNat = 0xED
      · exact .inl (by omega)
      · exact .inl (by omega)
    · exact .inr ⟨by omega, by omega⟩
  have hchar := ofChar_three (toNat_ofNat hvalid) (by omega) (by omega)
  rw [byte_eq (a := a) (by omega), byte_eq (a := b) (by omega),
    byte_eq (a := c) (by omega)] at hchar
  exact hchar

theorem bytes_scalarOfFour (ha : 0xF0 ≤ a.toNat) (ha' : a.toNat ≤ 0xF4)
    (hb : isSecondOfFour a b = true) (hc : isTail c = true) (hd : isTail d = true) :
    (scalarOfFour a b c d).bytes = [a, b, c, d] := by
  have hb := isSecondOfFour_iff.1 hb
  have hc := isTail_iff.1 hc
  have hd := isTail_iff.1 hd
  have hvalid : ((a.toNat - 0xF0) * 262144 + (b.toNat - 0x80) * 4096 + (c.toNat - 0x80) * 64 +
      (d.toNat - 0x80)).isValidChar := .inr ⟨by omega, by omega⟩
  have hchar := ofChar_four (toNat_ofNat hvalid) (by omega)
  rw [byte_eq (a := a) (by omega), byte_eq (a := b) (by omega),
    byte_eq (a := c) (by omega), byte_eq (a := d) (by omega)] at hchar
  exact hchar

theorem ofRunes_cons (r : Rune) (rs : List Rune) : ofRunes (r :: rs) = r.bytes ++ ofRunes rs :=
  List.flatMap_cons

theorem lead_bounds {lo hi : UInt8} (h : (decide (lo ≤ a) && decide (a ≤ hi)) = true) :
    lo.toNat ≤ a.toNat ∧ a.toNat ≤ hi.toNat := by
  simpa only [Bool.and_eq_true, decide_eq_true_eq, UInt8.le_iff_toNat_le] using h

/-- The bytes of all positions are the text. -/
theorem ofRunes_runes (s : Text) : ofRunes (runes s) = s := by
  fun_induction runes s with
  | case1 => rfl
  | case2 a s hsmall ih =>
    have hlt := UInt8.lt_iff_toNat_lt.1 hsmall
    simp only [UInt8.reduceToNat] at hlt
    have hchar := ofChar_one (toNat_ofNat (n := a.toNat) (.inl (by omega))) (by omega)
    rw [UInt8.ofNat_toNat] at hchar
    rw [ofRunes_cons, ih]
    exact congrArg (· ++ s) hchar
  | case4 a hbig b s hlead htail ih =>
    obtain ⟨hlo, hhi⟩ := lead_bounds hlead
    rw [ofRunes_cons, ih, bytes_scalarOfTwo hlo hhi htail]
    rfl
  | case7 a hbig b hlead hthree c s htail ih =>
    rw [Bool.and_eq_true] at hthree
    obtain ⟨hlo, hhi⟩ := lead_bounds hthree.1
    rw [ofRunes_cons, ih, bytes_scalarOfThree hlo hhi hthree.2 htail]
    rfl
  | case11 a hbig b hlead hthree hfour c htail d s htail' ih =>
    rw [Bool.and_eq_true] at hfour
    obtain ⟨hlo, hhi⟩ := lead_bounds hfour.1
    rw [ofRunes_cons, ih, bytes_scalarOfFour hlo hhi hfour.2 htail htail']
    rfl
  | case3 => rfl
  | _ =>
    rename_i ih
    rw [ofRunes_cons, ih]
    rfl

/-- The valid texts are those that lists of characters are written as. -/
theorem exists_ofChars (h : s.isValid = true) : ∃ cs, s = ofChars cs := by
  have hscalars : ∀ r ∈ s.runes, r.bytes = ofChar r.char := by
    intro r hr
    have hscalar := List.all_eq_true.1 h r hr
    cases r with
    | scalar ch => rfl
    | stray b => cases hscalar
  refine ⟨s.chars, ?_⟩
  calc
    s = ofRunes s.runes := (ofRunes_runes s).symm
    _ = s.runes.flatMap fun r => ofChar r.char := congrArg List.flatten (List.map_congr_left hscalars)
    _ = ofChars s.chars := (List.flatMap_map ..).symm

end BytecodeMachine.Text
