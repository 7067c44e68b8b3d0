import BytecodeMachine.Proofs.Text.Encoding

/-!
Search in texts. Only the first byte of a character is no byte that goes on with one, so the bytes
of some characters are found in the bytes of others only where these characters are found, and the
first place of the bytes is the first place of the characters.
-/
namespace BytecodeMachine.Text

variable {sub s : Text} {ch : Char} {cs ds : List Char} {b : UInt8} {i k : Nat}

/-- Whether a list has another one at a position, and at none before. -/
structure FirstAt {α : Type} (sub s : List α) (i : Nat) : Prop where
  here : sub <+: s.drop i
  before : ∀ j < i, ¬ sub <+: s.drop j

/-! Bytes. -/

theorem indexOf?_cons_of_start (h : sub <+: b :: s) : indexOf? sub (b :: s) = some 0 :=
  if_pos (List.isPrefixOf_iff_prefix.2 h)

theorem indexOf?_cons_of_no_start (h : ¬ sub <+: b :: s) :
    indexOf? sub (b :: s) = (indexOf? sub s).map (· + 1) :=
  if_neg fun hstart => h (List.isPrefixOf_iff_prefix.1 hstart)

/-- What is found is the first place. -/
theorem firstAt_of_indexOf? (h : indexOf? sub s = some i) : FirstAt sub s i := by
  induction s generalizing i with
  | nil =>
    rw [indexOf?] at h
    split at h
    · next hempty =>
      cases h
      exact ⟨by rw [List.isEmpty_iff.1 hempty]; exact List.nil_prefix, fun j hj => by omega⟩
    · cases h
  | cons b s ih =>
    by_cases hstart : sub <+: b :: s
    · rw [indexOf?_cons_of_start hstart] at h
      cases h
      exact ⟨hstart, fun j hj => by omega⟩
    · rw [indexOf?_cons_of_no_start hstart] at h
      obtain ⟨i', hi', rfl⟩ := Option.map_eq_some_iff.1 h
      obtain ⟨hhere, hbefore⟩ := ih hi'
      refine ⟨hhere, fun j hj => ?_⟩
      cases j with
      | zero => exact hstart
      | succ j => exact hbefore j (by omega)

/-- Nothing is found where there is no place. -/
theorem not_here_of_indexOf? (h : indexOf? sub s = none) (i : Nat) : ¬ sub <+: s.drop i := by
  induction s generalizing i with
  | nil =>
    rw [indexOf?] at h
    split at h
    · cases h
    · next hempty =>
      intro hstart
      rw [List.drop_nil] at hstart
      exact hempty (List.isEmpty_iff.2 (List.prefix_nil.1 hstart))
  | cons b s ih =>
    by_cases hstart : sub <+: b :: s
    · rw [indexOf?_cons_of_start hstart] at h
      cases h
    · rw [indexOf?_cons_of_no_start hstart] at h
      cases i with
      | zero => exact hstart
      | succ i => exact ih (Option.map_eq_none_iff.1 h) i

/-! Characters. -/

theorem isTail_ofNat {n : Nat} (hn : n < 256) :
    isTail (UInt8.ofNat n) = true ↔ 0x80 ≤ n ∧ n ≤ 0xBF := by
  rw [isTail_iff, toNat_byte hn]

/-- A character starts with a byte that goes on with none, and all others do. -/
theorem ofChar_lead (ch : Char) : ∃ a rest, ofChar ch = a :: rest ∧ isTail a = false ∧
    ∀ b ∈ rest, isTail b = true := by
  have hlt := toNat_lt ch
  have hlead {n : Nat} (hn : n < 256) (h : n < 0x80 ∨ 0xBF < n) :
      isTail (UInt8.ofNat n) = false := by
    rw [← Bool.not_eq_true, isTail_ofNat hn]
    omega
  have htails (ns : List Nat) :
      ∀ b ∈ ns.map fun n => UInt8.ofNat (n % 64 + 0x80), isTail b = true := by
    intro b hb
    obtain ⟨n, -, rfl⟩ := List.mem_map.1 hb
    exact (isTail_ofNat (by omega)).2 (by omega)
  by_cases hone : ch.toNat ≤ 0x7F
  · exact ⟨_, _, ofChar_one rfl hone, hlead (by omega) (by omega), nofun⟩
  by_cases htwo : ch.toNat ≤ 0x7FF
  · exact ⟨_, _, ofChar_two rfl (by omega) htwo, hlead (by omega) (by omega),
      htails [ch.toNat]⟩
  by_cases hthree : ch.toNat ≤ 0xFFFF
  · exact ⟨_, _, ofChar_three rfl (by omega) hthree, hlead (by omega) (by omega),
      htails [ch.toNat / 64, ch.toNat]⟩
  · exact ⟨_, _, ofChar_four rfl (by omega), hlead (by omega) (by omega),
      htails [ch.toNat / 4096, ch.toNat / 64, ch.toNat]⟩

theorem length_ofChar_pos (ch : Char) : 0 < (ofChar ch).length := by
  obtain ⟨a, rest, h, -⟩ := ofChar_lead ch
  rw [h]
  exact Nat.succ_pos _

theorem ofChars_take_append_drop (cs : List Char) (k : Nat) :
    ofChars (cs.take k) ++ ofChars (cs.drop k) = ofChars cs := by
  rw [← ofChars_append, List.take_append_drop]

theorem drop_ofChars (cs : List Char) (k : Nat) :
    (ofChars cs).drop (ofChars (cs.take k)).length = ofChars (cs.drop k) := by
  rw [← ofChars_take_append_drop cs k, List.drop_left]

theorem take_ofChars (cs : List Char) (k : Nat) :
    (ofChars cs).take (ofChars (cs.take k)).length = ofChars (cs.take k) := by
  have h : (ofChars (cs.take k) ++ ofChars (cs.drop k)).take (ofChars (cs.take k)).length =
      ofChars (cs.take k) := List.take_left
  rwa [ofChars_take_append_drop] at h

/-- Characters are at the start of others where their bytes are at the start of theirs. -/
theorem ofChars_prefix_iff : ofChars ds <+: ofChars cs ↔ ds <+: cs := by
  constructor
  · rintro ⟨rest, h⟩
    have hrunes : ds.map Rune.scalar ++ runes rest = cs.map Rune.scalar := by
      rw [← runes_ofChars ds, ← runes_ofChars cs, ← h, runes_append (isValid_ofChars ds)]
    obtain ⟨ds', cs', hcs, hds, -⟩ := List.map_eq_append_iff.1 hrunes.symm
    exact ⟨cs', by rw [hcs, (List.map_inj_right fun _ _ => Rune.scalar.inj).1 hds]⟩
  · rintro ⟨rest, rfl⟩
    exact ⟨ofChars rest, (ofChars_append ds rest).symm⟩

/-- A byte that goes on with no character, and the end, stand where a character may start. -/
theorem exists_take_of_lead (hi : i ≤ (ofChars cs).length)
    (lead : ∀ b ∈ ((ofChars cs).drop i).head?, isTail b = false) :
    ∃ k ≤ cs.length, i = (ofChars (cs.take k)).length := by
  induction cs generalizing i with
  | nil => exact ⟨0, Nat.le_refl 0, Nat.le_zero.1 hi⟩
  | cons ch cs ih =>
    rw [ofChars_cons] at hi lead
    by_cases hzero : i = 0
    · exact ⟨0, Nat.zero_le _, hzero⟩
    by_cases hpast : (ofChar ch).length ≤ i
    · obtain ⟨n, rfl⟩ := Nat.exists_eq_add_of_le hpast
      rw [List.drop_append] at lead
      rw [List.length_append] at hi
      simp only [List.drop_eq_nil_of_le (Nat.le_add_right _ n), List.nil_append,
        Nat.add_sub_cancel_left] at lead
      obtain ⟨k, hk, rfl⟩ := ih (by omega) lead
      refine ⟨k + 1, Nat.succ_le_succ hk, ?_⟩
      rw [List.take_succ_cons, ofChars_cons, List.length_append]
    · -- In the middle of a character there is a byte that goes on with it.
      obtain ⟨a, rest, hbytes, -, hrest⟩ := ofChar_lead ch
      obtain ⟨n, rfl⟩ := Nat.exists_eq_succ_of_ne_zero hzero
      rw [hbytes] at hpast lead
      simp only [List.length_cons, Nat.not_le] at hpast
      have hn : n < rest.length := by omega
      have hhead : ((a :: rest ++ ofChars cs).drop (n + 1)).head? = some rest[n] := by
        rw [List.head?_drop, List.cons_append, List.getElem?_cons_succ,
          List.getElem?_append_left hn, List.getElem?_eq_getElem hn]
      have htrue := hrest rest[n] (List.getElem_mem hn)
      rw [lead rest[n] hhead] at htrue
      cases htrue

/-- Where the bytes of some characters are found, these characters are found. -/
theorem exists_take_of_here (hi : i ≤ (ofChars cs).length)
    (h : ofChars ds <+: (ofChars cs).drop i) (hds : ds ≠ []) :
    ∃ k ≤ cs.length, i = (ofChars (cs.take k)).length := by
  refine exists_take_of_lead hi ?_
  obtain ⟨d, ds, rfl⟩ := List.exists_cons_of_ne_nil hds
  obtain ⟨rest, hrest⟩ := h
  obtain ⟨a, tail, hbytes, hlead, -⟩ := ofChar_lead d
  rw [← hrest, ofChars_cons, hbytes]
  intro b hb
  cases hb
  exact hlead

/-- The place of the bytes of some characters, as a number of characters before it. -/
theorem firstAt_of_indexOf?_ofChars (h : indexOf? (ofChars ds) (ofChars cs) = some i) :
    ∃ k ≤ cs.length, i = (ofChars (cs.take k)).length ∧ FirstAt ds cs k := by
  obtain ⟨hhere, hbefore⟩ := firstAt_of_indexOf? h
  have hboundary : ∃ k ≤ cs.length, i = (ofChars (cs.take k)).length := by
    by_cases hds : ds = []
    · -- Nothing is found at once.
      subst hds
      refine ⟨0, Nat.zero_le _, Nat.eq_zero_of_not_pos fun hpos => ?_⟩
      exact hbefore 0 hpos List.nil_prefix
    · refine exists_take_of_here (Nat.le_of_not_lt fun hlt => ?_) hhere hds
      obtain ⟨d, ds, rfl⟩ := List.exists_cons_of_ne_nil hds
      rw [List.drop_eq_nil_of_le (by omega), List.prefix_nil, ofChars_cons] at hhere
      have hpos := length_ofChar_pos d
      rw [(List.append_eq_nil_iff.1 hhere).1] at hpos
      exact absurd hpos (by simp)
  obtain ⟨k, hk, rfl⟩ := hboundary
  rw [drop_ofChars, ofChars_prefix_iff] at hhere
  refine ⟨k, hk, rfl, hhere, fun j hj hstart => ?_⟩
  -- Fewer characters have fewer bytes.
  have hfewer : (ofChars (cs.take j)).length < (ofChars (cs.take k)).length := by
    obtain ⟨n, rfl⟩ := Nat.exists_eq_add_of_lt hj
    have hsplit : cs.take (j + n + 1) = cs.take j ++ (cs.drop j).take (n + 1) := by
      rw [Nat.add_assoc, List.take_add]
    obtain ⟨d, rest, hrest⟩ := List.exists_cons_of_ne_nil
      (l := (cs.drop j).take (n + 1)) (by
        intro hnil
        have hlength := congrArg List.length hnil
        rw [List.length_take, List.length_drop, List.length_nil] at hlength
        omega)
    have hpos := length_ofChar_pos d
    rw [hsplit, hrest, ofChars_append, ofChars_cons, List.length_append, List.length_append]
    omega
  refine hbefore _ hfewer ?_
  rw [drop_ofChars, ofChars_prefix_iff]
  exact hstart

theorem not_here_of_indexOf?_ofChars (h : indexOf? (ofChars ds) (ofChars cs) = none) (k : Nat) :
    ¬ ds <+: cs.drop k := by
  have hnot := not_here_of_indexOf? h (ofChars (cs.take k)).length
  rwa [drop_ofChars, ofChars_prefix_iff] at hnot

theorem startsWith_ofChars : startsWith (ofChars cs) (ofChars ds) = true ↔ ds <+: cs :=
  List.isPrefixOf_iff_prefix.trans ofChars_prefix_iff

end BytecodeMachine.Text
