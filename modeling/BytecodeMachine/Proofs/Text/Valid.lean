import BytecodeMachine.Text.Utf8

/-!
Valid texts put together: a well-formed sequence is read as it is, whatever follows, so that the
positions of a valid text and of what stands after it are those of the whole.
-/
namespace BytecodeMachine.Text

/-- After a valid text the positions go on as if the text after it stood alone. -/
theorem runes_append {s : Text} (h : s.isValid = true) (t : Text) :
    runes (s ++ t) = runes s ++ runes t := by
  unfold isValid at h
  -- One case for each length of a sequence; in all others the text starts with a stray byte.
  fun_induction runes s with
  | case1 => rfl
  | case2 a s hsmall ih =>
    have hcons : runes (a :: (s ++ t)) = .scalar (Char.ofNat a.toNat) :: runes (s ++ t) := by
      rw [runes.eq_def]
      exact if_pos hsmall
    rw [List.cons_append, hcons, ih (by simpa using h), List.cons_append]
  | case4 a hbig b s hlead htail ih =>
    have hcons : runes (a :: b :: (s ++ t)) = scalarOfTwo a b :: runes (s ++ t) := by
      rw [runes.eq_def]
      simp only [hbig, hlead, htail, if_true, if_false]
    rw [List.cons_append, List.cons_append, hcons, ih (by simpa [scalarOfTwo] using h),
      List.cons_append]
  | case7 a hbig b hlead hthree c s htail ih =>
    have hcons : runes (a :: b :: c :: (s ++ t)) = scalarOfThree a b c :: runes (s ++ t) := by
      rw [runes.eq_def]
      simp only [hbig, hlead, hthree, htail, if_true, if_false, Bool.false_eq_true]
    rw [List.cons_append, List.cons_append, List.cons_append, hcons,
      ih (by simpa [scalarOfThree] using h), List.cons_append]
  | case11 a hbig b hlead hthree hfour c htail d s htail' ih =>
    have hcons : runes (a :: b :: c :: d :: (s ++ t)) = scalarOfFour a b c d :: runes (s ++ t) := by
      rw [runes.eq_def]
      simp only [hbig, hlead, hthree, hfour, htail, htail', if_true, if_false, Bool.false_eq_true]
    rw [List.cons_append, List.cons_append, List.cons_append, List.cons_append, hcons,
      ih (by simpa [scalarOfFour] using h), List.cons_append]
  | _ => simp at h

theorem isValid_append {s t : Text} (hs : s.isValid = true) (ht : t.isValid = true) :
    isValid (s ++ t) = true := by
  unfold isValid at ht ⊢
  rw [runes_append hs, List.all_append, Bool.and_eq_true]
  exact ⟨hs, ht⟩

/-- Valid pieces make a valid text. -/
theorem isValid_flatten {pieces : List Text} (h : pieces.all isValid = true) :
    isValid pieces.flatten = true := by
  induction pieces with
  | nil => rfl
  | cons s ss ih =>
    rw [List.all_cons, Bool.and_eq_true] at h
    exact isValid_append h.1 (ih h.2)

end BytecodeMachine.Text
