import BytecodeMachine.Text.Basic

/-!
The byte order of texts is a strict total order.
-/
namespace BytecodeMachine.Text

theorem lt_cons (a b : UInt8) (s t : Text) :
    lt (a :: s) (b :: t) = true ↔ a < b ∨ (a = b ∧ lt s t = true) := by
  have hab : a = b ↔ ¬ a < b ∧ ¬ b < a := by
    constructor
    · rintro rfl
      exact ⟨UInt8.lt_irrefl a, UInt8.lt_irrefl a⟩
    · rintro ⟨h₁, h₂⟩
      apply UInt8.toNat_inj.mp
      have h₁ := UInt8.not_lt.mp h₁
      have h₂ := UInt8.not_lt.mp h₂
      rw [UInt8.le_iff_toNat_le] at h₁ h₂
      omega
  simp only [lt]
  by_cases h₁ : a < b
  · simp [h₁]
  · by_cases h₂ : b < a
    · have hne : a ≠ b := fun h => (hab.mp h).2 h₂
      simp [h₁, h₂, hne]
    · have heq : a = b := hab.mpr ⟨h₁, h₂⟩
      simp [heq, UInt8.lt_irrefl]

theorem lt_irrefl (s : Text) : lt s s = false := by
  induction s with
  | nil => rfl
  | cons a s ih =>
    simp [lt, UInt8.lt_irrefl, ih]

theorem lt_trans {s t u : Text} (h₁ : lt s t = true) (h₂ : lt t u = true) : lt s u = true := by
  induction s generalizing t u with
  | nil =>
    cases u with
    | nil => cases t <;> simp [lt] at h₂
    | cons c u => rfl
  | cons a s ih =>
    cases t with
    | nil => simp [lt] at h₁
    | cons b t =>
      cases u with
      | nil => simp [lt] at h₂
      | cons c u =>
        rw [lt_cons] at h₁ h₂ ⊢
        rcases h₁ with h₁ | ⟨rfl, h₁⟩
        · rcases h₂ with h₂ | ⟨rfl, _⟩
          · exact Or.inl (UInt8.lt_trans h₁ h₂)
          · exact Or.inl h₁
        · rcases h₂ with h₂ | ⟨rfl, h₂⟩
          · exact Or.inl h₂
          · exact Or.inr ⟨rfl, ih h₁ h₂⟩

theorem lt_or_eq_or_gt (s t : Text) : lt s t = true ∨ s = t ∨ lt t s = true := by
  induction s generalizing t with
  | nil =>
    cases t with
    | nil => exact Or.inr (Or.inl rfl)
    | cons b t => exact Or.inl rfl
  | cons a s ih =>
    cases t with
    | nil => exact Or.inr (Or.inr rfl)
    | cons b t =>
      rw [lt_cons, lt_cons]
      by_cases h₁ : a < b
      · exact Or.inl (Or.inl h₁)
      · by_cases h₂ : b < a
        · exact Or.inr (Or.inr (Or.inl h₂))
        · have hab : a = b := by
            apply UInt8.toNat_inj.mp
            have h₁ := UInt8.not_lt.mp h₁
            have h₂ := UInt8.not_lt.mp h₂
            rw [UInt8.le_iff_toNat_le] at h₁ h₂
            omega
          subst hab
          rcases ih t with h | h | h
          · exact Or.inl (Or.inr ⟨rfl, h⟩)
          · exact Or.inr (Or.inl (by rw [h]))
          · exact Or.inr (Or.inr (Or.inr ⟨rfl, h⟩))

end BytecodeMachine.Text
