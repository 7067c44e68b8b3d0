import BytecodeMachine.Proofs.Image.Items

/-!
What any byte string can be read as. A reader takes a text out of the bytes it is given and refuses
containers with too many items, so that every item it returns is within the bounds that writing asks
for, whichever of the many spellings of it was read.
-/
namespace BytecodeMachine.Item

/-- An item whose texts have at most `n` bytes and whose containers are not too long. -/
inductive Bounded (n : ℕ) : Item → Prop
  | unsigned (k : ℕ) : Bounded n (unsigned k)
  | negative (k : ℕ) : Bounded n (negative k)
  | bytes (b : Text) : Bounded n (bytes b)
  | text {pieces : List Text} (fits : pieces.flatten.length ≤ n) : Bounded n (text pieces)
  | array {items : List Item} (size : items.length ≤ sizeLimit)
      (all : ∀ i ∈ items, Bounded n i) : Bounded n (array items)
  | map {entries : List (Item × Item)} (size : entries.length ≤ sizeLimit)
      (keys : ∀ e ∈ entries, Bounded n e.1) (values : ∀ e ∈ entries, Bounded n e.2) :
      Bounded n (map entries)
  | tag (k : ℕ) {content : Item} (h : Bounded n content) : Bounded n (tag k content)
  | simple (k : ℕ) : Bounded n (simple k)
  | float (x : Binary64) : Bounded n (float x)

variable {α : Type} {n : ℕ}

/-- Whether a reader, given at most `n` bytes, returns only what has a property, and takes at least as
many bytes as the size of what it returns. -/
def Takes (n : ℕ) (read : Text → Option (α × Text)) (size : α → ℕ) (P : α → Prop) : Prop :=
  ∀ ⦃t a s⦄, t.length ≤ n → read t = some (a, s) → P a ∧ size a + s.length ≤ t.length

section Many

variable {read : Text → Option (α × Text)} {size : α → ℕ} {P : α → Prop}

theorem Takes.readMany (h : Takes n read size P) (k : ℕ) :
    Takes n (readMany read k) (fun as => (as.map size).sum) fun as => (∀ a ∈ as, P a) ∧ as.length = k := by
  induction k with
  | zero =>
    intro t as s ht hread
    cases hread
    simp
  | succ k ih =>
    intro t as s ht hread
    rw [Item.readMany] at hread
    split at hread
    · cases hread
    · next a t₁ hfirst =>
      obtain ⟨ha, hsize⟩ := h ht hfirst
      split at hread
      · cases hread
      · next rest t₂ hrest =>
        obtain ⟨⟨hall, hlen⟩, hsum⟩ := ih (by omega) hrest
        cases hread
        refine ⟨⟨List.forall_mem_cons.2 ⟨ha, hall⟩, by rw [List.length_cons, hlen]⟩, ?_⟩
        dsimp only at hsum ⊢
        rw [List.map_cons, List.sum_cons]
        omega

theorem Takes.readUntilBreak (h : Takes n read size P) (fuel : ℕ) :
    Takes n (readUntilBreak read fuel) (fun as => (as.map size).sum) fun as => ∀ a ∈ as, P a := by
  induction fuel with
  | zero =>
    intro t as s ht hread
    cases hread
  | succ fuel ih =>
    intro t as s ht hread
    cases t with
    | nil => cases hread
    | cons b t =>
      rw [Item.readUntilBreak] at hread
      split at hread
      · cases hread
        simp
      · split at hread
        · cases hread
        · next a t₁ hfirst =>
          obtain ⟨ha, hsize⟩ := h ht hfirst
          split at hread
          · cases hread
          · next rest t₂ hrest =>
            obtain ⟨hall, hsum⟩ := ih (by omega) hrest
            cases hread
            refine ⟨List.forall_mem_cons.2 ⟨ha, hall⟩, ?_⟩
            dsimp only at hsum ⊢
            rw [List.map_cons, List.sum_cons]
            omega

end Many

section Strings

theorem length_readNumber {width k : ℕ} {t s : Text} (h : readNumber width t = some (k, s)) :
    s.length ≤ t.length := by
  unfold readNumber at h
  split at h
  · cases h
  · cases h
    rw [List.length_drop]
    omega

theorem length_readHead {h : Head} {t s : Text} (hread : readHead t = some (h, s)) :
    s.length < t.length := by
  cases t with
  | nil => cases hread
  | cons b t =>
    rw [readHead] at hread
    rw [List.length_cons]
    split at hread
    · cases hread
      omega
    · split at hread
      · split at hread
        · cases hread
        · next k t₁ hnumber =>
          have hle := length_readNumber hnumber
          split at hread
          · cases hread
          · cases hread
            omega
      · split at hread
        · cases hread
          omega
        · cases hread

theorem takes_readBytes (k : ℕ) : Takes n (readBytes k) List.length fun _ => True := by
  intro t b s ht hread
  unfold readBytes at hread
  split at hread
  · cases hread
  · cases hread
    refine ⟨trivial, ?_⟩
    rw [List.length_take, List.length_drop]
    omega

theorem takes_readPiece (major : ℕ) : Takes n (readPiece major) List.length fun _ => True := by
  intro t b s ht hread
  unfold readPiece at hread
  split at hread
  · next m info k t₁ hhead =>
    have hlt := length_readHead hhead
    split at hread
    · obtain ⟨-, hsize⟩ := takes_readBytes (n := n) k (by omega) hread
      exact ⟨trivial, by omega⟩
    · cases hread
  · cases hread

theorem takes_readPieces (major : ℕ) (k : Option ℕ) :
    Takes n (readPieces major k) (fun ps => ps.flatten.length) fun _ => True := by
  intro t ps s ht hread
  dsimp only
  rw [List.length_flatten]
  cases k with
  | some k =>
    obtain ⟨⟨b, t₁⟩, hbytes, heq⟩ := Option.map_eq_some_iff.1 hread
    cases heq
    obtain ⟨-, hsize⟩ := takes_readBytes k ht hbytes
    exact ⟨trivial, by simpa using hsize⟩
  | none => exact ⟨trivial, ((takes_readPiece major).readUntilBreak _ ht hread).2⟩

end Strings

section Containers

/-- A container gives as many items as it says, or those up to a break, within the limit. -/
theorem Takes.readContainer {read : Text → Option (Item × Text)} {P : Item → Prop}
    (h : Takes n read (fun _ => 0) P) {each : ℕ} (heach : 0 < each) (k : Option ℕ) :
    Takes n (readContainer read each k) (fun _ => 0)
      fun items => (∀ i ∈ items, P i) ∧ items.length / each ≤ sizeLimit := by
  intro t items s ht hread
  cases k with
  | some k =>
    rw [Item.readContainer] at hread
    split at hread
    · cases hread
    · next hle =>
      obtain ⟨⟨hall, hlen⟩, hsize⟩ := h.readMany (each * k) ht hread
      refine ⟨⟨hall, ?_⟩, (Nat.zero_add s.length).trans_le (Nat.le_of_add_left_le hsize)⟩
      rw [hlen, Nat.mul_div_cancel_left _ heach]
      exact not_lt.1 hle
  | none =>
    rw [Item.readContainer] at hread
    split at hread
    · cases hread
    · next is t₁ hall =>
      obtain ⟨hmem, hsize⟩ := h.readUntilBreak _ ht hall
      split at hread
      · cases hread
      · next hle =>
        cases hread
        exact ⟨⟨hmem, not_lt.1 hle⟩, (Nat.zero_add s.length).trans_le (Nat.le_of_add_left_le hsize)⟩

/-- What comes in pairs is the keys and values in turn. -/
theorem eq_inTurn_of_pairUp {items : List Item} {es : List (Item × Item)}
    (h : pairUp items = some es) : items = inTurn es := by
  fun_induction pairUp items generalizing es with
  | case1 =>
    cases h
    rfl
  | case2 k v rest ih =>
    obtain ⟨ds, hrest, rfl⟩ := Option.map_eq_some_iff.1 h
    rw [ih hrest]
    rfl
  | case3 => cases h

/-- Whatever is read is within the bounds. -/
theorem takes_read (depth level : ℕ) : Takes n (read depth level) (fun _ => 0) (Bounded n) := by
  induction depth generalizing level with
  | zero =>
    intro t i s ht hread
    cases hread
  | succ depth ih =>
    intro t i s ht hread
    suffices h : Bounded n i ∧ s.length ≤ t.length from ⟨h.1, by simpa using h.2⟩
    rw [read] at hread
    split at hread
    · cases hread
    next head t₁ hhead =>
    have hlt := length_readHead hhead
    have ht₁ : t₁.length ≤ n := by omega
    split at hread
    case h_1 =>
      cases hread
      exact ⟨.unsigned _, hlt.le⟩
    case h_2 =>
      cases hread
      exact ⟨.negative _, hlt.le⟩
    -- A string, by its pieces.
    case h_3 =>
      obtain ⟨⟨ps, s₁⟩, hps, heq⟩ := Option.map_eq_some_iff.1 hread
      cases heq
      obtain ⟨-, hsize⟩ := takes_readPieces 2 _ ht₁ hps
      dsimp only at hsize ⊢
      exact ⟨.bytes _, by omega⟩
    case h_4 =>
      obtain ⟨⟨ps, s₁⟩, hps, heq⟩ := Option.map_eq_some_iff.1 hread
      cases heq
      obtain ⟨-, hsize⟩ := takes_readPieces 3 _ ht₁ hps
      dsimp only at hsize ⊢
      exact ⟨.text (by omega), by omega⟩
    -- A container, one level down.
    case h_5 =>
      split at hread
      · cases hread
      obtain ⟨⟨is, s₁⟩, his, heq⟩ := Option.map_eq_some_iff.1 hread
      cases heq
      obtain ⟨⟨hall, hlen⟩, hsize⟩ := (ih (level - 1)).readContainer one_pos _ ht₁ his
      dsimp only at hsize ⊢
      exact ⟨.array (by simpa using hlen) hall, by omega⟩
    case h_6 =>
      split at hread
      · cases hread
      split at hread
      · cases hread
      next is s₁ his =>
      obtain ⟨es, hes, heq⟩ := Option.map_eq_some_iff.1 hread
      cases heq
      obtain ⟨⟨hall, hlen⟩, hsize⟩ := (ih (level - 1)).readContainer two_pos _ ht₁ his
      rw [eq_inTurn_of_pairUp hes] at hall hlen
      rw [length_inTurn, Nat.mul_div_cancel_left _ two_pos] at hlen
      dsimp only at hsize
      refine ⟨.map hlen (fun e he => hall _ ?_) fun e he => hall _ ?_, by omega⟩
      · exact List.mem_flatMap.2 ⟨e, he, List.mem_pair.2 (Or.inl rfl)⟩
      · exact List.mem_flatMap.2 ⟨e, he, List.mem_pair.2 (Or.inr rfl)⟩
    -- A tag, in a tag or not.
    case h_7 k hmajor hnumber =>
      have htag {below : ℕ} (h : (read depth below t₁).map (fun r => (tag k r.1, r.2)) = some (i, s)) :
          Bounded n i ∧ s.length ≤ t.length := by
        obtain ⟨⟨content, s₁⟩, hcontent, heq⟩ := Option.map_eq_some_iff.1 h
        cases heq
        obtain ⟨hbounded, hsize⟩ := ih below ht₁ hcontent
        dsimp only at hsize ⊢
        exact ⟨.tag k hbounded, by omega⟩
      split at hread
      · cases hread
      split at hread
      · split at hread
        · cases hread
        · exact htag hread
      · exact htag hread
    case h_8 =>
      cases hread
      refine ⟨?_, hlt.le⟩
      unfold primitive
      split_ifs
      · exact .float _
      · exact .float _
      · exact .float _
      · exact .simple _
    case h_9 => cases hread

end Containers

/-- What a byte string holds is within the bounds. -/
theorem bounded_of_parse {t : Text} {i : Item} (h : parse t = some i) : Bounded t.length i := by
  unfold parse at h
  split at h
  · next j hread =>
    cases h
    exact (takes_read _ _ le_rfl hread).1
  · cases h

end BytecodeMachine.Item
