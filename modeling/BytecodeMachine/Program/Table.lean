import BytecodeMachine.Text.Order

/-!
Tables from names to entries. The names stand in byte order without repetition, so that two tables
with the same entries are equal.
-/
namespace BytecodeMachine

structure Table (α : Type) where
  entries : List (Text × α)
  sorted : entries.Pairwise fun a b => Text.lt a.1 b.1 = true

namespace Table

variable {α : Type}

def empty : Table α := ⟨[], .nil⟩

instance : EmptyCollection (Table α) := ⟨empty⟩
instance : Inhabited (Table α) := ⟨empty⟩

def isEmpty (t : Table α) : Bool := t.entries.isEmpty

def size (t : Table α) : Nat := t.entries.length

def names (t : Table α) : List Text := t.entries.map (·.1)

def get? (t : Table α) (name : Text) : Option α := t.entries.lookup name

def contains (t : Table α) (name : Text) : Bool := (t.get? name).isSome

/-- Puts an entry at its place, over an earlier one of the same name. -/
def place (name : Text) (a : α) : List (Text × α) → List (Text × α)
  | [] => [(name, a)]
  | e :: es =>
    if Text.lt name e.1 then (name, a) :: e :: es
    else if name = e.1 then (name, a) :: es
    else e :: place name a es

theorem mem_place {name : Text} {a : α} {es : List (Text × α)} {e : Text × α}
    (h : e ∈ place name a es) : e = (name, a) ∨ e ∈ es := by
  induction es with
  | nil => exact Or.inl (by simpa [place] using h)
  | cons d ds ih =>
    rw [place] at h
    split at h
    · simpa using h
    · split at h
      · rcases List.mem_cons.mp h with h | h
        · exact Or.inl h
        · exact Or.inr (List.mem_cons_of_mem _ h)
      · rcases List.mem_cons.mp h with h | h
        · exact Or.inr (by simp [h])
        · rcases ih h with h | h
          · exact Or.inl h
          · exact Or.inr (List.mem_cons_of_mem _ h)

theorem sorted_place (name : Text) (a : α) {es : List (Text × α)}
    (h : es.Pairwise fun a b => Text.lt a.1 b.1 = true) :
    (place name a es).Pairwise fun a b => Text.lt a.1 b.1 = true := by
  induction es with
  | nil => simp [place]
  | cons e es ih =>
    rw [List.pairwise_cons] at h
    rw [place]
    split
    · next hlt =>
      refine List.pairwise_cons.mpr ⟨fun d hd => ?_, List.pairwise_cons.mpr h⟩
      rcases List.mem_cons.mp hd with rfl | hd
      · exact hlt
      · exact Text.lt_trans hlt (h.1 d hd)
    · next hge =>
      split
      · next heq =>
        refine List.pairwise_cons.mpr ⟨fun d hd => ?_, h.2⟩
        exact heq ▸ h.1 d hd
      · next hne =>
        refine List.pairwise_cons.mpr ⟨fun d hd => ?_, ih h.2⟩
        rcases mem_place hd with rfl | hd
        · rcases Text.lt_or_eq_or_gt name e.1 with hlt | heq | hgt
          · exact absurd hlt hge
          · exact absurd heq hne
          · exact hgt
        · exact h.1 d hd

def insert (t : Table α) (name : Text) (a : α) : Table α :=
  ⟨place name a t.entries, sorted_place name a t.sorted⟩

def ofList (es : List (Text × α)) : Table α := es.foldl (fun t e => t.insert e.1 e.2) empty

theorem ext {s t : Table α} (h : s.entries = t.entries) : s = t := by
  cases s
  cases t
  cases h
  rfl

instance [DecidableEq α] : DecidableEq (Table α) := fun s t =>
  decidable_of_iff (s.entries = t.entries) ⟨ext, fun h => h ▸ rfl⟩

end Table

end BytecodeMachine
