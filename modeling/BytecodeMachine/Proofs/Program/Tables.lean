import BytecodeMachine.Program.Table
import Mathlib.Data.List.Nodup
import Mathlib.Data.List.Perm.Basic

/-! Tables made of lists: what they find, and that the order of the list does not matter. -/
namespace BytecodeMachine

theorem lookup_cons_eq {α : Type} (x : Text) (e : Text × α) (es : List (Text × α)) :
    (e :: es).lookup x = if x = e.1 then some e.2 else es.lookup x := by
  obtain ⟨k, a⟩ := e
  rw [List.lookup_cons]
  by_cases hx : x = k
  · rw [if_pos hx, beq_iff_eq.mpr hx]
  · rw [if_neg hx, beq_eq_false_iff_ne.mpr hx]

theorem mem_of_lookup {α : Type} {name : Text} {a : α} {es : List (Text × α)}
    (h : es.lookup name = some a) : (name, a) ∈ es := by
  obtain ⟨before, after, rfl, -⟩ := List.lookup_eq_some_iff.mp h
  exact List.mem_append_right _ (List.mem_cons_self ..)

namespace Table

variable {α : Type}

theorem lookup_place (name x : Text) (a : α) (es : List (Text × α)) :
    (place name a es).lookup x = if x = name then some a else es.lookup x := by
  induction es with
  | nil => exact lookup_cons_eq x (name, a) []
  | cons e es ih =>
    rw [place]
    split
    · exact lookup_cons_eq x (name, a) (e :: es)
    · split
      · next heq =>
        rw [lookup_cons_eq, lookup_cons_eq, ← heq]
        by_cases hx : x = name
        · rw [if_pos hx, if_pos hx]
        · rw [if_neg hx, if_neg hx, if_neg hx]
      · next hne =>
        rw [lookup_cons_eq, lookup_cons_eq, ih]
        by_cases hx : x = e.1
        · rw [if_pos hx, if_pos hx, if_neg fun h => hne (h.symm.trans hx)]
        · rw [if_neg hx, if_neg hx]

theorem get?_insert (t : Table α) (name x : Text) (a : α) :
    (t.insert name a).get? x = if x = name then some a else t.get? x := lookup_place name x a t.entries

theorem get?_foldl_insert_of_not_mem {es : List (Text × α)} {x : Text} (hx : x ∉ es.map (·.1))
    (t : Table α) : (es.foldl (fun t e => t.insert e.1 e.2) t).get? x = t.get? x := by
  induction es generalizing t with
  | nil => rfl
  | cons e es ih =>
    rw [List.map_cons, List.mem_cons, not_or] at hx
    rw [List.foldl_cons, ih hx.2, get?_insert, if_neg hx.1]

/-- A table made of a list finds every entry whose name occurs once. -/
theorem get?_ofList {es : List (Text × α)} (nodup : (es.map (·.1)).Nodup) {e : Text × α}
    (he : e ∈ es) : (ofList es).get? e.1 = some e.2 := by
  have hall (t : Table α) : (es.foldl (fun t e => t.insert e.1 e.2) t).get? e.1 = some e.2 := by
    induction es generalizing t with
    | nil => cases he
    | cons d ds ih =>
      rw [List.map_cons, List.nodup_cons] at nodup
      rw [List.foldl_cons]
      rcases List.mem_cons.mp he with rfl | he
      · rw [get?_foldl_insert_of_not_mem nodup.1, get?_insert, if_pos rfl]
      · exact ih nodup.2 he _
  exact hall empty

theorem mem_of_mem_entries_ofList {es : List (Text × α)} {e : Text × α}
    (h : e ∈ (ofList es).entries) : e ∈ es := by
  have hall (es : List (Text × α)) (t : Table α)
      (h : e ∈ (es.foldl (fun t e => t.insert e.1 e.2) t).entries) : e ∈ es ∨ e ∈ t.entries := by
    induction es generalizing t with
    | nil => exact Or.inr h
    | cons d ds ih =>
      rcases ih _ h with h | h
      · exact Or.inl (List.mem_cons_of_mem d h)
      · rcases mem_place h with rfl | h
        · exact Or.inl List.mem_cons_self
        · exact Or.inr h
  exact (hall es empty h).resolve_right (by simp [empty])

theorem length_place_le (name : Text) (a : α) (es : List (Text × α)) :
    (place name a es).length ≤ es.length + 1 := by
  induction es with
  | nil => simp [place]
  | cons e es ih =>
    rw [place]
    split
    · simp
    · split
      · simp
      · simpa using ih

theorem size_ofList_le (es : List (Text × α)) : (ofList es).size ≤ es.length := by
  have hfold (t : Table α) :
      (es.foldl (fun t e => t.insert e.1 e.2) t).size ≤ t.size + es.length := by
    induction es generalizing t with
    | nil => simp
    | cons e es ih =>
      have hplace : (t.insert e.1 e.2).size ≤ t.size + 1 := length_place_le e.1 e.2 t.entries
      have hrest := ih (t.insert e.1 e.2)
      rw [List.foldl_cons, List.length_cons]
      omega
  simpa [ofList, empty, size] using hfold empty

theorem nodup_names (t : Table α) : (t.entries.map (·.1)).Nodup := by
  have hne : t.entries.Pairwise fun a b => a.1 ≠ b.1 := by
    refine t.sorted.imp fun {a b} hlt heq => ?_
    rw [heq, Text.lt_irrefl] at hlt
    cases hlt
  exact List.pairwise_map.mpr hne

theorem mem_entries_of_get? {t : Table α} {name : Text} {a : α} (h : t.get? name = some a) :
    (name, a) ∈ t.entries := mem_of_lookup h

/-- A table is made of its entries in whatever order they are given. -/
theorem ofList_eq_of_perm {t : Table α} {es : List (Text × α)} (h : es.Perm t.entries) :
    ofList es = t := by
  have hnames : (es.map (·.1)).Nodup := (h.map _).nodup_iff.mpr t.nodup_names
  have hmem (e : Text × α) : e ∈ (ofList es).entries ↔ e ∈ t.entries := by
    rw [← h.mem_iff]
    exact ⟨mem_of_mem_entries_ofList, fun he => mem_entries_of_get? (get?_ofList hnames he)⟩
  have hperm : (ofList es).entries.Perm t.entries :=
    (List.perm_ext_iff_of_nodup (ofList es).nodup_names.of_map t.nodup_names.of_map).mpr hmem
  refine ext (hperm.eq_of_pairwise (fun a b _ _ hab hba => ?_) (ofList es).sorted t.sorted)
  have hlt := Text.lt_trans hab hba
  rw [Text.lt_irrefl] at hlt
  cases hlt

end Table

end BytecodeMachine
