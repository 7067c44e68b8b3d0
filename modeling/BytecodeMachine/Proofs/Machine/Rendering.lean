import Mathlib.Data.Finset.Card
import Mathlib.Data.List.Nodup
import Mathlib.Logic.Relation
import BytecodeMachine.Machine.Render

/-!
How values are written as text. The store is a graph, and a text follows it as a tree that ends
where a container is met below itself: the outline of a value. Every value has one outline, which is
that of its text; writing with one set of open containers that is changed on the way down and back
gives it as well; and where no way leads back to a container it is what plain recursion over the
parts gives.
-/
namespace BytecodeMachine

open Relation (ReflTransGen TransGen)

/-- The container that a value refers to. -/
def Value.container? : Value → Option Store.Container
  | .array id => some (.array id)
  | .dict id => some (.dict id)
  | _ => none

namespace Store

namespace Container

/-- What stands for a container inside itself. -/
def dots : Container → Text
  | array _ => "[...]"
  | dict _ => "\x7b...\x7d"

/-- Texts of keys and values in turn as texts of pairs. -/
def pairTexts : List Text → List Text
  | k :: v :: rest => (k ++ ": " ++ v) :: pairTexts rest
  | _ => []

/-- The text of a container that has these texts inside. -/
def frame : Container → List Text → Text
  | array _, inside => "[" ++ Text.join ", " inside ++ "]"
  | dict _, inside => "\x7b" ++ Text.join ", " (pairTexts inside) ++ "\x7d"

end Container

/-- What a container holds, keys and values of a dictionary in turn. -/
def parts (s : Store) : Container → List Value
  | .array id => s.array id
  | .dict id => (s.dict id).entries.toList.flatMap fun e => [e.1, e.2]

/-- The text of a value, bare or as it stands inside a container. -/
def rendering (s : Store) (quoted : Bool) (v : Value) : Text :=
  if quoted then s.repr v else s.text v

variable {s : Store} {path : List Container} {quoted : Bool} {v w : Value} {c d : Container}

theorem pairTexts_flatMap (f : Value → Text) (es : List (Value × Value)) :
    Container.pairTexts ((es.flatMap fun e => [e.1, e.2]).map f) =
      es.map fun e => f e.1 ++ ": " ++ f e.2 := by
  induction es with
  | nil => rfl
  | cons e es ih =>
    rw [List.flatMap_cons, List.map_append, List.map_cons]
    exact congrArg (List.cons _) ih

theorem renderIn_scalar (depth : ℕ) (h : v.container? = none) :
    s.renderIn depth path quoted v = s.scalarText quoted v := by
  cases depth with
  | zero => rfl
  | succ depth => cases v <;> first | rfl | cases h

theorem renderIn_again (depth : ℕ) (h : v.container? = some c) (hc : c ∈ path) :
    s.renderIn (depth + 1) path quoted v = c.dots := by
  have hcontains : path.contains c = true := List.contains_iff_mem.2 hc
  cases v <;> cases h <;> simp only [renderIn, hcontains, if_true] <;> rfl

theorem renderIn_full (depth : ℕ) (h : v.container? = some c) (hc : c ∉ path) :
    s.renderIn (depth + 1) path quoted v =
      c.frame ((s.parts c).map (s.renderIn depth (c :: path) true)) := by
  have hcontains : ¬ path.contains c = true := fun hmem => hc (List.contains_iff_mem.1 hmem)
  cases v <;> cases h <;> simp only [renderIn, hcontains, if_false, Bool.false_eq_true]
  · rfl
  · rw [parts, Container.frame, pairTexts_flatMap]

/-- The shape of the text of a value. -/
inductive Outline where
  | scalar (text : Text)
  | dots (c : Container)
  | box (c : Container) (inside : List Outline)

namespace Outline

mutual
def text : Outline → Text
  | scalar t => t
  | dots c => c.dots
  | box c inside => c.frame (texts inside)

def texts : List Outline → List Text
  | [] => []
  | o :: os => o.text :: texts os
end

theorem texts_eq_map (os : List Outline) : texts os = os.map text := by
  induction os with
  | nil => rfl
  | cons o os ih => rw [texts, ih, List.map_cons]

/-- The outline that is found by going down to the part of each number in turn. -/
def at? : Outline → List ℕ → Option Outline
  | o, [] => some o
  | box _ inside, i :: p =>
    match inside[i]? with
    | some o => o.at? p
    | none => none
  | _, _ :: _ => none

end Outline

/-- Whether an outline is that of a value below the open containers `path`: dots stand for a
container that is open already, and every other container is shown with all that it holds. -/
inductive Outlined (s : Store) : List Container → Bool → Value → Outline → Prop
  | scalar {path : List Container} {quoted : Bool} {v : Value} (h : v.container? = none) :
      Outlined s path quoted v (.scalar (s.scalarText quoted v))
  | again {path : List Container} {quoted : Bool} {v : Value} {c : Container}
      (h : v.container? = some c) (hc : c ∈ path) : Outlined s path quoted v (.dots c)
  | full {path : List Container} {quoted : Bool} {v : Value} {c : Container}
      (h : v.container? = some c) (hc : c ∉ path) (f : Value → Outline)
      (inside : ∀ u ∈ s.parts c, Outlined s (c :: path) true u (f u)) :
      Outlined s path quoted v (.box c ((s.parts c).map f))

/-- A value has one outline. -/
theorem Outlined.unique {o o' : Outline} (h : s.Outlined path quoted v o)
    (h' : s.Outlined path quoted v o') : o = o' := by
  induction h generalizing o' with
  | scalar hv => cases h' with
    | scalar => rfl
    | again hc => rw [hv] at hc; cases hc
    | full hc => rw [hv] at hc; cases hc
  | again hv hc => cases h' with
    | scalar hn => rw [hv] at hn; cases hn
    | again hv' => rw [hv] at hv'; cases hv'; rfl
    | full hv' hc' => rw [hv] at hv'; cases hv'; exact absurd hc hc'
  | full hv hc f _ ih => cases h' with
    | scalar hn => rw [hv] at hn; cases hn
    | again hv' hc' => rw [hv] at hv'; cases hv'; exact absurd hc' hc
    | full hv' _ g hinside =>
      rw [hv] at hv'
      cases hv'
      exact congrArg _ (List.map_congr_left fun u hu => ih u hu (hinside u hu))

theorem exists_outlines (s : Store) (path : List Container) (quoted : Bool) :
    ∃ f : Value → Outline, ∀ v o, s.Outlined path quoted v o → f v = o := by
  have h (v : Value) : ∃ o', ∀ o, s.Outlined path quoted v o → o' = o := by
    by_cases hv : ∃ o, s.Outlined path quoted v o
    · obtain ⟨o', ho'⟩ := hv
      exact ⟨o', fun o ho => ho'.unique ho⟩
    · exact ⟨.scalar [], fun o ho => absurd ⟨o, ho⟩ hv⟩
  choose f hf using h
  exact ⟨f, hf⟩

/-- A container that is not open has an outline where all that it holds has one. -/
theorem Outlined.of_parts (h : v.container? = some c) (hc : c ∉ path) {g : Value → Text}
    (hinside : ∀ u ∈ s.parts c, ∃ o, s.Outlined (c :: path) true u o ∧ o.text = g u) :
    ∃ o, s.Outlined path quoted v o ∧ o.text = c.frame ((s.parts c).map g) := by
  obtain ⟨f, hf⟩ := s.exists_outlines (c :: path) true
  have hpart (u : Value) (hu : u ∈ s.parts c) :
      s.Outlined (c :: path) true u (f u) ∧ (f u).text = g u := by
    obtain ⟨o, ho, htext⟩ := hinside u hu
    rw [hf u o ho]
    exact ⟨ho, htext⟩
  refine ⟨_, .full h hc f fun u hu => (hpart u hu).1, ?_⟩
  rw [Outline.text, Outline.texts_eq_map, List.map_map]
  exact congrArg _ (List.map_congr_left fun u hu => (hpart u hu).2)

/-! Every value has an outline, since a way into the store passes each container once. -/

/-- The containers of the store. -/
def containers (s : Store) : Finset Container :=
  (Finset.range s.arrays.size).image .array ∪ (Finset.range s.dicts.size).image .dict

theorem card_containers_le (s : Store) : s.containers.card ≤ s.arrays.size + s.dicts.size := by
  refine (Finset.card_union_le _ _).trans (Nat.add_le_add ?_ ?_)
  · exact Finset.card_image_le.trans (Finset.card_range _).le
  · exact Finset.card_image_le.trans (Finset.card_range _).le

/-- What is not in the store is empty. -/
theorem mem_containers_of_mem_parts (h : v ∈ s.parts c) : c ∈ s.containers := by
  cases c with
  | array id =>
    refine Finset.mem_union_left _ (Finset.mem_image_of_mem _ (Finset.mem_range.2 ?_))
    by_contra hid
    rw [parts, array, Array.getElem?_eq_none (Nat.le_of_not_lt hid)] at h
    cases h
  | dict id =>
    refine Finset.mem_union_right _ (Finset.mem_image_of_mem _ (Finset.mem_range.2 ?_))
    by_contra hid
    rw [parts, dict, Array.getElem?_eq_none (Nat.le_of_not_lt hid)] at h
    cases h

/-- Whether the depth is enough for all containers of the store that are not open. -/
structure Fits (s : Store) (depth : ℕ) (path : List Container) : Prop where
  nodup : path.Nodup
  stored : ∀ c ∈ path, c ∈ s.containers
  enough : s.arrays.size + s.dicts.size < path.length + depth

theorem fits_nil {depth : ℕ} (h : s.arrays.size + s.dicts.size < depth) : s.Fits depth [] where
  nodup := .nil
  stored := by simp
  enough := by simpa using h

theorem Fits.depth_pos {depth : ℕ} (h : s.Fits depth path) : 0 < depth := by
  have hcard : path.toFinset.card ≤ s.containers.card :=
    Finset.card_le_card fun c hc => h.stored c (List.mem_toFinset.1 hc)
  rw [List.toFinset_card_of_nodup h.nodup] at hcard
  have hle := card_containers_le s
  have henough := h.enough
  omega

theorem Fits.inside {depth : ℕ} (h : s.Fits (depth + 1) path) (hc : c ∉ path) (hv : v ∈ s.parts c) :
    s.Fits depth (c :: path) where
  nodup := List.nodup_cons.2 ⟨hc, h.nodup⟩
  stored := List.forall_mem_cons.2 ⟨mem_containers_of_mem_parts hv, h.stored⟩
  enough := by
    have henough := h.enough
    rw [List.length_cons]
    omega

/-- A text at a depth that fits is that of the outline. -/
theorem renderIn_outlined {depth : ℕ} (h : s.Fits depth path) (quoted : Bool) (v : Value) :
    ∃ o, s.Outlined path quoted v o ∧ o.text = s.renderIn depth path quoted v := by
  induction depth generalizing path quoted v with
  | zero => exact absurd h.depth_pos (lt_irrefl 0)
  | succ depth ih =>
    cases hv : v.container? with
    | none => exact ⟨_, .scalar hv, (renderIn_scalar _ hv).symm⟩
    | some c =>
      by_cases hc : c ∈ path
      · exact ⟨_, .again hv hc, (renderIn_again depth hv hc).symm⟩
      · rw [renderIn_full depth hv hc]
        exact Outlined.of_parts hv hc fun u hu => ih (h.inside hc hu) true u

theorem exists_outlined (s : Store) (quoted : Bool) (v : Value) :
    ∃ o, s.Outlined [] quoted v o ∧ o.text = s.rendering quoted v := by
  obtain ⟨o, ho, htext⟩ :=
    renderIn_outlined (fits_nil (Nat.lt_succ_self (s.arrays.size + s.dicts.size))) quoted v
  refine ⟨o, ho, htext.trans ?_⟩
  cases quoted <;> rfl

theorem Outlined.text_eq {o : Outline} (h : s.Outlined [] quoted v o) :
    o.text = s.rendering quoted v := by
  obtain ⟨o', ho', htext⟩ := s.exists_outlined quoted v
  rw [h.unique ho', htext]

/-! Where the dots stand. -/

/-- Whether a value is met by going down from another to the part of each number in turn, and which
containers are open then. -/
inductive Met (s : Store) :
    List Container → Bool → Value → List ℕ → List Container → Bool → Value → Prop
  | here (path : List Container) (quoted : Bool) (v : Value) : Met s path quoted v [] path quoted v
  | down {path path' : List Container} {quoted quoted' : Bool} {v u w : Value} {c : Container}
      {i : ℕ} {p : List ℕ} (h : v.container? = some c) (hu : (s.parts c)[i]? = some u)
      (hw : Met s (c :: path) true u p path' quoted' w) :
      Met s path quoted v (i :: p) path' quoted' w

theorem Met.suffix {p : List ℕ} {path' : List Container} {quoted' : Bool}
    (h : s.Met path quoted v p path' quoted' w) : path <:+ path' := by
  induction h with
  | here => exact List.suffix_refl _
  | down _ _ _ ih => exact (List.suffix_cons _ _).trans ih

/-- A value that is met on a way that opens no container twice has an outline where it is met. -/
theorem Met.outlined {o : Outline} {p : List ℕ} {path' : List Container} {quoted' : Bool}
    (h : s.Met path quoted v p path' quoted' w) (ho : s.Outlined path quoted v o)
    (hnodup : path'.Nodup) : ∃ o', s.Outlined path' quoted' w o' := by
  induction h generalizing o with
  | here => exact ⟨o, ho⟩
  | down hc hu hw ih => cases ho with
    | scalar hn => rw [hc] at hn; cases hn
    | again hc' hmem =>
      rw [hc] at hc'
      cases hc'
      exact absurd hmem (List.nodup_cons.1 (hnodup.sublist hw.suffix.sublist)).1
    | full hc' _ f hinside =>
      rw [hc] at hc'
      cases hc'
      exact ih (hinside _ (List.mem_of_getElem? hu)) hnodup

/-- What an outline has inside are the outlines of the values met on ways that open no container
twice. -/
theorem Outlined.at?_eq_some_iff {o o' : Outline} {p : List ℕ} (h : s.Outlined path quoted v o)
    (hpath : path.Nodup) : o.at? p = some o' ↔ ∃ path' quoted' w,
      s.Met path quoted v p path' quoted' w ∧ path'.Nodup ∧ s.Outlined path' quoted' w o' := by
  induction p generalizing path quoted v o with
  | nil =>
    constructor
    · intro ho
      cases (show o = o' by simpa [Outline.at?] using ho)
      exact ⟨path, quoted, v, .here path quoted v, hpath, h⟩
    · rintro ⟨path', quoted', w, hmet, -, ho'⟩
      cases hmet
      rw [h.unique ho', Outline.at?]
  | cons i p ih =>
    cases h with
    | scalar hv =>
      refine ⟨fun ho => by simp [Outline.at?] at ho, ?_⟩
      rintro ⟨path', quoted', w, hmet, -, -⟩
      cases hmet with
      | down hc => rw [hv] at hc; cases hc
    | again hv hc =>
      refine ⟨fun ho => by simp [Outline.at?] at ho, ?_⟩
      rintro ⟨path', quoted', w, hmet, hnodup, -⟩
      cases hmet with
      | down hc' _ hw =>
        rw [hv] at hc'
        cases hc'
        exact absurd hc (List.nodup_cons.1 (hnodup.sublist hw.suffix.sublist)).1
    | @full _ _ _ c hv hc f hinside =>
      have hnodup := List.nodup_cons.2 ⟨hc, hpath⟩
      rw [Outline.at?, List.getElem?_map]
      cases hu : (s.parts c)[i]? with
      | none =>
        refine ⟨fun ho => by simp at ho, ?_⟩
        rintro ⟨path', quoted', w, hmet, -, -⟩
        cases hmet with
        | down hc' hu' =>
          rw [hv] at hc'
          cases hc'
          rw [hu] at hu'
          cases hu'
      | some u =>
        refine (ih (hinside u (List.mem_of_getElem? hu)) hnodup).trans ⟨?_, ?_⟩
        · rintro ⟨path', quoted', w, hmet, hrest⟩
          exact ⟨path', quoted', w, .down hv hu hmet, hrest⟩
        · rintro ⟨path', quoted', w, hmet, hrest⟩
          cases hmet with
          | down hc' hu' hw =>
            rw [hv] at hc'
            cases hc'
            rw [hu] at hu'
            cases hu'
            exact ⟨path', quoted', w, hw, hrest⟩

/-- Whether what is met on ways that open no container twice is shown so, and nothing else is: a
value that is no container as it is, a container by dots where it is open on the way to it, and with
as many parts as it has where it is not. -/
structure Outline.Marks (s : Store) (quoted : Bool) (v : Value) (o : Outline) : Prop where
  scalar : ∀ p t, o.at? p = some (.scalar t) ↔
    ∃ path quoted' w, s.Met [] quoted v p path quoted' w ∧ path.Nodup ∧
      w.container? = none ∧ t = s.scalarText quoted' w
  dots : ∀ p c, o.at? p = some (.dots c) ↔
    ∃ path quoted' w, s.Met [] quoted v p path quoted' w ∧ path.Nodup ∧
      w.container? = some c ∧ c ∈ path
  box : ∀ p c n, (∃ inside, o.at? p = some (.box c inside) ∧ inside.length = n) ↔
    ∃ path quoted' w, s.Met [] quoted v p path quoted' w ∧ path.Nodup ∧
      w.container? = some c ∧ c ∉ path ∧ n = (s.parts c).length

theorem Outlined.marks {o : Outline} (h : s.Outlined [] quoted v o) : o.Marks s quoted v where
  scalar p t := by
    rw [h.at?_eq_some_iff .nil]
    constructor
    · rintro ⟨path, quoted', w, hmet, hnodup, hw⟩
      cases hw with
      | scalar hnone => exact ⟨path, quoted', w, hmet, hnodup, hnone, rfl⟩
    · rintro ⟨path, quoted', w, hmet, hnodup, hnone, rfl⟩
      exact ⟨path, quoted', w, hmet, hnodup, .scalar hnone⟩
  dots p c := by
    rw [h.at?_eq_some_iff .nil]
    constructor
    · rintro ⟨path, quoted', w, hmet, hnodup, hw⟩
      cases hw with
      | again hsome hc => exact ⟨path, quoted', w, hmet, hnodup, hsome, hc⟩
    · rintro ⟨path, quoted', w, hmet, hnodup, hsome, hc⟩
      exact ⟨path, quoted', w, hmet, hnodup, .again hsome hc⟩
  box p c n := by
    simp only [h.at?_eq_some_iff .nil]
    constructor
    · rintro ⟨inside, ⟨path, quoted', w, hmet, hnodup, hw⟩, hlen⟩
      cases hw with
      | full hsome hc f =>
        exact ⟨path, quoted', w, hmet, hnodup, hsome, hc, by rw [← hlen, List.length_map]⟩
    · rintro ⟨path, quoted', w, hmet, hnodup, hsome, hc, rfl⟩
      obtain ⟨o', ho'⟩ := hmet.outlined h hnodup
      cases ho' with
      | scalar hnone => rw [hsome] at hnone; cases hnone
      | again hsome' hc' => rw [hsome] at hsome'; cases hsome'; exact absurd hc' hc
      | full hsome' hc' f hinside =>
        rw [hsome] at hsome'
        cases hsome'
        exact ⟨_, ⟨path, quoted', w, hmet, hnodup, .full hsome hc f hinside⟩, List.length_map _⟩

/-! Writing with one set of open containers. -/

/-- How values are written one after another: a container is taken into the set of open ones before
what it holds is written, and out of it afterwards. -/
inductive Writes (s : Store) :
    Finset Container → Bool → List Value → List Text → Finset Container → Prop
  | nil (seen : Finset Container) (quoted : Bool) : Writes s seen quoted [] [] seen
  | scalar {seen seen' : Finset Container} {quoted : Bool} {v : Value} {vs : List Value}
      {ts : List Text} (h : v.container? = none) (rest : Writes s seen quoted vs ts seen') :
      Writes s seen quoted (v :: vs) (s.scalarText quoted v :: ts) seen'
  | again {seen seen' : Finset Container} {quoted : Bool} {v : Value} {vs : List Value}
      {ts : List Text} {c : Container} (h : v.container? = some c) (hc : c ∈ seen)
      (rest : Writes s seen quoted vs ts seen') :
      Writes s seen quoted (v :: vs) (c.dots :: ts) seen'
  | full {seen below seen' : Finset Container} {quoted : Bool} {v : Value} {vs : List Value}
      {inside ts : List Text} {c : Container} (h : v.container? = some c) (hc : c ∉ seen)
      (parts : Writes s (insert c seen) true (s.parts c) inside below)
      (rest : Writes s (below.erase c) quoted vs ts seen') :
      Writes s seen quoted (v :: vs) (c.frame inside :: ts) seen'

/-- Texts that values have one after another are texts that they have by themselves. -/
theorem exists_texts {vs : List Value} {ts : List Text}
    (h : List.Forall₂ (fun v t => ∃ o, s.Outlined path quoted v o ∧ o.text = t) vs ts) :
    ∃ g : Value → Text, ts = vs.map g ∧
      ∀ v ∈ vs, ∃ o, s.Outlined path quoted v o ∧ o.text = g v := by
  obtain ⟨f, hf⟩ := s.exists_outlines path quoted
  refine ⟨fun v => (f v).text, ?_⟩
  induction h with
  | nil => exact ⟨rfl, by simp⟩
  | cons hfirst _ ih =>
    obtain ⟨o, ho, rfl⟩ := hfirst
    obtain ⟨hmap, hall⟩ := ih
    rw [List.map_cons, ← hmap, hf _ o ho]
    exact ⟨rfl, List.forall_mem_cons.2 ⟨⟨o, ho, congrArg Outline.text (hf _ o ho).symm⟩, hall⟩⟩

/-- The set of open containers is the way down to where it is read, and afterwards is as it was. -/
theorem Writes.outlined {seen seen' : Finset Container} {vs : List Value} {ts : List Text}
    (h : s.Writes seen quoted vs ts seen') (hpath : path.toFinset = seen) :
    seen' = seen ∧
      List.Forall₂ (fun v t => ∃ o, s.Outlined path quoted v o ∧ o.text = t) vs ts := by
  induction h generalizing path with
  | nil => exact ⟨rfl, .nil⟩
  | scalar hv _ ih => exact ⟨(ih hpath).1, .cons ⟨_, .scalar hv, rfl⟩ (ih hpath).2⟩
  | again hv hc _ ih =>
    rw [← hpath, List.mem_toFinset] at hc
    exact ⟨(ih hpath).1, .cons ⟨_, .again hv hc, rfl⟩ (ih hpath).2⟩
  | @full seen below seen' quoted v vs inside ts c hv hc _ _ ihparts ihrest =>
    obtain ⟨rfl, hinside⟩ := @ihparts (c :: path) (by rw [List.toFinset_cons, hpath])
    obtain ⟨rfl, hrest⟩ := ihrest (by rw [Finset.erase_insert hc, hpath])
    rw [Finset.erase_insert hc]
    refine ⟨rfl, .cons ?_ hrest⟩
    rw [← hpath, List.mem_toFinset] at hc
    obtain ⟨g, rfl, hg⟩ := exists_texts hinside
    exact Outlined.of_parts hv hc hg

theorem Outlined.writes {o : Outline} (h : s.Outlined path quoted v o) {seen' : Finset Container}
    {vs : List Value} {ts : List Text} (rest : s.Writes path.toFinset quoted vs ts seen') :
    s.Writes path.toFinset quoted (v :: vs) (o.text :: ts) seen' := by
  induction h generalizing vs ts seen' with
  | scalar hv => exact .scalar hv rest
  | again hv hc => exact .again hv (List.mem_toFinset.2 hc) rest
  | @full path quoted v c hv hc f _ ih =>
    have hset : (c :: path).toFinset = insert c path.toFinset := List.toFinset_cons
    have hc' : c ∉ path.toFinset := fun hmem => hc (List.mem_toFinset.1 hmem)
    have hparts (us : List Value) (hus : ∀ u ∈ us, u ∈ s.parts c) :
        s.Writes (insert c path.toFinset) true us (us.map fun u => (f u).text)
          (insert c path.toFinset) := by
      rw [← hset]
      induction us with
      | nil => exact .nil _ _
      | cons u us ihus =>
        obtain ⟨hu, hus⟩ := List.forall_mem_cons.1 hus
        exact ih u hu (ihus hus)
    rw [Outline.text, Outline.texts_eq_map, List.map_map]
    refine .full hv hc' (hparts _ fun _ hu => hu) ?_
    rwa [Finset.erase_insert hc']

/-! Plain recursion. -/

/-- The text that recursion over what containers hold gives, where it ends. -/
inductive Plain (s : Store) : Bool → Value → Text → Prop
  | scalar {quoted : Bool} {v : Value} (h : v.container? = none) :
      Plain s quoted v (s.scalarText quoted v)
  | full {quoted : Bool} {v : Value} {c : Container} (h : v.container? = some c) (g : Value → Text)
      (inside : ∀ u ∈ s.parts c, Plain s true u (g u)) :
      Plain s quoted v (c.frame ((s.parts c).map g))

/-- Whether a container holds another one itself. -/
def Holding (s : Store) (c d : Container) : Prop := ∃ u ∈ s.parts c, u.container? = some d

/-- Whether a container is below a value or is the value. -/
def Reaches (s : Store) (v : Value) (c : Container) : Prop :=
  ∃ b, v.container? = some b ∧ ReflTransGen s.Holding b c

/-- Whether a way from a value leads into a container that is below itself. -/
def Cyclic (s : Store) (v : Value) : Prop := ∃ c, s.Reaches v c ∧ TransGen s.Holding c c

theorem Reaches.of_part (h : v.container? = some c) (hw : w ∈ s.parts c) (hd : s.Reaches w d) :
    s.Reaches v d := by
  obtain ⟨b, hb, hreach⟩ := hd
  exact ⟨c, h, .head ⟨w, hw, hb⟩ hreach⟩

theorem Cyclic.of_part (h : v.container? = some c) (hw : w ∈ s.parts c) (hcyclic : s.Cyclic w) :
    s.Cyclic v := by
  obtain ⟨d, hd, hloop⟩ := hcyclic
  exact ⟨d, hd.of_part h hw, hloop⟩

/-- A part that leads back to its container makes a cycle. -/
theorem Reaches.cyclic (h : v.container? = some c) (hw : w ∈ s.parts c) (hback : s.Reaches w c) :
    s.Cyclic v := by
  obtain ⟨b, hb, hreach⟩ := hback
  exact ⟨c, ⟨c, h, .refl⟩, .head' ⟨w, hw, hb⟩ hreach⟩

theorem Plain.not_cyclic {t : Text} (h : s.Plain quoted v t) : ¬ s.Cyclic v := by
  induction h with
  | scalar hv =>
    rintro ⟨d, ⟨b, hb, -⟩, -⟩
    rw [hv] at hb
    cases hb
  | @full quoted v c hv g _ ih =>
    rintro ⟨d, ⟨b, hb, hreach⟩, hloop⟩
    rw [hv] at hb
    cases hb
    obtain ⟨e, ⟨u, hu, he⟩, hrest⟩ : ∃ e, s.Holding c e ∧ ReflTransGen s.Holding e d := by
      rcases hreach.cases_head with rfl | hhead
      · exact TransGen.head'_iff.1 hloop
      · exact hhead
    exact ih u hu ⟨d, ⟨e, he, hrest⟩, hloop⟩

/-- Below a value that leads into no cycle none of its parts leads to what is open. -/
theorem not_reaches_of_part (hv : v.container? = some c) (hacyclic : ¬ s.Cyclic v)
    (hpath : ∀ d ∈ path, ¬ s.Reaches v d) (hw : w ∈ s.parts c) :
    ∀ d ∈ c :: path, ¬ s.Reaches w d := by
  intro d hd hreach
  rcases List.mem_cons.1 hd with rfl | hd
  · exact hacyclic (hreach.cyclic hv hw)
  · exact hpath d hd (hreach.of_part hv hw)

theorem Plain.outlined {t : Text} (h : s.Plain quoted v t) (hpath : ∀ c ∈ path, ¬ s.Reaches v c) :
    ∃ o, s.Outlined path quoted v o ∧ o.text = t := by
  induction h generalizing path with
  | scalar hv => exact ⟨_, .scalar hv, rfl⟩
  | @full quoted v c hv g hinside ih =>
    have hplain : s.Plain quoted v _ := .full hv g hinside
    exact Outlined.of_parts hv (fun hc => hpath c hc ⟨c, hv, .refl⟩)
      fun u hu => ih u hu (not_reaches_of_part hv hplain.not_cyclic hpath hu)

theorem Outlined.plain {o : Outline} (h : s.Outlined path quoted v o)
    (hpath : ∀ c ∈ path, ¬ s.Reaches v c) (hacyclic : ¬ s.Cyclic v) : s.Plain quoted v o.text := by
  induction h with
  | scalar hv => exact .scalar hv
  | again hv hc => exact absurd ⟨_, hv, .refl⟩ (hpath _ hc)
  | full hv _ f _ ih =>
    rw [Outline.text, Outline.texts_eq_map, List.map_map]
    exact .full hv _ fun u hu => ih u hu (not_reaches_of_part hv hacyclic hpath hu)
      fun hcyclic => hacyclic (hcyclic.of_part hv hu)

theorem plain_iff {t : Text} :
    s.Plain quoted v t ↔ ¬ s.Cyclic v ∧ t = s.rendering quoted v := by
  constructor
  · intro h
    obtain ⟨o, ho, htext⟩ : ∃ o, s.Outlined [] quoted v o ∧ o.text = t := h.outlined (by simp)
    exact ⟨h.not_cyclic, by rw [← htext, ho.text_eq]⟩
  · rintro ⟨hacyclic, rfl⟩
    obtain ⟨o, ho, htext⟩ := s.exists_outlined quoted v
    rw [← htext]
    exact ho.plain (by simp) hacyclic

/-- A deeper bound gives no other text. -/
theorem renderIn_eq_rendering {depth : ℕ} (h : s.arrays.size + s.dicts.size < depth) :
    s.renderIn depth [] quoted v = s.rendering quoted v := by
  obtain ⟨o, ho, htext⟩ := renderIn_outlined (fits_nil h) quoted v
  rw [← htext, ho.text_eq]

/-- Writing a value ends with its text, whatever the containers of the store refer to, and leaves no
container open; the text has dots for a container where it is open on the way to it and nowhere
else; and where no cycle is below the value, and only there, plain recursion ends, with the same
text. -/
theorem rendering_ends_with_dots_where_open (s : Store) (quoted : Bool) (v : Value) :
    (∀ ts seen, s.Writes ∅ quoted [v] ts seen ↔ ts = [s.rendering quoted v] ∧ seen = ∅) ∧
      (∀ n, s.renderIn (s.arrays.size + s.dicts.size + 1 + n) [] quoted v = s.rendering quoted v) ∧
      (∃ o : Outline, o.text = s.rendering quoted v ∧ o.Marks s quoted v) ∧
      ∀ t, s.Plain quoted v t ↔ ¬ s.Cyclic v ∧ t = s.rendering quoted v := by
  obtain ⟨o, ho, htext⟩ := s.exists_outlined quoted v
  refine ⟨fun ts seen => ⟨fun h => ?_, ?_⟩, fun n => renderIn_eq_rendering (by omega),
    ⟨o, htext, ho.marks⟩, fun t => plain_iff⟩
  · obtain ⟨hseen, hall⟩ := h.outlined (List.toFinset_nil : ([] : List Container).toFinset = ∅)
    cases hall with
    | cons hfirst hnone =>
      obtain ⟨o', ho', rfl⟩ := hfirst
      cases hnone
      exact ⟨by rw [ho'.text_eq], hseen⟩
  · rintro ⟨rfl, rfl⟩
    rw [← htext]
    exact ho.writes (.nil _ _)

/-- An array that holds itself, beside an array that it holds twice. -/
example :
    let s : Store := { arrays := #[[.int 1, .array 0, .array 1, .array 1], []] }
    s.text (.array 0) = "[1, [...], [], []]" := by
  decide +kernel

end Store

end BytecodeMachine
