import BytecodeMachine.Machine.Dict
import Mathlib.Data.List.Nodup
import Mathlib.Data.List.Basic

/-! Dictionaries are ordered lists of pairs. The index sends the key of every entry to its position and
nothing else anywhere, so that whatever is done to a new dictionary, its entries and its answers are
those of a list that is searched from the front, on which a new key comes last. -/
namespace BytecodeMachine

namespace Dict

/-- The keys of some entries as the index sees them. -/
def indexed (es : List (Value × Value)) : List DictKey := es.map fun e => DictKey.of e.1

/-- What is done to a dictionary. -/
inductive Op where
  | set (key v : Value)
  | get (key : Value)
  | has (key : Value)
  | remove (key : Value)
  | keys
  | values
  | size
deriving DecidableEq

/-- What an operation answers. -/
inductive Answer where
  | done
  | found (v : Option Value)
  | present (b : Bool)
  | listed (vs : List Value)
  | counted (n : Nat)
deriving DecidableEq

/-- An operation on a dictionary. -/
def Op.run (d : Dict) : Op → Answer × Dict
  | .set key v => (.done, d.insert key v)
  | .get key => (.found (d.get? key), d)
  | .has key => (.present (d.contains key), d)
  | .remove key =>
    match d.erase key with
    | some (v, d) => (.found (some v), d)
    | none => (.found none, d)
  | .keys => (.listed d.keys, d)
  | .values => (.listed d.values, d)
  | .size => (.counted d.size, d)

/-- The value that a list of pairs has for a key. -/
def valueIn (es : List (Value × Value)) (key : Value) : Option Value :=
  (es.find? fun e => DictKey.of e.1 = DictKey.of key).map (·.2)

/-- A list of pairs with a value put under a key, at the end where the key is new. -/
def setIn (es : List (Value × Value)) (key v : Value) : List (Value × Value) :=
  if DictKey.of key ∈ indexed es then
    es.map fun e => if DictKey.of e.1 = DictKey.of key then (e.1, v) else e
  else es ++ [(key, v)]

/-- A list of pairs without a key. -/
def removeFrom (es : List (Value × Value)) (key : Value) : List (Value × Value) :=
  es.filter fun e => DictKey.of e.1 ≠ DictKey.of key

/-- The same operation on a list of pairs. -/
def Op.runList (es : List (Value × Value)) : Op → Answer × List (Value × Value)
  | .set key v => (.done, setIn es key v)
  | .get key => (.found (valueIn es key), es)
  | .has key => (.present (decide (DictKey.of key ∈ indexed es)), es)
  | .remove key => (.found (valueIn es key), removeFrom es key)
  | .keys => (.listed (es.map (·.1)), es)
  | .values => (.listed (es.map (·.2)), es)
  | .size => (.counted es.length, es)

/-- One operation after the other, with their answers. -/
def runAll {σ : Type} (run : σ → Op → Answer × σ) (x : σ) : List Op → List Answer × σ
  | [] => ([], x)
  | op :: ops =>
    let (answer, y) := run x op
    let (answers, z) := runAll run y ops
    (answer :: answers, z)

/-- No two entries have the same key, and the index finds each of them. -/
structure Indexed (d : Dict) : Prop where
  distinct : (indexed d.entries.toList).Nodup
  found : ∀ k, d.index[k]? = (indexed d.entries.toList).idxOf? k

theorem indexed_append (es fs : List (Value × Value)) :
    indexed (es ++ fs) = indexed es ++ indexed fs := List.map_append

theorem idxOf?_append (xs ys : List DictKey) (k : DictKey) :
    (xs ++ ys).idxOf? k = (xs.idxOf? k).or ((ys.idxOf? k).map (· + xs.length)) :=
  List.findIdx?_append

theorem idxOf?_indexed_cons (e : Value × Value) (es : List (Value × Value)) (k : DictKey) :
    (indexed (e :: es)).idxOf? k =
      if DictKey.of e.1 = k then some 0 else ((indexed es).idxOf? k).map (· + 1) := by
  have hcons : (indexed (e :: es)).idxOf? k =
      if DictKey.of e.1 == k then some 0 else ((indexed es).idxOf? k).map (· + 1) :=
    List.idxOf?_cons
  rw [hcons]
  simp only [beq_iff_eq]

theorem idxOf?_eq_none {xs : List DictKey} {k : DictKey} (h : k ∉ xs) : xs.idxOf? k = none :=
  List.idxOf?_eq_none_iff.mpr h

namespace Indexed

variable {d : Dict}

theorem empty : Indexed {} := ⟨List.nodup_nil, fun _ => Std.HashMap.getElem?_empty⟩

/-- What is found under a key is the only entry that has it. -/
theorem split (h : d.Indexed) {key : Value} {i : Nat} (hi : d.position? key = some i) :
    ∃ before e after, d.entries.toList = before ++ e :: after ∧ before.length = i ∧
      DictKey.of e.1 = DictKey.of key ∧ DictKey.of key ∉ indexed before ∧
        DictKey.of key ∉ indexed after := by
  have hidx := hi
  unfold position? at hidx
  rw [h.found, List.idxOf?_eq_some_iff] at hidx
  obtain ⟨hlt, hkey, -⟩ := hidx
  unfold indexed at hkey hlt
  rw [List.length_map] at hlt
  rw [List.getElem_map] at hkey
  let es := d.entries.toList
  have hes : es = es.take i ++ es[i] :: es.drop (i + 1) := by
    rw [← List.drop_eq_getElem_cons hlt, List.take_append_drop]
  have hdistinct := h.distinct
  change (indexed es).Nodup at hdistinct
  rw [hes, indexed_append] at hdistinct
  change (_ ++ DictKey.of es[i].1 :: indexed (es.drop (i + 1))).Nodup at hdistinct
  -- No key stands twice, so the one that is found stands neither before nor after.
  obtain ⟨hnew, -⟩ := List.nodup_cons.mp (List.nodup_middle.mp hdistinct)
  rw [show DictKey.of es[i].1 = DictKey.of key from hkey, List.mem_append, not_or] at hnew
  exact ⟨es.take i, es[i], es.drop (i + 1), hes, List.length_take_of_le (Nat.le_of_lt hlt), hkey, hnew⟩

theorem position?_eq_none (h : d.Indexed) {key : Value} :
    d.position? key = none ↔ DictKey.of key ∉ indexed d.entries.toList := by
  unfold position?
  rw [h.found, List.idxOf?_eq_none_iff]

/-- The index knows the keys of the entries and no others. -/
theorem index_iff (h : d.Indexed) (k : DictKey) (i : Nat) :
    d.index[k]? = some i ↔ ∃ e, d.entries[i]? = some e ∧ DictKey.of e.1 = k := by
  have hget : d.entries[i]? = d.entries.toList[i]? := Array.getElem?_toList.symm
  rw [h.found, hget, List.idxOf?_eq_some_iff]
  constructor
  · rintro ⟨hlt, hkey, -⟩
    unfold indexed at hlt hkey
    rw [List.length_map] at hlt
    rw [List.getElem_map] at hkey
    exact ⟨_, List.getElem?_eq_getElem hlt, hkey⟩
  · rintro ⟨e, he, hkey⟩
    obtain ⟨hlt, rfl⟩ := List.getElem?_eq_some_iff.mp he
    have hlt' : i < (indexed d.entries.toList).length := by
      unfold indexed
      rwa [List.length_map]
    have hget : (indexed d.entries.toList)[i] = k :=
      (List.getElem_map fun e : Value × Value => DictKey.of e.1).trans hkey
    refine ⟨hlt', hget, fun j hj hj' => ?_⟩
    have hsame := (h.distinct.getElem_inj_iff).mp (hj'.trans hget.symm)
    omega

end Indexed

theorem valueIn_split {before after : List (Value × Value)} {e : Value × Value} {key : Value}
    (he : DictKey.of e.1 = DictKey.of key) (hnew : DictKey.of key ∉ indexed before) :
    valueIn (before ++ e :: after) key = some e.2 := by
  have hbefore : before.find? (fun e => DictKey.of e.1 = DictKey.of key) = none := by
    rw [List.find?_eq_none]
    intro x hx hkey
    exact hnew (List.mem_map.mpr ⟨x, hx, of_decide_eq_true hkey⟩)
  unfold valueIn
  have hfound : (e :: after).find? (fun e => DictKey.of e.1 = DictKey.of key) = some e :=
    List.find?_cons_of_pos (decide_eq_true he)
  rw [List.find?_append, hbefore, hfound]
  rfl

theorem valueIn_eq_none {es : List (Value × Value)} {key : Value}
    (h : DictKey.of key ∉ indexed es) : valueIn es key = none := by
  unfold valueIn
  rw [Option.map_eq_none_iff, List.find?_eq_none]
  intro x hx hkey
  exact h (List.mem_map.mpr ⟨x, hx, of_decide_eq_true hkey⟩)

theorem removeFrom_of_notMem {es : List (Value × Value)} {key : Value}
    (h : DictKey.of key ∉ indexed es) : removeFrom es key = es := by
  unfold removeFrom
  rw [List.filter_eq_self]
  intro x hx
  refine decide_eq_true fun hkey => ?_
  exact h (List.mem_map.mpr ⟨x, hx, hkey⟩)

theorem removeFrom_split {before after : List (Value × Value)} {e : Value × Value} {key : Value}
    (he : DictKey.of e.1 = DictKey.of key) (hb : DictKey.of key ∉ indexed before)
    (ha : DictKey.of key ∉ indexed after) :
    removeFrom (before ++ e :: after) key = before ++ after := by
  have hkey : (e :: after).filter (fun e => DictKey.of e.1 ≠ DictKey.of key) =
      removeFrom after key := List.filter_cons_of_neg (by simpa using he)
  have hsplit : removeFrom (before ++ e :: after) key =
      removeFrom before key ++ removeFrom after key := by
    rw [← hkey]
    exact List.filter_append _ _
  rw [hsplit, removeFrom_of_notMem hb, removeFrom_of_notMem ha]

theorem setIn_of_notMem {es : List (Value × Value)} {key v : Value}
    (h : DictKey.of key ∉ indexed es) : setIn es key v = es ++ [(key, v)] := if_neg h

theorem setIn_split {before after : List (Value × Value)} {e : Value × Value} {key v : Value}
    (he : DictKey.of e.1 = DictKey.of key) (hb : DictKey.of key ∉ indexed before)
    (ha : DictKey.of key ∉ indexed after) :
    setIn (before ++ e :: after) key v = before ++ (e.1, v) :: after := by
  have hmem : DictKey.of key ∈ indexed (before ++ e :: after) := by
    rw [indexed_append, ← he]
    exact List.mem_append_right _ List.mem_cons_self
  have hself {es : List (Value × Value)} (h : DictKey.of key ∉ indexed es) :
      es.map (fun e => if DictKey.of e.1 = DictKey.of key then (e.1, v) else e) = es := by
    have hid : ∀ x ∈ es, (if DictKey.of x.1 = DictKey.of key then (x.1, v) else x) = id x := by
      intro x hx
      exact if_neg fun hkey => h (List.mem_map.mpr ⟨x, hx, hkey⟩)
    rw [List.map_congr_left hid, List.map_id]
  unfold setIn
  rw [if_pos hmem, List.map_append, List.map_cons, hself hb, hself ha, if_pos he]

theorem indexed_set {before after : List (Value × Value)} (e : Value × Value) (v : Value) :
    indexed (before ++ (e.1, v) :: after) = indexed (before ++ e :: after) := by
  rw [indexed_append, indexed_append]
  rfl

/-- The new places of some entries, which the index knows besides what it knew. -/
theorem getElem?_reindex (index : Std.HashMap DictKey Nat) (i : Nat) (es : List (Value × Value))
    (distinct : (indexed es).Nodup) (k : DictKey) :
    (reindex index i es)[k]? = (((indexed es).idxOf? k).map (· + i)).or index[k]? := by
  induction es generalizing index i with
  | nil => rfl
  | cons e es ih =>
    obtain ⟨hnew, hdistinct⟩ := List.nodup_cons.mp distinct
    rw [reindex, ih _ _ hdistinct, idxOf?_indexed_cons, Std.HashMap.getElem?_insert]
    by_cases hk : DictKey.of e.1 = k
    · have hnone : (indexed es).idxOf? k = none := idxOf?_eq_none (hk ▸ hnew)
      rw [hnone, if_pos (beq_iff_eq.mpr hk), if_pos hk]
      simp
    · rw [if_neg (by simpa using hk), if_neg hk, Option.map_map]
      congr 2
      funext j
      exact (Nat.add_right_comm j 1 i).symm

namespace Indexed

variable {d : Dict}

theorem insert (h : d.Indexed) (key v : Value) :
    (d.insert key v).Indexed ∧ (d.insert key v).entries.toList = setIn d.entries.toList key v := by
  unfold Dict.insert
  cases hi : d.position? key with
  | some i =>
    obtain ⟨before, e, after, hes, hlen, he, hb, ha⟩ := h.split hi
    -- The entry keeps its key and its place, and the index is right as it was.
    have hmodify : (d.entries.modify i fun e => (e.1, v)).toList = before ++ (e.1, v) :: after := by
      rw [Array.toList_modify, hes, ← hlen, List.modify_eq_take_cons_drop (by simp)]
      simp
    dsimp only
    refine ⟨⟨?_, fun k => ?_⟩, ?_⟩
    · rw [hmodify, indexed_set, ← hes]
      exact h.distinct
    · rw [hmodify, indexed_set, ← hes]
      exact h.found k
    · rw [hmodify, hes, setIn_split he hb ha]
  | none =>
    -- The new entry comes last, where the index now looks for it.
    have hnew := h.position?_eq_none.mp hi
    have hpush : (d.entries.push (key, v)).toList = d.entries.toList ++ [(key, v)] :=
      Array.toList_push
    dsimp only
    refine ⟨⟨?_, fun k => ?_⟩, ?_⟩
    · rw [hpush, indexed_append]
      exact List.Nodup.append h.distinct (List.nodup_singleton _) (List.disjoint_singleton.mpr hnew)
    · have hlen : (indexed d.entries.toList).length = d.entries.size := by
        unfold indexed
        rw [List.length_map, Array.length_toList]
      have hlast : (indexed [(key, v)]).idxOf? k = if DictKey.of key == k then some 0 else none :=
        List.idxOf?_cons
      rw [hpush, indexed_append, idxOf?_append, hlast, hlen, Std.HashMap.getElem?_insert, h.found]
      by_cases hk : DictKey.of key = k
      · rw [idxOf?_eq_none (hk ▸ hnew), if_pos (beq_iff_eq.mpr hk), if_pos (beq_iff_eq.mpr hk)]
        simp
      · rw [if_neg (by simpa using hk), if_neg (by simpa using hk)]
        exact (Option.or_none).symm
    · rw [hpush, setIn_of_notMem hnew]

/-- The entry that goes leaves those before it where they are. -/
theorem erase (h : d.Indexed) (key : Value) :
    match d.erase key with
    | some (v, d') => d'.Indexed ∧ valueIn d.entries.toList key = some v ∧
        d'.entries.toList = removeFrom d.entries.toList key
    | none => DictKey.of key ∉ indexed d.entries.toList := by
  unfold Dict.erase
  cases hi : d.position? key with
  | none => exact h.position?_eq_none.mp hi
  | some i =>
    obtain ⟨before, e, after, hes, hlen, he, hb, ha⟩ := h.split hi
    have hget : d.entries[i]? = some e := by
      rw [← Array.getElem?_toList, hes, ← hlen]
      simp
    have herase : (d.entries.eraseIdxIfInBounds i).toList = before ++ after := by
      rw [Array.toList_eraseIdxIfInBounds, hes, ← hlen,
        List.eraseIdx_append_of_length_le (Nat.le_refl _)]
      simp
    have hdrop : (before ++ after).drop i = after := hlen ▸ List.drop_left
    have hdistinct := h.distinct
    rw [hes, indexed_append] at hdistinct
    have hleft : (indexed before ++ indexed after).Nodup :=
      (List.nodup_cons.mp (List.nodup_middle.mp hdistinct)).2
    dsimp only
    rw [hget]
    dsimp only
    rw [herase, hdrop]
    refine ⟨⟨?_, fun k => ?_⟩, ?_, ?_⟩
    · rw [herase, indexed_append]
      exact hleft
    · dsimp only
      rw [herase, getElem?_reindex _ _ _ (List.Nodup.of_append_right hleft), indexed_append,
        idxOf?_append, Std.HashMap.getElem?_erase, h.found, hes, indexed_append, idxOf?_append]
      have hi : (indexed before).length = i := by
        unfold indexed
        rw [List.length_map, hlen]
      rw [idxOf?_indexed_cons, hi, he]
      by_cases hk : DictKey.of key = k
      · rw [idxOf?_eq_none (hk ▸ ha), idxOf?_eq_none (hk ▸ hb), if_pos (beq_iff_eq.mpr hk)]
        rfl
      · rw [if_neg hk, if_neg (by simpa using hk)]
        -- A key after the place is in no entry before it.
        cases hj : (indexed after).idxOf? k with
        | none => rfl
        | some j =>
          have hmem : k ∈ indexed after := by
            by_contra hno
            rw [idxOf?_eq_none hno] at hj
            cases hj
          have hnone := idxOf?_eq_none fun hin => (List.disjoint_of_nodup_append hleft) hin hmem
          rw [hnone]
          rfl
    · rw [hes, valueIn_split he hb]
    · rw [hes, removeFrom_split he hb ha]

end Indexed

theorem Indexed.get?_eq {d : Dict} (h : d.Indexed) (key : Value) :
    d.get? key = valueIn d.entries.toList key := by
  unfold get?
  cases hi : d.position? key with
  | none => exact (valueIn_eq_none (h.position?_eq_none.mp hi)).symm
  | some i =>
    obtain ⟨before, e, after, hes, hlen, he, hb, -⟩ := h.split hi
    have hget : d.entries[i]? = some e := by
      rw [← Array.getElem?_toList, hes, ← hlen]
      simp
    dsimp only
    rw [hget, hes, valueIn_split he hb]
    rfl

theorem Indexed.contains_eq {d : Dict} (h : d.Indexed) (key : Value) :
    d.contains key = decide (DictKey.of key ∈ indexed d.entries.toList) := by
  unfold contains
  rw [Std.HashMap.contains_eq_isSome_getElem?, h.found, Bool.eq_iff_iff, decide_eq_true_iff]
  exact List.isSome_idxOf?

/-- One operation goes the same way on a dictionary and on the list of its entries. -/
theorem Indexed.run {d : Dict} (h : d.Indexed) (op : Op) : (op.run d).2.Indexed ∧
    ((op.run d).1, (op.run d).2.entries.toList) = op.runList d.entries.toList := by
  cases op with
  | set key v =>
    obtain ⟨hindexed, hentries⟩ := h.insert key v
    exact ⟨hindexed, congrArg (Prod.mk Answer.done) hentries⟩
  | get key =>
    exact ⟨h, congrArg (fun v => (Answer.found v, d.entries.toList)) (h.get?_eq key)⟩
  | has key =>
    exact ⟨h, congrArg (fun b => (Answer.present b, d.entries.toList)) (h.contains_eq key)⟩
  | remove key =>
    have herase := h.erase key
    cases he : d.erase key with
    | some e =>
      rw [he] at herase
      obtain ⟨hindexed, hvalue, hentries⟩ := herase
      have hrun : (Op.remove key).run d = (.found (some e.1), e.2) := by
        unfold Op.run
        dsimp only
        rw [he]
      rw [hrun]
      refine ⟨hindexed, ?_⟩
      dsimp only [Op.runList]
      rw [hvalue, hentries]
    | none =>
      rw [he] at herase
      have hrun : (Op.remove key).run d = (.found none, d) := by
        unfold Op.run
        dsimp only
        rw [he]
      rw [hrun]
      refine ⟨h, ?_⟩
      dsimp only [Op.runList]
      rw [valueIn_eq_none herase, removeFrom_of_notMem herase]
  | keys => exact ⟨h, rfl⟩
  | values => exact ⟨h, rfl⟩
  | size => exact ⟨h, rfl⟩

/-- All operations of a sequence answer as on the list of entries. -/
theorem Indexed.runAll {d : Dict} (h : d.Indexed) (ops : List Op) :
    (runAll Op.run d ops).2.Indexed ∧ ((runAll Op.run d ops).1,
      (runAll Op.run d ops).2.entries.toList) = Dict.runAll Op.runList d.entries.toList ops := by
  induction ops generalizing d with
  | nil => exact ⟨h, rfl⟩
  | cons op ops ih =>
    obtain ⟨hindexed, hone⟩ := h.run op
    obtain ⟨hlast, hrest⟩ := ih hindexed
    refine ⟨hlast, ?_⟩
    have hanswer : (op.run d).1 = (op.runList d.entries.toList).1 := congrArg Prod.fst hone
    have hentries : (op.run d).2.entries.toList = (op.runList d.entries.toList).2 :=
      congrArg Prod.snd hone
    rw [hentries] at hrest
    dsimp only [Dict.runAll]
    rw [hanswer, ← hrest]

/-- Whatever is done to a new dictionary, all answers and the entries are those of a list of pairs.
The index is the map of the entries' keys to their positions, and no two entries have one key. A key
that is set again keeps its place and its first spelling; a key that is removed leaves the others in
their order, and comes last where it is set again. -/
theorem refines_association_list (ops : List Op) :
    let d := (runAll Op.run {} ops).2
    ((runAll Op.run {} ops).1, d.entries.toList) = runAll Op.runList [] ops ∧
      (∀ k i, d.index[k]? = some i ↔ ∃ e, d.entries[i]? = some e ∧ DictKey.of e.1 = k) ∧
      (d.entries.toList.map fun e => DictKey.of e.1).Nodup ∧
      (∀ key v, d.contains key = true → (d.insert key v).entries.toList =
        d.entries.toList.map fun e => if DictKey.of e.1 = DictKey.of key then (e.1, v) else e) ∧
      ∀ key old d', d.erase key = some (old, d') →
        d'.entries.toList = d.entries.toList.filter (fun e => DictKey.of e.1 ≠ DictKey.of key) ∧
          ∀ v, (d'.insert key v).entries.toList = d'.entries.toList ++ [(key, v)] := by
  intro d
  obtain ⟨h, hall⟩ := Indexed.empty.runAll ops
  refine ⟨hall, h.index_iff, h.distinct, fun key v hin => ?_, fun key old d' he => ?_⟩
  · have hmem : DictKey.of key ∈ indexed d.entries.toList :=
      of_decide_eq_true ((h.contains_eq key).symm.trans hin)
    exact (h.insert key v).2.trans (if_pos hmem)
  · have herase := h.erase key
    rw [show (runAll Op.run {} ops).2.erase key = some (old, d') from he] at herase
    obtain ⟨hindexed, -, hentries⟩ := herase
    refine ⟨hentries, fun v => ?_⟩
    have hgone : DictKey.of key ∉ indexed d'.entries.toList := by
      rw [hentries]
      intro hin
      obtain ⟨e, he, hkey⟩ := List.mem_map.mp hin
      exact of_decide_eq_true (List.mem_filter.mp he).2 hkey
    rw [(hindexed.insert key v).2, setIn_of_notMem hgone]

end Dict

end BytecodeMachine
