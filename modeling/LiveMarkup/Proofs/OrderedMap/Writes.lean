import LiveMarkup.OrderedMap
import LiveMarkup.Proofs.Histories
import Mathlib.Data.List.Basic
import Mathlib.Data.List.Pairwise

/-!
# Maps and what was written into them

A map comes about from nothing or from a list of entries, by writes, by removals and by
assigning other maps to it (`OrderedMap.Origin`). All of this is a list of edits, each a
write or a removal of one key (`Origin.edits`), and a map is described by its edits alone
(`Describes`): a key has the value of its last write unless it was removed since
(`LastWrite`), and keys stand in the order of the writes that made them present (`Arises`).
What one more edit does to the description is `Describes.concat`.

Two maps with the same keys in the same order and with the same values are the same
(`Distinct.ext`), so that the laws of `assign` follow from its keys and its values.
-/

namespace LiveMarkup.OrderedMap

open History (concat_eq_append_cons_iff)

variable {κ α : Type} [DecidableEq κ]

/-! ## Edits -/

/-- A write under a key, or the removal of a key. -/
inductive Edit (κ α : Type) where
  | write (key : κ) (value : α)
  | erase (key : κ)

/-- The key that is written or removed. -/
def Edit.key : Edit κ α → κ
  | .write k _ => k
  | .erase k => k

/-- The map after an edit. -/
def edit (m : OrderedMap κ α) : Edit κ α → OrderedMap κ α
  | .write k a => m.insert k a
  | .erase k => m.erase k

/-- The map that edits make of the empty one. -/
def replay (es : List (Edit κ α)) : OrderedMap κ α :=
  es.foldl edit empty

/-- The writes of entries, one after the other. -/
def writes (es : List (κ × α)) : List (Edit κ α) :=
  es.map fun e => .write e.1 e.2

/-- A value was written under a key, and the key was neither written nor removed since. -/
def LastWrite (es : List (Edit κ α)) (k : κ) (a : α) : Prop :=
  ∃ before after, es = before ++ .write k a :: after ∧ ∀ e ∈ after, e.key ≠ k

/-- The edit at a position is a write that made a key present, which was not removed since. -/
def Arises (es : List (Edit κ α)) (k : κ) (i : Nat) : Prop :=
  ∃ before a after, es = before ++ .write k a :: after ∧ before.length = i ∧
    (∀ b, ¬ LastWrite before k b) ∧ .erase k ∉ after

/-! ## One more edit -/

variable {es : List (Edit κ α)} {e : Edit κ α} {k l : κ} {a b : α} {i j : Nat}

omit [DecidableEq κ] in
theorem lastWrite_concat :
    LastWrite (es ++ [e]) k a ↔ e = .write k a ∨ (e.key ≠ k ∧ LastWrite es k a) := by
  constructor
  · rintro ⟨before, after, hes, hafter⟩
    rcases concat_eq_append_cons_iff.1 hes with ⟨-, he, -⟩ | ⟨later, rfl, rfl⟩
    · exact .inl he
    · simp only [List.forall_mem_append, List.forall_mem_singleton] at hafter
      exact .inr ⟨hafter.2, before, later, rfl, hafter.1⟩
  · rintro (rfl | ⟨he, before, after, rfl, hafter⟩)
    · exact ⟨es, [], rfl, by simp⟩
    · refine ⟨before, after ++ [e], by simp, ?_⟩
      simpa only [List.forall_mem_append, List.forall_mem_singleton] using ⟨hafter, he⟩

omit [DecidableEq κ] in
theorem arises_concat :
    Arises (es ++ [e]) k i ↔
      (Arises es k i ∧ e ≠ .erase k) ∨
        ((∃ a, e = .write k a) ∧ i = es.length ∧ ∀ b, ¬ LastWrite es k b) := by
  constructor
  · rintro ⟨before, a, after, hes, hi, hnew, hafter⟩
    rcases concat_eq_append_cons_iff.1 hes with ⟨rfl, he, -⟩ | ⟨later, rfl, rfl⟩
    · exact .inr ⟨⟨a, he⟩, hi.symm, hnew⟩
    · rw [List.mem_append, List.mem_singleton, not_or] at hafter
      exact .inl ⟨⟨before, a, later, rfl, hi, hnew, hafter.1⟩, Ne.symm hafter.2⟩
  · rintro (⟨⟨before, a, after, rfl, hi, hnew, hafter⟩, he⟩ | ⟨⟨a, rfl⟩, rfl, hnew⟩)
    · refine ⟨before, a, after ++ [e], by simp, hi, hnew, ?_⟩
      rw [List.mem_append, List.mem_singleton, not_or]
      exact ⟨hafter, Ne.symm he⟩
    · exact ⟨es, a, [], rfl, rfl, hnew, List.not_mem_nil⟩

omit [DecidableEq κ] in
theorem arises_concat_erase : Arises (es ++ [.erase k]) l i ↔ Arises es l i ∧ k ≠ l := by
  simp [arises_concat]

omit [DecidableEq κ] in
theorem Arises.lt_length (h : Arises es k i) : i < es.length := by
  obtain ⟨before, a, after, rfl, rfl, -, -⟩ := h
  simp

/-! ## The map that edits describe -/

theorem mem_keys_iff (m : OrderedMap κ α) (k : κ) : k ∈ m.keys ↔ ∃ a, m.get? k = some a := by
  rw [← not_iff_not, ← get?_eq_none_iff, Option.eq_none_iff_forall_ne_some, not_exists]

/-- No key of a map is there twice, keys have their values from their last writes, and they
are in the order of the writes that made them present. -/
structure Describes (es : List (Edit κ α)) (m : OrderedMap κ α) : Prop where
  distinct : m.Distinct
  value : ∀ k a, m.get? k = some a ↔ LastWrite es k a
  present : ∀ k, k ∈ m.keys ↔ ∃ i, Arises es k i
  ordered : m.keys.Pairwise fun k l => ∀ i j, Arises es k i → Arises es l j → i < j

theorem describes_empty : Describes [] (empty : OrderedMap κ α) where
  distinct := distinct_empty
  value k a := by simp [LastWrite]
  present k := by simp [Arises, keys, empty]
  ordered := List.Pairwise.nil

section Steps

variable {m : OrderedMap κ α} (h : Describes es m)

include h

theorem Describes.notMem_keys_iff : k ∉ m.keys ↔ ∀ b, ¬ LastWrite es k b := by
  simp [mem_keys_iff, h.value]

theorem Describes.arises_write :
    Arises (es ++ [.write k a]) l i ↔ Arises es l i ∨ (l = k ∧ i = es.length ∧ k ∉ m.keys) := by
  rw [arises_concat, ← h.notMem_keys_iff]
  by_cases hlk : l = k <;> simp [hlk, Ne.symm]

/-- A write under a key that is there changes no place, since its key has arisen already. A
new key arises last. -/
theorem Describes.ordered_write : (m.insert k a).keys.Pairwise fun l l' =>
    ∀ i j, Arises (es ++ [.write k a]) l i → Arises (es ++ [.write k a]) l' j → i < j := by
  simp only [h.arises_write, keys_insert]
  by_cases hk : k ∈ m.keys
  · simpa [hk] using h.ordered
  · have hnew : ∀ l ∈ m.keys, l ≠ k := fun l hl hlk => hk (hlk ▸ hl)
    rw [if_neg hk, List.pairwise_append]
    refine ⟨?_, List.pairwise_singleton .., ?_⟩
    · refine h.ordered.imp_of_mem fun hl hl' hlt i j => ?_
      simpa [hnew _ hl, hnew _ hl'] using hlt i j
    · intro l hl l' hl' i j hi hj
      obtain rfl := List.mem_singleton.1 hl'
      have hi : Arises es l i := by simpa [hnew l hl] using hi
      rcases hj with hj | ⟨-, rfl, -⟩
      · exact absurd ((h.present _).2 ⟨j, hj⟩) hk
      · exact hi.lt_length

theorem Describes.write (k : κ) (a : α) : Describes (es ++ [.write k a]) (m.insert k a) where
  distinct := h.distinct.insert k a
  value l b := by
    rw [get?_insert, lastWrite_concat, ← h.value]
    by_cases hkl : k = l <;> simp [Edit.key, hkl]
  present l := by
    simp only [h.arises_write, exists_or, ← h.present, keys_insert]
    by_cases hk : k ∈ m.keys <;> simp [hk]
  ordered := h.ordered_write

theorem Describes.erase (k : κ) : Describes (es ++ [.erase k]) (m.erase k) where
  distinct := h.distinct.erase k
  value l b := by
    rw [h.distinct.get?_erase, lastWrite_concat, ← h.value]
    by_cases hkl : k = l <;> simp [Edit.key, hkl]
  present l := by
    simp only [arises_concat_erase, exists_and_right, ← h.present, mem_keys_iff,
      h.distinct.get?_erase]
    by_cases hkl : k = l <;> simp [hkl]
  ordered := by
    simp only [arises_concat_erase]
    refine List.Pairwise.imp ?_ (h.ordered.sublist ((drop_sublist k m.entries).map _))
    exact fun hlt i j hi hj => hlt i j hi.1 hj.1

end Steps

/-- What describes a map describes it one edit further. -/
theorem Describes.concat {m : OrderedMap κ α} (h : Describes es m) (e : Edit κ α) :
    Describes (es ++ [e]) (m.edit e) := by
  cases e with
  | write k a => exact h.write k a
  | erase k => exact h.erase k

theorem describes_replay (es : List (Edit κ α)) : Describes es (replay es) := by
  induction es using List.reverseRecOn with
  | nil => exact describes_empty
  | append_singleton es e ih =>
      rw [replay, List.foldl_append]
      exact ih.concat e

/-! ## Keys, values and entries -/

variable {m n : OrderedMap κ α}

theorem Distinct.entries_eq (h : m.Distinct) :
    m.keys.filterMap (fun k => (m.get? k).map (k, ·)) = m.entries := by
  rw [keys, List.filterMap_map]
  refine (List.filterMap_congr fun e he => ?_).trans (List.filterMap_some ..)
  simp [get?, find?_of_mem h he]

/-- Maps with the same keys in the same order and the same values are the same. -/
theorem Distinct.ext (hm : m.Distinct) (hn : n.Distinct) (hkeys : m.keys = n.keys)
    (hvalue : ∀ k, m.get? k = n.get? k) : m = n := by
  have hentries : m.entries = n.entries := by
    simp only [← hm.entries_eq, ← hn.entries_eq, hkeys, hvalue]
  obtain ⟨es⟩ := m
  exact congrArg OrderedMap.mk hentries

theorem keys_erase (m : OrderedMap κ α) (k : κ) : (m.erase k).keys = m.keys.erase k := by
  obtain ⟨es⟩ := m
  simp only [erase, keys]
  induction es with
  | nil => rfl
  | cons e es ih =>
      by_cases he : e.1 = k
      · simp [drop, he]
      · simp [drop, he, ih]

/-- A key that is removed and written again comes last. -/
theorem Distinct.keys_erase_insert (h : m.Distinct) (k : κ) (a : α) :
    ((m.erase k).insert k a).keys = m.keys.erase k ++ [k] := by
  have hnew : k ∉ m.keys.erase k := List.Nodup.not_mem_erase h
  rw [keys_insert, keys_erase, if_neg hnew]

/-! ## Assigning one map to another -/

omit [DecidableEq κ] in
theorem keys_cons (e : κ × α) (es : List (κ × α)) : keys ⟨e :: es⟩ = e.1 :: keys ⟨es⟩ := rfl

theorem assign_cons (m : OrderedMap κ α) (e : κ × α) (es : List (κ × α)) :
    m.assign ⟨e :: es⟩ = (m.insert e.1 e.2).assign ⟨es⟩ := rfl

theorem Distinct.assign_mk (h : m.Distinct) (es : List (κ × α)) : (m.assign ⟨es⟩).Distinct := by
  induction es generalizing m with
  | nil => exact h
  | cons e es ih => exact ih (h.insert e.1 e.2)

theorem Distinct.assign (h : m.Distinct) (n : OrderedMap κ α) : (m.assign n).Distinct :=
  h.assign_mk n.entries

/-- The keys of a map stay where they are, and new keys follow in their own order. -/
theorem Distinct.keys_assign (h : n.Distinct) (m : OrderedMap κ α) :
    (m.assign n).keys = m.keys ++ n.keys.filter (· ∉ m.keys) := by
  obtain ⟨es⟩ := n
  induction es generalizing m with
  | nil => exact (List.append_nil m.keys).symm
  | cons e es ih =>
      obtain ⟨hnew, hes⟩ := List.nodup_cons.1 h
      rw [assign_cons, ih _ hes, keys_insert, keys_cons]
      by_cases he : e.1 ∈ m.keys
      · simp [he]
      · have hfilter : (keys ⟨es⟩).filter (· ∉ m.keys ++ [e.1]) =
            (keys ⟨es⟩).filter (· ∉ m.keys) := by
          refine List.filter_congr fun k hk => ?_
          have hne : k ≠ e.1 := ne_of_mem_of_not_mem hk hnew
          simp [hne]
        rw [if_neg he, hfilter, List.filter_cons_of_pos (by simpa using he), List.append_assoc]
        rfl

/-- The values of the second map win. -/
theorem Distinct.get?_assign (h : n.Distinct) (m : OrderedMap κ α) (k : κ) :
    (m.assign n).get? k = (n.get? k).or (m.get? k) := by
  obtain ⟨es⟩ := n
  induction es generalizing m with
  | nil => rfl
  | cons e es ih =>
      obtain ⟨hnew, hes⟩ := List.nodup_cons.1 h
      rw [assign_cons, ih _ hes, get?_insert]
      by_cases he : e.1 = k
      · have hnone : find? k es = none := (find?_eq_none_iff k es).2 (he ▸ hnew)
        simp [get?, find?, he, hnone]
      · simp [get?, find?, he]

theorem Distinct.assign_assoc {o : OrderedMap κ α} (hm : m.Distinct) (hn : n.Distinct)
    (ho : o.Distinct) : (m.assign n).assign o = m.assign (n.assign o) := by
  refine ((hm.assign n).assign o).ext (hm.assign _) ?_ fun k => ?_
  · rw [ho.keys_assign, hn.keys_assign, (hn.assign o).keys_assign, ho.keys_assign]
    simp only [List.filter_append, List.filter_filter, List.append_assoc]
    congr 2
    exact List.filter_congr fun k _ => by by_cases hk : k ∈ m.keys <;> simp [hk]
  · rw [ho.get?_assign, hn.get?_assign, (hn.assign o).get?_assign, ho.get?_assign,
      Option.or_assoc]

theorem Distinct.assign_assign (hm : m.Distinct) (hn : n.Distinct) :
    (m.assign n).assign n = m.assign n := by
  refine ((hm.assign n).assign n).ext (hm.assign n) ?_ fun k => ?_
  · rw [hn.keys_assign, hn.keys_assign, List.append_right_eq_self, List.filter_eq_nil_iff]
    intro k hk
    by_cases hm : k ∈ m.keys <;> simp [hm, hk]
  · rw [hn.get?_assign, hn.get?_assign, ← Option.or_assoc, Option.or_self]

/-! ## How maps come about -/

/-- How a map comes about: from nothing or a list of entries, by writes, removals and
other maps that are assigned to it. -/
inductive Origin (κ α : Type) where
  | empty
  | ofList (es : List (κ × α))
  | insert (o : Origin κ α) (k : κ) (a : α)
  | erase (o : Origin κ α) (k : κ)
  | assign (o other : Origin κ α)

namespace Origin

/-- The map that comes about. -/
def map : Origin κ α → OrderedMap κ α
  | empty => .empty
  | ofList es => .ofList es
  | insert o k a => o.map.insert k a
  | erase o k => o.map.erase k
  | assign o other => o.map.assign other.map

/-- The edits made, those of an assignment being the writes of the other map's entries. -/
def edits : Origin κ α → List (Edit κ α)
  | empty => []
  | ofList es => writes es
  | insert o k a => o.edits ++ [.write k a]
  | erase o k => o.edits ++ [.erase k]
  | assign o other => o.edits ++ writes other.map.entries

theorem foldl_edit_writes (m : OrderedMap κ α) (es : List (κ × α)) :
    (writes es).foldl edit m = m.assign ⟨es⟩ := by
  rw [writes, List.foldl_map]
  rfl

theorem map_eq_replay (o : Origin κ α) : o.map = replay o.edits := by
  induction o with
  | empty => rfl
  | ofList es => exact (foldl_edit_writes OrderedMap.empty es).symm
  | insert o k a ih =>
      rw [map, ih, replay, replay, edits, List.foldl_append]
      rfl
  | erase o k ih =>
      rw [map, ih, replay, replay, edits, List.foldl_append]
      rfl
  | assign o other ih _ =>
      rw [map, ih, replay, replay, edits, List.foldl_append]
      exact (foldl_edit_writes _ other.map.entries).symm

theorem describes_map (o : Origin κ α) : Describes o.edits o.map :=
  o.map_eq_replay ▸ describes_replay o.edits

theorem distinct_map (o : Origin κ α) : o.map.Distinct :=
  o.describes_map.distinct

/-- A map keeps the order of insertion, however it came about. No key is there twice. A key
has the value of its last write since its last removal, and keys are in the order of the
writes that made them present: a write under a key that is there keeps its place, and one
that is removed and written again comes last. An assignment leaves the keys of the first map
in their order and adds the new keys of the second in theirs, with the values of the second.
It is associative, and to repeat it changes nothing. -/
theorem insertion_ordered (o p q : Origin κ α) :
    Describes o.edits o.map ∧
      (∀ k a, (o.map.insert k a).keys =
        if k ∈ o.map.keys then o.map.keys else o.map.keys ++ [k]) ∧
      (∀ k a, ((o.map.erase k).insert k a).keys = o.map.keys.erase k ++ [k]) ∧
      (o.map.assign p.map).keys = o.map.keys ++ p.map.keys.filter (· ∉ o.map.keys) ∧
      (∀ k, (o.map.assign p.map).get? k = (p.map.get? k).or (o.map.get? k)) ∧
      (o.map.assign p.map).assign q.map = o.map.assign (p.map.assign q.map) ∧
      (o.map.assign p.map).assign p.map = o.map.assign p.map := by
  have ho := o.distinct_map
  have hp := p.distinct_map
  have hq := q.distinct_map
  exact ⟨o.describes_map, keys_insert o.map, ho.keys_erase_insert, hp.keys_assign o.map,
    hp.get?_assign o.map, ho.assign_assoc hp hq, ho.assign_assign hp⟩

example : (((ofList [("a", 1), ("b", 2)]).insert "a" 3).erase "b" |>.insert "b" 4).map.entries =
    [("a", 3), ("b", 4)] := by decide

end Origin

end LiveMarkup.OrderedMap
