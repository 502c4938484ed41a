/-!
# Maps in insertion order

An `OrderedMap` keeps its entries in the order in which their keys were first
written. Writing a key again keeps its place, and erasing it gives the place up,
so a key written after it was erased comes last.

The entries are a list read from the front, and `get?` is the view that every
other operation is described by. The type does not ask for distinct keys: every
map built from `empty` by the operations has them (`Distinct`), and the recursive
types that hold maps of themselves could not carry a proof about their entries.
-/

namespace LiveMarkup

/-- A map whose entries stay in the order of their first insertion. -/
structure OrderedMap (κ : Type) (α : Type) where
  entries : List (κ × α) := []

namespace OrderedMap

variable {κ α β : Type} [DecidableEq κ]

/-- The map without entries. -/
def empty : OrderedMap κ α := {}

instance : Inhabited (OrderedMap κ α) := ⟨empty⟩

/-- The value under a key among a list of entries. -/
def find? (k : κ) : List (κ × α) → Option α
  | [] => none
  | e :: es => if e.1 = k then some e.2 else find? k es

/-- A list of entries with a value written under a key. -/
def write (k : κ) (a : α) : List (κ × α) → List (κ × α)
  | [] => [(k, a)]
  | e :: es => if e.1 = k then (k, a) :: es else e :: write k a es

/-- A list of entries without the first under a key. -/
def drop (k : κ) : List (κ × α) → List (κ × α)
  | [] => []
  | e :: es => if e.1 = k then es else e :: drop k es

/-- The value under a key. -/
def get? (m : OrderedMap κ α) (k : κ) : Option α :=
  find? k m.entries

/-- Whether there is a value under a key. -/
def contains (m : OrderedMap κ α) (k : κ) : Bool :=
  (m.get? k).isSome

/-- The map with a value under a key, in the key's old place or at the end. -/
def insert (m : OrderedMap κ α) (k : κ) (a : α) : OrderedMap κ α :=
  ⟨write k a m.entries⟩

/-- The map without a key. -/
def erase (m : OrderedMap κ α) (k : κ) : OrderedMap κ α :=
  ⟨drop k m.entries⟩

/-- The first map with every entry of the second written into it. -/
def assign (m other : OrderedMap κ α) : OrderedMap κ α :=
  other.entries.foldl (fun m e => m.insert e.1 e.2) m

/-- The entries of a list written one after the other. -/
def ofList (es : List (κ × α)) : OrderedMap κ α :=
  empty.assign ⟨es⟩

/-- The keys in order. -/
def keys (m : OrderedMap κ α) : List κ :=
  m.entries.map (·.1)

/-- How many entries there are. -/
def size (m : OrderedMap κ α) : Nat :=
  m.entries.length

/-- Whether there are no entries. -/
def isEmpty (m : OrderedMap κ α) : Bool :=
  m.entries.isEmpty

/-- No key has two entries. -/
def Distinct (m : OrderedMap κ α) : Prop :=
  m.keys.Nodup

/-! ## The view of each operation -/

theorem find?_write (k l : κ) (a : α) (es : List (κ × α)) :
    find? l (write k a es) = if k = l then some a else find? l es := by
  induction es with
  | nil => rfl
  | cons e es ih =>
    simp only [write]
    split <;> grind [find?]

@[simp] theorem get?_empty (k : κ) : (empty : OrderedMap κ α).get? k = none := rfl

/-- A write is seen under its own key and under no other. -/
theorem get?_insert (m : OrderedMap κ α) (k l : κ) (a : α) :
    (m.insert k a).get? l = if k = l then some a else m.get? l :=
  find?_write k l a m.entries

@[simp] theorem get?_insert_self (m : OrderedMap κ α) (k : κ) (a : α) :
    (m.insert k a).get? k = some a := by
  simp [get?_insert]

theorem find?_eq_none_iff (k : κ) (es : List (κ × α)) :
    find? k es = none ↔ k ∉ es.map (·.1) := by
  induction es with
  | nil => simp [find?]
  | cons e es ih =>
    simp only [find?]
    split <;> simp_all [eq_comm]

theorem mem_of_find? {k : κ} {a : α} {es : List (κ × α)} (h : find? k es = some a) :
    (k, a) ∈ es := by
  induction es with
  | nil => cases h
  | cons e es ih =>
    by_cases he : e.1 = k
    · rw [find?, if_pos he, Option.some.injEq] at h
      rw [← he, ← h]
      exact List.mem_cons_self ..
    · rw [find?, if_neg he] at h
      exact List.mem_cons_of_mem _ (ih h)

theorem find?_of_mem {k : κ} {a : α} {es : List (κ × α)} (hn : (es.map (·.1)).Nodup)
    (h : (k, a) ∈ es) : find? k es = some a := by
  induction es with
  | nil => cases h
  | cons e es ih =>
    rw [List.map_cons, List.nodup_cons] at hn
    rcases List.mem_cons.1 h with rfl | h
    · exact if_pos rfl
    · have hne : e.1 ≠ k := fun hk => hn.1 (List.mem_map.2 ⟨_, h, hk.symm⟩)
      rw [find?, if_neg hne, ih hn.2 h]

/-- What is there after a write was written or was there before. -/
theorem mem_write {k : κ} {a : α} {e : κ × α} {es : List (κ × α)} (h : e ∈ write k a es) :
    e = (k, a) ∨ e ∈ es := by
  induction es with
  | nil => simpa [write] using h
  | cons f es ih =>
    simp only [write] at h
    split at h
    · rcases List.mem_cons.1 h with h | h
      · exact Or.inl h
      · exact Or.inr (List.mem_cons_of_mem _ h)
    · rcases List.mem_cons.1 h with h | h
      · exact Or.inr (h ▸ List.mem_cons_self ..)
      · exact (ih h).imp_right (List.mem_cons_of_mem _)

theorem get?_eq_none_iff (m : OrderedMap κ α) (k : κ) : m.get? k = none ↔ k ∉ m.keys :=
  find?_eq_none_iff k m.entries

/-- Writing under a new key adds the key at the end, under an old one nothing. -/
theorem keys_insert (m : OrderedMap κ α) (k : κ) (a : α) :
    (m.insert k a).keys = if k ∈ m.keys then m.keys else m.keys ++ [k] := by
  obtain ⟨es⟩ := m
  simp only [insert, keys]
  induction es with
  | nil => simp [write]
  | cons e es ih =>
    by_cases h : e.1 = k
    · simp [write, h]
    · simp only [write, if_neg h, List.map_cons, ih]
      grind

theorem Distinct.insert {m : OrderedMap κ α} (h : m.Distinct) (k : κ) (a : α) :
    (m.insert k a).Distinct := by
  unfold Distinct at *
  rw [keys_insert]
  split
  · exact h
  · rename_i hk
    rw [List.nodup_append]
    refine ⟨h, by simp, ?_⟩
    rintro x hx y hy rfl
    exact hk (by simpa using List.mem_singleton.1 hy ▸ hx)

omit [DecidableEq κ] in
theorem distinct_empty : (empty : OrderedMap κ α).Distinct :=
  List.nodup_nil

theorem drop_sublist (k : κ) (es : List (κ × α)) : (drop k es).Sublist es := by
  induction es with
  | nil => exact List.Sublist.slnil
  | cons e es ih =>
    simp only [drop]
    split
    · exact List.sublist_cons_self e es
    · exact ih.cons_cons e

theorem length_drop_lt {k : κ} {a : α} {es : List (κ × α)} (h : find? k es = some a) :
    (drop k es).length < es.length := by
  induction es with
  | nil => cases h
  | cons e es ih =>
    by_cases he : e.1 = k
    · rw [drop, if_pos he]
      exact Nat.lt_succ_self es.length
    · rw [find?, if_neg he] at h
      rw [drop, if_neg he]
      exact Nat.succ_lt_succ (ih h)

/-- A map that has a key is another without it. -/
theorem erase_ne_self {m : OrderedMap κ α} {k : κ} (h : m.contains k = true) : m.erase k ≠ m := by
  obtain ⟨a, ha⟩ := Option.isSome_iff_exists.1 h
  intro he
  have hlt := length_drop_lt ha
  have hentries : drop k m.entries = m.entries := congrArg entries he
  rw [hentries] at hlt
  exact Nat.lt_irrefl _ hlt

theorem Distinct.erase {m : OrderedMap κ α} (h : m.Distinct) (k : κ) : (m.erase k).Distinct :=
  List.Sublist.nodup ((drop_sublist k m.entries).map _) h

theorem find?_drop_of_ne {k l : κ} (h : k ≠ l) (es : List (κ × α)) :
    find? l (drop k es) = find? l es := by
  induction es with
  | nil => rfl
  | cons e es ih =>
    by_cases he : e.1 = k
    · have hl : e.1 ≠ l := fun hl => h (he.symm.trans hl)
      rw [drop, if_pos he, find?, if_neg hl]
    · rw [drop, if_neg he, find?, find?, ih]

theorem find?_drop {es : List (κ × α)} (h : (es.map (·.1)).Nodup) (k l : κ) :
    find? l (drop k es) = if k = l then none else find? l es := by
  induction es with
  | nil => simp [drop, find?]
  | cons e es ih =>
    simp only [List.map_cons, List.nodup_cons] at h
    by_cases hk : e.1 = k
    · simp only [drop, hk, if_true]
      split
      · subst_vars
        exact (find?_eq_none_iff _ _).2 h.1
      · simp_all [find?]
    · simp only [drop, hk, if_false, find?, ih h.2]
      split <;> split <;> simp_all

/-- Writing under a new key adds the entry at the end. -/
theorem write_of_not_mem {k : κ} {es : List (κ × α)} (h : k ∉ es.map (·.1)) (a : α) :
    write k a es = es ++ [(k, a)] := by
  induction es with
  | nil => rfl
  | cons e es ih =>
    rw [List.map_cons, List.mem_cons, not_or] at h
    rw [write, if_neg (Ne.symm h.1), ih h.2, List.cons_append]

/-- Entries under new keys, no two of them the same, are added as they are. -/
theorem assign_of_nodup {m : OrderedMap κ α} {es : List (κ × α)}
    (h : ((m.entries ++ es).map (·.1)).Nodup) : m.assign ⟨es⟩ = ⟨m.entries ++ es⟩ := by
  induction es generalizing m with
  | nil => rw [List.append_nil, assign, List.foldl_nil]
  | cons e es ih =>
    have hmove : m.entries ++ e :: es = (m.entries ++ [e]) ++ es := List.append_cons ..
    have hnew : e.1 ∉ m.entries.map (·.1) := by
      rw [List.map_append, List.map_cons] at h
      exact fun hmem => (List.nodup_append.1 h).2.2 _ hmem _ (List.mem_cons_self ..) rfl
    have hinsert : m.insert e.1 e.2 = ⟨m.entries ++ [e]⟩ := by rw [insert, write_of_not_mem hnew]
    rw [hmove] at h ⊢
    exact (congrArg (assign · ⟨es⟩) hinsert).trans (ih h)

/-- A map is written from its own entries. -/
theorem Distinct.ofList_entries {m : OrderedMap κ α} (h : m.Distinct) : ofList m.entries = m :=
  assign_of_nodup h

/-- An erased key has no value, and no other key loses its own. -/
theorem Distinct.get?_erase {m : OrderedMap κ α} (h : m.Distinct) (k l : κ) :
    (m.erase k).get? l = if k = l then none else m.get? l :=
  find?_drop h k l

/-- Writing what is there already changes nothing. -/
theorem insert_of_get? {m : OrderedMap κ α} {k : κ} {a : α} (h : m.get? k = some a) :
    m.insert k a = m := by
  obtain ⟨es⟩ := m
  apply congrArg OrderedMap.mk
  have hes : find? k es = some a := h
  clear h
  induction es with
  | nil => cases hes
  | cons e es ih =>
      by_cases he : e.1 = k
      · rw [find?, if_pos he, Option.some.injEq] at hes
        rw [write, if_pos he, ← he, ← hes]
      · rw [find?, if_neg he] at hes
        rw [write, if_neg he, ih hes]

/-- Erasing a key that is not there changes nothing. -/
theorem erase_of_get?_eq_none {m : OrderedMap κ α} {k : κ} (h : m.get? k = none) :
    m.erase k = m := by
  obtain ⟨es⟩ := m
  apply congrArg OrderedMap.mk
  have hes : find? k es = none := h
  clear h
  induction es with
  | nil => rfl
  | cons e es ih =>
      by_cases he : e.1 = k
      · rw [find?, if_pos he] at hes
        cases hes
      · rw [find?, if_neg he] at hes
        rw [drop, if_neg he, ih hes]

end OrderedMap

end LiveMarkup
