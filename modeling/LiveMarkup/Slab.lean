/-!
# Slabs

A slab gives out small naturals as keys. A new value takes the key that was
freed last, or the next unused one when none is free. So a slab is its slots,
some of them vacant, with the vacant keys stacked in the order in which they
were freed, the last one on top.

The stack holds exactly the vacant keys and each of them once. That is part of
the type, so a key in use is never given out again, whatever came before.
-/

namespace LiveMarkup

/-- Values under natural keys, with the freed keys used again, the last freed
first. -/
structure Slab (α : Type) where
  slots : Array (Option α) := #[]
  vacant : List Nat := []
  vacant_nodup : vacant.Nodup := by simp
  mem_vacant_iff (k : Nat) : k ∈ vacant ↔ slots[k]? = some none := by simp

namespace Slab

variable {α : Type}

/-- The slab without values. -/
def empty : Slab α := {}

instance : Inhabited (Slab α) := ⟨empty⟩

/-- The value under a key. -/
def get? (s : Slab α) (k : Nat) : Option α :=
  s.slots[k]?.join

/-- How many keys have been given out so far, those freed since included. -/
def capacity (s : Slab α) : Nat :=
  s.slots.size

/-- How many values there are. -/
def size (s : Slab α) : Nat :=
  s.slots.countP Option.isSome

/-- The key that the next value takes. -/
def nextKey (s : Slab α) : Nat :=
  match s.vacant with
  | [] => s.slots.size
  | k :: _ => k

/-- The slab with a value under the next key. -/
def insert (s : Slab α) (a : α) : Slab α :=
  match h : s.vacant with
  | [] =>
    { slots := s.slots.push (some a)
      vacant := []
      mem_vacant_iff := fun k => by
        have := s.mem_vacant_iff k
        simp only [h, List.not_mem_nil, false_iff] at this ⊢
        grind }
  | k :: ks =>
    { slots := s.slots.setIfInBounds k (some a)
      vacant := ks
      vacant_nodup := (List.nodup_cons.1 (h ▸ s.vacant_nodup)).2
      mem_vacant_iff := fun l => by
        have hk := (List.nodup_cons.1 (h ▸ s.vacant_nodup)).1
        have := s.mem_vacant_iff l
        simp only [h, List.mem_cons] at this
        grind }

/-- The slab with the value under a key changed, if there is one. -/
def modify (s : Slab α) (k : Nat) (f : α → α) : Slab α :=
  match h : s.slots[k]? with
  | some (some a) =>
    { slots := s.slots.setIfInBounds k (some (f a))
      vacant := s.vacant
      vacant_nodup := s.vacant_nodup
      mem_vacant_iff := fun l => by
        have := s.mem_vacant_iff l
        grind }
  | _ => s

/-- The slab without the value under a key, if there is one. -/
def remove (s : Slab α) (k : Nat) : Slab α :=
  match h : s.slots[k]? with
  | some (some _) =>
    { slots := s.slots.setIfInBounds k none
      vacant := k :: s.vacant
      vacant_nodup := by
        have := s.mem_vacant_iff k
        exact List.nodup_cons.2 ⟨by grind, s.vacant_nodup⟩
      mem_vacant_iff := fun l => by
        obtain ⟨hlt, -⟩ := Array.getElem?_eq_some_iff.1 h
        rw [List.mem_cons, Array.getElem?_setIfInBounds]
        by_cases hl : k = l
        · simp [hl, hl ▸ hlt]
        · rw [if_neg hl, ← s.mem_vacant_iff l]
          simp [Ne.symm hl] }
  | _ => s

/-- The keys in use, in order. -/
def keys (s : Slab α) : List Nat :=
  (List.range s.capacity).filter fun k => (s.get? k).isSome

/-- The values in the order of their keys. -/
def toList (s : Slab α) : List α :=
  s.slots.toList.filterMap id

/-- A key and its value, in the order of the keys. -/
def entries (s : Slab α) : List (Nat × α) :=
  (List.range s.capacity).filterMap fun k => (s.get? k).map (k, ·)

/-- The weight of the values together. -/
def weight (s : Slab α) (f : α → Nat) : Nat :=
  s.toList.foldr (fun a n => f a + n) 0

/-! ## The view of each operation -/

@[simp] theorem get?_empty (k : Nat) : (empty : Slab α).get? k = none := by
  simp [empty, get?]

/-- The next key is not in use. -/
@[simp] theorem get?_nextKey (s : Slab α) : s.get? s.nextKey = none := by
  unfold get? nextKey
  split
  · simp
  · rename_i k ks h
    have := (s.mem_vacant_iff k).1 (by simp [h])
    simp [this]

theorem get?_insert (s : Slab α) (a : α) (k : Nat) :
    (s.insert a).get? k = if k = s.nextKey then some a else s.get? k := by
  unfold get? insert nextKey
  split
  · rename_i h
    simp only [h]
    grind
  · rename_i l ls h
    have := (s.mem_vacant_iff l).1 (by simp [h])
    simp only [h]
    grind

theorem get?_modify (s : Slab α) (k l : Nat) (f : α → α) :
    (s.modify k f).get? l = if k = l then (s.get? l).map f else s.get? l := by
  unfold get? modify
  split
  · grind
  · rename_i h
    cases hl : s.slots[l]? with
    | none => simp
    | some o =>
      cases o with
      | none => simp
      | some a =>
        have hk : k ≠ l := fun hk => h a (hk ▸ hl)
        simp [hk]

theorem get?_remove (s : Slab α) (k l : Nat) :
    (s.remove k).get? l = if k = l then none else s.get? l := by
  unfold get? remove
  split
  · grind
  · rename_i h
    cases hl : s.slots[l]? with
    | none => simp
    | some o =>
      cases o with
      | none => simp
      | some a =>
        have hk : k ≠ l := fun hk => h a (hk ▸ hl)
        simp [hk]

/-! ## The weight -/

/-- A slot that becomes vacant takes its weight with it. -/
theorem foldr_set_none (f : α → Nat) {a : α} {l : List (Option α)} {k : Nat}
    (h : l[k]? = some (some a)) :
    ((l.set k none).filterMap id).foldr (fun a n => f a + n) 0 + f a =
      (l.filterMap id).foldr (fun a n => f a + n) 0 := by
  have hnone : ∀ l : List (Option α), (none :: l).filterMap id = l.filterMap id := fun _ => rfl
  have hsome : ∀ (b : α) (l : List (Option α)),
      (some b :: l).filterMap id = b :: l.filterMap id := fun _ _ => rfl
  induction l generalizing k with
  | nil => cases h
  | cons o l ih =>
      cases k with
      | zero =>
          obtain rfl : o = some a := Option.some.inj h
          rw [List.set_cons_zero, hnone, hsome, List.foldr_cons, Nat.add_comm]
      | succ k =>
          rw [List.set_cons_succ]
          cases o with
          | none => rw [hnone, hnone, ih h]
          | some b =>
              rw [hsome, hsome, List.foldr_cons, List.foldr_cons, Nat.add_assoc, ih h]

/-- What is removed no longer counts for the weight. -/
theorem weight_remove {s : Slab α} {k : Nat} {a : α} (f : α → Nat) (h : s.get? k = some a) :
    (s.remove k).weight f + f a = s.weight f := by
  have hk : s.slots[k]? = some (some a) := by simpa [get?, Option.join_eq_some_iff] using h
  have hset := foldr_set_none f (l := s.slots.toList) (Array.getElem?_toList.trans hk)
  unfold weight toList remove
  split
  · rwa [Array.toList_setIfInBounds]
  · rename_i hn
    exact absurd hk (hn a)

end Slab

end LiveMarkup
