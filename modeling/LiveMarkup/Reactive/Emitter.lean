import LiveMarkup.OrderedMap
import LiveMarkup.Slab

/-!
# Emitters

An emitter keeps listeners under names, those of one name in a slab of their own.
A listener is known by its name and its key there, so a key freed under a name is
given to the next listener under that name. The listeners of a name are called in
the order of their keys.

A name whose last listener was removed one by one keeps its empty slab and with it
the order of the freed keys; clearing the name drops the slab.
-/

namespace LiveMarkup

/-- Listeners under names. -/
structure Emitter (α : Type) where
  topics : OrderedMap String (Slab α) := .empty

namespace Emitter

variable {α : Type}

/-- The emitter without listeners. -/
def empty : Emitter α := {}

/-- The listeners under a name with their keys. -/
def topic (e : Emitter α) (name : String) : Slab α :=
  (e.topics.get? name).getD .empty

/-- The listener under a name and a key. -/
def get? (e : Emitter α) (name : String) (key : Nat) : Option α :=
  (e.topic name).get? key

/-- The key that the next listener under a name takes. -/
def nextKey (e : Emitter α) (name : String) : Nat :=
  (e.topic name).nextKey

/-- The emitter with a listener under a name and the next key of that name. -/
def on (e : Emitter α) (name : String) (listener : α) : Emitter α :=
  ⟨e.topics.insert name ((e.topic name).insert listener)⟩

/-- The emitter without the listener under a name and a key, if there is one. -/
def off (e : Emitter α) (name : String) (key : Nat) : Emitter α :=
  match e.topics.get? name with
  | none => e
  | some slab => ⟨e.topics.insert name (slab.remove key)⟩

/-- The emitter without the listeners under a name. -/
def offAll (e : Emitter α) (name : String) : Emitter α :=
  ⟨e.topics.erase name⟩

/-- The listeners under a name in the order in which they are called. -/
def listeners (e : Emitter α) (name : String) : List α :=
  (e.topic name).toList

/-- How many listeners there are under a name. -/
def count (e : Emitter α) (name : String) : Nat :=
  (e.topic name).size

/-- The names that listeners were registered under, and how many each has. -/
def counts (e : Emitter α) : List (String × Nat) :=
  e.topics.entries.map fun t => (t.1, t.2.size)

/-- The emitter with the listeners of a list registered one after the other. -/
def ofList (ls : List (String × α)) : Emitter α :=
  ls.foldl (fun e l => e.on l.1 l.2) empty

/-! ## The view of each operation -/

@[simp] theorem topic_empty (name : String) : (empty : Emitter α).topic name = .empty := rfl

theorem topic_on (e : Emitter α) (name other : String) (l : α) :
    (e.on name l).topic other = if name = other then (e.topic name).insert l
      else e.topic other := by
  simp only [topic, on, OrderedMap.get?_insert]
  split <;> rfl

theorem topic_off (e : Emitter α) (name other : String) (key : Nat) :
    (e.off name key).topic other = if name = other then (e.topic name).remove key
      else e.topic other := by
  unfold off
  split
  · rename_i h
    split
    · rename_i hn
      subst hn
      simp [topic, h, Slab.remove, Slab.empty]
    · rfl
  · rename_i slab h
    simp only [topic, OrderedMap.get?_insert, h]
    split <;> rfl

/-- A new listener is seen under its name and key and leaves the others as they
were. -/
theorem get?_on (e : Emitter α) (name other : String) (l : α) (key : Nat) :
    (e.on name l).get? other key =
      if name = other ∧ key = e.nextKey name then some l else e.get? other key := by
  unfold get? nextKey
  rw [topic_on]
  by_cases h : name = other
  · subst h
    simp [Slab.get?_insert]
  · simp [h]

/-- A removed listener is no longer seen, and the others are as they were. -/
theorem get?_off (e : Emitter α) (name other : String) (key l : Nat) :
    (e.off name key).get? other l =
      if name = other ∧ key = l then none else e.get? other l := by
  unfold get?
  rw [topic_off]
  by_cases h : name = other
  · subst h
    simp [Slab.get?_remove]
  · simp [h]

/-- A key that the next listener takes is not in use. -/
@[simp] theorem get?_nextKey (e : Emitter α) (name : String) :
    e.get? name (e.nextKey name) = none :=
  Slab.get?_nextKey _

end Emitter

end LiveMarkup
