import LiveMarkup.Slab

/-!
# Cells

A cell holds a value, the changes that wait to be applied to it, and the listeners
that are told when they have been. A change does not take effect when it is
submitted: the first one to wait asks for the cell to be flushed, and a flush takes
all that wait by then.

What a change and a listener are is left open, so that a cell serves wherever
updates are applied in batches.
-/

namespace LiveMarkup

/-- A value with its waiting changes and its listeners. -/
structure Cell (α χ β : Type) where
  value : α
  pending : List χ := []
  listeners : Slab β := .empty

namespace Cell

variable {α χ β : Type}

/-- Whether changes wait. -/
def isPending (c : Cell α χ β) : Bool :=
  !c.pending.isEmpty

/-- The cell with one more change waiting, behind the others. -/
def submit (c : Cell α χ β) (x : χ) : Cell α χ β :=
  { c with pending := c.pending ++ [x] }

/-- The cell with no change waiting. -/
def clear (c : Cell α χ β) : Cell α χ β :=
  { c with pending := [] }

/-- The cell with its value changed. -/
def update (c : Cell α χ β) (f : α → α) : Cell α χ β :=
  { c with value := f c.value }

/-- The cell with one more listener, under the next key of its slab. -/
def listen (c : Cell α χ β) (l : β) : Cell α χ β :=
  { c with listeners := c.listeners.insert l }

/-- The cell without the listener under a key, if there is one. -/
def unlisten (c : Cell α χ β) (key : Nat) : Cell α χ β :=
  { c with listeners := c.listeners.remove key }

@[simp] theorem value_submit (c : Cell α χ β) (x : χ) : (c.submit x).value = c.value := rfl

@[simp] theorem pending_submit (c : Cell α χ β) (x : χ) :
    (c.submit x).pending = c.pending ++ [x] := rfl

@[simp] theorem isPending_submit (c : Cell α χ β) (x : χ) : (c.submit x).isPending = true := by
  simp [isPending]

@[simp] theorem isPending_clear (c : Cell α χ β) : c.clear.isPending = false := rfl

@[simp] theorem value_clear (c : Cell α χ β) : c.clear.value = c.value := rfl

@[simp] theorem value_update (c : Cell α χ β) (f : α → α) :
    (c.update f).value = f c.value := rfl

@[simp] theorem pending_update (c : Cell α χ β) (f : α → α) :
    (c.update f).pending = c.pending := rfl

/-- Nothing waits exactly when no change does. -/
theorem isPending_eq_false_iff (c : Cell α χ β) : c.isPending = false ↔ c.pending = [] := by
  simp [isPending]

end Cell

end LiveMarkup
