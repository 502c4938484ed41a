import LiveMarkup.Field
import LiveMarkup.Name
import LiveMarkup.Style
import LiveMarkup.Text.Blank
import LiveMarkup.Value.Basic

/-!
# Live elements

A live element has a name, attributes in the order in which they were first set,
an inline style kept apart from them, three fields, and listeners in the order
in which they were registered. A listener is registered at most once for one
event.

The operations that may leave an element as it is say so: they give `none` when
there is nothing to change.
-/

namespace LiveMarkup

/-- The attributes of an element. -/
abbrev Attributes := OrderedMap Name String

/-- The attributes with a value set, unless it is set already. -/
def Attributes.set? (a : Attributes) (name : Name) (value : String) : Option Attributes :=
  if a.get? name = some value then none else some (a.insert name value)

/-- The attributes without one of them, unless it is missing already. -/
def Attributes.clear? (a : Attributes) (name : Name) : Option Attributes :=
  if a.contains name then some (a.erase name) else none

/-- A live element. -/
structure Element where
  name : Name
  attributes : Attributes := .empty
  style : Style := .empty
  checked : FieldValue := .null
  value : FieldValue := .null
  disabled : FieldValue := .null
  listeners : List (String × Listener) := []

namespace Element

/-- The first attribute with a local name. -/
def attribute? (e : Element) (name : String) : Option String :=
  (e.attributes.entries.find? fun a => a.1.localName = name).map (·.2)

/-- Whether there is an attribute with a local name, whatever its value. -/
def hasAttribute (e : Element) (name : String) : Bool :=
  (e.attribute? name).isSome

/-- The classes of an element. -/
def classes (e : Element) : List String :=
  Text.words ((e.attribute? "class").getD "")

/-- What a field of an element holds. -/
def field (e : Element) : Field → FieldValue
  | .checked => e.checked
  | .value => e.value
  | .disabled => e.disabled

/-- The element with a field set. -/
def setField (e : Element) (f : Field) (v : FieldValue) : Element :=
  match f with
  | .checked => { e with checked := v }
  | .value => { e with value := v }
  | .disabled => { e with disabled := v }

/-- The listeners for an event, in the order in which they were registered. -/
def listenersFor (e : Element) (event : String) : List Listener :=
  (e.listeners.filter fun p => p.1 = event).map (·.2)

/-- The element with a listener for an event, unless it has it already. -/
def addListener? (e : Element) (event : String) (l : Listener) : Option Element :=
  if (event, l) ∈ e.listeners then none
  else some { e with listeners := e.listeners ++ [(event, l)] }

/-- The element without a listener for an event, unless it has none such. -/
def removeListener? (e : Element) (event : String) (l : Listener) : Option Element :=
  if (event, l) ∈ e.listeners then some { e with listeners := e.listeners.erase (event, l) }
  else none

theorem field_setField (e : Element) (f g : Field) (v : FieldValue) :
    (e.setField f v).field g = if f = g then v else e.field g := by
  cases f <;> cases g <;> rfl

end Element

end LiveMarkup
