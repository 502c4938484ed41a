/-!
# Fields of form elements

Three properties of an element are not attributes but live on the element
itself: whether it is checked, its current value and whether it is disabled. A
field holds nothing, a flag or a text.
-/

namespace LiveMarkup

/-- A property that lives on the element itself. -/
inductive Field where
  | checked
  | value
  | disabled
  deriving DecidableEq

/-- What a field holds. -/
inductive FieldValue where
  | null
  | bool (b : Bool)
  | text (s : String)
  deriving DecidableEq

namespace Field

/-- The name of a field. -/
def name : Field → String
  | .checked => "checked"
  | .value => "value"
  | .disabled => "disabled"

/-- The field of a name. -/
def ofName? (name : String) : Option Field :=
  if name = "checked" then some .checked
  else if name = "value" then some .value
  else if name = "disabled" then some .disabled
  else none

theorem ofName?_name (f : Field) : ofName? f.name = some f := by
  cases f <;> decide

theorem name_of_ofName? {name : String} {f : Field} (h : ofName? name = some f) :
    f.name = name := by
  unfold ofName? at h
  grind [Field.name]

end Field

/-- Whether a field counts as set: a flag when it is up, a text always. -/
def FieldValue.isSet : FieldValue → Bool
  | .null => false
  | .bool b => b
  | .text _ => true

end LiveMarkup
