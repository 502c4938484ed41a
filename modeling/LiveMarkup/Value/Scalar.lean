import LiveMarkup.Value.Basic
import LiveMarkup.Number.Shortest

/-!
# The text and the truth of a value

Scalars have a text, and a list has the texts of its items that have one, with
single spaces between them. Null has no text, nor has anything that is not
written down as text: nodes, maps and handles.

A value counts as false when it is null, `false`, a zero, not a number, or the
empty string.
-/

namespace LiveMarkup

namespace Value

/-- Whether a value counts as true. -/
def isTruthy : Value → Bool
  | .null => false
  | .bool b => b
  | .number x => !x.isZero && x != .nan
  | .str s => s != ""
  | _ => true

/-- Whether a value is null. -/
def isNull : Value → Bool
  | .null => true
  | _ => false

mutual

/-- The text of a value, if it has one. -/
def text? : Value → Option String
  | .str s => some s
  | .number x => some x.text
  | .bool b => some (if b then "true" else "false")
  | .list items => some (" ".intercalate (texts items))
  | _ => none
termination_by structural v => v

/-- The texts of the values that have one. -/
def texts : List Value → List String
  | [] => []
  | v :: vs => v.text?.toList ++ texts vs
termination_by structural vs => vs

end

/-- The name of the kind of a value. -/
def typeName : Value → String
  | .null => "null"
  | .bool _ => "boolean"
  | .number _ => "number"
  | .str _ => "string"
  | .node _ => "node"
  | .list _ => "list"
  | .map _ => "map"
  | .listener _ => "listener"
  | .component _ => "component"
  | .ref _ => "ref"

/-- The string that a value is. -/
def str? : Value → Option String
  | .str s => some s
  | _ => none

/-- The node that a value is. -/
def node? : Value → Option Node
  | .node n => some n
  | _ => none

theorem texts_append (vs ws : List Value) : texts (vs ++ ws) = texts vs ++ texts ws := by
  induction vs with
  | nil => rfl
  | cons v vs ih => simp [texts, ih]

/-- The texts of a list are those of its items that have one, in order. -/
theorem texts_eq_filterMap (vs : List Value) : texts vs = vs.filterMap text? := by
  induction vs with
  | nil => rfl
  | cons v vs ih => cases h : v.text? <;> simp [texts, h, ih]

end Value

end LiveMarkup
