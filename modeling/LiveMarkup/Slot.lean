import LiveMarkup.Field
import LiveMarkup.Node.Markup

/-!
# What a property binds

The name of a property decides what it binds on a live element. Two names may
bind the same slot: `class` and `className` do, and so do names of listeners
that differ in the case of their letters only.
-/

namespace LiveMarkup

/-- The part of a live element that a property binds. -/
inductive Slot where
  | key
  | ref
  | className
  | style
  | field (f : Field)
  | listener (event : String)
  | attribute (name : String)
  deriving DecidableEq

/-- The event whose listeners a property of a name is about. -/
def eventOf (name : String) : String :=
  Text.lowercase (String.ofList (name.toList.drop 2))

/-- The slot that a property of a name binds. -/
def Slot.ofName (name : String) : Slot :=
  if name = "key" then .key
  else if name = "ref" then .ref
  else if name = "class" ∨ name = "className" then .className
  else if name = "style" then .style
  else match Field.ofName? name with
    | some f => .field f
    | none => if Node.namesListener name then .listener (eventOf name) else .attribute name

end LiveMarkup
