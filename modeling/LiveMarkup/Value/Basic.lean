import LiveMarkup.Number.Basic
import LiveMarkup.OrderedMap

/-!
# Values and node descriptions

A `Value` is anything that can stand in a template: a scalar, a list, a map of
properties, a description of a node, or a handle. A `Node` describes a tree to be
shown: a text, an element with properties and children, or a portal, whose
children are to be shown inside another live node. The two types hold each
other, since a property may be a node and a node has properties.

Listeners, components and refs are handles. A handle is a name and nothing else:
two of them are the same exactly when their names are, and what a listener does,
what a component gives and where a ref points is kept by whoever uses them.
-/

namespace LiveMarkup

/-- The number of a live node in its document. -/
abbrev NodeId := Nat

/-- A handle for a reaction to events. -/
structure Listener where
  name : String
  deriving DecidableEq

/-- A handle for a function from properties and children to a value. -/
structure Component where
  name : String
  deriving DecidableEq

/-- A handle that points at a live node, or nowhere. -/
structure Ref where
  name : String
  deriving DecidableEq

mutual

/-- Anything that can stand in a template. -/
inductive Value where
  | null
  | bool (b : Bool)
  | number (x : Number)
  | str (s : String)
  | node (n : Node)
  | list (items : List Value)
  | map (props : OrderedMap String Value)
  | listener (l : Listener)
  | component (c : Component)
  | ref (r : Ref)

/-- A description of one node of the tree to be shown. -/
inductive Node where
  | text (content : String)
  | element (tag : String) (props : OrderedMap String Value) (children : List Node)
  | portal (target : NodeId) (children : List Node)

end

instance : Inhabited Value := ⟨.null⟩

instance : Inhabited Node := ⟨.text ""⟩

/-- The properties of an element, in the order in which they were written. -/
abbrev Props := OrderedMap String Value

end LiveMarkup
