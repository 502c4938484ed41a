import LiveMarkup.Template

/-!
# Components given by definitions

A component may be defined by what it gives: nothing, a fixed value, its
children or its properties as a value, a description of a fixed type, or a
template whose places are filled from the properties. Since a definition may name
other components, and itself, the answers are computed down to a depth.
-/

namespace LiveMarkup

/-- What a component gives for its properties and children. -/
inductive Definition where
  | constant (v : Value)
  | children
  | props
  | make (type : Value)
  | template (source : String) (places : List String)

/-- The value for a place of a template: the children for a star, or else the
property of that name. -/
def Definition.fill (props : Props) (children : List Value) (place : String) : Value :=
  if place = "*" then .list children else (props.get? place).getD .null

/-- The components of some definitions, down to a depth; one without a
definition gives null. -/
def Components.ofDefinitions (defs : OrderedMap String Definition) : Nat → Components
  | 0 => fun _ _ _ => .error .nestedTooDeep
  | depth + 1 => fun c props children =>
    match defs.get? c.name with
    | none => .ok .null
    | some (.constant v) => .ok v
    | some .children => .ok (.list children)
    | some .props => .ok (.map props)
    | some (.make type) => LiveMarkup.make (ofDefinitions defs depth) type props children
    | some (.template source places) =>
      (Template.ofSource? (ofDefinitions defs depth) source
        (places.map (Definition.fill props children))).map fun n => (n.map Value.node).getD .null

end LiveMarkup
