import LiveMarkup.Node.Basic
import LiveMarkup.Value.Scalar
import LiveMarkup.Text.Blank
import LiveMarkup.Text.Lowercase

/-!
# Making descriptions

`make` builds a description from a type, properties and children given as
values. A string that is not blank names an element; a component is asked for
the value there and then and its answer is handed on unchanged; anything else is
refused. Children become nodes by `flatten`: lists open up at any depth, scalars
become texts, and what has nothing to show leaves no trace.

What components give is a parameter, so everything here holds for all of them.
-/

namespace LiveMarkup

/-- Why a template or a description is refused. -/
inductive MarkupError where
  /-- A closing tag does not name the element that is open. -/
  | unexpectedClosingTag (expected found : String)
  /-- Neither a tag nor a component stands where an element is named. -/
  | invalidElementType (typeName : String)
  /-- Components ask for one another beyond the depth that was allowed. -/
  | nestedTooDeep
  deriving DecidableEq

/-- The message for a refusal. -/
def MarkupError.message : MarkupError → String
  | .unexpectedClosingTag expected found =>
    "Unexpected closing tag. Expected '" ++ expected ++ "' but got '" ++ found ++ "'"
  | .invalidElementType typeName => "Invalid element type provided: " ++ typeName
  | .nestedTooDeep => "Components are nested too deep"

/-- What every component gives for its properties and children. -/
abbrev Components := Component → Props → List Value → Except MarkupError Value

mutual

/-- The nodes that a value shows as. -/
def Value.nodes : Value → List Node
  | .node n => [n]
  | .list items => flatten items
  | .str s => [.text s]
  | .number x => [.text x.text]
  | .bool b => [.text (if b then "true" else "false")]
  | _ => []
termination_by structural v => v

/-- The nodes that a list of values shows as. -/
def flatten : List Value → List Node
  | [] => []
  | v :: vs => v.nodes ++ flatten vs
termination_by structural vs => vs

end

/-- A tag as it is kept: without blanks around it and in lower case. -/
def normalTag (tag : String) : String :=
  Text.lowercase (Text.trim tag)

/-- An element from its tag, properties and children. -/
def Node.ofTag (tag : String) (props : Props) (children : List Node) : Node :=
  .element (normalTag tag) props children

/-- A portal that shows a value inside a live node. -/
def Node.portalOf (children : Value) (target : NodeId) : Node :=
  .portal target (flatten [children])

/-- A description from a type, properties and children. -/
def make (components : Components) (type : Value) (props : Props) (children : List Value) :
    Except MarkupError Value :=
  match type with
  | .str tag =>
    if (Text.trim tag) = "" then .error (.invalidElementType type.typeName)
    else .ok (.node (.ofTag tag props (flatten children)))
  | .component c => components c props children
  | _ => .error (.invalidElementType type.typeName)

@[simp] theorem flatten_nil : flatten [] = [] := rfl

@[simp] theorem flatten_cons (v : Value) (vs : List Value) :
    flatten (v :: vs) = v.nodes ++ flatten vs := rfl

@[simp] theorem nodes_list (vs : List Value) : (Value.list vs).nodes = flatten vs := rfl

theorem flatten_append (vs ws : List Value) : flatten (vs ++ ws) = flatten vs ++ flatten ws := by
  induction vs with
  | nil => rfl
  | cons v vs ih => simp [ih]

/-- Nodes show themselves. -/
theorem flatten_map_node (ns : List Node) : flatten (ns.map .node) = ns := by
  induction ns with
  | nil => rfl
  | cons n ns ih => exact congrArg (n :: ·) ih

end LiveMarkup
