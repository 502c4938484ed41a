import LiveMarkup.Value.Same

/-!
# Looking at a description

What a description is called, which properties and children it has, and when a
new one cannot be shown by changing the live node of an old one. A live node is
kept for a new element exactly when the tag and the `key` property stay the
same, for a new text when it is the same text, and for a new portal when it has
the same target.
-/

namespace LiveMarkup

/-- The property that tells apart two elements of one tag. -/
def Props.key? (p : Props) : Option Value :=
  p.get? "key"

namespace Node

/-- The name of the kind of a description. -/
def kind : Node → String
  | .text _ => "text"
  | .element .. => "element"
  | .portal .. => "portal"

/-- The tag of an element, or the word that stands for a portal. -/
def tag? : Node → Option String
  | .text _ => none
  | .element tag _ _ => some tag
  | .portal .. => some "#portal"

/-- The tag of an element. -/
def elementTag? : Node → Option String
  | .element tag _ _ => some tag
  | _ => none

/-- The properties of an element. -/
def props? : Node → Option Props
  | .element _ props _ => some props
  | _ => none

/-- The `key` property of an element. -/
def key? (n : Node) : Option Value :=
  n.props?.bind Props.key?

/-- The children of an element or a portal. -/
def children : Node → List Node
  | .text _ => []
  | .element _ _ cs => cs
  | .portal _ cs => cs

/-- The content of a text. -/
def content? : Node → Option String
  | .text s => some s
  | _ => none

/-- Whether `new` cannot be shown by changing the live node of `old`. -/
def mustReplace (new old : Node) : Bool :=
  match new, old with
  | .text s, .text t => s != t
  | .element s p _, .element t q _ => s != t || Props.key? p != Props.key? q
  | .portal s _, .portal t _ => s != t
  | _, _ => true

end Node

end LiveMarkup
