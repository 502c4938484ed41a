import LiveMarkup.Document.Basic
import LiveMarkup.Node.Markup

/-!
# The markup of a document

A live node is written as markup with everything below it: the document as its
children, a text escaped, a comment as an empty comment, and an element as its
tags around its children. The inline style is written as an attribute behind the
others. An element that never has children is written without a closing tag, so
long as it has none.

The depth is bounded by the number of keys given out, which no path in a
document without cycles exceeds.
-/

namespace LiveMarkup.Document

/-- The opening tag of an element. -/
def openingTag (e : Element) : String :=
  "<" ++ e.name.localName ++
    String.join (e.attributes.entries.map fun a => attributeMarkup a.1.localName a.2) ++
    (if e.style.isEmpty then "" else attributeMarkup "style" e.style.text) ++ ">"

/-- A live node of the given children as markup. -/
def nodeMarkup (n : LiveNode) (inner : String) : String :=
  match n.data with
  | .document => inner
  | .text content => Text.escape content
  | .comment => "<!---->"
  | .element e =>
    if e.name.localName ∈ voidTags ∧ n.children.isEmpty then openingTag e
    else openingTag e ++ inner ++ "</" ++ e.name.localName ++ ">"

/-- The markup of a live node down to a depth. -/
def markupWithin (d : Document) : Nat → NodeId → String
  | 0, _ => ""
  | depth + 1, id =>
    match d.get? id with
    | none => ""
    | some n => nodeMarkup n (String.join (n.children.map (d.markupWithin depth)))

/-- The markup of a live node and everything below it. -/
def outerMarkup (d : Document) (id : NodeId) : String :=
  d.markupWithin d.nodes.capacity id

/-- The markup of everything below a live node. -/
def innerMarkup (d : Document) (id : NodeId) : String :=
  match d.get? id with
  | none => ""
  | some n => String.join (n.children.map d.outerMarkup)

end LiveMarkup.Document
