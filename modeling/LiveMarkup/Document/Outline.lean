import LiveMarkup.Document.Basic
import LiveMarkup.Text.Quoted

/-!
# The outline of a document

The outline of a subtree has one line for a node, with its number, indented by
its depth. Of a text only the first ten characters show, between quotes, and a
blank text has no line. An element shows its attributes, its style, and how many
listeners it has.
-/

namespace LiveMarkup.Document

/-- How many characters of a text an outline shows. -/
def previewLength : Nat := 10

/-- The spaces in front of a line. -/
def indentation (depth : Nat) : String :=
  String.ofList (List.replicate (2 * depth) ' ')

/-- The start of a text, between quotes, and a sign that there is more. -/
def preview (cs : List Char) : String :=
  Text.quoted (String.ofList (cs.take previewLength)) ++
    (if previewLength < cs.length then "..." else "")

/-- The line of a live node without its indentation, if it has one. -/
def outlineLine? (n : LiveNode) : Option String :=
  let id := toString n.id
  match n.data with
  | .document => some ("#document " ++ id)
  | .comment => some ("#comment " ++ id)
  | .text content =>
    let cs := Text.trimChars content.toList
    if cs.isEmpty then none else some ("#text " ++ id ++ " " ++ preview cs)
  | .element e =>
    some ("<" ++ e.name.localName ++ " " ++ id ++
      String.join (e.attributes.entries.map fun a =>
        " " ++ a.1.localName ++ "=\"" ++ a.2 ++ "\"") ++
      (if e.style.isEmpty then "" else " style=\"" ++ e.style.text ++ "\"") ++
      (if e.listeners.isEmpty then "" else " [" ++ toString e.listeners.length ++ " listeners]") ++
      ">")

/-- The lines of a subtree that starts at a depth, for a number of levels. -/
def outlineWithin (d : Document) : Nat → Nat → NodeId → String
  | 0, _, _ => ""
  | levels + 1, depth, id =>
    match d.get? id with
    | none => ""
    | some n =>
      match outlineLine? n with
      | none => ""
      | some line =>
        indentation depth ++ line ++ "\n" ++
          String.join (n.children.map (d.outlineWithin levels (depth + 1)))

/-- The outline of a subtree. -/
def outline (d : Document) (id : NodeId) : String :=
  d.outlineWithin d.nodes.capacity 0 id

end LiveMarkup.Document
