import LiveMarkup.Page.Property

/-!
# Mounting descriptions

Mounting makes the live nodes of a description. The node of an element is made
first, then its children one after the other, each appended once it is complete,
and its properties last. A portal has its children appended to its target and
leaves an empty comment in its own place. Mounting nothing makes an empty text.
-/

namespace LiveMarkup.Page

/-- The page with the properties of a new element set in order. -/
def setProperties (p : Page) (id : NodeId) : List (String × Value) → Except MissingNode Page
  | [] => .ok p
  | (name, v) :: es => do
    let p ← p.setProperty id name (some v) none
    p.setProperties id es

mutual

/-- The page with the detached live node of a description, and its number. -/
def build (p : Page) : Node → Except MissingNode (NodeId × Page)
  | .text s => .ok (p.make (·.createText s))
  | .portal target children => do
    let p ← p.buildAll target children
    return p.make (·.createComment)
  | .element tag props children => do
    let (id, p) := p.make (·.createElement (.ofTag tag))
    let p ← p.buildAll id children
    let p ← p.setProperties id props.entries
    return (id, p)
termination_by structural n => n

/-- The page with the live nodes of descriptions appended to a parent. -/
def buildAll (p : Page) (parent : NodeId) : List Node → Except MissingNode Page
  | [] => .ok p
  | n :: ns => do
    let (id, p) ← p.build n
    let p ← p.edit (·.append parent [id])
    p.buildAll parent ns
termination_by structural ns => ns

end

/-- The page with a description mounted, appended to the parent if there is one,
and the number of its live node. -/
def mount (p : Page) (n : Option Node) (parent : Option NodeId) :
    Except MissingNode (NodeId × Page) := do
  let (id, p) ← match n with
    | none => .ok (p.make (·.createText ""))
    | some n => p.build n
  match parent with
  | none => return (id, p)
  | some parent => return (id, ← p.edit (·.append parent [id]))

end LiveMarkup.Page
