import LiveMarkup.Page.Mount

/-!
# Updating live nodes

A live node that was made for an old description is brought in line with a new
one. Where the live node cannot be kept it is replaced, and the new node is made
before the old one is removed. Where it is kept, its properties are changed where
their values differ, and its children are updated one by one against the live
children there were at the start.

Children are matched by their place alone. A property that no longer counts as
true is unbound. Before a live node goes, what it did outside itself is undone:
refs that point at it are released and the targets of portals are emptied.
-/

namespace LiveMarkup.Page

mutual

/-- The page with the traces undone that a described live node has left outside
itself. -/
def unmount (p : Page) (live : NodeId) : Node → Except MissingNode Page
  | .text _ => .ok p
  | .element _ props children => do
    let p := match props.get? "ref" with
      | some (.ref r) => p.release r live
      | _ => p
    p.unmountAll (← p.document.children live) children
  | .portal target children => do
    let p ← p.unmountAll (← p.document.children target) children
    p.edit (·.removeChildren target)
termination_by structural n => n

/-- The page with the traces undone of the described live nodes at the same
places in two lists. -/
def unmountAll (p : Page) : List NodeId → List Node → Except MissingNode Page
  | _, [] => .ok p
  | [], _ :: _ => .ok p
  | live :: lives, n :: ns => do
    let p ← p.unmount live n
    p.unmountAll lives ns
termination_by structural _ ns => ns

end

/-- The page with a described live node removed. -/
def discard (p : Page) (live : NodeId) (old : Node) : Except MissingNode Page := do
  let p ← p.unmount live old
  p.edit (·.remove live)

/-- The page with a described live node replaced by that of a new description. -/
def exchange (p : Page) (live : NodeId) (new old : Node) : Except MissingNode Page := do
  let p ← p.unmount live old
  let (id, p) ← p.build new
  p.edit (·.replace live [id])

/-- The page with one property of a live element brought in line. -/
def updateProp (p : Page) (live : NodeId) (new old : Props) (name : String) :
    Except MissingNode Page :=
  if name = "key" ∨ new.get? name == old.get? name then .ok p
  else p.setProperty live name ((new.get? name).filter Value.isTruthy) (old.get? name)

/-- The page with named properties of a live element brought in line. -/
def updateNames (p : Page) (live : NodeId) (new old : Props) :
    List String → Except MissingNode Page
  | [] => .ok p
  | name :: names => do
    let p ← p.updateProp live new old name
    p.updateNames live new old names

/-- The names whose properties may have to change: the new ones in order, then
the old ones that are gone. -/
def changedNames (new old : Props) : List String :=
  new.keys ++ old.keys.filter fun name => !new.contains name

/-- The page with the properties of a live element brought in line. -/
def updateProps (p : Page) (live : NodeId) (new old : Props) : Except MissingNode Page :=
  p.updateNames live new old (changedNames new old)

/-- The page with described live nodes removed, as far as they are live. -/
def discardAll (p : Page) : List NodeId → List Node → Except MissingNode Page
  | _, [] => .ok p
  | [], _ :: _ => .ok p
  | live :: lives, n :: ns => do
    let p ← p.discard live n
    p.discardAll lives ns

mutual

/-- The page with a live node brought in line with a new description. -/
def patch (p : Page) (live : NodeId) (new old : Node) : Except MissingNode Page :=
  if new.mustReplace old then p.exchange live new old
  else
    match new, old with
    | .element _ props children, .element _ props' children' => do
      let p ← p.updateProps live props props'
      p.patchAll live (← p.document.children live) children children'
    | .portal target children, .portal _ children' => do
      p.patchAll target (← p.document.children target) children children'
    | _, _ => .ok p
termination_by structural new

/-- The page with the children of a parent brought in line, given those that
were live at the start. -/
def patchAll (p : Page) (parent : NodeId) (lives : List NodeId) (new old : List Node) :
    Except MissingNode Page :=
  match new with
  | [] => p.discardAll lives old
  | n :: ns =>
    match lives, old with
    | live :: lives, o :: os => do
      let p ← p.patch live n o
      p.patchAll parent lives ns os
    | lives, os => do
      let (_, p) ← p.mount (some n) (some parent)
      p.patchAll parent lives.tail ns os.tail
termination_by structural new

end

/-- The page with a child of a parent, live for an old description, brought in
line with a new one. With nothing live or described before, the new description
is mounted; with nothing new, the live node is removed. -/
def update (p : Page) (parent : NodeId) (live : Option NodeId) (new old : Option Node) :
    Except MissingNode Page :=
  match live, old, new with
  | some live, some old, some new => p.patch live new old
  | some live, some old, none => p.discard live old
  | _, _, some new => (p.mount (some new) (some parent)).map (·.2)
  | _, _, none => .ok p

end LiveMarkup.Page
