import LiveMarkup.Page.Update

/-!
# Rendering

A renderer remembers for each parent what was last rendered into it. The first
rendering into a parent mounts the description behind the children that are
there; later ones update the parent's first child. Rendering nothing removes
what was rendered and forgets it. Without a parent the description is mounted
detached and nothing is remembered.
-/

namespace LiveMarkup

/-- What was last rendered into each parent. -/
structure Renderer where
  slots : OrderedMap NodeId Node := .empty

namespace Renderer

/-- The description last rendered into a parent. -/
def rendered? (r : Renderer) (parent : NodeId) : Option Node :=
  r.slots.get? parent

/-- The renderer with what was rendered into a parent forgotten. -/
def forget (r : Renderer) (parent : NodeId) : Renderer :=
  { r with slots := r.slots.erase parent }

/-- The renderer with something noted down as rendered into a parent. -/
def remember (r : Renderer) (parent : NodeId) : Option Node → Renderer
  | some n => { r with slots := r.slots.insert parent n }
  | none => r.forget parent

/-- The page with a description shown in a parent, and the live node that stands
for it, if there is one. -/
def showIn (r : Renderer) (p : Page) (n : Option Node) (parent : NodeId) :
    Except MissingNode (Option NodeId × Page) :=
  match r.rendered? parent with
  | none =>
    match n with
    | none => .ok (none, p)
    | some n => (p.mount (some n) (some parent)).map fun (id, p) => (some id, p)
  | some old => do
    let first := (← p.document.children parent).head?
    let p ← p.update parent first n (some old)
    match n with
    | none => return (none, p)
    | some _ => return ((← p.document.children parent).head?, p)

/-- The renderer and the page after a description was rendered, and the live node
that stands for it, if there is one. -/
def render (r : Renderer) (p : Page) (n : Option Node) (parent : Option NodeId) :
    Except MissingNode (Option NodeId × Renderer × Page) :=
  match parent with
  | none => (p.mount n none).map fun (id, p) => (some id, r, p)
  | some parent => (r.showIn p n parent).map fun (live, p) => (live, r.remember parent n, p)

end Renderer

end LiveMarkup
