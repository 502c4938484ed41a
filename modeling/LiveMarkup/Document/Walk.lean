import LiveMarkup.Document.Basic

/-!
# Walking a document

A walk goes through a subtree in document order with a list of the nodes still
to visit: it takes the first one and puts its children in front of the rest. It
ends for good at a number that no live node has.

In a document without cycles a walk ends, and how long it can take follows from
two numbers. No path is longer than the number of keys given out, and no node
has more children than `breadth`, so a walk takes fewer steps than `walkBound`,
even where a node stands twice among the children of its parent.
-/

namespace LiveMarkup.Document

/-- The greatest number of children that a live node has. -/
def breadth (d : Document) : Nat :=
  d.nodes.toList.foldl (fun k n => max k n.children.length) 0

/-- More steps than a walk can take. -/
def walkBound (d : Document) : Nat :=
  Nat.pow (d.breadth + 1) d.nodes.capacity

/-- The nodes visited from a list of nodes to visit, in a number of steps. -/
def walkFrom (d : Document) : Nat → List NodeId → List NodeId
  | 0, _ => []
  | _ + 1, [] => []
  | steps + 1, id :: pending =>
    match d.get? id with
    | none => []
    | some n => id :: d.walkFrom steps (n.children ++ pending)

/-- The nodes of the subtree of a node, in document order. -/
def walk (d : Document) (id : NodeId) : List NodeId :=
  d.walkFrom d.walkBound [id]

/-- The elements of the subtree of a node, in document order. -/
def walkElements (d : Document) (id : NodeId) : List NodeId :=
  (d.walk id).filter fun k => (d.element? k).isSome

/-- A node, its parent, and so on, in a number of steps. -/
def upward (d : Document) : Nat → Option NodeId → List NodeId
  | 0, _ => []
  | _, none => []
  | steps + 1, some id => id :: d.upward steps ((d.get? id).bind (·.parent))

/-- The parent of a node, the parent of that, and so on to the top. -/
def ancestors (d : Document) (id : NodeId) : List NodeId :=
  d.upward d.nodes.capacity ((d.get? id).bind (·.parent))

/-- A node and its ancestors. -/
def chain (d : Document) (id : NodeId) : List NodeId :=
  id :: d.ancestors id

/-- The contents of the texts in the subtree of a node, one after the other. -/
def textContent (d : Document) (id : NodeId) : String :=
  String.join ((d.walk id).filterMap fun k => (d.get? k).bind (·.data.content?))

/-- The first element of the document with an `id` attribute. -/
def elementById? (d : Document) (name : String) : Option NodeId :=
  (d.walk root).find? fun k => (d.element? k).any fun e => e.attribute? "id" = some name

/-- The elements in the subtree of a node with a local name. -/
def elementsByTag (d : Document) (id : NodeId) (name : String) : List NodeId :=
  (d.walk id).filter fun k => (d.element? k).any fun e => e.name.localName = name

end LiveMarkup.Document
