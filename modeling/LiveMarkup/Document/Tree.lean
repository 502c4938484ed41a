import LiveMarkup.Document.Basic

/-!
# Making, moving and removing nodes

A node is made detached. Appending and replacing take nodes from wherever they
are, one after the other, before they stand in their new place. Removing a node
removes everything below it and frees the numbers in document order, the node
before its children. The document itself cannot be removed.
-/

namespace LiveMarkup.Document

/-- The document with a new detached node, and its number. -/
def create (d : Document) (data : NodeData) : NodeId × Document :=
  let id := d.nodes.nextKey
  (id, { d with nodes := d.nodes.insert ⟨id, data, none, []⟩ })

theorem get?_create (d : Document) (data : NodeData) (k : NodeId) :
    (d.create data).2.get? k =
      if k = d.nodes.nextKey then some ⟨d.nodes.nextKey, data, none, []⟩ else d.get? k :=
  d.nodes.get?_insert _ k

/-- The document with a new element. -/
def createElement (d : Document) (name : Name) : NodeId × Document :=
  let (id, d) := d.create (.element { name })
  (id, d.record (.createElement id name.localName))

/-- The document with a new text. -/
def createText (d : Document) (content : String) : NodeId × Document :=
  let (id, d) := d.create (.text content)
  (id, d.record (.createText id))

/-- The document with a new comment, which holds a place and shows nothing. -/
def createComment (d : Document) : NodeId × Document :=
  let (id, d) := d.create .comment
  (id, d.record (.createComment id))

/-- The parent of a live node. -/
def parent (d : Document) (id : NodeId) : Except MissingNode (Option NodeId) :=
  (d.node id).map (·.parent)

/-- The children of a live node. -/
def children (d : Document) (id : NodeId) : Except MissingNode (List NodeId) :=
  (d.node id).map (·.children)

theorem children_of_get? {d : Document} {id : NodeId} {n : LiveNode} (h : d.get? id = some n) :
    d.children id = .ok n.children := by
  rw [children, (d.node_eq_ok_iff id n).2 h]
  rfl

/-- The document with a node taken from its parent. -/
def detach (d : Document) (id : NodeId) : Except MissingNode Document := do
  let n ← d.node id
  match n.parent with
  | none => return d
  | some p =>
    let d := d.modify id fun n => { n with parent := none }
    let _ ← d.node p
    return d.modify p fun n => { n with children := n.children.filter (· ≠ id) }

/-- The document with nodes taken from their parents in order. -/
def detachAll (d : Document) : List NodeId → Except MissingNode Document
  | [] => .ok d
  | id :: ids => do (← d.detach id).detachAll ids

/-- The document with nodes moved to the end of a parent's children in order. -/
def moveAll (d : Document) (parent : NodeId) : List NodeId → Except MissingNode Document
  | [] => .ok d
  | id :: ids => do
    let d ← d.detach id
    let _ ← d.node parent
    let d := d.modify parent fun n => { n with children := n.children ++ [id] }
    let d := d.modify id fun n => { n with parent := some parent }
    d.moveAll parent ids

/-- The document with nodes appended to the children of a parent. -/
def append (d : Document) (parent : NodeId) (ids : List NodeId) : Except MissingNode Document := do
  let d ← d.moveAll parent ids
  return d.record (.appendChildren parent ids)

/-- The document with a parent noted down in nodes. -/
def adopt (d : Document) (parent : NodeId) (ids : List NodeId) : Document :=
  ids.foldl (fun d id => d.modify id fun n => { n with parent := some parent }) d

/-- The document with nodes moved to where an anchor stands, in front of it. If
the anchor stands nowhere the nodes are left detached. -/
def insertBefore (d : Document) (anchor : NodeId) (ids : List NodeId) :
    Except MissingNode Document := do
  let d ← d.detachAll ids
  let n ← d.node anchor
  match n.parent with
  | none => return d
  | some p =>
    let parent ← d.node p
    match parent.indexOfChild? anchor with
    | none => return d
    | some k =>
      let d := d.modify p fun n =>
        { n with children := n.children.take k ++ ids ++ n.children.drop k }
      return d.adopt p ids

/-- The nodes left once some and everything below them are taken out, each node
before its children. -/
def dropAll (nodes : Slab LiveNode) : List NodeId → Slab LiveNode
  | [] => nodes
  | id :: ids =>
    match _h : nodes.get? id with
    | none => dropAll nodes ids
    | some n => dropAll (nodes.remove id) (n.children ++ ids)
termination_by ids => ids.length + nodes.weight fun n => n.children.length + 1
decreasing_by
  · simp
  · have := Slab.weight_remove (fun n : LiveNode => n.children.length + 1) _h
    simp
    omega

/-- The document without a node and everything below it. -/
def dropSubtree (d : Document) (id : NodeId) : Except MissingNode Document :=
  if id = root then .ok d
  else do
    let d ← d.detach id
    return { d with nodes := dropAll d.nodes [id] }

/-- The document with a node removed. -/
def remove (d : Document) (id : NodeId) : Except MissingNode Document := do
  let d ← d.dropSubtree id
  return d.record (.removeNode id)

/-- The document with nodes removed in order. -/
def removeAll (d : Document) : List NodeId → Except MissingNode Document
  | [] => .ok d
  | id :: ids => do (← d.remove id).removeAll ids

/-- The document with the children of a node removed. -/
def removeChildren (d : Document) (id : NodeId) : Except MissingNode Document := do
  d.removeAll (← d.children id)

/-- The document with nodes in the place of an anchor, which is removed. -/
def replace (d : Document) (anchor : NodeId) (ids : List NodeId) : Except MissingNode Document := do
  let d ← d.insertBefore anchor ids
  let d ← d.dropSubtree anchor
  return d.record (.replaceNode anchor ids)

end LiveMarkup.Document
