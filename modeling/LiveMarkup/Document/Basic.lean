import LiveMarkup.Element
import LiveMarkup.Slab

/-!
# Documents

A document is a slab of live nodes, each linked to its parent and to its
children, and a log of what was done to it. Node 0 is the document itself. A
node without a parent is detached; it stays in the slab until it is removed, and
the number of a removed node is used again.

An operation on a number that no live node has cannot go on. It gives a
`MissingNode` with the number and nothing else, since no one may look at a
document that was left half changed.
-/

namespace LiveMarkup

/-- A number that no live node has. -/
structure MissingNode where
  id : NodeId
  deriving DecidableEq

/-- What a live node is. -/
inductive NodeData where
  | document
  | element (e : Element)
  | text (content : String)
  | comment

namespace NodeData

/-- The name of the kind of a live node. -/
def kind : NodeData → String
  | .document => "document"
  | .element _ => "element"
  | .text _ => "text"
  | .comment => "comment"

/-- The number that stands for the kind of a live node. -/
def typeCode : NodeData → Nat
  | .element _ => 1
  | .text _ => 3
  | .comment => 8
  | .document => 9

/-- The element that a live node is. -/
def element? : NodeData → Option Element
  | .element e => some e
  | _ => none

/-- The content of a live text. -/
def content? : NodeData → Option String
  | .text s => some s
  | _ => none

/-- Whether a live node is a comment. -/
def isComment : NodeData → Bool
  | .comment => true
  | _ => false

end NodeData

/-- A live node with its links. -/
structure LiveNode where
  id : NodeId
  data : NodeData
  parent : Option NodeId := none
  children : List NodeId := []

/-- The position of a child. -/
def LiveNode.indexOfChild? (n : LiveNode) (child : NodeId) : Option Nat :=
  n.children.findIdx? (· = child)

/-- One thing done to a document. -/
inductive Mutation where
  | createElement (id : NodeId) (name : String)
  | createText (id : NodeId)
  | createComment (id : NodeId)
  | appendChildren (parent : NodeId) (children : List NodeId)
  | replaceNode (anchor : NodeId) (replacements : List NodeId)
  | removeNode (id : NodeId)
  | setAttribute (id : NodeId) (name value : String)
  | clearAttribute (id : NodeId) (name : String)
  | setField (id : NodeId) (field : Field) (value : FieldValue)
  | setStyle (id : NodeId)
  | addListener (id : NodeId) (event : String)
  | removeListener (id : NodeId) (event : String)
  deriving DecidableEq

/-- Whether a mutation makes, moves or removes nodes. -/
def Mutation.isStructural : Mutation → Bool
  | .createElement .. | .createText _ | .createComment _ | .appendChildren .. | .replaceNode ..
  | .removeNode _ => true
  | _ => false

/-- Live nodes and the log of what was done to them, oldest first, if it is
kept. -/
structure Document where
  nodes : Slab LiveNode
  recording : Bool := false
  log : List Mutation := []

namespace Document

/-- The node that is the document itself. -/
def root : NodeId := 0

/-- The document without other nodes. -/
def new (recording : Bool) : Document where
  nodes := Slab.empty.insert ⟨root, .document, none, []⟩
  recording

instance : Inhabited Document := ⟨new false⟩

/-- The live node of a number. -/
def get? (d : Document) (id : NodeId) : Option LiveNode :=
  d.nodes.get? id

/-- The live node of a number that an operation needs. -/
def node (d : Document) (id : NodeId) : Except MissingNode LiveNode :=
  match d.get? id with
  | some n => .ok n
  | none => .error ⟨id⟩

/-- The element of a number, if it is a live element. -/
def element? (d : Document) (id : NodeId) : Option Element :=
  (d.get? id).bind (·.data.element?)

/-- How many live nodes there are. -/
def nodeCount (d : Document) : Nat :=
  d.nodes.size

/-- The document with a live node changed. -/
def modify (d : Document) (id : NodeId) (f : LiveNode → LiveNode) : Document :=
  { d with nodes := d.nodes.modify id f }

/-- The document with what was done to it noted down, if it keeps a log. -/
def record (d : Document) (m : Mutation) : Document :=
  if d.recording then { d with log := d.log ++ [m] } else d

/-- The log, and the document with an empty one. -/
def takeLog (d : Document) : List Mutation × Document :=
  (d.log, { d with log := [] })

@[simp] theorem get?_modify (d : Document) (id : NodeId) (f : LiveNode → LiveNode) (k : NodeId) :
    (d.modify id f).get? k = if id = k then (d.get? k).map f else d.get? k :=
  d.nodes.get?_modify id k f

@[simp] theorem get?_record (d : Document) (m : Mutation) (k : NodeId) :
    (d.record m).get? k = d.get? k := by
  unfold record
  split <;> rfl

theorem node_eq_ok_iff (d : Document) (id : NodeId) (n : LiveNode) :
    d.node id = .ok n ↔ d.get? id = some n := by
  unfold node
  cases d.get? id <;> simp

end Document

end LiveMarkup
