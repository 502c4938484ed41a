import LiveMarkup.Document.Edit
import LiveMarkup.Document.Tree

/-!
# Pages

A page is a document together with what the refs point at. A ref that is not in
the map points nowhere. The operations of a document are those of its page, and
leave the refs alone.
-/

namespace LiveMarkup

/-- A document and what the refs point at. -/
structure Page where
  document : Document
  refs : OrderedMap Ref NodeId := .empty

namespace Page

instance : Inhabited Page := ⟨⟨.new false, .empty⟩⟩

/-- The live node that a ref points at. -/
def current (p : Page) (r : Ref) : Option NodeId :=
  p.refs.get? r

/-- The page with a ref pointing at a live node, or nowhere. -/
def point (p : Page) (r : Ref) : Option NodeId → Page
  | some id => { p with refs := p.refs.insert r id }
  | none => { p with refs := p.refs.erase r }

/-- The page with a ref pointing nowhere, if it points at a given node. -/
def release (p : Page) (r : Ref) (id : NodeId) : Page :=
  if p.current r = some id then p.point r none else p

/-- What a ref points at, in words. -/
def currentText : Option NodeId → String
  | some id => "NodeRef(Some(" ++ toString id ++ "))"
  | none => "NodeRef(None)"

/-- The page with its document changed. -/
def edit (p : Page) (f : Document → Except MissingNode Document) : Except MissingNode Page :=
  (f p.document).map fun d => { p with document := d }

/-- The page with a node made in its document. -/
def make (p : Page) (f : Document → NodeId × Document) : NodeId × Page :=
  let (id, d) := f p.document
  (id, { p with document := d })

end Page

end LiveMarkup
