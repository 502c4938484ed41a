import LiveMarkup.Document.Basic

/-!
# Changing elements

Each change of an element is noted down only if there was something to change,
except that setting a field and giving a style always count. A change aimed at a
live node that is no element does nothing. The attribute `style` is never kept
among the attributes: setting and clearing it sets and clears the inline style.
-/

namespace LiveMarkup.Document

/-- The document with an element changed and the change noted down, where the
rule gives one. -/
def editElement (d : Document) (id : NodeId) (rule : Element → Option (Element × Mutation)) :
    Except MissingNode Document :=
  (d.node id).map fun n =>
    match n.data.element?.bind rule with
    | none => d
    | some (e, m) => (d.modify id fun n => { n with data := .element e }).record m

/-- An element that a rule has something to say about is changed, which is noted down, and
nothing happens otherwise. -/
theorem editElement_cases {d d' : Document} {id : NodeId}
    {rule : Element → Option (Element × Mutation)} (h : d.editElement id rule = .ok d') :
    (d.element? id).bind rule = none ∧ d' = d ∨
      ∃ e e' m, d.element? id = some e ∧ rule e = some (e', m) ∧
        d' = (d.modify id fun n => { n with data := .element e' }).record m := by
  unfold editElement at h
  cases hn : d.node id with
  | error e => rw [hn] at h; cases h
  | ok n =>
      rw [hn] at h
      have hd' := Except.ok.inj h
      have helement : d.element? id = n.data.element? := by
        rw [element?, (node_eq_ok_iff d id n).1 hn, Option.bind_some]
      cases hrule : n.data.element?.bind rule with
      | none =>
          simp only [hrule] at hd'
          exact Or.inl ⟨helement ▸ hrule, hd'.symm⟩
      | some em =>
          simp only [hrule] at hd'
          obtain ⟨e, he, hem⟩ := Option.bind_eq_some_iff.1 hrule
          exact Or.inr ⟨e, em.1, em.2, helement.trans he, hem, hd'.symm⟩

/-- The value of an attribute of an element. -/
def getAttribute (d : Document) (id : NodeId) (name : Name) : Except MissingNode (Option String) :=
  (d.node id).map fun n => n.data.element?.bind (·.attributes.get? name)

/-- The document with an attribute of an element set. -/
def setAttribute (d : Document) (id : NodeId) (name : Name) (value : String) :
    Except MissingNode Document :=
  d.editElement id fun e =>
    if name.localName = "style" then some ({ e with style := .parse value }, .setStyle id)
    else (e.attributes.set? name value).map fun a =>
      ({ e with attributes := a }, .setAttribute id name.localName value)

/-- The document with an attribute of an element taken away. -/
def clearAttribute (d : Document) (id : NodeId) (name : Name) : Except MissingNode Document :=
  d.editElement id fun e =>
    if name.localName = "style" then some ({ e with style := .empty }, .setStyle id)
    else (e.attributes.clear? name).map fun a =>
      ({ e with attributes := a }, .clearAttribute id name.localName)

/-- The document with a field of an element set. -/
def setField (d : Document) (id : NodeId) (f : Field) (v : FieldValue) :
    Except MissingNode Document :=
  d.editElement id fun e => some (e.setField f v, .setField id f v)

/-- The document with the whole inline style of an element given as a text. -/
def setStyleText (d : Document) (id : NodeId) (css : String) : Except MissingNode Document :=
  d.editElement id fun e => some ({ e with style := .parse css }, .setStyle id)

/-- The document with one declaration in the inline style of an element. -/
def setStyleProperty (d : Document) (id : NodeId) (name value : String) :
    Except MissingNode Document :=
  d.editElement id fun e => some ({ e with style := e.style.set name value }, .setStyle id)

/-- The document with a listener for an event on an element. -/
def addListener (d : Document) (id : NodeId) (event : String) (l : Listener) :
    Except MissingNode Document :=
  d.editElement id fun e => (e.addListener? event l).map (·, .addListener id event)

/-- The document without a listener for an event on an element. -/
def removeListener (d : Document) (id : NodeId) (event : String) (l : Listener) :
    Except MissingNode Document :=
  d.editElement id fun e => (e.removeListener? event l).map (·, .removeListener id event)

/-- Whether an attribute of a live element or the content of a live text changes
when it is written without notice, and the document after that. -/
def overwrite (d : Document) (id : NodeId) (name value : String) : Option (Bool × Document) :=
  (d.get? id).map fun n =>
    match n.data with
    | .element e =>
      match e.attributes.set? (.ofAttribute name) value with
      | none => (false, d)
      | some a =>
        (true, d.modify id fun n => { n with data := .element { e with attributes := a } })
    | .text _ => (true, d.modify id fun n => { n with data := .text value })
    | _ => (false, d)

end LiveMarkup.Document
