import LiveMarkup.Page.Basic
import LiveMarkup.Slot
import LiveMarkup.Value.Scalar

/-!
# Setting properties on live elements

A property is set by what it was before and what it is to be; null counts as
having no property. Only the element itself and the refs concerned change. A
value that the slot cannot show counts as none: a class without text is the
empty class, a style which is neither a text nor a map is no style, and an
attribute without text is taken away.
-/

namespace LiveMarkup

/-- A value which is there. -/
def Value.present? (v : Option Value) : Option Value :=
  v.filter fun v => !v.isNull

/-- What a field holds for a property. -/
def FieldValue.ofValue? : Option Value → FieldValue
  | none => .null
  | some (.bool b) => .bool b
  | some v =>
    match v.text? with
    | some s => .text s
    | none => .null

namespace Page

/-- The page with declarations set in the inline style of an element. -/
def setStyleProperties (p : Page) (id : NodeId) :
    List (String × Value) → Except MissingNode Page
  | [] => .ok p
  | (name, v) :: ds => do
    let p ← p.edit (·.setStyleProperty id name (v.text?.getD ""))
    p.setStyleProperties id ds

/-- The page with the inline style of an element given by a value. -/
def setStyle (p : Page) (id : NodeId) : Option Value → Except MissingNode Page
  | some (.str css) => p.edit (·.setStyleText id css)
  | some (.map declarations) => do
    let p ← p.edit (·.setStyleText id "")
    p.setStyleProperties id declarations.entries
  | _ => p.edit (·.setStyleText id "")

/-- The page with a ref moved away from an element and another to it. -/
def setRef (p : Page) (id : NodeId) (new old : Option Value) : Page :=
  let p := match old with
    | some (.ref r) => p.release r id
    | _ => p
  match new with
  | some (.ref r) => p.point r (some id)
  | _ => p

/-- The page with a listener taken from an element and another added. -/
def setListener (p : Page) (id : NodeId) (event : String) (new old : Option Value) :
    Except MissingNode Page := do
  let p ← match old with
    | some (.listener l) => p.edit (·.removeListener id event l)
    | _ => .ok p
  match new with
  | some (.listener l) => p.edit (·.addListener id event l)
  | _ => .ok p

/-- The page with an attribute of an element given by a value. -/
def setAttribute (p : Page) (id : NodeId) (name : String) (new : Option Value) :
    Except MissingNode Page :=
  match new.bind Value.text? with
  | some s => p.edit (·.setAttribute id (.ofAttribute name) s)
  | none => p.edit (·.clearAttribute id (.ofAttribute name))

/-- The page with a slot of an element changed from one value to another, both
of them there. -/
def setSlot (p : Page) (id : NodeId) (slot : Slot) (new old : Option Value) :
    Except MissingNode Page :=
  match slot with
  | .key => .ok p
  | .ref => .ok (p.setRef id new old)
  | .className =>
    p.edit (·.setAttribute id (.ofAttribute "class") ((new.bind Value.text?).getD ""))
  | .style => p.setStyle id new
  | .field f => p.edit (·.setField id f (.ofValue? new))
  | .listener event => p.setListener id event new old
  | .attribute name => p.setAttribute id name new

/-- The page with a property of an element changed from one value to another. -/
def setProperty (p : Page) (id : NodeId) (name : String) (new old : Option Value) :
    Except MissingNode Page :=
  p.setSlot id (.ofName name) (Value.present? new) (Value.present? old)

end Page

end LiveMarkup
