import LiveMarkup.Page.Update
import LiveMarkup.Proofs.Document.Operations

/-!
# What properties do to an element

Setting properties on a live element changes that element and nothing else in
the document. Here the changes are functions of elements, without the document
around them: `Element.setProperties` for a new element and
`Element.updateProps` for one whose properties were others before. The
operations of a page apply just these functions (`Page.setProperties_rebound`,
`Page.updateProps_rebound`), and cannot fail on a live element.
-/

namespace LiveMarkup

open Document

namespace Element

/-! ## The changes -/

/-- The element with an attribute set. -/
def setAttribute (e : Element) (name : Name) (value : String) : Element :=
  if name.localName = "style" then { e with style := .parse value }
  else { e with attributes := e.attributes.insert name value }

/-- The element with an attribute taken away. -/
def clearAttribute (e : Element) (name : Name) : Element :=
  if name.localName = "style" then { e with style := .empty }
  else { e with attributes := e.attributes.erase name }

/-- The element with declarations set in its inline style. -/
def setDeclarations (e : Element) (ds : List (String × Value)) : Element :=
  { e with style := ds.foldl (fun s d => s.set d.1 (d.2.text?.getD "")) e.style }

/-- The element with its inline style given by a value. -/
def setStyle (e : Element) : Option Value → Element
  | some (.str css) => { e with style := .parse css }
  | some (.map ds) => ({ e with style := .parse "" } : Element).setDeclarations ds.entries
  | _ => { e with style := .parse "" }

/-- The element with a listener for an event. -/
def addListener (e : Element) (event : String) (l : Listener) : Element :=
  (e.addListener? event l).getD e

/-- The element without a listener for an event. -/
def removeListener (e : Element) (event : String) (l : Listener) : Element :=
  { e with listeners := e.listeners.erase (event, l) }

/-- The element with a listener taken away, if there was one, and another added,
if there is one. -/
def setListener (e : Element) (event : String) (new old : Option Value) : Element :=
  let e := match old with
    | some (.listener l) => e.removeListener event l
    | _ => e
  match new with
  | some (.listener l) => e.addListener event l
  | _ => e

/-- The element with a slot changed from one value to another, both of them
there. -/
def setSlot (e : Element) (slot : Slot) (new old : Option Value) : Element :=
  match slot with
  | .key => e
  | .ref => e
  | .className => e.setAttribute (.ofAttribute "class") ((new.bind Value.text?).getD "")
  | .style => e.setStyle new
  | .field f => e.setField f (.ofValue? new)
  | .listener event => e.setListener event new old
  | .attribute name =>
    match new.bind Value.text? with
    | some s => e.setAttribute (.ofAttribute name) s
    | none => e.clearAttribute (.ofAttribute name)

/-- The element with a property changed from one value to another. -/
def setProperty (e : Element) (name : String) (new old : Option Value) : Element :=
  e.setSlot (.ofName name) (Value.present? new) (Value.present? old)

/-- The element with properties set that it did not have. -/
def setProperties (e : Element) : List (String × Value) → Element
  | [] => e
  | (name, v) :: es => (e.setProperty name (some v) none).setProperties es

/-- The new element of a tag with properties. -/
def ofProps (tag : String) (props : Props) : Element :=
  ({ name := .ofTag tag } : Element).setProperties props.entries

/-- The element with one property brought in line. -/
def updateProp (e : Element) (new old : Props) (name : String) : Element :=
  if name = "key" ∨ new.get? name == old.get? name then e
  else e.setProperty name ((new.get? name).filter Value.isTruthy) (old.get? name)

/-- The element with named properties brought in line. -/
def updateNames (e : Element) (new old : Props) : List String → Element
  | [] => e
  | name :: names => (e.updateProp new old name).updateNames new old names

/-- The element with its properties brought in line. -/
def updateProps (e : Element) (new old : Props) : Element :=
  e.updateNames new old (Page.changedNames new old)

theorem updateNames_append (e : Element) (new old : Props) (names more : List String) :
    e.updateNames new old (names ++ more) =
      (e.updateNames new old names).updateNames new old more := by
  induction names generalizing e with
  | nil => rfl
  | cons name names ih => exact ih _

/-- Nothing is done under names that have the same value as before. -/
theorem updateNames_eq_self (e : Element) {new old : Props} {names : List String}
    (h : ∀ name ∈ names, (new.get? name == old.get? name) = true) :
    e.updateNames new old names = e := by
  induction names with
  | nil => rfl
  | cons name names ih =>
      have hname : e.updateProp new old name = e :=
        if_pos (Or.inr (h name (List.mem_cons_self ..)))
      rw [updateNames, hname, ih fun k hk => h k (List.mem_cons_of_mem _ hk)]

/-! ## The name stays -/

@[simp] theorem name_setAttribute (e : Element) (name : Name) (value : String) :
    (e.setAttribute name value).name = e.name := by
  unfold setAttribute
  split <;> rfl

@[simp] theorem name_clearAttribute (e : Element) (name : Name) :
    (e.clearAttribute name).name = e.name := by
  unfold clearAttribute
  split <;> rfl

@[simp] theorem name_setStyle (e : Element) (v : Option Value) : (e.setStyle v).name = e.name := by
  unfold setStyle
  split <;> rfl

@[simp] theorem name_setField (e : Element) (f : Field) (v : FieldValue) :
    (e.setField f v).name = e.name := by
  cases f <;> rfl

@[simp] theorem name_addListener (e : Element) (event : String) (l : Listener) :
    (e.addListener event l).name = e.name := by
  unfold addListener addListener?
  split <;> rfl

@[simp] theorem name_setListener (e : Element) (event : String) (new old : Option Value) :
    (e.setListener event new old).name = e.name := by
  unfold setListener
  split <;> split <;> simp [removeListener]

@[simp] theorem name_setSlot (e : Element) (slot : Slot) (new old : Option Value) :
    (e.setSlot slot new old).name = e.name := by
  unfold setSlot
  split
  any_goals simp
  split <;> simp

@[simp] theorem name_setProperty (e : Element) (name : String) (new old : Option Value) :
    (e.setProperty name new old).name = e.name :=
  e.name_setSlot _ _ _

@[simp] theorem name_setProperties (e : Element) (es : List (String × Value)) :
    (e.setProperties es).name = e.name := by
  induction es generalizing e with
  | nil => rfl
  | cons d es ih => exact (ih _).trans (name_setProperty ..)

@[simp] theorem name_ofProps (tag : String) (props : Props) :
    (ofProps tag props).name = .ofTag tag :=
  name_setProperties _ _

@[simp] theorem name_updateNames (e : Element) (new old : Props) (names : List String) :
    (e.updateNames new old names).name = e.name := by
  induction names generalizing e with
  | nil => rfl
  | cons name names ih =>
      refine (ih _).trans ?_
      unfold updateProp
      split
      · rfl
      · exact name_setProperty ..

@[simp] theorem name_updateProps (e : Element) (new old : Props) :
    (e.updateProps new old).name = e.name :=
  name_updateNames ..

end Element

/-! ## The operations of a page -/

theorem Document.editElement_ok {d : Document} {id : NodeId} {e : Element}
    (h : d.element? id = some e) (rule : Element → Option (Element × Mutation)) :
    ∃ d', d.editElement id rule = .ok d' ∧
      Relabeled d d' id (.element (((rule e).map (·.1)).getD e)) := by
  obtain ⟨n, hn, he⟩ := Option.bind_eq_some_iff.1 h
  have hdata : n.data = .element e := by
    cases hd : n.data with
    | element e' =>
        rw [hd, NodeData.element?, Option.some.injEq] at he
        rw [he]
    | _ =>
        rw [hd] at he
        cases he
  rw [Document.editElement, (node_eq_ok_iff _ _ _).2 hn, Except.map, he, Option.bind_some]
  cases hrule : rule e with
  | none =>
      refine ⟨d, rfl, ?_⟩
      have hr := Relabeled.refl hn
      rwa [hdata] at hr
  | some em =>
      refine ⟨_, rfl, fun k => ?_⟩
      rw [get?_record, get?_modify]
      by_cases hk : k = id
      · rw [if_pos hk.symm, if_pos hk]
        rfl
      · rw [if_neg (Ne.symm hk), if_neg hk]

theorem Document.Relabeled.element? {d d' : Document} {id : NodeId} {e e' : Element}
    (hr : Relabeled d d' id (.element e')) (h : d.element? id = some e) :
    d'.element? id = some e' := by
  obtain ⟨n, hn, -⟩ := Option.bind_eq_some_iff.1 h
  rw [Document.element?, hr.get?_self hn]
  rfl

namespace Page

/-- A computation gives a page in which an element is another one and nothing
else in the document has changed. -/
def Rebound (p : Page) (id : NodeId) (e : Element) (r : Except MissingNode Page) : Prop :=
  ∃ p', r = .ok p' ∧ Relabeled p.document p'.document id (.element e)

variable {p : Page} {id : NodeId} {e e₁ e₂ : Element}

theorem Rebound.bind {r : Except MissingNode Page} {f : Page → Except MissingNode Page}
    (hid : p.document.element? id = some e) (hr : p.Rebound id e₁ r)
    (hf : ∀ p₁ : Page, p₁.document.element? id = some e₁ → p₁.Rebound id e₂ (f p₁)) :
    p.Rebound id e₂ (r >>= f) := by
  obtain ⟨p₁, rfl, h₁⟩ := hr
  obtain ⟨p₂, hp₂, h₂⟩ := hf p₁ (h₁.element? hid)
  exact ⟨p₂, hp₂, h₁.trans h₂⟩

theorem Rebound.of_document_eq {p' : Page} (hid : p.document.element? id = some e)
    (hp : p'.document = p.document) : p.Rebound id e (.ok p') := by
  refine ⟨p', rfl, ?_⟩
  obtain ⟨d', hd', hr⟩ := editElement_ok hid fun _ => none
  obtain ⟨n, hn, -⟩ := Option.bind_eq_some_iff.1 hid
  rw [Document.editElement, (node_eq_ok_iff _ _ _).2 hn, Except.map, Except.ok.injEq] at hd'
  rw [hp]
  refine Eq.subst (motive := fun d => Relabeled p.document d id _) ?_ hr
  rw [← hd', Option.bind_fun_none]

theorem edit_ok {f : Document → Except MissingNode Document} {d : Document}
    (h : f p.document = .ok d) : p.edit f = .ok { p with document := d } := by
  rw [edit, h]
  rfl

theorem edit_rebound (hid : p.document.element? id = some e) {e' : Element}
    {rule : Element → Option (Element × Mutation)} (he : ((rule e).map (·.1)).getD e = e') :
    p.Rebound id e' (p.edit (·.editElement id rule)) := by
  obtain ⟨d', hd', hr⟩ := editElement_ok hid rule
  rw [he] at hr
  exact ⟨{ p with document := d' }, edit_ok hd', hr⟩

@[simp] theorem document_release (p : Page) (r : Ref) (id : NodeId) :
    (p.release r id).document = p.document := by
  unfold release
  split <;> rfl

@[simp] theorem document_setRef (p : Page) (id : NodeId) (new old : Option Value) :
    (p.setRef id new old).document = p.document := by
  unfold setRef
  split <;> split <;> simp [point]

theorem setAttribute_rebound (hid : p.document.element? id = some e) (name : Name)
    (value : String) :
    p.Rebound id (e.setAttribute name value) (p.edit (·.setAttribute id name value)) := by
  apply edit_rebound hid
  unfold Element.setAttribute
  split
  · rfl
  · unfold Attributes.set?
    split
    · rename_i h
      rw [OrderedMap.insert_of_get? h]
      rfl
    · rfl

theorem clearAttribute_rebound (hid : p.document.element? id = some e) (name : Name) :
    p.Rebound id (e.clearAttribute name) (p.edit (·.clearAttribute id name)) := by
  apply edit_rebound hid
  unfold Element.clearAttribute
  split
  · rfl
  · unfold Attributes.clear?
    split
    · rfl
    · rename_i h
      rw [OrderedMap.erase_of_get?_eq_none (Option.not_isSome_iff_eq_none.1 h)]
      rfl

theorem addListener_rebound (hid : p.document.element? id = some e) (event : String)
    (l : Listener) :
    p.Rebound id (e.addListener event l) (p.edit (·.addListener id event l)) := by
  apply edit_rebound hid
  unfold Element.addListener
  cases e.addListener? event l <;> rfl

theorem removeListener_rebound (hid : p.document.element? id = some e) (event : String)
    (l : Listener) :
    p.Rebound id (e.removeListener event l) (p.edit (·.removeListener id event l)) := by
  apply edit_rebound hid
  unfold Element.removeListener? Element.removeListener
  split
  · rfl
  · rename_i h
    rw [List.erase_of_not_mem h]
    rfl

theorem setStyleText_rebound (hid : p.document.element? id = some e) (css : String) :
    p.Rebound id { e with style := .parse css } (p.edit (·.setStyleText id css)) :=
  edit_rebound hid rfl

theorem setStyleProperties_rebound (hid : p.document.element? id = some e)
    (ds : List (String × Value)) :
    p.Rebound id (e.setDeclarations ds) (p.setStyleProperties id ds) := by
  induction ds generalizing p e with
  | nil => exact .of_document_eq hid rfl
  | cons d ds ih => exact Rebound.bind hid (edit_rebound hid rfl) fun p₁ hid₁ => ih hid₁

theorem setStyle_rebound (hid : p.document.element? id = some e) (v : Option Value) :
    p.Rebound id (e.setStyle v) (p.setStyle id v) := by
  cases v with
  | none => exact setStyleText_rebound hid ""
  | some v =>
      cases v with
      | str css => exact setStyleText_rebound hid css
      | map ds =>
          exact (setStyleText_rebound hid "").bind hid fun p₁ hid₁ =>
            setStyleProperties_rebound hid₁ ds.entries
      | _ => exact setStyleText_rebound hid ""

theorem setListener_rebound (hid : p.document.element? id = some e) (event : String)
    (new old : Option Value) :
    p.Rebound id (e.setListener event new old) (p.setListener id event new old) := by
  have hadd : ∀ {e : Element} (p : Page), p.document.element? id = some e →
      p.Rebound id (match new with | some (.listener l) => e.addListener event l | _ => e)
        (match new with
          | some (.listener l) => p.edit (·.addListener id event l)
          | _ => .ok p) := by
    intro e p hid
    split
    · exact addListener_rebound hid event _
    · exact .of_document_eq hid rfl
  cases old with
  | none => exact hadd p hid
  | some v =>
      cases v with
      | listener l => exact (removeListener_rebound hid event l).bind hid hadd
      | _ => exact hadd p hid

theorem setSlot_rebound (hid : p.document.element? id = some e) (slot : Slot)
    (new old : Option Value) :
    p.Rebound id (e.setSlot slot new old) (p.setSlot id slot new old) := by
  cases slot with
  | key => exact .of_document_eq hid rfl
  | ref => exact .of_document_eq hid (document_setRef ..)
  | className => exact setAttribute_rebound hid _ _
  | style => exact setStyle_rebound hid new
  | field f => exact edit_rebound hid rfl
  | listener event => exact setListener_rebound hid event new old
  | «attribute» name =>
      unfold Page.setSlot Page.setAttribute Element.setSlot
      dsimp only
      cases new.bind Value.text? with
      | none => exact clearAttribute_rebound hid _
      | some s => exact setAttribute_rebound hid _ s

theorem setProperties_rebound (hid : p.document.element? id = some e)
    (es : List (String × Value)) :
    p.Rebound id (e.setProperties es) (p.setProperties id es) := by
  induction es generalizing p e with
  | nil => exact .of_document_eq hid rfl
  | cons d es ih =>
      obtain ⟨name, v⟩ := d
      exact Rebound.bind hid (setSlot_rebound hid _ _ _) fun p₁ hid₁ => ih hid₁

theorem nodup_changedNames {new old : Props} (hnew : new.Distinct) (hold : old.Distinct) :
    (changedNames new old).Nodup := by
  refine List.nodup_append.2 ⟨hnew, hold.filter _, ?_⟩
  rintro k hk _ hk' rfl
  have hcontains := (List.mem_filter.1 hk').2
  rw [Bool.not_eq_true', OrderedMap.contains, Option.isSome_eq_false_iff, Option.isNone_iff_eq_none,
    OrderedMap.get?_eq_none_iff] at hcontains
  exact hcontains hk

theorem mem_changedNames {new old : Props} {name : String} :
    name ∈ changedNames new old ↔ name ∈ new.keys ++ old.keys := by
  rw [changedNames, List.mem_append, List.mem_append, List.mem_filter, Bool.not_eq_true',
    OrderedMap.contains, Option.isSome_eq_false_iff, Option.isNone_iff_eq_none,
    OrderedMap.get?_eq_none_iff]
  tauto

theorem updateNames_rebound (hid : p.document.element? id = some e) (new old : Props)
    (names : List String) :
    p.Rebound id (e.updateNames new old names) (p.updateNames id new old names) := by
  induction names generalizing p e with
  | nil => exact .of_document_eq hid rfl
  | cons name names ih =>
      have hname : p.Rebound id (e.updateProp new old name) (p.updateProp id new old name) := by
        unfold Page.updateProp Element.updateProp
        split
        · exact .of_document_eq hid rfl
        · exact setSlot_rebound hid _ _ _
      exact hname.bind hid fun p₁ hid₁ => ih hid₁

theorem updateProps_rebound (hid : p.document.element? id = some e) (new old : Props) :
    p.Rebound id (e.updateProps new old) (p.updateProps id new old) :=
  updateNames_rebound hid new old _

end Page

end LiveMarkup
