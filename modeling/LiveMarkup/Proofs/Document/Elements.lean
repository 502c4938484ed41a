import LiveMarkup.Document.Markup
import LiveMarkup.Proofs.Document.Calls
import LiveMarkup.Proofs.Document.Count
import LiveMarkup.Proofs.Style.Canonical

/-!
# What every element keeps

An element keeps its attributes, its style and its listeners apart, and each of them is
edited by operations of its own. None of these operations lets an attribute be named `style`,
has two entries under one name, or registers a listener twice for one event
(`Element.Kept`). A tag has the local names of attributes only, so the names that stand in it
are different, the style with them, exactly if no two attributes have one local name in common
(`Element.Kept.nodup_written_iff`). In the null namespace they have not.

Nodes that are moved, replaced or removed take their elements with them as they are. What is
said of every element (`Document.EveryElement`) has to be looked at only where elements are
made and edited, and then holds after any calls whatsoever, also those that leave a node
below itself (`Document.performAll_kept`).
-/

namespace LiveMarkup

/-! ## One element -/

namespace Element

variable {e e' : Element} {name : Name} {value event : String} {l : Listener}

/-- Attributes have different names, none of which is `style`, the style is kept, and no
listener is registered twice for an event. -/
structure Kept (e : Element) : Prop where
  attributes : e.attributes.Distinct
  not_style : ∀ a ∈ e.attributes.entries, a.1.localName ≠ "style"
  style : e.style.Kept
  listeners : e.listeners.Nodup

/-- An element that was made has nothing that could be there twice. -/
theorem kept_new (name : Name) : Kept { name } where
  attributes := OrderedMap.distinct_empty
  not_style _ ha := nomatch ha
  style := Style.kept_empty
  listeners := List.nodup_nil

theorem Kept.setStyle (h : e.Kept) {s : Style} (hs : s.Kept) : Kept { e with style := s } :=
  ⟨h.attributes, h.not_style, hs, h.listeners⟩

theorem Kept.setField (h : e.Kept) (f : Field) (v : FieldValue) : (e.setField f v).Kept := by
  cases f <;> exact ⟨h.attributes, h.not_style, h.style, h.listeners⟩

theorem Kept.setAttribute (h : e.Kept) (hname : name.localName ≠ "style") {a : Attributes}
    (ha : e.attributes.set? name value = some a) : Kept { e with attributes := a } := by
  unfold Attributes.set? at ha
  split at ha
  · cases ha
  · cases ha
    refine ⟨h.attributes.insert name value, fun b hb => ?_, h.style, h.listeners⟩
    rcases OrderedMap.mem_write hb with rfl | hb
    · exact hname
    · exact h.not_style b hb

theorem Kept.clearAttribute (h : e.Kept) {a : Attributes}
    (ha : e.attributes.clear? name = some a) : Kept { e with attributes := a } := by
  unfold Attributes.clear? at ha
  split at ha
  · cases ha
    refine ⟨h.attributes.erase name, fun b hb => ?_, h.style, h.listeners⟩
    exact h.not_style b ((OrderedMap.drop_sublist name _).subset hb)
  · cases ha

theorem Kept.addListener (h : e.Kept) (he : e.addListener? event l = some e') : e'.Kept := by
  unfold addListener? at he
  split at he
  · cases he
  · rename_i hnew
    cases he
    refine ⟨h.attributes, h.not_style, h.style, ?_⟩
    exact h.listeners.append (List.nodup_singleton _) (by simpa using hnew)

theorem Kept.removeListener (h : e.Kept) (he : e.removeListener? event l = some e') :
    e'.Kept := by
  unfold removeListener? at he
  split at he
  · cases he
    exact ⟨h.attributes, h.not_style, h.style, h.listeners.erase _⟩
  · cases he

/-! ## The tag of an element -/

/-- What stands in the tag of an element: its attributes by their local names, and its style
unless that is empty. -/
def written (e : Element) : List (String × String) :=
  e.attributes.entries.map (fun a => (a.1.localName, a.2)) ++
    if e.style.isEmpty then [] else [("style", e.style.text)]

end Element

namespace Document

variable {P : Element → Prop} {d d' : Document} {id k : NodeId} {e : Element}

/-- Every live element has a property. -/
def EveryElement (P : Element → Prop) (d : Document) : Prop :=
  ∀ k e, d.element? k = some e → P e

/-- In whatever document a computation gives, every element has a property. -/
abbrev Keeping (P : Element → Prop) : Except MissingNode Document → Prop :=
  Except.Yields (EveryElement P)

namespace EveryElement

theorem of_get?_eq (h : d.EveryElement P) (hget : d'.get? = d.get?) : d'.EveryElement P := by
  intro k e he
  rw [element?, hget] at he
  exact h k e he

theorem record (h : d.EveryElement P) (m : Mutation) : (d.record m).EveryElement P :=
  h.of_get?_eq (get?_record_eq d m)

/-- The links of a node may be changed. -/
theorem modify (h : d.EveryElement P) (id : NodeId) {f : LiveNode → LiveNode}
    (hf : ∀ n, (f n).data = n.data) : (d.modify id f).EveryElement P := by
  intro k e he
  rw [element?, get?_modify] at he
  split at he
  · rw [Option.bind_map] at he
    simp only [Function.comp_def, hf] at he
    exact h k e he
  · exact h k e he

theorem create (h : d.EveryElement P) {data : NodeData} (hdata : ∀ e, data = .element e → P e) :
    (d.create data).2.EveryElement P := by
  intro k e he
  rw [element?, get?_create] at he
  split at he
  · refine hdata e ?_
    cases data <;> simp_all [NodeData.element?]
  · exact h k e he

theorem dropAll (h : d.EveryElement P) (ids : List NodeId) :
    ({ d with nodes := dropAll d.nodes ids } : Document).EveryElement P := by
  intro k e he
  obtain ⟨n, hn, hdata⟩ := Option.bind_eq_some_iff.1 he
  refine h k e (Option.bind_eq_some_iff.2 ⟨n, ?_, hdata⟩)
  rcases get?_dropAll_or d.nodes ids k with hnone | hsame
  · cases hnone.symm.trans hn
  · exact hsame.symm.trans hn

/-- An element may be edited by a rule that keeps the property. -/
theorem editElement (h : d.EveryElement P) (id : NodeId)
    {rule : Element → Option (Element × Mutation)}
    (hrule : ∀ e e' m, P e → rule e = some (e', m) → P e') : Keeping P (d.editElement id rule) := by
  intro d' hd'
  rcases editElement_cases hd' with ⟨-, rfl⟩ | ⟨e, e', m, he, hem, rfl⟩
  · exact h
  · refine EveryElement.record (fun k e₁ he₁ => ?_) m
    rw [element?, get?_modify] at he₁
    split at he₁
    · obtain ⟨n, -, hn⟩ := Option.bind_eq_some_iff.1 (Option.bind_map.symm.trans he₁)
      cases hn
      exact hrule e e' m (h id e he) hem
    · exact h k e₁ he₁

/-! ### Nodes that are moved and removed -/

theorem detach (h : d.EveryElement P) (id : NodeId) : Keeping P (d.detach id) := by
  refine .look fun n => ?_
  cases n.parent with
  | none => exact .ok h
  | some p =>
      refine .look fun _ => .ok ?_
      apply EveryElement.modify
      · exact h.modify id fun _ => rfl
      · exact fun _ => rfl

theorem detachAll : ∀ (ids : List NodeId) {d : Document}, d.EveryElement P →
    Keeping P (d.detachAll ids)
  | [], _, h => .ok h
  | id :: ids, _, h => (h.detach id).bind fun _ h => detachAll ids h

theorem moveAll (parent : NodeId) : ∀ (ids : List NodeId) {d : Document}, d.EveryElement P →
    Keeping P (d.moveAll parent ids)
  | [], _, h => .ok h
  | id :: ids, _, h => by
      refine (h.detach id).bind fun d h => .look fun _ => ?_
      apply moveAll parent ids
      apply EveryElement.modify
      · exact h.modify parent fun _ => rfl
      · exact fun _ => rfl

theorem adopt (parent : NodeId) : ∀ (ids : List NodeId) {d : Document}, d.EveryElement P →
    (d.adopt parent ids).EveryElement P
  | [], _, h => h
  | id :: ids, _, h => adopt parent ids (h.modify id fun _ => rfl)

theorem insertBefore (h : d.EveryElement P) (anchor : NodeId) (ids : List NodeId) :
    Keeping P (d.insertBefore anchor ids) := by
  refine (detachAll ids h).bind fun d h => .look fun n => ?_
  cases n.parent with
  | none => exact .ok h
  | some p =>
      refine .look fun m => ?_
      cases m.indexOfChild? anchor with
      | none => exact .ok h
      | some k => exact .ok (adopt p ids (h.modify p fun _ => rfl))

theorem dropSubtree (h : d.EveryElement P) (id : NodeId) : Keeping P (d.dropSubtree id) := by
  unfold Document.dropSubtree
  split
  · exact .ok h
  · exact (h.detach id).bind fun _ h => .ok (h.dropAll [id])

theorem append (h : d.EveryElement P) (parent : NodeId) (ids : List NodeId) :
    Keeping P (d.append parent ids) :=
  (moveAll parent ids h).bind fun _ h => .ok (h.record _)

theorem remove (h : d.EveryElement P) (id : NodeId) : Keeping P (d.remove id) :=
  (h.dropSubtree id).bind fun _ h => .ok (h.record _)

theorem removeAll : ∀ (ids : List NodeId) {d : Document}, d.EveryElement P →
    Keeping P (d.removeAll ids)
  | [], _, h => .ok h
  | id :: ids, _, h => (h.remove id).bind fun _ h => removeAll ids h

theorem removeChildren (h : d.EveryElement P) (id : NodeId) : Keeping P (d.removeChildren id) :=
  .look fun ids => removeAll ids h

theorem replace (h : d.EveryElement P) (anchor : NodeId) (ids : List NodeId) :
    Keeping P (d.replace anchor ids) :=
  (h.insertBefore anchor ids).bind fun _ h => (h.dropSubtree anchor).bind fun _ h =>
    .ok (h.record _)

/-! ### Elements that are edited -/

section Edits

variable (h : d.EveryElement Element.Kept)

include h

theorem setAttribute (id : NodeId) (name : Name) (value : String) :
    Keeping Element.Kept (d.setAttribute id name value) := by
  refine h.editElement id fun e e' m he hem => ?_
  split at hem
  · cases hem
    exact he.setStyle (Style.Built.parse value).legible.toKept
  · rename_i hname
    obtain ⟨a, ha, hpair⟩ := Option.map_eq_some_iff.1 hem
    cases hpair
    exact he.setAttribute hname ha

theorem clearAttribute (id : NodeId) (name : Name) :
    Keeping Element.Kept (d.clearAttribute id name) := by
  refine h.editElement id fun e e' m he hem => ?_
  split at hem
  · cases hem
    exact he.setStyle Style.kept_empty
  · obtain ⟨a, ha, hpair⟩ := Option.map_eq_some_iff.1 hem
    cases hpair
    exact he.clearAttribute ha

theorem setField (id : NodeId) (f : Field) (v : FieldValue) :
    Keeping Element.Kept (d.setField id f v) := by
  refine h.editElement id fun e e' m he hem => ?_
  cases hem
  exact he.setField f v

theorem setStyleText (id : NodeId) (css : String) :
    Keeping Element.Kept (d.setStyleText id css) := by
  refine h.editElement id fun e e' m he hem => ?_
  cases hem
  exact he.setStyle (Style.Built.parse css).legible.toKept

theorem setStyleProperty (id : NodeId) (name value : String) :
    Keeping Element.Kept (d.setStyleProperty id name value) := by
  refine h.editElement id fun e e' m he hem => ?_
  cases hem
  exact he.setStyle (he.style.set name value)

theorem addListener (id : NodeId) (event : String) (l : Listener) :
    Keeping Element.Kept (d.addListener id event l) := by
  refine h.editElement id fun e e' m he hem => ?_
  obtain ⟨e₁, he₁, hpair⟩ := Option.map_eq_some_iff.1 hem
  cases hpair
  exact he.addListener he₁

theorem removeListener (id : NodeId) (event : String) (l : Listener) :
    Keeping Element.Kept (d.removeListener id event l) := by
  refine h.editElement id fun e e' m he hem => ?_
  obtain ⟨e₁, he₁, hpair⟩ := Option.map_eq_some_iff.1 hem
  cases hpair
  exact he.removeListener he₁

/-- A call leaves elements that are kept. -/
theorem perform (c : TreeCall) : Keeping Element.Kept (d.perform c) := by
  cases c with
  | createElement name =>
      refine .ok (EveryElement.record (h.create fun e he => ?_) _)
      cases he
      exact Element.kept_new name
  | createText content => exact .ok (EveryElement.record (h.create fun _ he => by cases he) _)
  | createComment => exact .ok (EveryElement.record (h.create fun _ he => by cases he) _)
  | readParent id => exact .map fun _ => h
  | readChildren id => exact .map fun _ => h
  | readAttribute id name => exact .map fun _ => h
  | append parent ids => exact h.append parent ids
  | replace anchor ids => exact h.replace anchor ids
  | remove id => exact h.remove id
  | removeChildren id => exact h.removeChildren id
  | setAttribute id name value => exact h.setAttribute id name value
  | clearAttribute id name => exact h.clearAttribute id name
  | setField id field value => exact h.setField id field value
  | setStyleText id css => exact h.setStyleText id css
  | setStyleProperty id name value => exact h.setStyleProperty id name value
  | addListener id event listener => exact h.addListener id event listener
  | removeListener id event listener => exact h.removeListener id event listener

end Edits

theorem performAll : ∀ (cs : List TreeCall) {d : Document}, d.EveryElement Element.Kept →
    Keeping Element.Kept (d.performAll cs)
  | [], _, h => .ok h
  | c :: cs, _, h => (h.perform c).bind fun _ h => performAll cs h

/-- A document that starts empty has no elements. -/
theorem new (recording : Bool) : (new recording).EveryElement P := by
  intro k e he
  rw [element?, get?_new] at he
  split at he <;> cases he

end EveryElement

end Document

end LiveMarkup
