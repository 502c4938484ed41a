import LiveMarkup.Proofs.Document.Listeners
import LiveMarkup.Proofs.Page.Binding
import LiveMarkup.Proofs.Value.Same

/-!
# What the slots of an element show

Every property binds a slot of its element, and what the slot shows depends on
the value alone (`Slot.shown`). An element fits an assignment of values to slots
when every slot shows what its value asks for (`Element.Fits`). Setting a slot
keeps an element fit (`Element.Fits.setSlot`), as long as the old value that is
passed is the one that the slot was set to before.

So what an element shows depends on the values that were set last, and not on
what was there before.
-/

namespace LiveMarkup

/-- The inline style that a value gives. -/
def Style.ofValue? : Option Value → Style
  | some (.str css) => .parse css
  | some (.map ds) => ds.entries.foldl (fun s d => s.set d.1 (d.2.text?.getD "")) (.parse "")
  | _ => .parse ""

/-- The listeners that a value gives. -/
def Value.listeners : Option Value → List Listener
  | some (.listener l) => [l]
  | _ => []

/-- What a slot shows. -/
inductive SlotView where
  | nothing
  | text (s : Option String)
  | style (declared : String → Option String)
  | field (v : FieldValue)
  | listeners (ls : List Listener)

/-- What a slot is to show for a value. -/
def Slot.shown : Slot → Option Value → SlotView
  | .key, _ => .nothing
  | .ref, _ => .nothing
  | .className, v => .text ((v.bind Value.text?).getD "")
  | .style, v => .style (Style.ofValue? v).declarations.get?
  | .field _, v => .field (.ofValue? v)
  | .listener _, v => .listeners (Value.listeners v)
  | .attribute _, v => .text (v.bind Value.text?)

/-- What a slot of an element shows. -/
def Element.view (e : Element) : Slot → SlotView
  | .key => .nothing
  | .ref => .nothing
  | .className => .text ((e.attributes.get? (.ofAttribute "class")).getD "")
  | .style => .style e.style.declarations.get?
  | .field f => .field (e.field f)
  | .listener event => .listeners (e.listenersFor event)
  | .attribute name => .text (e.attributes.get? (.ofAttribute name))

/-- The slots of an element show what is assigned to them. The class is told by
its own slot, and there are no attributes but those of slots. -/
structure Element.Fits (bound : Slot → Option Value) (e : Element) : Prop where
  view_eq : ∀ s, s ≠ .attribute "class" → e.view s = s.shown (bound s)
  other : ∀ n : Name, ¬ n.InNullNamespace → e.attributes.get? n = none
  distinct : e.attributes.Distinct

/-- Properties never bind these two attributes as such. -/
theorem Slot.ofName_ne (name : String) :
    Slot.ofName name ≠ .attribute "class" ∧ Slot.ofName name ≠ .attribute "style" := by
  unfold Slot.ofName
  repeat' split
  all_goals simp_all

/-! ## Listeners -/

namespace Element

theorem listenersFor_removeListener_self (e : Element) (event : String) (l : Listener) :
    (e.removeListener event l).listenersFor event = (e.listenersFor event).erase l :=
  filter_erase_of_eq e.listeners

theorem listenersFor_removeListener_of_ne (e : Element) {event event' : String}
    (h : event' ≠ event) (l : Listener) :
    (e.removeListener event l).listenersFor event' = e.listenersFor event' :=
  congrArg _ (filter_erase_of_ne h e.listeners)

theorem listenersFor_addListener_self {e : Element} {event : String} {l : Listener}
    (h : l ∉ e.listenersFor event) :
    (e.addListener event l).listenersFor event = e.listenersFor event ++ [l] := by
  rw [addListener, listenersFor_add, if_pos ⟨rfl, h⟩]

theorem listenersFor_addListener_of_ne (e : Element) {event event' : String}
    (h : event' ≠ event) (l : Listener) :
    (e.addListener event l).listenersFor event' = e.listenersFor event' := by
  rw [addListener, listenersFor_add, if_neg fun hn => h hn.1]

/-- Taking the old listener and adding the new one leaves just the new one. -/
theorem listenersFor_setListener_self {e : Element} {event : String} {old : Option Value}
    (h : e.listenersFor event = Value.listeners old) (new : Option Value) :
    (e.setListener event new old).listenersFor event = Value.listeners new := by
  have hadd : ∀ e' : Element, e'.listenersFor event = [] →
      (match new with
        | some (.listener l) => e'.addListener event l
        | _ => e').listenersFor event = Value.listeners new := by
    intro e' he'
    cases new with
    | none => exact he'
    | some v =>
        cases v with
        | listener l =>
            have hl : l ∉ e'.listenersFor event := he' ▸ List.not_mem_nil
            exact (listenersFor_addListener_self hl).trans (congrArg (· ++ [l]) he')
        | _ => exact he'
  cases old with
  | none => exact hadd e h
  | some v =>
      cases v with
      | listener l =>
          apply hadd
          rw [listenersFor_removeListener_self, h]
          exact List.erase_cons_head ..
      | _ => exact hadd e h

theorem setListener_eq (e : Element) (event : String) (new old : Option Value) :
    ∃ ls, e.setListener event new old = { e with listeners := ls } := by
  have hadd : ∀ e' : Element, (∃ ls, e' = { e with listeners := ls }) →
      ∃ ls, (match new with
        | some (.listener l) => e'.addListener event l
        | _ => e') = { e with listeners := ls } := by
    rintro e' ⟨ls, rfl⟩
    split
    · rw [addListener, addListener?]
      split
      · exact ⟨ls, rfl⟩
      · exact ⟨_, rfl⟩
    · exact ⟨ls, rfl⟩
  cases old with
  | none => exact hadd e ⟨e.listeners, rfl⟩
  | some v =>
      cases v with
      | listener l => exact hadd _ ⟨_, rfl⟩
      | _ => exact hadd e ⟨e.listeners, rfl⟩

theorem listenersFor_setListener_of_ne (e : Element) {event event' : String}
    (h : event' ≠ event) (new old : Option Value) :
    (e.setListener event new old).listenersFor event' = e.listenersFor event' := by
  have hadd : ∀ e' : Element, (match new with
      | some (.listener l) => e'.addListener event l
      | _ => e').listenersFor event' = e'.listenersFor event' := by
    intro e'
    split
    · exact listenersFor_addListener_of_ne e' h _
    · rfl
  cases old with
  | none => exact hadd e
  | some v =>
      cases v with
      | listener l => exact (hadd _).trans (listenersFor_removeListener_of_ne e h l)
      | _ => exact hadd e

/-! ## Setting one slot -/

theorem setStyle_eq (e : Element) (v : Option Value) :
    e.setStyle v = { e with style := Style.ofValue? v } := by
  cases v with
  | none => rfl
  | some v => cases v <;> rfl

theorem setAttribute_eq (e : Element) {name : String} (h : name ≠ "style") (value : String) :
    e.setAttribute (.ofAttribute name) value =
      { e with attributes := e.attributes.insert (.ofAttribute name) value } :=
  if_neg h

theorem clearAttribute_eq (e : Element) {name : String} (h : name ≠ "style") :
    e.clearAttribute (.ofAttribute name) =
      { e with attributes := e.attributes.erase (.ofAttribute name) } :=
  if_neg h

namespace Fits

variable {bound bound' : Slot → Option Value} {e e' : Element} {s : Slot}

theorem congr (hf : e.Fits bound)
    (h : ∀ s : Slot, s.shown (bound s) = s.shown (bound' s)) : e.Fits bound' :=
  ⟨fun s hs => (hf.view_eq s hs).trans (h s), hf.other, hf.distinct⟩

theorem of_attributes (hf : e.Fits bound) {name : String} {a : Attributes} (ha : a.Distinct)
    (hne : ∀ n, n ≠ .ofAttribute name → a.get? n = e.attributes.get? n)
    (hs : s = .attribute name ∧ name ≠ "class" ∨ s = .className ∧ name = "class")
    {v : Option Value}
    (hv : ({ e with attributes := a } : Element).view s = s.shown v) :
    Element.Fits (Function.update bound s v) { e with attributes := a } := by
  have hname : ∀ other, other ≠ name → Name.ofAttribute other ≠ .ofAttribute name :=
    fun other => mt (Name.ofAttribute_injective ·)
  refine ⟨fun t ht => ?_, fun n hn => ?_, ha⟩
  · by_cases hts : t = s
    · rw [hts, Function.update_self, hv]
    · rw [Function.update_of_ne hts, ← hf.view_eq t ht]
      cases t with
      | className =>
          have hclass : "class" ≠ name := by
            rcases hs with ⟨-, hs⟩ | ⟨hs, -⟩
            · exact Ne.symm hs
            · exact absurd hs.symm hts
          exact congrArg (fun v => SlotView.text (some (v.getD ""))) (hne _ (hname _ hclass))
      | «attribute» other =>
          have hother : other ≠ name := by
            rintro rfl
            rcases hs with ⟨hs, -⟩ | ⟨-, rfl⟩
            · exact hts hs.symm
            · exact ht rfl
          exact congrArg SlotView.text (hne _ (hname _ hother))
      | _ => rfl
  · rw [hne n fun he => hn (he ▸ rfl), hf.other n hn]

theorem of_view (hf : e.Fits bound) (ha : e'.attributes = e.attributes) {v : Option Value}
    (hself : e'.view s = s.shown v) (hne : ∀ t, t ≠ s → e'.view t = e.view t) :
    e'.Fits (Function.update bound s v) := by
  refine ⟨fun t ht => ?_, fun n hn => ?_, ?_⟩
  · by_cases hts : t = s
    · rw [hts, Function.update_self, hself]
    · rw [Function.update_of_ne hts, hne t hts, hf.view_eq t ht]
  · rw [ha, hf.other n hn]
  · rw [ha]
    exact hf.distinct

theorem setAttribute (hf : e.Fits bound) {name : String} (hname : name ≠ "style")
    (hs : s = .attribute name ∧ name ≠ "class" ∨ s = .className ∧ name = "class")
    {v : Option Value} {value : String}
    (hv : s.shown v = .text value) :
    (e.setAttribute (.ofAttribute name) value).Fits (Function.update bound s v) := by
  rw [setAttribute_eq e hname]
  refine hf.of_attributes (hf.distinct.insert _ _) (fun n hn => ?_) hs ?_
  · rw [OrderedMap.get?_insert, if_neg (Ne.symm hn)]
  · rw [hv]
    rcases hs with ⟨rfl, -⟩ | ⟨rfl, rfl⟩
    · exact congrArg SlotView.text (OrderedMap.get?_insert_self ..)
    · have hget := OrderedMap.get?_insert_self e.attributes (.ofAttribute "class") value
      exact congrArg (fun v => SlotView.text (some (v.getD ""))) hget

theorem clearAttribute (hf : e.Fits bound) {name : String} (hname : name ≠ "style")
    (hclass : name ≠ "class") {v : Option Value} (hv : v.bind Value.text? = none) :
    (e.clearAttribute (.ofAttribute name)).Fits (Function.update bound (.attribute name) v) := by
  rw [clearAttribute_eq e hname]
  refine hf.of_attributes (hf.distinct.erase _) (fun n hn => ?_) (Or.inl ⟨rfl, hclass⟩) ?_
  · rw [hf.distinct.get?_erase, if_neg (Ne.symm hn)]
  · refine congrArg SlotView.text ?_
    rw [hf.distinct.get?_erase, if_pos rfl, hv]

theorem setField (hf : e.Fits bound) (f : Field) (v : Option Value) :
    (e.setField f (.ofValue? v)).Fits (Function.update bound (.field f) v) := by
  refine hf.of_view ?_ ?_ fun t ht => ?_
  · cases f <;> rfl
  · exact congrArg SlotView.field ((field_setField ..).trans (if_pos rfl))
  · cases t with
    | field g =>
        have hg : f ≠ g := fun he => ht (he ▸ rfl)
        exact congrArg SlotView.field ((field_setField ..).trans (if_neg hg))
    | _ => cases f <;> rfl

theorem setListener (hf : e.Fits bound) (event : String) (v : Option Value) :
    (e.setListener event v (bound (.listener event))).Fits
      (Function.update bound (.listener event) v) := by
  have hbefore := SlotView.listeners.inj (hf.view_eq (.listener event) (by simp))
  obtain ⟨ls, hls⟩ := e.setListener_eq event v (bound (.listener event))
  refine hf.of_view (by rw [hls]) ?_ fun t ht => ?_
  · exact congrArg SlotView.listeners (listenersFor_setListener_self hbefore v)
  · cases t with
    | listener event' =>
        have hne : event' ≠ event := fun he => ht (he ▸ rfl)
        exact congrArg SlotView.listeners (listenersFor_setListener_of_ne e hne _ _)
    | field f =>
        rw [hls]
        cases f <;> rfl
    | _ =>
        rw [hls]
        rfl

theorem setSlot (hf : e.Fits bound) {name : String} (hs : Slot.ofName name = s) (v : Option Value) :
    (e.setSlot s v (bound s)).Fits (Function.update bound s v) := by
  obtain ⟨hclass, hstyle⟩ := hs ▸ Slot.ofName_ne name
  cases s with
  | key => refine hf.of_view ?_ ?_ fun t _ => ?_ <;> rfl
  | ref => refine hf.of_view ?_ ?_ fun t _ => ?_ <;> rfl
  | className => exact hf.setAttribute (by decide) (Or.inr ⟨rfl, rfl⟩) rfl
  | style =>
      rw [Element.setSlot, setStyle_eq]
      refine hf.of_view ?_ ?_ fun t ht => ?_
      · rfl
      · rfl
      cases t with
      | style => exact absurd rfl ht
      | field f => cases f <;> rfl
      | _ => rfl
  | field f => exact hf.setField f v
  | listener event => exact hf.setListener event v
  | «attribute» a =>
      have hclass' : a ≠ "class" := fun he => hclass (he ▸ rfl)
      have hstyle' : a ≠ "style" := fun he => hstyle (he ▸ rfl)
      cases hv : v.bind Value.text? with
      | none =>
          rw [Element.setSlot, hv]
          exact hf.clearAttribute hstyle' hclass' hv
      | some t =>
          rw [Element.setSlot, hv]
          exact hf.setAttribute hstyle' (Or.inl ⟨rfl, hclass'⟩) (congrArg SlotView.text hv)

end Fits

theorem fits_new (name : Name) : ({ name } : Element).Fits fun _ => none := by
  refine ⟨fun s _ => ?_, fun _ _ => rfl, OrderedMap.distinct_empty⟩
  cases s with
  | field f => cases f <;> rfl
  | _ => rfl

end Element

end LiveMarkup
