import LiveMarkup.Proofs.Page.Sound

/-!
# Properties that are renamed

Two names may bind one slot: `class` and `className` do, and so do names of listeners
that differ in the case of their letters. When properties bind a slot by another name
than the properties before, updating binds the slot by its new name first and unbinds
the old name last.

So what the new value did is undone, unless unbinding the old value leaves it alone:
a listener stays if it is another one than before, and a class only if there was
nothing to show (`Page.updateProps_renamed_iff`).
-/

namespace LiveMarkup

/-! ## Slots with several names -/

/-- The name that binds a slot, if there is just one. -/
def Slot.name? : Slot → Option String
  | .key => some "key"
  | .ref => some "ref"
  | .className => none
  | .style => some "style"
  | .field f => some f.name
  | .listener _ => none
  | .attribute name => some name

theorem Slot.eq_of_name?_ofName {name other : String} (h : (ofName name).name? = some other) :
    name = other := by
  unfold ofName at h
  repeat' split at h
  case h_1 f hf => exact (Field.name_of_ofName? hf).symm.trans (Option.some.inj h)
  all_goals simp_all [name?]

/-- Only classes and listeners are bound by more than one name. -/
theorem Slot.eq_of_ofName_eq {a b : String} (hab : a ≠ b) (h : ofName a = ofName b) :
    ofName a = .className ∨ ∃ event, ofName a = .listener event := by
  cases hname : (ofName a).name? with
  | some name =>
      have ha : a = name := eq_of_name?_ofName hname
      have hb : b = name := eq_of_name?_ofName (h ▸ hname)
      exact absurd (ha.trans hb.symm) hab
  | none =>
      cases hs : ofName a with
      | className => exact Or.inl rfl
      | listener event => exact Or.inr ⟨event, rfl⟩
      | _ =>
          rw [hs] at hname
          cases hname

/-- The values of which a slot with several names can show something. -/
def Slot.Admits : Slot → Value → Prop
  | .className, v => v.text?.isSome
  | .listener _, v => ∃ l, v = .listener l
  | _, _ => True

/-- Unbinding a value from a slot leaves the value that was bound last. -/
def Slot.Outlasts : Slot → Value → Value → Prop
  | .className, v, _ => v.text? = some ""
  | _, v, w => v ≠ w

/-- Properties with distinct names, all values true and no slot bound by two names. -/
structure Props.Unambiguous (p : Props) : Prop where
  distinct : p.Distinct
  truthy : ∀ x ∈ p.entries, x.2.isTruthy = true
  apart : SlotsApart p.keys

/-- Properties bind a slot to one value by one name, and others bind it to another
value by another name. -/
def Props.Renames (old new : Props) (s : Slot) (w v : Value) : Prop :=
  ∃ a b, a ≠ b ∧ Slot.ofName a = s ∧ Slot.ofName b = s ∧
    old.get? a = some w ∧ new.get? b = some v

theorem Value.present?_of_isTruthy {v : Value} (h : v.isTruthy = true) :
    present? (some v) = some v := by
  cases v <;> first | rfl | cases h

/-! ## The slot while other slots are set -/

namespace Element

variable {e : Element} {s t : Slot}

/-- Setting a slot leaves the class and the listeners of another slot as they were. -/
theorem view_setSlot_of_ne (hs : s = .className ∨ ∃ event, s = .listener event) {name : String}
    (ht : Slot.ofName name = t) (hne : t ≠ s) (new old : Option Value) :
    (e.setSlot t new old).view s = e.view s := by
  obtain ⟨hclass, hstyle⟩ := ht ▸ Slot.ofName_ne name
  cases t with
  | key => rfl
  | ref => rfl
  | className =>
      obtain ⟨event, rfl⟩ := hs.resolve_left fun h => hne h.symm
      rfl
  | style =>
      rw [setSlot, setStyle_eq]
      rcases hs with rfl | ⟨event, rfl⟩ <;> rfl
  | field f =>
      rcases hs with rfl | ⟨event, rfl⟩ <;> cases f <;> rfl
  | listener other =>
      rcases hs with rfl | ⟨event, rfl⟩
      · obtain ⟨ls, hls⟩ := e.setListener_eq other new old
        rw [setSlot, hls]
        rfl
      · have hevent : event ≠ other := fun h => hne (h ▸ rfl)
        exact congrArg SlotView.listeners (listenersFor_setListener_of_ne e hevent new old)
  | «attribute» a =>
      have hclass' : Name.ofAttribute a ≠ .ofAttribute "class" := fun h =>
        hclass (congrArg Slot.attribute (Name.ofAttribute_injective h))
      have hstyle' : a ≠ "style" := fun h => hstyle (h ▸ rfl)
      unfold setSlot
      cases new.bind Value.text? with
      | none =>
          dsimp only
          rw [clearAttribute_eq e hstyle']
          rcases hs with rfl | ⟨event, rfl⟩
          · have hget := OrderedMap.find?_drop_of_ne hclass' e.attributes.entries
            exact congrArg (fun v => SlotView.text (some (v.getD ""))) hget
          · rfl
      | some text =>
          dsimp only
          rw [setAttribute_eq e hstyle']
          rcases hs with rfl | ⟨event, rfl⟩
          · have hget :=
              OrderedMap.get?_insert e.attributes (.ofAttribute a) (.ofAttribute "class") text
            rw [if_neg hclass'] at hget
            exact congrArg (fun v => SlotView.text (some (v.getD ""))) hget
          · rfl

/-- Bringing properties of other slots in line does the same. -/
theorem view_updateNames_of_ne (hs : s = .className ∨ ∃ event, s = .listener event)
    (new old : Props) {names : List String} (hne : ∀ name ∈ names, Slot.ofName name ≠ s) :
    (e.updateNames new old names).view s = e.view s := by
  induction names generalizing e with
  | nil => rfl
  | cons name names ih =>
      rw [updateNames, ih fun k hk => hne k (List.mem_cons_of_mem _ hk), updateProp]
      split
      · rfl
      · exact view_setSlot_of_ne hs rfl (hne name (List.mem_cons_self ..)) _ _

/-- Of names only one of which binds a slot, only that one matters to the slot. -/
theorem view_updateNames_of_mem (hs : s = .className ∨ ∃ event, s = .listener event)
    (new old : Props) {names : List String} {name : String} (hn : names.Nodup)
    (hname : name ∈ names) (hone : ∀ k ∈ names, Slot.ofName k = s → k = name) :
    ∃ e₁ : Element, e₁.view s = e.view s ∧
      (e.updateNames new old names).view s = (e₁.updateProp new old name).view s := by
  obtain ⟨before, rest, rfl⟩ := List.append_of_mem hname
  have hrest : name ∉ before ∧ name ∉ rest := by
    rw [List.nodup_middle, List.nodup_cons, List.mem_append, not_or] at hn
    exact hn.1
  refine ⟨e.updateNames new old before, view_updateNames_of_ne hs new old fun k hk hks => ?_, ?_⟩
  · have hk' : k = name := hone k (List.mem_append_left _ hk) hks
    exact hrest.1 (hk' ▸ hk)
  · rw [updateNames_append, updateNames]
    refine view_updateNames_of_ne hs new old fun k hk hks => ?_
    have hk' : k = name :=
      hone k (List.mem_append_right _ (List.mem_cons_of_mem _ hk)) hks
    exact hrest.2 (hk' ▸ hk)

/-! ## The slot that is renamed -/

/-- A name that is new binds its value. -/
theorem updateProp_of_new {new old : Props} {name : String} {v : Value} (hkey : name ≠ "key")
    (hv : new.get? name = some v) (htrue : v.isTruthy = true) (hold : old.get? name = none) :
    e.updateProp new old name = e.setSlot (.ofName name) (some v) none := by
  have hne : ¬ (name = "key" ∨ (new.get? name == old.get? name) = true) := by
    rw [hv, hold]
    rintro (h | h)
    · exact hkey h
    · cases h
  rw [updateProp, if_neg hne, setProperty, hv, hold, Option.filter_some, if_pos htrue,
    Value.present?_of_isTruthy htrue]
  rfl

/-- A name that is gone unbinds the value it had. -/
theorem updateProp_of_gone {new old : Props} {name : String} {w : Value} (hkey : name ≠ "key")
    (hnew : new.get? name = none) (hw : old.get? name = some w) (htrue : w.isTruthy = true) :
    e.updateProp new old name = e.setSlot (.ofName name) none (some w) := by
  have hne : ¬ (name = "key" ∨ (new.get? name == old.get? name) = true) := by
    rw [hnew, hw]
    rintro (h | h)
    · exact hkey h
    · cases h
  rw [updateProp, if_neg hne, setProperty, hnew, hw, Value.present?_of_isTruthy htrue]
  rfl

/-- Of a listener and the one it is bound behind, unbinding the latter leaves the
former exactly if they differ. -/
theorem listenersFor_rebound {e₁ e₂ : Element} {event : String} {l k : Listener}
    (h₁ : e₁.listenersFor event = [k])
    (h₂ : e₂.listenersFor event = (e₁.addListener event l).listenersFor event) :
    (e₂.removeListener event k).listenersFor event = [l] ↔ l ≠ k := by
  rw [listenersFor_removeListener_self, h₂]
  by_cases hl : l = k
  · have hmem : (event, l) ∈ e₁.listeners := mem_listenersFor.1 (by simp [h₁, hl])
    rw [addListener, addListener?, if_pos hmem, Option.getD_none, h₁]
    simp [hl]
  · rw [listenersFor_addListener_self (by simpa [h₁] using hl), h₁]
    simp [hl]

/-- Binding a value behind another one and then unbinding that one leaves a slot with
several names showing the value exactly if it outlasts the other. -/
theorem view_rebound_iff {e₁ e₂ : Element} {v w : Value}
    (hs : s = .className ∨ ∃ event, s = .listener event) (hv : s.Admits v) (hw : s.Admits w)
    (h₁ : e₁.view s = s.shown (some w))
    (h₂ : e₂.view s = (e₁.setSlot s (some v) none).view s) :
    (e₂.setSlot s none (some w)).view s = s.shown (some v) ↔ s.Outlasts v w := by
  rcases hs with rfl | ⟨event, rfl⟩
  · have hview : (e₂.setSlot .className none (some w)).view .className = .text (some "") := by
      rw [setSlot, setAttribute_eq e₂ (by decide)]
      have hget := OrderedMap.get?_insert_self e₂.attributes (.ofAttribute "class") ""
      exact congrArg (fun v => SlotView.text (some (v.getD ""))) hget
    obtain ⟨text, htext⟩ := Option.isSome_iff_exists.1 hv
    rw [hview, Slot.shown, Option.bind_some, htext, Slot.Outlasts, htext]
    simp [eq_comm]
  · obtain ⟨l, rfl⟩ := hv
    obtain ⟨k, rfl⟩ := hw
    have hlisteners := listenersFor_rebound (l := l) (SlotView.listeners.inj h₁)
      (SlotView.listeners.inj h₂)
    have houtlasts : (Slot.listener event).Outlasts (.listener l) (.listener k) ↔ l ≠ k :=
      not_congr ⟨Value.listener.inj, congrArg Value.listener⟩
    rw [houtlasts, ← hlisteners]
    exact ⟨SlotView.listeners.inj, congrArg SlotView.listeners⟩

variable {new old : Props} {v w : Value}

/-- Bringing an element in line with properties that bind a slot by another name. -/
theorem view_updateProps_iff (hnew : new.Unambiguous) (hold : old.Unambiguous)
    (hr : old.Renames new s w v) (hv : s.Admits v) (hw : s.Admits w)
    (hshows : e.view s = s.shown (some w)) :
    (e.updateProps new old).view s = s.shown (some v) ↔ s.Outlasts v w := by
  obtain ⟨a, b, hab, ha, hb, hgeta, hgetb⟩ := hr
  have hs := Slot.eq_of_ofName_eq hab (ha.trans hb.symm)
  rw [ha] at hs
  have hmema : a ∈ old.keys := List.mem_map_of_mem (OrderedMap.mem_of_find? hgeta)
  have hmemb : b ∈ new.keys := List.mem_map_of_mem (OrderedMap.mem_of_find? hgetb)
  have hgone : new.get? a = none := (new.get?_eq_none_iff a).2 fun hmem =>
    hab (hnew.apart a hmem b hmemb (ha.trans hb.symm))
  have hfresh : old.get? b = none := (old.get?_eq_none_iff b).2 fun hmem =>
    hab (hold.apart a hmema b hmem (ha.trans hb.symm))
  have hkey : ∀ {name}, Slot.ofName name = s → name ≠ "key" := by
    rintro _ hname rfl
    rcases hs with rfl | ⟨event, rfl⟩ <;> cases hname
  -- first the new name is bound, among others that are there
  obtain ⟨e₁, he₁, hbound⟩ := view_updateNames_of_mem (e := e) hs new old hnew.distinct hmemb
    fun k hk hks => hnew.apart k hk b hmemb (hks.trans hb.symm)
  -- then the old one is unbound, among others that are gone
  have hmemgone : a ∈ old.keys.filter fun name => !new.contains name :=
    List.mem_filter.2 ⟨hmema, by simp [OrderedMap.contains, hgone]⟩
  obtain ⟨e₂, he₂, hunbound⟩ := view_updateNames_of_mem (e := e.updateNames new old new.keys) hs
    new old (hold.distinct.filter _) hmemgone fun k hk hks =>
      hold.apart k (List.mem_of_mem_filter hk) a hmema (hks.trans ha.symm)
  rw [updateProps, Page.changedNames, updateNames_append, hunbound,
    updateProp_of_gone (hkey ha) hgone hgeta (hold.truthy _ (OrderedMap.mem_of_find? hgeta)), ha]
  rw [hbound, updateProp_of_new (hkey hb) hgetb
    (hnew.truthy _ (OrderedMap.mem_of_find? hgetb)) hfresh, hb] at he₂
  exact view_rebound_iff hs hv hw (he₁.trans hshows) he₂

end Element

namespace Page

/-- Bringing a live element in line never fails. A slot that the old properties bind by
one name and the new ones by another shows the new value afterwards exactly if the
value outlasts the old one: a listener if it is another one, and a class if its text is
empty. -/
theorem updateProps_renamed_iff {p : Page} {id : NodeId} {e : Element} {new old : Props}
    {s : Slot} {v w : Value} (hid : p.document.element? id = some e) (hnew : new.Unambiguous)
    (hold : old.Unambiguous) (hr : old.Renames new s w v) (hv : s.Admits v) (hw : s.Admits w)
    (hshows : e.view s = s.shown (some w)) :
    ∃ p', p.updateProps id new old = .ok p' ∧ ∃ e', p'.document.element? id = some e' ∧
      (e'.view s = s.shown (some v) ↔ s.Outlasts v w) := by
  obtain ⟨p', hp', hrebound⟩ := updateProps_rebound hid new old
  exact ⟨p', hp', _, hrebound.element? hid,
    Element.view_updateProps_iff hnew hold hr hv hw hshows⟩

/-- Properties with a class and a listener. -/
def dressed : Props :=
  ⟨[("class", .str "a"), ("onClick", .listener ⟨"press"⟩)]⟩

/-- Properties with another class and another listener, both under other names. -/
def redressed : Props :=
  ⟨[("className", .str "b"), ("onclick", .listener ⟨"release"⟩)]⟩

theorem unambiguous_dressed : dressed.Unambiguous ∧ redressed.Unambiguous := by
  constructor <;> constructor
  · exact List.nodup_iff_pairwise_ne.2 (by decide)
  · decide
  · exact fun a ha b hb => by revert a b; decide
  · exact List.nodup_iff_pairwise_ne.2 (by decide)
  · decide
  · exact fun a ha b hb => by revert a b; decide

theorem updateProps_renamed_iff_dressed :
    ∃ p, mount ⟨.new false, .empty⟩ (some (.element "button" dressed [])) none = .ok (1, p) ∧
      p.document.element? 1 = some (.ofProps "button" dressed) ∧
      dressed.Unambiguous ∧ redressed.Unambiguous ∧
      dressed.Renames redressed (.listener "click") (.listener ⟨"press"⟩)
        (.listener ⟨"release"⟩) ∧
      ∃ p', p.updateProps 1 redressed dressed = .ok p' ∧
        ∃ e', p'.document.element? 1 = some e' ∧ e'.listenersFor "click" = [⟨"release"⟩] := by
  obtain ⟨hold, hnew⟩ := unambiguous_dressed
  have hr : dressed.Renames redressed (.listener "click") (.listener ⟨"press"⟩)
      (.listener ⟨"release"⟩) :=
    ⟨"onClick", "onclick", by decide, by decide, by decide, rfl, rfl⟩
  obtain ⟨p, hp, hid⟩ : ∃ p, mount ⟨.new false, .empty⟩ (some (.element "button" dressed [])) none =
      .ok (1, p) ∧ p.document.element? 1 = some (.ofProps "button" dressed) := ⟨_, rfl, rfl⟩
  obtain ⟨p', hp', e', he', hiff⟩ :=
    updateProps_renamed_iff hid hnew hold hr ⟨_, rfl⟩ ⟨_, rfl⟩ rfl
  refine ⟨p, hp, hid, hold, hnew, hr, p', hp', e', he', ?_⟩
  refine SlotView.listeners.inj (hiff.2 fun heq => ?_)
  exact absurd (Value.listener.inj heq) (by decide)

/-- A class that is bound by its other name is lost. -/
theorem not_shown_redressed :
    ∃ p p' e', mount ⟨.new false, .empty⟩ (some (.element "button" dressed [])) none =
        .ok (1, p) ∧ dressed.Unambiguous ∧ redressed.Unambiguous ∧
      dressed.Renames redressed .className (.str "a") (.str "b") ∧
      p.updateProps 1 redressed dressed = .ok p' ∧ p'.document.element? 1 = some e' ∧
      e'.attributes.get? (.ofAttribute "class") = some "" := by
  obtain ⟨hold, hnew⟩ := unambiguous_dressed
  have hr : dressed.Renames redressed .className (.str "a") (.str "b") :=
    ⟨"class", "className", by decide, by decide, by decide, rfl, rfl⟩
  obtain ⟨p, hp, hid⟩ : ∃ p, mount ⟨.new false, .empty⟩ (some (.element "button" dressed [])) none =
      .ok (1, p) ∧ p.document.element? 1 = some (.ofProps "button" dressed) := ⟨_, rfl, rfl⟩
  obtain ⟨p', hp', hrebound⟩ := updateProps_rebound hid redressed dressed
  exact ⟨p, p', _, hp, hold, hnew, hr, hp', hrebound.element? hid, by decide +kernel⟩

end Page

end LiveMarkup
