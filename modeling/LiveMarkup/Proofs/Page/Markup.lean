import LiveMarkup.Document.Markup
import LiveMarkup.Proofs.Document.Walk
import LiveMarkup.Proofs.Page.Recycled
import LiveMarkup.Proofs.Page.Sound

/-!
# The two markups agree

A description is written as markup in two ways: as it stands (`Node.markup`), or by
mounting it and writing the live node that was made (`Document.outerMarkup`). The two
go different ways, for the second sees attributes, an inline style and fields where
the first sees properties.

For a faithful description (`Node.Faithful`) both give the same text
(`Page.outerMarkup_mount`). What is ruled out are just the places where the two part:
flags and null, fields, a class given twice or without a text, a style which is no map
or stands in front of an attribute, and elements that are written without a closing
tag.
-/

namespace LiveMarkup

open Document Subtree Node

/-! ## Faithful descriptions -/

/-- Whether a value is null, true or false. -/
def Value.isFlag : Value → Bool
  | .null => true
  | .bool _ => true
  | _ => false

/-- Whether a value is a string, a number or a list. -/
def Value.isTextual : Value → Bool
  | .str _ => true
  | .number _ => true
  | .list _ => true
  | _ => false

/-- Whether a property gives a live element an attribute. -/
def Props.writesAttribute (e : String × Value) : Bool :=
  match Slot.ofName e.1 with
  | .className => true
  | .attribute _ => e.2.text?.isSome
  | _ => false

/-- A style is a map of declarations with different names, one of which has a text. -/
def Props.FaithfulStyle (v : Value) : Prop :=
  ∃ ds : Props, v = .map ds ∧ (ds.keys.map Text.kebab).Nodup ∧
    ∃ d ∈ ds.entries, ∃ s, d.2.text? = some s ∧ s ≠ ""

/-- A property that is written the way it is bound, wherever it stands. -/
structure Props.FaithfulEntry (e : String × Value) : Prop where
  no_field : ∀ f : Field, e.1 ≠ f.name
  className : e.1 = "class" ∨ e.1 = "className" → e.2.isTextual = true
  no_flag : e.2.isFlag = true → e.1 = "key" ∨ e.1 = "ref" ∨ namesListener e.1 = true
  style : e.1 = "style" → FaithfulStyle e.2

/-- Properties that are written the way they are bound. -/
structure Props.Faithful (props : Props) : Prop where
  distinct : props.Distinct
  one_class : ¬("class" ∈ props.keys ∧ "className" ∈ props.keys)
  entry : ∀ e ∈ props.entries, FaithfulEntry e
  style_last : props.entries.Pairwise fun e f => e.1 = "style" → writesAttribute f = false

theorem Props.FaithfulEntry.of_ne {name : String} {v : Value} (hfield : ∀ f : Field, name ≠ f.name)
    (hstyle : name ≠ "style")
    (hclass : name = "class" ∨ name = "className" → v.isTextual = true) (hflag : v.isFlag = false) :
    FaithfulEntry (name, v) :=
  ⟨hfield, hclass, fun h => absurd h (Bool.eq_false_iff.1 hflag), fun h => absurd h hstyle⟩

theorem Props.Faithful.empty : Props.Faithful .empty :=
  ⟨List.nodup_nil, (fun h => nomatch h.1), (fun _ h => nomatch h), .nil⟩

theorem Props.Faithful.single {e : String × Value} (h : FaithfulEntry e) :
    Props.Faithful ⟨[e]⟩ := by
  refine ⟨List.nodup_singleton _, ?_, ?_, List.pairwise_singleton _ _⟩
  · rintro ⟨hclass, hclassName⟩
    have hne : "class" ≠ "className" := by decide
    exact hne ((List.mem_singleton.1 hclass).trans (List.mem_singleton.1 hclassName).symm)
  · intro f hf
    exact List.mem_singleton.1 hf ▸ h

namespace Node

mutual

/-- A description without portals whose elements have faithful properties, and children
where their tag asks for none. -/
def Faithful : Node → Prop
  | .text _ => True
  | .element tag props cs =>
    ¬((Name.ofTag tag).localName ∈ voidTags ∧ cs = []) ∧ Props.Faithful props ∧ AllFaithful cs
  | .portal _ _ => False
termination_by structural n => n

/-- Descriptions that are faithful. -/
def AllFaithful : List Node → Prop
  | [] => True
  | n :: ns => n.Faithful ∧ AllFaithful ns
termination_by structural ns => ns

end

mutual

theorem Faithful.portals_eq_nil : ∀ {n : Node}, n.Faithful → n.portals = []
  | .text _, _ => rfl
  | .element _ _ _, h => h.2.2.portals_eq_nil
  | .portal _ _, h => h.elim

theorem AllFaithful.portals_eq_nil : ∀ {ns : List Node}, AllFaithful ns → allPortals ns = []
  | [], _ => rfl
  | n :: ns, h => by rw [allPortals, h.1.portals_eq_nil, h.2.portals_eq_nil, List.append_nil]

end

end Node

/-! ## What a property writes -/

theorem Value.text_of_isTextual {v : Value} (h : v.isTextual = true) :
    v.isFlag = false ∧ ∃ s, v.text? = some s := by
  cases v <;> simp_all [isTextual, isFlag, text?]

theorem Value.present?_of_not_isFlag {v : Value} (h : v.isFlag = false) :
    present? (some v) = some v := by
  cases v <;> first | rfl | cases h

/-- The slot of a name that is no field, with what is known about the name. -/
theorem Slot.ofName_cases {name : String} (hfield : ∀ f : Field, name ≠ f.name) :
    (ofName name = .key ∧ name = "key") ∨ (ofName name = .ref ∧ name = "ref") ∨
      (ofName name = .className ∧ (name = "class" ∨ name = "className")) ∨
      (ofName name = .style ∧ name = "style") ∨
      (ofName name = .listener (eventOf name) ∧ namesListener name = true) ∨
      (ofName name = .attribute name ∧ ¬(name = "key" ∨ name = "ref" ∨ namesListener name = true) ∧
        name ≠ "className" ∧ name ≠ "style") := by
  have hnone : Field.ofName? name = none := by
    cases h : Field.ofName? name with
    | none => rfl
    | some f => exact absurd (Field.name_of_ofName? h).symm (hfield f)
  unfold ofName
  rw [hnone]
  split_ifs <;> simp_all

namespace Style

/-- The declaration that an entry of a map makes, if it has a text. -/
def declaration? (e : String × Value) : Option (String × String) :=
  (declared? e).map (Text.kebab e.1, ·)

theorem entries_set {s : Style} {e : String × Value}
    (h : Text.kebab e.1 ∉ s.declarations.keys) :
    (s.set e.1 (e.2.text?.getD "")).declarations.entries =
      s.declarations.entries ++ (declaration? e).toList := by
  unfold set declaration? declared?
  split
  · rw [OrderedMap.erase_of_get?_eq_none ((OrderedMap.get?_eq_none_iff _ _).2 h)]
    simp
  · exact OrderedMap.write_of_not_mem h _

/-- Entries with different names are declared in order. -/
theorem entries_setAll {es : List (String × Value)} (hn : (es.map fun e => Text.kebab e.1).Nodup)
    {s : Style} (hs : ∀ e ∈ es, Text.kebab e.1 ∉ s.declarations.keys) :
    (es.foldl (fun s e => s.set e.1 (e.2.text?.getD "")) s).declarations.entries =
      s.declarations.entries ++ es.filterMap declaration? := by
  induction es generalizing s with
  | nil => simp
  | cons e es ih =>
      obtain ⟨he, hn⟩ := List.nodup_cons.1 hn
      have hset := entries_set (hs e (List.mem_cons_self ..))
      have hfree : ∀ f ∈ es,
          Text.kebab f.1 ∉ (s.set e.1 (e.2.text?.getD "")).declarations.keys := by
        intro f hf
        have hne : Text.kebab f.1 ≠ Text.kebab e.1 := fun h => he (List.mem_map.2 ⟨f, hf, h⟩)
        have hold := hs f (List.mem_cons_of_mem _ hf)
        rw [OrderedMap.keys, hset, List.map_append, List.mem_append, not_or]
        refine ⟨hold, ?_⟩
        unfold declaration?
        cases declared? e <;> simp [hne]
      rw [List.foldl_cons, ih hn hfree, hset, List.append_assoc]
      cases h : declaration? e <;> simp [h]

/-- A map of declarations with different names gives them in order. -/
theorem entries_ofMap {ds : Props} (hn : (ds.keys.map Text.kebab).Nodup) :
    (ofValue? (some (.map ds))).declarations.entries = ds.entries.filterMap declaration? := by
  have hn' : (ds.entries.map fun e => Text.kebab e.1).Nodup := by
    rwa [OrderedMap.keys, List.map_map] at hn
  exact entries_setAll hn' fun _ _ => List.not_mem_nil

/-- A style map is written as the text of the style that it gives. -/
theorem styleMarkup_eq {ds : Props} (hn : (ds.keys.map Text.kebab).Nodup) :
    styleMarkup ds = (ofValue? (some (.map ds))).text := by
  rw [Style.text, entries_ofMap hn, styleMarkup, List.map_filterMap]
  congr 2
  funext e
  unfold declaration? declared?
  cases e.2.text? with
  | none => rfl
  | some s => by_cases hs : s = "" <;> simp [hs]

theorem isEmpty_ofMap {ds : Props} (hn : (ds.keys.map Text.kebab).Nodup)
    (hd : ∃ d ∈ ds.entries, ∃ s, d.2.text? = some s ∧ s ≠ "") :
    (ofValue? (some (.map ds))).isEmpty = false := by
  obtain ⟨d, hd, s, hs, hne⟩ := hd
  have hmem : (Text.kebab d.1, s) ∈ ds.entries.filterMap declaration? :=
    List.mem_filterMap.2 ⟨d, hd, by simp [declaration?, declared?, hs, hne]⟩
  rw [isEmpty, OrderedMap.isEmpty, entries_ofMap hn]
  exact List.isEmpty_eq_false_iff.2 (List.ne_nil_of_mem hmem)

end Style

/-- The name under which a property is written. -/
def Props.writtenName (name : String) : String :=
  if name = "className" then "class" else name

theorem Props.writtenName_eq_style {name : String} :
    Props.writtenName name = "style" ↔ name = "style" := by
  unfold Props.writtenName
  split <;> simp_all

namespace Element

/-- What stands behind the name in the opening tag of an element. -/
def tagMarkup (e : Element) : String :=
  String.join (e.attributes.entries.map fun a => attributeMarkup a.1.localName a.2) ++
    if e.style.isEmpty then "" else attributeMarkup "style" e.style.text

/-- What binding a property changes in the tag of an element, and what is written for
the property: nothing, one more attribute, or the inline style. -/
inductive Tagged (e : Element) (p : String × Value) (e' : Element) : Prop
  | nothing (attributes : e'.attributes = e.attributes) (style : e'.style = e.style)
      (markup : propMarkup p.1 p.2 = "")
  | attribute (s : String)
      (attributes : e'.attributes.entries =
        e.attributes.entries ++ [(.ofAttribute (Props.writtenName p.1), s)])
      (style : e'.style = e.style) (writes : Props.writesAttribute p = true)
      (markup : propMarkup p.1 p.2 = attributeMarkup (Props.writtenName p.1) s)
  | style (name : p.1 = "style") (attributes : e'.attributes = e.attributes)
      (nonempty : e'.style.isEmpty = false)
      (markup : propMarkup p.1 p.2 = attributeMarkup "style" e'.style.text)

variable {e : Element}

theorem entries_setAttribute {name : String} (hname : name ≠ "style")
    (hfree : .ofAttribute name ∉ e.attributes.keys) (s : String) :
    (e.setAttribute (.ofAttribute name) s).attributes.entries =
      e.attributes.entries ++ [(.ofAttribute name, s)] := by
  have hlocal : (Name.ofAttribute name).localName ≠ "style" := hname
  rw [setAttribute, if_neg hlocal]
  exact OrderedMap.write_of_not_mem hfree s

theorem style_setAttribute {name : String} (hname : name ≠ "style") (s : String) :
    (e.setAttribute (.ofAttribute name) s).style = e.style := by
  have hlocal : (Name.ofAttribute name).localName ≠ "style" := hname
  rw [setAttribute, if_neg hlocal]

theorem clearAttribute_of_not_mem {name : String} (hname : name ≠ "style")
    (hfree : .ofAttribute name ∉ e.attributes.keys) :
    e.clearAttribute (.ofAttribute name) = e := by
  have hlocal : (Name.ofAttribute name).localName ≠ "style" := hname
  rw [clearAttribute, if_neg hlocal,
    OrderedMap.erase_of_get?_eq_none ((OrderedMap.get?_eq_none_iff _ _).2 hfree)]

theorem Tagged.of_setListener (e : Element) {p : String × Value} (event : String)
    (hp : namesListener p.1 = true) (v : Option Value) :
    e.Tagged p (e.setListener event v none) := by
  have hmarkup : propMarkup p.1 p.2 = "" := if_pos (Or.inr (Or.inr hp))
  unfold setListener
  dsimp only
  split
  · unfold addListener addListener?
    split <;> exact .nothing rfl rfl hmarkup
  · exact .nothing rfl rfl hmarkup

/-- A value with a text that is no flag is written as its text. -/
theorem propMarkup_of_text {name : String} {v : Value}
    (hname : ¬(name = "key" ∨ name = "ref" ∨ namesListener name = true)) (hv : v.isFlag = false)
    {s : String} (hs : v.text? = some s) :
    propMarkup name v = attributeMarkup (Props.writtenName name) s := by
  unfold propMarkup Props.writtenName
  rw [if_neg hname]
  cases v <;> simp_all [Value.isFlag, Value.text?]

theorem propMarkup_of_no_text {name : String} {v : Value} (hname : name ≠ "style")
    (hv : v.text? = none) : propMarkup name v = "" := by
  have hstyle : Props.writtenName name ≠ "style" := fun h => hname (Props.writtenName_eq_style.1 h)
  unfold propMarkup
  split
  · rfl
  · cases v with
    | map ds => exact if_neg hstyle
    | _ => simp_all [Value.text?]

theorem setSlot_className {v : Value} {s : String} (h : v.text? = some s) (old : Option Value) :
    e.setSlot .className (some v) old = e.setAttribute (.ofAttribute "class") s := by
  simp [setSlot, h]

theorem setSlot_attribute {v : Value} {s : String} (h : v.text? = some s) (name : String)
    (old : Option Value) :
    e.setSlot (.attribute name) (some v) old = e.setAttribute (.ofAttribute name) s := by
  simp [setSlot, h]

theorem setSlot_attribute_of_no_text {v : Value} (h : v.text? = none) (name : String)
    (old : Option Value) :
    e.setSlot (.attribute name) (some v) old = e.clearAttribute (.ofAttribute name) := by
  simp [setSlot, h]

theorem Tagged.of_setAttribute {p : String × Value} {name s : String}
    (hname : Props.writtenName p.1 = name) (hstyle : name ≠ "style")
    (hfree : .ofAttribute name ∉ e.attributes.keys) (hwrites : Props.writesAttribute p = true)
    (hmarkup : propMarkup p.1 p.2 = attributeMarkup name s) :
    e.Tagged p (e.setAttribute (.ofAttribute name) s) := by
  subst hname
  exact .attribute s (entries_setAttribute hstyle hfree s) (style_setAttribute hstyle s) hwrites
    hmarkup

/-- Binding a faithful property whose attribute is not there yet. -/
theorem tagged_setProperty {p : String × Value} (hp : Props.FaithfulEntry p)
    (hfree : .ofAttribute (Props.writtenName p.1) ∉ e.attributes.keys) :
    e.Tagged p (e.setProperty p.1 (some p.2) none) := by
  obtain ⟨name, v⟩ := p
  rw [setProperty]
  rcases Slot.ofName_cases hp.no_field with ⟨hs, hname⟩ | ⟨hs, hname⟩ | ⟨hs, hname⟩ | ⟨hs, hname⟩ |
    ⟨hs, hname⟩ | ⟨hs, hname, hclass, hstyle⟩ <;> rw [hs]
  · exact .nothing rfl rfl (if_pos (Or.inl hname))
  · exact .nothing rfl rfl (if_pos (Or.inr (Or.inl hname)))
  · obtain ⟨hflag, s, htext⟩ := Value.text_of_isTextual (hp.className hname)
    have hwritten : Props.writtenName name = "class" := by rcases hname with rfl | rfl <;> rfl
    have hplain : ¬(name = "key" ∨ name = "ref" ∨ namesListener name = true) := by
      rcases hname with rfl | rfl <;> decide
    rw [Value.present?_of_not_isFlag hflag, setSlot_className htext]
    exact .of_setAttribute hwritten (by decide) (hwritten ▸ hfree)
      (by simp [Props.writesAttribute, hs]) (hwritten ▸ propMarkup_of_text hplain hflag htext)
  · obtain ⟨ds, rfl, hn, hd⟩ := hp.style hname
    have hmarkup : propMarkup name (.map ds) = attributeMarkup "style" (styleMarkup ds) := by
      subst hname
      rfl
    rw [Value.present?_of_not_isFlag rfl, setSlot, setStyle_eq]
    refine .style hname rfl (Style.isEmpty_ofMap hn hd) ?_
    rw [hmarkup, Style.styleMarkup_eq hn]
  · exact .of_setListener e _ hname _
  · have hflag : v.isFlag = false := by
      by_contra hv
      exact hname (hp.no_flag (Bool.not_eq_false _ ▸ hv))
    have hwritten : Props.writtenName name = name := if_neg hclass
    rw [hwritten] at hfree
    rw [Value.present?_of_not_isFlag hflag]
    cases htext : v.text? with
    | none =>
        rw [setSlot_attribute_of_no_text htext, clearAttribute_of_not_mem hstyle hfree]
        exact .nothing rfl rfl (propMarkup_of_no_text hstyle htext)
    | some s =>
        have hmarkup := propMarkup_of_text hname hflag htext
        rw [hwritten] at hmarkup
        rw [setSlot_attribute htext]
        exact .of_setAttribute hwritten hstyle hfree
          (by simp [Props.writesAttribute, hs, htext]) hmarkup

theorem Tagged.tagMarkup_eq {p : String × Value} {e' : Element} (h : e.Tagged p e')
    (hstyle : e.style.isEmpty = false → p.1 ≠ "style" ∧ Props.writesAttribute p = false) :
    e'.tagMarkup = e.tagMarkup ++ propMarkup p.1 p.2 := by
  unfold tagMarkup
  cases h with
  | nothing hattributes hsame hmarkup => rw [hattributes, hsame, hmarkup, String.append_empty]
  | «attribute» s hattributes hsame hwrites hmarkup =>
      have hempty : e.style.isEmpty = true := by
        by_contra h
        simp [hstyle (by simpa using h)] at hwrites
      rw [hattributes, hsame, hmarkup, hempty]
      simp
  | style hname hattributes hnonempty hmarkup =>
      have hempty : e.style.isEmpty = true := by
        by_contra h
        exact (hstyle (by simpa using h)).1 hname
      rw [hattributes, hmarkup, hempty, hnonempty]
      simp

theorem Tagged.mem_keys {p : String × Value} {e' : Element} (h : e.Tagged p e') {k : Name}
    (hk : k ∈ e'.attributes.keys) :
    k ∈ e.attributes.keys ∨ k = .ofAttribute (Props.writtenName p.1) := by
  unfold OrderedMap.keys at hk ⊢
  cases h with
  | nothing hattributes => exact Or.inl (hattributes ▸ hk)
  | «attribute» s hattributes => simpa [hattributes] using hk
  | style _ hattributes => exact Or.inl (hattributes ▸ hk)

theorem Tagged.name_eq_style {p : String × Value} {e' : Element} (h : e.Tagged p e')
    (hempty : e.style.isEmpty = true) (hnonempty : e'.style.isEmpty = false) : p.1 = "style" := by
  cases h with
  | nothing _ hsame => simp [hsame, hempty] at hnonempty
  | «attribute» _ _ hsame => simp [hsame, hempty] at hnonempty
  | style hname => exact hname

/-- Binding faithful properties one after the other writes them into the tag in order. -/
theorem tagMarkup_setProperties {es : List (String × Value)} (hes : ∀ p ∈ es, Props.FaithfulEntry p)
    (hn : (es.map fun p => Props.writtenName p.1).Nodup)
    (hlast : es.Pairwise fun p q => p.1 = "style" → Props.writesAttribute q = false) :
    ∀ {e : Element}, (∀ p ∈ es, .ofAttribute (Props.writtenName p.1) ∉ e.attributes.keys) →
      (e.style.isEmpty = false → ∀ p ∈ es, p.1 ≠ "style" ∧ Props.writesAttribute p = false) →
      (e.setProperties es).tagMarkup =
        e.tagMarkup ++ String.join (es.map fun p => propMarkup p.1 p.2) := by
  -- The style stands behind the attributes, so what comes after it may add none.
  induction es with
  | nil => simp [setProperties]
  | cons p es ih =>
      intro e hfree hstyle
      obtain ⟨hp, hn⟩ := List.nodup_cons.1 hn
      obtain ⟨hpes, hlast⟩ := List.pairwise_cons.1 hlast
      have hmem : p ∈ p :: es := List.mem_cons_self ..
      have hne : ∀ q ∈ es, Props.writtenName q.1 ≠ Props.writtenName p.1 := fun q hq h =>
        hp (List.mem_map.2 ⟨q, hq, h⟩)
      have htag := tagged_setProperty (hes p hmem) (hfree p hmem)
      have hfree' : ∀ q ∈ es, .ofAttribute (Props.writtenName q.1) ∉
          (e.setProperty p.1 (some p.2) none).attributes.keys := by
        intro q hq hk
        rcases htag.mem_keys hk with hk | hk
        · exact hfree q (List.mem_cons_of_mem _ hq) hk
        · exact hne q hq (congrArg Name.localName hk)
      have hstyle' : (e.setProperty p.1 (some p.2) none).style.isEmpty = false →
          ∀ q ∈ es, q.1 ≠ "style" ∧ Props.writesAttribute q = false := by
        intro hnonempty q hq
        cases hempty : e.style.isEmpty with
        | false => exact hstyle hempty q (List.mem_cons_of_mem _ hq)
        | true =>
            have hname := htag.name_eq_style hempty hnonempty
            refine ⟨fun h => hne q hq ?_, hpes q hq hname⟩
            rw [h, hname]
      have hset : e.setProperties (p :: es) =
          (e.setProperty p.1 (some p.2) none).setProperties es := rfl
      rw [hset, ih (fun q hq => hes q (List.mem_cons_of_mem _ hq)) hn hlast hfree' hstyle',
        htag.tagMarkup_eq fun h => hstyle h p hmem, List.map_cons, String.join_cons,
        String.append_assoc]

theorem nodup_writtenName {props : Props} (h : props.Faithful) :
    (props.keys.map Props.writtenName).Nodup := by
  refine h.distinct.map_on fun a ha b hb hab => ?_
  have hclass := h.one_class
  unfold Props.writtenName at hab
  grind

/-- The opening tag of a new element of faithful properties is written as its description. -/
theorem openingTag_ofProps {tag : String} {props : Props} (h : props.Faithful) :
    openingTag (ofProps tag props) =
      "<" ++ (Name.ofTag tag).localName ++ propsMarkup props ++ ">" := by
  have hn := nodup_writtenName h
  rw [OrderedMap.keys, List.map_map] at hn
  have hmarkup : (ofProps tag props).tagMarkup = propsMarkup props :=
    (tagMarkup_setProperties h.entry hn h.style_last (fun _ _ hk => by cases hk)
      fun hempty => by cases hempty).trans String.empty_append
  rw [← hmarkup, openingTag, name_ofProps, tagMarkup]
  simp only [String.append_assoc]

end Element

/-! ## The markup of a live subtree -/

namespace Subtree

variable {d : Document}

mutual

/-- A live subtree that was made for a faithful description is written as the description,
down to any depth that holds all of it. -/
theorem Shows.markupWithin_eq : ∀ {n : Node} {t : Subtree} {parent : Option NodeId} {depth : Nat},
    IsBuiltFor n t → t.Held d.get? parent → n.Faithful → t.ids.length ≤ depth →
    d.markupWithin depth t.id = n.markup
  | .text s, .node id data ts, parent, depth, ht, hheld, _, hdepth => by
      obtain ⟨rfl, rfl⟩ : data = .text s ∧ ts = [] := ht
      obtain ⟨depth, rfl⟩ := Nat.exists_eq_add_one.2 hdepth
      rw [Subtree.id, markupWithin, hheld.1]
      rfl
  | .element tag props cs, .node id data ts, parent, depth, ht, hheld, hn, hdepth => by
      obtain ⟨⟨e, he, hbuilt⟩, (hcs : AreBuiltFor cs ts)⟩ := ht
      obtain rfl : data = .element e := he
      obtain rfl : e = .ofProps tag props := hbuilt
      obtain ⟨hvoid, hprops, hfaithful⟩ := hn
      rw [ids_node, List.length_cons] at hdepth
      obtain ⟨depth, rfl⟩ := Nat.exists_eq_add_one.2 (Nat.lt_of_lt_of_le (Nat.succ_pos _) hdepth)
      have hinner := hcs.join_markupWithin hheld.2 hfaithful (Nat.le_of_succ_le_succ hdepth)
      have hempty : (ts.map Subtree.id).isEmpty = cs.isEmpty := by
        cases cs <;> cases ts <;> first | rfl | cases hcs
      have hopen : ¬((Name.ofTag tag).localName ∈ voidTags ∧ cs.isEmpty = true) := fun h =>
        hvoid ⟨h.1, List.isEmpty_iff.1 h.2⟩
      rw [Subtree.id, markupWithin, hheld.1]
      dsimp only
      rw [hinner, nodeMarkup, markup]
      dsimp only
      rw [hempty, Element.name_ofProps, if_neg hopen, if_neg hopen,
        Element.openingTag_ofProps hprops]
  | .portal _ _, _, _, _, _, _, hn, _ => hn.elim

theorem AllShow.join_markupWithin : ∀ {ns : List Node} {ts : List Subtree} {parent : NodeId}
    {depth : Nat}, AreBuiltFor ns ts → AllHeld d.get? parent ts → AllFaithful ns →
    (allIds ts).length ≤ depth →
    String.join ((ts.map Subtree.id).map (d.markupWithin depth)) = childrenMarkup ns
  | [], [], _, _, _, _, _, _ => rfl
  | n :: ns, t :: ts, _, depth, ht, hheld, hn, hdepth => by
      rw [allIds_cons, List.length_append] at hdepth
      rw [List.map_cons, List.map_cons, String.join_cons, childrenMarkup,
        ht.1.markupWithin_eq hheld.1 hn.1 (by omega),
        ht.2.join_markupWithin hheld.2 hn.2 (by omega)]

end

/-- A live subtree that was made for a faithful description is written as the description. -/
theorem Shows.outerMarkup_eq {n : Node} {t : Subtree} {parent : Option NodeId}
    (ht : IsBuiltFor n t) (hheld : t.Held d.get? parent) (hnodup : t.ids.Nodup) (hn : n.Faithful) :
    d.outerMarkup t.id = n.markup :=
  ht.markupWithin_eq hheld hn (hheld.length_ids_le hnodup)

end Subtree

/-- Mounting a faithful description in an empty document makes a node that is written as
the description is. -/
theorem Page.outerMarkup_mount {n : Node} (hn : n.Faithful) (recording : Bool)
    (refs : OrderedMap Ref NodeId) (parent : Option NodeId)
    (hparent : parent = none ∨ parent = some root) :
    ∃ id p, Page.mount ⟨.new recording, refs⟩ (some n) parent = .ok (id, p) ∧
      p.document.outerMarkup id = n.markup := by
  have hroot : ∃ l, (Document.new recording).get? root = some l := ⟨_, rfl⟩
  have hportals := hn.portals_eq_nil
  rcases hparent with rfl | rfl
  · obtain ⟨p, t, hp, ht, hheld, hnodup, -⟩ :=
      build_fresh (p := ⟨.new recording, refs⟩) hroot hportals
    refine ⟨t.id, p, ?_, ht.outerMarkup_eq hheld hnodup hn⟩
    rw [mount, hp]
    rfl
  · have hm : (Document.new recording).get? root = some ⟨root, .document, none, []⟩ := rfl
    obtain ⟨t, p, hp, happended, hnodup⟩ :=
      mount_appended (p := ⟨.new recording, refs⟩) hroot hm hportals
    exact ⟨t.id, p, hp, happended.built.outerMarkup_eq happended.held hnodup hn⟩

/-- A heading with a key, a class, a listener, an attribute and a style, and a shape
inside. -/
def heading : Node :=
  .element "h1"
    ⟨[("key", .bool true), ("className", .list [.str "a", .null, .str "b"]),
      ("onClick", .listener ⟨"l"⟩), ("title", .str "say \"x < y\""), ("lang", .map .empty),
      ("style", .map ⟨[("backgroundColor", .str "red"), ("--Gap", .null)]⟩), ("ref", .ref ⟨"r"⟩)]⟩
    [.text "a & b", .element "svg:circle" ⟨[("id", .str "c")]⟩ []]

theorem faithful_heading : heading.Faithful := by
  have hstyle : Props.FaithfulStyle (.map ⟨[("backgroundColor", .str "red"), ("--Gap", .null)]⟩) :=
    ⟨_, rfl, by decide, _, List.mem_cons_self .., "red", rfl, by decide⟩
  have hshape : Props.Faithful ⟨[("id", .str "c")]⟩ :=
    .single (.of_ne (fun f => by cases f <;> decide) (by decide) (by decide) rfl)
  rw [heading, Faithful]
  refine ⟨by simp, ⟨?_, by decide, ?_, ?_⟩, trivial, ⟨by decide, hshape, trivial⟩, trivial⟩
  · unfold OrderedMap.Distinct
    decide
  · simp only [List.forall_mem_cons]
    refine ⟨?_, ?_, ?_, ?_, ?_, ?_, ?_, fun _ h => nomatch h⟩
    all_goals
      refine ⟨fun f => by cases f <;> decide, by decide, by decide, ?_⟩
      first | exact fun _ => hstyle | exact fun h => absurd h (by decide)
  · simp
    decide

theorem outerMarkup_mount_heading :
    ∃ id p, Page.mount ⟨.new true, .empty⟩ (some heading) (some root) = .ok (id, p) ∧
      p.document.outerMarkup id = heading.markup :=
  Page.outerMarkup_mount faithful_heading true .empty (some root) (Or.inr rfl)

example : heading.markup =
    "<h1 class=\"a b\" title=\"say &quot;x &lt; y&quot;\" style=\"background-color: red;\">" ++
      "a &amp; b<circle id=\"c\"></circle></h1>" := by
  rfl

end LiveMarkup
