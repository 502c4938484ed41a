import LiveMarkup.Proofs.Document.Walk
import LiveMarkup.Proofs.Document.WellFormed
import LiveMarkup.Proofs.Document.Below
import LiveMarkup.Proofs.Value.Distinct
import LiveMarkup.Proofs.Page.Fresh
import LiveMarkup.Proofs.Page.Alias

/-!
# Values that do not count as true

Mounting sets every property to its value, whether it counts as true or not. Updating
unbinds a property whose value no longer counts as true. So an element that was updated
to such a value shows nothing in the slot, and an element that was mounted with it shows
what the slot makes of the value.

The two look alike exactly if that is nothing (`Page.turnFalse_alike_iff`): a style, a
listener, and the class only for the empty text.
-/

namespace LiveMarkup

open Document Subtree Node

/-- A slot shows nothing for a value that does not count as true. -/
def Slot.Ignores : Slot → Value → Prop
  | .className, v => v = .str ""
  | .field _, _ => False
  | .attribute _, _ => False
  | _, _ => True

theorem Number.text_ne_empty_of_not_isTruthy {x : Number}
    (h : (Value.number x).isTruthy = false) : x.text ≠ "" := by
  cases x with
  | nan => decide
  | infinite negative => cases h
  | finite negative m q canonical =>
      have hm : m = 0 := by simpa [Value.isTruthy, isZero] using h
      rw [text, if_pos hm]
      cases negative <;> decide

/-- A slot shows the same for a value that does not count as true as for none exactly
if it ignores the value. -/
theorem Slot.shown_eq_none_iff {v : Value} (hfalse : v.isTruthy = false)
    (hnull : v.isNull = false) (s : Slot) : s.shown none = s.shown (some v) ↔ s.Ignores v := by
  have htext : ∃ t, v.text? = some t ∧ (t = "" ↔ v = .str "") := by
    cases v with
    | bool b => exact ⟨_, rfl, by cases b <;> simp⟩
    | number x => exact ⟨_, rfl, by simp [Number.text_ne_empty_of_not_isTruthy hfalse]⟩
    | str t => exact ⟨t, rfl, by simp⟩
    | null => cases hnull
    | _ => cases hfalse
  obtain ⟨t, ht, hempty⟩ := htext
  cases s with
  | className =>
      rw [shown, shown, Option.bind_some, ht, Ignores, ← hempty]
      simp [eq_comm]
  | «attribute» name =>
      rw [shown, shown, Option.bind_some, ht]
      simp [Ignores]
  | field f =>
      have hfield : FieldValue.ofValue? (some v) ≠ .null := by
        cases v <;> simp_all [FieldValue.ofValue?]
      simpa [shown, Ignores, FieldValue.ofValue?] using hfield.symm
  | style =>
      have hstyle : Style.ofValue? (some v) = Style.ofValue? none := by
        cases v with
        | str t =>
            have ht : t = "" := by simpa [Value.isTruthy] using hfalse
            rw [ht]
            rfl
        | map ds => cases hfalse
        | _ => rfl
      rw [shown, shown, hstyle]
      exact iff_of_true rfl trivial
  | listener event =>
      have hlisteners : Value.listeners (some v) = Value.listeners none := by
        cases v with
        | listener l => cases hfalse
        | _ => rfl
      rw [shown, shown, hlisteners]
      exact iff_of_true rfl trivial
  | key => exact iff_of_true rfl trivial
  | ref => exact iff_of_true rfl trivial

/-- Values that are the same count as true together. -/
theorem Value.isTruthy_eq_of_same {v w : Value} (h : v.same w = true) :
    v.isTruthy = w.isTruthy := by
  cases v with
  | number x =>
      cases w with
      | number y =>
          rcases Bool.or_eq_true_iff.1 h with heq | hzero
          · rw [beq_iff_eq.1 heq]
          · have hxy := Bool.and_eq_true_iff.1 hzero
            rw [isTruthy, isTruthy, hxy.1, hxy.2]
            rfl
      | _ => cases h
  | bool b =>
      cases w with
      | bool c => rw [beq_iff_eq.1 (h : (b == c) = true)]
      | _ => cases h
  | str s =>
      cases w with
      | str t => rw [beq_iff_eq.1 (h : (s == t) = true)]
      | _ => cases h
  | map p =>
      cases p
      cases w <;> first | rfl | cases h
  | _ => cases w <;> first | rfl | cases h

/-! ## One property among others -/

/-- Properties with a value under a name among others. -/
def Props.among (before after : List (String × Value)) (name : String) (v : Value) : Props :=
  ⟨before ++ (name, v) :: after⟩

/-- A property other than the key turns from a value that counts as true to one that
does not and is not null. All properties bind different slots, and the others stay. -/
structure Props.TurnsFalse (before after : List (String × Value)) (name : String) (w v : Value) :
    Prop where
  not_key : name ≠ "key"
  was_true : w.isTruthy = true
  is_false : v.isTruthy = false
  not_null : v.isNull = false
  apart : ((before.map (·.1) ++ name :: after.map (·.1)).map Slot.ofName).Nodup
  distinct : ∀ x ∈ before ++ after, x.2.Distinct

namespace Props

variable {before after : List (String × Value)} {name : String} {w v : Value}

theorem keys_among (v : Value) : (among before after name v).keys =
    before.map (·.1) ++ name :: after.map (·.1) := by
  simp [among, OrderedMap.keys]

theorem get?_among_of_ne {k : String} (h : k ≠ name) (w v : Value) :
    (among before after name v).get? k = (among before after name w).get? k := by
  rw [OrderedMap.get?, OrderedMap.get?, among, among]
  induction before with
  | nil => rw [List.nil_append, List.nil_append, OrderedMap.find?, OrderedMap.find?,
      if_neg (Ne.symm h), if_neg (Ne.symm h)]
  | cons x before ih =>
      rw [List.cons_append, List.cons_append, OrderedMap.find?, OrderedMap.find?]
      split
      · rfl
      · exact ih

theorem bound_among_of_ne {s : Slot} (h : s ≠ Slot.ofName name) (w v : Value) :
    (among before after name v).bound s = (among before after name w).bound s := by
  rw [bound, bound, among, among, List.find?_append, List.find?_append,
    List.find?_cons_of_neg (by simpa using h.symm), List.find?_cons_of_neg (by simpa using h.symm)]

namespace TurnsFalse

theorem nodup_keys (h : TurnsFalse before after name w v) (u : Value) :
    (among before after name u).keys.Nodup := by
  rw [keys_among]
  exact .of_map Slot.ofName h.apart

theorem nodup_slots (h : TurnsFalse before after name w v) (u : Value) :
    ((among before after name u).entries.map fun x => Slot.ofName x.1).Nodup := by
  have hslots := h.apart
  rwa [← keys_among u, OrderedMap.keys, List.map_map] at hslots

theorem get?_among (h : TurnsFalse before after name w v) (u : Value) :
    (among before after name u).get? name = some u :=
  OrderedMap.find?_of_mem (h.nodup_keys u) (List.mem_append_right _ (List.mem_cons_self ..))

theorem bound_among (h : TurnsFalse before after name w v) {u : Value} (hu : u.isNull = false) :
    (among before after name u).bound (Slot.ofName name) = some u := by
  have hkeys := h.apart
  rw [← keys_among u] at hkeys
  have hmem : name ∈ (among before after name u).keys :=
    keys_among u ▸ List.mem_append_right _ (List.mem_cons_self ..)
  rw [bound_ofName fun a ha hs => List.inj_on_of_nodup_map hkeys ha hmem hs, h.get?_among,
    Value.present?, Option.filter_some, hu]
  rfl

/-- Other names have the same value as before. -/
theorem get?_beq (h : TurnsFalse before after name w v) {k : String} (hk : k ≠ name) :
    ((among before after name v).get? k == (among before after name w).get? k) = true := by
  rw [get?_among_of_ne hk w v]
  cases hget : (among before after name w).get? k with
  | none => rfl
  | some u =>
      have hmem := OrderedMap.mem_of_find? hget
      refine Value.same_self (h.distinct (k, u) ?_)
      rcases List.mem_append.1 hmem with hbefore | hrest
      · exact List.mem_append_left _ hbefore
      · rcases List.mem_cons.1 hrest with heq | hafter
        · exact absurd (congrArg Prod.fst heq) hk
        · exact List.mem_append_right _ hafter

theorem mustReplace_eq (h : TurnsFalse before after name w v) (tag : String) (cs : List Node) :
    (Node.element tag (among before after name v) cs).mustReplace
      (.element tag (among before after name w) cs) = false := by
  have hkey := h.get?_beq (Ne.symm h.not_key)
  have hne : (Props.key? (among before after name v) !=
      Props.key? (among before after name w)) = false := by
    rw [bne, key?, key?, hkey]
    rfl
  rw [mustReplace, hne]
  simp

/-- Updating just unbinds the one property. -/
theorem updateProps_eq (h : TurnsFalse before after name w v) (e : Element) :
    e.updateProps (among before after name v) (among before after name w) =
      e.setSlot (.ofName name) none (some w) := by
  have hgone : ((among before after name w).keys.filter fun k =>
      !(among before after name v).contains k) = [] := by
    refine List.filter_eq_nil_iff.2 fun k hk => ?_
    have hk' : k ∈ (among before after name v).keys := by rwa [keys_among] at hk ⊢
    have hget : (among before after name v).get? k ≠ none := fun hnone =>
      (OrderedMap.get?_eq_none_iff _ k).1 hnone hk'
    simpa [OrderedMap.contains, Option.isSome_iff_ne_none] using hget
  obtain ⟨hbefore, hafter⟩ : name ∉ before.map (·.1) ∧ name ∉ after.map (·.1) := by
    have hnodup := h.nodup_keys v
    rw [keys_among, List.nodup_middle, List.nodup_cons, List.mem_append, not_or] at hnodup
    exact hnodup.1
  have hone : e.updateProp (among before after name v) (among before after name w) name =
      e.setSlot (.ofName name) none (some w) := by
    have hne : ¬ (name = "key" ∨ ((among before after name v).get? name ==
        (among before after name w).get? name) = true) := by
      rw [h.get?_among, h.get?_among]
      rintro (hkey | hsame)
      · exact h.not_key hkey
      · have htrue := (Value.isTruthy_eq_of_same hsame).trans h.was_true
        rw [h.is_false] at htrue
        cases htrue
    rw [Element.updateProp, if_neg hne, Element.setProperty, h.get?_among, h.get?_among,
      Value.present?_of_isTruthy h.was_true, Option.filter_some, h.is_false]
    rfl
  rw [Element.updateProps, Page.changedNames, hgone, List.append_nil, keys_among,
    Element.updateNames_append,
    e.updateNames_eq_self fun k hk => h.get?_beq fun heq => hbefore (heq ▸ hk),
    Element.updateNames, hone]
  exact Element.updateNames_eq_self _ fun k hk => h.get?_beq fun heq => hafter (heq ▸ hk)

/-- An element that is updated looks like one made with the value exactly if the slot
ignores it. -/
theorem alike_iff (h : TurnsFalse before after name w v) (tag : String) :
    ((Element.ofProps tag (among before after name w)).updateProps (among before after name v)
        (among before after name w)).Alike (.ofProps tag (among before after name v)) ↔
      (Slot.ofName name).Ignores v := by
  have hwnull : w.isNull = false := by
    have hw := h.was_true
    cases w <;> first | rfl | cases hw
  have hw := Element.fits_ofProps_of_nodup tag (h.nodup_slots w)
  have hv := Element.fits_ofProps_of_nodup tag (h.nodup_slots v)
  have hset := hw.setSlot (rfl : Slot.ofName name = _) none
  rw [h.bound_among hwnull, ← h.updateProps_eq] at hset
  rw [hset.alike_iff hv (by simp), ← Slot.shown_eq_none_iff h.is_false h.not_null]
  constructor
  · intro hshown
    have hslot := hshown (Slot.ofName name) (Slot.ofName_ne name).1
    rwa [Function.update_self, h.bound_among h.not_null] at hslot
  · intro hslot s _
    by_cases hs : s = Slot.ofName name
    · rw [hs, Function.update_self, h.bound_among h.not_null, hslot]
    · rw [Function.update_of_ne hs, bound_among_of_ne hs w v]

end TurnsFalse

end Props

/-! ## On a page -/

namespace Page

variable {p q : Page} {parent parent' : NodeId} {before after : List (String × Value)}
  {name : String} {w v : Value} {cs : List Node}

/-- The element that mounting makes for a description without portals. -/
theorem mount_element (hp : p.document.WellFormed) (hparent : p.document.Live parent) (tag : String)
    (props : Props) (hcs : allPortals cs = []) :
    ∃ id p' ts F, p.mount (some (.element tag props cs)) (some parent) = .ok (id, p') ∧
      p'.document.Hosts (insert parent ∅) F ∧
      (∃ pre, F parent = pre ++ [.node id (.element (.ofProps tag props)) ts]) ∧
      AreBuiltFor cs ts := by
  obtain ⟨F, hhosts⟩ := hp.hosts hparent
  have hfree : (Node.element tag props cs).portals = [] := hcs
  obtain ⟨p', t, F', hp', hre, hF', ht⟩ := mount_plain hhosts hfree
  obtain ⟨id, ts, rfl, hts⟩ := isBuiltFor_element.1 ht
  exact ⟨id, p', ts, F', hp', hre.hosts, ⟨_, hF'⟩, hts⟩

theorem element?_of_hosts {d : Document} {F : Forest} {pre post ts : List Subtree} {id : NodeId}
    {e : Element} (hd : d.Hosts (insert parent ∅) F)
    (hF : F parent = pre ++ .node id (.element e) ts :: post) : d.element? id = some e := by
  have hheld := hd.held_of_eq (Set.mem_insert parent ∅) hF
  exact hheld.element?_of_mem (n := (id, .element e)) (List.mem_cons_self ..)

/-- Mounting an element and updating it so that one property no longer counts as true
makes an element that looks like the one that is mounted with the new value, exactly if
the slot of the property ignores the value. -/
theorem turnFalse_alike_iff (hp : p.document.WellFormed) (hparent : p.document.Live parent)
    (hq : q.document.WellFormed) (hparent' : q.document.Live parent')
    (h : Props.TurnsFalse before after name w v) (tag : String) (hcs : allPortals cs = []) :
    ∃ id p₁ p₂ e,
      p.mount (some (.element tag (Props.among before after name w) cs)) (some parent) =
        .ok (id, p₁) ∧
      p₁.update parent (some id) (some (.element tag (Props.among before after name v) cs))
        (some (.element tag (Props.among before after name w) cs)) = .ok p₂ ∧
      p₂.document.element? id = some e ∧
      ∃ id' q₁ e', q.mount (some (.element tag (Props.among before after name v) cs))
          (some parent') = .ok (id', q₁) ∧
        q₁.document.element? id' = some e' ∧
        (e.Alike e' ↔ (Slot.ofName name).Ignores v) := by
  obtain ⟨id, p₁, ts, F₁, hmount, hhosts, ⟨pre, hF₁⟩, hts⟩ :=
    mount_element hp hparent tag (Props.among before after name w) hcs
  obtain ⟨id', q₁, us, G, hmount', hhosts', ⟨pre', hG⟩, -⟩ :=
    mount_element hq hparent' tag (Props.among before after name v) hcs
  have hmirrors : Mirrors (.element tag (Props.among before after name w) cs)
      (.node id (.element (.ofProps tag (Props.among before after name w))) ts) :=
    Shows.mirrors (isBuiltFor_element.2 ⟨id, ts, rfl, hts⟩)
  have hfree : ∀ u, (Node.element tag (Props.among before after name u) cs).portals = [] :=
    fun _ => hcs
  obtain ⟨p₂, t, F₂, hupdate, hre, hF₂, hpatched⟩ :=
    patch_plain hhosts hF₁ hmirrors (hfree v) (hfree w)
  have hkeep := h.mustReplace_eq tag cs
  cases hpatched with
  | replaced hreplace => exact absurd (hkeep.symm.trans hreplace) Bool.false_ne_true
  | element _ hus =>
      exact ⟨id, p₁, p₂, _, hmount, hupdate, element?_of_hosts hre.hosts hF₂, id', q₁, _, hmount',
        element?_of_hosts hhosts' hG, h.alike_iff tag⟩

/-- A paragraph with a class. -/
def paragraph (c : String) : Node :=
  .element "p" (Props.among [("id", .str "a")] [] "class" (.str c)) [.text "b"]

theorem turnFalse_alike_iff_paragraph :
    (new false).WellFormed ∧ (new false).Live root ∧
      Props.TurnsFalse [("id", .str "a")] [] "class" (.str "c") (.str "") ∧
      ∃ id p₁ p₂ e,
        mount ⟨new false, .empty⟩ (some (paragraph "c")) (some root) = .ok (id, p₁) ∧
        p₁.update root (some id) (some (paragraph "")) (some (paragraph "c")) = .ok p₂ ∧
        p₂.document.element? id = some e ∧
        ∃ id' q₁ e',
          mount ⟨new false, .empty⟩ (some (paragraph "")) (some root) = .ok (id', q₁) ∧
          q₁.document.element? id' = some e' ∧ e.Alike e' := by
  have hlive : (new false).Live root := live_iff.2 ⟨_, rfl⟩
  have h : Props.TurnsFalse [("id", .str "a")] [] "class" (.str "c") (.str "") := by
    constructor
    case apart => exact List.nodup_iff_pairwise_ne.2 (by decide)
    case distinct =>
      intro x hx
      rw [List.mem_singleton.1 hx]
      trivial
    all_goals decide
  have hfree : allPortals [.text "b"] = [] := rfl
  obtain ⟨id, p₁, p₂, e, hmount, hupdate, he, id', q₁, e', hmount', he', hiff⟩ :=
    turnFalse_alike_iff (p := ⟨new false, .empty⟩) (q := ⟨new false, .empty⟩)
      (wellFormed_new false) hlive (wellFormed_new false) hlive h "p" hfree
  exact ⟨wellFormed_new false, hlive, h, id, p₁, p₂, e, hmount, hupdate, he, id', q₁, e',
    hmount', he', hiff.2 rfl⟩

/-- An element with a title that turns false has no title, and one that is mounted with a
false title has one. -/
theorem not_alike_untitled :
    ∃ p₁ p₂ e q₁ e',
      mount ⟨new false, .empty⟩ (some (.element "p" ⟨[("title", .str "a")]⟩ [])) (some root) =
        .ok (1, p₁) ∧
      p₁.update root (some 1) (some (.element "p" ⟨[("title", .bool false)]⟩ []))
        (some (.element "p" ⟨[("title", .str "a")]⟩ [])) = .ok p₂ ∧
      p₂.document.element? 1 = some e ∧
      mount ⟨new false, .empty⟩ (some (.element "p" ⟨[("title", .bool false)]⟩ [])) (some root) =
        .ok (1, q₁) ∧
      q₁.document.element? 1 = some e' ∧
      e.attributes.get? (.ofAttribute "title") = none ∧
      e'.attributes.get? (.ofAttribute "title") = some "false" ∧ ¬ e.Alike e' := by
  refine ⟨_, _, _, _, _, rfl, rfl, rfl, rfl, rfl, rfl, rfl, fun halike => ?_⟩
  exact absurd (halike.attribute_eq (.ofAttribute "title") (by decide)) (by decide)

end Page

end LiveMarkup
