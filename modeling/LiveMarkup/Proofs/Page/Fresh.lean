import LiveMarkup.Proofs.Page.Rendering
import LiveMarkup.Proofs.Page.Sound

/-!
# Renderings that look freshly mounted

A live tree is changed by one rendering after the other, and what its elements
show could depend on all of them. It does not, for descriptions that are sound
and keep the slots of each live element apart: after every rendering the tree
looks like the one that mounting the last description makes of nothing
(`Renderer.renderAll_fresh`).

The invariant is that every live element fits the properties it was last given.
Two elements that fit the same properties look alike.
-/

namespace LiveMarkup

open Document Subtree Node

/-! ## Looking alike -/

/-- Two live elements look alike: they have the same name, attributes, inline
style, fields and listeners. The order of attributes and declarations does not
count, and no class is the empty class. -/
structure Element.Alike (e e' : Element) : Prop where
  name : e.name = e'.name
  attribute_eq : ∀ n, n ≠ .ofAttribute "class" → e.attributes.get? n = e'.attributes.get? n
  className : (e.attributes.get? (.ofAttribute "class")).getD "" =
    (e'.attributes.get? (.ofAttribute "class")).getD ""
  style : ∀ k, e.style.declarations.get? k = e'.style.declarations.get? k
  field : ∀ f, e.field f = e'.field f
  listeners : ∀ event, e.listenersFor event = e'.listenersFor event

theorem Element.Alike.view_eq {e e' : Element} (h : e.Alike e') {s : Slot}
    (hs : s ≠ .attribute "class") : e.view s = e'.view s := by
  cases s with
  | key => rfl
  | ref => rfl
  | className => exact congrArg (SlotView.text ∘ some) h.className
  | style => exact congrArg SlotView.style (funext h.style)
  | field f => exact congrArg SlotView.field (h.field f)
  | listener event => exact congrArg SlotView.listeners (h.listeners event)
  | «attribute» name =>
      refine congrArg SlotView.text (h.attribute_eq _ fun hname => hs ?_)
      exact congrArg Slot.attribute (Name.ofAttribute_injective hname)

/-- Elements that fit properties look alike exactly if their slots show the same. -/
theorem Element.Fits.alike_iff {bound bound' : Slot → Option Value} {e e' : Element}
    (h : e.Fits bound) (h' : e'.Fits bound') (hname : e.name = e'.name) :
    e.Alike e' ↔ ∀ s : Slot, s ≠ .attribute "class" → s.shown (bound s) = s.shown (bound' s) := by
  constructor
  · intro halike s hs
    rw [← h.view_eq s hs, ← h'.view_eq s hs, halike.view_eq hs]
  · intro hshown
    have hview : ∀ s, s ≠ .attribute "class" → e.view s = e'.view s := fun s hs =>
      (h.view_eq s hs).trans ((hshown s hs).trans (h'.view_eq s hs).symm)
    constructor
    case name => exact hname
    case attribute_eq =>
      intro n hn
      by_cases hnull : n.InNullNamespace
      · rw [← hnull] at hn ⊢
        have hclass : Slot.attribute n.localName ≠ .attribute "class" := by
          intro he
          exact hn (congrArg Name.ofAttribute (Slot.attribute.inj he))
        exact SlotView.text.inj (hview _ hclass)
      · rw [h.other n hnull, h'.other n hnull]
    case className => exact Option.some.inj (SlotView.text.inj (hview .className (by simp)))
    case style => exact congrFun (SlotView.style.inj (hview .style (by simp)))
    case field => exact fun f => SlotView.field.inj (hview (.field f) (by simp))
    case listeners => exact fun event => SlotView.listeners.inj (hview (.listener event) (by simp))

theorem Element.Fits.alike {bound : Slot → Option Value} {e e' : Element} (h : e.Fits bound)
    (h' : e'.Fits bound) (hname : e.name = e'.name) : e.Alike e' :=
  (h.alike_iff h' hname).2 fun _ _ => rfl

/-- Two live nodes look alike. -/
def NodeData.Alike : NodeData → NodeData → Prop
  | .element e, .element e' => e.Alike e'
  | d, d' => d = d'

/-- A live element has the name of a tag and fits the properties. -/
def ElementRel.fitting : ElementRel :=
  fun tag props e => e.name = .ofTag tag ∧ e.Fits props.bound

namespace Subtree

mutual

/-- Two subtrees look alike, node by node. -/
def Alike : Subtree → Subtree → Prop
  | .node _ data ts, t' => data.Alike t'.data ∧ AllAlike ts t'.children
termination_by structural t => t

/-- Subtrees look alike one for one. -/
def AllAlike : List Subtree → List Subtree → Prop
  | [], [] => True
  | t :: ts, t' :: ts' => t.Alike t' ∧ AllAlike ts ts'
  | _, _ => False
termination_by structural ts => ts

end

mutual

/-- Subtrees that show one description look alike. -/
theorem Shows.alike : ∀ {n : Node} {t t' : Subtree}, Shows .fitting n t → Shows .fitting n t' →
    t.Alike t'
  | .text s, .node _ data ts, t', h, h' => by
      obtain ⟨rfl, rfl⟩ : data = .text s ∧ ts = [] := h
      rw [Alike, h'.1, h'.2]
      exact ⟨rfl, trivial⟩
  | .element tag props cs, .node _ data ts, t', h, h' => by
      obtain ⟨⟨e, rfl, hname, hfits⟩, hcs⟩ := h
      obtain ⟨⟨e', he', hname', hfits'⟩, hcs'⟩ := h'
      rw [Alike, he']
      exact ⟨hfits.alike hfits' (hname.trans hname'.symm), hcs.alike hcs'⟩
  | .portal _ _, .node _ data ts, t', h, h' => by
      obtain ⟨rfl, rfl⟩ : data = .comment ∧ ts = [] := h
      rw [Alike, h'.1, h'.2]
      exact ⟨rfl, trivial⟩

theorem AllShow.alike : ∀ {ns : List Node} {ts ts' : List Subtree}, AllShow .fitting ns ts →
    AllShow .fitting ns ts' → AllAlike ts ts'
  | [], [], [], _, _ => trivial
  | _ :: _, _ :: _, _ :: _, h, h' => ⟨h.1.alike h'.1, h.2.alike h'.2⟩

end

end Subtree

/-! ## Descriptions whose properties fit -/

namespace Node

mutual

/-- Whether the properties of all elements of a description are sound. -/
def Sound : Node → Prop
  | .text _ => True
  | .element _ props cs => Props.Sound props ∧ AllSound cs
  | .portal _ cs => AllSound cs
termination_by structural n => n

/-- Whether the properties of all elements of descriptions are sound. -/
def AllSound : List Node → Prop
  | [] => True
  | n :: ns => n.Sound ∧ AllSound ns
termination_by structural ns => ns

end

mutual

/-- Whether no live element that is kept for a new description has its slots
bound by two names, one of the old properties and one of the new. -/
def KeepsApart : Node → Node → Prop
  | .element tag props cs, .element tag' props' cs' =>
    (Node.element tag props cs).mustReplace (.element tag' props' cs') = false →
      SlotsApart (props.keys ++ props'.keys) ∧ AllKeepApart cs cs'
  | _, _ => True
termination_by structural n => n

/-- Whether no live element that is kept for new descriptions has its slots
bound by two names. -/
def AllKeepApart : List Node → List Node → Prop
  | n :: ns, o :: os => n.KeepsApart o ∧ AllKeepApart ns os
  | _, _ => True
termination_by structural ns => ns

end

theorem allKeepApart_nil (ns : List Node) : AllKeepApart ns [] := by
  cases ns <;> trivial

end Node

mutual

/-- What mounting makes of a sound description fits it. -/
theorem Subtree.Shows.fitting : ∀ {n : Node} {t : Subtree}, n.Sound → IsBuiltFor n t →
    Shows .fitting n t
  | .text _, _, _, h => h
  | .element tag _ _, _, hn, ⟨⟨e, he, hbuilt⟩, hcs⟩ => by
      obtain rfl : e = _ := hbuilt
      exact ⟨⟨_, he, Element.name_ofProps .., Element.fits_ofProps tag hn.1⟩, hcs.fitting hn.2⟩
  | .portal _ _, _, _, h => h

theorem Subtree.AllShow.fitting : ∀ {ns : List Node} {ts : List Subtree}, AreBuiltFor ns ts →
    Node.AllSound ns → AllShow .fitting ns ts
  | [], [], _, _ => trivial
  | _ :: _, _ :: _, h, hn => ⟨Shows.fitting hn.1 h.1, h.2.fitting hn.2⟩

end

mutual

/-- A subtree whose elements fit the old properties is brought in line so that
they fit the new ones. -/
theorem Patched.fitting : ∀ {new old : Node} {t t' : Subtree}, Patched new old t t' →
    new.Sound → old.Sound → new.KeepsApart old → Shows .fitting old t → Shows .fitting new t'
  | _, _, _, _, .replaced _ _ ht, hn, _, _, _ => ht.fitting hn
  | _, _, _, _, .text, _, _, _, h => h
  | _, _, _, _, .element hkeep hcs, hn, ho, hapart, h => by
      obtain ⟨⟨e, he, hname, hfits⟩, hds⟩ := h
      obtain rfl : _ = e := NodeData.element.inj he
      obtain ⟨hslots, hchildren⟩ := hapart hkeep
      refine ⟨⟨_, rfl, (Element.name_updateProps ..).trans hname, ?_⟩, ?_⟩
      · exact hfits.updateProps hn.1 ho.1 hslots
      · exact hcs.fitting hn.2 ho.2 hchildren hds
  | _, _, _, _, .portal, _, _, _, h => h

theorem AllPatched.fitting : ∀ {new old : List Node} {ts ts' : List Subtree},
    AllPatched new old ts ts' → Node.AllSound new → Node.AllSound old →
    Node.AllKeepApart new old → AllShow .fitting old ts → AllShow .fitting new ts'
  | _, _, _, _, .nil, _, _, _, _ => trivial
  | _, _, _, _, .cons h hs, hn, ho, hapart, hshow =>
      ⟨h.fitting hn.1 ho.1 hapart.1 hshow.1, hs.fitting hn.2 ho.2 hapart.2 hshow.2⟩
  | _, _, _, _, .more h hs, hn, ho, _, hshow =>
      ⟨h.fitting hn.1, hs.fitting hn.2 ho (Node.allKeepApart_nil _) hshow⟩

end

/-! ## One rendering after the other -/

theorem Page.mount_new {d : Node} (h : d.portals = []) (recording : Bool) :
    ∃ p t, Page.mount ⟨.new recording, .empty⟩ (some d) (some root) = .ok (Subtree.id t, p) ∧
      t.Held p.document.get? (some root) ∧ IsBuiltFor d t := by
  have hH : ∀ k ∈ insert root (∅ : Set NodeId),
      ∃ m, (Document.new recording).get? k = some m ∧ m.children = [] := by
    rintro k (rfl | hk)
    · exact ⟨_, rfl, rfl⟩
    · exact hk.elim
  have hs := Renderer.Shown.of_childless (p := ⟨.new recording, .empty⟩) (r := {}) ⟨_, rfl⟩ hH
    (Set.notMem_empty root) rfl
  have hfree : allTargets (some d).toList = [] := Renderer.allTargets_eq_nil fun _ he => by
    rwa [← Option.some.inj he]
  have hmem : ∀ k ∈ allTargets (some d).toList, k ∈ (∅ : Set NodeId) := by simp only [hfree]; simp
  have hnodup : (allTargets (some d).toList).Nodup := by simp only [hfree]; simp
  have hr : Ready ∅ (allInside []) (d.portals ++ []) ([] ++ [])
      (TargetChange.coming d.portals ++ []) := hs.ready hmem hnodup
  obtain ⟨p, t, F, hp, hre, hF, ht, -⟩ := Page.mount_ok hs.hosts hs.notMem hs.follows
    (hr.head fun c hc => isChange_of_coming hc)
  refine ⟨p, t, hp, ?_, ht⟩
  have hheld := hre.hosts.held root (Set.mem_insert root ∅)
  rw [hF] at hheld
  exact hheld.1

namespace Renderer

/-- After a rendering the parent has the live node of the description for its
only child, and what stands there looks like what mounting the description makes
in a document without nodes. -/
structure AsFresh (parent : NodeId) (n : Option Node) (o : Outcome) : Prop where
  live : o.live.isSome = n.isSome
  children : o.page.document.children parent = .ok o.live.toList
  alike : ∀ d ∈ n, ∃ t : Subtree, o.live = some t.id ∧ t.Held o.page.document.get? (some parent) ∧
    ∀ recording, ∃ p t', Page.mount ⟨.new recording, .empty⟩ (some d) (some root) = .ok (Subtree.id t', p) ∧
      t'.Held p.document.get? (some root) ∧ t.Alike t'

/-- Each live element that is kept from one description to the next has its slots
bound by one name. -/
def KeepsApart (old new : Option Node) : Prop :=
  AllKeepApart new.toList old.toList

variable {parent : NodeId} {r : Renderer} {p : Page} {old n : Option Node} {F : Forest}

theorem asFresh_of_fitting (hd : p.document.Hosts (insert parent ∅) F)
    (hshow : AllShow .fitting n.toList (F parent))
    (hn : ∀ d ∈ n, d.portals = [] ∧ d.Sound) (r : Renderer) :
    AsFresh parent n ⟨((F parent).map Subtree.id).head?, r, p⟩ := by
  have hparent : parent ∈ insert parent (∅ : Set NodeId) := Set.mem_insert parent ∅
  have hchildren := hd.children_eq hparent
  have hheld := hd.held parent hparent
  cases n with
  | none =>
      rw [allShow_nil_left.1 hshow] at hchildren ⊢
      refine ⟨rfl, hchildren, fun d hd => ?_⟩
      cases hd
  | some d =>
      obtain ⟨t, ts, hF, ht, hts⟩ := allShow_cons.1 hshow
      obtain rfl : ts = [] := allShow_nil_left.1 hts
      rw [hF] at hchildren hheld ⊢
      refine ⟨rfl, hchildren, ?_⟩
      intro d' hd'
      obtain rfl : d = d' := Option.some.inj hd'
      obtain ⟨hportals, hsound⟩ := hn d rfl
      refine ⟨t, rfl, hheld.1, fun recording => ?_⟩
      obtain ⟨q, t', hq, hheld', ht'⟩ := Page.mount_new hportals recording
      exact ⟨q, t', hq, hheld', ht.alike (ht'.fitting hsound)⟩

/-- From a state between two renderings in which every element fits its
properties, the ones that follow look fresh. -/
theorem Shown.asFresh (ns : List (Option Node)) :
    ∀ {r : Renderer} {p : Page} {old : Option Node} {F : Forest}, Shown parent ∅ r p old F →
    AllShow .fitting old.toList (F parent) → AllSound old.toList →
    (∀ n ∈ ns, ∀ d ∈ n, d.portals = [] ∧ d.Sound) → List.IsChain KeepsApart (old :: ns) →
    ∃ os, r.renderAll p parent ns = .ok os ∧ List.Forall₂ (AsFresh parent) ns os := by
  induction ns with
  | nil => exact fun _ _ _ _ _ => ⟨[], rfl, .nil⟩
  | cons n ns ih =>
      intro r p old F hs hshow hold hns hchain
      obtain ⟨hapart, hchain⟩ := List.isChain_cons_cons.1 hchain
      have hn := hns n (List.mem_cons_self ..)
      have hsound : AllSound n.toList := by
        cases n with
        | none => trivial
        | some d => exact ⟨(hn d rfl).2, trivial⟩
      have hfree := allTargets_eq_nil fun d hd => (hn d hd).1
      have hmem : ∀ k ∈ allTargets n.toList, k ∈ (∅ : Set NodeId) := by simp [hfree]
      have hnodup : (allTargets n.toList).Nodup := by simp [hfree]
      obtain ⟨p', F', hp', hre⟩ := render_ok hs hmem hnodup
      have hs' := hs.next hre (fun k hk => hk.elim) hmem hnodup
      have hshow' := hre.patched.fitting hsound hold hapart hshow
      obtain ⟨os, hos, hfresh⟩ :=
        ih hs' hshow' hsound (fun m hm => hns m (List.mem_cons_of_mem _ hm)) hchain
      exact ⟨_, renderAll_cons hp' hos, .cons (asFresh_of_fitting hs'.hosts hshow' hn _) hfresh⟩

/-- Rendering sound descriptions without portals into a live parent without
children, which nothing was rendered into before, leaves a live tree that looks
freshly mounted after each of them. -/
theorem renderAll_asFresh {m : LiveNode} (hroot : ∃ n, p.document.get? root = some n)
    (hparent : p.document.get? parent = some m) (hchildren : m.children = [])
    (hr : r.rendered? parent = none) (ns : List (Option Node))
    (hns : ∀ n ∈ ns, ∀ d ∈ n, d.portals = [] ∧ d.Sound) (hchain : ns.IsChain KeepsApart) :
    ∃ os, r.renderAll p parent ns = .ok os ∧ List.Forall₂ (AsFresh parent) ns os := by
  have hH : ∀ k ∈ insert parent (∅ : Set NodeId), ∃ m, p.document.get? k = some m ∧
      m.children = [] := by
    intro k hk
    obtain rfl : k = parent := hk.resolve_right (Set.notMem_empty k)
    exact ⟨m, hparent, hchildren⟩
  have hs := Shown.of_childless hroot hH (Set.notMem_empty parent) hr
  refine hs.asFresh ns trivial trivial hns ?_
  cases ns with
  | nil => exact .singleton _
  | cons n ns => exact .cons_cons (allKeepApart_nil _) hchain

/-- An element of a class with a button inside that listens. -/
def plain : Node :=
  .element "p" ⟨[("class", .str "a")]⟩
    [.element "button" ⟨[("onclick", .listener ⟨"l"⟩)]⟩ [.text "go"]]

/-- The same element with an inline style for the class, and the button deaf. -/
def styled : Node :=
  .element "p" ⟨[("style", .map ⟨[("color", .str "red")]⟩)]⟩ [.element "button" .empty []]

theorem sound_plain : plain.Sound :=
  ⟨.single (Or.inl rfl) trivial (fun _ h => nomatch h),
    ⟨.single (Or.inl rfl) trivial (fun _ h => nomatch h), trivial, trivial⟩, trivial⟩

theorem sound_styled : styled.Sound := by
  refine ⟨.single (Or.inl rfl) ⟨trivial, trivial⟩ ?_, ⟨.empty, trivial⟩, trivial⟩
  rintro ds h
  obtain rfl : _ = ds := Value.map.inj h
  exact List.nodup_singleton _

theorem renderAll_asFresh_root :
    ∃ os, Renderer.renderAll {} ⟨.new false, .empty⟩ root [some plain, some styled, some plain] =
        .ok os ∧
      List.Forall₂ (AsFresh root) [some plain, some styled, some plain] os := by
  have hplain : plain.portals = [] ∧ plain.Sound := ⟨rfl, sound_plain⟩
  have hstyled : styled.portals = [] ∧ styled.Sound := ⟨rfl, sound_styled⟩
  refine renderAll_asFresh ⟨_, rfl⟩ rfl rfl rfl _ (fun n hn d hd => ?_) ?_
  · simp only [List.mem_cons, List.not_mem_nil, or_false] at hn
    rcases hn with rfl | rfl | rfl <;> obtain rfl := Option.some.inj hd <;> assumption
  · have hapart : SlotsApart ["class", "style"] ∧ SlotsApart ["style", "class"] ∧
        SlotsApart ["onclick"] := by
      unfold SlotsApart
      decide
    obtain ⟨hcs, hsc, hl⟩ := hapart
    refine .cons_cons ⟨fun _ => ⟨hsc, fun _ => ⟨hl, trivial⟩, trivial⟩, trivial⟩
      (.cons_cons ⟨fun _ => ⟨hcs, fun _ => ⟨hl, trivial⟩, trivial⟩, trivial⟩ (.singleton _))

end Renderer

end LiveMarkup
