import LiveMarkup.Proofs.Page.Rendering

/-!
# Refs point at their elements

After every rendering of descriptions without portals each ref of the current
description points at the live element in the place where the description has it,
and the refs that only earlier descriptions have point nowhere
(`Renderer.renderAll_pointed`). It does not matter how refs move between elements
that are kept, replaced, added or removed, as long as no description has one ref
twice.

Places are paths: at each step the place of a child, from a description downwards
or from a live node.
-/

namespace LiveMarkup

open Document Subtree Node

/-! ## Places -/

/-- The part of a description at a path. -/
def Node.at? : Node → List Nat → Option Node
  | n, [] => some n
  | n, i :: path => n.children[i]?.bind fun c => c.at? path

/-- The live node at a path below a live node. -/
def Document.at? (d : Document) : NodeId → List Nat → Option NodeId
  | k, [] => some k
  | k, i :: path => (d.get? k).bind fun m => m.children[i]?.bind fun c => d.at? c path

theorem Document.at?_cons {d : Document} {k c : NodeId} {m : LiveNode} {i : Nat}
    (hm : d.get? k = some m) (hc : m.children[i]? = some c) (path : List Nat) :
    d.at? k (i :: path) = d.at? c path := by
  rw [Document.at?, hm, Option.bind_some, hc, Option.bind_some]

namespace Node

theorem AllBare.of_mem {ns : List Node} {n : Node} (h : AllBare ns) (hn : n ∈ ns) : n.Bare := by
  induction ns with
  | nil => cases hn
  | cons m ns ih =>
      rcases List.mem_cons.1 hn with rfl | hn
      · exact h.1
      · exact ih h.2 hn

theorem exists_getElem?_of_allMirror {n : Node} : ∀ {ns : List Node} {ts : List Subtree} {i : Nat},
    AllMirror ns ts → ns[i]? = some n →
    ∃ t, ts[i]? = some t ∧ Mirrors n t ∧ ∀ q ∈ n.bindings t, q ∈ allBindings ns ts
  | _ :: _, t :: _, 0, hm, hn => by
      cases hn
      exact ⟨t, rfl, hm.1, fun _ => List.mem_append_left _⟩
  | _ :: _, _ :: _, _ + 1, hm, hn => by
      obtain ⟨t, ht, hmt, hq⟩ := exists_getElem?_of_allMirror hm.2 hn
      exact ⟨t, ht, hmt, fun q h => List.mem_append_right _ (hq q h)⟩

/-- In a live subtree that is made like a description each part of the
description has its live node, at the same path and with the same bindings. -/
theorem exists_at?_of_mirrors {d : Document} {part : Node} (path : List Nat) :
    ∀ {n : Node} {t : Subtree} {parent : Option NodeId}, t.Held d.get? parent → Mirrors n t →
    n.Bare → n.at? path = some part →
    ∃ u parent', d.at? t.id path = some (Subtree.id u) ∧ u.Held d.get? parent' ∧ Mirrors part u ∧
      ∀ q ∈ part.bindings u, q ∈ n.bindings t := by
  induction path with
  | nil =>
      intro n t parent ht hm _ hpart
      cases hpart
      exact ⟨t, parent, rfl, ht, hm, fun _ h => h⟩
  | cons i path ih =>
      intro n t parent ht hm hbare hpart
      rw [Node.at?] at hpart
      obtain ⟨c, hc, hbelow⟩ := Option.bind_eq_some_iff.1 hpart
      cases n with
      | text s => cases hc
      | portal target cs => exact hbare.elim
      | element tag props cs =>
          obtain ⟨s, hs, hms, hqs⟩ := exists_getElem?_of_allMirror hm.2 hc
          have hheld := ht.children.mem (List.mem_of_getElem? hs)
          obtain ⟨u, parent', hat, hu, hmu, hq⟩ :=
            ih hheld hms (hbare.2.of_mem (List.mem_of_getElem? hc)) hbelow
          have hchild : (t.children.map Subtree.id)[i]? = some s.id := by
            rw [List.getElem?_map, hs]
            rfl
          refine ⟨u, parent', (Document.at?_cons ht.view_id hchild path).trans hat, hu, hmu, ?_⟩
          exact fun q h => List.mem_append_right _ (hqs q (hq q h))

end Node

/-! ## Between two renderings -/

/-- The refs of a description point at the live elements in their places below
the first child of a parent. -/
def Page.PointsInto (p : Page) (parent : NodeId) (n : Node) : Prop :=
  ∀ path tag props cs r, n.at? path = some (.element tag props cs) → Props.ref? props = some r →
    ∃ id e, p.document.at? parent (0 :: path) = some id ∧ p.document.element? id = some e ∧
      e.name = .ofTag tag ∧ p.current r = some id

namespace Renderer

/-- What the refs point at between two renderings, with the refs `R` that
descriptions may have: the bindings of what is shown are in place, the other refs
of `R` point nowhere, and all others are as they were. -/
structure Bound (R : Set Ref) (p₀ p : Page) (n : Option Node) (ts : List Subtree) : Prop where
  distinct : p.refs.Distinct
  bound : ∀ q ∈ allBindings n.toList ts, p.current q.1 = some q.2
  released : ∀ r ∈ R, r ∉ allRefs n.toList → p.current r = none
  untouched : ∀ r, r ∉ R → p.current r = p₀.current r

variable {R : Set Ref} {parent : NodeId} {r : Renderer} {p₀ p p' : Page} {old new : Option Node}
  {F : Forest} {ts ts' : List Subtree}

/-- A rendering takes the bindings from what was shown to what is shown then. -/
theorem Bound.next (hb : Bound R p₀ p old ts) (hts : AllMirror old.toList ts)
    (hts' : AllMirror new.toList ts') (hnodup : (allRefs new.toList).Nodup)
    (hR : ∀ s ∈ allRefs new.toList, s ∈ R) (hold : ∀ s ∈ allRefs old.toList, s ∈ R)
    (hre : Repoints p.refs p'.refs (allBindings new.toList ts') (allBindings old.toList ts)) :
    Bound R p₀ p' new ts' := by
  have hkeys := keys_allBindings hts
  have hkeys' := keys_allBindings hts'
  have hs := hre hb.distinct (hkeys' ▸ hnodup) fun q hq _ => hb.bound q hq
  have hrest : ∀ s, s ∉ allRefs new.toList →
      p'.current s = (allBindings old.toList ts).released s (p.current s) :=
    fun s hs' => hs.rest s (hkeys'.symm ▸ hs')
  refine ⟨hs.distinct, hs.bound, fun s hsR hs' => ?_, fun s hsR => ?_⟩
  · rw [hrest s hs']
    by_cases hmem : s ∈ allRefs old.toList
    · rw [← hkeys] at hmem
      obtain ⟨q, hq, rfl⟩ := List.mem_map.1 hmem
      rw [hb.bound q hq, Bindings.released_of_mem hq]
    · rw [hb.released s hsR hmem, Bindings.released_none]
  · have hmem : s ∉ (allBindings old.toList ts).map (·.1) := by
      rw [hkeys]
      exact fun h => hsR (hold s h)
    rw [hrest s fun h => hsR (hR s h), Bindings.released_of_notMem_keys hmem, hb.untouched s hsR]

theorem Bound.pointsInto {n : Node} (hb : Bound R p₀ p (some n) (F parent))
    (hd : p.document.Hosts (insert parent ∅) F) (hm : AllMirror [n] (F parent)) (hbare : n.Bare) :
    p.PointsInto parent n := by
  intro path tag props cs s hpart hs
  have hparent : parent ∈ insert parent (∅ : Set NodeId) := Set.mem_insert parent ∅
  obtain ⟨t, us, hF, ht, hus⟩ := allShow_cons.1 hm
  obtain rfl : us = [] := allShow_nil_left.1 hus
  obtain ⟨m, hm, hchildren⟩ := hd.host parent hparent
  have hfirst : m.children[0]? = some t.id := by
    rw [hchildren, hF]
    rfl
  have hheld := hd.held parent hparent
  rw [hF] at hheld
  obtain ⟨u, _, hat, hu, ⟨⟨e, he, hname⟩, -⟩, hq⟩ :=
    exists_at?_of_mirrors path hheld.1 ht hbare hpart
  refine ⟨u.id, e, (at?_cons hm hfirst path).trans hat, ?_, hname, ?_⟩
  · rw [element?, hu.view_id, Option.bind_some, he]
    rfl
  · have hown : (s, u.id) ∈ (Node.element tag props cs).bindings u := by
      rw [bindings, hs]
      exact List.mem_cons_self ..
    refine hb.bound (s, u.id) ?_
    rw [hF]
    exact List.mem_append_left _ (hq _ hown)

/-! ## One rendering after the other -/

/-- After a rendering the refs of the description point at its live elements, the
other refs of `R` point nowhere, and all others where they pointed before the
first rendering. -/
structure Pointed (R : Set Ref) (p : Page) (parent : NodeId) (n : Option Node) (o : Outcome) :
    Prop where
  points : ∀ d ∈ n, o.page.PointsInto parent d
  released : ∀ r ∈ R, r ∉ allRefs n.toList → o.page.current r = none
  untouched : ∀ r, r ∉ R → o.page.current r = p.current r

/-- A description whose refs can be followed: it has no portals, no element of it
two properties of one name, and no ref twice. -/
structure Followable (R : Set Ref) (n : Node) : Prop where
  bare : n.Bare
  nodup : n.refs.Nodup
  mem : ∀ r ∈ n.refs, r ∈ R

theorem Followable.allBare {n : Option Node} (h : ∀ d ∈ n, Followable R d) : AllBare n.toList := by
  cases n with
  | none => trivial
  | some d => exact ⟨(h d rfl).bare, trivial⟩

theorem Followable.nodup_allRefs {n : Option Node} (h : ∀ d ∈ n, Followable R d) :
    (allRefs n.toList).Nodup := by
  cases n with
  | none => exact List.nodup_nil
  | some d =>
      rw [Option.toList_some, allRefs, allRefs, List.append_nil]
      exact (h d rfl).nodup

theorem Followable.mem_of_mem_allRefs {n : Option Node} (h : ∀ d ∈ n, Followable R d) :
    ∀ s ∈ allRefs n.toList, s ∈ R := by
  intro s hs
  cases n with
  | none => cases hs
  | some d =>
      rw [Option.toList_some, allRefs, allRefs, List.append_nil] at hs
      exact (h d rfl).mem s hs

/-- From a state between two renderings the refs keep pointing at their elements. -/
theorem Shown.pointed (ns : List (Option Node)) :
    ∀ {r : Renderer} {p : Page} {old : Option Node} {F : Forest},
    (∀ n ∈ ns, ∀ d ∈ n, Followable R d) → (∀ d ∈ old, Followable R d) →
    Shown parent ∅ r p old F → Bound R p₀ p old (F parent) →
    ∃ os, r.renderAll p parent ns = .ok os ∧ List.Forall₂ (Pointed R p₀ parent) ns os := by
  induction ns with
  | nil => exact fun _ _ _ _ => ⟨[], rfl, .nil⟩
  | cons n ns ih =>
      intro r p old F hns hold hs hb
      have hn := hns n (List.mem_cons_self ..)
      have hfree := allTargets_eq_nil fun d hd => (hn d hd).bare.portals_eq_nil
      have hmem : ∀ k ∈ allTargets n.toList, k ∈ (∅ : Set NodeId) := by simp [hfree]
      have hnodup : (allTargets n.toList).Nodup := by simp [hfree]
      obtain ⟨p', F', hp', hre⟩ := render_ok hs hmem hnodup
      have hs' := hs.next hre (fun k hk => hk.elim) hmem hnodup
      have hb' := hb.next hs.mirror hs'.mirror (Followable.nodup_allRefs hn)
        (Followable.mem_of_mem_allRefs hn) (Followable.mem_of_mem_allRefs hold)
        (hre.repoints (Followable.allBare hn) (Followable.allBare hold))
      obtain ⟨os, hos, hpointed⟩ := ih (fun m hm => hns m (List.mem_cons_of_mem _ hm)) hn hs' hb'
      have hpoints : ∀ d ∈ n, p'.PointsInto parent d := by
        intro d hd
        obtain rfl : n = some d := hd
        exact hb'.pointsInto hs'.hosts hs'.mirror (hn d rfl).bare
      exact ⟨_, renderAll_cons hp' hos, .cons ⟨hpoints, hb'.released, hb'.untouched⟩ hpointed⟩

/-- Rendering descriptions without portals into a live parent without children,
which nothing was rendered into before, with refs that point nowhere at first:
after each rendering the refs of its description point at their live elements,
and no other ref of the descriptions points anywhere. -/
theorem renderAll_pointed {m : LiveNode} (hroot : ∃ n, p.document.get? root = some n)
    (hparent : p.document.get? parent = some m) (hchildren : m.children = [])
    (hr : r.rendered? parent = none) (hp : p.refs.Distinct) (hR : ∀ s ∈ R, p.current s = none)
    (ns : List (Option Node)) (hns : ∀ n, some n ∈ ns → Followable R n) :
    ∃ os, r.renderAll p parent ns = .ok os ∧ List.Forall₂ (Pointed R p parent) ns os := by
  have hs := Shown.of_childless_parent hroot hparent hchildren hr
  have hb : Bound R p p none [] :=
    ⟨hp, fun q hq => (List.not_mem_nil hq).elim, fun s hsR _ => hR s hsR, fun _ _ => rfl⟩
  refine hs.pointed ns (fun n hn d hd => hns d ?_) (fun d hd => ?_) hb
  · rwa [← Option.mem_def.1 hd]
  · cases hd

/-- An element without children that has a ref. -/
def holder (tag r : String) : Node :=
  .element tag ⟨[("ref", .ref ⟨r⟩)]⟩ []

/-- Two refs change places between elements that stay, then one of them moves to
an element that replaces another while the other one is dropped, and at last
nothing is shown. -/
theorem renderAll_pointed_swap :
    ∃ os, Renderer.renderAll {} ⟨.new false, .empty⟩ root
        [some (.element "div" .empty [holder "p" "a", holder "span" "b"]),
          some (.element "div" .empty [holder "p" "b", holder "span" "a"]),
          some (.element "div" .empty [holder "b" "a"]), none] = .ok os ∧
      List.Forall₂ (Pointed {⟨"a"⟩, ⟨"b"⟩} ⟨.new false, .empty⟩ root)
        [some (.element "div" .empty [holder "p" "a", holder "span" "b"]),
          some (.element "div" .empty [holder "p" "b", holder "span" "a"]),
          some (.element "div" .empty [holder "b" "a"]), none] os := by
  refine renderAll_pointed ⟨_, rfl⟩ rfl rfl rfl OrderedMap.distinct_empty (fun _ _ => rfl) _ ?_
  have hbare : ∀ tag r, (holder tag r).Bare := fun _ _ => ⟨List.nodup_singleton _, trivial⟩
  intro n hn
  simp only [List.mem_cons, Option.some.injEq, List.not_mem_nil, or_false, reduceCtorEq] at hn
  rcases hn with rfl | rfl | rfl
  · exact ⟨⟨List.nodup_nil, hbare .., hbare .., trivial⟩, by decide, by decide⟩
  · exact ⟨⟨List.nodup_nil, hbare .., hbare .., trivial⟩, by decide, by decide⟩
  · exact ⟨⟨List.nodup_nil, hbare .., trivial⟩, by decide, by decide⟩

end Renderer

end LiveMarkup
