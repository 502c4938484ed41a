import LiveMarkup.Proofs.Node.Orderly
import LiveMarkup.Proofs.Page.Rendering

/-!
# What portals show

After a rendering the children of the target of every portal should mirror the
children of the portal. They do as long as, from each description to the next,
no target is emptied at a later place than it was filled, and only as long as
that (`Renderer.renderAll_followed_iff`). A portal that moves in front of where
it was breaks this: its children are mounted at the new place and removed with
what stood at the old one.
-/

namespace LiveMarkup

open Document Subtree Node

/-- The children of a live node mirror descriptions. -/
def Document.ShowsUnder (d : Document) (parent : NodeId) (ns : List Node) : Prop :=
  ∃ m ts, d.get? parent = some m ∧ m.children = ts.map Subtree.id ∧
    AllHeld d.get? parent ts ∧ AllMirror ns ts

theorem AllShow.length_eq {R : ElementRel} {ns : List Node} {ts : List Subtree}
    (h : AllShow R ns ts) : ts.length = ns.length := by
  induction ns generalizing ts with
  | nil =>
      rw [allShow_nil_left.1 h]
      rfl
  | cons n ns ih =>
      obtain ⟨t, us, rfl, -, hus⟩ := allShow_cons.1 h
      rw [List.length_cons, List.length_cons, ih hus]

namespace Renderer

/-- After a rendering every portal of the description shows its children inside
its target. -/
def Followed (n : Option Node) (o : Outcome) : Prop :=
  ∀ q ∈ allPortals n.toList, o.page.document.ShowsUnder q.1 q.2

/-- From one description to the next no target is emptied after it was filled. -/
def OrderlyNext (old new : Option Node) : Prop :=
  TargetChange.Orderly (allChanges new.toList old.toList)

variable {parent : NodeId} {S : Set NodeId} {r : Renderer} {p p' : Page} {old new : Option Node}
  {F F' : Forest} {content : NodeId → List Node}

theorem showsUnder_of_follows (hd : p.document.Hosts (insert parent S) F)
    (hf : Follows S F content) {k : NodeId} (hk : k ∈ S) :
    p.document.ShowsUnder k (content k) := by
  obtain ⟨m, hm, hchildren⟩ := hd.host k (Set.mem_insert_of_mem parent hk)
  exact ⟨m, F k, hm, hchildren, hd.held k (Set.mem_insert_of_mem parent hk), hf k hk⟩

/-- A target that shows something holds as much as that. -/
theorem length_of_showsUnder (hd : p.document.Hosts (insert parent S) F)
    (hf : Follows S F content) {k : NodeId} (hk : k ∈ S) {ns : List Node}
    (h : p.document.ShowsUnder k ns) : (content k).length = ns.length := by
  obtain ⟨m, ts, hm, hchildren, -, hts⟩ := h
  obtain ⟨m', hm', hchildren'⟩ := hd.host k (Set.mem_insert_of_mem parent hk)
  have hmm : m = m' := Option.some.inj (hm.symm.trans hm')
  have hlength := congrArg List.length (hchildren.symm.trans (hmm ▸ hchildren'))
  rw [List.length_map, List.length_map, AllShow.length_eq hts,
    AllShow.length_eq (hf k hk)] at hlength
  exact hlength.symm

/-- From a state between two renderings the portals are followed by those to
come just as long as these are orderly. -/
theorem Shown.followed_iff (ns : List (Option Node)) :
    ∀ {r : Renderer} {p : Page} {old : Option Node} {F : Forest}, Shown parent S r p old F →
    (∀ n ∈ ns, (∀ k ∈ allTargets n.toList, k ∈ S) ∧ (allTargets n.toList).Nodup) →
    ((∃ os, r.renderAll p parent ns = .ok os ∧ List.Forall₂ Followed ns os) ↔
      List.IsChain OrderlyNext (old :: ns)) := by
  induction ns with
  | nil => exact fun _ _ => ⟨fun _ => .singleton _, fun _ => ⟨[], rfl, .nil⟩⟩
  | cons n ns ih =>
      intro r p old F hs hns
      obtain ⟨hmem, hnodup⟩ := hns n (List.mem_cons_self ..)
      obtain ⟨p', F', hp', hre⟩ := render_ok hs hmem hnodup
      have hf := hre.follows
      have hnext : OrderlyNext old n → Follows S F' (allInside n.toList) := by
        intro horder k hk
        have hk' := hf k hk
        rwa [applyAll_of_orderly hnodup hs.nodup horder] at hk'
      rw [List.isChain_cons_cons]
      constructor
      · rintro ⟨os, hos, hfollowed⟩
        obtain ⟨os', rfl, hos'⟩ := eq_cons_of_renderAll hp' hos
        obtain ⟨hn, hfollowed'⟩ := List.forall₂_cons.1 hfollowed
        have horder : OrderlyNext old n := by
          refine orderly_of_length hnodup hs.nodup fun q hq => ?_
          have hk : q.1 ∈ S := hmem q.1 (List.mem_map_of_mem hq)
          exact length_of_showsUnder hre.reforested.hosts hf hk (hn q hq)
        have hs' := hs.next hre (hnext horder) hmem hnodup
        exact ⟨horder, (ih hs' fun m hm => hns m (List.mem_cons_of_mem _ hm)).1
          ⟨os', hos', hfollowed'⟩⟩
      · rintro ⟨horder, hchain⟩
        have hs' := hs.next hre (hnext horder) hmem hnodup
        obtain ⟨os, hos, hfollowed⟩ :=
          (ih hs' fun m hm => hns m (List.mem_cons_of_mem _ hm)).2 hchain
        refine ⟨_, renderAll_cons hp' hos, .cons (fun q hq => ?_) hfollowed⟩
        have hk : q.1 ∈ S := hmem q.1 (List.mem_map_of_mem hq)
        have hinside : allInside n.toList q.1 = q.2 := contentOf_of_mem hnodup hq
        rw [← hinside]
        exact showsUnder_of_follows hs'.hosts hs'.follows hk

/-- Portals into live targets that were empty at the start are followed after
every rendering just as long as no target is emptied after it was filled. -/
theorem renderAll_followed_iff (hroot : ∃ n, p.document.get? root = some n)
    (hH : ∀ k ∈ insert parent S, ∃ m, p.document.get? k = some m ∧ m.children = [])
    (hS : parent ∉ S) (hr : r.rendered? parent = none) (ns : List (Option Node))
    (hns : ∀ n ∈ ns, (∀ k ∈ allTargets n.toList, k ∈ S) ∧ (allTargets n.toList).Nodup) :
    (∃ os, r.renderAll p parent ns = .ok os ∧ List.Forall₂ Followed ns os) ↔
      List.IsChain OrderlyNext (none :: ns) :=
  (Shown.of_childless hroot hH hS hr).followed_iff ns hns

/-- A page with two elements that have no children: the first is a target, the
second the parent to render into. -/
def stage : Page where
  document :=
    { nodes := ((Slab.empty.insert ⟨root, .document, none, [1, 2]⟩).insert
        ⟨1, .element { name := .ofTag "aside" }, some root, []⟩).insert
          ⟨2, .element { name := .ofTag "main" }, some root, []⟩ }

theorem stage_childless : ∀ k ∈ insert 2 ({1} : Set NodeId),
    ∃ m, stage.document.get? k = some m ∧ m.children = [] := by
  rintro k (rfl | rfl)
  · exact ⟨_, rfl, rfl⟩
  · exact ⟨_, rfl, rfl⟩

/-- An element with a portal behind a text. -/
def portalLast : Node :=
  .element "div" .empty [.text "x", .portal 1 [.text "a"]]

/-- The same element with the portal in front. -/
def portalFirst : Node :=
  .element "div" .empty [.portal 1 [.text "a"], .text "x"]

theorem stage_targets {n : Option Node}
    (hn : n = some portalFirst ∨ n = some portalLast ∨ n = none) :
    (∀ k ∈ allTargets n.toList, k ∈ ({1} : Set NodeId)) ∧ (allTargets n.toList).Nodup := by
  have hone : ([1] : List NodeId).Nodup := by decide
  rcases hn with rfl | rfl | rfl
  · exact ⟨fun k hk => List.mem_singleton.1 hk, hone⟩
  · exact ⟨fun k hk => List.mem_singleton.1 hk, hone⟩
  · exact ⟨fun k hk => (List.not_mem_nil hk).elim, List.nodup_nil⟩

theorem renderAll_followed_stage :
    ∃ os, Renderer.renderAll {} stage 2 [some portalFirst, some portalLast, none] = .ok os ∧
      List.Forall₂ Followed [some portalFirst, some portalLast, none] os := by
  refine (renderAll_followed_iff ⟨_, rfl⟩ stage_childless (by decide) rfl _ ?_).2 ?_
  · intro n hn
    apply stage_targets
    simpa using hn
  · refine .cons_cons ?_ (.cons_cons ?_ (.cons_cons ?_ (.singleton _)))
    · exact List.pairwise_singleton _ _
    · refine List.pairwise_pair.2 fun k ns he => ?_
      cases he
    · exact List.pairwise_singleton _ _

/-- A portal that moves in front of where it was loses its children: they are
mounted at the new place and then removed with the old one. -/
theorem not_followed_portalFirst :
    ¬ ∃ os, Renderer.renderAll {} stage 2 [some portalLast, some portalFirst] = .ok os ∧
      List.Forall₂ Followed [some portalLast, some portalFirst] os := by
  have hs := Shown.of_childless (r := {}) (p := stage) ⟨_, rfl⟩ stage_childless (by decide) rfl
  have htargets : ∀ n ∈ [some portalLast, some portalFirst],
      (∀ k ∈ allTargets n.toList, k ∈ ({1} : Set NodeId)) ∧ (allTargets n.toList).Nodup := by
    intro n hn
    apply stage_targets
    simp only [List.mem_cons, List.not_mem_nil, or_false] at hn
    tauto
  rw [hs.followed_iff _ htargets]
  intro hchain
  have horder := (List.isChain_cons_cons.1 (List.isChain_cons_cons.1 hchain).2).1
  -- the target is filled first and emptied after that
  exact List.pairwise_pair.1 horder 1 [.text "a"] rfl (List.cons_ne_nil _ _) rfl

end Renderer

end LiveMarkup
