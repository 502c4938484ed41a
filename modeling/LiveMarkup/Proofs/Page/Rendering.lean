import LiveMarkup.Page.Render
import LiveMarkup.Proofs.Document.Count
import LiveMarkup.Proofs.Page.Patch

/-!
# Rendering again and again

A renderer brings what is live under a parent in line with one description after
another. What holds between two renderings is `Renderer.Shown`: the renderer
remembers the last description, the subtrees under the parent mirror it, and the
targets of its portals hold what it asks for. `Renderer.render_ok` is what one
rendering does from there.

Descriptions without portals keep this up for ever, and nothing but the parent's
own subtrees is ever touched (`Renderer.renderAll_inStep`).
-/

namespace LiveMarkup

open Document Subtree Node

/-! ## What the renderer remembers -/

namespace OrderedMap

variable {κ α : Type} [DecidableEq κ]

theorem find?_drop_write (k : κ) (a : α) (es : List (κ × α)) :
    find? k (drop k (write k a es)) = find? k (drop k es) := by
  induction es with
  | nil => simp [write, drop]
  | cons e es ih =>
      by_cases he : e.1 = k
      · rw [write, if_pos he, drop, if_pos rfl, drop, if_pos he]
      · rw [write, if_neg he, drop, if_neg he, drop, if_neg he, find?, find?, ih]

end OrderedMap

namespace Renderer

theorem rendered?_remember_of_ne (r : Renderer) {parent k : NodeId} (h : k ≠ parent)
    (n : Option Node) : (r.remember parent n).rendered? k = r.rendered? k := by
  cases n with
  | none => exact OrderedMap.find?_drop_of_ne (Ne.symm h) _
  | some n => exact (r.slots.get?_insert parent k n).trans (if_neg (Ne.symm h))

/-- Forgetting a parent leaves nothing rendered into it. -/
def Single (r : Renderer) (parent : NodeId) : Prop :=
  (r.forget parent).rendered? parent = none

theorem Single.of_rendered? {r : Renderer} {parent : NodeId} (h : r.rendered? parent = none) :
    r.Single parent := by
  have hslots : r.slots.erase parent = r.slots := OrderedMap.erase_of_get?_eq_none h
  rw [Single, forget, rendered?, hslots]
  exact h

theorem Single.remember {r : Renderer} {parent : NodeId} (h : r.Single parent) (n : Option Node) :
    (r.remember parent n).Single parent := by
  cases n with
  | none => exact .of_rendered? h
  | some n => exact (OrderedMap.find?_drop_write parent n _).trans h

theorem Single.rendered? {r : Renderer} {parent : NodeId} (h : r.Single parent)
    (n : Option Node) : (r.remember parent n).rendered? parent = n := by
  cases n with
  | none => exact h
  | some n => exact (r.slots.get?_insert parent parent n).trans (if_pos rfl)

/-! ## One rendering -/

/-- What holds between two renderings into a parent, with the targets that
portals may have. -/
structure Shown (parent : NodeId) (S : Set NodeId) (r : Renderer) (p : Page) (n : Option Node)
    (F : Forest) : Prop where
  hosts : p.document.Hosts (insert parent S) F
  notMem : parent ∉ S
  rendered : r.rendered? parent = n
  single : r.Single parent
  mirror : AllMirror n.toList (F parent)
  follows : Follows S F (allInside n.toList)
  mem : ∀ k ∈ allTargets n.toList, k ∈ S
  nodup : (allTargets n.toList).Nodup

variable {parent : NodeId} {S : Set NodeId} {r : Renderer} {p : Page} {old new : Option Node}
  {F : Forest}

theorem Shown.ready (hs : Shown parent S r p old F) (hmem : ∀ k ∈ allTargets new.toList, k ∈ S)
    (hnodup : (allTargets new.toList).Nodup) :
    Ready S (allInside old.toList) (allPortals new.toList) (allPortals old.toList)
      (allChanges new.toList old.toList) :=
  ⟨hmem, hnodup, hs.mem, hs.nodup, fun _ _ => List.prefix_rfl, fun _ _ _ => rfl,
    isChange_of_allChanges _ _⟩

/-- Bringing the only child in line is bringing all children in line. -/
theorem update_eq_patchAll (p : Page) (parent live : NodeId) (new : Option Node) (o : Node) :
    p.update parent (some live) new (some o) = p.patchAll parent [live] new.toList [o] := by
  cases new with
  | none =>
      change p.discard live o = (p.discard live o >>= fun q => q.discardAll [] [])
      cases p.discard live o <;> rfl
  | some n =>
      change p.patch live n o = (p.patch live n o >>= fun q => q.patchAll parent [] [] [])
      cases p.patch live n o <;> rfl

/-- A rendering has brought what an old description shows in line with a new one,
and nothing else has changed. -/
structure Rerendered (parent : NodeId) (S : Set NodeId) (new old : Option Node) (p : Page)
    (F : Forest) (p' : Page) (F' : Forest) : Prop where
  reforested : Reforested (insert parent S) p.document F p'.document F'
  patched : AllPatched new.toList old.toList (F parent) (F' parent)
  follows : Follows S F' (TargetChange.applyAll (allInside old.toList)
    (allChanges new.toList old.toList))
  repoints : AllBare new.toList → AllBare old.toList → Repoints p.refs p'.refs
    (allBindings new.toList (F' parent)) (allBindings old.toList (F parent))

theorem showIn_none_ok (hs : Shown parent S r p none F) (hmem : ∀ k ∈ allTargets new.toList, k ∈ S)
    (hnodup : (allTargets new.toList).Nodup) :
    ∃ p' F', r.showIn p new parent = .ok (((F' parent).map Subtree.id).head?, p') ∧
      Rerendered parent S new none p F p' F' := by
  have hF : F parent = [] := allShow_nil_left.1 hs.mirror
  cases new with
  | none =>
      refine ⟨p, F, ?_, .refl hs.hosts, ?_, hs.follows, fun _ _ => ?_⟩
      · rw [showIn, hs.rendered, hF]
        rfl
      · rw [hF]
        exact .nil
      · exact .keep p.refs _
  | some n =>
      have hr : Ready S (allInside []) (n.portals ++ []) ([] ++ [])
        (TargetChange.coming n.portals ++ []) := hs.ready hmem hnodup
      obtain ⟨p', t, F', hp', hre, hF', ht, hf', -, hb⟩ := Page.mount_ok hs.hosts hs.notMem
        hs.follows (hr.head fun c hc => isChange_of_coming hc)
      refine ⟨p', F', ?_, hre, ?_, ?_, fun hbare _ => ?_⟩
      · rw [showIn, hs.rendered]
        dsimp only
        rw [hp', hF', hF]
        rfl
      · rw [hF', hF]
        exact .more ht .nil
      · rw [Option.toList_some, Option.toList_none, allChanges, TargetChange.applyAll_append]
        exact hf'
      · rw [hF', hF]
        exact (hb hbare.1).bind_bind (.refl p'.refs)

theorem showIn_some_ok {o : Node} (hs : Shown parent S r p (some o) F)
    (hmem : ∀ k ∈ allTargets new.toList, k ∈ S) (hnodup : (allTargets new.toList).Nodup) :
    ∃ p' F', r.showIn p new parent = .ok (((F' parent).map Subtree.id).head?, p') ∧
      Rerendered parent S new (some o) p F p' F' := by
  have hparent : parent ∈ insert parent S := Set.mem_insert parent S
  obtain ⟨p', ts', F', hp', hre, hF', hts', hf', -, hb⟩ := Page.patchAll_ok new.toList [o]
    hs.hosts hs.notMem (List.nil_append _).symm hs.mirror hs.follows (hs.ready hmem hnodup)
  rw [List.nil_append] at hF'
  rw [← hF'] at hts' hb
  refine ⟨p', F', ?_, hre, hts', hf', fun hnew hold =>
    allBindingsIn_of_portals_eq_nil F (F parent) hold.allPortals_eq_nil ▸ hb hnew⟩
  obtain ⟨t, us, hF, -, hus⟩ := allShow_cons.1 hs.mirror
  rw [allShow_nil_left.1 hus] at hF
  rw [hF, List.map_cons, List.map_nil, ← update_eq_patchAll] at hp'
  rw [showIn.eq_def, hs.rendered]
  dsimp only
  rw [hs.hosts.children_eq hparent, Except.ok_bind, hF, List.map_cons, List.head?_cons, hp',
    Except.ok_bind, hre.hosts.children_eq hparent]
  cases new with
  | none =>
      have hnil : F' parent = [] := allShow_nil_left.1 (hts'.mirror hs.mirror)
      rw [hnil]
      rfl
  | some n => rfl

theorem showIn_ok (hs : Shown parent S r p old F) (hmem : ∀ k ∈ allTargets new.toList, k ∈ S)
    (hnodup : (allTargets new.toList).Nodup) :
    ∃ p' F', r.showIn p new parent = .ok (((F' parent).map Subtree.id).head?, p') ∧
      Rerendered parent S new old p F p' F' := by
  cases old with
  | none => exact showIn_none_ok hs hmem hnodup
  | some o => exact showIn_some_ok hs hmem hnodup

theorem render_ok (hs : Shown parent S r p old F) (hmem : ∀ k ∈ allTargets new.toList, k ∈ S)
    (hnodup : (allTargets new.toList).Nodup) :
    ∃ p' F', r.render p new (some parent) =
        .ok (((F' parent).map Subtree.id).head?, r.remember parent new, p') ∧
      Rerendered parent S new old p F p' F' := by
  obtain ⟨p', F', hp', hre⟩ := showIn_ok hs hmem hnodup
  refine ⟨p', F', ?_, hre⟩
  rw [render, hp']
  rfl

/-- After a rendering that leaves under the targets what the portals ask for,
the next one may come. -/
theorem Shown.next (hs : Shown parent S r p old F) {p' : Page} {F' : Forest}
    (hre : Rerendered parent S new old p F p' F') (hf : Follows S F' (allInside new.toList))
    (hmem : ∀ k ∈ allTargets new.toList, k ∈ S) (hnodup : (allTargets new.toList).Nodup) :
    Shown parent S (r.remember parent new) p' new F' :=
  ⟨hre.reforested.hosts, hs.notMem, hs.single.rendered? new, hs.single.remember new,
    hre.patched.mirror hs.mirror, hf, hmem, hnodup⟩

/-- Before the first rendering into a parent without children nothing is shown,
and nothing stands under targets without children. -/
theorem Shown.of_childless (hroot : ∃ n, p.document.get? root = some n)
    (hH : ∀ k ∈ insert parent S, ∃ m, p.document.get? k = some m ∧ m.children = [])
    (hS : parent ∉ S) (hr : r.rendered? parent = none) : Shown parent S r p none fun _ => [] :=
  ⟨.of_childless hroot hH, hS, hr, .of_rendered? hr, trivial, fun _ _ => trivial,
    (fun _ hk => by cases hk), List.nodup_nil⟩

theorem Shown.of_childless_parent {m : LiveNode} (hroot : ∃ n, p.document.get? root = some n)
    (hparent : p.document.get? parent = some m) (hchildren : m.children = [])
    (hr : r.rendered? parent = none) : Shown parent ∅ r p none fun _ => [] := by
  refine .of_childless hroot (fun k hk => ?_) (Set.notMem_empty parent) hr
  obtain rfl : k = parent := hk.resolve_right (Set.notMem_empty k)
  exact ⟨m, hparent, hchildren⟩

/-! ## One rendering after the other -/

/-- What a rendering gives: the live node that stands for the description, the
renderer and the page. -/
structure Outcome where
  live : Option NodeId
  renderer : Renderer
  page : Page

/-- The outcomes of rendering descriptions into a parent one after the other. -/
def renderAll (r : Renderer) (p : Page) (parent : NodeId) :
    List (Option Node) → Except MissingNode (List Outcome)
  | [] => .ok []
  | n :: ns => do
    let (live, r, p) ← r.render p n (some parent)
    return ⟨live, r, p⟩ :: (← r.renderAll p parent ns)

theorem renderAll_cons {r r' : Renderer} {p p' : Page} {parent : NodeId} {n : Option Node}
    {live : Option NodeId} (h : r.render p n (some parent) = .ok (live, r', p'))
    {ns : List (Option Node)} {os : List Outcome} (hs : r'.renderAll p' parent ns = .ok os) :
    r.renderAll p parent (n :: ns) = .ok (⟨live, r', p'⟩ :: os) := by
  rw [renderAll, h, Except.ok_bind]
  dsimp only
  rw [hs]
  rfl

theorem eq_cons_of_renderAll {r r' : Renderer} {p p' : Page} {parent : NodeId} {n : Option Node}
    {live : Option NodeId} (h : r.render p n (some parent) = .ok (live, r', p'))
    {ns : List (Option Node)} {os : List Outcome}
    (hs : r.renderAll p parent (n :: ns) = .ok os) :
    ∃ os', os = ⟨live, r', p'⟩ :: os' ∧ r'.renderAll p' parent ns = .ok os' := by
  rw [renderAll, h, Except.ok_bind] at hs
  dsimp only at hs
  cases hrest : r'.renderAll p' parent ns with
  | error e =>
      rw [hrest] at hs
      cases hs
  | ok os' =>
      rw [hrest] at hs
      cases hs
      exact ⟨os', rfl, rfl⟩

/-- An outcome is in step with the description that was rendered, compared to
what was there before the first rendering: the renderer remembers it, and under
the parent, and nowhere else, stand new nodes that mirror it. -/
structure InStep (r : Renderer) (p : Page) (parent : NodeId) (n : Option Node) (o : Outcome) :
    Prop where
  rendered : o.renderer.rendered? parent = n
  rendered_ne : ∀ k, k ≠ parent → o.renderer.rendered? k = r.rendered? k
  grown : ∃ ts, AllMirror n.toList ts ∧ o.live = (ts.map Subtree.id).head? ∧
    p.document.GrownUnder parent ts o.page.document
  nodeCount : o.page.document.nodeCount = p.document.nodeCount + allSize n.toList

theorem allTargets_eq_nil {n : Option Node} (h : ∀ d ∈ n, d.portals = []) :
    allTargets n.toList = [] := by
  cases n with
  | none => rfl
  | some d =>
      rw [Option.toList_some, allTargets_cons, targets, h d rfl]
      rfl

/-- From a state between two renderings the ones that follow stay in step. -/
theorem Shown.inStep {r₀ : Renderer} {p₀ : Page} (ns : List (Option Node)) :
    ∀ {r : Renderer} {p : Page} {old : Option Node} {F : Forest},
    (∀ n, some n ∈ ns → n.portals = []) → p₀.document.Hosts (insert parent ∅) (fun _ => []) →
    Shown parent ∅ r p old F →
    Reforested (insert parent ∅) p₀.document (fun _ => []) p.document F →
    (∀ k, k ≠ parent → r.rendered? k = r₀.rendered? k) →
    ∃ os, r.renderAll p parent ns = .ok os ∧ List.Forall₂ (InStep r₀ p₀ parent) ns os := by
  induction ns with
  | nil => exact fun _ _ _ _ _ => ⟨[], rfl, .nil⟩
  | cons n ns ih =>
      intro r p old F hns hd hs hre hne
      have hfree : allTargets n.toList = [] :=
        allTargets_eq_nil fun d hd => hns d (by simp [Option.mem_def.1 hd])
      have hmem : ∀ k ∈ allTargets n.toList, k ∈ (∅ : Set NodeId) := by simp [hfree]
      have hnodup : (allTargets n.toList).Nodup := by simp [hfree]
      obtain ⟨p', F', hp', hre'⟩ := render_ok hs hmem hnodup
      have hs' := hs.next hre' (fun k hk => hk.elim) hmem hnodup
      have hne' : ∀ k, k ≠ parent → (r.remember parent n).rendered? k = r₀.rendered? k :=
        fun k hk => (r.rendered?_remember_of_ne hk n).trans (hne k hk)
      obtain ⟨os, hos, hsteps⟩ := ih (fun m hm => hns m (List.mem_cons_of_mem _ hm)) hd hs'
        (hre.trans hre'.reforested) hne'
      have hgrown := (hre.trans hre'.reforested).grownUnder hd
      refine ⟨_, renderAll_cons hp' hos, .cons ⟨hs'.rendered, hne', ?_, ?_⟩ hsteps⟩
      · exact ⟨F' parent, hs'.mirror, rfl, hgrown⟩
      · rw [hgrown.nodeCount, hs'.mirror.length_allIds]

/-- Rendering descriptions without portals into a live parent without children,
which nothing was rendered into before, never fails, and each rendering leaves
the live tree in step with its description. -/
theorem renderAll_inStep {r : Renderer} {p : Page} {parent : NodeId} {m : LiveNode}
    (hroot : ∃ n, p.document.get? root = some n) (hparent : p.document.get? parent = some m)
    (hchildren : m.children = []) (hr : r.rendered? parent = none) (ns : List (Option Node))
    (hns : ∀ n, some n ∈ ns → n.portals = []) :
    ∃ os, r.renderAll p parent ns = .ok os ∧ List.Forall₂ (InStep r p parent) ns os := by
  have hH : ∀ k ∈ insert parent (∅ : Set NodeId), ∃ m, p.document.get? k = some m ∧
      m.children = [] := by
    intro k hk
    obtain rfl : k = parent := hk.resolve_right (Set.notMem_empty k)
    exact ⟨m, hparent, hchildren⟩
  have hs := Shown.of_childless hroot hH (Set.notMem_empty parent) hr
  exact hs.inStep ns hns hs.hosts (.refl hs.hosts) fun _ _ => rfl

theorem renderAll_inStep_root :
    ∃ os, Renderer.renderAll {} ⟨.new false, .empty⟩ root
        [some (.element "p" .empty [.text "a", .element "b" .empty []]), some (.text "c"), none] =
          .ok os ∧
      List.Forall₂ (InStep {} ⟨.new false, .empty⟩ root)
        [some (.element "p" .empty [.text "a", .element "b" .empty []]), some (.text "c"), none]
        os := by
  refine renderAll_inStep ⟨_, rfl⟩ rfl rfl rfl _ fun n hn => ?_
  simp only [List.mem_cons, Option.some.injEq, List.not_mem_nil, or_false, reduceCtorEq] at hn
  rcases hn with rfl | rfl <;> rfl

end Renderer

end LiveMarkup
