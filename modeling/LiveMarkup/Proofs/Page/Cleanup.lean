import LiveMarkup.Proofs.Document.Calls
import LiveMarkup.Proofs.Page.Displayed

/-!
# Nothing is left of portals that go

A live node that shows a description with portals is removed, or brought in line
with a description without portals. After that nothing is left of what the portals
have put elsewhere (`Page.update_cleanedUp`): their targets have no children, the
refs of all elements that are gone point nowhere, and there are as many nodes less as
the old description stood for, but for those that the new one describes.

This holds for portals inside of what other portals show, and wherever the targets
stand, as long as none of them stands above another or above the live node, or below
them.
-/

namespace LiveMarkup

open Document Subtree Node

namespace Node

mutual

/-- How many live nodes a description stands for, with those that its portals show. -/
def count : Node → Nat
  | .text _ => 1
  | .element _ _ cs => 1 + allCount cs
  | .portal _ cs => 1 + allCount cs
termination_by structural n => n

/-- How many live nodes descriptions stand for, with those that their portals show. -/
def allCount : List Node → Nat
  | [] => 0
  | n :: ns => n.count + allCount ns
termination_by structural ns => ns

end

mutual

/-- The refs of the elements of a description and of what its portals show, each with
the live element in its place below a live node or inside a target. -/
def bindingsAt (d : Document) : Node → NodeId → Bindings
  | .text _, _ => []
  | .element _ props cs, live =>
    Bindings.own (Props.ref? props) live ++ allBindingsAt d cs (d.childrenOf live)
  | .portal target cs, _ => allBindingsAt d cs (d.childrenOf target)
termination_by structural n => n

/-- The refs of the elements of descriptions and of what their portals show, each with
the live element in its place. -/
def allBindingsAt (d : Document) : List Node → List NodeId → Bindings
  | n :: ns, live :: lives => n.bindingsAt d live ++ allBindingsAt d ns lives
  | _, _ => []
termination_by structural ns => ns

end

mutual

theorem count_eq : ∀ n : Node, n.count = n.size + (n.portals.map fun q => allSize q.2).sum
  | .text _ => rfl
  | .element _ _ cs => by rw [count, size, portals, allCount_eq cs, Nat.add_assoc]
  | .portal _ cs => by rw [count, size, portals, List.map_cons, List.sum_cons, allCount_eq cs]

theorem allCount_eq : ∀ ns : List Node,
    allCount ns = allSize ns + ((allPortals ns).map fun q => allSize q.2).sum
  | [] => rfl
  | n :: ns => by
      rw [allCount, allSize, allPortals, List.map_append, List.sum_append, count_eq n,
        allCount_eq ns]
      omega

end

/-- In the forests under targets there is what portals hold for them. -/
theorem length_ids_of_follows {ps : Portals} {F : Forest} (hn : (ps.map (·.1)).Nodup)
    (hf : Follows {k | k ∈ ps.map (·.1)} F (contentOf ps)) :
    (F.ids (ps.map (·.1))).length = (ps.map fun q => allSize q.2).sum := by
  rw [Forest.ids, List.length_flatMap, List.map_map]
  congr 1
  refine List.map_congr_left fun q hq => ?_
  have hq' := hf q.1 (List.mem_map_of_mem hq)
  rw [contentOf_of_mem hn hq] at hq'
  exact hq'.length_allIds

mutual

/-- The bindings at a live node are those in the subtree below it and in the forests
under the targets. -/
theorem bindingsAt_eq {d : Document} {F : Forest} : ∀ {n : Node} {t : Subtree}
    {parent : Option NodeId}, t.Held d.get? parent →
    (∀ k ∈ n.targets, d.childrenOf k = (F k).map Subtree.id ∧ AllHeld d.get? k (F k)) →
    n.bindingsAt d t.id = n.bindingsIn F t
  | .text _, _, _, _, _ => rfl
  | .element _ _ cs, t, _, ht, hF => by
      have hcs : ∀ k ∈ allTargets cs, _ := hF
      rw [bindingsAt, bindingsIn, childrenOf_of_get? ht.view_id, allBindingsAt_eq ht.children hcs]
  | .portal target cs, _, _, _, hF => by
      obtain ⟨hchildren, hheld⟩ := hF target (List.mem_cons_self ..)
      rw [bindingsAt, bindingsIn, hchildren,
        allBindingsAt_eq hheld fun k hk => hF k (List.mem_cons_of_mem _ hk)]

theorem allBindingsAt_eq {d : Document} {F : Forest} : ∀ {ns : List Node} {ts : List Subtree}
    {parent : NodeId}, AllHeld d.get? parent ts →
    (∀ k ∈ allTargets ns, d.childrenOf k = (F k).map Subtree.id ∧ AllHeld d.get? k (F k)) →
    allBindingsAt d ns (ts.map Subtree.id) = allBindingsIn F ns ts
  | [], ts, _, _, _ => by
      rw [allBindingsIn_nil_left]
      cases ts <;> rfl
  | _ :: _, [], _, _, _ => rfl
  | n :: ns, t :: ts, _, ht, hF => by
      rw [allTargets_cons] at hF
      rw [List.map_cons, allBindingsAt, allBindingsIn_cons_cons,
        bindingsAt_eq ht.1 fun k hk => hF k (List.mem_append_left _ hk),
        allBindingsAt_eq ht.2 fun k hk => hF k (List.mem_append_right _ hk)]

end

end Node

namespace Page

/-- A child of a parent that showed an old description has been exchanged for what a
new one describes, if there is a new one, with its refs in place. Nothing is left of
what the old one put elsewhere: its targets have no children and its refs, unless
they are used again, point nowhere. All other refs, and all live nodes that stand
neither below the child nor inside a target, are as they were. -/
structure CleanedUp (p : Page) (parent live : NodeId) (i : Nat) (new : Option Node) (old : Node)
    (p' : Page) : Prop where
  shown : ∃ lives, p'.document.get? parent = (p.document.get? parent).map (fun m =>
      { m with children := m.children.take i ++ lives ++ m.children.drop (i + 1) }) ∧
    p'.document.AllShowAt new.toList lives ∧
    ∀ q ∈ allBindingsAt p'.document new.toList lives, p'.current q.1 = some q.2
  empty : ∀ k ∈ old.targets, p'.document.get? k = (p.document.get? k).map LiveNode.childless
  released : ∀ q ∈ old.bindingsAt p.document live, q.1 ∉ allRefs new.toList →
    p'.current q.1 = none
  untouched : ∀ r, r ∉ (old.bindingsAt p.document live).map (·.1) → r ∉ allRefs new.toList →
    p'.current r = p.current r
  nodeCount : p'.document.nodeCount + old.count = p.document.nodeCount + allCount new.toList
  same : ∀ k, p.document.Live k → k ≠ parent →
    (∀ l ∈ live :: old.targets, ¬p.document.Above l k) → p'.document.get? k = p.document.get? k

variable {p : Page} {parent live : NodeId} {i : Nat} {new : Option Node} {old : Node}

/-- An attached live node shows a description whose portals have targets apart from it
and from each other, and the refs of the description point at their elements, so no
two elements have one ref. Then bringing the live node in line with a description
without portals, or with none, never fails, and it cleans up all that the portals
have put elsewhere. -/
theorem update_cleanedUp (hd : p.document.WellFormed) (hp : p.refs.Distinct)
    (hlive : p.document.at? parent [i] = some live) (hshows : p.document.ShowsAt old live)
    (hapart : p.document.Apart (live :: old.targets))
    (hpoints : ∀ q ∈ old.bindingsAt p.document live, p.current q.1 = some q.2)
    (hnew : AllBare new.toList) (hrefs : (allRefs new.toList).Nodup) :
    ∃ p', p.update parent (some live) new (some old) = .ok p' ∧
      CleanedUp p parent live i new old p' := by
  obtain ⟨t, F, rfl, hs, habove⟩ := hd.exists_displays hlive hshows hapart
  have hfree := hnew.allPortals_eq_nil
  have hold : old.bindingsAt p.document t.id = old.bindingsIn F t := by
    refine bindingsAt_eq hs.held fun k hk => ?_
    have hk' : k ∈ t.id :: old.targets := List.mem_cons_of_mem _ hk
    obtain ⟨m, hm, hchildren⟩ := hs.hosts.host k hk'
    exact ⟨(childrenOf_of_get? hm).trans hchildren, hs.hosts.held k hk'⟩
  obtain ⟨p', us, hp', hm, hexchanged, hb⟩ := update_exchanged hs hfree
  have hkeys := keys_allBindings hm
  have hre := hb hnew hp (hkeys ▸ hrefs) fun q hq _ => hpoints q (hold ▸ hq)
  have hrest : ∀ r, r ∉ allRefs new.toList →
      p'.current r = (old.bindingsIn F t).released r (p.current r) := fun r hr =>
    hre.rest r (hkeys.symm ▸ hr)
  refine ⟨p', hp', ?_⟩
  constructor
  case shown =>
    refine ⟨us.map Subtree.id, hexchanged.parent_eq,
      allShowAt_of_allMirror hexchanged.held hfree hm, fun q hq => hre.bound q ?_⟩
    rw [allBindingsAt_eq (F := F) hexchanged.held (by simp [allTargets, hfree]),
      allBindingsIn_of_portals_eq_nil F us hfree] at hq
    exact hq
  case empty => exact hexchanged.empty
  case released =>
    intro q hq hr
    rw [hrest q.1 hr, hpoints q hq]
    exact Bindings.released_of_mem (hold ▸ hq)
  case untouched =>
    intro r hr hr'
    rw [hrest r hr']
    exact Bindings.released_of_notMem_keys (hold ▸ hr) _
  case nodeCount =>
    have hcount := hexchanged.nodeCount
    have hids := length_ids_of_follows (List.nodup_cons.1 hs.nodup).2 hs.follows
    rw [List.length_append, hs.mirrors.length_ids, hm.length_allIds] at hcount
    rw [count_eq, allCount_eq, hfree, ← hids]
    exact hcount
  case same =>
    intro k hk hne hout
    refine hexchanged.same k hk hne (fun hmem => hout k (List.mem_cons_of_mem _ hmem) .refl) ?_
    rw [List.mem_append, not_or, Forest.mem_ids]
    refine ⟨fun hkt => ?_, fun hkF => ?_⟩
    · rcases hs.mem_ids_iff.1 hkt with rfl | hkF
      · exact hout t.id (List.mem_cons_self ..) .refl
      · exact hout t.id (List.mem_cons_self ..) (habove t.id (List.mem_cons_self ..) k hkF)
    · obtain ⟨l, hl, hkl⟩ := hkF
      exact hout l (List.mem_cons_of_mem _ hl) (habove l (List.mem_cons_of_mem _ hl) k hkl)

/-- Calls that make an element with a place for a portal, and next to it a target with
an element that has a place for another portal, and the target of that one. -/
def scattering : List TreeCall :=
  [.createElement (.ofTag "aside"), .createElement (.ofTag "nav"), .createElement (.ofTag "div"),
    .createComment, .createElement (.ofTag "p"), .createText "a", .createComment, .createText "b",
    .append 5 [6, 7], .append 1 [5], .append 2 [8], .append 3 [4], .append root [3, 2, 1]]

/-- The page that the calls make, with a ref that points at the element inside the first
target. -/
def scene : Page where
  document :=
    { nodes := ((((((((Slab.empty.insert ⟨root, .document, none, [3, 2, 1]⟩).insert
        ⟨1, .element { name := .ofTag "aside" }, some root, [5]⟩).insert
          ⟨2, .element { name := .ofTag "nav" }, some root, [8]⟩).insert
            ⟨3, .element { name := .ofTag "div" }, some root, [4]⟩).insert
              ⟨4, .comment, some 3, []⟩).insert
                ⟨5, .element { name := .ofTag "p" }, some 1, [6, 7]⟩).insert
                  ⟨6, .text "a", some 5, []⟩).insert ⟨7, .comment, some 5, []⟩).insert
                    ⟨8, .text "b", some 2, []⟩ }
  refs := ⟨[(⟨"r"⟩, 5)]⟩

/-- A description of the first element. Inside of what its portal shows there is another
portal. -/
def scattered : Node :=
  .element "div" .empty [.portal 1
    [.element "p" ⟨[("ref", .ref ⟨"r"⟩)]⟩ [.text "a", .portal 2 [.text "b"]]]]

/-- A description of the first element without portals. -/
def gathered : Node :=
  .element "div" .empty [.element "b" ⟨[("ref", .ref ⟨"s"⟩)]⟩ []]

theorem wellFormed_scene : scene.document.WellFormed := by
  have hadmits : (Document.new false).AdmitsAll scattering :=
    (passes_iff scattering (Document.new false)).1 rfl
  obtain ⟨d, hd, hwf⟩ := WellFormed.performAll scattering (wellFormed_new false) hadmits 13
  have hscene : (Document.new false).performAll scattering = .ok scene.document := rfl
  obtain rfl := Except.ok.inj (hscene.symm.trans hd)
  exact hwf

theorem showsAt_scattered : scene.document.ShowsAt scattered 3 := by
  have ha : scene.document.ShowsAt (.text "a") 6 := ⟨_, rfl, rfl, rfl⟩
  have hb : scene.document.ShowsAt (.text "b") 8 := ⟨_, rfl, rfl, rfl⟩
  have hinner : scene.document.ShowsAt (.portal 2 [.text "b"]) 7 :=
    ⟨⟨_, rfl, rfl, rfl⟩, _, rfl, hb, trivial⟩
  exact ⟨_, _, rfl, rfl, rfl, ⟨⟨_, rfl, rfl, rfl⟩, _, rfl,
    ⟨_, _, rfl, rfl, rfl, ha, hinner, trivial⟩, trivial⟩, trivial⟩

theorem update_cleanedUp_scene :
    scene.document.WellFormed ∧ scene.refs.Distinct ∧ scene.document.at? root [0] = some 3 ∧
      scene.document.ShowsAt scattered 3 ∧ scene.document.Apart (3 :: scattered.targets) ∧
      (∀ q ∈ scattered.bindingsAt scene.document 3, scene.current q.1 = some q.2) ∧
      AllBare [gathered] ∧ (allRefs [gathered]).Nodup ∧
      ∃ p', scene.update root (some 3) (some gathered) (some scattered) = .ok p' ∧
        CleanedUp scene root 3 0 (some gathered) scattered p' := by
  have hrefs : scene.refs.Distinct := List.nodup_singleton _
  have hapart : scene.document.Apart (3 :: scattered.targets) :=
    (wellFormed_scene.apart_iff (by decide)).2 (by decide)
  have hpoints : ∀ q ∈ scattered.bindingsAt scene.document 3, scene.current q.1 = some q.2 := by
    intro q hq
    obtain rfl := List.mem_singleton.1 hq
    rfl
  have hbare : AllBare [gathered] :=
    ⟨⟨List.nodup_nil, ⟨List.nodup_singleton _, trivial⟩, trivial⟩, trivial⟩
  have hnodup : (allRefs [gathered]).Nodup := List.nodup_singleton _
  exact ⟨wellFormed_scene, hrefs, rfl, showsAt_scattered, hapart, hpoints, hbare, hnodup,
    update_cleanedUp wellFormed_scene hrefs rfl showsAt_scattered hapart hpoints hbare hnodup⟩

end Page

end LiveMarkup
