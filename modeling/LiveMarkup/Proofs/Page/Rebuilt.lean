import LiveMarkup.Proofs.Page.Markup
import LiveMarkup.Proofs.Page.Rendering
import LiveMarkup.Proofs.Page.Unchanged

/-!
# Updates that give what mounting gives

Bringing an element in line with new properties need not give the element that mounting
would make: an attribute keeps its place and a field stays set. Where it does for every
element that is kept (`Node.Rebuilds`), the live nodes after a rendering are just those
that mounting makes of the description (`Renderer.Mounted.render`), and a document with
nothing else in it is written as the description is (`Renderer.Mounted.outerMarkup_root`).
-/

namespace LiveMarkup

open Document Subtree Node

/-- Nothing is done to an element for properties that are the same. -/
theorem Element.updateProps_of_same {new old : Props} (h : Props.same new old = true)
    (hn : new.Distinct) (e : Element) : e.updateProps new old = e :=
  e.updateNames_eq_self fun name _ => Props.get?_beq_of_same h hn name

namespace Node

mutual

/-- Whether each element that is kept for a new description becomes what mounting makes
of it. -/
def Rebuilds : Node → Node → Prop
  | .element tag props cs, .element tag' props' cs' =>
    (Node.element tag props cs).mustReplace (.element tag' props' cs') = false →
      (Element.ofProps tag props').updateProps props props' = .ofProps tag props ∧
        AllRebuild cs cs'
  | _, _ => True
termination_by structural n => n

/-- Whether each element that is kept for new descriptions, place by place, becomes what
mounting makes of it. -/
def AllRebuild : List Node → List Node → Prop
  | n :: ns, o :: os => n.Rebuilds o ∧ AllRebuild ns os
  | _, _ => True
termination_by structural ns => ns

end

theorem allRebuild_nil (ns : List Node) : AllRebuild ns [] := by
  cases ns <;> trivial

end Node

mutual

theorem Patched.built : ∀ {new old : Node} {t t' : Subtree}, Patched new old t t' →
    new.Rebuilds old → IsBuiltFor old t → IsBuiltFor new t'
  | _, _, _, _, .replaced _ _ ht, _, _ => ht
  | _, _, _, _, .text, _, h => h
  | _, _, _, _, .element hkeep hcs, hre, h => by
      obtain ⟨⟨e, he, hbuilt⟩, hds⟩ := h
      obtain rfl : _ = e := NodeData.element.inj he
      obtain rfl : _ = Element.ofProps _ _ := hbuilt
      obtain ⟨hupdate, hchildren⟩ := hre hkeep
      exact ⟨⟨_, rfl, hupdate⟩, hcs.built hchildren hds⟩
  | _, _, _, _, .portal, _, h => h

theorem AllPatched.built : ∀ {new old : List Node} {ts ts' : List Subtree},
    AllPatched new old ts ts' → AllRebuild new old → AreBuiltFor old ts → AreBuiltFor new ts'
  | _, _, _, _, .nil, _, _ => trivial
  | _, _, _, _, .cons h hs, hre, hb => ⟨h.built hre.1 hb.1, hs.built hre.2 hb.2⟩
  | _, _, _, _, .more h hs, _, hb => ⟨h, hs.built (allRebuild_nil _) hb⟩

end

namespace Renderer

/-- Under a parent, otherwise as it was, stands what mounting makes of the description
rendered last. -/
structure Mounted (parent : NodeId) (m : LiveNode) (r : Renderer) (p : Page) (n : Option Node)
    (ts : List Subtree) : Prop where
  shown : ∃ F : Forest, Shown parent ∅ r p n F ∧ F parent = ts
  parent_eq : p.document.get? parent = some { m with children := ts.map Subtree.id }
  built : AreBuiltFor n.toList ts

variable {parent : NodeId} {m : LiveNode} {r : Renderer} {p : Page} {n new : Option Node}
  {ts : List Subtree}

namespace Mounted

/-- Before the first rendering nothing stands under a parent without children. -/
theorem of_childless (hroot : ∃ l, p.document.get? root = some l)
    (hparent : p.document.get? parent = some m) (hchildren : m.children = [])
    (hr : r.rendered? parent = none) : Mounted parent m r p none [] := by
  refine ⟨⟨_, .of_childless_parent hroot hparent hchildren hr, rfl⟩, ?_, trivial⟩
  rw [hparent, List.map_nil, ← hchildren]

theorem held (h : Mounted parent m r p n ts) :
    AllHeld p.document.get? parent ts ∧ (parent :: allIds ts).Nodup := by
  obtain ⟨F, hs, rfl⟩ := h.shown
  have hmem : parent ∈ insert parent (∅ : Set NodeId) := Set.mem_insert parent ∅
  have hparent : parent ∉ allIds (F parent) := fun hk => (hs.hosts.notMem_of_mem hmem hk).1 hmem
  exact ⟨hs.hosts.held parent hmem, List.nodup_cons.2 ⟨hparent, hs.hosts.nodup parent hmem⟩⟩

/-- Rendering keeps it so where each element that is kept becomes what mounting makes. -/
theorem render (h : Mounted parent m r p n ts) (hnew : ∀ d ∈ new, d.portals = [])
    (hre : AllRebuild new.toList n.toList) :
    ∃ live p' ts', r.render p new (some parent) = .ok (live, r.remember parent new, p') ∧
      Mounted parent m (r.remember parent new) p' new ts' := by
  obtain ⟨F, hs, rfl⟩ := h.shown
  have hfree := allTargets_eq_nil hnew
  have hmem : ∀ k ∈ allTargets new.toList, k ∈ (∅ : Set NodeId) := by simp [hfree]
  have hnodup : (allTargets new.toList).Nodup := by simp [hfree]
  obtain ⟨p', F', hp', hrerendered⟩ := render_ok hs hmem hnodup
  have hs' := hs.next hrerendered (fun k hk => hk.elim) hmem hnodup
  refine ⟨_, p', F' parent, hp', ⟨F', hs', rfl⟩, ?_, hrerendered.patched.built hre h.built⟩
  have hparent := hrerendered.reforested.get?_host hs.hosts (Set.mem_insert parent ∅) h.parent_eq
  exact hparent

end Mounted

/-! ## Rendering into a document -/

namespace Mounted

variable (h : Mounted root ⟨root, .document, none, []⟩ r p n ts)

include h

/-- The document is its own top node with what is shown below it. -/
theorem held_root : (Subtree.node root .document ts).Held p.document.get? none ∧
    (Subtree.node root .document ts).ids.Nodup :=
  ⟨⟨h.parent_eq, h.held.1⟩, h.held.2⟩

/-- The document is written as the description is. -/
theorem outerMarkup_root (hn : AllFaithful n.toList) :
    p.document.outerMarkup root = childrenMarkup n.toList := by
  obtain ⟨hheld, hnodup⟩ := h.held_root
  have hcapacity := hheld.length_ids_le hnodup
  rw [ids_node, List.length_cons] at hcapacity
  obtain ⟨depth, hdepth⟩ := Nat.exists_eq_add_one.2 (Nat.lt_of_lt_of_le (Nat.succ_pos _) hcapacity)
  rw [hdepth] at hcapacity
  rw [outerMarkup, hdepth, markupWithin, hheld.1]
  exact h.built.join_markupWithin hheld.2 hn (Nat.le_of_succ_le_succ hcapacity)

end Mounted

end Renderer

end LiveMarkup
