import LiveMarkup.Proofs.Node.Portals
import LiveMarkup.Proofs.Page.Refs

/-!
# Refs behind portals

The elements that a portal shows inside its target may have refs as well. Their
live elements stand in the forest under the target, not in the subtree that shows
the description, so the forests are needed to say which ref is to point where
(`Node.bindingsIn`). Without portals these are the bindings in the subtree
(`Node.bindingsIn_of_portals_eq_nil`).
-/

namespace LiveMarkup

open Subtree

namespace Node

mutual

theorem Bare.portals_eq_nil : ∀ {n : Node}, n.Bare → n.portals = []
  | .text _, _ => rfl
  | .element _ _ _, h => AllBare.allPortals_eq_nil h.2

theorem AllBare.allPortals_eq_nil : ∀ {ns : List Node}, AllBare ns → allPortals ns = []
  | [], _ => rfl
  | _ :: _, h => by
      rw [allPortals, Bare.portals_eq_nil h.1, AllBare.allPortals_eq_nil h.2, List.append_nil]

end

mutual

/-- The refs of the elements of a description and of what its portals show, each
with the live element in its place. -/
def bindingsIn (F : Forest) : Node → Subtree → Bindings
  | .text _, _ => []
  | .element _ props cs, t => Bindings.own (Props.ref? props) t.id ++ allBindingsIn F cs t.children
  | .portal target cs, _ => allBindingsIn F cs (F target)
termination_by structural n => n

/-- The refs of the elements of descriptions and of what their portals show, each
with the live element in its place. -/
def allBindingsIn (F : Forest) : List Node → List Subtree → Bindings
  | n :: ns, t :: ts => n.bindingsIn F t ++ allBindingsIn F ns ts
  | _, _ => []
termination_by structural ns => ns

end

variable {F F' : Forest}

@[simp] theorem allBindingsIn_nil_left (F : Forest) (ts : List Subtree) :
    allBindingsIn F [] ts = [] := by
  cases ts <;> rfl

@[simp] theorem allBindingsIn_cons_cons (F : Forest) (n : Node) (ns : List Node) (t : Subtree)
    (ts : List Subtree) :
    allBindingsIn F (n :: ns) (t :: ts) = n.bindingsIn F t ++ allBindingsIn F ns ts :=
  rfl

mutual

theorem bindingsIn_of_portals_eq_nil (F : Forest) : ∀ {n : Node} (t : Subtree), n.portals = [] →
    n.bindingsIn F t = n.bindings t
  | .text _, _, _ => rfl
  | .element _ _ cs, t, h => by
      have hcs : allPortals cs = [] := h
      rw [bindingsIn, bindings, allBindingsIn_of_portals_eq_nil F t.children hcs]

theorem allBindingsIn_of_portals_eq_nil (F : Forest) : ∀ {ns : List Node} (ts : List Subtree),
    allPortals ns = [] → allBindingsIn F ns ts = allBindings ns ts
  | [], ts, _ => by rw [allBindingsIn_nil_left, allBindings_nil_left]
  | _ :: _, [], _ => rfl
  | n :: ns, t :: ts, h => by
      obtain ⟨hn, hns⟩ := List.append_eq_nil_iff.1 h
      rw [allBindingsIn_cons_cons, allBindings_cons_cons, bindingsIn_of_portals_eq_nil F t hn,
        allBindingsIn_of_portals_eq_nil F ts hns]

end

mutual

/-- Only the forests under the targets matter. -/
theorem bindingsIn_congr : ∀ {n : Node} (t : Subtree), (∀ k ∈ n.targets, F' k = F k) →
    n.bindingsIn F' t = n.bindingsIn F t
  | .text _, _, _ => rfl
  | .element _ _ cs, t, h => by
      have hcs : ∀ k ∈ allTargets cs, F' k = F k := h
      rw [bindingsIn, bindingsIn, allBindingsIn_congr t.children hcs]
  | .portal target cs, _, h => by
      rw [bindingsIn, bindingsIn, h target (List.mem_cons_self ..)]
      exact allBindingsIn_congr _ fun k hk => h k (List.mem_cons_of_mem _ hk)

theorem allBindingsIn_congr : ∀ {ns : List Node} (ts : List Subtree),
    (∀ k ∈ allTargets ns, F' k = F k) → allBindingsIn F' ns ts = allBindingsIn F ns ts
  | [], ts, _ => by rw [allBindingsIn_nil_left, allBindingsIn_nil_left]
  | _ :: _, [], _ => rfl
  | n :: ns, t :: ts, h => by
      rw [allTargets_cons] at h
      rw [allBindingsIn_cons_cons, allBindingsIn_cons_cons,
        bindingsIn_congr t fun k hk => h k (List.mem_append_left _ hk),
        allBindingsIn_congr ts fun k hk => h k (List.mem_append_right _ hk)]

end

/-- What stands behind the subtrees that show descriptions does not matter. -/
theorem allBindingsIn_append (F : Forest) (vs : List Subtree) : ∀ {ns : List Node}
    {us : List Subtree}, AllMirror ns us →
    allBindingsIn F ns (us ++ vs) = allBindingsIn F ns us
  | [], [], _ => by rw [allBindingsIn_nil_left, allBindingsIn_nil_left]
  | n :: ns, u :: us, h => by
      rw [List.cons_append, allBindingsIn_cons_cons, allBindingsIn_cons_cons,
        allBindingsIn_append F vs h.2]

mutual

/-- The live elements that a description binds are in its subtree or under its
targets. -/
theorem mem_of_mem_bindingsIn : ∀ {n : Node} {t : Subtree} {q : Ref × NodeId},
    q ∈ n.bindingsIn F t → q.2 ∈ t.ids ∨ ∃ k ∈ n.targets, q.2 ∈ allIds (F k)
  | .text _, _, _, h => nomatch h
  | .element _ _ _, .node _ _ _, _, h => by
      rw [ids_node, List.mem_cons]
      rcases List.mem_append.1 h with h | h
      · exact Or.inl (Or.inl (Bindings.snd_of_mem_own h))
      · exact (mem_of_mem_allBindingsIn h).imp_left Or.inr
  | .portal target _, _, _, h => by
      refine Or.inr ?_
      rcases mem_of_mem_allBindingsIn h with h | ⟨k, hk, h⟩
      · exact ⟨target, List.mem_cons_self .., h⟩
      · exact ⟨k, List.mem_cons_of_mem _ hk, h⟩

theorem mem_of_mem_allBindingsIn : ∀ {ns : List Node} {ts : List Subtree} {q : Ref × NodeId},
    q ∈ allBindingsIn F ns ts → q.2 ∈ allIds ts ∨ ∃ k ∈ allTargets ns, q.2 ∈ allIds (F k)
  | [], ts, _, h => by
      rw [allBindingsIn_nil_left] at h
      cases h
  | _ :: _, [], _, h => nomatch h
  | n :: ns, t :: ts, q, h => by
      rw [allIds_cons, allTargets_cons, List.mem_append]
      rcases List.mem_append.1 h with h | h
      · exact (mem_of_mem_bindingsIn h).imp Or.inl fun ⟨k, hk, hq⟩ =>
          ⟨k, List.mem_append_left _ hk, hq⟩
      · exact (mem_of_mem_allBindingsIn h).imp Or.inr fun ⟨k, hk, hq⟩ =>
          ⟨k, List.mem_append_right _ hk, hq⟩

end

end Node

end LiveMarkup
