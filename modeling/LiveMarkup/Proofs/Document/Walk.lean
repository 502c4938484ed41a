import LiveMarkup.Document.Walk
import LiveMarkup.Proofs.Document.Count

/-!
# Looking around in a live subtree

What is found in a live subtree can be read off the subtree itself, with no regard to
the rest of the document: a walk visits its nodes in order (`Subtree.Held.walk_eq`), so
looking for an `id` or for a tag goes through what the nodes are in that order
(`Subtree.Held.elementById?_eq`, `Subtree.Held.elementsByTag_eq`).
-/

namespace LiveMarkup

open Document Subtree

/-- Whether what a node is, is an element with a tag. -/
def NodeData.hasTag (data : NodeData) (name : String) : Bool :=
  data.element?.any fun e => e.name.localName = name

namespace Subtree

mutual

/-- The nodes with what they are, each before those below it. -/
def nodes : Subtree → List (NodeId × NodeData)
  | .node id data cs => (id, data) :: allNodes cs
termination_by structural t => t

/-- The nodes of subtrees that stand next to each other, with what they are. -/
def allNodes : List Subtree → List (NodeId × NodeData)
  | [] => []
  | t :: ts => t.nodes ++ allNodes ts
termination_by structural ts => ts

end

mutual

theorem map_nodes : ∀ t : Subtree, t.nodes.map (·.1) = t.ids
  | .node id _ cs => congrArg (id :: ·) (map_allNodes cs)

theorem map_allNodes : ∀ ts : List Subtree, (allNodes ts).map (·.1) = allIds ts
  | [] => rfl
  | t :: ts => by rw [allNodes, List.map_append, map_nodes t, map_allNodes ts, allIds_cons]

end

mutual

theorem Held.view_of_mem {view : View} : ∀ {t : Subtree} {parent : Option NodeId},
    t.Held view parent → ∀ n ∈ t.nodes, (view n.1).map (·.data) = some n.2
  | .node _ _ _, _, h, n, hn => by
      rcases List.mem_cons.1 hn with rfl | hn
      · rw [h.1]
        rfl
      · exact h.2.view_of_mem n hn

theorem AllHeld.view_of_mem {view : View} : ∀ {ts : List Subtree} {parent : NodeId},
    AllHeld view parent ts → ∀ n ∈ allNodes ts, (view n.1).map (·.data) = some n.2
  | [], _, _, n, hn => by cases hn
  | _ :: _, _, h, n, hn => by
      rcases List.mem_append.1 hn with hn | hn
      · exact h.1.view_of_mem n hn
      · exact h.2.view_of_mem n hn

end

variable {d : Document} {t : Subtree} {parent : Option NodeId}

theorem Held.element?_of_mem (h : t.Held d.get? parent) {n : NodeId × NodeData}
    (hn : n ∈ t.nodes) : d.element? n.1 = n.2.element? := by
  obtain ⟨l, hl, hdata⟩ := Option.map_eq_some_iff.1 (h.view_of_mem n hn)
  rw [Document.element?, hl, Option.bind_some, hdata]

/-- A live subtree has no more nodes than numbers were given out. -/
theorem Held.length_ids_le (h : t.Held d.get? parent) (hn : t.ids.Nodup) :
    t.ids.length ≤ d.nodes.capacity := by
  have hsub : t.ids ⊆ d.nodes.keys := fun k hk => (Slab.mem_keys _ k).2 (h.live k hk)
  have hkeys : d.nodes.keys.length ≤ d.nodes.capacity :=
    (List.length_filter_le _ _).trans (List.length_range ..).le
  exact (hn.subperm hsub).length_le.trans hkeys

/-! ## Walks -/

mutual

/-- A walk visits a subtree before it goes on. -/
theorem Held.walkFrom_eq : ∀ {t : Subtree} {parent : Option NodeId} {steps : Nat},
    t.Held d.get? parent → t.ids.length ≤ steps → ∀ rest,
    d.walkFrom steps (t.id :: rest) = t.ids ++ d.walkFrom (steps - t.ids.length) rest
  | .node id data cs, parent, steps, h, hsteps, rest => by
      rw [ids_node, List.length_cons] at hsteps ⊢
      obtain ⟨steps, rfl⟩ := Nat.exists_eq_add_one.2 (Nat.lt_of_lt_of_le (Nat.succ_pos _) hsteps)
      rw [Subtree.id, walkFrom, h.1]
      dsimp only
      rw [h.2.walkFrom_eq (Nat.le_of_succ_le_succ hsteps) rest, Nat.add_sub_add_right,
        List.cons_append]

theorem AllHeld.walkFrom_eq : ∀ {ts : List Subtree} {parent : NodeId} {steps : Nat},
    AllHeld d.get? parent ts → (allIds ts).length ≤ steps → ∀ rest,
    d.walkFrom steps (ts.map Subtree.id ++ rest) =
      allIds ts ++ d.walkFrom (steps - (allIds ts).length) rest
  | [], _, _, _, _, _ => rfl
  | t :: ts, _, steps, h, hsteps, rest => by
      rw [allIds_cons, List.length_append] at hsteps ⊢
      rw [List.map_cons, List.cons_append, h.1.walkFrom_eq (by omega),
        h.2.walkFrom_eq (by omega), List.append_assoc, Nat.sub_add_eq]

end

end Subtree

namespace Document

variable {d : Document}

theorem le_foldl_max {α : Type} (f : α → Nat) (l : List α) (k : Nat) :
    k ≤ l.foldl (fun k a => max k (f a)) k ∧ ∀ a ∈ l, f a ≤ l.foldl (fun k a => max k (f a)) k := by
  induction l generalizing k with
  | nil => simp
  | cons a l ih =>
      obtain ⟨hk, hl⟩ := ih (max k (f a))
      rw [List.foldl_cons, List.forall_mem_cons]
      exact ⟨(le_max_left _ _).trans hk, (le_max_right _ _).trans hk, hl⟩

theorem le_breadth {k : NodeId} {n : LiveNode} (h : d.get? k = some n) :
    n.children.length ≤ d.breadth := by
  have hmem : n ∈ d.nodes.toList := by
    have hslot : d.nodes.slots[k]? = some (some n) := by
      simpa [Document.get?, Slab.get?, Option.join_eq_some_iff] using h
    exact List.mem_filterMap.2 ⟨some n, Array.mem_toList_iff.2 (Array.mem_of_getElem? hslot), rfl⟩
  exact (le_foldl_max (fun n : LiveNode => n.children.length) d.nodes.toList 0).2 n hmem

end Document

namespace Subtree

variable {d : Document} {t : Subtree} {parent : Option NodeId}

/-- A walk has time for a live subtree. -/
theorem Held.length_ids_le_walkBound (h : t.Held d.get? parent) (hn : t.ids.Nodup) :
    t.ids.length ≤ d.walkBound := by
  have hcapacity := h.length_ids_le hn
  have hbreadth := le_breadth h.view_id
  cases t with
  | node id data cs =>
      cases cs with
      | nil => exact Nat.pow_pos (Nat.succ_pos _)
      | cons c cs =>
          -- With a child somewhere the bound is a power of at least two.
          have htwo : 2 ≤ d.breadth + 1 := by
            have hpos : 0 < d.breadth := Nat.lt_of_lt_of_le (Nat.succ_pos _) hbreadth
            omega
          calc
            _ ≤ d.nodes.capacity := hcapacity
            _ ≤ 2 ^ d.nodes.capacity := Nat.lt_two_pow_self.le
            _ ≤ d.walkBound := Nat.pow_le_pow_left htwo _

/-- A walk through a live subtree visits its nodes in order. -/
theorem Held.walk_eq (h : t.Held d.get? parent) (hn : t.ids.Nodup) : d.walk t.id = t.ids := by
  rw [walk, h.walkFrom_eq (h.length_ids_le_walkBound hn)]
  cases d.walkBound - t.ids.length <;> simp [walkFrom]

theorem Held.elementById?_eq (h : t.Held d.get? parent) (hn : t.ids.Nodup) (ht : t.id = root)
    (name : String) : d.elementById? name = (t.nodes.find? fun n =>
      n.2.element?.any fun e => e.attribute? "id" = some name).map (·.1) := by
  rw [elementById?, ← ht, h.walk_eq hn, ← map_nodes, List.find?_map, ← List.head?_filter,
    ← List.head?_filter]
  congr 2
  exact List.filter_congr fun n hmem => by rw [Function.comp_apply, h.element?_of_mem hmem]

theorem Held.elementsByTag_eq (h : t.Held d.get? parent) (hn : t.ids.Nodup) (name : String) :
    d.elementsByTag t.id name = (t.nodes.filter (·.2.hasTag name)).map (·.1) := by
  rw [elementsByTag, h.walk_eq hn, ← map_nodes, List.filter_map]
  congr 1
  refine List.filter_congr fun n hmem => ?_
  rw [Function.comp_apply, h.element?_of_mem hmem, NodeData.hasTag]

end Subtree

end LiveMarkup
