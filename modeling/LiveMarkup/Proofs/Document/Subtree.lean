import LiveMarkup.Document.Tree
import Mathlib.Data.Set.Basic

/-!
# Subtrees of a document

A `Subtree` is a live node with everything below it, cut out of its document. A
view `NodeId → Option LiveNode`, such as `Document.get?`, holds a subtree under
a parent when every node of the subtree is there with the right links in both
directions. So `Held` is the one place where the parent of a node and the
children of its parent are tied to each other.

Subtrees are compared with a document node by node, hence a view which agrees on
the nodes of a subtree holds it as well (`Held.congr`).
-/

namespace LiveMarkup

/-- What is under the numbers of live nodes. -/
abbrev View := NodeId → Option LiveNode

/-- A live node with everything below it. -/
inductive Subtree where
  | node (id : NodeId) (data : NodeData) (children : List Subtree)

namespace Subtree

/-- The number of the topmost node. -/
def id : Subtree → NodeId
  | .node id _ _ => id

/-- What the topmost node is. -/
def data : Subtree → NodeData
  | .node _ data _ => data

/-- The subtrees below the topmost node. -/
def children : Subtree → List Subtree
  | .node _ _ cs => cs

mutual

/-- The numbers of all nodes, each before those below it. -/
def ids : Subtree → List NodeId
  | .node id _ cs => id :: allIds cs
termination_by structural t => t

/-- The numbers of all nodes of subtrees that stand next to each other. -/
def allIds : List Subtree → List NodeId
  | [] => []
  | t :: ts => t.ids ++ allIds ts
termination_by structural ts => ts

end

mutual

/-- Whether a view has every node of a subtree, the topmost one under a parent. -/
def Held (view : View) (parent : Option NodeId) : Subtree → Prop
  | .node id data cs =>
    view id = some ⟨id, data, parent, cs.map Subtree.id⟩ ∧ AllHeld view id cs
termination_by structural t => t

/-- Whether a view has every node of subtrees under a common parent. -/
def AllHeld (view : View) (parent : NodeId) : List Subtree → Prop
  | [] => True
  | t :: ts => t.Held view (some parent) ∧ AllHeld view parent ts
termination_by structural ts => ts

end

/-! ## Numbers -/

@[simp] theorem ids_node (id : NodeId) (data : NodeData) (cs : List Subtree) :
    (node id data cs).ids = id :: allIds cs := rfl

@[simp] theorem allIds_nil : allIds [] = [] := rfl

@[simp] theorem allIds_cons (t : Subtree) (ts : List Subtree) :
    allIds (t :: ts) = t.ids ++ allIds ts := rfl

@[simp] theorem allIds_append (ts us : List Subtree) :
    allIds (ts ++ us) = allIds ts ++ allIds us := by
  induction ts with
  | nil => rfl
  | cons t ts ih => simp [ih]

theorem mem_allIds {k : NodeId} {ts : List Subtree} :
    k ∈ allIds ts ↔ ∃ t ∈ ts, k ∈ t.ids := by
  induction ts with
  | nil => simp
  | cons t ts ih => simp [ih]

@[simp] theorem id_mem_ids (t : Subtree) : t.id ∈ t.ids := by
  cases t
  simp [id]

theorem map_id_sublist (ts : List Subtree) : (ts.map Subtree.id).Sublist (allIds ts) := by
  induction ts with
  | nil => exact List.Sublist.slnil
  | cons t ts ih =>
      cases t with
      | node id data cs => exact (ih.trans (List.sublist_append_right _ _)).cons_cons id

/-! ## Holding -/

@[simp] theorem held_node {view : View} {parent : Option NodeId} {id : NodeId} {data : NodeData}
    {cs : List Subtree} :
    (node id data cs).Held view parent ↔
      view id = some ⟨id, data, parent, cs.map Subtree.id⟩ ∧ AllHeld view id cs :=
  Iff.rfl

@[simp] theorem allHeld_nil {view : View} {parent : NodeId} : AllHeld view parent [] :=
  trivial

@[simp] theorem allHeld_cons {view : View} {parent : NodeId} {t : Subtree} {ts : List Subtree} :
    AllHeld view parent (t :: ts) ↔ t.Held view (some parent) ∧ AllHeld view parent ts :=
  Iff.rfl

@[simp] theorem allHeld_append {view : View} {parent : NodeId} {ts us : List Subtree} :
    AllHeld view parent (ts ++ us) ↔ AllHeld view parent ts ∧ AllHeld view parent us := by
  induction ts with
  | nil => simp
  | cons t ts ih => simp [ih, and_assoc]

theorem Held.view_id {view : View} {parent : Option NodeId} {t : Subtree}
    (h : t.Held view parent) :
    view t.id = some ⟨t.id, t.data, parent, t.children.map Subtree.id⟩ := by
  cases t
  exact h.1

theorem Held.children {view : View} {parent : Option NodeId} {t : Subtree}
    (h : t.Held view parent) : AllHeld view t.id t.children := by
  cases t
  exact h.2

mutual

/-- A view that agrees on the nodes of a subtree holds it as well. -/
theorem Held.congr {view view' : View} : ∀ {t : Subtree} {parent : Option NodeId},
    t.Held view parent → (∀ k ∈ t.ids, view' k = view k) → t.Held view' parent
  | .node id data cs, _, h, hk => by
      refine ⟨?_, h.2.congr fun k hmem => hk k (by simp [hmem])⟩
      rw [hk id (by simp)]
      exact h.1

theorem AllHeld.congr {view view' : View} : ∀ {ts : List Subtree} {parent : NodeId},
    AllHeld view parent ts → (∀ k ∈ allIds ts, view' k = view k) → AllHeld view' parent ts
  | [], _, _, _ => trivial
  | t :: ts, _, h, hk =>
      ⟨h.1.congr fun k hmem => hk k (by simp [hmem]), h.2.congr fun k hmem => hk k (by simp [hmem])⟩

end

mutual

theorem Held.live {view : View} : ∀ {t : Subtree} {parent : Option NodeId},
    t.Held view parent → ∀ k ∈ t.ids, ∃ n, view k = some n
  | .node id data cs, _, h, k, hk => by
      rcases List.mem_cons.1 hk with rfl | hk
      · exact ⟨_, h.1⟩
      · exact h.2.live k hk

theorem AllHeld.live {view : View} : ∀ {ts : List Subtree} {parent : NodeId},
    AllHeld view parent ts → ∀ k ∈ allIds ts, ∃ n, view k = some n
  | [], _, _, k, hk => by simp at hk
  | t :: ts, _, h, k, hk => by
      rcases List.mem_append.1 hk with hk | hk
      · exact h.1.live k hk
      · exact h.2.live k hk

end

theorem AllHeld.mem {view : View} {parent : NodeId} {t : Subtree} {ts : List Subtree}
    (h : AllHeld view parent ts) (ht : t ∈ ts) : t.Held view (some parent) := by
  induction ts with
  | nil => simp at ht
  | cons u us ih =>
      rcases List.mem_cons.1 ht with rfl | ht
      · exact h.1
      · exact ih h.2 ht

theorem Held.replace_top {view view' : View} {parent parent' : Option NodeId} {id : NodeId}
    {data data' : NodeData} {cs : List Subtree} (h : (node id data cs).Held view parent)
    (hn : id ∉ allIds cs) (hid : view' id = some ⟨id, data', parent', cs.map Subtree.id⟩)
    (hk : ∀ k, k ≠ id → k ∈ allIds cs → view' k = view k) :
    (node id data' cs).Held view' parent' :=
  ⟨hid, h.2.congr fun k hmem => hk k (fun he => hn (he ▸ hmem)) hmem⟩

end Subtree

end LiveMarkup
