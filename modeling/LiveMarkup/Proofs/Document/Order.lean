import LiveMarkup.Proofs.Document.Removed
import LiveMarkup.Proofs.Document.Walk

/-!
# Document order

In a well-formed document each live node is the top of a subtree, and a walk from it goes
through the nodes of that, a node first and then what stands below each of its children, and
ends (`Document.Walks`). So what is read off a walk, the text, the elements with a tag and
the element with an `id`, is read off the subtree. The way up from a node ends as well, and
is the path to the top of its tree (`Document.Path`).

A walk and a way up are given a number of steps. Both are shown to be the same for every
number that is large enough, hence it makes no difference which one was allowed.
-/

namespace LiveMarkup

open Document Subtree

/-- Whether what a node is, is an element with an `id`. -/
def NodeData.hasId (data : NodeData) (name : String) : Bool :=
  data.element?.any fun e => e.attribute? "id" = some name

namespace Subtree

mutual

/-- The contents of the texts, that of a node before those below it. -/
def text : Subtree → String
  | .node _ data cs => data.content?.getD "" ++ allText cs
termination_by structural t => t

/-- The contents of the texts in subtrees that stand next to each other. -/
def allText : List Subtree → String
  | [] => ""
  | t :: ts => t.text ++ allText ts
termination_by structural ts => ts

end

mutual

theorem join_nodes : ∀ t : Subtree, String.join (t.nodes.filterMap (·.2.content?)) = t.text
  | .node id data cs => by
      rw [nodes, List.filterMap_cons, text, ← join_allNodes cs]
      cases data.content? with
      | none => rw [Option.getD_none, String.empty_append]
      | some s => rw [Option.getD_some, String.join_cons]

theorem join_allNodes : ∀ ts : List Subtree,
    String.join ((allNodes ts).filterMap (·.2.content?)) = allText ts
  | [] => rfl
  | t :: ts => by
      rw [allNodes, List.filterMap_append, String.join_append, join_nodes t, join_allNodes ts,
        allText]

end

variable {d : Document} {t : Subtree} {parent : Option NodeId} {k x : NodeId}

theorem Held.textContent_eq (h : t.Held d.get? parent) (hn : t.ids.Nodup) :
    d.textContent t.id = t.text := by
  rw [textContent, h.walk_eq hn, ← map_nodes, List.filterMap_map, ← join_nodes]
  congr 1
  refine List.filterMap_congr fun n hmem => ?_
  obtain ⟨l, hl, hdata⟩ := Option.map_eq_some_iff.1 (h.view_of_mem n hmem)
  rw [Function.comp_apply, hl, Option.bind_some, hdata]

/-- A walk through a live subtree ends with it. -/
theorem Held.walkFrom_singleton (h : t.Held d.get? parent) {steps : Nat}
    (hsteps : t.ids.length ≤ steps) : d.walkFrom steps [t.id] = t.ids := by
  rw [h.walkFrom_eq hsteps]
  cases steps - t.ids.length <;> simp [walkFrom]

theorem AllHeld.flatMap_walk : ∀ {ts : List Subtree} {parent : NodeId},
    AllHeld d.get? parent ts → (allIds ts).Nodup → (ts.map Subtree.id).flatMap d.walk = allIds ts
  | [], _, _, _ => rfl
  | t :: ts, _, h, hn => by
      rw [allIds_cons, List.nodup_append] at hn
      rw [List.map_cons, List.flatMap_cons, h.1.walk_eq hn.1, h.2.flatMap_walk hn.2.1, allIds_cons]

/-- A walk visits a node and then walks from each of its children. -/
theorem Held.walk_cons (h : t.Held d.get? parent) (hn : t.ids.Nodup) :
    d.walk t.id = t.id :: (d.childrenOf t.id).flatMap d.walk := by
  rw [h.walk_eq hn]
  cases t with
  | node id data cs =>
      rw [ids_node, List.nodup_cons] at hn
      rw [Subtree.id, childrenOf_of_get? h.1, h.2.flatMap_walk hn.2, ids_node]

/-- A live subtree has everything that stands below its nodes. -/
theorem Held.mem_ids_of_above (hd : d.Linked) (h : t.Held d.get? parent) (hk : k ∈ t.ids)
    (ha : d.Above k x) : x ∈ t.ids := by
  induction ha using Relation.ReflTransGen.head_induction_on with
  | refl => exact hk
  | head hp _ ih => exact mem_ids_of_parentOf hd h ih hp

end Subtree

namespace Document

variable {d : Document} {k p : NodeId} {path : List NodeId}

/-- The nodes from a node to the top of its tree. -/
inductive Path (d : Document) : NodeId → List NodeId → Prop where
  | top {k : NodeId} : d.parentOf k = none → Path d k [k]
  | up {k p : NodeId} {path : List NodeId} :
      d.parentOf k = some p → Path d p path → Path d k (k :: path)

/-- The way up is the path once it is allowed as many steps. -/
theorem Path.upward_eq (h : d.Path k path) {steps : Nat} (hsteps : path.length ≤ steps) :
    d.upward steps (some k) = path := by
  induction h generalizing steps with
  | top hk =>
      obtain ⟨steps, rfl⟩ := Nat.exists_eq_add_one.2 hsteps
      rw [upward_some, hk, upward_none]
  | up hp _ ih =>
      obtain ⟨steps, rfl⟩ := Nat.exists_eq_add_one.2 (Nat.lt_of_lt_of_le (Nat.succ_pos _) hsteps)
      rw [upward_some, hp, ih (Nat.le_of_succ_le_succ hsteps)]

namespace WellFormed

theorem exists_path (hd : d.WellFormed) (k : NodeId) : ∃ path, d.Path k path := by
  induction k using hd.wellFounded.induction with
  | _ k ih =>
      cases hp : d.parentOf k with
      | none => exact ⟨[k], .top hp⟩
      | some p =>
          obtain ⟨path, hpath⟩ := ih p hp
          exact ⟨k :: path, .up hp hpath⟩

theorem path_chain (hd : d.WellFormed) (hk : d.Live k) : d.Path k (d.chain k) := by
  obtain ⟨path, hpath⟩ := hd.exists_path k
  have hlength := hd.length_upward_le hk path.length
  rw [hpath.upward_eq le_rfl] at hlength
  have hsteps : path.length ≤ d.nodes.capacity + 1 := by omega
  have hchain : d.chain k = path := hpath.upward_eq hsteps
  rwa [hchain]

end WellFormed

/-- A walk from a node goes through a subtree in document order and ends, and what is read
off the walk is read off the subtree. -/
structure Walks (d : Document) (k : NodeId) (t : Subtree) : Prop where
  id_eq : t.id = k
  held : t.Held d.get? (d.parentOf k)
  nodup : t.ids.Nodup
  mem_ids_iff : ∀ x, x ∈ t.ids ↔ x ∈ d.below k
  ends : ∃ n, ∀ steps, n ≤ steps → d.walkFrom steps [k] = t.ids
  walk_eq : d.walk k = t.ids
  walk_cons : d.walk k = k :: (d.childrenOf k).flatMap d.walk
  textContent_eq : d.textContent k = t.text
  elementsByTag_eq : ∀ name,
    d.elementsByTag k name = (t.nodes.filter (·.2.hasTag name)).map (·.1)

theorem WellFormed.exists_walks (hd : d.WellFormed) (hk : d.Live k) : ∃ t, d.Walks k t := by
  obtain ⟨t, rfl, hheld, hnodup, habove⟩ := hd.exists_subtree hk
  refine ⟨t, rfl, hheld, hnodup, fun x => ⟨fun hx => ⟨?_, habove x hx⟩, fun hx => ?_⟩,
    ⟨t.ids.length, fun steps => hheld.walkFrom_singleton⟩, hheld.walk_eq hnodup,
    hheld.walk_cons hnodup, hheld.textContent_eq hnodup, hheld.elementsByTag_eq hnodup⟩
  · exact live_iff.2 (hheld.live x hx)
  · exact hheld.mem_ids_of_above hd.toLinked t.id_mem_ids hx.2

/-- In a well-formed document a walk from a live node goes through its subtree in document
order and ends, and the way up is the path to the top. The element with an `id` is the first
such node in the order of the whole document. -/
theorem WellFormed.inOrder (hd : d.WellFormed) :
    (∀ k, d.Live k → (∃ t, d.Walks k t) ∧ d.Path k (d.chain k) ∧
      ∃ n, ∀ steps, n ≤ steps → d.upward steps (some k) = d.chain k) ∧
    ∃ t, d.Walks root t ∧
      ∀ name, d.elementById? name = (t.nodes.find? (·.2.hasId name)).map (·.1) := by
  refine ⟨fun k hk => ⟨hd.exists_walks hk, hd.path_chain hk, ?_⟩, ?_⟩
  · exact ⟨(d.chain k).length, fun steps => (hd.path_chain hk).upward_eq⟩
  · obtain ⟨n, hn, -⟩ := hd.root
    obtain ⟨t, ht⟩ := hd.exists_walks (live_iff.2 ⟨n, hn⟩)
    exact ⟨t, ht, ht.held.elementById?_eq ht.nodup ht.id_eq⟩

/-- A list with two items, of which the second has an `id`, and a text that stands nowhere.
The second item was there first. -/
def menu : List TreeCall :=
  [.createElement (.ofTag "ul"), .createElement (.ofTag "li"), .createText "two",
    .createElement (.ofTag "li"), .createText "one", .createText "none", .append 2 [3],
    .append 4 [5], .append 1 [4, 2], .append 0 [1], .setAttribute 2 (.ofAttribute "id") "last"]

set_option maxRecDepth 20000 in
theorem inOrder_menu : ∃ d t, (new true).performAll menu = .ok d ∧ d.WellFormed ∧
    (d.Live 1 ∧ d.Walks 1 t ∧ t.ids = [1, 4, 5, 2, 3] ∧ d.textContent 1 = "onetwo" ∧
      d.elementsByTag 1 "li" = [4, 2]) ∧
    d.Path 3 (d.chain 3) ∧ d.chain 3 = [3, 2, 1, 0] ∧ d.elementById? "last" = some 2 := by
  obtain ⟨d, hd, hwf⟩ := exists_performAll true menu rfl
  have hfound : ((new true).performAll menu).map (fun d => (decide (d.Live 1 ∧ d.Live 3),
      d.walk 1, d.textContent 1, d.elementsByTag 1 "li", d.chain 3, d.elementById? "last")) =
      .ok (true, [1, 4, 5, 2, 3], "onetwo", [4, 2], [3, 2, 1, 0], some 2) := rfl
  rw [hd] at hfound
  simp only [Except.map, Except.ok.injEq, Prod.mk.injEq, decide_eq_true_iff] at hfound
  obtain ⟨hlive, hwalk, htext, htag, hchain, hid⟩ := hfound
  obtain ⟨⟨t, ht⟩, -⟩ := hwf.inOrder.1 1 hlive.1
  exact ⟨d, t, hd, hwf, ⟨hlive.1, ht, ht.walk_eq.symm.trans hwalk, htext, htag⟩,
    (hwf.inOrder.1 3 hlive.2).2.1, hchain, hid⟩

end Document

end LiveMarkup
