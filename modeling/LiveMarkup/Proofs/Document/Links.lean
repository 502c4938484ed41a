import LiveMarkup.Proofs.Document.Operations
import LiveMarkup.Document.Edit
import LiveMarkup.Document.Walk
import Mathlib.Data.List.Dedup
import Mathlib.Logic.Relation

/-!
# The links between nodes

Every link of a document is written down twice. A node knows its parent, and the
parent has the node among its children. `Document.parentOf` and
`Document.childrenOf` read a document as these two, and `Document.Linked` says
that they agree (`Document.Tied` is this alone). What an operation does is then said
for all numbers at once: some nodes lose their parent (`Freed`, or `Loosened` where only
the links matter), or they get another one (`Moved`, or `Planted` once they have none).

None of this asks that the way up from a node comes to an end. A document with a
cycle can be linked, and every change described here leaves it so.
-/

namespace LiveMarkup

/-- A node, under its number, where some nodes have lost their parents. -/
def LiveNode.without (n : LiveNode) (k : NodeId) (ids : List NodeId) : LiveNode :=
  { n with
    parent := if k ∈ ids then none else n.parent
    children := n.children.filter (· ∉ ids) }

/-- A node, under its number, where some nodes have been moved to a parent that has new
children. -/
def LiveNode.moved (n : LiveNode) (k p : NodeId) (ids cs : List NodeId) : LiveNode :=
  { n with
    parent := if k ∈ ids then some p else n.parent
    children := if k = p then cs else n.children.filter (· ∉ ids) }

/-- A node that stands nowhere if it is to, and has none of the others among its children,
stays as it is. -/
theorem LiveNode.without_eq_self {n : LiveNode} {k : NodeId} {ids : List NodeId}
    (hpar : k ∈ ids → n.parent = none) (hcs : n.children.filter (· ∉ ids) = n.children) :
    n.without k ids = n := by
  rw [without, hcs]
  by_cases hk : k ∈ ids
  · rw [if_pos hk, ← hpar hk]
  · rw [if_neg hk]

theorem filter_notMem_cons (l : List NodeId) (id : NodeId) (ids : List NodeId) :
    (l.filter (· ∉ [id])).filter (· ∉ ids) = l.filter (· ∉ id :: ids) := by
  rw [List.filter_filter]
  refine List.filter_congr fun c _ => ?_
  by_cases hc : c = id <;> simp [hc]

theorem LiveNode.without_without (n : LiveNode) (k id : NodeId) (ids : List NodeId) :
    (n.without k [id]).without k ids = n.without k (id :: ids) := by
  rw [without, without, without, filter_notMem_cons]
  by_cases hk : k ∈ ids <;> simp [hk]

theorem LiveNode.moved_moved (n : LiveNode) (k p id : NodeId) (ids cs cs' : List NodeId) :
    (n.moved k p [id] cs).moved k p ids cs' = n.moved k p (id :: ids) cs' := by
  rw [moved, moved, moved]
  by_cases hkp : k = p
  · simp only [if_pos hkp]
    by_cases hk : k ∈ ids <;> simp [hk]
  · simp only [if_neg hkp, filter_notMem_cons]
    by_cases hk : k ∈ ids <;> simp [hk]

namespace Document

variable {d d' d₁ d₂ : Document} {a c id k p : NodeId} {ids cs : List NodeId}

/-- A live node has this number. -/
def Live (d : Document) (k : NodeId) : Prop :=
  (d.get? k).isSome

instance (d : Document) (k : NodeId) : Decidable (d.Live k) :=
  inferInstanceAs (Decidable ((d.get? k).isSome = true))

/-- The parent of a node, none for a number without a live node. -/
def parentOf (d : Document) (k : NodeId) : Option NodeId :=
  (d.get? k).bind (·.parent)

/-- The children of a node, none for a number without a live node. -/
def childrenOf (d : Document) (k : NodeId) : List NodeId :=
  ((d.get? k).map (·.children)).getD []

/-- The number that a node goes by and its kind, which no operation changes. -/
def labelOf (d : Document) (k : NodeId) : Option (NodeId × String) :=
  (d.get? k).map fun n => (n.id, n.data.kind)

/-- A node stands at another or above it: following parents leads to it. -/
def Above (d : Document) (a k : NodeId) : Prop :=
  Relation.ReflTransGen (fun c p => d.parentOf c = some p) k a

theorem live_iff : d.Live k ↔ ∃ n, d.get? k = some n :=
  Option.isSome_iff_exists

theorem live_iff_labelOf : d.Live k ↔ (d.labelOf k).isSome := by
  simp [Live, labelOf]

theorem live_congr (h : d'.labelOf k = d.labelOf k) : d'.Live k ↔ d.Live k := by
  rw [live_iff_labelOf, live_iff_labelOf, h]

theorem Live.node (h : d.Live k) : ∃ n, d.node k = .ok n ∧ d.get? k = some n := by
  obtain ⟨n, hn⟩ := live_iff.1 h
  exact ⟨n, (node_eq_ok_iff d k n).2 hn, hn⟩

theorem parentOf_of_get? {n : LiveNode} (h : d.get? k = some n) : d.parentOf k = n.parent := by
  rw [parentOf, h, Option.bind_some]

theorem childrenOf_of_get? {n : LiveNode} (h : d.get? k = some n) :
    d.childrenOf k = n.children := by
  rw [childrenOf, h]
  rfl

theorem live_of_parentOf (h : d.parentOf c = some p) : d.Live c := by
  unfold parentOf at h
  unfold Live
  cases hc : d.get? c with
  | none => simp [hc] at h
  | some n => rfl

theorem live_of_mem_childrenOf (h : c ∈ d.childrenOf p) : d.Live p := by
  unfold childrenOf at h
  unfold Live
  cases hp : d.get? p with
  | none => simp [hp] at h
  | some n => rfl

theorem parentOf_congr (h : d'.get? = d.get?) : d'.parentOf = d.parentOf := by
  funext k
  rw [parentOf, h, parentOf]

theorem childrenOf_congr (h : d'.get? = d.get?) : d'.childrenOf = d.childrenOf := by
  funext k
  rw [childrenOf, h, childrenOf]

theorem get?_record_eq (d : Document) (m : Mutation) : (d.record m).get? = d.get? :=
  funext (get?_record d m)

theorem get?_modify_eq (d : Document) (id : NodeId) (f : LiveNode → LiveNode) (k : NodeId) :
    (d.modify id f).get? k = (d.get? k).map fun n => if k = id then f n else n := by
  rw [get?_modify]
  by_cases hk : k = id
  · simp [hk]
  · simp [hk, Ne.symm hk]

/-! ## Linked documents -/

/-- Every link is written down at both of its ends. -/
structure Tied (d : Document) : Prop where
  nodup : ∀ k, (d.childrenOf k).Nodup
  mem_iff : ∀ p c, c ∈ d.childrenOf p ↔ d.parentOf c = some p

theorem Tied.live_parent (hd : d.Tied) (h : d.parentOf c = some p) : d.Live p :=
  live_of_mem_childrenOf ((hd.mem_iff p c).2 h)

/-- The two ways in which links are written down agree, every node goes by its
own number, and the root is the one node that is a document. -/
structure Linked (d : Document) : Prop where
  root : ∃ n, d.get? root = some n ∧ n.data = .document ∧ n.parent = none
  unique : ∀ k n, d.get? k = some n → n.data = .document → k = Document.root
  key : ∀ k n, d.get? k = some n → n.id = k
  nodup : ∀ k, (d.childrenOf k).Nodup
  mem_iff : ∀ p c, c ∈ d.childrenOf p ↔ d.parentOf c = some p

theorem kind_eq_document_iff (data : NodeData) : data.kind = "document" ↔ data = .document := by
  cases data <;> simp [NodeData.kind]

theorem labelOf_root_iff :
    d.labelOf k = some (k, "document") ↔
      ∃ n, d.get? k = some n ∧ n.id = k ∧ n.data = .document := by
  simp [labelOf, kind_eq_document_iff]

namespace Linked

theorem parentOf_root (hd : d.Linked) : d.parentOf Document.root = none := by
  obtain ⟨n, hn, -, hp⟩ := hd.root
  rw [parentOf_of_get? hn, hp]

theorem tied (hd : d.Linked) : d.Tied :=
  ⟨hd.nodup, hd.mem_iff⟩

theorem live_parent (hd : d.Linked) (h : d.parentOf c = some p) : d.Live p :=
  hd.tied.live_parent h

/-- Links that agree on the same nodes make a linked document again. -/
theorem of_labelOf (hd : d.Linked) (hlabel : ∀ k, d'.labelOf k = d.labelOf k)
    (hroot : d'.parentOf Document.root = none) (hnodup : ∀ k, (d'.childrenOf k).Nodup)
    (hmem : ∀ p c, c ∈ d'.childrenOf p ↔ d'.parentOf c = some p) : d'.Linked where
  root := by
    obtain ⟨n, hn, hdata, -⟩ := hd.root
    have hl := labelOf_root_iff.2 ⟨n, hn, hd.key _ _ hn, hdata⟩
    rw [← hlabel] at hl
    obtain ⟨n', hn', -, hdata'⟩ := labelOf_root_iff.1 hl
    rw [parentOf_of_get? hn'] at hroot
    exact ⟨n', hn', hdata', hroot⟩
  unique := by
    intro k n hn hdata
    have hl : d.labelOf k = some (n.id, "document") := by
      rw [← hlabel, labelOf, hn, Option.map_some, (kind_eq_document_iff _).2 hdata]
    obtain ⟨m, hm, hlm⟩ := Option.map_eq_some_iff.1 hl
    exact hd.unique k m hm ((kind_eq_document_iff _).1 (Prod.ext_iff.1 hlm).2)
  key := by
    intro k n hn
    have hl : d.labelOf k = some (n.id, n.data.kind) := by
      rw [← hlabel, labelOf, hn, Option.map_some]
    obtain ⟨m, hm, hlm⟩ := Option.map_eq_some_iff.1 hl
    rw [← hd.key k m hm]
    exact (Prod.ext_iff.1 hlm).1.symm
  nodup := hnodup
  mem_iff := hmem

end Linked

/-! ## Nodes without their parents -/

/-- Some nodes have lost their parents, and no other links have changed. -/
structure Loosened (d d' : Document) (ids : List NodeId) : Prop where
  labelOf : ∀ k, d'.labelOf k = d.labelOf k
  parentOf : ∀ k, d'.parentOf k = if k ∈ ids then none else d.parentOf k
  childrenOf : ∀ k, d'.childrenOf k = (d.childrenOf k).filter (· ∉ ids)

/-- Some nodes have lost their parents, and nothing else has changed. -/
def Freed (d d' : Document) (ids : List NodeId) : Prop :=
  ∀ k, d'.get? k = (d.get? k).map (·.without k ids)

namespace Freed

theorem refl (d : Document) : Freed d d [] := by
  intro k
  cases hk : d.get? k <;> simp [LiveNode.without]

theorem trans (h : Freed d d₁ [id]) (h' : Freed d₁ d₂ ids) : Freed d d₂ (id :: ids) := by
  intro k
  rw [h' k, h k, Option.map_map]
  exact congrArg (Option.map · _) (funext fun n => n.without_without k id ids)

theorem parentOf_eq (h : Freed d d' ids) (k : NodeId) :
    d'.parentOf k = if k ∈ ids then none else d.parentOf k := by
  unfold parentOf
  rw [h k]
  cases d.get? k <;> simp [LiveNode.without]

theorem childrenOf_eq (h : Freed d d' ids) (k : NodeId) :
    d'.childrenOf k = (d.childrenOf k).filter (· ∉ ids) := by
  unfold childrenOf
  rw [h k]
  cases d.get? k <;> simp [LiveNode.without]

theorem live_iff (h : Freed d d' ids) (k : NodeId) : d'.Live k ↔ d.Live k := by
  rw [Live, Live, h k, Option.isSome_map]

theorem loosened (h : Freed d d' ids) : Loosened d d' ids where
  labelOf k := by
    unfold labelOf
    rw [h k, Option.map_map]
    rfl
  parentOf := h.parentOf_eq
  childrenOf := h.childrenOf_eq

end Freed

theorem Linked.loosen (hd : d.Linked) (h : Loosened d d' ids) : d'.Linked := by
  apply hd.of_labelOf h.labelOf
  · rw [h.parentOf, hd.parentOf_root, ite_self]
  · intro k
    rw [h.childrenOf]
    exact (hd.nodup k).filter _
  · intro p c
    rw [h.childrenOf, h.parentOf, List.mem_filter, hd.mem_iff]
    by_cases hc : c ∈ ids <;> simp [hc]

theorem Loosened.top (h : Loosened d d' ids) : ∀ k ∈ ids, d'.parentOf k = none := by
  intro k hk
  rw [h.parentOf, if_pos hk]

/-- Every node that stands above another after the change stood there before. -/
theorem Loosened.above (h : Loosened d d' ids) (ha : d'.Above a k) : d.Above a k := by
  refine Relation.ReflTransGen.mono (fun c p hp => ?_) k a ha
  rw [h.parentOf] at hp
  split at hp
  · cases hp
  · exact hp

namespace Tied

/-- A node has none of some nodes among its children if it is the parent of none. -/
theorem filter_children (hd : d.Tied) {n : LiveNode} (hn : d.get? k = some n)
    (h : ∀ i ∈ ids, d.parentOf i ≠ some k) : n.children.filter (· ∉ ids) = n.children := by
  rw [List.filter_eq_self]
  intro c hc
  rw [← childrenOf_of_get? hn, hd.mem_iff] at hc
  exact decide_eq_true fun hm => h c hm hc

theorem freed (hd : d.Tied) (h : Freed d d' ids) : d'.Tied where
  nodup k := by
    rw [h.childrenOf_eq]
    exact (hd.nodup k).filter _
  mem_iff p c := by
    rw [h.childrenOf_eq, h.parentOf_eq, List.mem_filter, hd.mem_iff]
    by_cases hc : c ∈ ids <;> simp [hc]

/-- A node without a parent has lost it. -/
theorem freed_of_top (hd : d.Tied) (h : d.parentOf id = none) : Freed d d [id] := by
  intro k
  cases hk : d.get? k with
  | none => rfl
  | some n =>
      rw [Option.map_some, LiveNode.without_eq_self]
      · intro hki
        rw [← parentOf_of_get? hk, List.mem_singleton.1 hki, h]
      · refine hd.filter_children hk fun i hi => ?_
        rw [List.mem_singleton.1 hi, h]
        exact (Option.some_ne_none k).symm

/-- A node loses its parent where it is taken from the children of that. -/
theorem freed_unlink (hd : d.Tied) (h : d.parentOf id = some p) :
    Freed d ((d.modify id fun n => { n with parent := none }).modify p fun n =>
      { n with children := n.children.filter (· ≠ id) }) [id] := by
  intro k
  rw [get?_modify_eq, get?_modify_eq, Option.map_map]
  cases hk : d.get? k with
  | none => rfl
  | some n =>
      rw [Option.map_some, Option.map_some, Option.some.injEq, Function.comp_apply]
      by_cases hkp : k = p
      · rw [if_pos hkp, LiveNode.without]
        by_cases hki : k = id <;> simp only [hki, List.mem_singleton, if_true, if_false]
      · -- no other node has it among its children
        have hcs : n.children.filter (· ∉ [id]) = n.children := by
          refine hd.filter_children hk fun i hi => ?_
          rw [List.mem_singleton.1 hi, h, Ne, Option.some.injEq]
          exact Ne.symm hkp
        rw [if_neg hkp, LiveNode.without, hcs]
        by_cases hki : k = id <;> simp only [hki, List.mem_singleton, if_true, if_false]

/-- Taking a node from its parent cannot fail. -/
theorem detach (hd : d.Tied) (h : d.Live id) : ∃ d', d.detach id = .ok d' ∧ Freed d d' [id] := by
  obtain ⟨n, hn, hget⟩ := h.node
  have hpar := parentOf_of_get? hget
  rw [Document.detach, hn, Except.ok_bind]
  cases hp : n.parent with
  | none => exact ⟨d, rfl, hd.freed_of_top (hpar.trans hp)⟩
  | some p =>
      rw [hp] at hpar
      refine ⟨_, ?_, hd.freed_unlink hpar⟩
      have hlive : (d.modify id fun n => { n with parent := none }).Live p := by
        rw [Live, get?_modify_eq, Option.isSome_map]
        exact hd.live_parent hpar
      obtain ⟨m, hm, -⟩ := hlive.node
      simp only [hm, Except.ok_bind]
      rfl

theorem detachAll : ∀ (ids : List NodeId) {d : Document}, d.Tied → (∀ i ∈ ids, d.Live i) →
    ∃ d', d.detachAll ids = .ok d' ∧ Freed d d' ids
  | [], d, _, _ => ⟨d, rfl, .refl d⟩
  | id :: ids, d, hd, h => by
      obtain ⟨d₁, hd₁, h₁⟩ := hd.detach (h id (List.mem_cons_self ..))
      obtain ⟨d₂, hd₂, h₂⟩ := detachAll ids (hd.freed h₁) fun i hi =>
        (h₁.live_iff i).2 (h i (List.mem_cons_of_mem _ hi))
      refine ⟨d₂, ?_, h₁.trans h₂⟩
      rw [Document.detachAll, hd₁, Except.ok_bind, hd₂]

end Tied

/-! ## Nodes with a new parent -/

/-- Some nodes that stood nowhere have got a parent and are among its children, and
nothing else has changed. -/
structure Planted (d d' : Document) (p : NodeId) (ids : List NodeId) : Prop where
  labelOf : ∀ k, d'.labelOf k = d.labelOf k
  parentOf : ∀ k, d'.parentOf k = if k ∈ ids then some p else d.parentOf k
  childrenOf : ∀ k, k ≠ p → d'.childrenOf k = d.childrenOf k
  nodup : (d'.childrenOf p).Nodup
  mem_iff : ∀ c, c ∈ d'.childrenOf p ↔ c ∈ d.childrenOf p ∨ c ∈ ids
  top : ∀ k ∈ ids, d.parentOf k = none
  root_notMem : Document.root ∉ ids

theorem Linked.plant (hd : d.Linked) (h : Planted d d' p ids) : d'.Linked := by
  apply hd.of_labelOf h.labelOf
  · rw [h.parentOf, if_neg h.root_notMem, hd.parentOf_root]
  · intro k
    by_cases hk : k = p
    · rw [hk]
      exact h.nodup
    · rw [h.childrenOf k hk]
      exact hd.nodup k
  · intro q c
    have hq := hd.mem_iff q c
    rw [h.parentOf]
    by_cases hqp : q = p
    · subst hqp
      rw [h.mem_iff, hq]
      by_cases hc : c ∈ ids <;> simp [hc]
    · rw [h.childrenOf q hqp, hq]
      by_cases hc : c ∈ ids
      · simp [hc, h.top c hc, Ne.symm hqp]
      · simp [hc]

/-- Some nodes have been moved to a parent that has new children. All others have lost them,
and nothing else has changed. -/
def Moved (d d' : Document) (p : NodeId) (ids cs : List NodeId) : Prop :=
  ∀ k, d'.get? k = (d.get? k).map (·.moved k p ids cs)

namespace Moved

theorem live_iff (h : Moved d d' p ids cs) (k : NodeId) : d'.Live k ↔ d.Live k := by
  rw [Live, Live, h k, Option.isSome_map]

theorem labelOf_eq (h : Moved d d' p ids cs) (k : NodeId) : d'.labelOf k = d.labelOf k := by
  unfold labelOf
  rw [h k, Option.map_map]
  rfl

theorem parentOf_eq (h : Moved d d' p ids cs) (hids : ∀ i ∈ ids, d.Live i) (k : NodeId) :
    d'.parentOf k = if k ∈ ids then some p else d.parentOf k := by
  unfold parentOf
  rw [h k]
  cases hk : d.get? k with
  | none =>
      have hkids : k ∉ ids := fun hm => by simpa [Live, hk] using hids k hm
      rw [if_neg hkids]
      rfl
  | some n => rfl

theorem childrenOf_eq (h : Moved d d' p ids cs) (hp : d.Live p) (k : NodeId) :
    d'.childrenOf k = if k = p then cs else (d.childrenOf k).filter (· ∉ ids) := by
  unfold childrenOf
  rw [h k]
  cases hk : d.get? k with
  | none =>
      have hkp : k ≠ p := fun he => by simp [Live, ← he, hk] at hp
      rw [if_neg hkp]
      rfl
  | some n => rfl

end Moved

theorem adopt_cons (d : Document) (p id : NodeId) (ids : List NodeId) :
    d.adopt p (id :: ids) = (d.modify id fun n => { n with parent := some p }).adopt p ids :=
  rfl

theorem get?_adopt (p : NodeId) : ∀ (ids : List NodeId) (d : Document) (k : NodeId),
    (d.adopt p ids).get? k =
      (d.get? k).map fun n => if k ∈ ids then { n with parent := some p } else n
  | [], d, k => by simp [adopt]
  | id :: ids, d, k => by
      rw [adopt_cons, get?_adopt p ids, get?_modify_eq, Option.map_map]
      congr 1
      funext n
      rw [Function.comp_apply]
      by_cases hk : k = id <;> by_cases hids : k ∈ ids <;> simp [hk, hids]

/-- Nodes without a parent that one has among its children, and that it is noted down in,
have been moved there. -/
theorem Freed.moved_adopt (h : Freed d d₁ ids) (p : NodeId) (g : List NodeId → List NodeId) :
    Moved d ((d₁.modify p fun n => { n with children := g n.children }).adopt p ids) p ids
      (g (d₁.childrenOf p)) := by
  intro k
  rw [get?_adopt, get?_modify_eq, h k, Option.map_map, Option.map_map]
  cases hk : d.get? k with
  | none => rfl
  | some n =>
      rw [Option.map_some, Option.map_some, Option.some.injEq, Function.comp_apply,
        Function.comp_apply]
      by_cases hkp : k = p
      · have hcs : d₁.childrenOf p = (n.without k ids).children := by
          rw [← hkp, childrenOf, h k, hk]
          rfl
        rw [if_pos hkp, hcs, LiveNode.moved, if_pos hkp, LiveNode.without]
        by_cases hids : k ∈ ids <;> simp only [hids, if_true, if_false]
      · rw [if_neg hkp, LiveNode.moved, if_neg hkp, LiveNode.without]
        by_cases hids : k ∈ ids <;> simp only [hids, if_true, if_false]

namespace Tied

/-- Moving a node takes it from its parent and puts it at the end of the children of the
new one. -/
theorem move (hd : d.Tied) (h : d.Live id) (hp : d.Live p) (ids : List NodeId) :
    ∃ d₁ d₂, d.moveAll p (id :: ids) = d₂.moveAll p ids ∧ Freed d d₁ [id] ∧
      Moved d d₂ p [id] ((d.childrenOf p).filter (· ∉ [id]) ++ [id]) := by
  obtain ⟨d₁, hd₁, h₁⟩ := hd.detach h
  obtain ⟨m, hm, -⟩ := ((h₁.live_iff p).2 hp).node
  refine ⟨d₁, _, ?_, h₁, h₁.childrenOf_eq p ▸ h₁.moved_adopt p (· ++ [id])⟩
  rw [moveAll, hd₁, Except.ok_bind, hm, Except.ok_bind]
  rfl

theorem exists_indexOfChild? (hd : d.Tied) {n : LiveNode} (hn : d.get? p = some n)
    (h : d.parentOf c = some p) : ∃ i pre post, n.indexOfChild? c = some i ∧
      n.children = pre ++ c :: post ∧ pre.length = i := by
  have hc := (hd.mem_iff p c).2 h
  rw [childrenOf_of_get? hn] at hc
  have hsome : (n.indexOfChild? c).isSome := by
    rw [LiveNode.indexOfChild?, List.findIdx?_isSome, List.any_eq_true]
    exact ⟨c, hc, decide_eq_true rfl⟩
  obtain ⟨i, hi⟩ := Option.isSome_iff_exists.1 hsome
  obtain ⟨hlt, hic, -⟩ := List.findIdx?_eq_some_iff_getElem.1 hi
  refine ⟨i, n.children.take i, n.children.drop (i + 1), hi, ?_,
    List.length_take_of_le (Nat.le_of_lt hlt)⟩
  rw [← of_decide_eq_true hic, ← List.drop_eq_getElem_cons hlt, List.take_append_drop]

/-- Nodes brought in front of an anchor lose their parents, and are moved to the parent of
the anchor if it has one then. -/
theorem insertBefore (hd : d.Tied) (ha : d.Live a) (hids : ∀ i ∈ ids, d.Live i) :
    ∃ d₁, Freed d d₁ ids ∧ (d₁.parentOf a = none → d.insertBefore a ids = .ok d₁) ∧
      ∀ p, d₁.parentOf a = some p → ∃ d₂ pre post, d.insertBefore a ids = .ok d₂ ∧
        (d.childrenOf p).filter (· ∉ ids) = pre ++ a :: post ∧
        Moved d d₂ p ids (pre ++ ids ++ a :: post) := by
  obtain ⟨d₁, hd₁, h₁⟩ := Tied.detachAll ids hd hids
  have htied := hd.freed h₁
  obtain ⟨n, hnode, hget⟩ := ((h₁.live_iff a).2 ha).node
  have hpar := parentOf_of_get? hget
  refine ⟨d₁, h₁, fun hnone => ?_, fun p hp => ?_⟩
  · rw [hpar] at hnone
    rw [Document.insertBefore, hd₁, Except.ok_bind, hnode, Except.ok_bind]
    simp only [hnone]
    rfl
  · obtain ⟨m, hm, hmget⟩ := (htied.live_parent hp).node
    obtain ⟨i, pre, post, hi, hsplit, hlen⟩ := htied.exists_indexOfChild? hmget hp
    have hcs : d₁.childrenOf p = pre ++ a :: post := (childrenOf_of_get? hmget).trans hsplit
    have hmoved := h₁.moved_adopt p fun l => l.take i ++ ids ++ l.drop i
    rw [hcs, ← hlen, List.take_left, List.drop_left] at hmoved
    refine ⟨_, pre, post, ?_, h₁.childrenOf_eq p ▸ hcs, hmoved⟩
    rw [hpar] at hp
    rw [Document.insertBefore, hd₁, Except.ok_bind, hnode, Except.ok_bind]
    simp only [hp, hm, Except.ok_bind, hi, hlen]
    rfl

/-- The children of a node without some nodes, and these, are different nodes. -/
theorem nodup_of_perm (hd : d.Tied) (hn : ids.Nodup)
    (hperm : cs.Perm ((d.childrenOf p).filter (· ∉ ids) ++ ids)) : cs.Nodup := by
  rw [hperm.nodup_iff, List.nodup_append]
  refine ⟨(hd.nodup p).filter _, hn, ?_⟩
  rintro k hk _ hk' rfl
  exact of_decide_eq_true (List.mem_filter.1 hk).2 hk'

end Tied

/-- Nodes that were freed and moved have been planted in between. -/
theorem Moved.planted (h : Moved d d₂ p ids cs) (h₁ : Freed d d₁ ids) (hd : d.Tied)
    (hp : d.Live p) (hids : ∀ i ∈ ids, d.Live i) (hn : ids.Nodup)
    (hperm : cs.Perm ((d.childrenOf p).filter (· ∉ ids) ++ ids)) (hroot : Document.root ∉ ids) :
    Planted d₁ d₂ p ids where
  labelOf k := (h.labelOf_eq k).trans (h₁.loosened.labelOf k).symm
  parentOf k := by
    rw [h.parentOf_eq hids, h₁.parentOf_eq]
    by_cases hk : k ∈ ids <;> simp only [hk, if_true, if_false]
  childrenOf k hk := by rw [h.childrenOf_eq hp, if_neg hk, h₁.childrenOf_eq]
  nodup := by
    rw [h.childrenOf_eq hp, if_pos rfl]
    exact hd.nodup_of_perm hn hperm
  mem_iff c := by
    rw [h.childrenOf_eq hp, if_pos rfl, hperm.mem_iff, List.mem_append, h₁.childrenOf_eq]
  top k hk := by rw [h₁.parentOf_eq, if_pos hk]
  root_notMem := hroot

/-- Moving a node takes it from its parent and plants it again at the end of the
children of the new one. -/
theorem Linked.move (hd : d.Linked) (h : d.Live id) (hroot : id ≠ Document.root) (hp : d.Live p)
    (ids : List NodeId) :
    ∃ d₁ d₂, d.moveAll p (id :: ids) = d₂.moveAll p ids ∧ Loosened d d₁ [id] ∧
      Planted d₁ d₂ p [id] := by
  obtain ⟨d₁, d₂, hmove, h₁, h₂⟩ := hd.tied.move h hp ids
  have hlive : ∀ i ∈ [id], d.Live i := fun i hi => List.mem_singleton.1 hi ▸ h
  exact ⟨d₁, d₂, hmove, h₁.loosened, h₂.planted h₁ hd.tied hp hlive (List.nodup_singleton id)
    (.refl _) (by simpa using hroot.symm)⟩

theorem perm_splice (pre ids : List NodeId) (a : NodeId) (post : List NodeId) :
    (pre ++ ids ++ a :: post).Perm (pre ++ a :: post ++ ids) := by
  rw [List.append_assoc, List.append_assoc]
  exact List.perm_append_comm.append_left pre

/-- Nodes brought in front of an anchor lose their parents, and are planted under
the parent of the anchor if it has one then. -/
theorem Linked.insertBefore (hd : d.Linked) (ha : d.Live a) (hids : ∀ k ∈ ids, d.Live k)
    (hroot : Document.root ∉ ids) (hn : ids.Nodup) :
    ∃ d₁, Loosened d d₁ ids ∧
      (d₁.parentOf a = none → d.insertBefore a ids = .ok d₁) ∧
      (∀ p, d₁.parentOf a = some p →
        ∃ d₂, d.insertBefore a ids = .ok d₂ ∧ Planted d₁ d₂ p ids) := by
  obtain ⟨d₁, h₁, hnone, hsome⟩ := hd.tied.insertBefore ha hids
  refine ⟨d₁, h₁.loosened, hnone, fun p hp => ?_⟩
  obtain ⟨d₂, pre, post, hd₂, hcs, h₂⟩ := hsome p hp
  have hpl : d.Live p := (h₁.live_iff p).1 ((hd.loosen h₁.loosened).live_parent hp)
  exact ⟨d₂, hd₂, h₂.planted h₁ hd.tied hpl hids hn (hcs ▸ perm_splice pre ids a post) hroot⟩

end Document

end LiveMarkup
