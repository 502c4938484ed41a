import LiveMarkup.Proofs.Document.Links

/-!
# Nodes that go

What is taken out of a slab is what is reached from some nodes through children, and what is
left is as it was. In a document where every link is written down at both ends that is a node
with everything below it (`Document.Pruned`).

Dropping a node takes it from its parent first, so the parent loses it from its children
(`Document.Cut`). The way up of what is left does not lead through what is gone, hence nodes
are cut off one after the other as if all were cut off at once (`Document.Cut.trans`).
-/

namespace LiveMarkup.Document

variable {d d' d₁ d₂ : Document} {a c id k p : NodeId} {ids : List NodeId}

/-- What is left is as it was. -/
theorem get?_dropAll_or (nodes : Slab LiveNode) (pending : List NodeId) (k : NodeId) :
    (dropAll nodes pending).get? k = none ∨ (dropAll nodes pending).get? k = nodes.get? k := by
  fun_induction dropAll nodes pending with
  | case1 nodes => exact Or.inr rfl
  | case2 nodes id ids h ih => exact ih
  | case3 nodes id ids n h ih =>
      rw [nodes.get?_remove] at ih
      by_cases hk : id = k
      · rw [if_pos hk, or_self] at ih
        exact Or.inl ih
      · rwa [if_neg hk] at ih

theorem get?_dropAll_of_none {nodes : Slab LiveNode} (pending : List NodeId)
    (hk : nodes.get? k = none) : (dropAll nodes pending).get? k = none := by
  rcases get?_dropAll_or nodes pending k with h | h
  · exact h
  · rw [h, hk]

theorem get?_dropAll_of_mem (nodes : Slab LiveNode) (pending : List NodeId) (hk : k ∈ pending) :
    (dropAll nodes pending).get? k = none := by
  fun_induction dropAll nodes pending with
  | case1 nodes => cases hk
  | case2 nodes id ids h ih =>
      cases hk with
      | head => exact get?_dropAll_of_none ids h
      | tail _ hk => exact ih hk
  | case3 nodes id ids n h ih =>
      cases hk with
      | head =>
          apply get?_dropAll_of_none
          rw [nodes.get?_remove, if_pos rfl]
      | tail _ hk => exact ih (List.mem_append_right _ hk)

/-- With a node go its children. -/
theorem get?_dropAll_of_child {nodes : Slab LiveNode} {pending : List NodeId} {n : LiveNode}
    (hn : nodes.get? k = some n) (hk : (dropAll nodes pending).get? k = none)
    (hc : c ∈ n.children) : (dropAll nodes pending).get? c = none := by
  fun_induction dropAll nodes pending with
  | case1 nodes => rw [hn] at hk; cases hk
  | case2 nodes id ids h ih => exact ih hn hk
  | case3 nodes id ids m h ih =>
      by_cases he : id = k
      · subst he
        rw [h, Option.some.injEq] at hn
        subst hn
        exact get?_dropAll_of_mem _ _ (List.mem_append_left _ hc)
      · rw [← if_neg he (t := none) (e := nodes.get? k), ← nodes.get?_remove] at hn
        exact ih hn hk

/-- A node that goes is reached from one of those taken out. -/
theorem exists_of_get?_dropAll {nodes : Slab LiveNode} {pending : List NodeId} {n : LiveNode}
    (hn : nodes.get? k = some n) (hk : (dropAll nodes pending).get? k = none) :
    ∃ id ∈ pending,
      Relation.ReflTransGen (fun q c => ∃ m, nodes.get? q = some m ∧ c ∈ m.children) id k := by
  fun_induction dropAll nodes pending with
  | case1 nodes => rw [hn] at hk; cases hk
  | case2 nodes id ids h ih =>
      obtain ⟨i, hi, hik⟩ := ih hn hk
      exact ⟨i, List.mem_cons_of_mem _ hi, hik⟩
  | case3 nodes id ids m h ih =>
      by_cases he : id = k
      · exact ⟨id, List.mem_cons_self .., he ▸ .refl⟩
      · rw [← if_neg he (t := none) (e := nodes.get? k), ← nodes.get?_remove] at hn
        obtain ⟨i, hi, hik⟩ := ih hn hk
        have hpath : Relation.ReflTransGen
            (fun q c => ∃ m, nodes.get? q = some m ∧ c ∈ m.children) i k := by
          refine Relation.ReflTransGen.mono (fun q c hq => ?_) i k hik
          obtain ⟨m, hm, hc⟩ := hq
          rw [nodes.get?_remove] at hm
          split at hm
          · cases hm
          · exact ⟨m, hm, hc⟩
        rcases List.mem_append.1 hi with hi | hi
        · exact ⟨id, List.mem_cons_self .., .head ⟨m, h, hi⟩ hpath⟩
        · exact ⟨i, List.mem_cons_of_mem _ hi, hpath⟩

theorem Tied.isChild_iff (hd : d.Tied) :
    (∃ m, d.nodes.get? p = some m ∧ c ∈ m.children) ↔ d.parentOf c = some p := by
  rw [← hd.mem_iff]
  constructor
  · rintro ⟨m, hm, hc⟩
    rwa [childrenOf_of_get? hm]
  · intro hc
    obtain ⟨m, hm⟩ := live_iff.1 (live_of_mem_childrenOf hc)
    exact ⟨m, hm, by rwa [childrenOf_of_get? hm] at hc⟩

/-- A node is gone with everything below it, and nothing else has changed. -/
def Pruned (d d' : Document) (id : NodeId) : Prop :=
  ∀ k, (d.Above id k → d'.get? k = none) ∧ (¬ d.Above id k → d'.get? k = d.get? k)

theorem Tied.prune (hd : d.Tied) (id : NodeId) :
    Pruned d { d with nodes := dropAll d.nodes [id] } id := by
  intro k
  constructor
  · intro ha
    induction ha using Relation.ReflTransGen.head_induction_on with
    | refl => exact get?_dropAll_of_mem _ _ (List.mem_cons_self ..)
    | head hcp _ ih =>
        obtain ⟨m, hm, hc⟩ := hd.isChild_iff.2 hcp
        exact get?_dropAll_of_child hm ih hc
  · intro ha
    rcases get?_dropAll_or d.nodes [id] k with hk | hk
    · cases hn : d.get? k with
      | none => exact hk
      | some n =>
          obtain ⟨i, hi, hik⟩ := exists_of_get?_dropAll hn hk
          rw [List.mem_singleton.1 hi] at hik
          refine absurd ?_ ha
          apply Relation.reflTransGen_swap.1
          refine Relation.ReflTransGen.mono (fun q c hq => ?_) id k hik
          exact hd.isChild_iff.1 hq
    · exact hk

/-- Dropping a node takes it from its parent and prunes it, unless it is the root. -/
theorem Tied.dropSubtree (hd : d.Tied) (h : d.Live id) (hroot : id ≠ Document.root) :
    ∃ d₁ d₂, d.dropSubtree id = .ok d₂ ∧ Freed d d₁ [id] ∧ Pruned d₁ d₂ id := by
  obtain ⟨d₁, hd₁, h₁⟩ := hd.detach h
  refine ⟨d₁, { d₁ with nodes := dropAll d₁.nodes [id] }, ?_, h₁, (hd.freed h₁).prune id⟩
  rw [Document.dropSubtree, if_neg hroot, hd₁]
  rfl

/-! ## Cutting off -/

/-- Some nodes are gone with everything below them. What is left has lost them from its
children and is as it was otherwise. -/
structure Cut (d d' : Document) (ids : List NodeId) : Prop where
  gone : ∀ k, ∀ i ∈ ids, d.Above i k → d'.get? k = none
  left : ∀ k, (∀ i ∈ ids, ¬ d.Above i k) → d'.get? k = (d.get? k).map (·.without k ids)

theorem Freed.above_iff (h : Freed d d' [id]) : d'.Above id k ↔ d.Above id k := by
  refine ⟨h.loosened.above, fun ha => ?_⟩
  induction ha using Relation.ReflTransGen.head_induction_on with
  | refl => exact .refl
  | @head c q hp _ ih =>
      by_cases hc : c = id
      · exact hc ▸ .refl
      · refine .head ?_ ih
        rw [h.parentOf_eq, if_neg (List.mem_singleton.not.2 hc), hp]

theorem Freed.cut (h : Freed d d₁ [id]) (h' : Pruned d₁ d₂ id) : Cut d d₂ [id] where
  gone k i hi ha := by
    rw [List.mem_singleton.1 hi] at ha
    exact (h' k).1 (h.above_iff.2 ha)
  left k hk := by
    rw [(h' k).2 fun ha => hk id (List.mem_singleton_self id) (h.above_iff.1 ha), h k]

namespace Cut

theorem of_get?_eq (h : Cut d d₁ ids) (hget : d₂.get? = d₁.get?) : Cut d d₂ ids where
  gone k := by
    rw [hget]
    exact h.gone k
  left k := by
    rw [hget]
    exact h.left k

theorem refl (d : Document) : Cut d d [] where
  gone _ _ hi := nomatch hi
  left k _ := Freed.refl d k

/-- What is left was there, and below none of the nodes that were cut off. -/
theorem exists_of_get? (h : Cut d d' ids) {n : LiveNode} (hn : d'.get? k = some n) :
    ∃ m, d.get? k = some m ∧ n = m.without k ids ∧ ∀ i ∈ ids, ¬ d.Above i k := by
  have hk : ∀ i ∈ ids, ¬ d.Above i k := by
    intro i hi ha
    rw [h.gone k i hi ha] at hn
    cases hn
  rw [h.left k hk] at hn
  obtain ⟨m, hm, rfl⟩ := Option.map_eq_some_iff.1 hn
  exact ⟨m, hm, rfl, hk⟩

/-- What is left has the parent it had. -/
theorem parentOf_eq_some_iff (h : Cut d d' ids) :
    d'.parentOf c = some p ↔ (∀ i ∈ ids, ¬ d.Above i c) ∧ d.parentOf c = some p := by
  constructor
  · intro hp
    obtain ⟨n, hn⟩ := live_iff.1 (live_of_parentOf hp)
    obtain ⟨m, hm, rfl, hc⟩ := h.exists_of_get? hn
    rw [parentOf_of_get? hn, LiveNode.without, if_neg fun hm => hc c hm .refl] at hp
    exact ⟨hc, (parentOf_of_get? hm).trans hp⟩
  · rintro ⟨hc, hp⟩
    obtain ⟨m, hm⟩ := live_iff.1 (live_of_parentOf hp)
    have hn : d'.get? c = some (m.without c ids) := by rw [h.left c hc, hm, Option.map_some]
    rw [parentOf_of_get? hn, LiveNode.without, if_neg fun hm => hc c hm .refl,
      ← parentOf_of_get? hm, hp]

theorem mem_childrenOf_iff (h : Cut d d' ids) :
    c ∈ d'.childrenOf p ↔ (∀ i ∈ ids, ¬ d.Above i p) ∧ c ∈ d.childrenOf p ∧ c ∉ ids := by
  constructor
  · intro hc
    obtain ⟨n, hn⟩ := live_iff.1 (live_of_mem_childrenOf hc)
    obtain ⟨m, hm, rfl, hp⟩ := h.exists_of_get? hn
    rw [childrenOf_of_get? hn, LiveNode.without, List.mem_filter, decide_eq_true_iff] at hc
    exact ⟨hp, childrenOf_of_get? hm ▸ hc.1, hc.2⟩
  · rintro ⟨hp, hc, hids⟩
    obtain ⟨m, hm⟩ := live_iff.1 (live_of_mem_childrenOf hc)
    have hn : d'.get? p = some (m.without p ids) := by rw [h.left p hp, hm, Option.map_some]
    rw [childrenOf_of_get? hn, LiveNode.without, List.mem_filter, decide_eq_true_iff]
    exact ⟨childrenOf_of_get? hm ▸ hc, hids⟩

theorem above_iff (h : Cut d d' ids) (hk : ∀ i ∈ ids, ¬ d.Above i k) :
    d'.Above a k ↔ d.Above a k := by
  constructor
  · intro ha
    exact Relation.ReflTransGen.mono (fun c p hp => (h.parentOf_eq_some_iff.1 hp).2) k a ha
  · intro ha
    induction ha using Relation.ReflTransGen.head_induction_on with
    | refl => exact .refl
    | head hp _ ih =>
        exact .head (h.parentOf_eq_some_iff.2 ⟨hk, hp⟩) (ih fun i hi ha => hk i hi (.head hp ha))

theorem get?_eq_none (h : Cut d d' ids) (hk : d.get? k = none) : d'.get? k = none := by
  cases hn : d'.get? k with
  | none => rfl
  | some n =>
      obtain ⟨m, hm, -⟩ := h.exists_of_get? hn
      rw [hk] at hm
      cases hm

/-- Nodes are cut off one after the other as if all were cut off at once. -/
theorem trans (h : Cut d d₁ [id]) (h' : Cut d₁ d₂ ids) : Cut d d₂ (id :: ids) where
  gone k i hi ha := by
    by_cases hid : d.Above id k
    · exact h'.get?_eq_none (h.gone k id (List.mem_singleton_self id) hid)
    · have hne : i ≠ id := fun he => hid (he ▸ ha)
      refine h'.gone k i ((List.mem_cons.1 hi).resolve_left hne) ((h.above_iff ?_).2 ha)
      simpa using hid
  left k hk := by
    obtain ⟨hid, hids⟩ := List.forall_mem_cons.1 hk
    have hone : ∀ i ∈ [id], ¬ d.Above i k := by simpa using hid
    rw [h'.left k fun i hi ha => hids i hi ((h.above_iff hone).1 ha), h.left k hone,
      Option.map_map]
    exact congrArg (Option.map · _) (funext fun n => n.without_without k id ids)

end Cut

/-- Dropping a node cuts it off. -/
theorem Tied.cut_dropSubtree (hd : d.Tied) (h : d.Live id) (hroot : id ≠ root) :
    ∃ d', d.dropSubtree id = .ok d' ∧ Cut d d' [id] := by
  obtain ⟨d₁, d₂, hd₂, h₁, h₂⟩ := hd.dropSubtree h hroot
  exact ⟨d₂, hd₂, h₁.cut h₂⟩

end LiveMarkup.Document
