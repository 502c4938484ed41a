import LiveMarkup.Proofs.Document.Count
import LiveMarkup.Proofs.Document.Cut

/-!
# Well-formed documents

A document is well-formed if it is linked and the way up from every node comes to
an end. That end is asked for in terms of `upward`, which gives at most as many
nodes as it is allowed steps: the way up has ended once it gives fewer. For the
proofs this is the same as that the step from a node to its parent is well-founded
(`ends_iff_acc`).

Taking links away keeps a document well-formed at once. Planting nodes under a
parent keeps it so if none of them stands at the parent or above it, which is
shown for the nodes that are not below a planted one first, then for the planted
ones, and then for all.
-/

namespace LiveMarkup.Document

variable {d d' d₁ d₂ : Document} {a c id k p : NodeId} {ids : List NodeId}

/-- Links agree, and following parents ends. -/
structure WellFormed (d : Document) : Prop extends Linked d where
  ends : ∀ k, ∃ steps, (d.upward steps (some k)).length < steps

/-! ## The way up -/

theorem upward_some (d : Document) (steps : Nat) (k : NodeId) :
    d.upward (steps + 1) (some k) = k :: d.upward steps (d.parentOf k) :=
  rfl

theorem upward_none (d : Document) (steps : Nat) : d.upward steps none = [] := by
  cases steps <;> rfl

theorem ends_iff_acc :
    (∃ steps, (d.upward steps (some k)).length < steps) ↔
      Acc (fun p c => d.parentOf c = some p) k := by
  constructor
  · rintro ⟨steps, h⟩
    induction steps generalizing k with
    | zero => exact absurd h (Nat.not_lt_zero _)
    | succ steps ih =>
        constructor
        intro p hp
        rw [upward_some, hp, List.length_cons] at h
        exact ih (Nat.lt_of_succ_lt_succ h)
  · intro h
    induction h with
    | intro k _ ih =>
        cases hp : d.parentOf k with
        | none =>
            refine ⟨2, ?_⟩
            rw [upward_some, hp, upward_none]
            simp
        | some p =>
            rcases ih p hp with ⟨steps, h⟩
            refine ⟨steps + 1, ?_⟩
            rw [upward_some, hp, List.length_cons]
            exact Nat.succ_lt_succ h

/-- Whatever the way up leads through stands above. -/
theorem above_of_mem_upward {steps : Nat} {o : Option NodeId} (h : a ∈ d.upward steps o) :
    ∃ k, o = some k ∧ d.Above a k := by
  induction steps generalizing o with
  | zero => cases h
  | succ steps ih =>
      cases o with
      | none => cases h
      | some k =>
          rw [upward_some] at h
          refine ⟨k, rfl, ?_⟩
          cases h with
          | head => exact .refl
          | tail _ h =>
              obtain ⟨p, hp, ha⟩ := ih h
              exact .head hp ha

/-- A way up that has ended leads through everything above. -/
theorem mem_upward_of_above {steps : Nat} (h : (d.upward steps (some k)).length < steps)
    (ha : d.Above a k) : a ∈ d.upward steps (some k) := by
  induction steps generalizing k with
  | zero => exact absurd h (Nat.not_lt_zero _)
  | succ steps ih =>
      rw [upward_some] at h ⊢
      rcases Relation.ReflTransGen.cases_head ha with rfl | ⟨p, hp, ha⟩
      · exact List.mem_cons_self ..
      · rw [hp, List.length_cons] at h
        rw [hp]
        exact List.mem_cons_of_mem _ (ih (Nat.lt_of_succ_lt_succ h) ha)

theorem live_of_above (ha : d.Above a k) (hd : d.Linked) (hk : d.Live k) : d.Live a := by
  induction ha with
  | refl => exact hk
  | tail _ hp _ => exact hd.live_parent hp

theorem Above.trans (h : d.Above a c) (h' : d.Above c k) : d.Above a k :=
  Relation.ReflTransGen.trans h' h

namespace WellFormed

theorem wellFounded (hd : d.WellFormed) :
    WellFounded fun p c => d.parentOf c = some p :=
  ⟨fun k => ends_iff_acc.1 (hd.ends k)⟩

theorem of_wellFounded (hd : d.Linked) (h : WellFounded fun p c => d.parentOf c = some p) :
    d.WellFormed :=
  ⟨hd, fun k => ends_iff_acc.2 (h.apply k)⟩

/-- No node stands at its parent or above it. -/
theorem not_above_parent (hd : d.WellFormed) (h : d.parentOf k = some p) : ¬ d.Above k p := by
  intro ha
  have hloop : Relation.TransGen (fun p c => d.parentOf c = some p) k k :=
    Relation.TransGen.tail' (Relation.reflTransGen_swap.2 ha) h
  exact hd.wellFounded.transGen.irrefl.irrefl k hloop

theorem nodup_upward (hd : d.WellFormed) (steps : Nat) (o : Option NodeId) :
    (d.upward steps o).Nodup := by
  induction steps generalizing o with
  | zero => exact List.nodup_nil
  | succ steps ih =>
      cases o with
      | none => exact List.nodup_nil
      | some k =>
          rw [upward_some]
          refine List.nodup_cons.2 ⟨?_, ih _⟩
          intro hk
          obtain ⟨p, hp, ha⟩ := above_of_mem_upward hk
          exact hd.not_above_parent hp ha

/-- No way up is longer than the number of keys given out. -/
theorem length_upward_le (hd : d.WellFormed) (hk : d.Live k) (steps : Nat) :
    (d.upward steps (some k)).length ≤ d.nodes.capacity := by
  have hsub : d.upward steps (some k) ⊆ d.nodes.keys := by
    intro b hb
    obtain ⟨l, hl, ha⟩ := above_of_mem_upward hb
    cases hl
    exact (d.nodes.mem_keys b).2 (live_iff.1 (live_of_above ha hd.toLinked hk))
  have hlen := (List.subperm_of_subset (hd.nodup_upward _ _) hsub).length_le
  rw [d.nodes.length_keys] at hlen
  exact hlen.trans Array.countP_le_size

/-- The chain of a node goes through everything above it. -/
theorem mem_chain_iff (hd : d.WellFormed) (hk : d.Live k) : a ∈ d.chain k ↔ d.Above a k := by
  have hchain : d.chain k = d.upward (d.nodes.capacity + 1) (some k) := rfl
  rw [hchain]
  constructor
  · intro h
    obtain ⟨l, hl, ha⟩ := above_of_mem_upward h
    cases hl
    exact ha
  · exact mem_upward_of_above (Nat.lt_succ_of_le (hd.length_upward_le hk _))

theorem mem_ancestors_iff (hd : d.WellFormed) (hk : d.Live k) :
    a ∈ d.ancestors k ↔ ∃ p, d.parentOf k = some p ∧ d.Above a p := by
  constructor
  · intro h
    exact above_of_mem_upward h
  · rintro ⟨p, hp, ha⟩
    have hak : d.Above a k := .head hp ha
    rw [← hd.mem_chain_iff hk, chain, List.mem_cons] at hak
    refine hak.resolve_left ?_
    rintro rfl
    exact hd.not_above_parent hp ha

/-! ## What keeps a document well-formed -/

/-- No node below another is lost sight of when links are taken away. -/
theorem of_fewer (hd : d.WellFormed) (h : d'.Linked)
    (hpar : ∀ c p, d'.parentOf c = some p → d.parentOf c = some p) : d'.WellFormed :=
  of_wellFounded h (hd.wellFounded.mono fun p c hc => hpar c p hc)

theorem loosen (hd : d.WellFormed) (h : Loosened d d' ids) : d'.WellFormed := by
  refine hd.of_fewer (hd.toLinked.loosen h) fun c p hp => ?_
  rw [h.parentOf] at hp
  split at hp
  · cases hp
  · exact hp

/-- Nodes may be planted under a parent that none of them stands at or above. -/
theorem plant (hd : d.WellFormed) (h : Planted d d' p ids) (hp : ∀ k ∈ ids, ¬ d.Above k p) :
    d'.WellFormed := by
  refine of_wellFounded (hd.toLinked.plant h) ?_
  -- nodes that are not below a planted one have the same way up as before
  have hclear : ∀ k, (∀ i ∈ ids, ¬ d.Above i k) → Acc (fun p c => d'.parentOf c = some p) k := by
    intro k
    induction k using hd.wellFounded.induction with
    | _ k ih =>
        intro hk
        constructor
        intro q hq
        have hkids : k ∉ ids := fun hm => hk k hm .refl
        rw [h.parentOf, if_neg hkids] at hq
        exact ih q hq fun i hi ha => hk i hi (.head hq ha)
  have hplanted : ∀ k ∈ ids, Acc (fun p c => d'.parentOf c = some p) k := by
    intro k hk
    constructor
    intro q hq
    rw [h.parentOf, if_pos hk, Option.some.injEq] at hq
    subst hq
    exact hclear p hp
  constructor
  intro k
  induction k using hd.wellFounded.induction with
  | _ k ih =>
      by_cases hk : k ∈ ids
      · exact hplanted k hk
      · constructor
        intro q hq
        rw [h.parentOf, if_neg hk] at hq
        exact ih q hq

end WellFormed

/-- The way up from a node that none of some nodes stands above is as it was where the
others have their parents. -/
theorem above_of_parentOf_eq (h : ∀ c, c ∉ ids → d'.parentOf c = d.parentOf c)
    (hk : ∀ i ∈ ids, ¬ d.Above i k) (ha : d'.Above a k) : d.Above a k := by
  induction ha using Relation.ReflTransGen.head_induction_on with
  | refl => exact .refl
  | head hq _ ih =>
      rw [h _ fun hm => hk _ hm .refl] at hq
      exact .head hq (ih fun i hi ha => hk i hi (.head hq ha))

/-- Where no planted node stands above, the way up is as it was. -/
theorem Planted.above (h : Planted d d' p ids) (hk : ∀ i ∈ ids, ¬ d.Above i k)
    (ha : d'.Above a k) : d.Above a k :=
  above_of_parentOf_eq (fun c hc => by rw [h.parentOf, if_neg hc]) hk ha

/-! ## Nodes that go -/

theorem above_iff_of_parentOf (hp : d.parentOf c = some p) (hc : c ≠ a) :
    d.Above a c ↔ d.Above a p := by
  constructor
  · intro ha
    rcases Relation.ReflTransGen.cases_head ha with he | ⟨q, hq, ha⟩
    · exact absurd he hc
    · rw [hp, Option.some.injEq] at hq
      exact hq ▸ ha
  · exact fun ha => .head hp ha

theorem above_iff_of_top (hk : d.parentOf k = none) : d.Above a k ↔ k = a := by
  constructor
  · intro ha
    rcases Relation.ReflTransGen.cases_head ha with he | ⟨q, hq, -⟩
    · exact he
    · rw [hk] at hq
      cases hq
  · rintro rfl
    exact .refl

/-- What is left once nodes are cut off is linked: no link leads from what is left to what
is gone, since the nodes that were cut off are lost to their parents. -/
theorem Linked.cut (hd : d.Linked) (h : Cut d d' ids) (hroot : Document.root ∉ ids) :
    d'.Linked where
  root := by
    have hstay : ∀ i ∈ ids, ¬ d.Above i Document.root := by
      intro i hi ha
      obtain rfl := (above_iff_of_top hd.parentOf_root).1 ha
      exact hroot hi
    obtain ⟨n, hn, hdata, hp⟩ := hd.root
    refine ⟨n.without Document.root ids, by rw [h.left _ hstay, hn]; rfl, hdata, ?_⟩
    rw [LiveNode.without, if_neg hroot, hp]
  unique k n hn := by
    obtain ⟨m, hm, rfl, -⟩ := h.exists_of_get? hn
    exact hd.unique k m hm
  key k n hn := by
    obtain ⟨m, hm, rfl, -⟩ := h.exists_of_get? hn
    exact hd.key k m hm
  nodup k := by
    cases hk : d'.get? k with
    | none => simp [childrenOf, hk]
    | some n =>
        obtain ⟨m, hm, rfl, -⟩ := h.exists_of_get? hk
        rw [childrenOf_of_get? hk]
        exact (childrenOf_of_get? hm ▸ hd.nodup k).filter _
  mem_iff p c := by
    rw [h.mem_childrenOf_iff, h.parentOf_eq_some_iff, hd.mem_iff]
    constructor
    · rintro ⟨hp, hc, hids⟩
      refine ⟨fun i hi ha => hp i hi ((above_iff_of_parentOf hc ?_).1 ha), hc⟩
      exact fun he => hids (he ▸ hi)
    · rintro ⟨hstay, hc⟩
      exact ⟨fun i hi ha => hstay i hi (.head hc ha), hc, fun hm => hstay c hm .refl⟩

theorem WellFormed.cut (hd : d.WellFormed) (h : Cut d d' ids) (hroot : Document.root ∉ ids) :
    d'.WellFormed :=
  hd.of_fewer (hd.toLinked.cut h hroot) fun _ _ hp => (h.parentOf_eq_some_iff.1 hp).2

/-- Links that are the same under the same numbers are all that matters. -/
theorem WellFormed.of_links (hd : d.WellFormed) (hpar : d'.parentOf = d.parentOf)
    (hcs : d'.childrenOf = d.childrenOf)
    (hroot : ∃ n, d'.get? Document.root = some n ∧ n.data = .document ∧ n.parent = none)
    (hunique : ∀ k n, d'.get? k = some n → n.data = .document → k = Document.root)
    (hkey : ∀ k n, d'.get? k = some n → n.id = k) : d'.WellFormed := by
  refine hd.of_fewer ⟨hroot, hunique, hkey, ?_, ?_⟩ fun c p hp => ?_
  · rw [hcs]
    exact hd.nodup
  · rw [hcs, hpar]
    exact hd.mem_iff
  · rwa [hpar] at hp

theorem WellFormed.record (hd : d.WellFormed) (m : Mutation) : (d.record m).WellFormed := by
  have hget := get?_record_eq d m
  apply hd.of_links (parentOf_congr hget) (childrenOf_congr hget)
  · rw [hget]
    exact hd.root
  · rw [hget]
    exact hd.unique
  · rw [hget]
    exact hd.key

/-! ## The operations -/

theorem WellFormed.dropSubtree (hd : d.WellFormed) (h : d.Live id) :
    ∃ d', d.dropSubtree id = .ok d' ∧ d'.WellFormed := by
  by_cases hroot : id = Document.root
  · refine ⟨d, ?_, hd⟩
    rw [Document.dropSubtree, if_pos hroot]
  · obtain ⟨d', hd', hcut⟩ := hd.tied.cut_dropSubtree h hroot
    exact ⟨d', hd', hd.cut hcut (List.mem_singleton.not.2 (Ne.symm hroot))⟩

theorem WellFormed.remove (hd : d.WellFormed) (h : d.Live id) :
    ∃ d', d.remove id = .ok d' ∧ d'.WellFormed := by
  obtain ⟨d₁, hd₁, hwf⟩ := hd.dropSubtree h
  refine ⟨d₁.record (.removeNode id), ?_, hwf.record _⟩
  rw [Document.remove, hd₁]
  rfl

/-- Removing a node other than the root cuts it off. -/
theorem WellFormed.cut_remove (hd : d.WellFormed) (h : d.Live id) (hroot : id ≠ Document.root) :
    ∃ d', d.remove id = .ok d' ∧ Cut d d' [id] := by
  obtain ⟨d₁, hd₁, hcut⟩ := hd.tied.cut_dropSubtree h hroot
  refine ⟨d₁.record (.removeNode id), ?_, hcut.of_get?_eq (get?_record_eq d₁ _)⟩
  rw [Document.remove, hd₁]
  rfl

theorem Linked.ne_root (hd : d.Linked) (h : d.parentOf c = some p) : c ≠ Document.root := by
  rintro rfl
  rw [hd.parentOf_root] at h
  cases h

/-- Another child of its parent stays where it is when a node is cut off. -/
theorem WellFormed.parentOf_cut (hd : d.WellFormed) (h : Cut d d' [id])
    (hid : d.parentOf id = some p) (hk : d.parentOf k = some p) (hne : k ≠ id) :
    d'.parentOf k = some p := by
  refine h.parentOf_eq_some_iff.2 ⟨fun i hi ha => ?_, hk⟩
  rw [List.mem_singleton.1 hi] at ha
  exact hd.not_above_parent hid ((above_iff_of_parentOf hk hne).1 ha)

/-- Removing children of a node cuts them all off. Each of them leaves the others where they
are, since none of them stands below it. -/
theorem WellFormed.cut_removeAll : ∀ (ids : List NodeId) {d : Document}, d.WellFormed → ids.Nodup →
    (∀ k ∈ ids, d.parentOf k = some p) → ∃ d', d.removeAll ids = .ok d' ∧ Cut d d' ids
  | [], d, _, _, _ => ⟨d, rfl, .refl d⟩
  | id :: ids, d, hd, hn, h => by
      have hid := h id (List.mem_cons_self ..)
      have hroot := hd.ne_root hid
      obtain ⟨d₁, hd₁, hcut⟩ := hd.cut_remove (live_of_parentOf hid) hroot
      have hwf := hd.cut hcut (List.mem_singleton.not.2 (Ne.symm hroot))
      rw [List.nodup_cons] at hn
      have hrest : ∀ k ∈ ids, d₁.parentOf k = some p := fun k hk =>
        hd.parentOf_cut hcut hid (h k (List.mem_cons_of_mem _ hk)) fun he => hn.1 (he ▸ hk)
      obtain ⟨d₂, hd₂, hcut'⟩ := cut_removeAll ids hwf hn.2 hrest
      refine ⟨d₂, ?_, hcut.trans hcut'⟩
      rw [Document.removeAll, hd₁, Except.ok_bind, hd₂]

theorem WellFormed.cut_removeChildren (hd : d.WellFormed) (h : d.Live p) :
    ∃ d', d.removeChildren p = .ok d' ∧ Cut d d' (d.childrenOf p) := by
  obtain ⟨n, hn⟩ := live_iff.1 h
  obtain ⟨d', hd', hcut⟩ := WellFormed.cut_removeAll _ hd (hd.nodup p) fun k => (hd.mem_iff p k).1
  refine ⟨d', ?_, hcut⟩
  rw [Document.removeChildren, children_of_get? hn, Except.ok_bind, ← childrenOf_of_get? hn, hd']

theorem WellFormed.removeChildren (hd : d.WellFormed) (h : d.Live p) :
    ∃ d', d.removeChildren p = .ok d' ∧ d'.WellFormed := by
  obtain ⟨d', hd', hcut⟩ := hd.cut_removeChildren h
  refine ⟨d', hd', hd.cut hcut fun hm => ?_⟩
  exact hd.ne_root ((hd.mem_iff p _).1 hm) rfl

theorem WellFormed.yields_removeChildren (hd : d.WellFormed) (id : NodeId) :
    Except.Yields WellFormed (d.removeChildren id) := by
  intro d' hd'
  obtain ⟨ids, hids, -⟩ := Except.exists_of_bind_eq_ok hd'
  obtain ⟨n, hn, -⟩ := Except.exists_of_map_eq_ok hids
  obtain ⟨d₁, hd₁, hwf⟩ := hd.removeChildren (live_iff.2 ⟨n, (node_eq_ok_iff _ _ _).1 hn⟩)
  exact Except.ok.inj (hd₁.symm.trans hd') ▸ hwf

/-- Nodes may be moved to a parent that none of them stands at or above. -/
theorem WellFormed.moved {cs : List NodeId} (hd : d.WellFormed) (h : Moved d d' p ids cs)
    (hp : d.Live p) (hids : ∀ k ∈ ids, d.Live k ∧ k ≠ Document.root ∧ ¬ d.Above k p)
    (hn : ids.Nodup) (hperm : cs.Perm ((d.childrenOf p).filter (· ∉ ids) ++ ids)) :
    d'.WellFormed := by
  have hlive : ∀ k ∈ ids, d.Live k := fun k hk => (hids k hk).1
  obtain ⟨d₁, -, h₁⟩ := Tied.detachAll ids hd.tied hlive
  have hplanted := h.planted h₁ hd.tied hp hlive hn hperm fun hm => (hids _ hm).2.1 rfl
  exact (hd.loosen h₁.loosened).plant hplanted fun k hk ha =>
    (hids k hk).2.2 (h₁.loosened.above ha)

/-- Once the first of some nodes has been moved to a parent that none of them stands at or
above, the others may follow. -/
theorem WellFormed.moved_first (hd : d.WellFormed)
    (h : Moved d d' p [id] ((d.childrenOf p).filter (· ∉ [id]) ++ [id])) (hp : d.Live p)
    (hids : ∀ k ∈ id :: ids, d.Live k ∧ k ≠ Document.root ∧ ¬ d.Above k p) :
    d'.WellFormed ∧ ∀ k ∈ ids, d'.Live k ∧ k ≠ Document.root ∧ ¬ d'.Above k p := by
  have hone : ∀ k ∈ [id], d.Live k ∧ k ≠ Document.root ∧ ¬ d.Above k p := fun k hk =>
    hids k (List.mem_singleton.1 hk ▸ List.mem_cons_self ..)
  refine ⟨hd.moved h hp hone (List.nodup_singleton id) (.refl _), fun k hk => ?_⟩
  obtain ⟨hlive, hroot, habove⟩ := hids k (List.mem_cons_of_mem _ hk)
  refine ⟨(h.live_iff k).2 hlive, hroot, fun ha => habove ?_⟩
  refine above_of_parentOf_eq (fun c hc => ?_) (fun k hk => (hone k hk).2.2) ha
  rw [h.parentOf_eq (fun k hk => (hone k hk).1), if_neg hc]

/-- Nodes may be appended, one after the other, to a parent that none of them stands
at or above. -/
theorem WellFormed.moveAll : ∀ (ids : List NodeId) {d : Document}, d.WellFormed → d.Live p →
    (∀ k ∈ ids, d.Live k ∧ k ≠ Document.root ∧ ¬ d.Above k p) →
    ∃ d', d.moveAll p ids = .ok d' ∧ d'.WellFormed
  | [], d, hd, _, _ => ⟨d, rfl, hd⟩
  | id :: ids, d, hd, hp, h => by
      have hid := h id (List.mem_cons_self ..)
      obtain ⟨-, d₂, hd₂, -, h₂⟩ := hd.tied.move hid.1 hp ids
      obtain ⟨hwf, hrest⟩ := hd.moved_first h₂ hp h
      obtain ⟨d₃, hd₃, hwf₃⟩ := WellFormed.moveAll ids hwf ((h₂.live_iff p).2 hp) hrest
      exact ⟨d₃, hd₂.trans hd₃, hwf₃⟩

theorem WellFormed.append (hd : d.WellFormed) (hp : d.Live p)
    (h : ∀ k ∈ ids, d.Live k ∧ k ≠ Document.root ∧ ¬ d.Above k p) :
    ∃ d', d.append p ids = .ok d' ∧ d'.WellFormed := by
  obtain ⟨d', hd', hwf⟩ := WellFormed.moveAll ids hd hp h
  refine ⟨d'.record (.appendChildren p ids), ?_, hwf.record _⟩
  rw [Document.append, hd']
  rfl

/-- Nodes may be brought in front of an anchor if none of them stands above it. An
anchor among the nodes themselves has no parent by then, so nothing is asked. -/
theorem WellFormed.insertBefore (hd : d.WellFormed) (ha : d.Live a) (hn : ids.Nodup)
    (h : ∀ k ∈ ids, d.Live k ∧ k ≠ Document.root)
    (habove : ∀ p, a ∉ ids → d.parentOf a = some p → ∀ k ∈ ids, ¬ d.Above k p) :
    ∃ d', d.insertBefore a ids = .ok d' ∧ d'.WellFormed ∧ ∀ k, d'.labelOf k = d.labelOf k := by
  obtain ⟨d₁, h₁, hnone, hsome⟩ := hd.toLinked.insertBefore ha (fun k hk => (h k hk).1)
    (fun hm => (h _ hm).2 rfl) hn
  cases hpar : d₁.parentOf a with
  | none => exact ⟨d₁, hnone hpar, hd.loosen h₁, h₁.labelOf⟩
  | some p =>
      obtain ⟨d₂, hd₂, h₂⟩ := hsome p hpar
      have haids : a ∉ ids := by
        intro hm
        rw [h₁.parentOf, if_pos hm] at hpar
        cases hpar
      rw [h₁.parentOf, if_neg haids] at hpar
      have hp : ∀ k ∈ ids, ¬ d₁.Above k p := fun k hk ha =>
        habove p haids hpar k hk (h₁.above ha)
      exact ⟨d₂, hd₂, (hd.loosen h₁).plant h₂ hp, fun k => (h₂.labelOf k).trans (h₁.labelOf k)⟩

theorem WellFormed.replace (hd : d.WellFormed) (ha : d.Live a) (hn : ids.Nodup)
    (h : ∀ k ∈ ids, d.Live k ∧ k ≠ Document.root)
    (habove : ∀ p, a ∉ ids → d.parentOf a = some p → ∀ k ∈ ids, ¬ d.Above k p) :
    ∃ d', d.replace a ids = .ok d' ∧ d'.WellFormed := by
  obtain ⟨d₁, hd₁, hwf₁, hlabel⟩ := hd.insertBefore ha hn h habove
  obtain ⟨d₂, hd₂, hwf₂⟩ := hwf₁.dropSubtree ((live_congr (hlabel a)).2 ha)
  refine ⟨d₂.record (.replaceNode a ids), ?_, hwf₂.record _⟩
  rw [Document.replace, hd₁, Except.ok_bind, hd₂]
  rfl

/-- A new node stands nowhere, and its number was nobody's. -/
theorem WellFormed.create (hd : d.WellFormed) {data : NodeData} (hdata : data ≠ .document) :
    (d.create data).2.WellFormed := by
  have hnone : d.get? d.nodes.nextKey = none := d.nodes.get?_nextKey
  have hpar : (d.create data).2.parentOf = d.parentOf := by
    funext k
    unfold parentOf
    rw [get?_create]
    by_cases hk : k = d.nodes.nextKey
    · simp [hk, hnone]
    · simp [hk]
  have hcs : (d.create data).2.childrenOf = d.childrenOf := by
    funext k
    unfold childrenOf
    rw [get?_create]
    by_cases hk : k = d.nodes.nextKey
    · simp [hk, hnone]
    · simp [hk]
  apply hd.of_links hpar hcs
  · obtain ⟨n, hn, hrest⟩ := hd.root
    refine ⟨n, ?_, hrest⟩
    rw [get?_create, if_neg, hn]
    intro he
    rw [he, hnone] at hn
    cases hn
  · intro k n hn hdoc
    rw [get?_create] at hn
    split at hn
    · cases hn
      exact absurd hdoc hdata
    · exact hd.unique k n hn hdoc
  · intro k n hn
    rw [get?_create] at hn
    split at hn
    · cases hn
      symm
      assumption
    · exact hd.key k n hn

/-- An element that is another element now is linked as before. -/
theorem WellFormed.setElement (hd : d.WellFormed) {n : LiveNode} (hn : d.get? id = some n)
    (hdata : n.data ≠ .document) (e : Element) :
    (d.modify id fun n => { n with data := .element e }).WellFormed := by
  apply hd.of_links
  · funext k
    unfold parentOf
    by_cases hk : id = k <;> simp [hk, Option.bind_map]
  · funext k
    unfold childrenOf
    by_cases hk : id = k <;> simp [hk, Option.map_map, Function.comp_def]
  · obtain ⟨m, hm, hdoc, hp⟩ := hd.root
    refine ⟨m, ?_, hdoc, hp⟩
    rw [get?_modify, if_neg, hm]
    rintro rfl
    rw [hn, Option.some.injEq] at hm
    exact hdata (hm ▸ hdoc)
  · intro k m hm hdoc
    rw [get?_modify] at hm
    split at hm
    · obtain ⟨l, -, rfl⟩ := Option.map_eq_some_iff.1 hm
      cases hdoc
    · exact hd.unique k m hm hdoc
  · intro k m hm
    rw [get?_modify] at hm
    split at hm
    · obtain ⟨l, hl, rfl⟩ := Option.map_eq_some_iff.1 hm
      exact hd.key k l hl
    · exact hd.key k m hm

theorem WellFormed.editElement (hd : d.WellFormed) (h : d.Live id)
    (rule : Element → Option (Element × Mutation)) :
    ∃ d', d.editElement id rule = .ok d' ∧ d'.WellFormed := by
  obtain ⟨n, hn, hget⟩ := h.node
  have hok : ∃ d', d.editElement id rule = .ok d' := by
    rw [Document.editElement, hn]
    exact ⟨_, rfl⟩
  obtain ⟨d', hd'⟩ := hok
  refine ⟨d', hd', ?_⟩
  rcases editElement_cases hd' with ⟨-, rfl⟩ | ⟨e, e', m, he, -, rfl⟩
  · exact hd
  · rw [element?, hget, Option.bind_some] at he
    have hdata : n.data ≠ .document := by
      intro hdata
      rw [hdata] at he
      cases he
    exact (hd.setElement hget hdata e').record m

/-- The document as it starts. -/
theorem get?_new (recording : Bool) (k : NodeId) :
    (new recording).get? k =
      if k = Document.root then some ⟨Document.root, .document, none, []⟩ else none := by
  have h := (Slab.empty (α := LiveNode)).get?_insert ⟨Document.root, .document, none, []⟩ k
  rw [Slab.get?_empty] at h
  exact h

theorem wellFormed_new (recording : Bool) : (new recording).WellFormed := by
  have hpar : ∀ k, (new recording).parentOf k = none := by
    intro k
    unfold parentOf
    rw [get?_new]
    split <;> rfl
  have hcs : ∀ k, (new recording).childrenOf k = [] := by
    intro k
    unfold childrenOf
    rw [get?_new]
    split <;> rfl
  have hlinked : (new recording).Linked := by
    refine ⟨⟨_, get?_new recording _, rfl, rfl⟩, ?_, ?_, ?_, ?_⟩
    · intro k n hn _
      rw [get?_new] at hn
      by_contra hk
      rw [if_neg hk] at hn
      cases hn
    · intro k n hn
      rw [get?_new] at hn
      split at hn
      · cases hn
        symm
        assumption
      · cases hn
    · intro k
      rw [hcs]
      exact List.nodup_nil
    · intro p c
      rw [hcs, hpar]
      simp
  refine .of_wellFounded hlinked ⟨fun k => .intro k fun p hp => ?_⟩
  rw [hpar] at hp
  cases hp

end LiveMarkup.Document
