import LiveMarkup.Proofs.Document.WellFormed

/-!
# What stands below a node

In a well-formed document each live node is the top of a subtree, since fewer nodes
stand below a child than below its parent (`Document.WellFormed.exists_subtree`).
Different children of one parent have no node below both. So live nodes that stand
apart from each other are hosts of what stands below them, and what is known of
forests under hosts can be used on any well-formed document
(`Document.WellFormed.exists_hosts`).
-/

namespace LiveMarkup

namespace Subtree

mutual

/-- Two views that hold one subtree agree on its nodes. -/
theorem Held.view_eq {view view' : View} : ∀ {t : Subtree} {parent : Option NodeId},
    t.Held view parent → t.Held view' parent → ∀ k ∈ t.ids, view' k = view k
  | .node id data cs, _, h, h', k, hk => by
      rcases List.mem_cons.1 hk with rfl | hk
      · rw [h.1, h'.1]
      · exact h.2.view_eq h'.2 k hk

theorem AllHeld.view_eq {view view' : View} : ∀ {ts : List Subtree} {parent : NodeId},
    AllHeld view parent ts → AllHeld view' parent ts → ∀ k ∈ allIds ts, view' k = view k
  | [], _, _, _, _, hk => nomatch hk
  | t :: ts, _, h, h', k, hk => by
      rcases List.mem_append.1 hk with hk | hk
      · exact h.1.view_eq h'.1 k hk
      · exact h.2.view_eq h'.2 k hk

end

mutual

/-- A view holds only one subtree below a number. -/
theorem Held.eq_of_id_eq {view : View} : ∀ {t u : Subtree} {parent parent' : Option NodeId},
    t.Held view parent → u.Held view parent' → t.id = u.id → t = u
  | .node id data cs, .node _ data' ds, _, _, ht, hu, he => by
      obtain rfl : id = _ := he
      obtain ⟨-, rfl, -, hcs⟩ := LiveNode.mk.inj (Option.some.inj (ht.1.symm.trans hu.1))
      rw [ht.2.eq_of_map_id_eq hu.2 hcs]

theorem AllHeld.eq_of_map_id_eq {view : View} : ∀ {ts us : List Subtree}
    {parent parent' : NodeId}, AllHeld view parent ts → AllHeld view parent' us →
    ts.map Subtree.id = us.map Subtree.id → ts = us
  | [], [], _, _, _, _, _ => rfl
  | t :: ts, u :: us, _, _, ht, hu, he => by
      obtain ⟨hid, hids⟩ := List.cons.inj he
      rw [ht.1.eq_of_id_eq hu.1 hid, ht.2.eq_of_map_id_eq hu.2 hids]

end

end Subtree

namespace Document

open Subtree

variable {d : Document} {c c' k x : NodeId}

/-- The live nodes that a node stands at or above. -/
def below (d : Document) (k : NodeId) : Set NodeId :=
  {x | d.Live x ∧ d.Above k x}

theorem finite_below (d : Document) (k : NodeId) : (d.below k).Finite :=
  d.finite_live.subset fun _ hx => live_iff.1 hx.1

theorem above_of_parentOf (h : d.parentOf c = some k) : d.Above k c :=
  .single h

/-- Of two nodes above a third, one stands above the other. -/
theorem above_total (h : d.Above c x) (h' : d.Above c' x) : d.Above c c' ∨ d.Above c' c := by
  have hunique : Relator.RightUnique fun c p => d.parentOf c = some p :=
    fun _ _ _ hp hq => Option.some.inj (hp.symm.trans hq)
  exact (Relation.ReflTransGen.total_of_right_unique hunique h h').symm

mutual

/-- A subtree has all children of its nodes. -/
theorem mem_ids_of_parentOf (hd : d.Linked) : ∀ {t : Subtree} {parent : Option NodeId},
    t.Held d.get? parent → k ∈ t.ids → d.parentOf c = some k → c ∈ t.ids
  | .node _ _ cs, _, ht, hk, hp => by
      rcases List.mem_cons.1 hk with rfl | hk
      · have hc := (hd.mem_iff k c).2 hp
        rw [childrenOf_of_get? ht.1] at hc
        exact List.mem_cons_of_mem _ ((map_id_sublist cs).mem hc)
      · exact List.mem_cons_of_mem _ (mem_allIds_of_parentOf hd ht.2 hk hp)

theorem mem_allIds_of_parentOf (hd : d.Linked) : ∀ {ts : List Subtree} {parent : NodeId},
    AllHeld d.get? parent ts → k ∈ allIds ts → d.parentOf c = some k → c ∈ allIds ts
  | [], _, _, hk, _ => nomatch hk
  | t :: ts, _, hts, hk, hp => by
      rcases List.mem_append.1 hk with hk | hk
      · exact List.mem_append_left _ (mem_ids_of_parentOf hd hts.1 hk hp)
      · exact List.mem_append_right _ (mem_allIds_of_parentOf hd hts.2 hk hp)

end

/-- A subtree has everything that stands below its nodes. -/
theorem mem_allIds_of_above (hd : d.Linked) {ts : List Subtree} {parent : NodeId}
    (hts : AllHeld d.get? parent ts) (hk : k ∈ allIds ts) (ha : d.Above k x) : x ∈ allIds ts := by
  induction ha using Relation.ReflTransGen.head_induction_on with
  | refl => exact hk
  | head hp _ ih => exact mem_allIds_of_parentOf hd hts ih hp

namespace WellFormed

/-- Fewer nodes stand below a child than below its parent. -/
theorem ncard_below_lt (hd : d.WellFormed) (h : d.parentOf c = some k) :
    (d.below c).ncard < (d.below k).ncard := by
  refine Set.ncard_lt_ncard ⟨fun x hx => ⟨hx.1, ?_⟩, fun hsub => ?_⟩ (d.finite_below k)
  · exact (above_of_parentOf h).trans hx.2
  · have hk : k ∈ d.below k := ⟨hd.live_parent h, .refl⟩
    exact hd.not_above_parent h (hsub hk).2

/-- No node stands below two children of one parent. -/
theorem not_above_sibling (hd : d.WellFormed) (hc : d.parentOf c = some k)
    (hc' : d.parentOf c' = some k) (hne : c ≠ c') (hx : d.Above c x) : ¬ d.Above c' x := by
  intro hx'
  rcases above_total hx hx' with ha | ha
  · exact hd.not_above_parent hc ((above_iff_of_parentOf hc' hne.symm).1 ha)
  · exact hd.not_above_parent hc' ((above_iff_of_parentOf hc hne).1 ha)

/-- Subtrees of some children of a node, once each child is the top of one. -/
theorem exists_subtrees (hd : d.WellFormed) : ∀ {cs : List NodeId}, cs.Nodup →
    (∀ c ∈ cs, d.parentOf c = some k) →
    (∀ c ∈ cs, ∃ t : Subtree, t.id = c ∧ t.Held d.get? (some k) ∧ t.ids.Nodup ∧
      ∀ x ∈ t.ids, d.Above c x) →
    ∃ ts : List Subtree, ts.map Subtree.id = cs ∧ AllHeld d.get? k ts ∧ (allIds ts).Nodup ∧
      ∀ x ∈ allIds ts, ∃ c ∈ cs, d.Above c x
  | [], _, _, _ => ⟨[], rfl, trivial, List.nodup_nil, fun _ hx => nomatch hx⟩
  | c :: cs, hn, hp, ht => by
      obtain ⟨hc, hcs⟩ := List.nodup_cons.1 hn
      have hpc := hp c (List.mem_cons_self ..)
      obtain ⟨t, rfl, hheld, hnodup, habove⟩ := ht c (List.mem_cons_self ..)
      obtain ⟨ts, rfl, hheld', hnodup', habove'⟩ := exists_subtrees hd hcs
        (fun c hc => hp c (List.mem_cons_of_mem _ hc)) fun c hc => ht c (List.mem_cons_of_mem _ hc)
      refine ⟨t :: ts, rfl, ⟨hheld, hheld'⟩, ?_, fun x hx => ?_⟩
      · refine List.nodup_append.2 ⟨hnodup, hnodup', ?_⟩
        rintro x hx y hy rfl
        obtain ⟨c', hc', ha'⟩ := habove' x hy
        have hne : t.id ≠ c' := fun he => hc (he ▸ hc')
        exact hd.not_above_sibling hpc (hp c' (List.mem_cons_of_mem _ hc')) hne (habove x hx) ha'
      · rcases List.mem_append.1 hx with hx | hx
        · exact ⟨t.id, List.mem_cons_self .., habove x hx⟩
        · obtain ⟨c', hc', ha⟩ := habove' x hx
          exact ⟨c', List.mem_cons_of_mem _ hc', ha⟩

/-- Each live node is the top of a subtree, in which it stands above all others. -/
theorem exists_subtree (hd : d.WellFormed) (hk : d.Live k) :
    ∃ t : Subtree, t.id = k ∧ t.Held d.get? (d.parentOf k) ∧ t.ids.Nodup ∧
      ∀ x ∈ t.ids, d.Above k x := by
  induction hsize : (d.below k).ncard using Nat.strong_induction_on generalizing k with
  | _ size ih =>
      obtain ⟨n, hn⟩ := live_iff.1 hk
      have hparent : ∀ c ∈ n.children, d.parentOf c = some k := fun c hc =>
        (hd.mem_iff k c).1 ((childrenOf_of_get? hn).symm ▸ hc)
      have hnodup : n.children.Nodup := childrenOf_of_get? hn ▸ hd.nodup k
      obtain ⟨ts, hts, hheld, hids, habove⟩ := hd.exists_subtrees hnodup hparent fun c hc => by
        have hlt := hd.ncard_below_lt (hparent c hc)
        have hlive := live_of_parentOf (hparent c hc)
        obtain ⟨t, ht, hheld, hids, habove⟩ := ih _ (hsize ▸ hlt) hlive rfl
        exact ⟨t, ht, hparent c hc ▸ hheld, hids, habove⟩
      refine ⟨.node k n.data ts, rfl, ⟨?_, hheld⟩, List.nodup_cons.2 ⟨fun hmem => ?_, hids⟩, ?_⟩
      · have hkey := hd.key k n hn
        rw [hn, parentOf_of_get? hn, hts, ← hkey]
      · obtain ⟨c, hc, ha⟩ := habove k hmem
        exact hd.not_above_parent (hparent c hc) ha
      · intro x hx
        rcases List.mem_cons.1 hx with rfl | hx
        · exact .refl
        · obtain ⟨c, hc, ha⟩ := habove x hx
          exact (above_of_parentOf (hparent c hc)).trans ha

/-- Live nodes of which none stands above another are hosts of what stands below
them. -/
theorem exists_hosts (hd : d.WellFormed) {H : Set NodeId} (hlive : ∀ k ∈ H, d.Live k)
    (hapart : ∀ k ∈ H, ∀ l ∈ H, d.Above k l → k = l) :
    ∃ F, d.Hosts H F ∧ ∀ k ∈ H, ∀ x ∈ allIds (F k), d.Above k x := by
  have htop : ∀ k, ∃ ts, d.Live k → d.childrenOf k = ts.map Subtree.id ∧ AllHeld d.get? k ts ∧
      (k :: allIds ts).Nodup ∧ ∀ x ∈ allIds ts, d.Above k x := by
    intro k
    by_cases hk : d.Live k
    · obtain ⟨⟨k, data, ts⟩, rfl, hheld, hnodup, habove⟩ := hd.exists_subtree hk
      exact ⟨ts, fun _ => ⟨childrenOf_of_get? hheld.1, hheld.2, hnodup,
        fun x hx => habove x (List.mem_cons_of_mem _ hx)⟩⟩
    · exact ⟨[], fun h => absurd h hk⟩
  choose F hF using htop
  have habove : ∀ k ∈ H, ∀ x ∈ allIds (F k), d.Above k x := fun k hk => (hF k (hlive k hk)).2.2.2
  have hnot : ∀ k ∈ H, k ∉ allIds (F k) := fun k hk =>
    (List.nodup_cons.1 (hF k (hlive k hk)).2.2.1).1
  refine ⟨F, ?_, habove⟩
  constructor
  case root_live =>
    obtain ⟨n, hn, -⟩ := hd.root
    exact ⟨n, hn⟩
  case root_notMem =>
    rintro ⟨k, hk, hroot⟩
    obtain rfl := (above_iff_of_top hd.parentOf_root).1 (habove k hk root hroot)
    exact hnot root hk hroot
  case host =>
    intro k hk
    obtain ⟨n, hn⟩ := live_iff.1 (hlive k hk)
    exact ⟨n, hn, childrenOf_of_get? hn ▸ (hF k (hlive k hk)).1⟩
  case held => exact fun k hk => (hF k (hlive k hk)).2.1
  case nodup => exact fun k hk => (List.nodup_cons.1 (hF k (hlive k hk)).2.2.1).2
  case unique =>
    intro k hk l hl x hx hx'
    rcases above_total (habove k hk x hx) (habove l hl x hx') with ha | ha
    · exact hapart k hk l hl ha
    · exact (hapart l hl k hk ha).symm
  case host_notMem =>
    rintro k hk ⟨l, hl, hkl⟩
    obtain rfl := hapart l hl k hk (habove l hl k hkl)
    exact hnot l hl hkl

/-- Each live node is a host of what stands below it. -/
theorem hosts (hd : d.WellFormed) (hk : d.Live k) : ∃ F, d.Hosts (insert k ∅) F := by
  rw [insert_empty_eq]
  obtain ⟨F, hF, -⟩ := hd.exists_hosts (H := {k}) (fun l hl => Set.mem_singleton_iff.1 hl ▸ hk)
    fun l hl m hm _ => hl.trans hm.symm
  exact ⟨F, hF⟩

end WellFormed

end Document

end LiveMarkup
