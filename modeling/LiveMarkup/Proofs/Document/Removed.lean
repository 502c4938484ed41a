import LiveMarkup.Proofs.Document.Below
import LiveMarkup.Proofs.Document.Calls

/-!
# What removing takes out

Removing a node takes out what stands below it, no more and no less, and so many live nodes
are fewer. If its parent stays that has lost it, and no other node that stays has changed
(`Document.Removed`). The children of a node are removed as one, since it stays itself.
-/

namespace LiveMarkup.Document

variable {d d' d₁ d₂ : Document} {a c id k p : NodeId} {ids tops : List NodeId}

theorem nodes_record (d : Document) (m : Mutation) : (d.record m).nodes = d.nodes := by
  unfold record
  split <;> rfl

/-- The live nodes that some nodes stand at or above. -/
def belowAny (d : Document) (tops : List NodeId) : Set NodeId :=
  {k | ∃ t ∈ tops, k ∈ d.below t}

/-- Some nodes are gone with everything below them, and nothing else is. Their parents have
lost them from their children, and all others that are left are as they were. -/
structure Removed (d d' : Document) (tops : List NodeId) : Prop where
  live : d'.live = d.live \ d.belowAny tops
  nodeCount : d'.nodeCount + (d.belowAny tops).ncard = d.nodeCount
  parent : ∀ t ∈ tops, ∀ p, d.parentOf t = some p → d'.get? p =
    (d.get? p).map fun n => { n with children := n.children.filter (· ∉ tops) }
  same : ∀ k ∈ d'.live, (∀ t ∈ tops, d.parentOf t ≠ some k) → d'.get? k = d.get? k

theorem Cut.live_eq (h : Cut d d' tops) : d'.live = d.live \ d.belowAny tops := by
  ext k
  constructor
  · rintro ⟨n, hn⟩
    obtain ⟨m, hm, -, hk⟩ := h.exists_of_get? hn
    exact ⟨⟨m, hm⟩, fun ⟨t, ht, hbelow⟩ => hk t ht hbelow.2⟩
  · rintro ⟨⟨n, hn⟩, hk⟩
    refine ⟨n.without k tops, ?_⟩
    rw [h.left k fun t ht ha => hk ⟨t, ht, live_iff.2 ⟨n, hn⟩, ha⟩, hn]
    rfl

theorem belowAny_subset (d : Document) (tops : List NodeId) : d.belowAny tops ⊆ d.live :=
  fun _ ⟨_, _, hk⟩ => live_iff.1 hk.1

/-- Cutting off nodes whose parents stay removes them. -/
theorem Cut.removed (h : Cut d d' tops) (hd : d.WellFormed)
    (hstay : ∀ t ∈ tops, ∀ p, d.parentOf t = some p → ∀ s ∈ tops, ¬ d.Above s p) :
    Removed d d' tops where
  live := h.live_eq
  nodeCount := by
    have hcount := Set.ncard_sdiff_add_ncard_of_subset (d.belowAny_subset tops) d.finite_live
    rwa [← h.live_eq, ncard_live, ncard_live] at hcount
  parent t ht p hp := by
    have hap := hstay t ht p hp
    have hptops : p ∉ tops := fun hm => hap p hm .refl
    rw [h.left p hap]
    simp only [LiveNode.without, if_neg hptops]
  same k hk hpar := by
    obtain ⟨n, hn⟩ := hk
    obtain ⟨m, hm, rfl, hstays⟩ := h.exists_of_get? hn
    rw [hn, hm, LiveNode.without_eq_self]
    · exact fun hmem => absurd .refl (hstays k hmem)
    · exact hd.tied.filter_children hm hpar

/-- Removing a live node other than the root removes it with everything below it and
changes its parent alone. Removing the children of a node does so for all of them and leaves
it none. Nothing happens when the root is to be removed. -/
theorem WellFormed.removes (hd : d.WellFormed) :
    (∀ id, d.Live id → id ≠ root → ∃ d', d.remove id = .ok d' ∧ Removed d d' [id]) ∧
      (∀ p, d.Live p → ∃ d', d.removeChildren p = .ok d' ∧ Removed d d' (d.childrenOf p) ∧
        d'.childrenOf p = []) ∧
      ∃ d', d.remove root = .ok d' ∧ d'.nodes = d.nodes := by
  refine ⟨fun id hid hroot => ?_, fun p hp => ?_, ?_⟩
  · obtain ⟨d', hd', hcut⟩ := hd.cut_remove hid hroot
    refine ⟨d', hd', hcut.removed hd fun t ht p hp s hs => ?_⟩
    rw [List.mem_singleton.1 ht] at hp
    rw [List.mem_singleton.1 hs]
    exact hd.not_above_parent hp
  · obtain ⟨d', hd', hcut⟩ := hd.cut_removeChildren hp
    have hparent : ∀ t ∈ d.childrenOf p, d.parentOf t = some p := fun t => (hd.mem_iff p t).1
    have hapart : ∀ t ∈ d.childrenOf p, ¬ d.Above t p := fun t ht =>
      hd.not_above_parent (hparent t ht)
    refine ⟨d', hd', hcut.removed hd fun t ht q hq => ?_, ?_⟩
    · rw [hparent t ht, Option.some.injEq] at hq
      exact hq ▸ hapart
    · rw [List.eq_nil_iff_forall_not_mem]
      intro c hc
      obtain ⟨-, hc, hnot⟩ := hcut.mem_childrenOf_iff.1 hc
      exact hnot hc
  · refine ⟨d.record (.removeNode root), ?_, nodes_record d _⟩
    rw [Document.remove, Document.dropSubtree, if_pos rfl]
    rfl

/-- A list with an item and a text beside it, and another text behind the list. -/
def grove : List TreeCall :=
  [.createElement (.ofTag "ul"), .createElement (.ofTag "li"), .createText "behind",
    .createText "item", .createText "beside", .append 0 [1, 3], .append 1 [2, 5], .append 2 [4]]

theorem exists_grove : ∃ d, (new true).performAll grove = .ok d ∧ d.WellFormed ∧
    d.childrenOf 0 = [1, 3] ∧ d.childrenOf 1 = [2, 5] ∧ d.childrenOf 2 = [4] ∧
    d.chain 1 = [1, 0] := by
  obtain ⟨d, hd, hwf⟩ := exists_performAll true grove rfl
  have hlinks : ((new true).performAll grove).map
      (fun d => ([0, 1, 2].map d.childrenOf, d.chain 1)) =
      .ok ([[1, 3], [2, 5], [4]], [1, 0]) := rfl
  rw [hd] at hlinks
  exact ⟨d, hd, hwf, by simpa [Except.map, and_assoc] using hlinks⟩

/-- With the list go its item, the text in that and the text beside it. -/
theorem removes_grove : ∃ d d', (new true).performAll grove = .ok d ∧ d.WellFormed ∧ d.Live 1 ∧
    1 ≠ root ∧ d.remove 1 = .ok d' ∧ Removed d d' [1] ∧ d'.childrenOf 0 = [3] := by
  obtain ⟨d, hd, hwf, h0, -⟩ := exists_grove
  have hparent : d.parentOf 1 = some 0 := (hwf.mem_iff 0 1).1 (by simp [h0])
  have hlive := live_of_parentOf hparent
  have hroot : 1 ≠ root := by decide
  obtain ⟨d', hd', hremoved⟩ := hwf.removes.1 1 hlive hroot
  refine ⟨d, d', hd, hwf, hlive, hroot, hd', hremoved, ?_⟩
  have hget := hremoved.parent 1 (List.mem_singleton_self 1) 0 hparent
  obtain ⟨n, hn⟩ := live_iff.1 (hwf.live_parent hparent)
  rw [childrenOf_of_get? hn] at h0
  rw [childrenOf, hget, hn, Option.map_some, Option.map_some, h0]
  rfl

end LiveMarkup.Document
