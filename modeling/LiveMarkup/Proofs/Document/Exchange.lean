import LiveMarkup.Proofs.Document.Below

/-!
# One child exchanged for others

A child of a parent, with all that stands below it, is exchanged for other
subtrees. Some nodes elsewhere lose their children on the way, and nothing else
changes (`Document.Exchanged`). This is put together from a change of the forests
that are emptied and one of the forest under the parent
(`Document.Exchanged.after`). A child that is kept is changed at the same time as
the forests are emptied (`Document.Reforested.exchanged_kept`).
-/

namespace LiveMarkup

open Subtree

namespace Document

/-- Subtrees stand in the place of a child of a parent, some nodes have no children
any longer, and nothing else has changed except for the nodes that were taken out
with the child and from under the emptied nodes. -/
structure Exchanged (d : Document) (parent : NodeId) (i : Nat) (us : List Subtree)
    (emptied out : List NodeId) (d' : Document) : Prop where
  held : AllHeld d'.get? parent us
  parent_eq : d'.get? parent = (d.get? parent).map fun m =>
    { m with children := m.children.take i ++ us.map Subtree.id ++ m.children.drop (i + 1) }
  empty : ∀ k ∈ emptied, d'.get? k = (d.get? k).map LiveNode.childless
  same : ∀ k, d.Live k → k ≠ parent → k ∉ emptied → k ∉ out → d'.get? k = d.get? k
  nodeCount : d'.nodeCount + out.length = d.nodeCount + (allIds us).length

theorem take_append_drop_of_getElem? {α : Type} {l : List α} {i : Nat} {a : α}
    (h : l[i]? = some a) : l.take i ++ [a] ++ l.drop (i + 1) = l := by
  obtain ⟨hi, rfl⟩ := List.getElem?_eq_some_iff.1 h
  rw [List.append_assoc, List.singleton_append, ← List.drop_eq_getElem_cons hi,
    List.take_append_drop]

variable {d d₁ d' : Document} {parent id : NodeId} {i : Nat} {F F' : Forest} {t : Subtree}
  {pre us post : List Subtree} {emptied out : List NodeId}

/-- A child may be exchanged for itself. -/
theorem Exchanged.refl {m : LiveNode} (ht : t.Held d.get? (some parent))
    (hm : d.get? parent = some m) (hplace : m.children[i]? = some t.id) :
    Exchanged d parent i [t] [] t.ids d := by
  constructor
  case held => exact ⟨ht, trivial⟩
  case parent_eq =>
    rw [hm, Option.map_some, List.map_cons, List.map_nil, take_append_drop_of_getElem? hplace]
  case empty => exact fun k hk => nomatch hk
  case same => exact fun _ _ _ _ _ => rfl
  case nodeCount => rw [allIds_cons, allIds_nil, List.append_nil]

/-- A change of the forest under a parent at one place is an exchange. -/
theorem Reforested.exchanged (hr : Reforested (insert parent ∅) d F d' F')
    (hd : d.Hosts (insert parent ∅) F) (hF : F parent = pre ++ t :: post)
    (hF' : F' parent = pre ++ (us ++ post)) : Exchanged d parent pre.length us [] t.ids d' := by
  have hmem : parent ∈ insert parent (∅ : Set NodeId) := Set.mem_insert parent ∅
  obtain ⟨m, hm, hchildren⟩ := hd.host parent hmem
  have hold := hd.held parent hmem
  have hnew := hr.hosts.held parent hmem
  rw [hF, allHeld_append, allHeld_cons] at hold
  rw [hF', allHeld_append, allHeld_append] at hnew
  constructor
  case held => exact hnew.2.1
  case parent_eq =>
    rw [hr.get?_host hd hmem hm, hm, Option.map_some, hchildren, hF, hF']
    simp [List.drop_append]
  case empty => exact fun k hk => nomatch hk
  case same =>
    intro k hlive hne _ hout
    by_cases hpre : k ∈ allIds pre
    · exact hold.1.view_eq hnew.1 k hpre
    by_cases hpost : k ∈ allIds post
    · exact hold.2.2.view_eq hnew.2.2 k hpost
    · obtain ⟨n, hn⟩ := live_iff.1 hlive
      have hin : k ∉ F.inside (insert parent ∅) := by
        rw [insert_empty_eq, Forest.inside_singleton, hF]
        simp [hpre, hpost, hout]
      rw [hn]
      exact (hr.get?_eq (by simpa using hne) hin hn).1
  case nodeCount =>
    have hcount := hr.nodeCount hd
    rw [insert_empty_eq, ncard_inside_singleton (hd.nodup parent hmem),
      ncard_inside_singleton (hr.hosts.nodup parent hmem), hF, hF'] at hcount
    simp only [allIds_append, allIds_cons, List.length_append] at hcount
    omega

/-- An exchange after nodes elsewhere have been emptied. -/
theorem Exchanged.after (h : Exchanged d₁ parent i us [] out d')
    (hr : Reforested {k | k ∈ emptied} d F d₁ (F.clear emptied))
    (hd : d.Hosts {k | k ∈ emptied} F) (hn : emptied.Nodup) (hlive : d.Live parent)
    (hparent : parent ∉ emptied ∧ parent ∉ F.ids emptied) (hout : ∀ k ∈ emptied, k ∉ out) :
    Exchanged d parent i us emptied (out ++ F.ids emptied) d' := by
  have hsame : ∀ k, d.Live k → k ∉ emptied → k ∉ F.ids emptied → d₁.get? k = d.get? k := by
    intro k hk hke hkF
    obtain ⟨n, hkn⟩ := live_iff.1 hk
    rw [← Forest.mem_inside_mem] at hkF
    rw [hkn]
    exact (hr.get?_eq hke hkF hkn).1
  constructor
  case held => exact h.held
  case parent_eq => rw [h.parent_eq, hsame parent hlive hparent.1 hparent.2]
  case empty =>
    intro k hk
    obtain ⟨n, hkn, -⟩ := hd.host k hk
    have hkn' := hr.get?_host hd hk hkn
    rw [Forest.clear_of_mem hk] at hkn'
    have hne : k ≠ parent := fun he => hparent.1 (he ▸ hk)
    rw [h.same k (live_iff.2 ⟨_, hkn'⟩) hne List.not_mem_nil (hout k hk), hkn', hkn]
    rfl
  case same =>
    intro k hk hne hke hko
    rw [List.mem_append, not_or] at hko
    have hk₁ := hsame k hk hke hko.2
    obtain ⟨n, hkn⟩ := live_iff.1 hk
    rw [h.same k (live_iff.2 ⟨n, hk₁.trans hkn⟩) hne List.not_mem_nil hko.1, hk₁]
  case nodeCount =>
    have hcount := hr.nodeCount_ids hd hn
    rw [Forest.ids_eq_nil fun k hk => Forest.clear_of_mem hk] at hcount
    have hcount' := h.nodeCount
    rw [List.length_append]
    simp only [List.length_nil] at hcount
    omega

/-! ## A child that is kept -/

theorem Relabeled.live {data : NodeData} (h : Relabeled d d' id data) : d'.live = d.live := by
  ext k
  have hk := h k
  by_cases hne : k = id
  · rw [if_pos hne] at hk
    simp [Document.live, hk]
  · rw [if_neg hne] at hk
    simp [Document.live, hk]

theorem Relabeled.nodeCount {data : NodeData} (h : Relabeled d d' id data) :
    d'.nodeCount = d.nodeCount := by
  rw [← ncard_live, ← ncard_live, h.live]

/-- What a host is does not matter for what stands under it. -/
theorem Hosts.relabel_host {H : Set NodeId} {data : NodeData} (hd : d.Hosts H F) (hid : id ∈ H)
    (hr : Relabeled d d' id data) : d'.Hosts H F := by
  constructor
  case root_live =>
    have hroot : root ∈ d'.live := hr.live ▸ hd.root_live
    exact hroot
  case root_notMem => exact hd.root_notMem
  case host =>
    intro k hk
    obtain ⟨n, hn, hchildren⟩ := hd.host k hk
    by_cases hne : k = id
    · subst hne
      exact ⟨_, hr.get?_self hn, hchildren⟩
    · exact ⟨n, (hr.get?_of_ne hne).trans hn, hchildren⟩
  case held =>
    intro k hk
    refine (hd.held k hk).congr fun x hx => hr.get?_of_ne fun he => ?_
    exact (hd.notMem_of_mem hk hx).1 (he ▸ hid)
  case nodup => exact hd.nodup
  case unique => exact hd.unique
  case host_notMem => exact hd.host_notMem

/-- A child that is kept may be changed, with all that stands below it, while nodes
elsewhere are emptied. -/
theorem Reforested.exchanged_kept {data data' : NodeData} (hr : Relabeled d d₁ id data')
    (hre : Reforested {k | k ∈ id :: emptied} d₁ F d' F') (hd : d.Hosts {k | k ∈ id :: emptied} F)
    (hn : (id :: emptied).Nodup) (hF' : ∀ k ∈ emptied, F' k = [])
    (ht : (Subtree.node id data (F id)).Held d.get? (some parent)) {m : LiveNode}
    (hm : d.get? parent = some m) (hplace : m.children[i]? = some id)
    (hparent : parent ∉ id :: emptied ∧ parent ∉ F.ids (id :: emptied)) :
    Exchanged d parent i [.node id data' (F' id)] emptied (id :: F.ids (id :: emptied)) d' := by
  have hmem : id ∈ id :: emptied := List.mem_cons_self ..
  have hd₁ : d₁.Hosts {k | k ∈ id :: emptied} F := hd.relabel_host hmem hr
  have hsame : ∀ k, d.Live k → k ∉ id :: emptied → k ∉ F.ids (id :: emptied) →
      d'.get? k = d.get? k := by
    intro k hk hke hkF
    obtain ⟨n, hkn⟩ := live_iff.1 hk
    have hne : k ≠ id := fun he => hke (he ▸ List.mem_cons_self ..)
    have hkn₁ := (hr.get?_of_ne hne).trans hkn
    rw [← Forest.mem_inside_mem] at hkF
    rw [hkn]
    exact (hre.get?_eq hke hkF hkn₁).1
  constructor
  case held => exact ⟨⟨hre.get?_host hd₁ hmem (hr.get?_self ht.1), hre.hosts.held id hmem⟩, trivial⟩
  case parent_eq =>
    rw [hsame parent (live_iff.2 ⟨m, hm⟩) hparent.1 hparent.2, hm, Option.map_some, List.map_cons,
      List.map_nil, Subtree.id, take_append_drop_of_getElem? hplace]
  case empty =>
    intro k hk
    have hk' : k ∈ id :: emptied := List.mem_cons_of_mem _ hk
    have hne : k ≠ id := fun he => (List.nodup_cons.1 hn).1 (he ▸ hk)
    obtain ⟨n, hkn, -⟩ := hd.host k hk'
    rw [hre.get?_host hd₁ hk' ((hr.get?_of_ne hne).trans hkn), hF' k hk, hkn]
    rfl
  case same =>
    intro k hk _ hke hko
    rw [List.mem_cons, not_or] at hko
    exact hsame k hk (by simp [hko.1, hke]) hko.2
  case nodeCount =>
    have hcount := hre.nodeCount_ids hd₁ hn
    rw [Forest.ids_cons F', Forest.ids_eq_nil hF', List.append_nil, hr.nodeCount] at hcount
    rw [allIds_cons, allIds_nil, List.append_nil, ids_node, List.length_cons, List.length_cons]
    omega

end Document

end LiveMarkup
