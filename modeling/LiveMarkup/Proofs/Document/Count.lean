import LiveMarkup.Proofs.Document.Forest
import Mathlib.Data.Set.Card

/-!
# How many nodes are live

The size of a slab is the number of its keys in use. So when the forests under
hosts change and nothing else does, the number of live nodes changes by what the
forests hold (`Document.Reforested.nodeCount`). Under a single parent that had no
children, all of that is new (`Document.GrownUnder`).
-/

namespace LiveMarkup

open Subtree

namespace Slab

variable {α : Type}

theorem length_filter_range (l : List (Option α)) :
    ((List.range l.length).filter fun k => l[k]?.join.isSome).length = l.countP Option.isSome := by
  induction l using List.reverseRecOn with
  | nil => rfl
  | append_singleton l a ih =>
      have hfront : (List.range l.length).filter (fun k => (l ++ [a])[k]?.join.isSome) =
          (List.range l.length).filter fun k => l[k]?.join.isSome := by
        refine List.filter_congr fun k hk => ?_
        rw [List.getElem?_append_left (List.mem_range.1 hk)]
      rw [List.length_append, List.length_singleton, List.range_succ, List.filter_append, hfront,
        List.length_append, ih, List.countP_append]
      cases a <;> simp

theorem length_keys (s : Slab α) : s.keys.length = s.size := by
  have h := length_filter_range s.slots.toList
  rw [Array.countP_toList] at h
  simpa [keys, size, capacity, get?] using h

theorem mem_keys (s : Slab α) (k : Nat) : k ∈ s.keys ↔ ∃ a, s.get? k = some a := by
  rw [keys, List.mem_filter, List.mem_range, Option.isSome_iff_exists]
  constructor
  · exact fun h => h.2
  · intro h
    refine ⟨?_, h⟩
    obtain ⟨a, ha⟩ := h
    by_contra hlt
    have hnone : s.slots[k]? = none := Array.getElem?_eq_none (Nat.le_of_not_lt hlt)
    rw [get?, hnone] at ha
    cases ha

theorem nodup_keys (s : Slab α) : s.keys.Nodup :=
  List.nodup_range.filter _

end Slab

namespace Forest

/-- The numbers of all nodes in the forests under some nodes. -/
def ids (F : Forest) (ks : List NodeId) : List NodeId :=
  ks.flatMap fun k => allIds (F k)

@[simp] theorem ids_cons (F : Forest) (k : NodeId) (ks : List NodeId) :
    F.ids (k :: ks) = allIds (F k) ++ F.ids ks :=
  rfl

theorem mem_ids {F : Forest} {ks : List NodeId} {x : NodeId} :
    x ∈ F.ids ks ↔ ∃ k ∈ ks, x ∈ allIds (F k) :=
  List.mem_flatMap

theorem inside_mem (F : Forest) (ks : List NodeId) :
    F.inside {k | k ∈ ks} = {x | x ∈ F.ids ks} :=
  Set.ext fun _ => mem_ids.symm

theorem mem_inside_mem {F : Forest} {ks : List NodeId} {x : NodeId} :
    x ∈ F.inside {k | k ∈ ks} ↔ x ∈ F.ids ks :=
  mem_ids.symm

theorem ids_eq_nil {F : Forest} {ks : List NodeId} (h : ∀ k ∈ ks, F k = []) : F.ids ks = [] := by
  refine List.flatMap_eq_nil_iff.2 fun k hk => ?_
  rw [h k hk]
  rfl

end Forest

namespace Document

/-- The numbers of the live nodes. -/
def live (d : Document) : Set NodeId :=
  {k | ∃ n, d.get? k = some n}

theorem live_eq (d : Document) : d.live = d.nodes.keys.toFinset := by
  ext k
  rw [Finset.mem_coe, List.mem_toFinset, Slab.mem_keys]
  rfl

theorem finite_live (d : Document) : d.live.Finite := by
  rw [live_eq]
  exact Finset.finite_toSet _

theorem ncard_live (d : Document) : d.live.ncard = d.nodeCount := by
  rw [live_eq, Set.ncard_coe_finset, List.toFinset_card_of_nodup d.nodes.nodup_keys,
    Slab.length_keys]
  rfl

variable {d d' : Document} {H : Set NodeId} {F F' : Forest}

theorem Hosts.inside_subset (hd : d.Hosts H F) : F.inside H ⊆ d.live :=
  fun k ⟨h, hh, hk⟩ => (hd.held h hh).live k hk

theorem mem_live_sdiff {X : Set NodeId} {k : NodeId} :
    k ∈ d.live \ X ↔ ∃ n, d.rest H X k = some n := by
  by_cases hX : k ∈ X
  · rw [rest_of_mem hX]
    exact ⟨fun h => absurd hX h.2, fun h => h.elim fun _ hn => nomatch hn⟩
  · by_cases hH : k ∈ H
    · rw [rest_of_host hX hH]
      constructor
      · rintro ⟨⟨n, hn⟩, -⟩
        exact ⟨n.childless, by rw [hn]; rfl⟩
      · rintro ⟨n, hn⟩
        obtain ⟨m, hm, -⟩ := Option.map_eq_some_iff.1 hn
        exact ⟨⟨m, hm⟩, hX⟩
    · rw [rest_of_notMem hX hH]
      exact ⟨fun h => h.1, fun h => ⟨h, hX⟩⟩

/-- The number of live nodes changes by what the forests hold. -/
theorem Reforested.nodeCount (hr : Reforested H d F d' F') (hd : d.Hosts H F) :
    d'.nodeCount + (F.inside H).ncard = d.nodeCount + (F'.inside H).ncard := by
  have hrest : d'.live \ F'.inside H = d.live \ F.inside H := by
    ext k
    rw [mem_live_sdiff (H := H), mem_live_sdiff (H := H), hr.rest_eq]
  have hold := Set.ncard_sdiff_add_ncard_of_subset hd.inside_subset d.finite_live
  have hnew := Set.ncard_sdiff_add_ncard_of_subset hr.hosts.inside_subset d'.finite_live
  rw [ncard_live] at hold hnew
  rw [hrest] at hnew
  omega

theorem ncard_mem {ks : List NodeId} (hn : ks.Nodup) : {k | k ∈ ks}.ncard = ks.length := by
  have hset : {k | k ∈ ks} = (ks.toFinset : Set NodeId) := by
    ext k
    rw [Finset.mem_coe, List.mem_toFinset]
    rfl
  rw [hset, Set.ncard_coe_finset, List.toFinset_card_of_nodup hn]

theorem ncard_inside_singleton {h : NodeId} (hn : (allIds (F h)).Nodup) :
    (F.inside {h}).ncard = (allIds (F h)).length := by
  rw [Forest.inside_singleton, ncard_mem hn]

/-- No node stands twice in the forests under hosts. -/
theorem Hosts.nodup_ids {ks : List NodeId} (hd : d.Hosts {k | k ∈ ks} F) (hn : ks.Nodup) :
    (F.ids ks).Nodup := by
  refine List.nodup_flatMap.2 ⟨hd.nodup, (List.Nodup.pairwise_of_forall_ne hn ?_)⟩
  intro h hh g hg hne x hx hx'
  exact hne (hd.unique h hh g hg x hx hx')

/-- The number of live nodes changes by what the forests under some nodes hold. -/
theorem Reforested.nodeCount_ids {ks : List NodeId} (hr : Reforested {k | k ∈ ks} d F d' F')
    (hd : d.Hosts {k | k ∈ ks} F) (hn : ks.Nodup) :
    d'.nodeCount + (F.ids ks).length = d.nodeCount + (F'.ids ks).length := by
  have hcount := hr.nodeCount hd
  rwa [Forest.inside_mem, Forest.inside_mem, ncard_mem (hd.nodup_ids hn),
    ncard_mem (hr.hosts.nodup_ids hn)] at hcount

/-! ## New nodes under one parent -/

/-- Under a parent that had no children stand new nodes now, and nothing else
has changed. -/
structure GrownUnder (d : Document) (parent : NodeId) (ts : List Subtree) (d' : Document) :
    Prop where
  held : AllHeld d'.get? parent ts
  nodup : (allIds ts).Nodup
  new : ∀ k ∈ allIds ts, d.get? k = none
  parent_eq : d'.get? parent = (d.get? parent).map ({ · with children := ts.map Subtree.id })
  same : ∀ k, k ≠ parent → k ∉ allIds ts → d'.get? k = d.get? k
  nodeCount : d'.nodeCount = d.nodeCount + (allIds ts).length

theorem Hosts.of_childless {d : Document} {H : Set NodeId} (hroot : ∃ n, d.get? root = some n)
    (hH : ∀ k ∈ H, ∃ m, d.get? k = some m ∧ m.children = []) : d.Hosts H fun _ => [] := by
  have hnil : ∀ k, k ∉ Forest.inside (fun _ => []) H := by
    rintro k ⟨h, -, hk⟩
    cases hk
  refine ⟨hroot, hnil root, hH, fun _ _ => trivial, fun _ _ => List.nodup_nil, ?_,
    fun h _ => hnil h⟩
  intro h _ g _ k hk
  cases hk

theorem Reforested.grownUnder {d d' : Document} {parent : NodeId} {F : Forest}
    (hr : Reforested (insert parent ∅) d (fun _ => []) d' F)
    (hd : d.Hosts (insert parent ∅) fun _ => []) : d.GrownUnder parent (F parent) d' := by
  have hmem : parent ∈ insert parent (∅ : Set NodeId) := Set.mem_insert parent ∅
  have hnil : ∀ k, k ∉ Forest.inside (fun _ => []) (insert parent ∅) := by
    rintro k ⟨h, -, hk⟩
    cases hk
  have hout : ∀ k, k ≠ parent → k ∉ insert parent (∅ : Set NodeId) := fun k hk hk' =>
    hk (hk'.resolve_right (Set.notMem_empty k))
  have hcount := hr.nodeCount hd
  rw [insert_empty_eq] at hcount
  refine ⟨hr.hosts.held parent hmem, hr.hosts.nodup parent hmem, fun k hk => ?_, ?_,
    fun k hk hkF => ?_, ?_⟩
  · have hne : k ≠ parent := fun he => (hr.hosts.notMem_of_mem hmem hk).1 (he ▸ hmem)
    have hkF : k ∈ F.inside (insert parent ∅) := ⟨parent, hmem, hk⟩
    have hrest := congrFun hr.rest_eq k
    rw [rest_of_mem hkF, rest_of_notMem (hnil k) (hout k hne)] at hrest
    exact hrest.symm
  · obtain ⟨n, hn, -⟩ := hd.host parent hmem
    rw [hn, hr.get?_host hd hmem hn]
    rfl
  · have hkF' : k ∉ F.inside (insert parent ∅) := by
      rintro ⟨h, hh, hk'⟩
      obtain rfl : h = parent := hh.resolve_right (Set.notMem_empty h)
      exact hkF hk'
    have hrest := congrFun hr.rest_eq k
    rwa [rest_of_notMem hkF' (hout k hk), rest_of_notMem (hnil k) (hout k hk)] at hrest
  · rw [ncard_inside_singleton (F := fun _ => []) List.nodup_nil,
      ncard_inside_singleton (hr.hosts.nodup parent hmem)] at hcount
    exact hcount

end Document

end LiveMarkup
