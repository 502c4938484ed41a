import LiveMarkup.Proofs.Document.Subtree
import Mathlib.Data.Set.Insert
import Mathlib.Order.BooleanAlgebra.Set

/-!
# Forests under hosts

Some live nodes are hosts: their children are ours to change, together with
everything below them. `Document.Hosts` says which subtrees stand under which
host, and that no node stands in two places. `Document.rest` is what is left of
a document without that: our nodes are gone and the hosts have no children.

A change of a document is then described by the forests before and after it and
by a rest that stays the same (`Document.Reforested`). Such changes compose
(`Reforested.trans`), and a change under some of the hosts is a change under all
of them (`Reforested.frame`) or under a node further up (`Reforested.above`). A
node that has been made and stands nowhere yet is kept apart (`Document.Sprouted`).
-/

namespace LiveMarkup

open Subtree

/-- The subtrees that stand under each node. -/
abbrev Forest := NodeId → List Subtree

/-- The nodes that stand in the forests of some hosts. -/
def Forest.inside (F : Forest) (H : Set NodeId) : Set NodeId :=
  {k | ∃ h ∈ H, k ∈ allIds (F h)}

theorem Forest.mem_inside {F : Forest} {H : Set NodeId} {k : NodeId} :
    k ∈ F.inside H ↔ ∃ h ∈ H, k ∈ allIds (F h) :=
  Iff.rfl

theorem Forest.inside_mono {F : Forest} {H K : Set NodeId} (hK : K ⊆ H) :
    F.inside K ⊆ F.inside H :=
  fun _ ⟨h, hh, hk⟩ => ⟨h, hK hh, hk⟩

theorem Forest.inside_congr {F F' : Forest} {H : Set NodeId} (hF : ∀ h ∈ H, F' h = F h) :
    F'.inside H = F.inside H := by
  ext k
  constructor
  · rintro ⟨h, hh, hk⟩
    exact ⟨h, hh, hF h hh ▸ hk⟩
  · rintro ⟨h, hh, hk⟩
    exact ⟨h, hh, (hF h hh).symm ▸ hk⟩

theorem Forest.inside_union (F : Forest) (H K : Set NodeId) :
    F.inside (H ∪ K) = F.inside H ∪ F.inside K := by
  ext k
  simp only [mem_inside, Set.mem_union, or_and_right, exists_or]

theorem Forest.inside_singleton (F : Forest) (h : NodeId) :
    F.inside {h} = {k | k ∈ allIds (F h)} := by
  ext k
  simp [mem_inside]

theorem notMem_of_nodup_beside {as bs cs : List NodeId} {k : NodeId}
    (h : (as ++ (bs ++ cs)).Nodup) (hk : k ∈ as ∨ k ∈ cs) : k ∉ bs := by
  grind [List.nodup_append]

/-- What stands in the middle may be exchanged for something apart from what
stands beside it. -/
theorem nodup_beside {as bs bs' cs : List NodeId} (h : (as ++ (bs ++ cs)).Nodup)
    (hbs' : bs'.Nodup) (hk : ∀ k, k ∈ as ∨ k ∈ cs → k ∉ bs') : (as ++ (bs' ++ cs)).Nodup := by
  grind [List.nodup_append]

/-- The forests with another one under a node. -/
def Forest.set (F : Forest) (h : NodeId) (ts : List Subtree) : Forest :=
  fun k => if k = h then ts else F k

@[simp] theorem Forest.set_self (F : Forest) (h : NodeId) (ts : List Subtree) :
    F.set h ts h = ts := by
  simp [set]

theorem Forest.set_of_ne {F : Forest} {h k : NodeId} {ts : List Subtree} (hk : k ≠ h) :
    F.set h ts k = F k := by
  simp [set, hk]

@[simp] theorem Forest.set_set (F : Forest) (h : NodeId) (ts us : List Subtree) :
    (F.set h ts).set h us = F.set h us := by
  funext k
  by_cases hk : k = h
  · rw [hk, set_self, set_self]
  · rw [set_of_ne hk, set_of_ne hk, set_of_ne hk]

@[simp] theorem Forest.set_eq_self (F : Forest) (h : NodeId) : F.set h (F h) = F := by
  funext k
  by_cases hk : k = h
  · rw [hk, set_self]
  · rw [set_of_ne hk]

/-- The forests with nothing under some nodes. -/
def Forest.clear (F : Forest) (hs : List NodeId) : Forest :=
  fun k => if k ∈ hs then [] else F k

theorem Forest.clear_of_mem {F : Forest} {hs : List NodeId} {k : NodeId} (hk : k ∈ hs) :
    F.clear hs k = [] := by
  simp [clear, hk]

theorem Forest.clear_of_notMem {F : Forest} {hs : List NodeId} {k : NodeId} (hk : k ∉ hs) :
    F.clear hs k = F k := by
  simp [clear, hk]

@[simp] theorem Forest.clear_nil (F : Forest) : F.clear [] = F := by
  funext k
  simp [clear]

theorem Forest.clear_append (F : Forest) (hs gs : List NodeId) :
    F.clear (hs ++ gs) = (F.clear hs).clear gs := by
  funext k
  by_cases hk : k ∈ hs <;> by_cases hk' : k ∈ gs <;> simp [clear, hk, hk']

theorem Forest.clear_cons (F : Forest) (h : NodeId) (hs : List NodeId) :
    F.clear (h :: hs) = (F.clear hs).set h [] := by
  funext k
  by_cases hk : k = h
  · rw [hk, set_self, clear_of_mem (List.mem_cons_self ..)]
  · simp [clear, set, hk]

/-- A live node without its children. -/
def LiveNode.childless (n : LiveNode) : LiveNode :=
  { n with children := [] }

namespace Document

open Classical in
/-- What is left of a document without some nodes and without the children of
some hosts. -/
noncomputable def rest (d : Document) (H X : Set NodeId) : View := fun k =>
  if k ∈ X then none else if k ∈ H then (d.get? k).map LiveNode.childless else d.get? k

/-- The forests that stand under hosts, apart from each other and from the
hosts. -/
structure Hosts (d : Document) (H : Set NodeId) (F : Forest) : Prop where
  root_live : ∃ n, d.get? root = some n
  root_notMem : root ∉ F.inside H
  host : ∀ h ∈ H, ∃ n, d.get? h = some n ∧ n.children = (F h).map Subtree.id
  held : ∀ h ∈ H, AllHeld d.get? h (F h)
  nodup : ∀ h ∈ H, (allIds (F h)).Nodup
  unique : ∀ h ∈ H, ∀ g ∈ H, ∀ k, k ∈ allIds (F h) → k ∈ allIds (F g) → h = g
  host_notMem : ∀ h ∈ H, h ∉ F.inside H

/-- The forests under hosts have changed and nothing else has. -/
structure Reforested (H : Set NodeId) (d : Document) (F : Forest) (d' : Document) (F' : Forest) :
    Prop where
  hosts : d'.Hosts H F'
  rest_eq : d'.rest H (F'.inside H) = d.rest H (F.inside H)

/-- The forests under hosts have changed, a subtree has come up that stands
nowhere, and nothing else has changed. -/
structure Sprouted (H : Set NodeId) (d : Document) (F : Forest) (d' : Document) (F' : Forest)
    (t : Subtree) : Prop where
  hosts : d'.Hosts H F'
  held : t.Held d'.get? none
  nodup : t.ids.Nodup
  apart : ∀ k ∈ t.ids, k ∉ F'.inside H ∧ k ∉ H ∧ k ≠ root
  rest_eq : d'.rest H (F'.inside H ∪ {k | k ∈ t.ids}) = d.rest H (F.inside H)

/-! ## The rest of a document -/

theorem rest_of_mem {d : Document} {H X : Set NodeId} {k : NodeId} (h : k ∈ X) :
    d.rest H X k = none := by
  simp [rest, h]

theorem rest_of_get?_eq_none {d : Document} {H X : Set NodeId} {k : NodeId}
    (h : d.get? k = none) : d.rest H X k = none := by
  simp [rest, h]

theorem rest_of_notMem {d : Document} {H X : Set NodeId} {k : NodeId} (h : k ∉ X) (hk : k ∉ H) :
    d.rest H X k = d.get? k := by
  simp [rest, h, hk]

theorem rest_of_host {d : Document} {H X : Set NodeId} {k : NodeId} (h : k ∉ X) (hk : k ∈ H) :
    d.rest H X k = (d.get? k).map LiveNode.childless := by
  simp [rest, h, hk]

theorem rest_congr {d d' : Document} {H X X' : Set NodeId} {k : NodeId} (hX : k ∈ X' ↔ k ∈ X)
    (hk : d'.get? k = d.get? k) : d'.rest H X' k = d.rest H X k := by
  by_cases h : k ∈ X
  · rw [rest_of_mem h, rest_of_mem (hX.2 h)]
  · by_cases hH : k ∈ H
    · rw [rest_of_host h hH, rest_of_host (fun h' => h (hX.1 h')) hH, hk]
    · rw [rest_of_notMem h hH, rest_of_notMem (fun h' => h (hX.1 h')) hH, hk]

/-- Two documents with one rest still have one rest when more is left out of
both. -/
theorem rest_mono {d d' : Document} {H K X X' : Set NodeId} (h : d'.rest H X' = d.rest H X)
    (hK : H ⊆ K) (Y : Set NodeId) : d'.rest K (X' ∪ Y) = d.rest K (X ∪ Y) := by
  funext k
  have hk := congrFun h k
  have hsub : k ∈ H → k ∈ K := fun hH => hK hH
  simp only [rest, Set.mem_union] at hk ⊢
  by_cases hY : k ∈ Y
  · simp [hY]
  · by_cases hX : k ∈ X <;> by_cases hX' : k ∈ X' <;> by_cases hH : k ∈ H <;>
      by_cases hK' : k ∈ K <;> simp_all [eq_comm (a := none)]

theorem rest_insert_of_mem {d : Document} {H X : Set NodeId} {k : NodeId} (h : k ∈ X) :
    d.rest (insert k H) X = d.rest H X := by
  funext l
  by_cases hl : l = k
  · subst hl
    rw [rest_of_mem h, rest_of_mem h]
  · by_cases hX : l ∈ X <;> by_cases hH : l ∈ H <;> simp [rest, hl, hX, hH]

/-! ## Forests of some of the hosts -/

variable {d d' d₁ d₂ : Document} {H K : Set NodeId} {F F' F₁ F₂ : Forest}

theorem Hosts.mono (hd : d.Hosts H F) (hK : K ⊆ H) : d.Hosts K F where
  root_live := hd.root_live
  root_notMem := fun h => hd.root_notMem (Forest.inside_mono hK h)
  host := fun h hh => hd.host h (hK hh)
  held := fun h hh => hd.held h (hK hh)
  nodup := fun h hh => hd.nodup h (hK hh)
  unique := fun h hh g hg => hd.unique h (hK hh) g (hK hg)
  host_notMem := fun h hh hi => hd.host_notMem h (hK hh) (Forest.inside_mono hK hi)

theorem Hosts.congr (hd : d.Hosts H F) (hF : ∀ h ∈ H, F' h = F h) : d.Hosts H F' := by
  have hin : F'.inside H = F.inside H := Forest.inside_congr hF
  constructor
  case root_live => exact hd.root_live
  case root_notMem => exact hin ▸ hd.root_notMem
  case host =>
    intro h hh
    rw [hF h hh]
    exact hd.host h hh
  case held =>
    intro h hh
    rw [hF h hh]
    exact hd.held h hh
  case nodup =>
    intro h hh
    rw [hF h hh]
    exact hd.nodup h hh
  case unique =>
    intro h hh g hg k
    rw [hF h hh, hF g hg]
    exact hd.unique h hh g hg k
  case host_notMem => exact hin ▸ hd.host_notMem

theorem Hosts.of_get?_eq (hd : d.Hosts H F) (hget : d'.get? = d.get?) : d'.Hosts H F :=
  ⟨hget ▸ hd.root_live, hd.root_notMem, hget ▸ hd.host, hget ▸ hd.held, hd.nodup, hd.unique,
    hd.host_notMem⟩

theorem rest_of_get?_eq {X : Set NodeId} (hget : d'.get? = d.get?) : d'.rest H X = d.rest H X :=
  funext fun k => rest_congr Iff.rfl (congrFun hget k)

theorem Hosts.notMem_of_mem (hd : d.Hosts H F) {h k : NodeId} (hh : h ∈ H) (hk : k ∈ allIds (F h)) :
    k ∉ H ∧ k ≠ root := by
  have hi : k ∈ F.inside H := ⟨h, hh, hk⟩
  exact ⟨fun hkH => hd.host_notMem k hkH hi, fun he => hd.root_notMem (he ▸ hi)⟩

/-- A document that agrees on hosts and on what stands under them has the same
hosts. -/
theorem Hosts.transfer (hd : d.Hosts H F) (hroot : ∃ n, d'.get? root = some n)
    (hget : ∀ k, k ∈ H ∨ k ∈ F.inside H → d'.get? k = d.get? k) : d'.Hosts H F := by
  refine ⟨hroot, hd.root_notMem, ?_, ?_, hd.nodup, hd.unique, hd.host_notMem⟩
  · intro h hh
    rw [hget h (Or.inl hh)]
    exact hd.host h hh
  · intro h hh
    exact (hd.held h hh).congr fun k hk => hget k (Or.inr ⟨h, hh, hk⟩)

/-- Hosts that stand apart from each other are hosts together. -/
theorem Hosts.union (hd : d.Hosts H F) (hd' : d.Hosts K F)
    (hin : ∀ k ∈ F.inside H, k ∉ K ∧ k ∉ F.inside K) (hH : ∀ k ∈ H, k ∉ F.inside K) :
    d.Hosts (H ∪ K) F := by
  constructor
  case root_live => exact hd.root_live
  case root_notMem =>
    rw [Forest.inside_union]
    exact fun hr => hr.elim hd.root_notMem hd'.root_notMem
  case host => exact fun h hh => hh.elim (hd.host h) (hd'.host h)
  case held => exact fun h hh => hh.elim (hd.held h) (hd'.held h)
  case nodup => exact fun h hh => hh.elim (hd.nodup h) (hd'.nodup h)
  case unique =>
    intro h hh g hg k hk hk'
    rcases hh with hh | hh <;> rcases hg with hg | hg
    · exact hd.unique h hh g hg k hk hk'
    · exact absurd ⟨g, hg, hk'⟩ (hin k ⟨h, hh, hk⟩).2
    · exact absurd ⟨h, hh, hk⟩ (hin k ⟨g, hg, hk'⟩).2
    · exact hd'.unique h hh g hg k hk hk'
  case host_notMem =>
    intro h hh hi
    rw [Forest.inside_union] at hi
    rcases hh with hh | hh <;> rcases hi with hi | hi
    · exact hd.host_notMem h hh hi
    · exact hH h hh hi
    · exact (hin h hi).1 hh
    · exact hd'.host_notMem h hh hi

theorem Hosts.single {h : NodeId} {n : LiveNode} (hroot : ∃ n, d.get? root = some n)
    (hn : d.get? h = some n) (hcs : n.children = (F h).map Subtree.id)
    (hheld : AllHeld d.get? h (F h)) (hnodup : (h :: allIds (F h)).Nodup)
    (hne : root ∉ allIds (F h)) : d.Hosts {h} F := by
  have hin : ∀ k, k ∈ F.inside {h} ↔ k ∈ allIds (F h) := fun k => by
    rw [Forest.inside_singleton]
    exact Iff.rfl
  obtain ⟨hh, hF⟩ := List.nodup_cons.1 hnodup
  constructor
  case root_live => exact hroot
  case root_notMem => exact fun hr => hne ((hin root).1 hr)
  case host =>
    intro g hg
    rw [Set.mem_singleton_iff.1 hg]
    exact ⟨n, hn, hcs⟩
  case held =>
    intro g hg
    rwa [Set.mem_singleton_iff.1 hg]
  case nodup =>
    intro g hg
    rwa [Set.mem_singleton_iff.1 hg]
  case unique =>
    intro g hg g' hg' k _ _
    rw [Set.mem_singleton_iff.1 hg, Set.mem_singleton_iff.1 hg']
  case host_notMem =>
    intro g hg hi
    rw [Set.mem_singleton_iff.1 hg] at hi
    exact hh ((hin h).1 hi)

theorem Hosts.join (hd : d.Hosts H F) {h : NodeId} {n : LiveNode} {ts : List Subtree}
    (hn : d.get? h = some n) (hcs : n.children = ts.map Subtree.id) (hheld : AllHeld d.get? h ts)
    (hnodup : (h :: allIds ts).Nodup) (hh : h ∉ H)
    (hin : ∀ k ∈ h :: allIds ts, k ∉ F.inside H) (hts : ∀ k ∈ allIds ts, k ∉ H ∧ k ≠ root) :
    d.Hosts (insert h H) (F.set h ts) := by
  have hset : ∀ g ∈ H, F.set h ts g = F g := fun g hg =>
    Forest.set_of_ne fun he => hh (he ▸ hg)
  have hself : F.set h ts h = ts := Forest.set_self F h ts
  have hone : d.Hosts {h} (F.set h ts) := by
    apply Hosts.single hd.root_live hn
    · rwa [hself]
    · rwa [hself]
    · rwa [hself]
    · rw [hself]
      exact fun hr => (hts root hr).2 rfl
  rw [Set.insert_eq]
  refine hone.union (hd.congr hset) (fun k hk => ?_) fun k hk => ?_
  · rw [Forest.inside_singleton, hself] at hk
    rw [Forest.inside_congr hset]
    exact ⟨(hts k hk).1, hin k (List.mem_cons_of_mem _ hk)⟩
  · rw [Forest.inside_congr hset, Set.mem_singleton_iff.1 hk]
    exact hin h (List.mem_cons_self ..)

/-! ## Another forest under one host -/

/-- The forest under one host is another now, and the document differs just
there: what was in the forest and is no longer in it is gone. -/
structure Replanted (d : Document) (H : Set NodeId) (F : Forest) (h : NodeId) (ts : List Subtree)
    (d' : Document) : Prop where
  old : d.Hosts H F
  mem : h ∈ H
  host : ∃ m, d.get? h = some m ∧ d'.get? h = some { m with children := ts.map Subtree.id }
  held : AllHeld d'.get? h ts
  nodup : (allIds ts).Nodup
  new : ∀ k ∈ allIds ts, k ∉ allIds (F h) → k ∉ F.inside H ∧ k ∉ H ∧ k ≠ root
  gone : ∀ k ∈ allIds (F h), k ∉ allIds ts → d'.get? k = none
  same : ∀ k, k ≠ h → k ∉ allIds (F h) → k ∉ allIds ts → d'.get? k = d.get? k

namespace Replanted

variable {h : NodeId} {ts : List Subtree}

/-- A number in the new forest names neither a host nor the root. -/
theorem notMem_of_mem (hr : Replanted d H F h ts d') {k : NodeId} (hk : k ∈ allIds ts) :
    k ∉ H ∧ k ≠ root := by
  by_cases hF : k ∈ allIds (F h)
  · exact hr.old.notMem_of_mem hr.mem hF
  · exact (hr.new k hk hF).2

theorem notMem_of_ne (hr : Replanted d H F h ts d') {g k : NodeId} (hg : g ∈ H) (hne : g ≠ h)
    (hk : k ∈ allIds (F g)) : k ∉ allIds (F h) ∧ k ∉ allIds ts := by
  have hF : k ∉ allIds (F h) := fun hF => hne (hr.old.unique g hg h hr.mem k hk hF)
  exact ⟨hF, fun hts => (hr.new k hts hF).1 ⟨g, hg, hk⟩⟩

theorem get?_of_ne (hr : Replanted d H F h ts d') {g k : NodeId} (hg : g ∈ H) (hne : g ≠ h)
    (hk : k ∈ allIds (F g)) : d'.get? k = d.get? k := by
  obtain ⟨h₁, h₂⟩ := hr.notMem_of_ne hg hne hk
  exact hr.same k (fun he => (hr.old.notMem_of_mem hg hk).1 (he ▸ hr.mem)) h₁ h₂

theorem get?_host (hr : Replanted d H F h ts d') {g : NodeId} (hg : g ∈ H ∨ g = root)
    (hne : g ≠ h) : d'.get? g = d.get? g := by
  refine hr.same g hne (fun hF => ?_) (fun hts => ?_)
  · have hnot := hr.old.notMem_of_mem hr.mem hF
    exact hg.elim hnot.1 hnot.2
  · have hnot := hr.notMem_of_mem hts
    exact hg.elim hnot.1 hnot.2

theorem hosts (hr : Replanted d H F h ts d') : d'.Hosts H (F.set h ts) := by
  obtain ⟨m, -, hget⟩ := hr.host
  have hroot : ∃ n, d'.get? root = some n := by
    by_cases hroot : root = h
    · exact ⟨_, hroot ▸ hget⟩
    · rw [hr.get?_host (Or.inr rfl) hroot]
      exact hr.old.root_live
  have hsub : H \ {h} ⊆ H := Set.sdiff_subset
  have hothers : d'.Hosts (H \ {h}) F := by
    refine (hr.old.mono hsub).transfer hroot fun k hk => ?_
    rcases hk with ⟨hk, hne⟩ | ⟨g, ⟨hg, hne⟩, hk⟩
    · exact hr.get?_host (Or.inl hk) hne
    · exact hr.get?_of_ne hg hne hk
  have hH : insert h (H \ {h}) = H := by
    rw [Set.insert_sdiff_singleton, Set.insert_eq_of_mem hr.mem]
  have hnodup : (h :: allIds ts).Nodup :=
    List.nodup_cons.2 ⟨fun hk => (hr.notMem_of_mem hk).1 hr.mem, hr.nodup⟩
  rw [← hH]
  refine hothers.join hget rfl hr.held hnodup (fun hk => hk.2 rfl) (fun k hk => ?_) fun k hk => ?_
  · rcases List.mem_cons.1 hk with rfl | hk
    · exact fun hi => hr.old.host_notMem k hr.mem (Forest.inside_mono hsub hi)
    · rintro ⟨g, ⟨hg, hne⟩, hkg⟩
      exact (hr.notMem_of_ne hg hne hkg).2 hk
  · exact ⟨fun hk' => (hr.notMem_of_mem hk).1 (hsub hk'), (hr.notMem_of_mem hk).2⟩

/-- What comes to stand under the host was a part of the rest, or of the forest
before. -/
theorem rest_eq (hr : Replanted d H F h ts d') :
    d'.rest H ((F.set h ts).inside H) = d.rest H (F.inside H ∪ {k | k ∈ allIds ts}) := by
  obtain ⟨m, hm, hget⟩ := hr.host
  have hin : ∀ k, k ∈ (F.set h ts).inside H ↔
      k ∈ allIds ts ∨ ∃ g ∈ H, g ≠ h ∧ k ∈ allIds (F g) := by
    intro k
    constructor
    · rintro ⟨g, hg, hk⟩
      by_cases hgh : g = h
      · subst hgh
        exact Or.inl (by simpa using hk)
      · rw [Forest.set_of_ne hgh] at hk
        exact Or.inr ⟨g, hg, hgh, hk⟩
    · rintro (hk | ⟨g, hg, hgh, hk⟩)
      · exact ⟨h, hr.mem, by simpa using hk⟩
      · exact ⟨g, hg, by rwa [Forest.set_of_ne hgh]⟩
  funext k
  by_cases hX' : k ∈ (F.set h ts).inside H
  · have hX : k ∈ F.inside H ∪ {k | k ∈ allIds ts} := by
      rcases (hin k).1 hX' with hk | ⟨g, hg, -, hk⟩
      · exact Or.inr hk
      · exact Or.inl ⟨g, hg, hk⟩
    rw [rest_of_mem hX', rest_of_mem hX]
  have hts : k ∉ allIds ts := fun hk => hX' ((hin k).2 (Or.inl hk))
  by_cases hF : k ∈ allIds (F h)
  · have hX : k ∈ F.inside H ∪ {k | k ∈ allIds ts} := Or.inl ⟨h, hr.mem, hF⟩
    rw [rest_of_mem hX, rest_of_get?_eq_none (hr.gone k hF hts)]
  have hX : k ∉ F.inside H ∪ {k | k ∈ allIds ts} := by
    rintro (⟨g, hg, hk⟩ | hk)
    · by_cases hgh : g = h
      · exact hF (hgh ▸ hk)
      · exact hX' ((hin k).2 (Or.inr ⟨g, hg, hgh, hk⟩))
    · exact hts hk
  by_cases hkh : k = h
  · subst hkh
    rw [rest_of_host hX' hr.mem, rest_of_host hX hr.mem, hget, hm]
    rfl
  · exact rest_congr (iff_of_false hX' hX) (hr.same k hkh hF hts)

end Replanted

/-! ## Changes of forests -/

namespace Reforested

theorem refl (hd : d.Hosts H F) : Reforested H d F d F :=
  ⟨hd, rfl⟩

theorem trans (h : Reforested H d F d₁ F₁) (h' : Reforested H d₁ F₁ d₂ F₂) :
    Reforested H d F d₂ F₂ :=
  ⟨h'.hosts, h'.rest_eq.trans h.rest_eq⟩

theorem of_get?_eq (h : Reforested H d F d₁ F') (hget : d'.get? = d₁.get?) :
    Reforested H d F d' F' :=
  ⟨h.hosts.of_get?_eq hget, (rest_of_get?_eq hget).trans h.rest_eq⟩

theorem congr (h : Reforested H d F d' F') (hF : ∀ k ∈ H, F₁ k = F' k) :
    Reforested H d F d' F₁ :=
  ⟨h.hosts.congr hF, Forest.inside_congr hF ▸ h.rest_eq⟩

/-- A node of the rest that is no host stays what it is. -/
theorem get?_eq (h : Reforested K d F d' F') {k : NodeId} {n : LiveNode} (hK : k ∉ K)
    (hk : k ∉ F.inside K) (hn : d.get? k = some n) : d'.get? k = some n ∧ k ∉ F'.inside K := by
  have hr := congrFun h.rest_eq k
  rw [rest_of_notMem hk hK, hn] at hr
  by_cases hk' : k ∈ F'.inside K
  · rw [rest_of_mem hk'] at hr
    cases hr
  · rw [rest_of_notMem hk' hK] at hr
    exact ⟨hr, hk'⟩

/-- A host changes in nothing but its children. -/
theorem get?_host (h : Reforested K d F d' F') (hd : d.Hosts K F) {k : NodeId} {n : LiveNode}
    (hK : k ∈ K) (hn : d.get? k = some n) :
    d'.get? k = some { n with children := (F' k).map Subtree.id } := by
  have hr := congrFun h.rest_eq k
  rw [rest_of_host (h.hosts.host_notMem k hK) hK, rest_of_host (hd.host_notMem k hK) hK, hn] at hr
  obtain ⟨m, hm, hcs⟩ := h.hosts.host k hK
  rw [hm] at hr
  have hmn : m.childless = n.childless := by simpa using hr
  rw [hm, ← hcs]
  cases m
  cases n
  simp_all [LiveNode.childless]

/-- Under hosts further out nothing changes. -/
theorem frame (h : Reforested K d F d' F') (hd : d.Hosts H F) (hK : K ⊆ H)
    (hF : ∀ k ∈ H, k ∉ K → F' k = F k) : Reforested H d F d' F' := by
  have hout : ∀ g ∈ H, g ∉ K → ∀ k ∈ allIds (F g),
      ∃ n, d.get? k = some n ∧ d'.get? k = some n ∧ k ∉ F'.inside K := by
    intro g hg hgK k hk
    obtain ⟨n, hn⟩ := (hd.held g hg).live k hk
    have hkK : k ∉ K := fun hkK => hd.host_notMem k (hK hkK) ⟨g, hg, hk⟩
    have hki : k ∉ F.inside K := fun ⟨g', hg', hk'⟩ =>
      hgK (hd.unique g hg g' (hK hg') k hk hk' ▸ hg')
    obtain ⟨h₁, h₂⟩ := h.get?_eq hkK hki hn
    exact ⟨n, hn, h₁, h₂⟩
  have houtHost : ∀ g ∈ H, g ∉ K → ∃ n, d.get? g = some n ∧ d'.get? g = some n ∧
      g ∉ F'.inside K := by
    intro g hg hgK
    obtain ⟨n, hn, -⟩ := hd.host g hg
    have hgi : g ∉ F.inside K := fun hgi => hd.host_notMem g hg (Forest.inside_mono hK hgi)
    obtain ⟨h₁, h₂⟩ := h.get?_eq hgK hgi hn
    exact ⟨n, hn, h₁, h₂⟩
  have hsub : H \ K ⊆ H := Set.sdiff_subset
  have hsame : ∀ g ∈ H \ K, F' g = F g := fun g hg => hF g hg.1 hg.2
  have hinside : F'.inside (H \ K) = F.inside (H \ K) := Forest.inside_congr hsame
  have hothers : d'.Hosts (H \ K) F' := by
    refine ((hd.mono hsub).transfer h.hosts.root_live fun k hk => ?_).congr hsame
    rcases hk with ⟨hk, hkK⟩ | ⟨g, ⟨hg, hgK⟩, hk⟩
    · obtain ⟨n, hn, hn', -⟩ := houtHost k hk hkK
      rw [hn, hn']
    · obtain ⟨n, hn, hn', -⟩ := hout g hg hgK k hk
      rw [hn, hn']
  have hH : K ∪ H \ K = H := Set.union_sdiff_cancel hK
  constructor
  · rw [← hH]
    refine h.hosts.union hothers (fun k hk => ⟨?_, ?_⟩) fun k hk => ?_
    · rintro ⟨hkH, hkK⟩
      obtain ⟨-, -, -, hnot⟩ := houtHost k hkH hkK
      exact hnot hk
    · rw [hinside]
      rintro ⟨g, ⟨hg, hgK⟩, hkg⟩
      obtain ⟨-, -, -, hnot⟩ := hout g hg hgK k hkg
      exact hnot hk
    · rw [hinside]
      exact fun hi => hd.host_notMem k (hK hk) (Forest.inside_mono hsub hi)
  · have hX : F.inside H = F.inside K ∪ F.inside (H \ K) := by rw [← Forest.inside_union, hH]
    have hX' : F'.inside H = F'.inside K ∪ F.inside (H \ K) := by
      rw [← hinside, ← Forest.inside_union, hH]
    rw [hX, hX']
    exact rest_mono h.rest_eq hK _

end Reforested

/-! ## Below a node of a forest -/

section Below

variable {h id : NodeId} {data : NodeData} {t : Subtree} {pre cs post : List Subtree}

theorem Hosts.held_of_eq (hd : d.Hosts H F) (hh : h ∈ H) (hF : F h = pre ++ t :: post) :
    t.Held d.get? (some h) := by
  have hall := hd.held h hh
  rw [hF] at hall
  exact hall.mem (by simp)

theorem Hosts.nodup_of_eq (hd : d.Hosts H F) (hh : h ∈ H) (hF : F h = pre ++ t :: post) :
    (allIds pre ++ (t.ids ++ allIds post)).Nodup := by
  have hall := hd.nodup h hh
  rwa [hF, allIds_append, allIds_cons] at hall

theorem Hosts.notMem_of_eq (hd : d.Hosts (insert h K) F)
    (hF : F h = pre ++ .node id data cs :: post) : id ∉ K ∧ id ∉ allIds cs := by
  have hmem : h ∈ insert h K := Set.mem_insert h K
  have hin : id ∈ allIds (F h) := by simp [hF]
  have hnodup := (List.nodup_append.1 (hd.nodup_of_eq hmem hF)).2.1
  have hids := (List.nodup_append.1 hnodup).1
  exact ⟨fun hid => (hd.notMem_of_mem hmem hin).1 (Set.mem_insert_of_mem h hid),
    (List.nodup_cons.1 hids).1⟩

theorem inside_below (hid : id ∉ K) :
    (F.set id cs).inside (insert id K) = {k | k ∈ allIds cs} ∪ F.inside K := by
  have hcongr : (F.set id cs).inside K = F.inside K :=
    Forest.inside_congr fun g hg => Forest.set_of_ne fun he => hid (he ▸ hg)
  rw [Set.insert_eq, Forest.inside_union, Forest.inside_singleton, Forest.set_self, hcongr]

/-- A node of the forest under a host is a host of what stands below it. -/
theorem Hosts.below (hd : d.Hosts (insert h K) F) (hh : h ∉ K)
    (hF : F h = pre ++ .node id data cs :: post) : d.Hosts (insert id K) (F.set id cs) := by
  have hmem : h ∈ insert h K := Set.mem_insert h K
  have hK : K ⊆ insert h K := Set.subset_insert h K
  have hheld := hd.held_of_eq hmem hF
  have hnodup : (id :: allIds cs).Nodup :=
    (List.nodup_append.1 (List.nodup_append.1 (hd.nodup_of_eq hmem hF)).2.1).1
  have hsub : ∀ k ∈ id :: allIds cs, k ∈ allIds (F h) := by
    intro k hk
    rw [hF, allIds_append, allIds_cons]
    exact List.mem_append_right _ (List.mem_append_left _ hk)
  have hid : id ∈ allIds (F h) := hsub id (List.mem_cons_self ..)
  have hidK : id ∉ K := fun hid' => (hd.notMem_of_mem hmem hid).1 (hK hid')
  refine (hd.mono hK).join hheld.1 rfl hheld.2 hnodup hidK (fun k hk => ?_) fun k hk => ?_
  · -- what stands below the node stands nowhere else
    rintro ⟨g, hg, hkg⟩
    exact hh (hd.unique h hmem g (hK hg) k (hsub k hk) hkg ▸ hg)
  · obtain ⟨hkH, hkroot⟩ := hd.notMem_of_mem hmem (hsub k (List.mem_cons_of_mem _ hk))
    exact ⟨fun hkK => hkH (hK hkK), hkroot⟩

theorem mem_allIds_around {k : NodeId} :
    k ∈ allIds (pre ++ .node id data cs :: post) ↔
      (k ∈ allIds pre ∨ k ∈ allIds post) ∨ k = id ∨ k ∈ allIds cs := by
  simp only [allIds_append, allIds_cons, ids_node, List.mem_append, List.mem_cons]
  tauto

theorem Hosts.notMem_below (hd : d.Hosts (insert h K) F)
    (hF : F h = pre ++ .node id data cs :: post) : id ∉ K ∧ h ≠ id := by
  have hmem : h ∈ insert h K := Set.mem_insert h K
  have hid : id ∈ allIds (F h) := by
    rw [hF]
    exact mem_allIds_around.2 (Or.inr (Or.inl rfl))
  have hnot := (hd.notMem_of_mem hmem hid).1
  exact ⟨fun hk => hnot (Set.mem_insert_of_mem h hk), fun he => hnot (he ▸ hmem)⟩

namespace Reforested

/-- A change below a node leaves the host further up and what stands beside the
node. -/
theorem get?_beside (hr : Reforested (insert id K) d (F.set id cs) d' F')
    (hd : d.Hosts (insert h K) F) (hh : h ∉ K) (hF : F h = pre ++ .node id data cs :: post)
    {k : NodeId} (hk : (k ∈ allIds pre ∨ k ∈ allIds post) ∨ k = h) :
    d'.get? k = d.get? k ∧ k ∉ F'.inside (insert id K) ∧ k ≠ id := by
  have hmem : h ∈ insert h K := Set.mem_insert h K
  have hK : K ⊆ insert h K := Set.subset_insert h K
  obtain ⟨hidK, hidh⟩ := hd.notMem_below hF
  have hids : ∀ l, (l ∈ allIds pre ∨ l ∈ allIds post) ∨ l = id ∨ l ∈ allIds cs →
      l ∈ allIds (F h) := fun l hl => hF ▸ mem_allIds_around.2 hl
  have hkK : k ∉ K := by
    rcases hk with hk | rfl
    · exact fun hkK => (hd.notMem_of_mem hmem (hids k (Or.inl hk))).1 (hK hkK)
    · exact hh
  have hkid : k ≠ id ∧ k ∉ allIds cs := by
    rcases hk with hk | rfl
    · have hnot := notMem_of_nodup_beside (hd.nodup_of_eq hmem hF) hk
      rw [ids_node, List.mem_cons, not_or] at hnot
      exact hnot
    · exact ⟨hidh, fun hkcs => hd.host_notMem k hmem ⟨k, hmem, hids k (Or.inr (Or.inr hkcs))⟩⟩
  have hki : k ∉ (F.set id cs).inside (insert id K) := by
    rw [inside_below hidK]
    rintro (hkcs | ⟨g, hg, hkg⟩)
    · exact hkid.2 hkcs
    · rcases hk with hk | rfl
      · exact hh (hd.unique h hmem g (hK hg) k (hids k (Or.inl hk)) hkg ▸ hg)
      · exact hd.host_notMem k hmem ⟨g, hK hg, hkg⟩
  have hlive : ∃ n, d.get? k = some n := by
    rcases hk with hk | rfl
    · exact (hd.held h hmem).live k (hids k (Or.inl hk))
    · obtain ⟨n, hn, -⟩ := hd.host k hmem
      exact ⟨n, hn⟩
  obtain ⟨n, hn⟩ := hlive
  obtain ⟨h₁, h₂⟩ := hr.get?_eq (by simp [hkid.1, hkK]) hki hn
  exact ⟨h₁.trans hn.symm, h₂, hkid.1⟩

theorem held_above (hr : Reforested (insert id K) d (F.set id cs) d' F')
    (hd : d.Hosts (insert h K) F) (hh : h ∉ K) (hF : F h = pre ++ .node id data cs :: post) :
    AllHeld d'.get? h (pre ++ .node id data (F' id) :: post) := by
  have hmem : h ∈ insert h K := Set.mem_insert h K
  have hmemId : id ∈ insert id K := Set.mem_insert id K
  have hbeside := fun k => hr.get?_beside (k := k) hd hh hF
  have htop := hr.get?_host (hd.below hh hF) hmemId (hd.held_of_eq hmem hF).1
  have hold := hd.held h hmem
  rw [hF, allHeld_append, allHeld_cons] at hold
  rw [allHeld_append, allHeld_cons]
  exact ⟨hold.1.congr fun k hk => (hbeside k (Or.inl (Or.inl hk))).1,
    ⟨htop, hr.hosts.held id hmemId⟩,
    hold.2.2.congr fun k hk => (hbeside k (Or.inl (Or.inr hk))).1⟩

theorem nodup_above (hr : Reforested (insert id K) d (F.set id cs) d' F')
    (hd : d.Hosts (insert h K) F) (hh : h ∉ K) (hF : F h = pre ++ .node id data cs :: post) :
    (h :: allIds (pre ++ .node id data (F' id) :: post)).Nodup := by
  have hmem : h ∈ insert h K := Set.mem_insert h K
  have hmemId : id ∈ insert id K := Set.mem_insert id K
  have hbeside := fun k => hr.get?_beside (k := k) hd hh hF
  refine List.nodup_cons.2 ⟨fun hk => ?_, ?_⟩
  · rcases mem_allIds_around.1 hk with hk | hk | hk
    · have hkF : h ∈ allIds (F h) := hF ▸ mem_allIds_around.2 (Or.inl hk)
      exact hd.host_notMem h hmem ⟨h, hmem, hkF⟩
    · exact (hd.notMem_below hF).2 hk
    · exact (hbeside h (Or.inr rfl)).2.1 ⟨id, hmemId, hk⟩
  · rw [allIds_append, allIds_cons]
    refine nodup_beside (hd.nodup_of_eq hmem hF)
      (List.nodup_cons.2 ⟨?_, hr.hosts.nodup id hmemId⟩) fun k hk hk' => ?_
    · exact fun hk => hr.hosts.host_notMem id hmemId ⟨id, hmemId, hk⟩
    · rcases List.mem_cons.1 hk' with he | hk'
      · exact (hbeside k (Or.inl hk)).2.2 he
      · exact (hbeside k (Or.inl hk)).2.1 ⟨id, hmemId, hk'⟩

theorem hosts_above (hr : Reforested (insert id K) d (F.set id cs) d' F')
    (hd : d.Hosts (insert h K) F) (hh : h ∉ K) (hF : F h = pre ++ .node id data cs :: post) :
    d'.Hosts (insert h K) (F'.set h (pre ++ .node id data (F' id) :: post)) := by
  have hmem : h ∈ insert h K := Set.mem_insert h K
  have hK : K ⊆ insert h K := Set.subset_insert h K
  have hmemId : id ∈ insert id K := Set.mem_insert id K
  have hKid : K ⊆ insert id K := Set.subset_insert id K
  have hhosts := hr.hosts
  have hbeside := fun k => hr.get?_beside (k := k) hd hh hF
  obtain ⟨hidK, -⟩ := hd.notMem_below hF
  have hids : ∀ l, (l ∈ allIds pre ∨ l ∈ allIds post) ∨ l = id ∨ l ∈ allIds cs →
      l ∈ allIds (F h) := fun l hl => hF ▸ mem_allIds_around.2 hl
  obtain ⟨n, hn, hcs⟩ := hd.host h hmem
  have hn' : d'.get? h = some n := (hbeside h (Or.inr rfl)).1.trans hn
  have hcs' : n.children = (pre ++ .node id data (F' id) :: post).map Subtree.id := by
    rw [hcs, hF]
    simp [Subtree.id]
  refine (hhosts.mono hKid).join hn' hcs' (hr.held_above hd hh hF) (hr.nodup_above hd hh hF) hh
    (fun k hk hi => ?_) fun k hk => ?_
  · have hi' := Forest.inside_mono hKid hi
    rcases List.mem_cons.1 hk with rfl | hk
    · exact (hbeside k (Or.inr rfl)).2.1 hi'
    · rcases mem_allIds_around.1 hk with hk | rfl | hk
      · exact (hbeside k (Or.inl hk)).2.1 hi'
      · exact hhosts.host_notMem k hmemId hi'
      · obtain ⟨g, hg, hkg⟩ := hi
        exact hidK (hhosts.unique id hmemId g (hKid hg) k hk hkg ▸ hg)
  · rcases mem_allIds_around.1 hk with hk | rfl | hk
    · obtain ⟨hkH, hkroot⟩ := hd.notMem_of_mem hmem (hids k (Or.inl hk))
      exact ⟨fun hkK => hkH (hK hkK), hkroot⟩
    · exact ⟨hidK, (hd.notMem_of_mem hmem (hids k (Or.inr (Or.inl rfl)))).2⟩
    · obtain ⟨hkH, hkroot⟩ := hhosts.notMem_of_mem hmemId hk
      exact ⟨fun hkK => hkH (hKid hkK), hkroot⟩

/-- A change below a node of the forest under a host is a change of that
forest. -/
theorem above (hr : Reforested (insert id K) d (F.set id cs) d' F')
    (hd : d.Hosts (insert h K) F) (hh : h ∉ K) (hF : F h = pre ++ .node id data cs :: post) :
    Reforested (insert h K) d F d' (F'.set h (pre ++ .node id data (F' id) :: post)) := by
  refine ⟨hr.hosts_above hd hh hF, ?_⟩
  obtain ⟨hidK, -⟩ := hd.notMem_below hF
  have hset : ∀ g ∈ K, F'.set h (pre ++ .node id data (F' id) :: post) g = F' g := fun g hg =>
    Forest.set_of_ne fun he => hh (he ▸ hg)
  have hX : F.inside (insert h K) = (F.set id cs).inside (insert id K) ∪
      {k | (k ∈ allIds pre ∨ k ∈ allIds post) ∨ k = id} := by
    ext k
    rw [inside_below hidK, Set.insert_eq, Forest.inside_union, Forest.inside_singleton, hF]
    simp only [Set.mem_union, Set.mem_ofPred_eq, mem_allIds_around]
    tauto
  have hX' : (F'.set h (pre ++ .node id data (F' id) :: post)).inside (insert h K) =
      F'.inside (insert id K) ∪ {k | (k ∈ allIds pre ∨ k ∈ allIds post) ∨ k = id} := by
    ext k
    rw [Set.insert_eq, Set.insert_eq, Forest.inside_union, Forest.inside_union,
      Forest.inside_singleton, Forest.inside_singleton, Forest.inside_congr hset, Forest.set_self]
    simp only [Set.mem_union, Set.mem_ofPred_eq, mem_allIds_around]
    tauto
  have hmono := rest_mono hr.rest_eq (Set.subset_insert h (insert id K))
    {k | (k ∈ allIds pre ∨ k ∈ allIds post) ∨ k = id}
  have hin : id ∈ F.inside (insert h K) := hX ▸ Or.inr (Or.inr rfl)
  have hin' : id ∈ (F'.set h (pre ++ .node id data (F' id) :: post)).inside (insert h K) :=
    hX' ▸ Or.inr (Or.inr rfl)
  rwa [← hX, ← hX', Set.insert_comm, rest_insert_of_mem hin, rest_insert_of_mem hin'] at hmono

end Reforested

theorem Sprouted.below (hs : Sprouted H d F d₁ F₁ (.node id data cs)) :
    d₁.Hosts (insert id H) (F₁.set id cs) :=
  hs.hosts.join hs.held.1 rfl hs.held.2 hs.nodup (hs.apart id (by simp)).2.1
    (fun k hk => (hs.apart k hk).1) fun k hk => (hs.apart k (List.mem_cons_of_mem _ hk)).2

theorem Sprouted.grow (hs : Sprouted H d F d₁ F₁ (.node id data cs))
    (hr : Reforested (insert id H) d₁ (F₁.set id cs) d' F') :
    Sprouted H d F d' F' (.node id data (F' id)) := by
  have hmem : id ∈ insert id H := Set.mem_insert id H
  have hH : H ⊆ insert id H := Set.subset_insert id H
  obtain ⟨-, hidH, hroot⟩ := hs.apart id (by simp)
  have hhosts := hr.hosts
  refine ⟨hhosts.mono hH, ⟨?_, hhosts.held id hmem⟩, ?_, ?_, ?_⟩
  · exact hr.get?_host hs.below hmem hs.held.1
  · exact List.nodup_cons.2
      ⟨fun hk => hhosts.host_notMem id hmem ⟨id, hmem, hk⟩, hhosts.nodup id hmem⟩
  · intro k hk
    rcases List.mem_cons.1 hk with rfl | hk
    · exact ⟨fun hi => hhosts.host_notMem k hmem (Forest.inside_mono hH hi), hidH, hroot⟩
    · obtain ⟨hkH, hkroot⟩ := hhosts.notMem_of_mem hmem hk
      refine ⟨?_, fun hkH' => hkH (hH hkH'), hkroot⟩
      rintro ⟨g, hg, hkg⟩
      exact hidH (hhosts.unique id hmem g (hH hg) k hk hkg ▸ hg)
  · have hX' : F'.inside (insert id H) ∪ {id} =
        F'.inside H ∪ {k | k ∈ (Subtree.node id data (F' id)).ids} := by
      ext k
      rw [Set.insert_eq, Forest.inside_union, Forest.inside_singleton]
      simp only [Set.mem_union, Set.mem_ofPred_eq, Set.mem_singleton_iff, ids_node, List.mem_cons]
      tauto
    have hX : (F₁.set id cs).inside (insert id H) ∪ {id} =
        F₁.inside H ∪ {k | k ∈ (Subtree.node id data cs).ids} := by
      ext k
      rw [inside_below hidH]
      simp only [Set.mem_union, Set.mem_ofPred_eq, Set.mem_singleton_iff, ids_node, List.mem_cons]
      tauto
    have hmono := rest_mono hr.rest_eq (subset_refl _) {id}
    rw [hX, hX', rest_insert_of_mem (Or.inr (by simp)),
      rest_insert_of_mem (Or.inr (by simp))] at hmono
    exact hmono.trans hs.rest_eq

end Below

theorem Reforested.sprout (h : Reforested H d F d₁ F₁) {t : Subtree}
    (h' : Sprouted H d₁ F₁ d₂ F₂ t) : Sprouted H d F d₂ F₂ t :=
  ⟨h'.hosts, h'.held, h'.nodup, h'.apart, h'.rest_eq.trans h.rest_eq⟩

theorem Replanted.reforested {h : NodeId} {ts : List Subtree} (hr : Replanted d H F h ts d')
    (hts : ∀ k ∈ allIds ts, k ∈ allIds (F h)) : Reforested H d F d' (F.set h ts) := by
  refine ⟨hr.hosts, hr.rest_eq.trans ?_⟩
  have hsub : {k | k ∈ allIds ts} ⊆ F.inside H := fun k hk => ⟨h, hr.mem, hts k hk⟩
  rw [Set.union_eq_self_of_subset_right hsub]

theorem Sprouted.plant {h : NodeId} {t : Subtree} {ts : List Subtree}
    (hs : Sprouted H d F d₁ F₁ t) (hr : Replanted d₁ H F₁ h ts d')
    (hts : ∀ k ∈ allIds ts, k ∈ allIds (F₁ h) ∨ k ∈ t.ids) (ht : ∀ k ∈ t.ids, k ∈ allIds ts) :
    Reforested H d F d' (F₁.set h ts) := by
  refine ⟨hr.hosts, (hr.rest_eq.trans ?_).trans hs.rest_eq⟩
  congr 1
  ext k
  simp only [Set.mem_union, Set.mem_ofPred_eq]
  constructor
  · rintro (hk | hk)
    · exact Or.inl hk
    · exact (hts k hk).imp_left fun hk => ⟨h, hr.mem, hk⟩
  · rintro (hk | hk)
    · exact Or.inl hk
    · exact Or.inr (ht k hk)

end Document

end LiveMarkup
