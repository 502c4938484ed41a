import LiveMarkup.Proofs.Page.Pointing
import Mathlib.Data.Set.Card

/-!
# Places that are kept, replaced, added or removed

Two descriptions are compared place by place, from the top down. A place is reached
only if the live nodes at all places above it are kept. There the two parts decide
what becomes of it: it is kept or replaced when both descriptions have a part there,
added when the new one alone has, and removed when the old one alone has. Everything
the new description has below a place that is replaced or added is created.

One of the descriptions may be missing, as it is for a child that the other one does
not have. So what holds below a place is what holds of the two parts there, by the
place of a child and the path from it on (`keptAbove_cons`), and how many places there
are is counted child by child (`encard_below`).
-/

namespace LiveMarkup

open Subtree Node

namespace Node

/-! ## Parts -/

/-- The part at a path of a description that may be missing. -/
def partAt? (n : Option Node) (path : List Nat) : Option Node :=
  n.bind fun n => n.at? path

/-- The child in a place of a description that may be missing. -/
def childAt? (n : Option Node) (i : Nat) : Option Node :=
  n.bind fun n => n.children[i]?

@[simp] theorem partAt?_nil (n : Option Node) : partAt? n [] = n := by
  cases n <;> rfl

@[simp] theorem partAt?_cons (n : Option Node) (i : Nat) (path : List Nat) :
    partAt? n (i :: path) = partAt? (childAt? n i) path := by
  cases n <;> rfl

theorem portals_eq_nil_of_mem {ns : List Node} {n : Node} (h : allPortals ns = []) (hn : n ∈ ns) :
    n.portals = [] := by
  induction ns with
  | nil => cases hn
  | cons m ns ih =>
      obtain ⟨hm, hns⟩ := List.append_eq_nil_iff.1 h
      rcases List.mem_cons.1 hn with rfl | hn
      · exact hm
      · exact ih hns hn

/-! ## Comparing places -/

/-- Both parts are there, and the live node of the old one can be kept. -/
def Kept (new old : Option Node) : Prop :=
  ∃ n o, new = some n ∧ old = some o ∧ n.mustReplace o = false

/-- The live nodes at all places above a path are kept. -/
def KeptAbove (new old : Option Node) (path : List Nat) : Prop :=
  ∀ above, above <+: path → above ≠ path → Kept (partAt? new above) (partAt? old above)

/-- The live node at a path is kept, like all above it. -/
def KeptAt (new old : Option Node) (path : List Nat) : Prop :=
  KeptAbove new old path ∧ Kept (partAt? new path) (partAt? old path)

/-- The live node at a path is replaced, and all above it are kept. -/
def ReplacedAt (new old : Option Node) (path : List Nat) : Prop :=
  KeptAbove new old path ∧
    ∃ n o, partAt? new path = some n ∧ partAt? old path = some o ∧ n.mustReplace o = true

/-- The live node at a path has no counterpart any more, and all above it are kept. -/
def RemovedAt (new old : Option Node) (path : List Nat) : Prop :=
  KeptAbove new old path ∧ partAt? new path = none ∧ (partAt? old path).isSome

/-- There was no live node at a path, and all above it are kept. -/
def AddedAt (new old : Option Node) (path : List Nat) : Prop :=
  KeptAbove new old path ∧ (partAt? new path).isSome ∧ partAt? old path = none

/-- The new description has a part at a path, in what is replaced or added. -/
def CreatedAt (new old : Option Node) (path : List Nat) : Prop :=
  (partAt? new path).isSome ∧ ∃ top, top <+: path ∧ (ReplacedAt new old top ∨ AddedAt new old top)

section Cons

variable {new old : Option Node} {n o : Node} {i : Nat} {path : List Nat}

theorem kept_iff : Kept (some n) (some o) ↔ n.mustReplace o = false := by
  constructor
  · rintro ⟨_, _, ⟨⟩, ⟨⟩, hkeep⟩
    exact hkeep
  · exact fun hkeep => ⟨n, o, rfl, rfl, hkeep⟩

theorem keptAbove_nil (new old : Option Node) : KeptAbove new old [] :=
  fun _ h hne => absurd (List.prefix_nil.1 h) hne

theorem keptAbove_cons : KeptAbove new old (i :: path) ↔
    Kept new old ∧ KeptAbove (childAt? new i) (childAt? old i) path := by
  constructor
  · intro h
    refine ⟨?_, fun above habove hne => ?_⟩
    · have htop := h [] (List.nil_prefix) (List.cons_ne_nil i path).symm
      rwa [partAt?_nil, partAt?_nil] at htop
    · have hbelow := h (i :: above) (List.cons_prefix_cons.2 ⟨rfl, habove⟩)
        fun he => hne (List.cons.inj he).2
      rwa [partAt?_cons, partAt?_cons] at hbelow
  · rintro ⟨htop, hbelow⟩ above habove hne
    cases above with
    | nil => rwa [partAt?_nil, partAt?_nil]
    | cons j above =>
        obtain ⟨rfl, hprefix⟩ := List.cons_prefix_cons.1 habove
        rw [partAt?_cons, partAt?_cons]
        exact hbelow above hprefix fun he => hne (he ▸ rfl)

theorem replacedAt_nil :
    ReplacedAt new old [] ↔ ∃ n o, new = some n ∧ old = some o ∧ n.mustReplace o = true := by
  rw [ReplacedAt, partAt?_nil, partAt?_nil]
  exact and_iff_right (keptAbove_nil new old)

theorem replacedAt_cons : ReplacedAt new old (i :: path) ↔
    Kept new old ∧ ReplacedAt (childAt? new i) (childAt? old i) path := by
  rw [ReplacedAt, keptAbove_cons, partAt?_cons, partAt?_cons, and_assoc, ReplacedAt]

theorem removedAt_nil : RemovedAt new old [] ↔ new = none ∧ old.isSome := by
  rw [RemovedAt, partAt?_nil, partAt?_nil]
  exact and_iff_right (keptAbove_nil new old)

theorem removedAt_cons : RemovedAt new old (i :: path) ↔
    Kept new old ∧ RemovedAt (childAt? new i) (childAt? old i) path := by
  rw [RemovedAt, keptAbove_cons, partAt?_cons, partAt?_cons, and_assoc, RemovedAt]

theorem addedAt_nil : AddedAt new old [] ↔ new.isSome ∧ old = none := by
  rw [AddedAt, partAt?_nil, partAt?_nil]
  exact and_iff_right (keptAbove_nil new old)

theorem addedAt_cons : AddedAt new old (i :: path) ↔
    Kept new old ∧ AddedAt (childAt? new i) (childAt? old i) path := by
  rw [AddedAt, keptAbove_cons, partAt?_cons, partAt?_cons, and_assoc, AddedAt]

theorem not_replacedAt_none : ¬ReplacedAt none old path := by
  rintro ⟨-, _, _, h, -⟩
  cases h

theorem not_removedAt_none : ¬RemovedAt new none path := by
  rintro ⟨-, -, h⟩
  cases h

theorem not_createdAt_none : ¬CreatedAt none old path := by
  rintro ⟨h, -⟩
  cases h

/-- Two parts of which the live node is kept are neither replaced, added nor
removed. -/
theorem Kept.not_at_nil (h : Kept new old) :
    ¬ReplacedAt new old [] ∧ ¬RemovedAt new old [] ∧ ¬AddedAt new old [] := by
  obtain ⟨n, o, rfl, rfl, hkeep⟩ := h
  refine ⟨fun hr => ?_, fun hr => (nomatch (removedAt_nil.1 hr).1),
    fun ha => (nomatch (addedAt_nil.1 ha).2)⟩
  obtain ⟨n', o', hn, ho, hr⟩ := replacedAt_nil.1 hr
  cases hn
  cases ho
  rw [hkeep] at hr
  cases hr

theorem Kept.not_createdAt_nil (h : Kept new old) : ¬CreatedAt new old [] := by
  rintro ⟨-, top, htop, hat⟩
  obtain rfl := List.prefix_nil.1 htop
  exact hat.elim h.not_at_nil.1 h.not_at_nil.2.2

theorem Kept.createdAt_cons (h : Kept new old) : CreatedAt new old (i :: path) ↔
    CreatedAt (childAt? new i) (childAt? old i) path := by
  rw [CreatedAt, CreatedAt, partAt?_cons]
  refine and_congr_right fun _ => ⟨?_, ?_⟩
  · rintro ⟨top, htop, hat⟩
    cases top with
    | nil => exact (hat.elim h.not_at_nil.1 h.not_at_nil.2.2).elim
    | cons j top =>
        obtain ⟨rfl, hprefix⟩ := List.cons_prefix_cons.1 htop
        exact ⟨top, hprefix, hat.imp (fun hr => (replacedAt_cons.1 hr).2)
          fun ha => (addedAt_cons.1 ha).2⟩
  · rintro ⟨top, htop, hat⟩
    exact ⟨i :: top, List.cons_prefix_cons.2 ⟨rfl, htop⟩,
      hat.imp (fun hr => replacedAt_cons.2 ⟨h, hr⟩) fun ha => addedAt_cons.2 ⟨h, ha⟩⟩

/-- All of a description is created where it is replaced or added as a whole. -/
theorem createdAt_of_nil (h : ReplacedAt new old [] ∨ AddedAt new old []) :
    CreatedAt new old path ↔ (partAt? new path).isSome :=
  and_iff_left ⟨[], List.nil_prefix, h⟩

end Cons

end Node

/-! ## Counting places -/

/-- The paths that lead to children, with those from each child on. -/
def Below (S : Nat → Set (List Nat)) : Set (List Nat) :=
  {path | ∃ i, ∃ q ∈ S i, path = i :: q}

theorem mem_below {S : Nat → Set (List Nat)} {i : Nat} {q : List Nat} :
    i :: q ∈ Below S ↔ q ∈ S i := by
  constructor
  · rintro ⟨j, q', hq, he⟩
    obtain ⟨rfl, rfl⟩ := List.cons.inj he
    exact hq
  · exact fun hq => ⟨i, q, hq, rfl⟩

theorem eq_below {X : Set (List Nat)} (h : [] ∉ X) {S : Nat → Set (List Nat)}
    (hS : ∀ i q, i :: q ∈ X ↔ q ∈ S i) : X = Below S := by
  ext path
  cases path with
  | nil => exact iff_of_false h fun ⟨_, _, _, he⟩ => nomatch he
  | cons i q => rw [hS, mem_below]

/-- Paths are counted child by child. -/
theorem encard_below (S : Nat → Set (List Nat)) :
    (Below S).encard = (S 0).encard + (Below fun i => S (i + 1)).encard := by
  have hshift : Function.Injective (List.modifyHead (· + 1) : List Nat → List Nat) := by
    intro p q h
    cases p with
    | nil =>
        cases q with
        | nil => rfl
        | cons j q => cases h
    | cons i p =>
        cases q with
        | nil => cases h
        | cons j q =>
            obtain ⟨hi, rfl⟩ := List.cons.inj h
            rw [Nat.succ.inj hi]
  have hsplit : Below S =
      (List.cons 0 '' S 0) ∪ List.modifyHead (· + 1) '' Below fun i => S (i + 1) := by
    ext path
    constructor
    · rintro ⟨i, q, hq, rfl⟩
      cases i with
      | zero => exact .inl ⟨q, hq, rfl⟩
      | succ i => exact .inr ⟨i :: q, mem_below.2 hq, rfl⟩
    · rintro (⟨q, hq, rfl⟩ | ⟨_, ⟨i, q, hq, rfl⟩, rfl⟩)
      · exact mem_below.2 hq
      · exact mem_below.2 hq
  have hdisjoint :
      Disjoint (List.cons 0 '' S 0) (List.modifyHead (· + 1) '' Below fun i => S (i + 1)) := by
    rw [Set.disjoint_left]
    rintro _ ⟨q, -, rfl⟩ ⟨_, ⟨i, q', -, rfl⟩, he⟩
    cases he
  rw [hsplit, Set.encard_union_eq hdisjoint, (List.cons_injective).encard_image,
    hshift.encard_image]

theorem encard_below_empty {S : Nat → Set (List Nat)} (h : ∀ i, ∀ q, q ∉ S i) :
    (Below S).encard = 0 := by
  rw [Set.encard_eq_zero, Set.eq_empty_iff_forall_notMem]
  rintro _ ⟨i, q, hq, rfl⟩
  exact h i q hq

namespace Node

mutual

/-- A description without portals has as many places as it has live nodes. -/
theorem encard_places : ∀ {n : Node}, n.portals = [] →
    {path | (partAt? (some n) path).isSome}.encard = n.size
  | .text s, _ => by
      have htop : {path | (partAt? (some (text s)) path).isSome} = {[]} := by
        ext path
        cases path with
        | nil => exact iff_of_true rfl rfl
        | cons i path => exact iff_of_false (fun h => nomatch h) fun h => nomatch h
      rw [htop, Set.encard_singleton]
      rfl
  | .element tag props cs, h => by
      have hsplit : {path | (partAt? (some (element tag props cs)) path).isSome} =
          {[]} ∪ Below fun i => {path | (partAt? cs[i]? path).isSome} := by
        ext path
        cases path with
        | nil => exact iff_of_true rfl (.inl rfl)
        | cons i path =>
            rw [Set.mem_union, mem_below]
            exact (or_iff_right fun he => nomatch he).symm
      have hdisjoint : Disjoint {[]} (Below fun i => {path | (partAt? cs[i]? path).isSome}) := by
        rw [Set.disjoint_singleton_left]
        exact fun ⟨_, _, _, he⟩ => nomatch he
      rw [hsplit, Set.encard_union_eq hdisjoint, Set.encard_singleton, encard_placesBelow h, size]
      push_cast
      rfl

theorem encard_placesBelow : ∀ {ns : List Node}, allPortals ns = [] →
    (Below fun i => {path | (partAt? ns[i]? path).isSome}).encard = allSize ns
  | [], _ => encard_below_empty fun i q hq => nomatch hq
  | n :: ns, h => by
      obtain ⟨hn, hns⟩ := List.append_eq_nil_iff.1 h
      have hrest := encard_placesBelow hns
      rw [encard_below, allSize, Nat.cast_add, ← hrest, ← encard_places hn]
      rfl

end

theorem encard_createdAt {n : Node} {old : Option Node} (hn : n.portals = [])
    (h : ReplacedAt (some n) old [] ∨ AddedAt (some n) old []) :
    {path | CreatedAt (some n) old path}.encard = n.size := by
  rw [← encard_places hn]
  exact congrArg Set.encard (Set.ext fun path => createdAt_of_nil h)

end Node

/-! ## The live nodes at places -/

namespace Subtree

/-- The number at a path of a subtree. -/
def at? : Subtree → List Nat → Option NodeId
  | t, [] => some t.id
  | t, i :: path => t.children[i]?.bind fun c => c.at? path

variable {n new old : Node} {t t' : Subtree} {path : List Nat}

theorem Held.at?_eq {d : Document} (path : List Nat) : ∀ {t : Subtree} {parent : Option NodeId},
    t.Held d.get? parent → d.at? t.id path = t.at? path := by
  induction path with
  | nil => exact fun _ => rfl
  | cons i path ih =>
      intro t parent ht
      rw [Document.at?, ht.view_id, Option.bind_some, List.getElem?_map, at?]
      cases hc : t.children[i]? with
      | none => rfl
      | some c => exact ih (ht.children.mem (List.mem_of_getElem? hc))

theorem exists_at?_of_part (path : List Nat) : ∀ {n part : Node} {t : Subtree},
    n.portals = [] → Mirrors n t → n.at? path = some part → ∃ k, t.at? path = some k := by
  induction path with
  | nil => exact fun _ _ _ => ⟨_, rfl⟩
  | cons i path ih =>
      intro n part t hn hm hpart
      obtain ⟨c, hc, hbelow⟩ := Option.bind_eq_some_iff.1 hpart
      cases n with
      | text s => cases hc
      | portal target cs => cases hn
      | element tag props cs =>
          obtain ⟨u, hu, hmu, -⟩ := exists_getElem?_of_allMirror hm.2 hc
          obtain ⟨k, hk⟩ := ih (portals_eq_nil_of_mem hn (List.mem_of_getElem? hc)) hmu hbelow
          refine ⟨k, ?_⟩
          rw [at?, hu, Option.bind_some, hk]

theorem exists_getElem?_of_allPatched {n o : Node} : ∀ {ns os : List Node} {ts ts' : List Subtree}
    {i : Nat}, AllPatched ns os ts ts' → ns[i]? = some n → os[i]? = some o →
    ∃ t t', ts[i]? = some t ∧ ts'[i]? = some t' ∧ Patched n o t t'
  | _, _, _, _, _, .nil, hn, _ => nomatch hn
  | _, _, _, _, 0, .cons h _, hn, ho => by
      cases hn
      cases ho
      exact ⟨_, _, rfl, rfl, h⟩
  | _, _, _, _, i + 1, .cons _ hs, hn, ho => exists_getElem?_of_allPatched (i := i) hs hn ho
  | _, _, _, _, _, .more _ _, _, ho => nomatch ho

/-- Where a live node is kept, what was done to it was done child by child. -/
theorem exists_child_of_patched {i : Nat} {n o : Node} (hp : Patched new old t t')
    (hnew : new.portals = []) (hkeep : new.mustReplace old = false)
    (hn : new.children[i]? = some n) (ho : old.children[i]? = some o) :
    ∃ u u', t.children[i]? = some u ∧ t'.children[i]? = some u' ∧ Patched n o u u' ∧
      n.portals = [] := by
  cases hp with
  | replaced h hne ht =>
      rw [h] at hkeep
      cases hkeep
  | text => cases hn
  | portal => cases hnew
  | element h hcs =>
      obtain ⟨u, u', hu, hu', hpu⟩ := exists_getElem?_of_allPatched hcs hn ho
      exact ⟨u, u', hu, hu', hpu, portals_eq_nil_of_mem hnew (List.mem_of_getElem? hn)⟩

/-- Where all live nodes above are kept, what stands at a place was brought in line
there. -/
theorem exists_patched_at (path : List Nat) : ∀ {new old n o : Node} {t t' : Subtree},
    Patched new old t t' → new.portals = [] → KeptAbove (some new) (some old) path →
    new.at? path = some n → old.at? path = some o →
    ∃ u u', t.at? path = some u.id ∧ t'.at? path = some u'.id ∧ Patched n o u u' := by
  induction path with
  | nil =>
      rintro new old n o t t' hp - - ⟨⟩ ⟨⟩
      exact ⟨t, t', rfl, rfl, hp⟩
  | cons i path ih =>
      intro new old n o t t' hp hnew hkept hn ho
      obtain ⟨hkeep, hbelow⟩ := keptAbove_cons.1 hkept
      obtain ⟨n₁, hn₁, hn⟩ := Option.bind_eq_some_iff.1 hn
      obtain ⟨o₁, ho₁, ho⟩ := Option.bind_eq_some_iff.1 ho
      obtain ⟨c, c', hc, hc', hpc, hnc⟩ := exists_child_of_patched hp hnew (kept_iff.1 hkeep) hn₁ ho₁
      have hchild : KeptAbove (some n₁) (some o₁) path := by rwa [← hn₁, ← ho₁]
      rw [at?, at?, hc, hc']
      exact ih hpc hnc hchild hn ho

theorem id_eq_of_patched (hp : Patched new old t t') (hkeep : new.mustReplace old = false) :
    t'.id = t.id := by
  cases hp with
  | replaced h hne ht =>
      rw [h] at hkeep
      cases hkeep
  | _ => rfl

theorem id_ne_of_patched (hp : Patched new old t t') (h : new.mustReplace old = true) :
    t'.id ≠ t.id := by
  cases hp with
  | replaced _ hne _ => exact hne
  | text => simp [mustReplace] at h
  | portal => simp [mustReplace] at h
  | element hkeep _ =>
      rw [hkeep] at h
      cases h

end Subtree

end LiveMarkup
