import LiveMarkup.Proofs.Page.Noted
import LiveMarkup.Proofs.Page.Places

/-!
# What an update notes down

An update that brings a live subtree in line with a new description replaces one
live node for each place that is replaced, removes one for each place that is
removed, and makes one for each place that is created (`Accounts`). This holds
child by child, so it is proved along with the recursion of the update
(`Page.patch_accounts`).
-/

namespace LiveMarkup

open Document Subtree Node

/-- A live node with a property stands at a path of a subtree that may be
missing. -/
def StandsAt (t : Option Subtree) (Q : NodeId → Bool) (path : List Nat) : Prop :=
  ∃ k, (t.bind fun t => t.at? path) = some k ∧ Q k = true

/-- What was noted down matches the places of two descriptions, the old one of which
a subtree mirrors. It replaces the live nodes at the places that are replaced and
removes those at the places that are removed, counted for any property that they may
have. Of the nodes that it makes, each is appended or takes the place of another. -/
structure Accounts (ms : List Mutation) (new old : Option Node) (t : Option Subtree) : Prop where
  replaced : ∀ Q : NodeId → Bool, ((ms.filterMap Mutation.replaced?).countP Q : ENat) =
    {path | ReplacedAt new old path ∧ StandsAt t Q path}.encard
  removed : ∀ Q : NodeId → Bool, ((ms.filterMap Mutation.removed?).countP Q : ENat) =
    {path | RemovedAt new old path ∧ StandsAt t Q path}.encard
  created : (ms.countP Mutation.creates : ENat) = {path | CreatedAt new old path}.encard
  put : ms.countP Mutation.appends + (ms.filterMap Mutation.replaced?).length =
    ms.countP Mutation.creates

/-- What was noted down matches the places of descriptions that stand next to each
other. -/
structure AllAccounts (ms : List Mutation) (new old : List Node) (ts : List Subtree) : Prop where
  replaced : ∀ Q : NodeId → Bool, ((ms.filterMap Mutation.replaced?).countP Q : ENat) =
    (Below fun i => {path | ReplacedAt new[i]? old[i]? path ∧ StandsAt ts[i]? Q path}).encard
  removed : ∀ Q : NodeId → Bool, ((ms.filterMap Mutation.removed?).countP Q : ENat) =
    (Below fun i => {path | RemovedAt new[i]? old[i]? path ∧ StandsAt ts[i]? Q path}).encard
  created : (ms.countP Mutation.creates : ENat) =
    (Below fun i => {path | CreatedAt new[i]? old[i]? path}).encard
  put : ms.countP Mutation.appends + (ms.filterMap Mutation.replaced?).length =
    ms.countP Mutation.creates

section Accounts

variable {ms ms' : List Mutation} {new old : Option Node} {n o : Node} {t : Subtree}
  {ns os : List Node} {ts : List Subtree} {P : List Nat → Prop}

/-- Where the top is not kept no place further down is reached. -/
theorem Node.KeptAbove.eq_nil {path : List Nat} (h : KeptAbove new old path)
    (hno : ¬Kept new old) : path = [] := by
  cases path with
  | nil => rfl
  | cons i path => exact absurd (keptAbove_cons.1 h).1 hno

theorem encard_of_top (hP : ∀ path, P path ↔ path = []) (t : Subtree) (Q : NodeId → Bool) :
    {path | P path ∧ StandsAt (some t) Q path}.encard = ([t.id].countP Q : ENat) := by
  have hnil : StandsAt (some t) Q [] ↔ Q t.id = true :=
    ⟨fun ⟨k, hk, hq⟩ => Option.some.inj hk ▸ hq, fun hq => ⟨t.id, rfl, hq⟩⟩
  by_cases hq : Q t.id = true
  · have htop : {path | P path ∧ StandsAt (some t) Q path} = {[]} := by
      ext path
      refine ⟨fun h => (hP path).1 h.1, ?_⟩
      rintro rfl
      exact ⟨(hP []).2 rfl, hnil.2 hq⟩
    rw [htop, Set.encard_singleton, List.countP_singleton, if_pos hq, Nat.cast_one]
  · have hnone : {path | P path ∧ StandsAt (some t) Q path} = ∅ := by
      rw [Set.eq_empty_iff_forall_notMem]
      rintro path ⟨hp, hs⟩
      obtain rfl := (hP path).1 hp
      exact hq (hnil.1 hs)
    rw [hnone, Set.encard_empty, List.countP_singleton, if_neg hq, Nat.cast_zero]

theorem encard_of_never (hP : ∀ path, ¬P path) (S : List Nat → Prop) :
    {path | P path ∧ S path}.encard = 0 :=
  Set.encard_eq_zero.2 (Set.eq_empty_iff_forall_notMem.2 fun path h => hP path h.1)

/-- A live node that is kept is accounted for by its children. -/
theorem Accounts.of_kept (h : Kept (some n) (some o))
    (hms : AllAccounts ms n.children o.children t.children) :
    Accounts ms (some n) (some o) (some t) := by
  refine ⟨fun Q => (hms.replaced Q).trans (congrArg Set.encard ?_),
    fun Q => (hms.removed Q).trans (congrArg Set.encard ?_),
    hms.created.trans (congrArg Set.encard ?_), hms.put⟩
  · refine (eq_below (fun hmem => h.not_at_nil.1 hmem.1) fun i q => ?_).symm
    exact and_congr_left fun _ => replacedAt_cons.trans (and_iff_right h)
  · refine (eq_below (fun hmem => h.not_at_nil.2.1 hmem.1) fun i q => ?_).symm
    exact and_congr_left fun _ => removedAt_cons.trans (and_iff_right h)
  · exact (eq_below h.not_createdAt_nil fun i q => h.createdAt_cons).symm

/-- A live node that is replaced is accounted for by what was made instead. -/
theorem Accounts.of_replaced {put : ℕ} (h : n.mustReplace o = true) (hn : n.portals = [])
    (hms : Growth ms n.size put) (hput : put + 1 = n.size) (ids : List NodeId) :
    Accounts (ms ++ [.replaceNode t.id ids]) (some n) (some o) (some t) := by
  have hno : ¬Kept (some n) (some o) := by
    rw [kept_iff, h]
    exact Bool.noConfusion
  have htop : ReplacedAt (some n) (some o) [] := replacedAt_nil.2 ⟨n, o, rfl, rfl, h⟩
  have hremoved : ∀ path, ¬RemovedAt (some n) (some o) path := by
    intro path hr
    obtain rfl := hr.1.eq_nil hno
    exact nomatch hr.2.1
  refine ⟨fun Q => ?_, fun Q => ?_, ?_, ?_⟩
  · rw [encard_of_top (fun path => ⟨fun hr => hr.1.eq_nil hno, ?_⟩), List.filterMap_append,
      hms.replaced]
    · rfl
    · rintro rfl
      exact htop
  · rw [encard_of_never hremoved, List.filterMap_append, hms.removed]
    rfl
  · rw [encard_createdAt hn (.inl htop), List.countP_append, hms.creates]
    rfl
  · rw [List.countP_append, List.countP_append, List.filterMap_append, hms.appends, hms.creates,
      hms.replaced, ← hput]
    rfl

/-- A live node without a counterpart is accounted for by its removal. -/
theorem Accounts.of_removed (o : Node) (t : Subtree) :
    Accounts [.removeNode t.id] none (some o) (some t) := by
  have hno : ¬Kept none (some o) := fun ⟨_, _, h, _⟩ => nomatch h
  have hcreated : {path | CreatedAt none (some o) path} = ∅ :=
    Set.eq_empty_iff_forall_notMem.2 fun _ => not_createdAt_none
  refine ⟨fun Q => ?_, fun Q => ?_, ?_, rfl⟩
  · rw [encard_of_never fun _ => not_replacedAt_none]
    rfl
  · rw [encard_of_top fun path => ⟨fun hr => hr.1.eq_nil hno, ?_⟩]
    · rfl
    · rintro rfl
      exact removedAt_nil.2 ⟨rfl, rfl⟩
  · rw [hcreated, Set.encard_empty]
    rfl

/-- What had no live node is accounted for by what was made. -/
theorem Accounts.of_added {put : ℕ} (hn : n.portals = []) (hms : Growth ms n.size put)
    (hput : put + 1 = n.size) (parent : NodeId) (ids : List NodeId) :
    Accounts (ms ++ [.appendChildren parent ids]) (some n) none none := by
  have htop : AddedAt (some n) none [] := addedAt_nil.2 ⟨rfl, rfl⟩
  have hnone : ∀ Q path, ¬StandsAt none Q path := fun Q path ⟨_, h, _⟩ => nomatch h
  have hnever : ∀ (P : List Nat → Prop) Q, {path | P path ∧ StandsAt none Q path}.encard = 0 := by
    intro P Q
    simp [hnone]
  refine ⟨fun Q => ?_, fun Q => ?_, ?_, ?_⟩
  · rw [hnever, List.filterMap_append, hms.replaced]
    rfl
  · rw [hnever, List.filterMap_append, hms.removed]
    rfl
  · rw [encard_createdAt hn (.inr htop), List.countP_append, hms.creates]
    rfl
  · rw [List.countP_append, List.countP_append, List.filterMap_append, hms.appends, hms.creates,
      hms.replaced, ← hput]
    rfl

theorem AllAccounts.nil : AllAccounts [] [] [] ts :=
  ⟨fun _ => (encard_below_empty fun _ _ h => not_replacedAt_none h.1).symm,
    fun _ => (encard_below_empty fun _ _ h => not_removedAt_none h.1).symm,
    (encard_below_empty fun _ _ h => not_createdAt_none h).symm, rfl⟩

/-- The first children and the others are accounted for one after the other. -/
theorem AllAccounts.cons (h : Accounts ms ns[0]? os[0]? ts[0]?)
    (hs : AllAccounts ms' ns.tail os.tail ts.tail) : AllAccounts (ms ++ ms') ns os ts := by
  obtain ⟨hreplaced, hremoved, hcreated, hput⟩ := hs
  simp only [List.getElem?_tail] at hreplaced hremoved hcreated
  refine ⟨fun Q => ?_, fun Q => ?_, ?_, ?_⟩
  · rw [encard_below, ← h.replaced Q, ← hreplaced Q, List.filterMap_append, List.countP_append,
      Nat.cast_add]
  · rw [encard_below, ← h.removed Q, ← hremoved Q, List.filterMap_append, List.countP_append,
      Nat.cast_add]
  · rw [encard_below, ← h.created, ← hcreated, List.countP_append, Nat.cast_add]
  · rw [List.countP_append, List.countP_append, List.filterMap_append, List.length_append,
      ← h.put, ← hput]
    omega

end Accounts

end LiveMarkup
