import LiveMarkup.Proofs.Node.Portals

/-!
# When targets end up as described

From one description to the next every target of a new portal is filled or
refilled once, and every target of an old portal is emptied or refilled once. So
a target ends up as the new description asks unless it is emptied after it was
filled. `TargetChange.Orderly` rules out just that, and `applyAll_eq_iff` says
that it has to be ruled out.
-/

namespace LiveMarkup

namespace TargetChange

/-- The target that a change fills. -/
def filled? : TargetChange → Option NodeId
  | .empty _ => none
  | .fill target _ => some target
  | .refill target _ => some target

/-- The target whose old content a change takes away. -/
def emptied? : TargetChange → Option NodeId
  | .empty target => some target
  | .fill _ _ => none
  | .refill target _ => some target

/-- The targets that changes fill, in order. -/
def filled (cs : List TargetChange) : List NodeId :=
  cs.filterMap filled?

/-- The targets whose old content changes take away, in order. -/
def emptied (cs : List TargetChange) : List NodeId :=
  cs.filterMap emptied?

/-- No target is emptied after something was put into it. -/
def Orderly (cs : List TargetChange) : Prop :=
  cs.Pairwise fun a b => ∀ k ns, a = .fill k ns → ns ≠ [] → b ≠ .empty k

section Cons

variable (k : NodeId) (ns : List Node) (cs : List TargetChange)

@[simp] theorem filled_cons_empty : filled (.empty k :: cs) = filled cs := rfl

@[simp] theorem filled_cons_fill : filled (.fill k ns :: cs) = k :: filled cs := rfl

@[simp] theorem filled_cons_refill : filled (.refill k ns :: cs) = k :: filled cs := rfl

@[simp] theorem emptied_cons_empty : emptied (.empty k :: cs) = k :: emptied cs := rfl

@[simp] theorem emptied_cons_fill : emptied (.fill k ns :: cs) = emptied cs := rfl

@[simp] theorem emptied_cons_refill : emptied (.refill k ns :: cs) = k :: emptied cs := rfl

end Cons

@[simp] theorem filled_append (cs ds : List TargetChange) :
    filled (cs ++ ds) = filled cs ++ filled ds :=
  List.filterMap_append

@[simp] theorem emptied_append (cs ds : List TargetChange) :
    emptied (cs ++ ds) = emptied cs ++ emptied ds :=
  List.filterMap_append

@[simp] theorem filled_coming (ps : Portals) : filled (coming ps) = ps.map (·.1) := by
  induction ps with
  | nil => rfl
  | cons q ps ih => exact congrArg (q.1 :: ·) ih

@[simp] theorem filled_going (ps : Portals) : filled (going ps) = [] := by
  induction ps with
  | nil => rfl
  | cons q ps ih => exact ih

@[simp] theorem emptied_coming (ps : Portals) : emptied (coming ps) = [] := by
  induction ps with
  | nil => rfl
  | cons q ps ih => exact ih

@[simp] theorem emptied_going (ps : Portals) : emptied (going ps) = ps.map (·.1) := by
  induction ps with
  | nil => rfl
  | cons q ps ih => exact congrArg (q.1 :: ·) ih

/-! ## One target at a time -/

/-- The changes of one target. -/
def ofTarget (k : NodeId) (cs : List TargetChange) : List TargetChange :=
  cs.filter (·.target = k)

theorem applyAll_ofTarget (content : NodeId → List Node) (cs : List TargetChange) (k : NodeId) :
    applyAll content cs k = applyAll content (ofTarget k cs) k := by
  induction cs generalizing content with
  | nil => rfl
  | cons c cs ih =>
      by_cases hc : c.target = k
      · rw [ofTarget, List.filter_cons_of_pos (by simpa using hc), applyAll_cons, applyAll_cons, ih]
        rfl
      · rw [ofTarget, List.filter_cons_of_neg (by simpa using hc), applyAll_cons, ih]
        exact applyAll_congr (apply_of_ne hc)

theorem orderly_iff_ofTarget {cs : List TargetChange} : Orderly cs ↔ ∀ k, Orderly (ofTarget k cs) := by
  constructor
  · intro h k
    exact h.filter _
  · intro h
    refine List.pairwise_iff_forall_sublist.2 fun {a b} hab k ns ha hns hb => ?_
    subst ha hb
    have hsub : [fill k ns, .empty k].Sublist (ofTarget k cs) := by
      have hf := hab.filter (·.target = k)
      simpa [ofTarget, target] using hf
    exact List.pairwise_iff_forall_sublist.1 (h k) hsub k ns rfl hns rfl

theorem target_of_filled? {c : TargetChange} {k : NodeId} (h : c.filled? = some k) :
    c.target = k := by
  cases c with
  | empty target => cases h
  | fill target ns => exact Option.some.inj h
  | refill target ns => exact Option.some.inj h

theorem target_of_emptied? {c : TargetChange} {k : NodeId} (h : c.emptied? = some k) :
    c.target = k := by
  cases c with
  | empty target => exact Option.some.inj h
  | fill target ns => cases h
  | refill target ns => exact Option.some.inj h

/-- What the changes of one target do not do to it, no change does. -/
theorem notMem_of_ofTarget {f : TargetChange → Option NodeId} {cs : List TargetChange} {k : NodeId}
    (hf : ∀ {c : TargetChange}, f c = some k → c.target = k)
    (h : (ofTarget k cs).filterMap f = []) : k ∉ cs.filterMap f := by
  intro hk
  obtain ⟨c, hc, hck⟩ := List.mem_filterMap.1 hk
  have hat : c ∈ ofTarget k cs := List.mem_filter.2 ⟨hc, by simpa using hf hck⟩
  have hin : k ∈ (ofTarget k cs).filterMap f := List.mem_filterMap.2 ⟨c, hat, hck⟩
  rw [h] at hin
  cases hin

/-- The ways in which one target can change. -/
theorem ofTarget_cases {cs : List TargetChange} (hf : (filled cs).Nodup) (he : (emptied cs).Nodup)
    (k : NodeId) :
    ofTarget k cs = [] ∨ ofTarget k cs = [.empty k] ∨ (∃ ns, ofTarget k cs = [.fill k ns]) ∨
      (∃ ns, ofTarget k cs = [.refill k ns]) ∨ (∃ ns, ofTarget k cs = [.empty k, .fill k ns]) ∨
      ∃ ns, ofTarget k cs = [.fill k ns, .empty k] := by
  have hsub : (ofTarget k cs).Sublist cs := List.filter_sublist
  have hall : ∀ c ∈ ofTarget k cs, c.target = k := fun c hc => by simpa using (List.mem_filter.1 hc).2
  replace hf : (filled (ofTarget k cs)).Nodup := (hsub.filterMap _).nodup hf
  replace he : (emptied (ofTarget k cs)).Nodup := (hsub.filterMap _).nodup he
  generalize ofTarget k cs = l at hf he hall
  match l with
  | [] => simp
  | [a] =>
      have ha := hall a (by simp)
      cases a <;> simp_all [target]
  | [a, b] =>
      have ha := hall a (by simp)
      have hb := hall b (by simp)
      cases a <;> cases b <;> simp_all [target]
  | a :: b :: c :: l =>
      have ha := hall a (by simp)
      have hb := hall b (by simp)
      have hc := hall c (by simp)
      cases a <;> cases b <;> cases c <;> simp_all [target]

end TargetChange

namespace Node

theorem compares_targets :
    Compares
      (fun new old => TargetChange.filled (new.changes old) = new.targets ∧
        TargetChange.emptied (new.changes old) = old.targets)
      fun new old => TargetChange.filled (allChanges new old) = allTargets new ∧
        TargetChange.emptied (allChanges new old) = allTargets old where
  replaced h := by simp [changes_of_mustReplace h, targets]
  text s := by
    rw [changes_text]
    exact ⟨rfl, rfl⟩
  element h hcs := by
    rw [changes_element h]
    exact hcs
  portal hcs := by
    rw [changes_portal, TargetChange.filled_cons_refill, TargetChange.emptied_cons_refill, hcs.1,
      hcs.2]
    exact ⟨rfl, rfl⟩
  nil os := by
    rw [allChanges, TargetChange.filled_going, TargetChange.emptied_going]
    exact ⟨rfl, rfl⟩
  cons hn hns := by
    rw [allChanges, TargetChange.filled_append, TargetChange.emptied_append, hn.1, hns.1, hn.2,
      hns.2, allTargets_cons, allTargets_cons]
    exact ⟨rfl, rfl⟩
  more n _ hns := by
    rw [allChanges, TargetChange.filled_append, TargetChange.emptied_append,
      TargetChange.filled_coming, TargetChange.emptied_coming, hns.1, hns.2, allTargets_cons]
    exact ⟨rfl, rfl⟩

/-- From one description to the next each target of a new portal is filled once,
and each target of an old portal loses its content once. -/
theorem targets_allChanges (new old : List Node) :
    TargetChange.filled (allChanges new old) = allTargets new ∧
      TargetChange.emptied (allChanges new old) = allTargets old :=
  compares_targets.all new old

/-! ## What the targets hold in the end -/

section Content

variable {new old : List Node}

theorem fill_mem {k : NodeId} {ns : List Node} {c : TargetChange}
    (hc : c ∈ TargetChange.ofTarget k (allChanges new old)) (h : c = .fill k ns ∨ c = .refill k ns)
    (hn : (allTargets new).Nodup) : allInside new k = ns := by
  have hmem := isChange_of_allChanges new old c (List.mem_filter.1 hc).1
  apply contentOf_of_mem hn
  rcases h with rfl | rfl
  · exact hmem
  · exact hmem.1

/-- Nothing is asked for inside a target that no change fills. -/
theorem allInside_of_unfilled {k : NodeId}
    (h : TargetChange.filled (TargetChange.ofTarget k (allChanges new old)) = []) :
    allInside new k = [] := by
  apply allInside_of_notMem
  rw [← (targets_allChanges new old).1]
  exact TargetChange.notMem_of_ofTarget TargetChange.target_of_filled? h

/-- Nothing stood inside a target that no change empties. -/
theorem allInside_of_unemptied {k : NodeId}
    (h : TargetChange.emptied (TargetChange.ofTarget k (allChanges new old)) = []) :
    allInside old k = [] := by
  apply allInside_of_notMem
  rw [← (targets_allChanges new old).2]
  exact TargetChange.notMem_of_ofTarget TargetChange.target_of_emptied? h

theorem ofTarget_allChanges (hn : (allTargets new).Nodup) (ho : (allTargets old).Nodup)
    (k : NodeId) :
    TargetChange.ofTarget k (allChanges new old) = [] ∨
      TargetChange.ofTarget k (allChanges new old) = [.empty k] ∨
      (∃ ns, TargetChange.ofTarget k (allChanges new old) = [.fill k ns]) ∨
      (∃ ns, TargetChange.ofTarget k (allChanges new old) = [.refill k ns]) ∨
      (∃ ns, TargetChange.ofTarget k (allChanges new old) = [.empty k, .fill k ns]) ∨
      ∃ ns, TargetChange.ofTarget k (allChanges new old) = [.fill k ns, .empty k] :=
  TargetChange.ofTarget_cases ((targets_allChanges new old).1.symm ▸ hn)
    ((targets_allChanges new old).2.symm ▸ ho) k

/-- Where no target is emptied after it was filled, each of them ends up as the
new descriptions ask. -/
theorem applyAll_of_orderly (hn : (allTargets new).Nodup) (ho : (allTargets old).Nodup)
    (h : TargetChange.Orderly (allChanges new old)) (k : NodeId) :
    TargetChange.applyAll (allInside old) (allChanges new old) k = allInside new k := by
  have hk := TargetChange.orderly_iff_ofTarget.1 h k
  rw [TargetChange.applyAll_ofTarget]
  rcases ofTarget_allChanges hn ho k with hc | hc | ⟨ns, hc⟩ | ⟨ns, hc⟩ | ⟨ns, hc⟩ | ⟨ns, hc⟩
  · rw [allInside_of_unfilled (by rw [hc]; rfl), hc, TargetChange.applyAll_nil]
    exact allInside_of_unemptied (by rw [hc]; rfl)
  · rw [allInside_of_unfilled (by rw [hc]; rfl), hc, TargetChange.applyAll_cons]
    exact TargetChange.apply_empty_self
  · have hold : allInside old k = [] := allInside_of_unemptied (by rw [hc]; rfl)
    rw [fill_mem (hc ▸ List.mem_singleton_self _) (Or.inl rfl) hn, hc, TargetChange.applyAll_cons,
      TargetChange.applyAll_nil, TargetChange.apply_fill_self, hold, List.nil_append]
  · rw [fill_mem (hc ▸ List.mem_singleton_self _) (Or.inr rfl) hn, hc, TargetChange.applyAll_cons]
    exact TargetChange.apply_refill_self ns
  · rw [fill_mem (hc ▸ List.mem_cons_of_mem _ (List.mem_singleton_self _)) (Or.inl rfl) hn, hc,
      TargetChange.applyAll_cons, TargetChange.applyAll_cons, TargetChange.applyAll_nil,
      TargetChange.apply_fill_self, TargetChange.apply_empty_self, List.nil_append]
  · have hnil : ns = [] := by
      by_contra hne
      rw [hc] at hk
      exact List.pairwise_pair.1 hk k ns rfl hne rfl
    rw [fill_mem (hc ▸ List.mem_cons_self ..) (Or.inl rfl) hn, hc, hnil,
      TargetChange.applyAll_cons, TargetChange.applyAll_cons]
    exact TargetChange.apply_empty_self

/-- Where a target is emptied after it was filled, it does not hold as much as
its portal. -/
theorem orderly_of_length (hn : (allTargets new).Nodup) (ho : (allTargets old).Nodup)
    (h : ∀ q ∈ allPortals new,
      (TargetChange.applyAll (allInside old) (allChanges new old) q.1).length = q.2.length) :
    TargetChange.Orderly (allChanges new old) := by
  refine TargetChange.orderly_iff_ofTarget.2 fun k => ?_
  rcases ofTarget_allChanges hn ho k with hc | hc | ⟨ns, hc⟩ | ⟨ns, hc⟩ | ⟨ns, hc⟩ | ⟨ns, hc⟩
  · rw [hc]
    exact List.Pairwise.nil
  · rw [hc]
    exact List.pairwise_singleton _ _
  · rw [hc]
    exact List.pairwise_singleton _ _
  · rw [hc]
    exact List.pairwise_singleton _ _
  · rw [hc]
    refine List.pairwise_pair.2 fun l ms he => ?_
    cases he
  · have hmem : (k, ns) ∈ allPortals new := by
      have hin : TargetChange.fill k ns ∈ TargetChange.ofTarget k (allChanges new old) :=
        hc ▸ List.mem_cons_self ..
      exact isChange_of_allChanges new old _ (List.mem_filter.1 hin).1
    have hlength := h (k, ns) hmem
    rw [TargetChange.applyAll_ofTarget, hc] at hlength
    rw [TargetChange.applyAll_cons, TargetChange.applyAll_cons, TargetChange.applyAll_nil,
      TargetChange.apply_empty_self] at hlength
    have hnil : ns = [] := List.length_eq_zero_iff.1 hlength.symm
    rw [hc]
    refine List.pairwise_pair.2 fun l ms he hms => ?_
    cases he
    exact absurd hnil hms

end Content

end Node

end LiveMarkup
