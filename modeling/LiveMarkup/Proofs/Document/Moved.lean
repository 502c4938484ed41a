import LiveMarkup.Proofs.Document.Removed

/-!
# Where moved nodes go

Nodes that are appended or put in the place of another are taken from wherever they are,
and stand under their new parent then (`Document.Moved`). Nodes that are appended one after
the other end up in the order in which each was named last (`Document.Tied.moved_moveAll`).

What is dropped with a replaced node is what stands below it once the new nodes have been
moved, which is what stood below it and below no new node (`Document.Moved.above_iff`).

None of this asks that the root is not moved, so the documents in between are only known to
be tied.
-/

namespace LiveMarkup.Document

variable {d d' d₁ d₂ : Document} {a id k p : NodeId} {ids cs cs' pre post : List NodeId}

/-- Moving nodes once more makes up for where they have been moved. -/
theorem Moved.trans (h : Moved d d₁ p [id] cs) (h' : Moved d₁ d₂ p ids cs') :
    Moved d d₂ p (id :: ids) cs' := by
  intro k
  rw [h' k, h k, Option.map_map]
  exact congrArg (Option.map · _) (funext fun n => n.moved_moved k p id ids cs cs')

theorem Tied.moved (hd : d.Tied) (h : Moved d d' p ids cs) (hp : d.Live p)
    (hids : ∀ i ∈ ids, d.Live i) (hn : ids.Nodup)
    (hperm : cs.Perm ((d.childrenOf p).filter (· ∉ ids) ++ ids)) : d'.Tied where
  nodup k := by
    rw [h.childrenOf_eq hp]
    split
    · exact hd.nodup_of_perm hn hperm
    · exact (hd.nodup k).filter _
  mem_iff q c := by
    rw [h.childrenOf_eq hp, h.parentOf_eq hids]
    by_cases hq : q = p
    · rw [if_pos hq, hperm.mem_iff, List.mem_append, List.mem_filter, hd.mem_iff, hq]
      by_cases hc : c ∈ ids <;> simp [hc]
    · rw [if_neg hq, List.mem_filter, hd.mem_iff]
      by_cases hc : c ∈ ids <;> simp [hc, Ne.symm hq]

theorem filter_append_dedup (l ids : List NodeId) (id : NodeId) :
    (l.filter (· ∉ [id]) ++ [id]).filter (· ∉ ids) ++ ids.dedup =
      l.filter (· ∉ id :: ids) ++ (id :: ids).dedup := by
  rw [List.filter_append, filter_notMem_cons]
  by_cases hid : id ∈ ids
  · simp [hid, List.dedup_cons_of_mem]
  · simp [hid, List.dedup_cons_of_notMem]

/-- Nodes that are appended one after the other stand behind the other children, each where
it was named last. -/
theorem Tied.moved_moveAll : ∀ (ids : List NodeId) {d : Document}, d.Tied → d.Live p →
    (∀ i ∈ ids, d.Live i) → ∃ d', d.moveAll p ids = .ok d' ∧
      Moved d d' p ids ((d.childrenOf p).filter (· ∉ ids) ++ ids.dedup)
  | [], d, _, _, _ => by
      refine ⟨d, rfl, fun k => ?_⟩
      cases hk : d.get? k with
      | none => rfl
      | some n =>
          by_cases hkp : k = p
          · have hcs := childrenOf_of_get? hk
            rw [hkp] at hcs
            simp [LiveNode.moved, hkp, hcs]
          · simp [LiveNode.moved, hkp]
  | id :: ids, d, hd, hp, h => by
      have hid := h id (List.mem_cons_self ..)
      have hone : ∀ i ∈ [id], d.Live i := fun i hi => List.mem_singleton.1 hi ▸ hid
      obtain ⟨d₁, d₂, hmove, -, h₂⟩ := hd.move hid hp ids
      have htied := hd.moved h₂ hp hone (List.nodup_singleton id) (.refl _)
      obtain ⟨d₃, hd₃, h₃⟩ := moved_moveAll ids htied ((h₂.live_iff p).2 hp) fun i hi =>
        (h₂.live_iff i).2 (h i (List.mem_cons_of_mem _ hi))
      rw [h₂.childrenOf_eq hp, if_pos rfl, filter_append_dedup] at h₃
      exact ⟨d₃, hmove.trans hd₃, h₂.trans h₃⟩

/-- What stands below a node once others have been moved to its parent stood below it and
below none of them. -/
theorem Moved.above_iff (h : Moved d d' p ids cs) (hd : d.WellFormed) (ha : d.parentOf a = some p)
    (hids : ∀ i ∈ ids, d.Live i ∧ ¬ d.Above i a) :
    d'.Above a k ↔ d.Above a k ∧ ∀ i ∈ ids, ¬ d.Above i k := by
  have hpar := h.parentOf_eq fun i hi => (hids i hi).1
  constructor
  · intro hak
    induction hak using Relation.ReflTransGen.head_induction_on with
    | refl => exact ⟨.refl, fun i hi => (hids i hi).2⟩
    | @head c q hp _ ih =>
        obtain ⟨haq, hq⟩ := ih
        rw [hpar] at hp
        by_cases hc : c ∈ ids
        · -- a moved node has the parent of the anchor, which is not below it
          rw [if_pos hc, Option.some.injEq] at hp
          exact absurd (hp ▸ haq) (hd.not_above_parent ha)
        · rw [if_neg hc] at hp
          refine ⟨.head hp haq, fun i hi hic => ?_⟩
          have hne : c ≠ i := fun he => hc (he ▸ hi)
          exact hq i hi ((above_iff_of_parentOf hp hne).1 hic)
  · rintro ⟨hak, hk⟩
    induction hak using Relation.ReflTransGen.head_induction_on with
    | refl => exact .refl
    | @head c q hp _ ih =>
        have hc : c ∉ ids := fun hm => hk c hm .refl
        refine .head ?_ (ih fun i hi hiq => hk i hi (.head hp hiq))
        rw [hpar, if_neg hc, hp]

/-- Nodes have been moved to the place of an anchor, which is gone with what remained below
it. -/
structure Replaced (d d' : Document) (a p : NodeId) (ids pre post : List NodeId) : Prop where
  split : (d.childrenOf p).filter (· ∉ ids) = pre ++ a :: post
  gone : ∀ k, d.Above a k → (∀ i ∈ ids, ¬ d.Above i k) → d'.get? k = none
  left : ∀ k, (d.Above a k → ∃ i ∈ ids, d.Above i k) →
    d'.get? k = (d.get? k).map (·.moved k p ids (pre ++ ids ++ post))

theorem filter_splice (hn : (pre ++ a :: post).Nodup) (ha : a ∉ ids) :
    (pre ++ ids ++ a :: post).filter (· ∉ [a]) = pre ++ ids ++ post := by
  have hout : a ∉ pre ++ ids ++ post := by
    have hsplit := (List.nodup_cons.1 (List.nodup_middle.1 hn)).1
    simp only [List.mem_append, not_or] at hsplit ⊢
    exact ⟨⟨hsplit.1, ha⟩, hsplit.2⟩
  rw [List.filter_append, List.filter_cons_of_neg (by simp), ← List.filter_append,
    List.filter_eq_self]
  intro c hc
  exact decide_eq_true fun hm => hout (List.mem_singleton.1 hm ▸ hc)

/-- When an anchor goes that others were moved in front of, its parent alone loses it. -/
theorem moved_without (hd : d.Tied) (ha : d.parentOf a = some p) (haids : a ∉ ids)
    (hsplit : (d.childrenOf p).filter (· ∉ ids) = pre ++ a :: post) {n : LiveNode}
    (hn : d.get? k = some n) (hka : k ≠ a) :
    (n.moved k p ids (pre ++ ids ++ a :: post)).without k [a] =
      n.moved k p ids (pre ++ ids ++ post) := by
  have hnodup : (pre ++ a :: post).Nodup := hsplit ▸ (hd.nodup p).filter _
  rw [LiveNode.without, if_neg (List.mem_singleton.not.2 hka), LiveNode.moved, LiveNode.moved]
  by_cases hkp : k = p
  · simp only [if_pos hkp, filter_splice hnodup haids]
  · have hcs : n.children.filter (· ∉ [a]) = n.children := by
      refine hd.filter_children hn fun i hi => ?_
      rw [List.mem_singleton.1 hi, ha, Ne, Option.some.injEq]
      exact Ne.symm hkp
    simp only [if_neg hkp]
    rw [List.filter_comm, hcs]

namespace WellFormed

/-- Nodes that do not stand above an anchor can take its place. -/
theorem replaced (hd : d.WellFormed) (ha : d.parentOf a = some p) (hn : ids.Nodup)
    (hids : ∀ i ∈ ids, d.Live i ∧ ¬ d.Above i a) :
    ∃ d' pre post, d.replace a ids = .ok d' ∧ Replaced d d' a p ids pre post := by
  have hlive := live_of_parentOf ha
  have hids' : ∀ i ∈ ids, d.Live i := fun i hi => (hids i hi).1
  have haids : a ∉ ids := fun hm => (hids a hm).2 .refl
  obtain ⟨d₁, h₁, -, hsome⟩ := hd.tied.insertBefore hlive hids'
  obtain ⟨d₂, pre, post, hd₂, hsplit, h₂⟩ := hsome p (by rw [h₁.parentOf_eq, if_neg haids, ha])
  have htied := hd.tied.moved h₂ (hd.live_parent ha) hids' hn (hsplit ▸ perm_splice pre ids a post)
  obtain ⟨d₃, hd₃, hcut⟩ := htied.cut_dropSubtree ((h₂.live_iff a).2 hlive)
    (hd.ne_root ha)
  have habove := fun k => h₂.above_iff (k := k) hd ha hids
  refine ⟨d₃.record (.replaceNode a ids), pre, post, ?_, hsplit, fun k hak hk => ?_, fun k hk => ?_⟩
  · rw [Document.replace, hd₂, Except.ok_bind, hd₃]
    rfl
  · rw [get?_record, hcut.gone k a (List.mem_singleton_self a) ((habove k).2 ⟨hak, hk⟩)]
  · have hstay : ¬ d₂.Above a k := by
      rw [habove]
      rintro ⟨hak, hnone⟩
      obtain ⟨i, hi, hik⟩ := hk hak
      exact hnone i hi hik
    rw [get?_record, hcut.left k (by simpa using hstay), h₂ k, Option.map_map]
    cases hget : d.get? k with
    | none => rfl
    | some n =>
        have hka : k ≠ a := fun he => hstay (he ▸ .refl)
        exact congrArg some (moved_without hd.tied ha haids hsplit hget hka)

/-- Live nodes that are appended are moved behind the other children of the parent, in the
order in which each was named last. Different live nodes that do not stand above an anchor
are moved to its place. -/
theorem moves (hd : d.WellFormed) :
    (∀ p ids, d.Live p → (∀ i ∈ ids, d.Live i) → ∃ d', d.append p ids = .ok d' ∧
      Moved d d' p ids ((d.childrenOf p).filter (· ∉ ids) ++ ids.dedup)) ∧
    ∀ a p ids, d.parentOf a = some p → ids.Nodup → (∀ i ∈ ids, d.Live i ∧ ¬ d.Above i a) →
      ∃ d' pre post, d.replace a ids = .ok d' ∧ Replaced d d' a p ids pre post := by
  refine ⟨fun p ids hp hids => ?_, fun a p ids ha hn hids => hd.replaced ha hn hids⟩
  obtain ⟨d', hd', hmoved⟩ := Tied.moved_moveAll ids hd.tied hp hids
  refine ⟨d'.record (.appendChildren p ids), ?_, fun k => ?_⟩
  · rw [Document.append, hd']
    rfl
  · rw [get?_record, hmoved k]

end WellFormed

/-- The text beside the item is moved out of the list to the end, and named twice for that.
The list goes when its place is taken by the text in its item and the text behind it. -/
theorem moves_grove : ∃ d d₁ d₂, (new true).performAll grove = .ok d ∧ d.WellFormed ∧
    (d.Live 0 ∧ ∀ i ∈ [5, 3, 5], d.Live i) ∧ d.append 0 [5, 3, 5] = .ok d₁ ∧
    d₁.childrenOf 0 = [1, 3, 5] ∧
    (d.parentOf 1 = some 0 ∧ [4, 3].Nodup ∧ ∀ i ∈ [4, 3], d.Live i ∧ ¬ d.Above i 1) ∧
    d.replace 1 [4, 3] = .ok d₂ ∧ Replaced d d₂ 1 0 [4, 3] [] [] := by
  obtain ⟨d, hd, hwf, h0, h1, h2, hchain⟩ := exists_grove
  have hparent : ∀ p c, c ∈ d.childrenOf p → d.parentOf c = some p := fun p c =>
    (hwf.mem_iff p c).1
  have hlist := hparent 0 1 (by simp [h0])
  have hbehind := live_of_parentOf (hparent 0 3 (by simp [h0]))
  have hbeside := live_of_parentOf (hparent 1 5 (by simp [h1]))
  have hinside := live_of_parentOf (hparent 2 4 (by simp [h2]))
  have hroot := hwf.live_parent hlist
  have hlive : ∀ i ∈ [5, 3, 5], d.Live i := by simp [hbehind, hbeside]
  have hnot : ∀ i ∈ [4, 3], d.Live i ∧ ¬ d.Above i 1 := by
    simp [← hwf.mem_chain_iff (live_of_parentOf hlist), hchain, hbehind, hinside]
  obtain ⟨d₁, hd₁, hmoved⟩ := hwf.moves.1 0 [5, 3, 5] hroot hlive
  obtain ⟨d₂, pre, post, hd₂, hreplaced⟩ := hwf.moves.2 1 0 [4, 3] hlist (by decide) hnot
  refine ⟨d, d₁, d₂, hd, hwf, ⟨hroot, hlive⟩, hd₁, ?_, ⟨hlist, by decide, hnot⟩, hd₂, ?_⟩
  · rw [hmoved.childrenOf_eq hroot, if_pos rfl, h0]
    decide
  · have hsplit : [1] = pre ++ 1 :: post := (h0 ▸ hreplaced.split :)
    cases pre with
    | nil =>
        obtain rfl : [] = post := (List.cons.inj hsplit).2
        exact hreplaced
    | cons x pre => simp at hsplit

end LiveMarkup.Document
