import LiveMarkup.Proofs.Document.Calls

/-!
# Calls that make a cycle

What `Document.Admits` asks of the place of insertion is exactly that no node comes
to stand below itself. A call that passes live nodes, does not insert the root and
tells apart what it puts in one place leaves a node below itself if and only if it
inserts a node that its place stands below (`WellFormed.loops_perform_iff`).

Appending moves one node after the other, so in between the document may have a
cycle already. It goes through the parent, and moving another node to the parent
leaves one there (`Linked.moveAll_loopsAt`).
-/

namespace LiveMarkup.Document

variable {d d' d₁ d₂ : Document} {a b c id k p q : NodeId} {ids cs : List NodeId}

/-- A node stands below itself. -/
def LoopsAt (d : Document) (k : NodeId) : Prop :=
  ∃ p, d.parentOf k = some p ∧ d.Above k p

/-- Some node stands below itself. -/
def Loops (d : Document) : Prop :=
  ∃ k, d.LoopsAt k

theorem WellFormed.not_loops (hd : d.WellFormed) : ¬ d.Loops := by
  rintro ⟨k, p, hp, ha⟩
  exact hd.not_above_parent hp ha

/-- Where the parents of some nodes have changed, what stood above still does, or
one of those nodes does. -/
theorem above_or_of_parentOf (h : ∀ k ∉ ids, d'.parentOf k = d.parentOf k) (ha : d.Above a k) :
    d'.Above a k ∨ ∃ i ∈ ids, d'.Above i k := by
  induction ha using Relation.ReflTransGen.head_induction_on with
  | refl => exact Or.inl .refl
  | @head k q hq _ ih =>
      by_cases hk : k ∈ ids
      · exact Or.inr ⟨k, hk, .refl⟩
      · rw [← h k hk] at hq
        rcases ih with ha | ⟨i, hi, ha⟩
        · exact Or.inl (.head hq ha)
        · exact Or.inr ⟨i, hi, .head hq ha⟩

/-- A parent that one of its children stands above stands below itself. -/
theorem loopsAt_of_above (hp : d.parentOf id = some p) (ha : d.Above id p) : d.LoopsAt p := by
  rcases Relation.ReflTransGen.cases_head ha with rfl | ⟨q, hq, ha⟩
  · exact ⟨p, hp, .refl⟩
  · exact ⟨q, hq, Above.trans (.single hp) ha⟩

theorem LoopsAt.record (h : d.LoopsAt k) (m : Mutation) : (d.record m).LoopsAt k := by
  unfold LoopsAt Above at h ⊢
  rwa [parentOf_congr (get?_record_eq d m)]

/-! ## Appending -/

theorem Linked.moveAll_loopsAt : ∀ (ids : List NodeId) {d d' : Document}, d.Linked → d.Live p →
    (∀ k ∈ ids, d.Live k ∧ k ≠ Document.root) → (∃ k ∈ ids, d.Above k p) ∨ d.LoopsAt p →
    d.moveAll p ids = .ok d' → d'.LoopsAt p
  | [], d, d', _, _, _, h, hd' => by
      cases hd'
      simpa using h
  | id :: ids, d, d', hd, hp, hids, h, hd' => by
      obtain ⟨hlive, hroot⟩ := hids id (List.mem_cons_self ..)
      obtain ⟨d₁, d₂, hd₂, h₁, h₂⟩ := hd.move hlive hroot hp ids
      have hid : d₂.parentOf id = some p := by
        rw [h₂.parentOf, if_pos (List.mem_singleton_self id)]
      have hsame : ∀ k ∉ [id], d₂.parentOf k = d.parentOf k := by
        intro k hk
        rw [h₂.parentOf, if_neg hk, h₁.parentOf, if_neg hk]
      have habove : ∀ {a k}, d.Above a k → d₂.Above a k ∨ d₂.Above id k := by
        intro a k ha
        simpa using above_or_of_parentOf hsame ha
      have hbad : (∃ k ∈ ids, d₂.Above k p) ∨ d₂.LoopsAt p := by
        rcases h with ⟨k, hk, ha⟩ | ⟨q, hq, ha⟩
        · rcases habove ha with ha | ha
          · cases hk with
            | head => exact Or.inr (loopsAt_of_above hid ha)
            | tail _ hk => exact Or.inl ⟨k, hk, ha⟩
          · exact Or.inr (loopsAt_of_above hid ha)
        · right
          by_cases hpid : p = id
          · exact ⟨p, hpid ▸ hid, .refl⟩
          · rw [← hsame p (by simpa using hpid)] at hq
            rcases habove ha with ha | ha
            · exact ⟨q, hq, ha⟩
            · exact loopsAt_of_above hid (.head hq ha)
      have hlabel : ∀ k, d₂.labelOf k = d.labelOf k := fun k =>
        (h₂.labelOf k).trans (h₁.labelOf k)
      rw [hd₂] at hd'
      refine Linked.moveAll_loopsAt ids ((hd.loosen h₁).plant h₂) ((live_congr (hlabel p)).2 hp)
        (fun k hk => ?_) hbad hd'
      obtain ⟨hl, hr⟩ := hids k (List.mem_cons_of_mem _ hk)
      exact ⟨(live_congr (hlabel k)).2 hl, hr⟩

/-! ## Replacing -/

/-- A node that stands below itself still does after dropping one that is not above. -/
theorem LoopsAt.dropSubtree (hk : d.LoopsAt k) (hlinked : d.Linked) (hlive : d.Live id)
    (hroot : id ≠ Document.root) (hid : ¬ d.Above id k) (hd' : d.dropSubtree id = .ok d') :
    d'.LoopsAt k := by
  obtain ⟨d₂, hd₂, hcut⟩ := hlinked.tied.cut_dropSubtree hlive hroot
  rw [hd₂] at hd'
  cases hd'
  obtain ⟨q, hq, ha⟩ := hk
  have hidk : ∀ i ∈ [id], ¬ d.Above i k := by simpa using hid
  have hidq : ∀ i ∈ [id], ¬ d.Above i q := fun i hi ha => hidk i hi (.head hq ha)
  exact ⟨q, hcut.parentOf_eq_some_iff.2 ⟨hidk, hq⟩, (hcut.above_iff hidq).2 ha⟩

theorem WellFormed.replace_loops (hd : d.WellFormed) (ha : d.Live a) (hn : ids.Nodup)
    (hids : ∀ k ∈ ids, d.Live k) (hroot : Document.root ∉ ids) (haids : a ∉ ids)
    (hp : d.parentOf a = some p) (hk : ∃ k ∈ ids, d.Above k p) (hd' : d.replace a ids = .ok d') :
    d'.Loops := by
  obtain ⟨d₁, h₁, -, hsome⟩ := hd.toLinked.insertBefore ha hids hroot hn
  have hp₁ : d₁.parentOf a = some p := by
    rw [h₁.parentOf, if_neg haids, hp]
  obtain ⟨d₂, hd₂, h₂⟩ := hsome p hp₁
  have hlinked := (hd.toLinked.loosen h₁).plant h₂
  have hsame : ∀ k ∉ ids, d₂.parentOf k = d.parentOf k := by
    intro k hk
    rw [h₂.parentOf, if_neg hk, h₁.parentOf, if_neg hk]
  have hloop : d₂.LoopsAt p := by
    have habove : ∃ i ∈ ids, d₂.Above i p := by
      obtain ⟨k, hk, hkp⟩ := hk
      rcases above_or_of_parentOf hsame hkp with hkp | h
      · exact ⟨k, hk, hkp⟩
      · exact h
    obtain ⟨i, hi, hip⟩ := habove
    refine loopsAt_of_above ?_ hip
    rw [h₂.parentOf, if_pos hi]
  -- the anchor stands below its parent only, also with the new links
  have hanchor : ¬ d₂.Above a p := by
    have hup : ∀ {k}, d₂.Above a k → d.Above a k ∨ d.Above a p := by
      intro k hk
      induction hk using Relation.ReflTransGen.head_induction_on with
      | refl => exact Or.inl .refl
      | @head k q hq _ ih =>
          rw [h₂.parentOf] at hq
          split at hq
          · rw [Option.some.injEq] at hq
            subst hq
            exact Or.inr (ih.elim id id)
          · rename_i hk
            rw [h₁.parentOf, if_neg hk] at hq
            exact ih.imp_left (.head hq)
    intro hap
    exact hd.not_above_parent hp ((hup hap).elim id id)
  have hlabel : ∀ k, d₂.labelOf k = d.labelOf k := fun k => (h₂.labelOf k).trans (h₁.labelOf k)
  have haroot := hd.ne_root hp
  have halive := (live_congr (hlabel a)).2 ha
  obtain ⟨d₃, hd₃, -⟩ := hlinked.tied.cut_dropSubtree halive haroot
  rw [Document.replace, hd₂, Except.ok_bind, hd₃] at hd'
  cases hd'
  exact ⟨p, (hloop.dropSubtree hlinked halive haroot hanchor hd₃).record _⟩

/-! ## Which calls make a cycle -/

/-- A call leaves a node below itself if and only if it inserts a node that its place
stands below. -/
theorem WellFormed.loops_perform_iff (hd : d.WellFormed) {c : TreeCall}
    (hlive : ∀ k ∈ c.ids, d.Live k) (hroot : Document.root ∉ c.inserted) (hdistinct : c.Distinct)
    (hd' : d.perform c = .ok d') : d'.Loops ↔ ∃ k ∈ c.inserted, k ∈ c.place d := by
  constructor
  · intro hloops
    by_contra hplace
    push Not at hplace
    obtain ⟨d₁, hd₁, hwf⟩ := hd.perform ⟨hlive, hroot, hdistinct, hplace⟩
    rw [hd', Except.ok.injEq] at hd₁
    subst hd₁
    exact hwf.not_loops hloops
  · rintro ⟨k, hk, hplace⟩
    cases c with
    | append parent ids =>
        have hp : d.Live parent := hlive parent (List.mem_cons_self ..)
        have hids : ∀ k ∈ ids, d.Live k ∧ k ≠ Document.root := fun k hk =>
          ⟨hlive k (List.mem_cons_of_mem _ hk), fun he => hroot (he ▸ hk)⟩
        have hbelow : (∃ k ∈ ids, d.Above k parent) ∨ d.LoopsAt parent :=
          Or.inl ⟨k, hk, (hd.mem_chain_iff hp).1 hplace⟩
        rw [Document.perform, Document.append] at hd'
        cases hm : d.moveAll parent ids with
        | error e =>
            rw [hm] at hd'
            cases hd'
        | ok d₁ =>
            rw [hm] at hd'
            cases hd'
            exact ⟨parent, (Linked.moveAll_loopsAt ids hd.toLinked hp hids hbelow hm).record _⟩
    | replace anchor ids =>
        rw [TreeCall.place] at hplace
        by_cases hanchor : anchor ∈ ids
        · rw [if_pos hanchor] at hplace
          cases hplace
        · rw [if_neg hanchor] at hplace
          have ha : d.Live anchor := hlive anchor (List.mem_cons_self ..)
          obtain ⟨p, hp, hkp⟩ := (hd.mem_ancestors_iff ha).1 hplace
          exact hd.replace_loops ha hdistinct (fun k hk => hlive k (List.mem_cons_of_mem _ hk))
            hroot hanchor hp ⟨k, hk, hkp⟩ hd'
    | _ => cases hk

end LiveMarkup.Document
