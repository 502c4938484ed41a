import LiveMarkup.Proofs.Document.Forest

/-!
# Operations on forests

What each operation of a document does to the forests under hosts. A new node
stands nowhere (`sprouted_create`); appending and replacing plant it under a host
(`Sprouted.append`, `Sprouted.replace`); removing takes a subtree out
(`Hosts.remove`, `Hosts.removeChildren`). None of them can fail, since every
number that is looked up is held by a forest or is a host.
-/

namespace LiveMarkup

open Subtree hiding id data children

theorem Except.ok_bind {ε α β : Type} (a : α) (f : α → Except ε β) : (Except.ok a >>= f) = f a :=
  rfl

theorem Except.exists_of_bind_eq_ok {ε α β : Type} {x : Except ε α} {f : α → Except ε β} {b : β}
    (h : (x >>= f) = .ok b) : ∃ a, x = .ok a ∧ f a = .ok b := by
  cases x with
  | error e => cases h
  | ok a => exact ⟨a, rfl, h⟩

theorem Except.exists_of_map_eq_ok {ε α β : Type} {x : Except ε α} {f : α → β} {b : β}
    (h : x.map f = .ok b) : ∃ a, x = .ok a ∧ f a = b := by
  cases x with
  | error e => cases h
  | ok a => exact ⟨a, rfl, Except.ok.inj h⟩

/-- A computation that is seen to give something of a kind gives it. -/
theorem Except.exists_of_any {ε α : Type} {x : Except ε α} {f : α → Bool}
    (h : x.toOption.any f = true) : ∃ a, x = .ok a ∧ f a = true := by
  cases x with
  | error e => cases h
  | ok a => exact ⟨a, rfl, h⟩

/-- Whatever a computation gives has a property. -/
def Except.Yields {ε α : Type} (P : α → Prop) (x : Except ε α) : Prop :=
  ∀ a, x = .ok a → P a

namespace Except.Yields

variable {ε α β : Type} {P : α → Prop} {Q : β → Prop}

theorem ok {a : α} (h : P a) : Yields P (.ok a : Except ε α) := by
  rintro _ ⟨⟩
  exact h

theorem mono {P' : α → Prop} {x : Except ε α} (h : Yields P x) (hP : ∀ a, P a → P' a) :
    Yields P' x :=
  fun a ha => hP a (h a ha)

theorem bind {x : Except ε α} {f : α → Except ε β} (hx : Yields P x)
    (hf : ∀ a, P a → Yields Q (f a)) : Yields Q (x >>= f) := by
  intro b h
  obtain ⟨a, ha, hb⟩ := exists_of_bind_eq_ok h
  exact hf a (hx a ha) b hb

/-- What is only looked up makes no difference. -/
theorem look {x : Except ε α} {f : α → Except ε β} (hf : ∀ a, Yields Q (f a)) :
    Yields Q (x >>= f) :=
  bind (P := fun _ => True) (fun _ _ => trivial) fun a _ => hf a

theorem map {x : Except ε α} {f : α → β} (hf : ∀ a, Q (f a)) : Yields Q (x.map f) := by
  intro b h
  obtain ⟨a, -, rfl⟩ := exists_of_map_eq_ok h
  exact hf a

end Except.Yields

/-! ## Taking out subtrees -/

namespace Document

mutual

/-- Taking out the top of a subtree takes out all of it. -/
theorem dropAll_subtree : ∀ (t : Subtree) (s : Slab LiveNode) (parent : Option NodeId)
    (rest : List NodeId), t.Held s.get? parent → t.ids.Nodup →
    ∃ s', dropAll s (t.id :: rest) = dropAll s' rest ∧
      ∀ k, s'.get? k = if k ∈ t.ids then none else s.get? k
  | .node id data cs, s, _, rest, h, hn => by
      obtain ⟨hid, hcs⟩ := List.nodup_cons.1 hn
      have hheld : AllHeld (s.remove id).get? id cs := by
        refine h.2.congr fun k hk => ?_
        rw [s.get?_remove, if_neg]
        rintro rfl
        exact hid hk
      obtain ⟨s', hs', hget⟩ := dropAll_subtrees cs (s.remove id) id rest hheld hcs
      refine ⟨s', ?_, fun k => ?_⟩
      · rw [← hs', Subtree.id, dropAll]
        split
        · rename_i hnone
          rw [h.1] at hnone
          cases hnone
        · rename_i n hsome
          rw [h.1, Option.some.injEq] at hsome
          rw [← hsome]
      · rw [hget, s.get?_remove]
        grind [ids_node]
termination_by structural t => t

/-- Taking out the tops of subtrees takes out all of them. -/
theorem dropAll_subtrees : ∀ (ts : List Subtree) (s : Slab LiveNode) (parent : NodeId)
    (rest : List NodeId), AllHeld s.get? parent ts → (allIds ts).Nodup →
    ∃ s', dropAll s (ts.map Subtree.id ++ rest) = dropAll s' rest ∧
      ∀ k, s'.get? k = if k ∈ allIds ts then none else s.get? k
  | [], s, _, rest, _, _ => ⟨s, rfl, by simp⟩
  | t :: ts, s, parent, rest, h, hn => by
      rw [allIds_cons, List.nodup_append] at hn
      obtain ⟨s₁, hs₁, hget₁⟩ :=
        dropAll_subtree t s (some parent) (ts.map Subtree.id ++ rest) h.1 hn.1
      have hheld : AllHeld s₁.get? parent ts := by
        refine h.2.congr fun k hk => ?_
        rw [hget₁, if_neg fun hk' => hn.2.2 k hk' k hk rfl]
      obtain ⟨s₂, hs₂, hget₂⟩ := dropAll_subtrees ts s₁ parent rest hheld hn.2.1
      refine ⟨s₂, ?_, fun k => ?_⟩
      · rw [List.map_cons, List.cons_append, hs₁, hs₂]
      · rw [hget₂, hget₁]
        grind [allIds_cons]
termination_by structural ts => ts

end

theorem detach_of_parent {d : Document} {id h : NodeId} {n m : LiveNode}
    (hn : d.get? id = some n) (hp : n.parent = some h) (hm : d.get? h = some m) (hne : h ≠ id) :
    ∃ d', d.detach id = .ok d' ∧ ∀ k, d'.get? k =
      if k = id then some { n with parent := none }
      else if k = h then some { m with children := m.children.filter (· ≠ id) }
      else d.get? k := by
  refine ⟨(d.modify id fun n => { n with parent := none }).modify h fun n =>
    { n with children := n.children.filter (· ≠ id) }, ?_, fun k => ?_⟩
  · have hm' : (d.modify id fun n => { n with parent := none }).node h = .ok m := by
      rw [node_eq_ok_iff, get?_modify, if_neg hne.symm, hm]
    rw [detach, (node_eq_ok_iff d id n).2 hn, Except.ok_bind]
    simp only [hp, hm', Except.ok_bind]
    rfl
  · rw [get?_modify, get?_modify]
    by_cases hk : k = id
    · subst hk
      rw [if_neg hne, if_pos rfl, if_pos rfl, hn]
      rfl
    · by_cases hkh : k = h
      · subst hkh
        rw [if_pos rfl, if_neg (Ne.symm hk), if_neg hk, if_pos rfl, hm]
        rfl
      · rw [if_neg (Ne.symm hkh), if_neg (Ne.symm hk), if_neg hk, if_neg hkh]

theorem detach_of_detached {d : Document} {id : NodeId} {n : LiveNode} (hn : d.get? id = some n)
    (hp : n.parent = none) : d.detach id = .ok d := by
  rw [detach, (node_eq_ok_iff d id n).2 hn, Except.ok_bind]
  simp only [hp]
  rfl

/-- A detached node is appended behind the children of a parent. -/
theorem append_of_detached {d : Document} {id h : NodeId} {n m : LiveNode}
    (hn : d.get? id = some n) (hp : n.parent = none) (hm : d.get? h = some m) (hne : h ≠ id) :
    ∃ d', d.append h [id] = .ok d' ∧ ∀ k, d'.get? k =
      if k = id then some { n with parent := some h }
      else if k = h then some { m with children := m.children ++ [id] }
      else d.get? k := by
  refine ⟨(((d.modify h fun n => { n with children := n.children ++ [id] }).modify id fun n =>
      { n with parent := some h }).record (.appendChildren h [id])), ?_, fun k => ?_⟩
  · rw [Document.append, moveAll, detach_of_detached hn hp, Except.ok_bind,
      (node_eq_ok_iff _ _ _).2 hm, Except.ok_bind, moveAll, Except.ok_bind]
    rfl
  · rw [get?_record, get?_modify, get?_modify]
    by_cases hk : k = id
    · rw [hk, if_pos rfl, if_pos rfl, if_neg hne, hn]
      rfl
    · rw [if_neg (Ne.symm hk), if_neg hk]
      by_cases hkh : k = h
      · rw [hkh, if_pos rfl, if_pos rfl, hm]
        rfl
      · rw [if_neg (Ne.symm hkh), if_neg hkh]

theorem dropSubtree_ok {d : Document} {h : NodeId} {m : LiveNode} {t : Subtree}
    (ht : t.Held d.get? (some h)) (hn : t.ids.Nodup) (hroot : t.id ≠ root) (hh : h ∉ t.ids)
    (hm : d.get? h = some m) :
    ∃ d', d.dropSubtree t.id = .ok d' ∧ ∀ k, d'.get? k =
      if k ∈ t.ids then none
      else if k = h then some { m with children := m.children.filter (· ≠ t.id) }
      else d.get? k := by
  have hne : h ≠ t.id := fun he => hh (he ▸ t.id_mem_ids)
  obtain ⟨d₁, hd₁, hget₁⟩ := detach_of_parent ht.view_id rfl hm hne
  have ht₁ : t.Held d₁.get? none := by
    cases t with
    | node i data cs =>
        refine ht.replace_top (List.nodup_cons.1 hn).1 ?_ fun k hk hkcs => ?_
        · exact (hget₁ i).trans (if_pos rfl)
        · have hkh : k ≠ h := fun he => hh (he ▸ List.mem_cons_of_mem _ hkcs)
          exact (hget₁ k).trans ((if_neg hk).trans (if_neg hkh))
  obtain ⟨s', hs', hget⟩ := dropAll_subtree t d₁.nodes none [] ht₁ hn
  refine ⟨{ d₁ with nodes := dropAll d₁.nodes [t.id] }, ?_, fun k => ?_⟩
  · rw [dropSubtree, if_neg hroot, hd₁]
    rfl
  · have hk : (dropAll d₁.nodes [t.id]).get? k = if k ∈ t.ids then none else d₁.get? k := by
      rw [hs', dropAll, hget]
      rfl
    apply hk.trans
    by_cases hmem : k ∈ t.ids
    · rw [if_pos hmem, if_pos hmem]
    · have hkid : k ≠ t.id := fun he => hmem (he ▸ t.id_mem_ids)
      rw [if_neg hmem, if_neg hmem, hget₁, if_neg hkid]

/-! ## Making nodes -/

variable {d d' d₁ : Document} {H : Set NodeId} {F F₁ : Forest} {h : NodeId} {t t' : Subtree}
  {pre post cs : List Subtree} {id : NodeId} {data data' : NodeData}

/-- The next number is new, and stands for the new node. -/
theorem Hosts.create (hd : d.Hosts H F) (data : NodeData) (m : Mutation) :
    Sprouted H d F ((d.create data).2.record m) F (.node (d.create data).1 data []) := by
  have hnone : d.get? d.nodes.nextKey = none := d.nodes.get?_nextKey
  have hget : ∀ k, ((d.create data).2.record m).get? k =
      if k = d.nodes.nextKey then some ⟨d.nodes.nextKey, data, none, []⟩ else d.get? k := fun k =>
    (get?_record _ _ _).trans (get?_create d data k)
  have hfresh : d.nodes.nextKey ∉ F.inside H ∧ d.nodes.nextKey ∉ H ∧ d.nodes.nextKey ≠ root := by
    refine ⟨?_, fun hH => ?_, fun he => ?_⟩
    · rintro ⟨g, hg, hk⟩
      obtain ⟨n, hn⟩ := (hd.held g hg).live _ hk
      rw [hnone] at hn
      cases hn
    · obtain ⟨n, hn, -⟩ := hd.host _ hH
      rw [hnone] at hn
      cases hn
    · obtain ⟨n, hn⟩ := hd.root_live
      rw [← he, hnone] at hn
      cases hn
  have hsame : ∀ k n, d.get? k = some n → ((d.create data).2.record m).get? k = some n := by
    intro k n hn
    rw [hget, if_neg, hn]
    rintro rfl
    rw [hnone] at hn
    cases hn
  refine ⟨⟨?_, hd.root_notMem, ?_, ?_, hd.nodup, hd.unique, hd.host_notMem⟩, ⟨?_, trivial⟩, ?_, ?_,
    ?_⟩
  · obtain ⟨n, hn⟩ := hd.root_live
    exact ⟨n, hsame _ _ hn⟩
  · intro g hg
    obtain ⟨n, hn, hcs⟩ := hd.host g hg
    exact ⟨n, hsame _ _ hn, hcs⟩
  · intro g hg
    refine (hd.held g hg).congr fun k hk => ?_
    obtain ⟨n, hn⟩ := (hd.held g hg).live k hk
    rw [hn, hsame _ _ hn]
  · rw [hget]
    exact if_pos rfl
  · exact List.nodup_cons.2 ⟨List.not_mem_nil, List.nodup_nil⟩
  · intro k hk
    rw [List.mem_singleton.1 hk]
    exact hfresh
  · funext k
    by_cases hk : k = d.nodes.nextKey
    · subst hk
      rw [rest_of_mem (Or.inr (List.mem_singleton_self _)), rest_of_get?_eq_none hnone]
    · refine rest_congr ⟨fun hX => hX.resolve_right fun hk' => ?_, Or.inl⟩ ((hget k).trans (if_neg hk))
      exact hk (List.mem_singleton.1 hk')

/-! ## Planting what stands nowhere -/

theorem Sprouted.planted (hs : Sprouted H d F d₁ F₁ t) (hh : h ∈ H) {m : LiveNode}
    (hF : F₁ h = pre ++ post) (hm : d₁.get? h = some m)
    (hget : ∀ k, d'.get? k =
      if k = t.id then some ⟨t.id, t.data, some h, t.children.map Subtree.id⟩
      else if k = h then some { m with children := (pre ++ t :: post).map Subtree.id }
      else d₁.get? k) :
    Reforested H d F d' (F₁.set h (pre ++ t :: post)) := by
  have hapart : ∀ k ∈ t.ids, k ∉ allIds (F₁ h) := fun k hk hF =>
    (hs.apart k hk).1 ⟨h, hh, hF⟩
  have hht : h ≠ t.id := fun he => (hs.apart t.id t.id_mem_ids).2.1 (he ▸ hh)
  have hsame : ∀ k, k ≠ h → k ≠ t.id → d'.get? k = d₁.get? k := fun k hk hkt => by
    rw [hget, if_neg hkt, if_neg hk]
  have hold : ∀ k ∈ allIds (F₁ h), d'.get? k = d₁.get? k := by
    intro k hk
    refine hsame k (fun he => ?_) fun he => hapart k (he ▸ t.id_mem_ids) hk
    exact (hs.hosts.notMem_of_mem hh hk).1 (he ▸ hh)
  have hheld := hs.hosts.held h hh
  have hnodup := hs.hosts.nodup h hh
  rw [hF] at hheld hnodup hold
  have hmem : ∀ k, k ∈ allIds (pre ++ t :: post) ↔ k ∈ allIds (F₁ h) ∨ k ∈ t.ids := by
    intro k
    rw [hF]
    simp only [allIds_append, allIds_cons, List.mem_append]
    tauto
  refine hs.plant ⟨hs.hosts, hh, ⟨m, hm, ?_⟩, ?_, ?_, ?_, ?_, ?_⟩ (fun k hk => (hmem k).1 hk)
    fun k hk => (hmem k).2 (Or.inr hk)
  · rw [hget, if_neg hht, if_pos rfl]
  · have hall := hheld.congr hold
    rw [allHeld_append] at hall
    refine allHeld_append.2 ⟨hall.1, ?_, hall.2⟩
    have ht := hs.held
    cases t with
    | node i data cs =>
        refine ht.replace_top (List.nodup_cons.1 hs.nodup).1 ((hget i).trans (if_pos rfl)) ?_
        intro k hki hk
        refine hsame k (fun he => ?_) hki
        exact (hs.apart k (List.mem_cons_of_mem _ hk)).2.1 (he ▸ hh)
  · have hgap : (allIds pre ++ ([] ++ allIds post)).Nodup := by rwa [allIds_append] at hnodup
    rw [allIds_append, allIds_cons]
    refine nodup_beside hgap hs.nodup fun k hk hkt => hapart k hkt ?_
    rw [hF, allIds_append]
    exact List.mem_append.2 hk
  · intro k hk hkF
    exact hs.apart k (((hmem k).1 hk).resolve_left hkF)
  · intro k hk hkts
    exact absurd ((hmem k).2 (Or.inl hk)) hkts
  · intro k hk _ hkts
    exact hsame k hk fun he => hkts ((hmem k).2 (Or.inr (he ▸ t.id_mem_ids)))

theorem Sprouted.append (hs : Sprouted H d F d₁ F₁ t) (hh : h ∈ H) :
    ∃ d', d₁.append h [t.id] = .ok d' ∧ Reforested H d F d' (F₁.set h (F₁ h ++ [t])) := by
  obtain ⟨m, hm, hcs⟩ := hs.hosts.host h hh
  have hht : h ≠ t.id := fun he => (hs.apart t.id t.id_mem_ids).2.1 (he ▸ hh)
  obtain ⟨d', hd', hget⟩ := append_of_detached hs.held.view_id rfl hm hht
  refine ⟨d', hd', hs.planted hh (List.append_nil _).symm hm fun k => ?_⟩
  rw [hget, List.map_append, ← hcs]
  rfl

theorem Sprouted.insertBefore (hs : Sprouted H d F d₁ F₁ t') (hh : h ∈ H)
    (hF : F₁ h = pre ++ t :: post) :
    ∃ d', d₁.insertBefore t.id [t'.id] = .ok d' ∧
      Reforested H d F d' (F₁.set h (pre ++ t' :: t :: post)) := by
  obtain ⟨m, hm, hcs⟩ := hs.hosts.host h hh
  have hht : h ≠ t'.id := fun he => (hs.apart t'.id t'.id_mem_ids).2.1 (he ▸ hh)
  have hview := hs.held.view_id
  have htview := (hs.hosts.held_of_eq hh hF).view_id
  have hindex : m.indexOfChild? t.id = some (pre.map Subtree.id).length := by
    have hnodup := (map_id_sublist _).nodup (hs.hosts.nodup h hh)
    rw [LiveNode.indexOfChild?, hcs, hF, List.map_append, List.map_cons,
      List.findIdx?_append, List.findIdx?_eq_none_iff.2, List.findIdx?_cons]
    · simp
    · intro i hi
      rw [hF, List.map_append, List.map_cons] at hnodup
      have hne := (List.nodup_append.1 hnodup).2.2 i hi t.id (List.mem_cons_self ..)
      exact decide_eq_false hne
  let l := (pre.map Subtree.id).length
  refine ⟨(d₁.modify h fun n =>
      { n with children := n.children.take l ++ [t'.id] ++ n.children.drop l }).modify t'.id
        fun n => { n with parent := some h }, ?_, hs.planted hh hF hm fun k => ?_⟩
  · rw [Document.insertBefore, detachAll, detach_of_detached hview rfl, Except.ok_bind, detachAll,
      Except.ok_bind, (node_eq_ok_iff _ _ _).2 htview, Except.ok_bind]
    simp only [(node_eq_ok_iff _ _ _).2 hm, Except.ok_bind, hindex]
    rfl
  · rw [get?_modify, get?_modify]
    by_cases hk : k = t'.id
    · rw [hk, if_pos rfl, if_pos rfl, if_neg hht, hview]
      rfl
    · rw [if_neg (Ne.symm hk), if_neg hk]
      by_cases hkh : k = h
      · rw [hkh, if_pos rfl, if_pos rfl, hm, Option.map_some, hcs, hF, List.map_append,
          List.take_left, List.drop_left, List.append_assoc, List.map_append]
        rfl
      · rw [if_neg (Ne.symm hkh), if_neg hkh]

/-! ## Taking out what stands under a host -/

theorem Hosts.drop (hd : d.Hosts H F) (hh : h ∈ H) (hF : F h = pre ++ t :: post) :
    ∃ d', d.dropSubtree t.id = .ok d' ∧ Reforested H d F d' (F.set h (pre ++ post)) := by
  obtain ⟨m, hm, hcs⟩ := hd.host h hh
  have hheld := hd.held h hh
  have hnodup := hd.nodup_of_eq hh hF
  have hmem : ∀ k, k ∈ allIds (F h) ↔ k ∈ allIds (pre ++ post) ∨ k ∈ t.ids := by
    intro k
    rw [hF]
    simp only [allIds_append, allIds_cons, List.mem_append]
    tauto
  have hout : ∀ k ∈ allIds (pre ++ post), k ∉ t.ids := by
    intro k hk
    rw [allIds_append, List.mem_append] at hk
    exact notMem_of_nodup_beside hnodup hk
  have htids : ∀ k ∈ t.ids, k ∉ H ∧ k ≠ root := fun k hk =>
    hd.notMem_of_mem hh ((hmem k).2 (Or.inr hk))
  obtain ⟨d', hd', hget⟩ := dropSubtree_ok (hd.held_of_eq hh hF)
    (List.nodup_append.1 (List.nodup_append.1 hnodup).2.1).1 (htids _ t.id_mem_ids).2
    (fun hk => (htids h hk).1 hh) hm
  have hsame : ∀ k, k ≠ h → k ∉ t.ids → d'.get? k = d.get? k := fun k hk hkt => by
    rw [hget, if_neg hkt, if_neg hk]
  have hr : Replanted d H F h (pre ++ post) d' := by
    refine ⟨hd, hh, ⟨m, hm, ?_⟩, ?_, ?_, ?_, ?_, ?_⟩
    · have hchildren : m.children.filter (· ≠ t.id) = (pre ++ post).map Subtree.id := by
        have hids : ∀ k ∈ (pre ++ post).map Subtree.id, k ≠ t.id := by
          intro k hk he
          exact hout k ((map_id_sublist _).subset hk) (he ▸ t.id_mem_ids)
        rw [List.map_append] at hids ⊢
        rw [hcs, hF, List.map_append, List.map_cons, List.filter_append,
          List.filter_cons_of_neg (by simp), List.filter_eq_self.2, List.filter_eq_self.2]
        · exact fun k hk => decide_eq_true (hids k (List.mem_append_right _ hk))
        · exact fun k hk => decide_eq_true (hids k (List.mem_append_left _ hk))
      rw [hget, if_neg fun hk => (htids h hk).1 hh, if_pos rfl, hchildren]
    · rw [hF, allHeld_append, allHeld_cons] at hheld
      refine (allHeld_append.2 ⟨hheld.1, hheld.2.2⟩).congr fun k hk => hsame k ?_ (hout k hk)
      exact fun he => (hd.notMem_of_mem hh ((hmem k).2 (Or.inl hk))).1 (he ▸ hh)
    · rw [allIds_append]
      have hnil : (allIds pre ++ ([] ++ allIds post)).Nodup :=
        nodup_beside hnodup List.nodup_nil fun _ _ => List.not_mem_nil
      exact hnil
    · exact fun k hk hkF => absurd ((hmem k).2 (Or.inl hk)) hkF
    · intro k hk hkts
      rw [hget, if_pos (((hmem k).1 hk).resolve_left hkts)]
    · exact fun k hk hkF _ => hsame k hk fun hkt => hkF ((hmem k).2 (Or.inr hkt))
  exact ⟨d', hd', hr.reforested fun k hk => (hmem k).2 (Or.inl hk)⟩

theorem Hosts.remove (hd : d.Hosts H F) (hh : h ∈ H) (hF : F h = pre ++ t :: post) :
    ∃ d', d.remove t.id = .ok d' ∧ Reforested H d F d' (F.set h (pre ++ post)) := by
  obtain ⟨d', hd', hr⟩ := hd.drop hh hF
  refine ⟨d'.record (.removeNode t.id), ?_, hr.of_get?_eq (funext (get?_record _ _))⟩
  rw [Document.remove, hd', Except.ok_bind]
  rfl

theorem Hosts.removeAll (hh : h ∈ H) (post : List Subtree) : ∀ (ts : List Subtree) {d : Document}
    {F : Forest}, d.Hosts H F → F h = ts ++ post →
    ∃ d', d.removeAll (ts.map Subtree.id) = .ok d' ∧ Reforested H d F d' (F.set h post) := by
  intro ts
  induction ts with
  | nil =>
      intro d F hd hF
      refine ⟨d, rfl, ?_⟩
      rw [← List.nil_append post, ← hF, Forest.set_eq_self]
      exact .refl hd
  | cons t ts ih =>
      intro d F hd hF
      obtain ⟨d₁, hd₁, hr₁⟩ := hd.remove hh (hF.trans (List.nil_append _).symm)
      obtain ⟨d₂, hd₂, hr₂⟩ := ih hr₁.hosts (Forest.set_self ..)
      rw [Forest.set_set] at hr₂
      refine ⟨d₂, ?_, hr₁.trans hr₂⟩
      rw [List.map_cons, Document.removeAll, hd₁, Except.ok_bind, hd₂]

theorem Hosts.children_eq (hd : d.Hosts H F) (hh : h ∈ H) :
    d.children h = .ok ((F h).map Subtree.id) := by
  obtain ⟨m, hm, hchildren⟩ := hd.host h hh
  rw [children_of_get? hm, hchildren]

theorem Hosts.removeChildren (hd : d.Hosts H F) (hh : h ∈ H) :
    ∃ d', d.removeChildren h = .ok d' ∧ Reforested H d F d' (F.set h []) := by
  obtain ⟨d', hd', hr⟩ := Hosts.removeAll hh [] (F h) hd (List.append_nil _).symm
  refine ⟨d', ?_, hr⟩
  rw [Document.removeChildren, hd.children_eq hh, Except.ok_bind, hd']

theorem Sprouted.replace (hs : Sprouted H d F d₁ F₁ t') (hh : h ∈ H)
    (hF : F₁ h = pre ++ t :: post) :
    ∃ d', d₁.replace t.id [t'.id] = .ok d' ∧
      Reforested H d F d' (F₁.set h (pre ++ t' :: post)) := by
  obtain ⟨d₂, hd₂, hr₂⟩ := hs.insertBefore hh hF
  have hF₂ : F₁.set h (pre ++ t' :: t :: post) h = (pre ++ [t']) ++ t :: post := by simp
  obtain ⟨d₃, hd₃, hr₃⟩ := hr₂.hosts.drop hh hF₂
  rw [Forest.set_set, List.append_assoc] at hr₃
  refine ⟨d₃.record (.replaceNode t.id [t'.id]), ?_,
    (hr₂.trans hr₃).of_get?_eq (funext (get?_record _ _))⟩
  rw [Document.replace, hd₂, Except.ok_bind, hd₃, Except.ok_bind]
  rfl

/-! ## Changing what a node is -/

/-- One node is something else now, and nothing else has changed. -/
def Relabeled (d d' : Document) (id : NodeId) (data : NodeData) : Prop :=
  ∀ k, d'.get? k = if k = id then (d.get? k).map ({ · with data }) else d.get? k

theorem Relabeled.trans {d₂ : Document} (h : Relabeled d d₁ id data)
    (h' : Relabeled d₁ d₂ id data') : Relabeled d d₂ id data' := by
  intro k
  rw [h', h]
  by_cases hk : k = id
  · rw [if_pos hk, if_pos hk, if_pos hk, Option.map_map]
    rfl
  · rw [if_neg hk, if_neg hk, if_neg hk]

theorem Relabeled.refl {n : LiveNode} (hn : d.get? id = some n) : Relabeled d d id n.data := by
  intro k
  by_cases hk : k = id
  · rw [if_pos hk, hk, hn]
    rfl
  · rw [if_neg hk]

theorem Relabeled.get?_of_ne (h : Relabeled d d' id data) {k : NodeId} (hk : k ≠ id) :
    d'.get? k = d.get? k := by
  rw [h, if_neg hk]

theorem Relabeled.get?_self (h : Relabeled d d' id data) {n : LiveNode} (hn : d.get? id = some n) :
    d'.get? id = some { n with data } := by
  rw [h, if_pos rfl, hn]
  rfl

theorem Hosts.relabel (hd : d.Hosts H F) (hh : h ∈ H) (hF : F h = pre ++ .node id data cs :: post)
    (hr : Relabeled d d' id data') :
    Reforested H d F d' (F.set h (pre ++ .node id data' cs :: post)) := by
  obtain ⟨m, hm, hcs⟩ := hd.host h hh
  have hheld := hd.held h hh
  have hnodup := hd.nodup_of_eq hh hF
  have hmem : ∀ k, k ∈ allIds (F h) ↔ k ∈ allIds (pre ++ .node id data' cs :: post) := by
    intro k
    rw [hF]
    simp
  have hid : id ∈ allIds (F h) := by simp [hF]
  have hne : h ≠ id := fun he => (hd.notMem_of_mem hh hid).1 (he ▸ hh)
  refine Replanted.reforested ⟨hd, hh, ⟨m, hm, ?_⟩, ?_, ?_, ?_, ?_, ?_⟩ fun k hk => (hmem k).2 hk
  · have hids : m.children = (pre ++ .node id data' cs :: post).map Subtree.id := by
      rw [hcs, hF, List.map_append, List.map_append]
      rfl
    rw [hr.get?_of_ne hne, hm, ← hids]
  · rw [hF, allHeld_append, allHeld_cons] at hheld
    obtain ⟨hpre, ht, hpost⟩ := hheld
    have hbeside : ∀ k, k ∈ allIds pre ∨ k ∈ allIds post → d'.get? k = d.get? k := fun k hk =>
      hr.get?_of_ne fun he => notMem_of_nodup_beside hnodup hk (he ▸ List.mem_cons_self ..)
    have hcs : id ∉ allIds cs := (List.nodup_cons.1 (List.nodup_append.1
      (List.nodup_append.1 hnodup).2.1).1).1
    refine allHeld_append.2 ⟨hpre.congr fun k hk => hbeside k (Or.inl hk), ?_,
      hpost.congr fun k hk => hbeside k (Or.inr hk)⟩
    exact ht.replace_top hcs (hr.get?_self ht.1) fun k hk _ => hr.get?_of_ne hk
  · rw [allIds_append, allIds_cons]
    exact hnodup
  · exact fun k hk hkF => absurd ((hmem k).2 hk) hkF
  · exact fun k hk hkts => absurd ((hmem k).1 hk) hkts
  · exact fun k hk hkF _ => hr.get?_of_ne fun he => hkF (he ▸ hid)

theorem Sprouted.relabel (hs : Sprouted H d F d₁ F₁ (.node id data cs))
    (hr : Relabeled d₁ d' id data') : Sprouted H d F d' F₁ (.node id data' cs) := by
  obtain ⟨hin, hH, hroot⟩ := hs.apart id (List.mem_cons_self ..)
  have hhosts := hs.hosts
  refine ⟨⟨?_, hhosts.root_notMem, ?_, ?_, hhosts.nodup, hhosts.unique, hhosts.host_notMem⟩, ?_,
    hs.nodup, hs.apart, ?_⟩
  · rw [hr.get?_of_ne hroot.symm]
    exact hhosts.root_live
  · intro g hg
    rw [hr.get?_of_ne fun he => hH (he ▸ hg)]
    exact hhosts.host g hg
  · intro g hg
    refine (hhosts.held g hg).congr fun k hk => hr.get?_of_ne fun he => hin ⟨g, hg, he ▸ hk⟩
  · exact hs.held.replace_top (List.nodup_cons.1 hs.nodup).1 (hr.get?_self hs.held.1)
      fun k hk _ => hr.get?_of_ne hk
  · refine Eq.trans (funext fun k => ?_) hs.rest_eq
    by_cases hk : k = id
    · have hX : k ∈ F₁.inside H ∪ {k | k ∈ (Subtree.node id data cs).ids} :=
        Or.inr (hk ▸ List.mem_cons_self ..)
      rw [rest_of_mem hX]
      exact rest_of_mem hX
    · exact rest_congr Iff.rfl (hr.get?_of_ne hk)

end Document

end LiveMarkup
