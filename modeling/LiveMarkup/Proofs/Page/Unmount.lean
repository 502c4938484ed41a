import LiveMarkup.Proofs.Page.Behind
import LiveMarkup.Proofs.Page.Build

/-!
# Unmounting empties the targets

Unmounting a live subtree that shows a description empties the targets of the
portals of the description and changes nothing else in the document
(`Page.unmount_ok`). Each target may hold more than the portal asks for: what is
behind goes as well. The refs that point at the elements of the subtree, or at
those that the portals show, are released.
-/

namespace LiveMarkup

open Document Subtree Node

/-- Under every target of portals stands what they hold for it, and maybe more
behind that. -/
def Covers (F : Forest) (ps : Portals) : Prop :=
  ∀ k ∈ ps.map (·.1), ∃ us vs, F k = us ++ vs ∧ AllMirror (contentOf ps k) us

namespace Covers

variable {F F' : Forest} {ps qs : Portals}

theorem left (h : Covers F (ps ++ qs)) : Covers F ps := by
  intro k hk
  rw [Covers, List.map_append] at h
  obtain ⟨us, vs, hF, hus⟩ := h k (List.mem_append_left _ hk)
  rw [contentOf_append] at hus
  obtain ⟨us₁, us₂, rfl, hus₁, -⟩ := hus.split
  exact ⟨us₁, us₂ ++ vs, by rw [hF, List.append_assoc], hus₁⟩

theorem right (h : Covers F (ps ++ qs)) (hn : ((ps ++ qs).map (·.1)).Nodup) : Covers F qs := by
  intro k hk
  rw [Covers, List.map_append] at h
  rw [List.map_append] at hn
  have hps : k ∉ ps.map (·.1) := fun hk' => (List.nodup_append.1 hn).2.2 k hk' k hk rfl
  obtain ⟨us, vs, hF, hus⟩ := h k (List.mem_append_right _ hk)
  rw [contentOf_append, contentOf_of_notMem hps] at hus
  exact ⟨us, vs, hF, hus⟩

theorem congr (h : Covers F ps) (hF : ∀ k ∈ ps.map (·.1), F' k = F k) : Covers F' ps := by
  intro k hk
  rw [hF k hk]
  exact h k hk

end Covers

namespace Page

/-- Unmounting a live subtree that shows a description empties the targets of the
portals and releases the refs. -/
def Unmountable (n : Node) : Prop :=
  ∀ ⦃p : Page⦄ ⦃K : Set NodeId⦄ ⦃F : Forest⦄ ⦃t : Subtree⦄ ⦃parent : Option NodeId⦄,
    p.document.Hosts K F → t.Held p.document.get? parent → Mirrors n t →
    (∀ k ∈ t.ids, k ∉ K ∧ k ∉ F.inside K) → (∀ k ∈ n.targets, k ∈ K) → n.targets.Nodup →
    Covers F n.portals →
    ∃ p', p.unmount t.id n = .ok p' ∧
      Reforested K p.document F p'.document (F.clear n.targets) ∧
      Repoints p.refs p'.refs [] (n.bindingsIn F t)

/-- Unmounting live subtrees that stand next to each other, maybe with more behind
them, empties the targets of all their portals and releases all their refs. -/
def AllUnmountable (ns : List Node) : Prop :=
  ∀ (more : List NodeId) ⦃p : Page⦄ ⦃K : Set NodeId⦄ ⦃F : Forest⦄ ⦃ts : List Subtree⦄
    ⦃parent : NodeId⦄, p.document.Hosts K F → AllHeld p.document.get? parent ts →
    AllMirror ns ts → (∀ k ∈ allIds ts, k ∉ K ∧ k ∉ F.inside K) → (∀ k ∈ allTargets ns, k ∈ K) →
    (allTargets ns).Nodup → Covers F (allPortals ns) →
    ∃ p', p.unmountAll (ts.map Subtree.id ++ more) ns = .ok p' ∧
      Reforested K p.document F p'.document (F.clear (allTargets ns)) ∧
      Repoints p.refs p'.refs [] (allBindingsIn F ns ts)

theorem unmountable_text (s : String) : Unmountable (.text s) := by
  intro p K F t parent hd _ _ _ _ _ _
  refine ⟨p, rfl, ?_, .refl p.refs⟩
  rw [targets_text, Forest.clear_nil]
  exact .refl hd

theorem unmountable_element (tag : String) (props : Props) {cs : List Node}
    (hcs : AllUnmountable cs) : Unmountable (.element tag props cs) := by
  intro p K F t parent hd ht hm hK hsub hn hc
  have hchildren : ∀ p₁ : Page, p₁.document = p.document →
      ∃ p', (p₁.document.children t.id >>= fun lives => p₁.unmountAll lives cs) = .ok p' ∧
        Reforested K p.document F p'.document (F.clear (allTargets cs)) ∧
        Repoints p₁.refs p'.refs [] (allBindingsIn F cs t.children) := by
    intro p₁ hp₁
    have hids : ∀ k ∈ allIds t.children, k ∉ K ∧ k ∉ F.inside K := by
      intro k hk
      cases t with
      | node i data us => exact hK k (List.mem_cons_of_mem _ hk)
    rw [← hp₁] at hd ht ⊢
    obtain ⟨p', hp', hr, hb⟩ := hcs [] hd ht.children hm.2 hids hsub hn hc
    rw [List.append_nil] at hp'
    refine ⟨p', ?_, hr, hb⟩
    rw [children_of_get? ht.view_id, Except.ok_bind]
    exact hp'
  rw [unmount]
  split
  · rename_i r href
    obtain ⟨p', hp', hr, hb⟩ := hchildren _ (document_release p r t.id)
    refine ⟨p', hp', hr, ?_⟩
    have hown : Props.ref? props = some r := congrArg (·.bind Value.ref?) href
    rw [bindingsIn, hown]
    exact (repoints_release p r t.id).release_release hb
  · rename_i hno
    obtain ⟨p', hp', hr, hb⟩ := hchildren p rfl
    refine ⟨p', hp', hr, ?_⟩
    have hown : Props.ref? props = none := Value.bind_ref?_eq_none hno
    rw [bindingsIn, hown]
    exact hb

/-- The children of a portal are unmounted with its target no longer among the
hosts, since the target is emptied after them. -/
theorem unmountable_portal (target : NodeId) {cs : List Node} (hcs : AllUnmountable cs) :
    Unmountable (.portal target cs) := by
  intro p K F t parent hd _ _ _ hsub hn hc
  obtain ⟨hnot, hnodup⟩ := List.nodup_cons.1 hn
  have htarget : target ∈ K := hsub target (List.mem_cons_self ..)
  have hdiff : K \ {target} ⊆ K := Set.sdiff_subset
  obtain ⟨us, vs, hF, hus⟩ := hc target (List.mem_cons_self ..)
  have hinside : contentOf (portal target cs).portals target = cs := inside_portal_self hnot
  rw [hinside] at hus
  have hheld := hd.held target htarget
  rw [hF, allHeld_append] at hheld
  have hids : ∀ k ∈ allIds us, k ∉ K \ {target} ∧ k ∉ F.inside (K \ {target}) := by
    intro k hk
    have hkF : k ∈ allIds (F target) := by
      rw [hF, allIds_append]
      exact List.mem_append_left _ hk
    refine ⟨fun hkK => (hd.notMem_of_mem htarget hkF).1 hkK.1, ?_⟩
    rintro ⟨g, hg, hkg⟩
    exact hg.2 (hd.unique g hg.1 target htarget k hkg hkF)
  have hsub' : ∀ k ∈ allTargets cs, k ∈ K \ {target} := fun k hk =>
    ⟨hsub k (List.mem_cons_of_mem _ hk), fun he => hnot (he ▸ hk)⟩
  have hc' : Covers F ([(target, cs)] ++ allPortals cs) := hc
  obtain ⟨p₁, hp₁, hr₁, hb₁⟩ := hcs (vs.map Subtree.id) (hd.mono hdiff) hheld.1 hus hids
    hsub' hnodup (hc'.right hn)
  have hr₂ := hr₁.frame hd hdiff fun k hk hk' => by
    have he : k = target := by
      by_contra hne
      exact hk' ⟨hk, hne⟩
    exact Forest.clear_of_notMem (he ▸ hnot)
  obtain ⟨d₃, hd₃, hr₃⟩ := hr₂.hosts.removeChildren htarget
  refine ⟨{ p₁ with document := d₃ }, ?_, ?_, ?_⟩
  · have hlives := hd.children_eq htarget
    rw [hF, List.map_append] at hlives
    rw [unmount, hlives, Except.ok_bind, hp₁, Except.ok_bind, edit_ok hd₃]
  · rw [targets_portal, Forest.clear_cons]
    exact hr₂.trans hr₃
  · rw [bindingsIn, hF, allBindingsIn_append F vs hus]
    exact hb₁

theorem allUnmountable_nil : AllUnmountable [] := by
  intro more p K F ts parent hd _ _ _ _ _ _
  refine ⟨p, ?_, ?_, ?_⟩
  · cases ts.map Subtree.id ++ more <;> rfl
  · rw [allTargets_nil, Forest.clear_nil]
    exact .refl hd
  · rw [allBindingsIn_nil_left]
    exact .refl p.refs

theorem AllUnmountable.cons {n : Node} {ns : List Node} (hn : Unmountable n)
    (hns : AllUnmountable ns) : AllUnmountable (n :: ns) := by
  intro more p K F ts parent hd hts hm hK hsub hnodup hc
  obtain ⟨t, us, rfl, hmt, hmus⟩ := allShow_cons.1 hm
  rw [allTargets_cons] at hsub hnodup
  obtain ⟨hn₁, hn₂, hn₃⟩ := List.nodup_append.1 hnodup
  obtain ⟨p₁, hp₁, hr₁, hb₁⟩ := hn hd hts.1 hmt (fun k hk => hK k (List.mem_append_left _ hk))
    (fun k hk => hsub k (List.mem_append_left _ hk)) hn₁ hc.left
  have hstay : ∀ k ∈ allIds us, p₁.document.get? k = p.document.get? k ∧
      k ∉ (F.clear n.targets).inside K := by
    intro k hk
    obtain ⟨m, hlive⟩ := hts.2.live k hk
    obtain ⟨hkK, hkF⟩ := hK k (List.mem_append_right _ hk)
    obtain ⟨h₁, h₂⟩ := hr₁.get?_eq hkK hkF hlive
    exact ⟨h₁.trans hlive.symm, h₂⟩
  have hclear : ∀ k ∈ allTargets ns, F.clear n.targets k = F k := fun k hk =>
    Forest.clear_of_notMem fun hk' => hn₃ k hk' k hk rfl
  have hc' : Covers (F.clear n.targets) (allPortals ns) := by
    refine (Covers.right hc ?_).congr hclear
    rw [List.map_append]
    exact hnodup
  obtain ⟨p₂, hp₂, hr₂, hb₂⟩ := hns more hr₁.hosts
    (hts.2.congr fun k hk => (hstay k hk).1) hmus
    (fun k hk => ⟨(hK k (List.mem_append_right _ hk)).1, (hstay k hk).2⟩)
    (fun k hk => hsub k (List.mem_append_right _ hk)) hn₂ hc'
  rw [allBindingsIn_congr us hclear] at hb₂
  refine ⟨p₂, ?_, ?_, hb₁.release_release hb₂⟩
  · rw [List.map_cons, List.cons_append, unmountAll, hp₁, Except.ok_bind, hp₂]
  · rw [allTargets_cons, Forest.clear_append]
    exact hr₁.trans hr₂

mutual

/-- Every live subtree that shows a description can be unmounted. -/
theorem unmount_ok : ∀ n : Node, Unmountable n
  | .text s => unmountable_text s
  | .element tag props cs => unmountable_element tag props (unmountAll_ok cs)
  | .portal target cs => unmountable_portal target (unmountAll_ok cs)

theorem unmountAll_ok : ∀ ns : List Node, AllUnmountable ns
  | [] => allUnmountable_nil
  | n :: ns => .cons (unmount_ok n) (unmountAll_ok ns)

end

end Page

end LiveMarkup
