import LiveMarkup.Proofs.Node.Portals
import LiveMarkup.Proofs.Page.Refs

/-!
# Mounting makes what is described

Mounting a description cannot fail as long as the targets of its portals are
hosts. It makes a subtree that is built for the description, stands nowhere yet,
and puts behind what stands under each target what the portals hold for it
(`Page.build_ok`). No two portals of the description may have one target, for
then the order in which the target is filled would be another. A description
without portals has its refs bound to the elements of the subtree.
-/

namespace LiveMarkup

open Document Subtree Node

/-- Under every host stands, behind what stood there, what portals hold for
it. -/
def Filled (H : Set NodeId) (F F' : Forest) (ps : Portals) : Prop :=
  ∀ h ∈ H, ∃ us, F' h = F h ++ us ∧ AreBuiltFor (contentOf ps h) us

namespace Filled

variable {H : Set NodeId} {F F₁ F₂ : Forest} {ps qs : Portals}

theorem refl (H : Set NodeId) (F : Forest) : Filled H F F [] :=
  fun _ _ => ⟨[], (List.append_nil _).symm, trivial⟩

theorem trans (h₁ : Filled H F F₁ ps) (h₂ : Filled H F₁ F₂ qs) : Filled H F F₂ (ps ++ qs) := by
  intro h hh
  obtain ⟨us, hF₁, hus⟩ := h₁ h hh
  obtain ⟨vs, hF₂, hvs⟩ := h₂ h hh
  refine ⟨us ++ vs, ?_, ?_⟩
  · rw [hF₂, hF₁, List.append_assoc]
  · rw [contentOf_append]
    exact hus.append hvs

theorem congr (hf : Filled H F F₁ ps) (hps : ∀ h ∈ H, contentOf qs h = contentOf ps h) :
    Filled H F F₁ qs := by
  intro h hh
  rw [hps h hh]
  exact hf h hh

theorem single {h : NodeId} {n : Node} {t : Subtree} (ht : IsBuiltFor n t) :
    Filled H F (F.set h (F h ++ [t])) [(h, [n])] := by
  intro g _
  by_cases hg : g = h
  · subst hg
    refine ⟨[t], Forest.set_self .., ?_⟩
    rw [contentOf_cons_self]
    exact ⟨ht, trivial⟩
  · refine ⟨[], ?_, ?_⟩
    · rw [Forest.set_of_ne hg, List.append_nil]
    · rw [contentOf_cons_of_ne (Ne.symm hg)]
      exact trivial

theorem of_notMem (hf : Filled H F F₁ ps) {h : NodeId} (hh : h ∈ H) (hps : h ∉ ps.map (·.1)) :
    F₁ h = F h := by
  obtain ⟨us, hF, hus⟩ := hf h hh
  rw [contentOf_of_notMem hps] at hus
  rw [hF, allShow_nil_left.1 hus, List.append_nil]

end Filled

/-- What one description and more after it put under a host, and their portals
under their targets. -/
theorem contentOf_beside {h : NodeId} {n : Node} (ns : List Node) (hn : h ∉ n.targets) (g : NodeId) :
    contentOf ((h, n :: ns) :: allPortals (n :: ns)) g =
      contentOf (n.portals ++ [(h, [n])] ++ (h, ns) :: allPortals ns) g := by
  rw [contentOf_append, contentOf_append]
  by_cases hg : h = g
  · subst hg
    have hnil : contentOf n.portals h = [] := contentOf_of_notMem hn
    rw [contentOf_cons_self, contentOf_cons_self, contentOf_cons_self, allPortals, contentOf_append,
      hnil]
    rfl
  · rw [contentOf_cons_of_ne hg, contentOf_cons_of_ne hg, contentOf_cons_of_ne hg, allPortals,
      contentOf_append, contentOf_nil, List.append_nil]

theorem Document.Sprouted.element? {d d' : Document} {H : Set NodeId} {F F' : Forest} {id : NodeId}
    {e : Element} {cs : List Subtree} (hs : Sprouted H d F d' F' (.node id (.element e) cs)) :
    d'.element? id = some e := by
  rw [Document.element?, hs.held.1]
  rfl

namespace Page

mutual

/-- Mounting makes a subtree that is built for the description and binds its
refs. -/
theorem build_ok : ∀ (n : Node) {p : Page} {H : Set NodeId} {F : Forest},
    p.document.Hosts H F → (∀ k ∈ n.targets, k ∈ H) → n.targets.Nodup →
    ∃ p' t F', p.build n = .ok (t.id, p') ∧ Sprouted H p.document F p'.document F' t ∧
      IsBuiltFor n t ∧ Filled H F F' n.portals ∧
      (n.Bare → Repoints p.refs p'.refs (n.bindings t) [])
  | .text s, p, H, F, hd, _, _ =>
      ⟨_, .node _ (.text s) [], F, rfl, hd.create (.text s) _, ⟨rfl, rfl⟩, .refl H F,
        fun _ => .refl p.refs⟩
  | .portal target cs, p, H, F, hd, hH, hn => by
      obtain ⟨htarget, hcs⟩ := List.nodup_cons.1 hn
      obtain ⟨p₁, F₁, hp₁, hr₁, hf₁, -⟩ := buildAll_ok cs hd (hH target (List.mem_cons_self ..))
        htarget (fun k hk => hH k (List.mem_cons_of_mem _ hk)) hcs
      refine ⟨(p₁.make (·.createComment)).2, .node _ .comment [], F₁, ?_,
        hr₁.sprout (hr₁.hosts.create .comment _), ⟨rfl, rfl⟩, hf₁, fun hbare => hbare.elim⟩
      rw [build, hp₁]
      rfl
  | .element tag props cs, p, H, F, hd, hH, hn => by
      let e : Element := { name := .ofTag tag }
      have hs := hd.create (.element e)
        (.createElement (p.document.create (.element e)).1 e.name.localName)
      let id := (p.document.create (.element e)).1
      let p₁ := (p.make (·.createElement (.ofTag tag))).2
      have hid : id ∉ H := (hs.apart id (List.mem_cons_self ..)).2.1
      have hmem : id ∈ insert id H := Set.mem_insert id H
      obtain ⟨p₂, F₂, hp₂, hr₂, hf₂, hb₂⟩ := buildAll_ok (p := p₁) cs hs.below hmem
        (fun hk => hid (hH id hk)) (fun k hk => Set.mem_insert_of_mem id (hH k hk)) hn
      have hs₂ := hs.grow hr₂
      obtain ⟨p₃, hp₃, hr₃⟩ := setProperties_rebound hs₂.element? props.entries
      refine ⟨p₃, _, F₂, ?_, hs₂.relabel hr₃, ⟨⟨_, rfl, rfl⟩, ?_⟩, fun g hg => ?_,
        fun hbare => ?_⟩
      · have hbuild : p.build (.element tag props cs) =
            (p₁.buildAll id cs >>= fun p => p.setProperties id props.entries >>= fun p =>
              .ok (id, p)) := rfl
        rw [hbuild, hp₂, Except.ok_bind, hp₃]
        rfl
      · obtain ⟨us, hF₂, hus⟩ := hf₂ id hmem
        have hnil : contentOf (allPortals cs) id = [] :=
          contentOf_of_notMem fun hk => hid (hH id hk)
        rw [contentOf_cons_self, hnil, List.append_nil] at hus
        rw [Forest.set_self, List.nil_append] at hF₂
        exact hF₂ ▸ hus
      · have hne : g ≠ id := fun he => hid (he ▸ hg)
        obtain ⟨us, hF₂, hus⟩ := hf₂ g (Set.mem_insert_of_mem id hg)
        rw [Forest.set_of_ne hne] at hF₂
        rw [contentOf_cons_of_ne (Ne.symm hne)] at hus
        exact ⟨us, hF₂, hus⟩
      · -- the children are bound before the element itself
        have hchildren := hb₂ hbare.2 (F₂ id) (by rw [Forest.set_self, List.nil_append])
        exact (hchildren.bind_bind (repoints_setProperties _ hbare.1 hp₃)).perm
          List.perm_append_comm

/-- Mounting descriptions into a host puts them behind what stands there. -/
theorem buildAll_ok : ∀ (ns : List Node) {p : Page} {H : Set NodeId} {F : Forest} {h : NodeId},
    p.document.Hosts H F → h ∈ H → h ∉ allTargets ns → (∀ k ∈ allTargets ns, k ∈ H) →
    (allTargets ns).Nodup →
    ∃ p' F', p.buildAll h ns = .ok p' ∧ Reforested H p.document F p'.document F' ∧
      Filled H F F' ((h, ns) :: allPortals ns) ∧
      (AllBare ns → ∀ us, F' h = F h ++ us → Repoints p.refs p'.refs (allBindings ns us) [])
  | [], p, H, F, h, hd, _, _, _, _ => by
      refine ⟨p, F, rfl, .refl hd, (Filled.refl H F).congr fun g _ => ?_, fun _ us _ => ?_⟩
      · by_cases hg : h = g
        · rw [hg, contentOf_cons_self]
          rfl
        · rw [contentOf_cons_of_ne hg]
          rfl
      · rw [allBindings_nil_left]
        exact .refl p.refs
  | n :: ns, p, H, F, h, hd, hh, hns, hH, hn => by
      rw [allTargets_cons] at hns hH hn
      rw [List.mem_append, not_or] at hns
      obtain ⟨hn₁, hn₂, -⟩ := List.nodup_append.1 hn
      obtain ⟨p₁, t, F₁, hp₁, hs₁, ht, hf₁, hb₁⟩ :=
        build_ok n hd (fun k hk => hH k (List.mem_append_left _ hk)) hn₁
      obtain ⟨d₂, hd₂, hr₂⟩ := hs₁.append hh
      obtain ⟨p₃, F₃, hp₃, hr₃, hf₃, hb₃⟩ := buildAll_ok (p := { p₁ with document := d₂ }) ns
        hr₂.hosts hh hns.2 (fun k hk => hH k (List.mem_append_right _ hk)) hn₂
      refine ⟨p₃, F₃, ?_, hr₂.trans hr₃, ?_, fun hbare us hus => ?_⟩
      · rw [buildAll, hp₁, Except.ok_bind]
        dsimp only
        rw [edit_ok hd₂, Except.ok_bind, hp₃]
      · exact ((hf₁.trans (.single ht)).trans hf₃).congr fun g _ => contentOf_beside ns hns.1 g
      · obtain ⟨vs, hF₃, -⟩ := hf₃ h hh
        have hrest := hb₃ hbare.2 vs hF₃
        rw [Forest.set_self, hf₁.of_notMem hh hns.1, hus, List.append_assoc] at hF₃
        obtain rfl : us = t :: vs := List.append_cancel_left hF₃
        exact (hb₁ hbare.1).bind_bind hrest

end

end Page

end LiveMarkup
