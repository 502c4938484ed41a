import LiveMarkup.Proofs.Document.Calls
import LiveMarkup.Proofs.Page.Attached
import LiveMarkup.Proofs.Page.Confined

/-!
# Children that were there before

A parent may have children already when something is rendered into it for the first
time. The first rendering puts its live node behind them, but each later one is given
the first child of the parent, which is one of them then. So the children from before
are spared as long as there are none of them, or just one rendering shows something
and nothing is rendered after it, and only as long as that
(`Renderer.renderAll_spares_iff`).

What a later rendering does to a child that it did not make follows from the fact that
an update stays in its place, whatever live node it is given.
-/

namespace LiveMarkup

open Document Subtree Node

theorem Document.Hosts.childrenOf_eq {d : Document} {parent : NodeId} {F : Forest}
    (hd : d.Hosts (insert parent ∅) F) : d.childrenOf parent = (F parent).map Subtree.id := by
  obtain ⟨m, hm, hchildren⟩ := hd.host parent (Set.mem_insert parent ∅)
  rw [childrenOf_of_get? hm, hchildren]

namespace Renderer

/-- A rendering leaves the children that a parent had before the first one where they
are, and them and all below them as they are. For what it shows it gives a child that
was not there before and that is made like it. -/
structure Spares (p : Page) (parent : NodeId) (n : Option Node) (o : Outcome) : Prop where
  children : (p.document.childrenOf parent).Sublist (o.page.document.childrenOf parent)
  below : ∀ c ∈ p.document.childrenOf parent, ∀ k, p.document.Above c k →
    o.page.document.get? k = p.document.get? k
  live : ∀ d ∈ n, ∃ k, o.live = some k ∧ k ∈ o.page.document.childrenOf parent ∧
    k ∉ p.document.childrenOf parent ∧ o.page.document.ShowsAt d k

variable {parent : NodeId} {r r' : Renderer} {p p' : Page} {n : Option Node} {a : Node}
  {F F' : Forest} {t x : Subtree} {ts us : List Subtree} {live : Option NodeId}

/-- The live subtree that mirrors what is shown, if something is. -/
theorem exists_live_of_mirror {d : Document} (hn : ∀ a ∈ n, a.portals = [])
    (hts : AllMirror n.toList ts) (hheld : AllHeld d.get? parent ts) :
    ∀ a ∈ n, ∃ t, ts = [t] ∧ d.ShowsAt a t.id := by
  rintro a rfl
  obtain ⟨t, us, rfl, ht, hus⟩ := allShow_cons.1 hts
  obtain rfl : us = [] := allShow_nil_left.1 hus
  exact ⟨t, rfl, (showsAt_iff_mirrors hheld.1 (hn a rfl)).2 ht⟩

/-- Under a parent that had no children there is nothing to spare. -/
theorem InStep.spares {o : Outcome} (h : InStep r p parent n o) (hn : ∀ a ∈ n, a.portals = [])
    (hlive : p.document.Live parent) (hnil : p.document.childrenOf parent = []) :
    Spares p parent n o := by
  obtain ⟨ts, hts, hhead, hgrown⟩ := h.grown
  obtain ⟨m, hm⟩ := live_iff.1 hlive
  have hparent := hgrown.parent_eq
  rw [hm] at hparent
  refine ⟨?_, fun c hc => ?_, fun a ha => ?_⟩
  · rw [hnil]
    exact List.nil_sublist _
  · rw [hnil] at hc
    cases hc
  · obtain ⟨t, rfl, hshows⟩ := exists_live_of_mirror hn hts hgrown.held a ha
    refine ⟨t.id, hhead, ?_, ?_, hshows⟩
    · rw [childrenOf_of_get? hparent]
      exact List.mem_cons_self ..
    · rw [hnil]
      exact List.not_mem_nil

/-! ## The first rendering -/

/-- Rendering nothing where nothing was rendered does nothing. -/
theorem render_none (hr : r.rendered? parent = none) :
    r.render p none (some parent) = .ok (none, r.forget parent, p) := by
  rw [render, showIn, hr]
  rfl

theorem spares_none (r : Renderer) (p : Page) (parent : NodeId) :
    Spares p parent none ⟨none, r, p⟩ :=
  ⟨List.Sublist.refl _, fun _ _ _ _ => rfl, fun _ ha => nomatch ha⟩

/-- The first rendering that shows something puts its live node behind all
children. -/
theorem render_first (hd : p.document.Hosts (insert parent ∅) F) (hr : r.rendered? parent = none)
    (ha : a.portals = []) :
    ∃ p' t F', r.render p (some a) (some parent) = .ok (some t.id, r.remember parent (some a), p') ∧
      p'.document.Hosts (insert parent ∅) F' ∧ F' parent = F parent ++ [t] ∧ Mirrors a t := by
  obtain ⟨p', t, F', hp', hre, hF', ht⟩ := Page.mount_plain hd ha
  refine ⟨p', t, F', ?_, hre.hosts, hF', ht.mirrors⟩
  rw [render, showIn, hr]
  dsimp only
  rw [hp']
  rfl

theorem spares_first (hwf : p.document.WellFormed) (hd : p.document.Hosts (insert parent ∅) F)
    (hd' : p'.document.Hosts (insert parent ∅) F') (hF' : F' parent = F parent ++ [t])
    (ht : Mirrors a t) (ha : a.portals = []) (r' : Renderer) :
    Spares p parent (some a) ⟨some t.id, r', p'⟩ := by
  have hmem : parent ∈ insert parent (∅ : Set NodeId) := Set.mem_insert parent ∅
  have hheld := hd'.held parent hmem
  rw [hF', allHeld_append] at hheld
  have hids := hd'.nodup parent hmem
  rw [hF', allIds_append] at hids
  refine ⟨?_, fun c hc k hk => ?_, ?_⟩
  · rw [hd.childrenOf_eq, hd'.childrenOf_eq, hF', List.map_append]
    exact List.sublist_append_left _ _
  · rw [hd.childrenOf_eq] at hc
    have hkF := mem_allIds_of_above hwf.toLinked (hd.held parent hmem)
      ((map_id_sublist _).mem hc) hk
    exact (hd.held parent hmem).view_eq hheld.1 k hkF
  · rintro _ ⟨⟩
    refine ⟨t.id, rfl, ?_, fun hmem' => ?_, (showsAt_iff_mirrors hheld.2.1 ha).2 ht⟩
    · rw [hd'.childrenOf_eq, hF', List.map_append]
      exact List.mem_append_right _ (List.mem_cons_self ..)
    · rw [hd.childrenOf_eq] at hmem'
      refine (List.nodup_append.1 hids).2.2 t.id ((map_id_sublist _).mem hmem') t.id ?_ rfl
      exact List.mem_append_left _ t.id_mem_ids

/-! ## The renderings after it -/

/-- A rendering after one that showed something updates the first child of the parent,
and gives the first child that there is then. -/
theorem update_of_render (hd : p.document.Hosts (insert parent ∅) F) (hF : F parent = x :: us)
    (hr : r.rendered? parent = some a)
    (h : r.render p n (some parent) = .ok (live, r', p')) :
    p.update parent (some x.id) n (some a) = .ok p' ∧
      ∀ b ∈ n, ∃ lives, p'.document.children parent = .ok lives ∧ live = lives.head? := by
  have hmem : parent ∈ insert parent (∅ : Set NodeId) := Set.mem_insert parent ∅
  rw [render, showIn.eq_def, hr] at h
  dsimp only at h
  rw [hd.children_eq hmem, Except.ok_bind, hF, List.map_cons, List.head?_cons] at h
  cases hu : p.update parent (some x.id) n (some a) with
  | error e =>
      rw [hu] at h
      cases h
  | ok p₁ =>
      rw [hu, Except.ok_bind] at h
      cases n with
      | none =>
          cases h
          exact ⟨rfl, fun _ hb => (Option.not_mem_none _ hb).elim⟩
      | some b =>
          dsimp only at h
          cases hc : p₁.document.children parent with
          | error e =>
              rw [hc] at h
              cases h
          | ok lives =>
              rw [hc] at h
              cases h
              exact ⟨rfl, fun _ _ => ⟨lives, hc, rfl⟩⟩

/-- A rendering after one that showed something does not spare the first child of the
parent: either it is that child that the rendering gives, or it is gone. -/
theorem not_spares_later {q q' : Page} (hx : x.id ∈ p.document.childrenOf parent)
    (hd : q.document.Hosts (insert parent ∅) F) (hF : F parent = x :: us)
    (hr : r.rendered? parent = some a) (ha : a.portals = []) (hn : ∀ b ∈ n, b.portals = [])
    (h : r.render q n (some parent) = .ok (live, r', q')) :
    ¬Spares p parent n ⟨live, r', q'⟩ := by
  have hmem : parent ∈ insert parent (∅ : Set NodeId) := Set.mem_insert parent ∅
  have hnodup := hd.nodup parent hmem
  have hgone : ∀ {F'}, q'.document.Hosts (insert parent ∅) F' →
      x.id ∉ (F' parent).map Subtree.id → ¬Spares p parent n ⟨live, r', q'⟩ := by
    intro F' hd' hx' hs
    refine hx' ?_
    rw [← hd'.childrenOf_eq]
    exact hs.children.mem hx
  have hus : x.id ∉ us.map Subtree.id := by
    rw [hF, allIds_cons] at hnodup
    exact fun hmem' => (List.nodup_append.1 hnodup).2.2 x.id x.id_mem_ids x.id
      ((map_id_sublist us).mem hmem') rfl
  have hF₀ : F parent = [] ++ x :: us := hF
  obtain ⟨hupdate, hlive⟩ := update_of_render hd hF hr h
  cases n with
  | none =>
      obtain ⟨F', hre, hF'⟩ := Page.discard_confined hd hF₀ ha hupdate
      refine hgone hre.hosts ?_
      rw [hF']
      exact hus
  | some b =>
      obtain ⟨t', F', hre, hF', -⟩ := Page.patch_confined b a hd hF₀ (hn b rfl) ha hupdate
      by_cases hid : t'.id = x.id
      · intro hs
        obtain ⟨k, hk, -, hnew, -⟩ := hs.live b rfl
        obtain ⟨lives, hlives, hfirst⟩ := hlive b rfl
        obtain rfl := Except.ok.inj (hlives.symm.trans (hre.hosts.children_eq hmem))
        rw [hF', List.nil_append, List.map_cons, List.head?_cons, hid] at hfirst
        exact hnew (Option.some.inj (hk.symm.trans hfirst) ▸ hx)
      · refine hgone hre.hosts ?_
        rw [hF', List.nil_append, List.map_cons, List.mem_cons, not_or]
        exact ⟨Ne.symm hid, hus⟩

/-! ## One rendering after the other -/

/-- Under a parent that had children these are spared while just one rendering shows
something and nothing is rendered after it. -/
theorem spares_iff_of_children (hwf : p.document.WellFormed)
    (hd : p.document.Hosts (insert parent ∅) F) (hF : F parent = x :: us)
    (ns : List (Option Node)) : ∀ {r : Renderer}, r.rendered? parent = none →
    (∀ n, some n ∈ ns → n.portals = []) →
    ((∃ os, r.renderAll p parent ns = .ok os ∧ List.Forall₂ (Spares p parent) ns os) ↔
      (ns.dropWhile Option.isNone).length ≤ 1) := by
  have hx : x.id ∈ p.document.childrenOf parent := by
    rw [hd.childrenOf_eq, hF]
    exact List.mem_cons_self ..
  induction ns with
  | nil => exact fun _ _ => iff_of_true ⟨[], rfl, .nil⟩ (Nat.zero_le 1)
  | cons n ns ih =>
      intro r hr hns
      cases n with
      | none =>
          have hrender := render_none (p := p) hr
          have hrest := ih (r := r.forget parent) (Single.of_rendered? hr)
            fun m hm => hns m (List.mem_cons_of_mem _ hm)
          rw [List.dropWhile_cons_of_pos rfl, ← hrest]
          constructor
          · rintro ⟨os, hos, hspares⟩
            obtain ⟨os', rfl, hos'⟩ := eq_cons_of_renderAll hrender hos
            exact ⟨os', hos', (List.forall₂_cons.1 hspares).2⟩
          · rintro ⟨os, hos, hspares⟩
            exact ⟨_, renderAll_cons hrender hos, .cons (spares_none _ p parent) hspares⟩
      | some a =>
          have ha := hns a (List.mem_cons_self ..)
          obtain ⟨p₁, t, F₁, hrender, hd₁, hF₁, ht⟩ := render_first hd hr ha
          rw [List.dropWhile_cons_of_neg Bool.noConfusion, List.length_cons]
          cases ns with
          | nil =>
              have hfirst := spares_first hwf hd hd₁ hF₁ ht ha (r.remember parent (some a))
              exact iff_of_true ⟨_, renderAll_cons hrender rfl, .cons hfirst .nil⟩ (Nat.le_refl 1)
          | cons m ns =>
              refine iff_of_false ?_ (by simp)
              rintro ⟨os, hos, hspares⟩
              obtain ⟨os', rfl, hos'⟩ := eq_cons_of_renderAll hrender hos
              obtain ⟨⟨live, r', p'⟩, hlater, -⟩ := Except.exists_of_bind_eq_ok hos'
              obtain ⟨os'', rfl, -⟩ := eq_cons_of_renderAll hlater hos'
              have hF₁' : F₁ parent = x :: (us ++ [t]) := by
                rw [hF₁, hF]
                rfl
              have hremembered := (Single.of_rendered? hr).rendered? (some a)
              refine not_spares_later hx hd₁ hF₁' hremembered ha (fun b hb => hns b ?_) hlater
                (List.forall₂_cons.1 (List.forall₂_cons.1 hspares).2).1
              rw [Option.mem_def.1 hb]
              exact List.mem_cons_of_mem _ (List.mem_cons_self ..)

/-- Rendering descriptions without portals into a live parent, which nothing was
rendered into before, succeeds and spares the children that the parent had just in
two cases: there were none of them, or just one rendering shows something and nothing
is rendered after it. -/
theorem renderAll_spares_iff (hwf : p.document.WellFormed) (hparent : p.document.Live parent)
    (hr : r.rendered? parent = none) (ns : List (Option Node))
    (hns : ∀ n, some n ∈ ns → n.portals = []) :
    (∃ os, r.renderAll p parent ns = .ok os ∧ List.Forall₂ (Spares p parent) ns os) ↔
      p.document.childrenOf parent = [] ∨ (ns.dropWhile Option.isNone).length ≤ 1 := by
  obtain ⟨F, hd⟩ := hwf.hosts hparent
  cases hF : F parent with
  | nil =>
      have hnil : p.document.childrenOf parent = [] := by rw [hd.childrenOf_eq, hF, List.map_nil]
      refine iff_of_true ?_ (.inl hnil)
      obtain ⟨m, hm⟩ := live_iff.1 hparent
      have hs := Shown.of_childless_parent hd.root_live hm (childrenOf_of_get? hm ▸ hnil) hr
      obtain ⟨os, hos, hsteps⟩ := hs.inStep ns hns hs.hosts (.refl hs.hosts) fun _ _ => rfl
      have hfree : ∀ n ∈ ns, ∀ a ∈ n, a.portals = [] := fun n hn a ha => by
        rw [Option.mem_def.1 ha] at hn
        exact hns a hn
      refine ⟨os, hos, ((List.forall₂_and_left ns os).2 ⟨hfree, hsteps⟩).imp fun n o h => ?_⟩
      exact h.2.spares h.1 hparent hnil
  | cons x us =>
      have hne : p.document.childrenOf parent ≠ [] := by simp [hd.childrenOf_eq, hF]
      rw [or_iff_right hne]
      exact spares_iff_of_children hwf hd hF ns hr hns

/-- Calls that make an element with a text inside. -/
def occupying : List TreeCall :=
  [.createElement (.ofTag "main"), .createText "x", .append 1 [2], .append root [1]]

theorem admitsAll_occupying : (Document.new true).AdmitsAll occupying :=
  (passes_iff occupying (Document.new true)).1 rfl

/-- Rendering nothing and then something spares the text that was there. -/
theorem renderAll_spares_iff_occupied :
    ∃ d, (Document.new true).performAll occupying = .ok d ∧ d.WellFormed ∧ d.Live 1 ∧
      Renderer.rendered? {} 1 = none ∧ d.childrenOf 1 = [2] ∧
      ∃ os, Renderer.renderAll {} ⟨d, .empty⟩ 1 [none, some (.text "a")] = .ok os ∧
        List.Forall₂ (Spares ⟨d, .empty⟩ 1) [none, some (.text "a")] os := by
  obtain ⟨d, hd, hwf⟩ := WellFormed.performAll occupying (wellFormed_new true)
    admitsAll_occupying 4
  have hlive : d.Live 1 ∧ d.childrenOf 1 = [2] := by
    cases hd
    exact ⟨rfl, rfl⟩
  refine ⟨d, hd, hwf, hlive.1, rfl, hlive.2, ?_⟩
  refine (renderAll_spares_iff (p := ⟨d, .empty⟩) hwf hlive.1 rfl _ fun n hn => ?_).2
    (.inr (Nat.le_refl 1))
  simp only [List.mem_cons, Option.some.injEq, List.not_mem_nil, or_false, reduceCtorEq,
    false_or] at hn
  rw [hn]
  rfl

/-- Rendering something and then nothing removes the text that was there, and leaves
what was rendered. -/
theorem not_spares_occupied :
    ∃ d o₁ o₂, (Document.new true).performAll occupying = .ok d ∧ d.WellFormed ∧ d.Live 1 ∧
      d.childrenOf 1 = [2] ∧
      Renderer.renderAll {} ⟨d, .empty⟩ 1 [some (.text "a"), none] = .ok [o₁, o₂] ∧
      o₁.live = some 3 ∧ o₂.page.document.childrenOf 1 = [3] ∧ ¬Spares ⟨d, .empty⟩ 1 none o₂ := by
  obtain ⟨d, hd, hwf⟩ := WellFormed.performAll occupying (wellFormed_new true)
    admitsAll_occupying 4
  have hruns : d.Live 1 ∧ d.childrenOf 1 = [2] ∧ ∃ o₁ o₂,
      Renderer.renderAll {} ⟨d, .empty⟩ 1 [some (.text "a"), none] = .ok [o₁, o₂] ∧
      o₁.live = some 3 ∧ o₂.page.document.childrenOf 1 = [3] := by
    cases hd
    exact ⟨rfl, rfl, _, _, rfl, rfl, by decide +kernel⟩
  obtain ⟨hlive, hbefore, o₁, o₂, hos, hshown, hafter⟩ := hruns
  refine ⟨d, o₁, o₂, hd, hwf, hlive, hbefore, hos, hshown, hafter, fun hs => ?_⟩
  have hchildren := hs.children
  rw [hafter, hbefore] at hchildren
  exact absurd hchildren (by decide)

end Renderer

end LiveMarkup
