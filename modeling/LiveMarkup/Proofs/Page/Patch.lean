import LiveMarkup.Proofs.Page.Unmount

/-!
# Bringing live subtrees in line

A live subtree that shows an old description is brought in line with a new one
node by node: it is built anew where it cannot be kept, and where it is kept its
element has its properties updated (`Patched`). The targets of portals change
meanwhile as `Node.changes` says (`Page.patch_ok`).

What stands inside the targets at the start need not be what the old description
asks for, since earlier places of the descriptions may have filled a target that
a later place is about to empty (`Ready`).

Where the new description has no portals, the refs go over from the old description
to the new one. At each place they may have been bound by an earlier place already,
or be about to be bound by a later one. What the old portals show stays where it is
until their place comes, since each place touches no targets but its own
(`Touches`).
-/

namespace LiveMarkup

open Document Subtree Node

mutual

/-- A live subtree has been brought in line with a new description. -/
inductive Patched : Node → Node → Subtree → Subtree → Prop where
  | replaced {new old : Node} {t t' : Subtree} (h : new.mustReplace old = true)
      (hne : t'.id ≠ t.id) (ht : IsBuiltFor new t') : Patched new old t t'
  | text {s : String} {t : Subtree} : Patched (.text s) (.text s) t t
  | element {tag : String} {props props' : Props} {cs ds : List Node} {id : NodeId} {e : Element}
      {us us' : List Subtree}
      (h : (Node.element tag props cs).mustReplace (.element tag props' ds) = false)
      (hcs : AllPatched cs ds us us') :
      Patched (.element tag props cs) (.element tag props' ds) (.node id (.element e) us)
        (.node id (.element (e.updateProps props props')) us')
  | portal {target : NodeId} {cs ds : List Node} {t : Subtree} :
      Patched (.portal target cs) (.portal target ds) t t

/-- Live subtrees have been brought in line with new descriptions, place by
place. -/
inductive AllPatched : List Node → List Node → List Subtree → List Subtree → Prop where
  | nil {os : List Node} {ts : List Subtree} : AllPatched [] os ts []
  | cons {n o : Node} {ns os : List Node} {t t' : Subtree} {ts ts' : List Subtree}
      (h : Patched n o t t') (hs : AllPatched ns os ts ts') :
      AllPatched (n :: ns) (o :: os) (t :: ts) (t' :: ts')
  | more {n : Node} {ns : List Node} {t' : Subtree} {ts' : List Subtree} (h : IsBuiltFor n t')
      (hs : AllPatched ns [] [] ts') : AllPatched (n :: ns) [] [] (t' :: ts')

end

mutual

/-- A subtree that has been brought in line is made like the new description. -/
theorem Patched.mirrors : ∀ {new old : Node} {t t' : Subtree}, Mirrors old t →
    Patched new old t t' → Mirrors new t'
  | _, _, _, _, _, .replaced _ _ ht => ht.mirrors
  | _, _, _, _, hm, .text => hm
  | _, _, _, _, hm, .element _ hcs => by
      obtain ⟨⟨e, he, hname⟩, hds⟩ := hm
      obtain rfl : _ = e := NodeData.element.inj he
      exact ⟨⟨_, rfl, (Element.name_updateProps _ _ _).trans hname⟩, hcs.mirror hds⟩
  | _, _, _, _, hm, .portal => hm

theorem AllPatched.mirror : ∀ {new old : List Node} {ts ts' : List Subtree},
    AllPatched new old ts ts' → AllMirror old ts → AllMirror new ts'
  | _, _, _, _, .nil, _ => trivial
  | _, _, _, _, .cons h hs, hm => ⟨h.mirrors hm.1, hs.mirror hm.2⟩
  | _, _, _, _, .more h hs, hm => ⟨h.mirrors, hs.mirror hm⟩

end

/-- Under the targets stands what is written down for them. -/
def Follows (S : Set NodeId) (F : Forest) (content : NodeId → List Node) : Prop :=
  ∀ k ∈ S, AllMirror (content k) (F k)

/-- Of the forests under targets only those under some of them are others now. -/
def Touches (S : Set NodeId) (F F' : Forest) (ks : List NodeId) : Prop :=
  ∀ k ∈ S, k ∉ ks → F' k = F k

namespace Touches

variable {S : Set NodeId} {F F₁ F₂ : Forest} {h : NodeId} {ks ls : List NodeId}

theorem refl (S : Set NodeId) (F : Forest) (ks : List NodeId) : Touches S F F ks :=
  fun _ _ _ => rfl

theorem mono (ht : Touches S F F₁ ks) (hsub : ks ⊆ ls) : Touches S F F₁ ls :=
  fun k hk hkl => ht k hk fun hks => hkl (hsub hks)

theorem trans (h₁ : Touches S F F₁ ks) (h₂ : Touches S F₁ F₂ ls) : Touches S F F₂ (ks ++ ls) := by
  intro k hk hkl
  rw [List.mem_append, not_or] at hkl
  rw [h₂ k hk hkl.2, h₁ k hk hkl.1]

theorem set (ht : Touches S F F₁ ks) (hh : h ∉ S) (ts : List Subtree) :
    Touches S F (F₁.set h ts) ks := by
  intro k hk hks
  rw [Forest.set_of_ne (ne_of_mem_of_not_mem hk hh)]
  exact ht k hk hks

theorem clear (S : Set NodeId) (F : Forest) (ks : List NodeId) : Touches S F (F.clear ks) ks :=
  fun _ _ hks => Forest.clear_of_notMem hks

theorem fill {H : Set NodeId} {ps : Portals} (hf : Filled H F F₁ ps) (hS : S ⊆ H) :
    Touches S F F₁ (ps.map (·.1)) :=
  fun _ hk hks => hf.of_notMem (hS hk) hks

end Touches

/-- The targets are ready for a change of portals: they are there, no two portals
have one target, and what stands inside a target begins with what the old portal
asks for, and is just that where the portal stays. -/
structure Ready (S : Set NodeId) (content : NodeId → List Node) (new old : Portals)
    (cs : List TargetChange) : Prop where
  new_mem : ∀ k ∈ new.map (·.1), k ∈ S
  new_nodup : (new.map (·.1)).Nodup
  old_mem : ∀ k ∈ old.map (·.1), k ∈ S
  old_nodup : (old.map (·.1)).Nodup
  begins : ∀ k ∈ old.map (·.1), contentOf old k <+: content k
  stays : ∀ k ns, .refill k ns ∈ cs → content k = contentOf old k
  isChange : ∀ c ∈ cs, IsChange new old c

namespace Ready

variable {S : Set NodeId} {content : NodeId → List Node} {new new' old old' : Portals}
  {cs cs' : List TargetChange}

/-- The targets of portals at different places are different. -/
theorem apart (h : Ready S content new (old ++ old') cs) :
    ∀ k ∈ old.map (·.1), k ∉ old'.map (·.1) := by
  have hon := h.old_nodup
  rw [List.map_append] at hon
  exact fun k hk hk' => (List.nodup_append.1 hon).2.2 k hk k hk' rfl

theorem head (h : Ready S content (new ++ new') (old ++ old') (cs ++ cs'))
    (hcs : ∀ c ∈ cs, IsChange new old c) : Ready S content new old cs := by
  obtain ⟨hnew, hnn, hold, hon, hbegins, hstays, -⟩ := h
  rw [List.map_append] at hnew hnn hold hon hbegins
  have hout : ∀ k ∈ old.map (·.1), contentOf old' k = [] := fun k hk =>
    contentOf_of_notMem fun hk' => (List.nodup_append.1 hon).2.2 k hk k hk' rfl
  refine ⟨fun k hk => hnew k (List.mem_append_left _ hk), (List.nodup_append.1 hnn).1,
    fun k hk => hold k (List.mem_append_left _ hk), (List.nodup_append.1 hon).1, ?_, ?_, hcs⟩
  · intro k hk
    have hpre := hbegins k (List.mem_append_left _ hk)
    rwa [contentOf_append, hout k hk, List.append_nil] at hpre
  · intro k ns hc
    rw [hstays k ns (List.mem_append_left _ hc), contentOf_append, hout k (hcs _ hc).2,
      List.append_nil]

/-- What earlier places did leaves the targets ready for the later ones. -/
theorem tail (h : Ready S content (new ++ new') (old ++ old') (cs ++ cs'))
    (hcs : ∀ c ∈ cs, IsChange new old c) (hcs' : ∀ c ∈ cs', IsChange new' old' c) :
    Ready S (TargetChange.applyAll content cs) new' old' cs' := by
  obtain ⟨hnew, hnn, hold, hon, hbegins, hstays, -⟩ := h
  rw [List.map_append] at hnew hnn hold hon hbegins
  obtain ⟨-, hnn', hnew'⟩ := List.nodup_append.1 hnn
  obtain ⟨-, hon', hold'⟩ := List.nodup_append.1 hon
  have hout : ∀ k ∈ old'.map (·.1), contentOf old k = [] := fun k hk =>
    contentOf_of_notMem fun hk' => hold' k hk' k hk rfl
  refine ⟨fun k hk => hnew k (List.mem_append_right _ hk), hnn',
    fun k hk => hold k (List.mem_append_right _ hk), hon', ?_, ?_, hcs'⟩
  · intro k hk
    have hpre := hbegins k (List.mem_append_right _ hk)
    rw [contentOf_append, hout k hk, List.nil_append] at hpre
    -- an earlier place may have filled the target but not emptied it
    refine hpre.trans (TargetChange.prefix_applyAll fun c hc he => ?_)
    subst he
    cases c with
    | empty target => exact absurd rfl (hold' target (hcs _ hc) target hk)
    | fill target ns => exact ⟨ns, rfl⟩
    | refill target ns => exact absurd rfl (hold' target (hcs _ hc).2 target hk)
  · intro k ns hc
    obtain ⟨hk, hk'⟩ := hcs' _ hc
    have hstay : TargetChange.applyAll content cs k = content k := by
      have hkn : k ∈ new'.map (·.1) := List.mem_map.2 ⟨_, hk, rfl⟩
      refine TargetChange.applyAll_of_ne fun c hcm he => ?_
      rcases (hcs c hcm).target_mem with hmem | hmem
      · exact hnew' _ hmem _ hkn he
      · exact hold' _ hmem _ hk' he
    rw [hstay, hstays k ns (List.mem_append_right _ hc), contentOf_append, hout k hk']
    rfl

/-- Below a portal that stays the targets are ready as well, its own one apart. -/
theorem below {k : NodeId} {ns os : List Node}
    (h : Ready S content ((k, ns) :: new) ((k, os) :: old) (.refill k ns :: cs))
    (hcs : ∀ c ∈ cs, IsChange new old c) : Ready (S \ {k}) content new old cs := by
  obtain ⟨hnew, hnn, hold, hon, hbegins, hstays, -⟩ := h
  obtain ⟨hk, hnn'⟩ := List.nodup_cons.1 hnn
  obtain ⟨hk', hon'⟩ := List.nodup_cons.1 hon
  have hne : ∀ l ∈ old.map (·.1), k ≠ l := fun l hl he => hk' (he ▸ hl)
  refine ⟨fun l hl => ⟨hnew l (List.mem_cons_of_mem _ hl), fun he => hk (he ▸ hl)⟩, hnn',
    fun l hl => ⟨hold l (List.mem_cons_of_mem _ hl), fun he => hk' (he ▸ hl)⟩, hon', ?_, ?_, hcs⟩
  · intro l hl
    have hpre := hbegins l (List.mem_cons_of_mem _ hl)
    rwa [contentOf_cons_of_ne (hne l hl)] at hpre
  · intro l ms hc
    rw [hstays l ms (List.mem_cons_of_mem _ hc), contentOf_cons_of_ne (hne l (hcs _ hc).2)]

end Ready

/-- To empty targets that hold what old portals show nothing else has to be ready. -/
theorem Ready.of_new_eq_nil {new old : Portals} {cs : List TargetChange} (hnew : new = [])
    (hold : (old.map (·.1)).Nodup) (hcs : ∀ c ∈ cs, IsChange new old c) :
    Ready {k | k ∈ old.map (·.1)} (contentOf old) new old cs := by
  subst hnew
  exact ⟨fun _ hk => (nomatch hk), List.nodup_nil, fun _ hk => hk, hold,
    fun _ _ => List.prefix_rfl, fun _ _ _ => rfl, hcs⟩

/-- Without portals there is nothing to be ready for. -/
theorem Ready.of_nil {content : NodeId → List Node} {new old : Portals} {cs : List TargetChange}
    (hnew : new = []) (hold : old = []) (hcs : ∀ c ∈ cs, IsChange new old c) :
    Ready ∅ content new old cs := by
  subst hnew hold
  exact ⟨fun _ hk => (nomatch hk), List.nodup_nil, fun _ hk => (nomatch hk), List.nodup_nil,
    fun _ hk => (nomatch hk), fun _ _ hc => (nomatch (hcs _ hc).1), hcs⟩

namespace Follows

variable {S : Set NodeId} {F F' : Forest} {content : NodeId → List Node} {ps : Portals}

theorem set (hf : Follows S F content) {h : NodeId} (hh : h ∉ S) (ts : List Subtree) :
    Follows S (F.set h ts) content := by
  intro k hk
  have hne : k ≠ h := fun he => hh (he ▸ hk)
  rw [Forest.set_of_ne hne]
  exact hf k hk

theorem clear (hf : Follows S F content) (ps : Portals) :
    Follows S (F.clear (ps.map (·.1))) (TargetChange.applyAll content (TargetChange.going ps)) := by
  intro k hk
  by_cases hps : k ∈ ps.map (·.1)
  · rw [Forest.clear_of_mem hps, TargetChange.applyAll_going_of_mem hps]
    trivial
  · rw [Forest.clear_of_notMem hps, TargetChange.applyAll_going_of_notMem hps]
    exact hf k hk

theorem fill (hf : Follows S F content) {H : Set NodeId} (hfill : Filled H F F' ps) (hS : S ⊆ H) :
    Follows S F' (TargetChange.applyAll content (TargetChange.coming ps)) := by
  intro k hk
  obtain ⟨us, hF', hus⟩ := hfill k (hS hk)
  rw [hF', TargetChange.applyAll_coming]
  exact (hf k hk).append hus.mirror

theorem covers (hf : Follows S F content) {new : Portals} {cs : List TargetChange}
    (hr : Ready S content new ps cs) : Covers F ps := by
  intro k hk
  obtain ⟨rest, hrest⟩ := hr.begins k hk
  have hall := hf k (hr.old_mem k hk)
  rw [← hrest] at hall
  obtain ⟨us, vs, hF, hus, -⟩ := hall.split
  exact ⟨us, vs, hF, hus⟩

end Follows

namespace Page

/-! ## One place -/

section Place

variable {p : Page} {h : NodeId} {S : Set NodeId} {F : Forest} {content : NodeId → List Node}
  {pre post : List Subtree} {t : Subtree} {new old : Node} {cs : List TargetChange}

theorem unmount_place (hd : p.document.Hosts (insert h S) F) (hh : h ∉ S)
    (hF : F h = pre ++ t :: post) (hm : Mirrors old t) (hf : Follows S F content) {ps : Portals}
    (hr : Ready S content ps old.portals cs) :
    ∃ p', p.unmount t.id old = .ok p' ∧
      Reforested (insert h S) p.document F p'.document (F.clear old.targets) ∧
      Repoints p.refs p'.refs [] (old.bindingsIn F t) := by
  have hmem : h ∈ insert h S := Set.mem_insert h S
  have hS : S ⊆ insert h S := Set.subset_insert h S
  have hids : ∀ k ∈ t.ids, k ∉ S ∧ k ∉ F.inside S := by
    intro k hk
    have hkF : k ∈ allIds (F h) := by
      rw [hF]
      exact mem_allIds.2 ⟨t, by simp, hk⟩
    refine ⟨fun hkS => (hd.notMem_of_mem hmem hkF).1 (hS hkS), ?_⟩
    rintro ⟨g, hg, hkg⟩
    exact hh (hd.unique g (hS hg) h hmem k hkg hkF ▸ hg)
  obtain ⟨p', hp', hr', hb⟩ := unmount_ok old (hd.mono hS) (hd.held_of_eq hmem hF) hm hids
    hr.old_mem hr.old_nodup (hf.covers hr)
  refine ⟨p', hp', hr'.frame hd hS fun k _ hk => Forest.clear_of_notMem fun hk' => ?_, hb⟩
  exact hk (hr.old_mem k hk')

theorem clear_host (hh : h ∉ S) {ps : Portals} (hr : Ready S content ps old.portals cs) :
    F.clear old.targets h = F h :=
  Forest.clear_of_notMem fun hk => hh (hr.old_mem h hk)

theorem discard_ok (hd : p.document.Hosts (insert h S) F) (hh : h ∉ S)
    (hF : F h = pre ++ t :: post) (hm : Mirrors old t) (hf : Follows S F content) {ps : Portals}
    (hr : Ready S content ps old.portals cs) :
    ∃ p' F', p.discard t.id old = .ok p' ∧
      Reforested (insert h S) p.document F p'.document F' ∧ F' h = pre ++ post ∧
      Follows S F' (TargetChange.applyAll content (TargetChange.going old.portals)) ∧
      Touches S F F' old.targets ∧ Repoints p.refs p'.refs [] (old.bindingsIn F t) := by
  obtain ⟨p₁, hp₁, hr₁, hb₁⟩ := unmount_place hd hh hF hm hf hr
  obtain ⟨d₂, hd₂, hr₂⟩ := hr₁.hosts.remove (Set.mem_insert h S) ((clear_host hh hr).trans hF)
  refine ⟨{ p₁ with document := d₂ }, _, ?_, hr₁.trans hr₂, Forest.set_self ..,
    (hf.clear old.portals).set hh _, (Touches.clear S F old.targets).set hh _, hb₁⟩
  rw [discard, hp₁, Except.ok_bind, edit_ok hd₂]

/-- What is built for a description can take the place of any live subtree, since its
number is not used anywhere else. -/
theorem build_replace_ok (hd : p.document.Hosts (insert h S) F) (hh : h ∉ S)
    (hF : F h = pre ++ t :: post) (hmem : ∀ k ∈ new.targets, k ∈ S) (hnodup : new.targets.Nodup) :
    ∃ p' t' F', (p.build new >>= fun r => r.2.edit (·.replace t.id [r.1])) = .ok p' ∧
      Reforested (insert h S) p.document F p'.document
        (Forest.set F' h (pre ++ t' :: post)) ∧
      t'.id ≠ t.id ∧ IsBuiltFor new t' ∧ Filled (insert h S) F F' new.portals ∧
      (new.Bare → Repoints p.refs p'.refs (new.bindings t') []) := by
  have hhost : h ∈ insert h S := Set.mem_insert h S
  have hS : S ⊆ insert h S := Set.subset_insert h S
  obtain ⟨p₁, t', F₁, hp₁, hs₁, ht', hf₁, hb₁⟩ :=
    build_ok new hd (fun k hk => hS (hmem k hk)) hnodup
  have hF₁ : F₁ h = pre ++ t :: post :=
    (hf₁.of_notMem hhost fun hk => hh (hmem h hk)).trans hF
  have hne : t'.id ≠ t.id := fun he => (hs₁.apart t'.id t'.id_mem_ids).1
    ⟨h, hhost, by rw [hF₁, he]; exact mem_allIds.2 ⟨t, by simp, t.id_mem_ids⟩⟩
  obtain ⟨d₂, hd₂, hr₂⟩ := hs₁.replace hhost hF₁
  refine ⟨{ p₁ with document := d₂ }, t', F₁, ?_, hr₂, hne, ht', hf₁, hb₁⟩
  rw [hp₁, Except.ok_bind]
  exact edit_ok hd₂

theorem exchange_ok (hd : p.document.Hosts (insert h S) F) (hh : h ∉ S)
    (hF : F h = pre ++ t :: post) (hm : Mirrors old t) (hf : Follows S F content)
    (hr : Ready S content new.portals old.portals cs) :
    ∃ p' t' F', p.exchange t.id new old = .ok p' ∧
      Reforested (insert h S) p.document F p'.document F' ∧ F' h = pre ++ t' :: post ∧
      t'.id ≠ t.id ∧ IsBuiltFor new t' ∧ Follows S F' (TargetChange.applyAll content
        (TargetChange.going old.portals ++ TargetChange.coming new.portals)) ∧
      Touches S F F' (new.targets ++ old.targets) ∧
      (new.Bare → Repoints p.refs p'.refs (new.bindings t') (old.bindingsIn F t)) := by
  have hS : S ⊆ insert h S := Set.subset_insert h S
  obtain ⟨p₁, hp₁, hr₁, hb₁⟩ := unmount_place hd hh hF hm hf hr
  obtain ⟨p₂, t', F₂, hp₂, hr₂, hne, ht', hf₂, hb₂⟩ := build_replace_ok hr₁.hosts hh
    ((clear_host hh hr).trans hF) hr.new_mem hr.new_nodup
  refine ⟨p₂, t', _, ?_, hr₁.trans hr₂, Forest.set_self .., hne, ht', ?_, ?_,
    fun hnew => hb₁.release_bind (hb₂ hnew)⟩
  · rw [exchange, hp₁, Except.ok_bind]
    exact hp₂
  · rw [TargetChange.applyAll_append]
    exact ((hf.clear old.portals).fill hf₂ hS).set hh _
  · have htouch := (Touches.clear S F old.targets).trans (Touches.fill hf₂ hS)
    exact (htouch.mono List.perm_append_comm.subset).set hh _

theorem mount_ok (hd : p.document.Hosts (insert h S) F) (hh : h ∉ S) (hf : Follows S F content)
    {ps : Portals} (hr : Ready S content new.portals ps cs) :
    ∃ p' t F', p.mount (some new) (some h) = .ok (t.id, p') ∧
      Reforested (insert h S) p.document F p'.document F' ∧ F' h = F h ++ [t] ∧
      IsBuiltFor new t ∧
      Follows S F' (TargetChange.applyAll content (TargetChange.coming new.portals)) ∧
      Touches S F F' new.targets ∧ (new.Bare → Repoints p.refs p'.refs (new.bindings t) []) := by
  have hmem : h ∈ insert h S := Set.mem_insert h S
  have hS : S ⊆ insert h S := Set.subset_insert h S
  obtain ⟨p₁, t, F₁, hp₁, hs₁, ht, hf₁, hb₁⟩ := build_ok new hd (fun k hk => hS (hr.new_mem k hk))
    hr.new_nodup
  have hF₁ : F₁ h = F h := hf₁.of_notMem hmem fun hk => hh (hr.new_mem h hk)
  obtain ⟨d₂, hd₂, hr₂⟩ := hs₁.append hmem
  refine ⟨{ p₁ with document := d₂ }, t, _, ?_, hr₂, ?_, ht, (hf.fill hf₁ hS).set hh _,
    (Touches.fill hf₁ hS).set hh _, hb₁⟩
  · rw [mount, hp₁, Except.ok_bind]
    dsimp only
    rw [edit_ok hd₂]
    rfl
  · rw [Forest.set_self, hF₁]

/-- No live element is bound both by a description and by those behind it. -/
theorem notMem_bindingsIn_of_behind {us : List Subtree} {n : Node} {os : List Node}
    (hd : p.document.Hosts (insert h S) F) (hh : h ∉ S) (hF : F h = pre ++ t :: us)
    (hn : ∀ k ∈ n.targets, k ∈ S) (hos : ∀ k ∈ allTargets os, k ∈ S)
    (hapart : ∀ k ∈ n.targets, k ∉ allTargets os) :
    ∀ q ∈ allBindingsIn F os us, q ∉ n.bindingsIn F t := by
  intro q hq hq'
  have hmem : h ∈ insert h S := Set.mem_insert h S
  have hS : S ⊆ insert h S := Set.subset_insert h S
  have hin : ∀ k ∈ S, q.2 ∈ allIds (F k) → q.2 ∉ allIds (F h) := fun k hk hkq hhq =>
    hh (hd.unique h hmem k (hS hk) q.2 hhq hkq ▸ hk)
  rcases mem_of_mem_allBindingsIn hq with hus | ⟨k, hk, hkq⟩ <;>
    rcases mem_of_mem_bindingsIn hq' with ht | ⟨l, hl, hlq⟩
  · have hnodup := (List.nodup_append.1 (hd.nodup_of_eq hmem hF)).2.1
    exact (List.nodup_append.1 hnodup).2.2 _ ht _ hus rfl
  · exact hin l (hn l hl) hlq (by simp [hF, hus])
  · exact hin k (hos k hk) hkq (by simp [hF, ht])
  · obtain rfl := hd.unique k (hS (hos k hk)) l (hS (hn l hl)) q.2 hkq hlq
    exact hapart k hl hk

/-- Where an element is kept its own ref goes over first, then those of its children. -/
theorem repoints_kept {p₁ p₂ : Page} {d : Document} {id : NodeId} {props props' : Props}
    {ds : List Node} {us : List Subtree} {new : Bindings}
    (hp₁ : p.updateProps id props props' = .ok p₁) (hnew : props.Distinct)
    (hd : d.Hosts (insert id S) F) (hF : F id = us) (hds : ∀ k ∈ allTargets ds, k ∈ S)
    (hb : Repoints p₁.refs p₂.refs new (allBindingsIn F ds us)) :
    Repoints p.refs p₂.refs (Bindings.own (Props.ref? props) id ++ new)
      (Bindings.own (Props.ref? props') id ++ allBindingsIn F ds us) := by
  have hid : id ∈ insert id S := Set.mem_insert id S
  have hinside : ∀ q ∈ allBindingsIn F ds us, q.2 ∈ F.inside (insert id S) := by
    intro q hq
    rcases mem_of_mem_allBindingsIn hq with hq | ⟨k, hk, hq⟩
    · exact ⟨id, hid, hF ▸ hq⟩
    · exact ⟨k, Set.mem_insert_of_mem id (hds k hk), hq⟩
  have hbelow : ∀ q ∈ allBindingsIn F ds us, q.2 ≠ id := fun q hq he =>
    hd.host_notMem id hid (he ▸ hinside q hq)
  exact (repoints_updateProps hnew hp₁).trans hb
    (fun q hq hq' => hbelow q hq (Bindings.snd_of_mem_own hq'))
    fun q hq _ hq' => hbelow q hq (Bindings.snd_of_mem_own hq')

end Place

/-! ## Place by place -/

theorem discardAll_ok {h : NodeId} {S : Set NodeId} (hh : h ∉ S) : ∀ (os : List Node) {p : Page}
    {F : Forest} {content : NodeId → List Node} {pre ts : List Subtree},
    p.document.Hosts (insert h S) F → F h = pre ++ ts → AllMirror os ts → Follows S F content →
    Ready S content [] (allPortals os) (allChanges [] os) →
    ∃ p' F', p.discardAll (ts.map Subtree.id) os = .ok p' ∧
      Reforested (insert h S) p.document F p'.document F' ∧ F' h = pre ∧
      Follows S F' (TargetChange.applyAll content (allChanges [] os)) ∧
      Touches S F F' (allTargets os) ∧ Repoints p.refs p'.refs [] (allBindingsIn F os ts)
  | [], p, F, content, pre, ts, hd, hF, hm, hf, _ => by
      obtain rfl : ts = [] := allShow_nil_left.1 hm
      exact ⟨p, F, rfl, .refl hd, hF.trans (List.append_nil pre), hf, .refl S F _, .refl p.refs⟩
  | o :: os, p, F, content, pre, ts, hd, hF, hm, hf, hr => by
      obtain ⟨t, us, rfl, hmt, hmus⟩ := allShow_cons.1 hm
      have hsplit : allChanges [] (o :: os) = TargetChange.going o.portals ++ allChanges [] os :=
        List.map_append
      have hr' : Ready S content ([] ++ []) (o.portals ++ allPortals os)
          (TargetChange.going o.portals ++ allChanges [] os) := hsplit ▸ hr
      have hr₁ := hr'.head fun c hc => isChange_of_going hc
      have hr₂ := hr'.tail (fun c hc => isChange_of_going hc) (isChange_of_allChanges [] os)
      obtain ⟨p₁, F₁, hp₁, hre₁, hF₁, hf₁, ht₁, hb₁⟩ := discard_ok hd hh hF hmt hf hr₁
      obtain ⟨p₂, F₂, hp₂, hre₂, hF₂, hf₂, ht₂, hb₂⟩ :=
        discardAll_ok hh os hre₁.hosts hF₁ hmus hf₁ hr₂
      have hsame : ∀ k ∈ allTargets os, F₁ k = F k := fun k hk =>
        ht₁ k (hr₂.old_mem k hk) fun hk' => hr'.apart k hk' hk
      rw [allBindingsIn_congr us hsame] at hb₂
      refine ⟨p₂, F₂, ?_, hre₁.trans hre₂, hF₂, ?_, ?_, hb₁.release_release hb₂⟩
      · rw [List.map_cons, discardAll, hp₁, Except.ok_bind, hp₂]
      · rw [hsplit, TargetChange.applyAll_append]
        exact hf₂
      · rw [allTargets_cons]
        exact ht₁.trans ht₂

/-! ## Node by node -/

/-- A live subtree that shows an old description can be brought in line with a
new one, wherever it stands under a host whose targets are ready. -/
def Patchable (new old : Node) : Prop :=
  ∀ ⦃p : Page⦄ ⦃h : NodeId⦄ ⦃S : Set NodeId⦄ ⦃F : Forest⦄ ⦃content : NodeId → List Node⦄
    ⦃pre post : List Subtree⦄ ⦃t : Subtree⦄,
    p.document.Hosts (insert h S) F → h ∉ S → F h = pre ++ t :: post → Mirrors old t →
    Follows S F content → Ready S content new.portals old.portals (new.changes old) →
    ∃ p' t' F', p.patch t.id new old = .ok p' ∧
      Reforested (insert h S) p.document F p'.document F' ∧ F' h = pre ++ t' :: post ∧
      Patched new old t t' ∧ Follows S F' (TargetChange.applyAll content (new.changes old)) ∧
      Touches S F F' (new.targets ++ old.targets) ∧
      (new.Bare → Repoints p.refs p'.refs (new.bindings t') (old.bindingsIn F t))

/-- The last live subtrees under a host, which show old descriptions, can be
brought in line with new ones. -/
def AllPatchable (new old : List Node) : Prop :=
  ∀ ⦃p : Page⦄ ⦃h : NodeId⦄ ⦃S : Set NodeId⦄ ⦃F : Forest⦄ ⦃content : NodeId → List Node⦄
    ⦃pre ts : List Subtree⦄,
    p.document.Hosts (insert h S) F → h ∉ S → F h = pre ++ ts → AllMirror old ts →
    Follows S F content → Ready S content (allPortals new) (allPortals old) (allChanges new old) →
    ∃ p' ts' F', p.patchAll h (ts.map Subtree.id) new old = .ok p' ∧
      Reforested (insert h S) p.document F p'.document F' ∧ F' h = pre ++ ts' ∧
      AllPatched new old ts ts' ∧
      Follows S F' (TargetChange.applyAll content (allChanges new old)) ∧
      Touches S F F' (allTargets new ++ allTargets old) ∧
      (AllBare new → Repoints p.refs p'.refs (allBindings new ts') (allBindingsIn F old ts))

theorem patchable_of_mustReplace {new old : Node} (hkeep : new.mustReplace old = true) :
    Patchable new old := by
  intro p h S F content pre post t hd hh hF hm hf hr
  obtain ⟨p', t', F', hp', hre, hF', hne, ht', hf', htouch, hb⟩ := exchange_ok hd hh hF hm hf hr
  refine ⟨p', t', F', ?_, hre, hF', .replaced hkeep hne ht', ?_, htouch, hb⟩
  · rw [patch.eq_def, if_pos hkeep, hp']
  · rw [changes_of_mustReplace hkeep]
    exact hf'

theorem patchable_text (s : String) : Patchable (.text s) (.text s) := by
  intro p h S F content pre post t hd hh hF hm hf hr
  have hneg : ¬ (Node.text s).mustReplace (.text s) = true := by simp [mustReplace]
  refine ⟨p, t, F, ?_, .refl hd, hF, .text, ?_, .refl S F _, fun _ => .refl p.refs⟩
  · rw [patch.eq_def, if_neg hneg]
  · rw [changes_text]
    exact hf

/-- An element is kept when its children can be brought in line as the subtrees
under a host of their own. -/
theorem patchable_element {tag : String} {props props' : Props} {cs ds : List Node}
    (hkeep : (Node.element tag props cs).mustReplace (.element tag props' ds) = false)
    (hcs : AllPatchable cs ds) :
    Patchable (.element tag props cs) (.element tag props' ds) := by
  intro p h S F content pre post t hd hh hF hm hf hr
  have hmem : h ∈ insert h S := Set.mem_insert h S
  obtain ⟨id, data, us⟩ := t
  obtain ⟨⟨e, he, -⟩, hds⟩ := hm
  obtain rfl : data = .element e := he
  have hid : p.document.element? id = some e := by
    rw [Document.element?, (hd.held_of_eq hmem hF).1]
    rfl
  obtain ⟨p₁, hp₁, hlabel⟩ := updateProps_rebound hid props props'
  have hre₁ := hd.relabel hmem hF hlabel
  have hF₁ := Forest.set_self F h
    (pre ++ .node id (.element (e.updateProps props props')) us :: post)
  have hidS := (hd.notMem_of_eq hF).1
  have hbelow := hre₁.hosts.below hh hF₁
  have hus : (F.set h (pre ++ .node id (.element (e.updateProps props props')) us ::
      post)).set id us id = us := Forest.set_self ..
  -- nothing has happened to the targets before the children are brought in line
  have hbefore := ((Touches.refl S F []).set hh (pre ++ .node id (.element
    (e.updateProps props props')) us :: post)).set hidS us
  rw [changes_element hkeep] at hr ⊢
  obtain ⟨p₂, us', F₂, hp₂, hre₂, hF₂, hus', hf₂, htouch, hb₂⟩ :=
    hcs hbelow hidS (hus.trans (List.nil_append us).symm) hds ((hf.set hh _).set hidS us) hr
  rw [List.nil_append] at hF₂
  refine ⟨p₂, _, _, ?_, hre₁.trans (hre₂.above hre₁.hosts hh hF₁), Forest.set_self .., ?_,
    hf₂.set hh _, (hbefore.trans htouch).set hh _, fun hnew => ?_⟩
  · have hlives : p₁.document.children id = .ok (us.map Subtree.id) :=
      children_of_get? (hre₁.hosts.held_of_eq hmem hF₁).1
    rw [patch, if_neg (Bool.eq_false_iff.1 hkeep), Subtree.id, hp₁, Except.ok_bind, hlives,
      Except.ok_bind, hp₂]
  · rw [hF₂]
    exact .element hkeep hus'
  · have hkept := repoints_kept hp₁ hnew.1 hbelow hus hr.old_mem (hb₂ hnew.2)
    rw [allBindingsIn_congr us fun k hk => hbefore k (hr.old_mem k hk) List.not_mem_nil] at hkept
    rw [hF₂]
    exact hkept

/-- A portal is kept when the children under its target can be brought in line,
with the target no longer among those that wait for a change. -/
theorem patchable_portal {target : NodeId} {cs ds : List Node} (hcs : AllPatchable cs ds) :
    Patchable (.portal target cs) (.portal target ds) := by
  intro p h S F content pre post t hd hh hF hm hf hr
  have hneg : ¬ (Node.portal target cs).mustReplace (.portal target ds) = true := by
    simp [mustReplace]
  rw [changes_portal] at hr ⊢
  have htarget : target ∈ S := hr.new_mem target (List.mem_cons_self ..)
  have hnew : target ∉ allTargets cs := (List.nodup_cons.1 hr.new_nodup).1
  have hold : target ∉ allTargets ds := (List.nodup_cons.1 hr.old_nodup).1
  have hinsert : insert target (S \ {target}) = S := by
    rw [Set.insert_sdiff_singleton, Set.insert_eq_of_mem htarget]
  have hdiff : insert target (S \ {target}) ⊆ insert h S := by
    rw [hinsert]
    exact Set.subset_insert h S
  have hcontent : content target = ds := by
    rw [hr.stays target cs (List.mem_cons_self ..), portals, contentOf_cons_self,
      contentOf_of_notMem hold, List.append_nil]
  have hds : AllMirror ds (F target) := hcontent ▸ hf target htarget
  obtain ⟨p₁, us', F₁, hp₁, hre₁, hF₁, hus', hf₁, htouch, -⟩ := hcs (hd.mono hdiff)
    (fun hk => hk.2 rfl) (List.nil_append _).symm hds (fun k hk => hf k hk.1) (hr.below (isChange_of_allChanges cs ds))
  have hre : Reforested (insert target (S \ {target})) p.document F p₁.document
      (F₁.set h (F h)) := hre₁.congr fun k hk => Forest.set_of_ne fun he => by
    rw [he, hinsert] at hk
    exact hh hk
  refine ⟨p₁, t, F₁.set h (F h), ?_, hre.frame hd hdiff ?_, ?_, .portal, ?_, ?_,
    fun hnew => hnew.elim⟩
  · have hlives := hd.children_eq (Set.mem_insert_of_mem h htarget)
    rw [patch, if_neg hneg, hlives, Except.ok_bind, hp₁]
  · intro k hk hk'
    rw [hinsert] at hk'
    obtain rfl : k = h := hk.resolve_right hk'
    exact Forest.set_self ..
  · rw [Forest.set_self, hF]
  · rw [TargetChange.applyAll_cons]
    refine Follows.set (fun k hk => ?_) hh _
    by_cases hkt : k = target
    · subst hkt
      have hstay : ∀ c ∈ allChanges cs ds, c.target ≠ k := by
        intro c hc he
        have hmem := (isChange_of_allChanges cs ds c hc).target_mem
        rw [he] at hmem
        exact hmem.elim hnew hold
      have hrefill : (TargetChange.refill k cs).apply content k = cs := if_pos rfl
      rw [TargetChange.applyAll_of_ne hstay, hrefill, hF₁]
      exact hus'.mirror hds
    · have hsame : (TargetChange.refill target cs).apply content k = content k :=
        if_neg hkt
      rw [TargetChange.applyAll_congr hsame]
      exact hf₁ k ⟨hk, hkt⟩
  · refine Touches.set (fun k hk hks => ?_) hh _
    have hkt : k ≠ target := fun he => hks (by simp [he])
    refine htouch k ⟨hk, hkt⟩ fun hk' => hks ?_
    simp only [targets_portal, List.mem_append, List.mem_cons] at hk' ⊢
    tauto

theorem allPatchable_nil (os : List Node) : AllPatchable [] os := by
  intro p h S F content pre ts hd hh hF hm hf hr
  obtain ⟨p', F', hp', hre, hF', hf', htouch, hb⟩ := discardAll_ok hh os hd hF hm hf hr
  refine ⟨p', [], F', ?_, hre, hF'.trans (List.append_nil pre).symm, .nil, hf', htouch,
    fun _ => hb⟩
  rw [patchAll, hp']

theorem AllPatchable.cons {n o : Node} {ns os : List Node} (hn : Patchable n o)
    (hns : AllPatchable ns os) : AllPatchable (n :: ns) (o :: os) := by
  intro p h S F content pre ts hd hh hF hm hf hr
  obtain ⟨t, us, rfl, hmt, hmus⟩ := allShow_cons.1 hm
  have hr₁ := Ready.head hr (isChange_of_changes n o)
  have hr₂ := Ready.tail hr (isChange_of_changes n o) (isChange_of_allChanges ns os)
  obtain ⟨p₁, t', F₁, hp₁, hre₁, hF₁, ht', hf₁, htouch₁, hb₁⟩ := hn hd hh hF hmt hf hr₁
  have hF₁' : F₁ h = (pre ++ [t']) ++ us := by
    rw [hF₁, List.append_assoc]
    rfl
  obtain ⟨p₂, us', F₂, hp₂, hre₂, hF₂, hus', hf₂, htouch₂, hb₂⟩ :=
    hns hre₁.hosts hh hF₁' hmus hf₁ hr₂
  refine ⟨p₂, t' :: us', F₂, ?_, hre₁.trans hre₂, ?_, .cons ht' hus', ?_, ?_, fun hnew => ?_⟩
  · rw [List.map_cons, patchAll, hp₁, Except.ok_bind, hp₂]
  · rw [hF₂, List.append_assoc]
    rfl
  · rw [allChanges, TargetChange.applyAll_append]
    exact hf₂
  · rw [allTargets_cons, allTargets_cons]
    refine (htouch₁.trans htouch₂).mono fun k hk => ?_
    simp only [List.mem_append] at hk ⊢
    tauto
  · -- what stands behind keeps its numbers while this place is brought in line
    have hnil : n.targets = [] := by rw [targets, hnew.1.portals_eq_nil, List.map_nil]
    have hapart : ∀ k ∈ o.targets, k ∉ allTargets os := Ready.apart hr
    have hsame : ∀ k ∈ allTargets os, F₁ k = F k := by
      refine fun k hk => htouch₁ k (hr₂.old_mem k hk) ?_
      rw [hnil, List.nil_append]
      exact fun hk' => hapart k hk' hk
    have hb₂ := hb₂ hnew.2
    rw [allBindingsIn_congr us hsame] at hb₂
    refine (hb₁ hnew.1).trans hb₂ (fun q hq => ?_) fun q hq _ =>
      notMem_bindingsIn_of_behind hd hh hF hr₁.old_mem hr₂.old_mem hapart q hq
    rw [← allBindingsIn_congr us hsame] at hq
    rw [← bindingsIn_of_portals_eq_nil F₁ t' hnew.1.portals_eq_nil]
    exact notMem_bindingsIn_of_behind hre₁.hosts hh hF₁ hr₁.new_mem hr₂.old_mem
      (by simp [hnil]) q hq

theorem AllPatchable.more (n : Node) {ns : List Node} (hns : AllPatchable ns []) :
    AllPatchable (n :: ns) [] := by
  intro p h S F content pre ts hd hh hF hm hf hr
  obtain rfl : ts = [] := allShow_nil_left.1 hm
  have hr' : Ready S content (n.portals ++ allPortals ns) ([] ++ [])
      (TargetChange.coming n.portals ++ allChanges ns []) := hr
  have hr₁ := hr'.head fun c hc => isChange_of_coming hc
  have hr₂ := hr'.tail (fun c hc => isChange_of_coming hc) (isChange_of_allChanges ns [])
  obtain ⟨p₁, t', F₁, hp₁, hre₁, hF₁, ht', hf₁, htouch₁, hb₁⟩ := mount_ok hd hh hf hr₁
  have hF₁' : F₁ h = (pre ++ [t']) ++ [] := by rw [hF₁, hF, List.append_nil, List.append_nil]
  obtain ⟨p₂, us', F₂, hp₂, hre₂, hF₂, hus', hf₂, htouch₂, hb₂⟩ :=
    hns hre₁.hosts hh hF₁' trivial hf₁ hr₂
  refine ⟨p₂, t' :: us', F₂, ?_, hre₁.trans hre₂, ?_, .more ht' hus', ?_, ?_,
    fun hnew => (hb₁ hnew.1).bind_bind (hb₂ hnew.2)⟩
  · rw [patchAll.eq_def]
    dsimp only
    rw [hp₁]
    exact hp₂
  · rw [hF₂, List.append_assoc]
    rfl
  · rw [allChanges, TargetChange.applyAll_append]
    exact hf₂
  · rw [allTargets_cons, List.append_assoc]
    exact htouch₁.trans htouch₂

theorem compares_patchable : Compares Patchable AllPatchable where
  replaced := patchable_of_mustReplace
  text := patchable_text
  element := patchable_element
  portal := patchable_portal
  nil := allPatchable_nil
  cons := .cons
  more := .more

/-- Every live subtree that shows a description can be brought in line with
another. -/
theorem patch_ok (new old : Node) : Patchable new old :=
  compares_patchable.one new old

/-- All live subtrees that show descriptions can be brought in line with others. -/
theorem patchAll_ok (new old : List Node) : AllPatchable new old :=
  compares_patchable.all new old

/-! ## Without portals -/

section Plain

variable {p : Page} {h : NodeId} {F : Forest} {pre post : List Subtree} {t : Subtree}
  {new old : Node}

theorem patch_plain (hd : p.document.Hosts (insert h ∅) F) (hF : F h = pre ++ t :: post)
    (hm : Mirrors old t) (hnew : new.portals = []) (hold : old.portals = []) :
    ∃ p' t' F', p.patch t.id new old = .ok p' ∧
      Reforested (insert h ∅) p.document F p'.document F' ∧ F' h = pre ++ t' :: post ∧
      Patched new old t t' := by
  have hf : Follows ∅ F fun _ => [] := fun _ hk => hk.elim
  obtain ⟨p', t', F', hp', hre, hF', ht', -⟩ := patch_ok new old hd (Set.notMem_empty h) hF hm hf
    (.of_nil hnew hold (isChange_of_changes new old))
  exact ⟨p', t', F', hp', hre, hF', ht'⟩

theorem mount_plain (hd : p.document.Hosts (insert h ∅) F) (hnew : new.portals = []) :
    ∃ p' t F', p.mount (some new) (some h) = .ok (t.id, p') ∧
      Reforested (insert h ∅) p.document F p'.document F' ∧ F' h = F h ++ [t] ∧
      IsBuiltFor new t := by
  have hf : Follows ∅ F fun _ => [] := fun _ hk => hk.elim
  have hr : Ready ∅ (fun _ => []) new.portals [] [] := .of_nil hnew rfl fun _ hc => nomatch hc
  obtain ⟨p', t, F', hp', hre, hF', ht, -⟩ := mount_ok hd (Set.notMem_empty h) hf hr
  exact ⟨p', t, F', hp', hre, hF', ht⟩

end Plain

end Page

end LiveMarkup
