import LiveMarkup.Proofs.Document.Exchange
import LiveMarkup.Proofs.Page.Attached
import LiveMarkup.Proofs.Page.Noted

/-!
# Descriptions with portals that go

A child of a parent displays a description when its subtree mirrors it and the
children of every portal are mirrored by just what stands inside its target
(`Document.Displays`). Bringing the child in line with a description without
portals, or removing it, exchanges it for what is described and empties all the
targets (`Page.update_exchanged`).

The targets may stand next to the child or below its siblings. So where the child
goes the targets are emptied first, with the targets as hosts, and the exchange
takes place in the document after that, with the parent as host. Where the child is
kept it is a host itself, together with the targets.
-/

namespace LiveMarkup

open Document Subtree Node

/-- A child of a parent displays a description, with what its portals show in the
forests under their targets. -/
structure Document.Displays (d : Document) (parent : NodeId) (i : Nat) (n : Node) (t : Subtree)
    (F : Forest) : Prop where
  wellFormed : d.WellFormed
  held : t.Held d.get? (some parent)
  place : ∃ m, d.get? parent = some m ∧ m.children[i]? = some t.id
  mirrors : Mirrors n t
  hosts : d.Hosts {k | k ∈ t.id :: n.targets} F
  children : F t.id = t.children
  nodup : (t.id :: n.targets).Nodup
  follows : Follows {k | k ∈ n.targets} F (contentOf n.portals)
  parent_notMem : parent ∉ t.id :: n.targets ∧ parent ∉ F.ids (t.id :: n.targets)

/-- No two of some nodes are one, and none stands above another. -/
def Document.Apart (d : Document) (ks : List NodeId) : Prop :=
  ks.Pairwise fun k l => ¬d.Above k l ∧ ¬d.Above l k

theorem setOf_mem_cons (k : NodeId) (ks : List NodeId) :
    {l | l ∈ k :: ks} = insert k {l | l ∈ ks} :=
  Set.ext fun _ => List.mem_cons

mutual

/-- Where a description is shown the targets of its portals show what these hold. -/
theorem exists_allShowAt {d : Document} {q : NodeId × List Node} : ∀ {n : Node} {live : NodeId},
    d.ShowsAt n live → q ∈ n.portals → ∃ m, d.get? q.1 = some m ∧ d.AllShowAt q.2 m.children
  | .text _, _, _, hq => nomatch hq
  | .element _ _ _, _, h, hq => by
      obtain ⟨_, _, _, _, _, h⟩ := h
      exact exists_allShowAt_of_allShowAt h hq
  | .portal _ _, _, h, hq => by
      obtain ⟨_, m, hm, h⟩ := h
      rcases List.mem_cons.1 hq with rfl | hq
      · exact ⟨m, hm, h⟩
      · exact exists_allShowAt_of_allShowAt h hq

theorem exists_allShowAt_of_allShowAt {d : Document} {q : NodeId × List Node} :
    ∀ {ns : List Node} {lives : List NodeId}, d.AllShowAt ns lives → q ∈ allPortals ns →
    ∃ m, d.get? q.1 = some m ∧ d.AllShowAt q.2 m.children
  | _ :: _, _ :: _, h, hq => (List.mem_append.1 hq).elim (exists_allShowAt h.1)
      (exists_allShowAt_of_allShowAt h.2)

end

namespace Document

variable {d : Document} {parent live : NodeId} {i : Nat} {n : Node}

theorem Displays.mem_ids_iff {t : Subtree} {F : Forest} (hs : d.Displays parent i n t F)
    {k : NodeId} : k ∈ t.ids ↔ k = t.id ∨ k ∈ allIds (F t.id) := by
  rw [hs.children]
  cases t
  exact List.mem_cons

theorem Apart.nodup {ks : List NodeId} (h : d.Apart ks) : ks.Nodup :=
  List.Pairwise.imp (fun {k l} hkl (he : k = l) => hkl.1 (he ▸ Relation.ReflTransGen.refl)) h

theorem Apart.not_above {ks : List NodeId} (h : d.Apart ks) {k l : NodeId} (hk : k ∈ ks)
    (hl : l ∈ ks) (ha : d.Above k l) : k = l := by
  by_contra hne
  have : Std.Symm fun k l => ¬d.Above k l ∧ ¬d.Above l k := ⟨fun _ _ => And.symm⟩
  exact (List.Pairwise.forall h hk hl hne).1 ha

/-- The ways up of live nodes tell whether they stand apart. -/
theorem WellFormed.apart_iff (hd : d.WellFormed) {ks : List NodeId} (hlive : ∀ k ∈ ks, d.Live k) :
    d.Apart ks ↔ ks.Pairwise fun k l => k ∉ d.chain l ∧ l ∉ d.chain k :=
  List.Pairwise.iff_of_mem fun {k l} hk hl => by
    rw [hd.mem_chain_iff (hlive k hk), hd.mem_chain_iff (hlive l hl)]

/-- An attached live node that shows a description displays it, if the targets stand
apart from it and from each other. -/
theorem WellFormed.exists_displays (hd : d.WellFormed) (hlive : d.at? parent [i] = some live)
    (hshows : d.ShowsAt n live) (hapart : d.Apart (live :: n.targets)) :
    ∃ t F, t.id = live ∧ d.Displays parent i n t F ∧
      ∀ k ∈ live :: n.targets, ∀ x ∈ allIds (F k), d.Above k x := by
  rw [Document.at?] at hlive
  obtain ⟨m, hm, hlive⟩ := Option.bind_eq_some_iff.1 hlive
  obtain ⟨c, hplace, hc⟩ := Option.bind_eq_some_iff.1 hlive
  obtain rfl : c = live := Option.some.inj hc
  have hparent : d.parentOf c = some parent := by
    rw [← hd.mem_iff, childrenOf_of_get? hm]
    exact List.mem_of_getElem? hplace
  have htargets : ∀ k ∈ n.targets, ∃ m, d.get? k = some m ∧
      d.AllShowAt (contentOf n.portals k) m.children := by
    intro k hk
    obtain ⟨q, hq, rfl⟩ := List.mem_map.1 hk
    rw [contentOf_of_mem (List.nodup_cons.1 hapart.nodup).2 hq]
    exact exists_allShowAt hshows hq
  have hlives : ∀ k ∈ c :: n.targets, d.Live k := by
    intro k hk
    rcases List.mem_cons.1 hk with rfl | hk
    · exact live_of_parentOf hparent
    · obtain ⟨m, hm, -⟩ := htargets k hk
      exact live_iff.2 ⟨m, hm⟩
  obtain ⟨F, hF, habove⟩ := hd.exists_hosts (H := {k | k ∈ c :: n.targets}) hlives
    fun k hk l hl => hapart.not_above hk hl
  have hmem : c ∈ c :: n.targets := List.mem_cons_self ..
  obtain ⟨l, hl, hchildren⟩ := hF.host c hmem
  have hheld : (Subtree.node c l.data (F c)).Held d.get? (some parent) := by
    refine ⟨?_, hF.held c hmem⟩
    rw [hl, ← hchildren, ← hparent, parentOf_of_get? hl, ← hd.key c l hl]
  -- what is above the parent is above the child
  have habsurd : ∀ k ∈ c :: n.targets, ¬d.Above k parent := by
    intro k hk ha
    obtain rfl := hapart.not_above hk hmem (ha.trans (above_of_parentOf hparent))
    exact hd.not_above_parent hparent ha
  have hmirrors := mirrors_of_showsAt hheld hshows
  refine ⟨.node c l.data (F c), F, rfl, ⟨hd, hheld, ⟨m, hm, hplace⟩, hmirrors, hF, rfl,
    hapart.nodup, fun k hk => ?_, fun hk => habsurd parent hk .refl, fun hk => ?_⟩, habove⟩
  · obtain ⟨m, hm, hshown⟩ := htargets k hk
    have hk' : k ∈ c :: n.targets := List.mem_cons_of_mem _ hk
    obtain ⟨m', hm', hchildren'⟩ := hF.host k hk'
    obtain rfl := Option.some.inj (hm.symm.trans hm')
    rw [hchildren'] at hshown
    exact allMirror_of_allShowAt (hF.held k hk') hshown
  · obtain ⟨k, hk, hkF⟩ := Forest.mem_ids.1 hk
    exact habsurd k hk (habove k hk parent hkF)

end Document

namespace Page

variable {p : Page} {parent : NodeId} {i : Nat} {new : Option Node} {n old : Node} {t : Subtree}
  {F : Forest}

theorem hosts_targets (hs : p.document.Displays parent i old t F) :
    p.document.Hosts {k | k ∈ old.targets} F :=
  hs.hosts.mono fun _ => List.mem_cons_of_mem _

theorem notMem_of_mem_ids (hs : p.document.Displays parent i old t F) :
    ∀ k ∈ t.ids, k ∉ old.targets ∧ k ∉ F.inside {k | k ∈ old.targets} := by
  intro k hk
  have hmem : t.id ∈ t.id :: old.targets := List.mem_cons_self ..
  have hnot := (List.nodup_cons.1 hs.nodup).1
  rcases hs.mem_ids_iff.1 hk with rfl | hk
  · exact ⟨hnot, fun ⟨g, hg, hkg⟩ => hs.hosts.host_notMem _ hmem
      ⟨g, List.mem_cons_of_mem _ hg, hkg⟩⟩
  · refine ⟨fun hk' => (hs.hosts.notMem_of_mem hmem hk).1 (List.mem_cons_of_mem _ hk'), ?_⟩
    rintro ⟨g, hg, hkg⟩
    exact hnot (hs.hosts.unique _ hmem g (List.mem_cons_of_mem _ hg) k hk hkg ▸ hg)

theorem parent_notMem_targets (hs : p.document.Displays parent i old t F) :
    parent ∉ old.targets ∧ parent ∉ F.ids old.targets := by
  obtain ⟨hnot, hids⟩ := hs.parent_notMem
  rw [Forest.ids_cons, List.mem_append, not_or] at hids
  exact ⟨fun hk => hnot (List.mem_cons_of_mem _ hk), hids.2⟩

/-- Unmounting a child that displays a description empties the targets. The child
stays where it is, and the parent is a host of it in the document after that. -/
theorem unmount_displayed (hs : p.document.Displays parent i old t F) :
    ∃ p₁ F₁ pre post, p.unmount t.id old = .ok p₁ ∧
      Reforested {k | k ∈ old.targets} p.document F p₁.document (F.clear old.targets) ∧
      Repoints p.refs p₁.refs [] (old.bindingsIn F t) ∧ p₁.document.Hosts (insert parent ∅) F₁ ∧
      F₁ parent = pre ++ t :: post ∧ pre.length = i := by
  have hhosts := hosts_targets hs
  have hids := notMem_of_mem_ids hs
  have hcovers : Covers F old.portals := fun k hk =>
    ⟨F k, [], (List.append_nil _).symm, hs.follows k hk⟩
  obtain ⟨p₁, hp₁, hr₁, hb₁⟩ := unmount_ok old hhosts hs.held hs.mirrors hids (fun _ hk => hk)
    (List.nodup_cons.1 hs.nodup).2 hcovers
  have hwf : p₁.document.WellFormed :=
    yields_unmount (fun k _ _ hd => hd.yields_removeChildren k) hs.wellFormed p₁ hp₁
  have hheld : t.Held p₁.document.get? (some parent) := by
    refine hs.held.congr fun k hk => ?_
    obtain ⟨m, hm⟩ := hs.held.live k hk
    rw [hm]
    exact (hr₁.get?_eq (hids k hk).1 (hids k hk).2 hm).1
  obtain ⟨m, hm, hplace⟩ := hs.place
  have hparent : p₁.document.get? parent = some m := by
    obtain ⟨hnot, hin⟩ := parent_notMem_targets hs
    rw [← Forest.mem_inside_mem] at hin
    exact (hr₁.get?_eq hnot hin hm).1
  have hat : p₁.document.at? parent [i] = some t.id := by
    rw [Document.at?_cons hparent hplace]
    rfl
  obtain ⟨F₁, pre, t₁, post, hhosts₁, hF₁, hpre, hid⟩ := hwf.exists_attached hat
  have hheld₁ := hhosts₁.held_of_eq (Set.mem_insert parent ∅) hF₁
  obtain rfl := hheld₁.eq_of_id_eq hheld hid
  exact ⟨p₁, F₁, pre, post, hp₁, hr₁, hb₁, hhosts₁, hF₁, hpre⟩

/-! ## The child goes -/

/-- An exchange after the targets have been emptied. -/
theorem exchanged_after {p₁ : Page} {us : List Subtree} {d' : Document}
    (hs : p.document.Displays parent i old t F)
    (hr : Reforested {k | k ∈ old.targets} p.document F p₁.document (F.clear old.targets))
    (h : Exchanged p₁.document parent i us [] t.ids d') :
    Exchanged p.document parent i us old.targets (t.ids ++ F.ids old.targets) d' := by
  obtain ⟨m, hm, -⟩ := hs.place
  exact h.after hr (hosts_targets hs) (List.nodup_cons.1 hs.nodup).2 (live_iff.2 ⟨m, hm⟩)
    (parent_notMem_targets hs) fun k hk hkt => (notMem_of_mem_ids hs k hkt).1 hk

theorem discard_exchanged (hs : p.document.Displays parent i old t F) :
    ∃ p', p.discard t.id old = .ok p' ∧
      Exchanged p.document parent i [] old.targets (t.ids ++ F.ids old.targets) p'.document ∧
      Repoints p.refs p'.refs [] (old.bindingsIn F t) := by
  obtain ⟨p₁, F₁, pre, post, hp₁, hr₁, hb₁, hd₁, hF₁, rfl⟩ := unmount_displayed hs
  obtain ⟨d₂, hd₂, hr₂⟩ := hd₁.remove (Set.mem_insert parent ∅) hF₁
  have hF₂ : F₁.set parent (pre ++ post) parent = pre ++ ([] ++ post) := Forest.set_self ..
  have hexchanged := hr₂.exchanged hd₁ hF₁ hF₂
  refine ⟨{ p₁ with document := d₂ }, ?_, exchanged_after hs hr₁ hexchanged, hb₁⟩
  rw [discard, hp₁, Except.ok_bind, edit_ok hd₂]

theorem exchange_exchanged (hs : p.document.Displays parent i old t F) (hn : n.portals = []) :
    ∃ p' t', p.exchange t.id n old = .ok p' ∧ Mirrors n t' ∧
      Exchanged p.document parent i [t'] old.targets (t.ids ++ F.ids old.targets) p'.document ∧
      (n.Bare → Repoints p.refs p'.refs (n.bindings t') (old.bindingsIn F t)) := by
  obtain ⟨p₁, F₁, pre, post, hp₁, hr₁, hb₁, hd₁, hF₁, rfl⟩ := unmount_displayed hs
  have htargets : n.targets = [] := List.map_eq_nil_iff.2 hn
  obtain ⟨p₂, t', F₂, hp₂, hr₂, -, ht', -, hb₂⟩ := build_replace_ok hd₁ (Set.notMem_empty parent)
    hF₁ (fun k hk => nomatch htargets ▸ hk) (htargets ▸ List.nodup_nil)
  have hF₂ : F₂.set parent (pre ++ t' :: post) parent = pre ++ ([t'] ++ post) :=
    Forest.set_self ..
  have hexchanged := hr₂.exchanged hd₁ hF₁ hF₂
  refine ⟨p₂, t', ?_, ht'.mirrors, exchanged_after hs hr₁ hexchanged,
    fun hbare => hb₁.release_bind (hb₂ hbare)⟩
  rw [exchange, hp₁, Except.ok_bind]
  exact hp₂

/-! ## The child is kept -/

theorem patch_exchanged_element {tag : String} {props props' : Props} {cs ds : List Node}
    (hkeep : (Node.element tag props cs).mustReplace (.element tag props' ds) = false)
    (hs : p.document.Displays parent i (.element tag props' ds) t F) (hcs : allPortals cs = []) :
    ∃ p' t', p.patch t.id (.element tag props cs) (.element tag props' ds) = .ok p' ∧
      Mirrors (.element tag props cs) t' ∧
      Exchanged p.document parent i [t'] (allTargets ds) (t.ids ++ F.ids (allTargets ds))
        p'.document ∧
      ((Node.element tag props cs).Bare → Repoints p.refs p'.refs
        ((Node.element tag props cs).bindings t')
        ((Node.element tag props' ds).bindingsIn F t)) := by
  obtain ⟨id, data, us⟩ := t
  obtain ⟨⟨e, he, hname⟩, hds⟩ := hs.mirrors
  obtain rfl : data = .element e := he
  obtain rfl : F id = us := hs.children
  obtain ⟨hnot, hnodup⟩ := List.nodup_cons.1 hs.nodup
  have hid : p.document.element? id = some e := by
    rw [Document.element?, hs.held.1]
    rfl
  obtain ⟨p₁, hp₁, hlabel⟩ := updateProps_rebound hid props props'
  have hd₁ := hs.hosts.relabel_host (List.mem_cons_self ..) hlabel
  have hd₁' : p₁.document.Hosts (insert id {k | k ∈ allTargets ds}) F := setOf_mem_cons id _ ▸ hd₁
  obtain ⟨p₂, us', F₂, hp₂, hre, hF₂, hus', hf, -, hb⟩ := patchAll_ok cs ds hd₁' hnot
    (List.nil_append _).symm hds hs.follows
    (.of_new_eq_nil hcs hnodup (isChange_of_allChanges cs ds))
  obtain rfl : F₂ id = us' := hF₂
  have hempty : ∀ k ∈ allTargets ds, F₂ k = [] := by
    intro k hk
    have hk' := hf k hk
    rw [allChanges_of_allPortals_eq_nil hcs, TargetChange.applyAll_going_of_mem hk] at hk'
    exact allShow_nil_left.1 hk'
  obtain ⟨m, hm, hplace⟩ := hs.place
  rw [← setOf_mem_cons] at hre
  refine ⟨p₂, .node id (.element (e.updateProps props props')) (F₂ id), ?_,
    ⟨⟨_, rfl, (Element.name_updateProps ..).trans hname⟩, hus'.mirror hds⟩,
    hre.exchanged_kept hlabel hs.hosts hs.nodup hempty hs.held hm hplace hs.parent_notMem,
    fun hbare => repoints_kept hp₁ hbare.1 hd₁' rfl (fun _ hk => hk) (hb hbare.2)⟩
  have hlives : p₁.document.children id = .ok ((F id).map Subtree.id) :=
    hd₁.children_eq (List.mem_cons_self ..)
  rw [patch, if_neg (Bool.eq_false_iff.1 hkeep), Subtree.id, hp₁, Except.ok_bind, hlives,
    Except.ok_bind, hp₂]

theorem patch_exchanged (hs : p.document.Displays parent i old t F) (hn : n.portals = []) :
    ∃ p' t', p.patch t.id n old = .ok p' ∧ Mirrors n t' ∧
      Exchanged p.document parent i [t'] old.targets (t.ids ++ F.ids old.targets) p'.document ∧
      (n.Bare → Repoints p.refs p'.refs (n.bindings t') (old.bindingsIn F t)) := by
  cases hkeep : n.mustReplace old with
  | true =>
      obtain ⟨p', t', hp', hrest⟩ := exchange_exchanged hs hn
      exact ⟨p', t', by rw [patch.eq_def, if_pos hkeep, hp'], hrest⟩
  | false =>
      cases n with
      | text s =>
          obtain rfl := eq_text_of_kept hkeep
          obtain ⟨m, hm, hplace⟩ := hs.place
          refine ⟨p, t, ?_, hs.mirrors, ?_, fun _ => .refl p.refs⟩
          · rw [patch.eq_def, if_neg (Bool.eq_false_iff.1 hkeep)]
          · rw [targets_text, Forest.ids, List.flatMap_nil, List.append_nil]
            exact .refl hs.held hm hplace
      | element tag props cs =>
          obtain ⟨props', ds, rfl⟩ := eq_element_of_kept hkeep
          exact patch_exchanged_element hkeep hs hn
      | portal target cs => cases hn

/-- Bringing a child that displays a description in line with a description without
portals, or with none, never fails. It exchanges the child for what is described and
empties all the targets. -/
theorem update_exchanged (hs : p.document.Displays parent i old t F)
    (hnew : allPortals new.toList = []) :
    ∃ p' us, p.update parent (some t.id) new (some old) = .ok p' ∧ AllMirror new.toList us ∧
      Exchanged p.document parent i us old.targets (t.ids ++ F.ids old.targets) p'.document ∧
      (AllBare new.toList →
        Repoints p.refs p'.refs (allBindings new.toList us) (old.bindingsIn F t)) := by
  cases new with
  | none =>
      obtain ⟨p', hp', hexchanged, hb⟩ := discard_exchanged hs
      exact ⟨p', [], hp', trivial, hexchanged, fun _ => hb⟩
  | some n =>
      have hn : n.portals = [] := (List.append_eq_nil_iff.1 hnew).1
      obtain ⟨p', t', hp', hm, hexchanged, hb⟩ := patch_exchanged hs hn
      refine ⟨p', [t'], hp', ⟨hm, trivial⟩, hexchanged, fun hbare => ?_⟩
      rw [Option.toList_some, allBindings_cons_cons, allBindings_nil_left, List.append_nil]
      exact hb hbare.1

end Page

end LiveMarkup
