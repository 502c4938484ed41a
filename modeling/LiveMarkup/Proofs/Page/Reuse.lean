import LiveMarkup.Proofs.Document.Calls
import LiveMarkup.Proofs.Page.Attached
import LiveMarkup.Proofs.Page.Confined
import LiveMarkup.Proofs.Page.Ledger

/-!
# Live nodes are used again

An update uses a live node again wherever the old and the new part of the
description allow it, at that place and at all places above it, and only there
(`Page.update_reuses`). What it notes down are the replacements, removals and new
nodes that this asks for, and no others.

The accounts are kept by the recursion of the update. Each place needs the forests
under the hosts only to know that the subtrees behind it are still the ones that
there were at the start.
-/

namespace LiveMarkup

open Document Subtree Node

namespace Page

/-! ## Accounts place by place -/

/-- What bringing a live subtree in line notes down matches the places of the
descriptions. -/
def Accountable (new old : Node) : Prop :=
  ∀ ⦃p p' : Page⦄ ⦃h : NodeId⦄ ⦃F : Forest⦄ ⦃pre post : List Subtree⦄ ⦃t : Subtree⦄,
    p.document.Hosts (insert h ∅) F → F h = pre ++ t :: post → Mirrors old t →
    new.portals = [] → old.portals = [] → p.patch t.id new old = .ok p' →
    ∃ ms, Notes p.document p'.document ms ∧ Accounts ms (some new) (some old) (some t)

/-- What bringing the last live subtrees under a host in line notes down matches the
places of the descriptions. -/
def AllAccountable (new old : List Node) : Prop :=
  ∀ ⦃p p' : Page⦄ ⦃h : NodeId⦄ ⦃F : Forest⦄ ⦃pre ts : List Subtree⦄,
    p.document.Hosts (insert h ∅) F → F h = pre ++ ts → AllMirror old ts →
    allPortals new = [] → allPortals old = [] →
    p.patchAll h (ts.map Subtree.id) new old = .ok p' →
    ∃ ms, Notes p.document p'.document ms ∧ AllAccounts ms new old ts

theorem accountable_of_mustReplace {new old : Node} (h : new.mustReplace old = true) :
    Accountable new old := by
  intro p p' host F pre post t _ _ _ hnew hold hp'
  rw [patch.eq_def, if_pos h] at hp'
  obtain ⟨p₁, h₁, hp'⟩ := Except.exists_of_bind_eq_ok hp'
  obtain ⟨⟨id, p₂⟩, h₂, hp'⟩ := Except.exists_of_bind_eq_ok hp'
  obtain ⟨ms, put, hms, hgrowth, hput⟩ := growth_build hnew h₂
  have hreplace : p₂.Noting (p₂.edit (·.replace t.id [id])) [.replaceNode t.id [id]] :=
    .edit (noting_replace p₂.document t.id [id])
  have hnotes := hms.trans (hreplace p' hp')
  rw [document_unmount hold h₁] at hnotes
  exact ⟨_, hnotes, .of_replaced h hnew hgrowth hput [id]⟩

theorem accountable_text (s : String) : Accountable (.text s) (.text s) := by
  intro p p' h F pre post t _ _ hm _ _ hp'
  have hkeep : (Node.text s).mustReplace (.text s) = false := by simp [mustReplace]
  rw [patch.eq_def, if_neg (Bool.eq_false_iff.1 hkeep)] at hp'
  cases hp'
  exact ⟨[], .refl _, .of_kept (kept_iff.2 hkeep) .nil⟩

theorem accountable_element {tag : String} {props props' : Props} {cs ds : List Node}
    (hkeep : (Node.element tag props cs).mustReplace (.element tag props' ds) = false)
    (hcs : AllAccountable cs ds) :
    Accountable (.element tag props cs) (.element tag props' ds) := by
  intro p p' h F pre post t hd hF hm hnew hold hp'
  obtain ⟨id, data, us⟩ := t
  obtain ⟨p₁, data', h₁, hre₁, hall⟩ := exists_patchAll_of_patch hkeep hd hF hp'
  have hF₁ := Forest.set_self F h (pre ++ .node id data' us :: post)
  have hus : (F.set h (pre ++ .node id data' us :: post)).set id us id = [] ++ us :=
    Forest.set_self ..
  obtain ⟨ms, hms, haccounts⟩ := hcs (hre₁.hosts.below (Set.notMem_empty h) hF₁) hus hm.2 hnew
    hold hall
  exact ⟨_, (editing_updateProps p id props props' p₁ h₁).notes.trans hms,
    .of_kept (kept_iff.2 hkeep) haccounts⟩

theorem discardAll_accounts : ∀ {os : List Node} {ts : List Subtree} {p p' : Page},
    AllMirror os ts → allPortals os = [] → p.discardAll (ts.map Subtree.id) os = .ok p' →
    ∃ ms, Notes p.document p'.document ms ∧ AllAccounts ms [] os ts
  | [], ts, p, p', hm, _, hp' => by
      obtain rfl : ts = [] := allShow_nil_left.1 hm
      cases hp'
      exact ⟨[], .refl _, .nil⟩
  | o :: os, ts, p, p', hm, hold, hp' => by
      obtain ⟨t, us, rfl, -, hmus⟩ := allShow_cons.1 hm
      obtain ⟨ho, hos⟩ := List.append_eq_nil_iff.1 hold
      obtain ⟨p₁, h₁, hp'⟩ := Except.exists_of_bind_eq_ok hp'
      obtain ⟨p₀, h₀, h₁⟩ := Except.exists_of_bind_eq_ok h₁
      obtain ⟨ms, hms, haccounts⟩ := discardAll_accounts hmus hos hp'
      have hremove : p₀.Noting (p₀.edit (·.remove t.id)) [.removeNode t.id] :=
        .edit (noting_remove p₀.document t.id)
      have hnotes := (hremove p₁ h₁).trans hms
      rw [document_unmount ho h₀] at hnotes
      exact ⟨_, hnotes, .cons (.of_removed o t) haccounts⟩

theorem allAccountable_nil (os : List Node) : AllAccountable [] os := by
  intro p p' h F pre ts _ _ hm _ hold hp'
  rw [patchAll] at hp'
  exact discardAll_accounts hm hold hp'

theorem AllAccountable.cons {n o : Node} {ns os : List Node} (hn : Accountable n o)
    (hns : AllAccountable ns os) : AllAccountable (n :: ns) (o :: os) := by
  intro p p' h F pre ts hd hF hm hnew hold hp'
  obtain ⟨t, us, rfl, hmt, hmus⟩ := allShow_cons.1 hm
  obtain ⟨hnew₁, hnew₂⟩ := List.append_eq_nil_iff.1 hnew
  obtain ⟨hold₁, hold₂⟩ := List.append_eq_nil_iff.1 hold
  obtain ⟨p₁, t', F₁, hp₁, hre₁, hF₁, -⟩ := patch_plain hd hF hmt hnew₁ hold₁
  have hF₁' : F₁ h = (pre ++ [t']) ++ us := by
    rw [hF₁, List.append_assoc]
    rfl
  rw [List.map_cons, patchAll, hp₁, Except.ok_bind] at hp'
  obtain ⟨ms, hms, haccounts⟩ := hn hd hF hmt hnew₁ hold₁ hp₁
  obtain ⟨ms', hms', haccounts'⟩ := hns hre₁.hosts hF₁' hmus hnew₂ hold₂ hp'
  exact ⟨_, hms.trans hms', .cons haccounts haccounts'⟩

theorem AllAccountable.more (n : Node) {ns : List Node} (hns : AllAccountable ns []) :
    AllAccountable (n :: ns) [] := by
  intro p p' h F pre ts hd hF hm hnew hold hp'
  obtain rfl : ts = [] := allShow_nil_left.1 hm
  obtain ⟨hnew₁, hnew₂⟩ := List.append_eq_nil_iff.1 hnew
  obtain ⟨p₁, t', F₁, hp₁, hre₁, hF₁, -⟩ := mount_plain hd hnew₁
  rw [patchAll.eq_def] at hp'
  dsimp only at hp'
  rw [hp₁] at hp'
  obtain ⟨ms', hms', haccounts'⟩ := hns hre₁.hosts (hF₁.trans (List.append_nil _).symm) trivial
    hnew₂ hold hp'
  obtain ⟨⟨id, p₀⟩, h₀, h₁⟩ := Except.exists_of_bind_eq_ok hp₁
  obtain ⟨p₁', h₁', ⟨⟩⟩ := Except.exists_of_bind_eq_ok h₁
  obtain ⟨ms, put, hms, hgrowth, hput⟩ := growth_build hnew₁ h₀
  have happend : p₀.Noting (p₀.edit (·.append h [t'.id])) [.appendChildren h [t'.id]] :=
    .edit (noting_append p₀.document h [t'.id])
  exact ⟨_, (hms.trans (happend p₁ h₁')).trans hms',
    .cons (.of_added hnew₁ hgrowth hput h [t'.id]) haccounts'⟩

theorem compares_accountable : Compares Accountable AllAccountable where
  replaced := accountable_of_mustReplace
  text := accountable_text
  element := accountable_element
  portal _ _ _ _ _ _ _ _ _ _ _ hnew := by cases hnew
  nil := allAccountable_nil
  cons := .cons
  more := .more

/-- What bringing any live subtree in line notes down matches the places. -/
theorem patch_accounts (new old : Node) : Accountable new old :=
  compares_accountable.one new old

/-! ## Live nodes before and after -/

/-- At each place that is kept there is the same live node as before, and at each one
that is replaced another one. -/
structure Reuses (new old : Node) (before after : List Nat → Option NodeId) : Prop where
  kept : ∀ path, KeptAt (some new) (some old) path →
    ∃ k, before path = some k ∧ after path = some k
  replaced : ∀ path, ReplacedAt (some new) (some old) path →
    ∃ k k', before path = some k ∧ after path = some k' ∧ k' ≠ k

/-- There is one replacement for each place that is replaced, of the live node that
stood there, one removal for each place that is removed, of the live node that stood
there, and one new node for each place that is created. Each new node is appended or
takes the place of another. -/
structure Tally (new old : Node) (before : List Nat → Option NodeId) (ms : List Mutation) :
    Prop where
  replaced : ((ms.filterMap Mutation.replaced?).length : ENat) =
    {path | ReplacedAt (some new) (some old) path}.encard
  replaced_count : ∀ k, ((ms.filterMap Mutation.replaced?).count k : ENat) =
    {path | ReplacedAt (some new) (some old) path ∧ before path = some k}.encard
  removed : ((ms.filterMap Mutation.removed?).length : ENat) =
    {path | RemovedAt (some new) (some old) path}.encard
  removed_count : ∀ k, ((ms.filterMap Mutation.removed?).count k : ENat) =
    {path | RemovedAt (some new) (some old) path ∧ before path = some k}.encard
  created : (ms.countP Mutation.creates : ENat) =
    {path | CreatedAt (some new) (some old) path}.encard
  put : ms.countP Mutation.appends + (ms.filterMap Mutation.replaced?).length =
    ms.countP Mutation.creates

section Before

variable {p : Page} {parent : NodeId} {F : Forest} {pre post : List Subtree} {t t' : Subtree}
  {new old : Node} {ms : List Mutation}

theorem at?_of_hosts {d : Document} (hd : d.Hosts (insert parent ∅) F)
    (hF : F parent = pre ++ t :: post) (path : List Nat) :
    d.at? parent (pre.length :: path) = t.at? path := by
  have hmem : parent ∈ insert parent (∅ : Set NodeId) := Set.mem_insert parent ∅
  obtain ⟨m, hm, hchildren⟩ := hd.host parent hmem
  have hchild : m.children[pre.length]? = some t.id := by
    rw [hchildren, hF, List.map_append, List.getElem?_append_right (by simp)]
    simp
  rw [Document.at?_cons hm hchild, (hd.held_of_eq hmem hF).at?_eq]

theorem reuses_of_patched (hp : Patched new old t t') (hnew : new.portals = []) :
    Reuses new old t.at? t'.at? := by
  refine ⟨fun path hk => ?_, fun path hr => ?_⟩
  · obtain ⟨n, o, hn, ho, hkeep⟩ := hk.2
    obtain ⟨u, u', hu, hu', hpu⟩ := exists_patched_at path hp hnew hk.1 hn ho
    refine ⟨u.id, hu, ?_⟩
    rw [hu', id_eq_of_patched hpu hkeep]
  · obtain ⟨n, o, hn, ho, hreplace⟩ := hr.2
    obtain ⟨u, u', hu, hu', hpu⟩ := exists_patched_at path hp hnew hr.1 hn ho
    exact ⟨u.id, u'.id, hu, hu', id_ne_of_patched hpu hreplace⟩

theorem tally_of_accounts (hm : Mirrors old t) (hold : old.portals = [])
    (h : Accounts ms (some new) (some old) (some t)) : Tally new old t.at? ms := by
  have hany : ∀ {P : List Nat → Prop}, (∀ path, P path → (old.at? path).isSome) →
      {path | P path ∧ StandsAt (some t) (fun _ => true) path} = {path | P path} := by
    intro P hP
    refine Set.ext fun path => ⟨fun hpath => hpath.1, fun hpath => ⟨hpath, ?_⟩⟩
    obtain ⟨part, hpart⟩ := Option.isSome_iff_exists.1 (hP path hpath)
    obtain ⟨k, hat⟩ := exists_at?_of_part path hold hm hpart
    exact ⟨k, hat, rfl⟩
  have hone : ∀ (P : List Nat → Prop) k, {path | P path ∧ StandsAt (some t) (· == k) path} =
      {path | P path ∧ t.at? path = some k} := by
    refine fun P k => Set.ext fun path => and_congr_right fun _ => ⟨?_, fun hk => ⟨k, hk, ?_⟩⟩
    · rintro ⟨k', hk', he⟩
      rwa [← beq_iff_eq.1 he]
    · exact beq_self_eq_true k
  have hreplaced : ∀ path, ReplacedAt (some new) (some old) path → (old.at? path).isSome := by
    rintro path ⟨-, _, _, -, hpart, -⟩
    exact Option.isSome_iff_exists.2 ⟨_, hpart⟩
  refine ⟨?_, fun k => ?_, ?_, fun k => ?_, h.created, h.put⟩
  · rw [← hany hreplaced, ← h.replaced, List.countP_true]
  · rw [← hone, ← h.replaced, List.count_eq_countP]
  · rw [← hany fun path hr => hr.2.2, ← h.removed, List.countP_true]
  · rw [← hone, ← h.removed, List.count_eq_countP]

end Before

/-- Bringing an attached live node, which is made like an old description without
portals, in line with a new one never fails. It uses live nodes again at the places
where no live node has to be replaced there or above, and puts others at the places
where one has to be replaced there but not above. A document that keeps a log has
noted down just the replacements, removals and new nodes that this asks for. -/
theorem update_reuses {p : Page} {parent live : NodeId} {i : Nat} {new old : Node}
    (hd : p.document.WellFormed) (hlive : p.document.at? parent [i] = some live)
    (hshows : p.document.ShowsAt old live) (hnew : new.portals = []) (hold : old.portals = []) :
    ∃ p', p.update parent (some live) (some new) (some old) = .ok p' ∧
      Reuses new old (fun path => p.document.at? parent (i :: path))
        (fun path => p'.document.at? parent (i :: path)) ∧
      (p.document.recording = true → ∃ all, p'.document.log = p.document.log ++ all ∧
        Tally new old (fun path => p.document.at? parent (i :: path))
          (all.filter Mutation.isStructural)) := by
  have hmem : parent ∈ insert parent (∅ : Set NodeId) := Set.mem_insert parent ∅
  obtain ⟨F, pre, t, post, hhosts, hF, rfl, rfl⟩ := hd.exists_attached hlive
  have hm := (showsAt_iff_mirrors (hhosts.held_of_eq hmem hF) hold).1 hshows
  obtain ⟨p', t', F', hp', hre, hF', hpatched⟩ := patch_plain hhosts hF hm hnew hold
  obtain ⟨ms, hnotes, haccounts⟩ := patch_accounts new old hhosts hF hm hnew hold hp'
  have hbefore : (fun path => p.document.at? parent (pre.length :: path)) = t.at? :=
    funext (at?_of_hosts hhosts hF)
  have hafter : (fun path => p'.document.at? parent (pre.length :: path)) = t'.at? :=
    funext (at?_of_hosts hre.hosts hF')
  refine ⟨p', hp', ?_, fun hr => ?_⟩
  · rw [hbefore, hafter]
    exact reuses_of_patched hpatched hnew
  · obtain ⟨all, hlog, hall⟩ := hnotes.log hr
    refine ⟨all, hlog, ?_⟩
    rw [hbefore, hall]
    exact tally_of_accounts hm hold haccounts

/-- Calls that make a list with a text, an element and another text. -/
def listing : List TreeCall :=
  [.createElement (.ofTag "ul"), .createText "a", .createElement (.ofTag "b"), .createText "c",
    .createText "d", .append 3 [4], .append 1 [2, 3, 5], .append 0 [1]]

/-- A description of the list. -/
def listed : Node :=
  .element "ul" .empty [.text "a", .element "b" .empty [.text "c"], .text "d"]

/-- A description of a list that keeps the first text only and has another element
behind it. -/
def relisted : Node :=
  .element "ul" .empty [.text "a", .element "p" .empty [.text "c", .text "e"]]

theorem update_reuses_listed :
    ∃ d, (Document.new true).performAll listing = .ok d ∧ d.WellFormed ∧
      d.at? root [0] = some 1 ∧ d.ShowsAt listed 1 ∧ relisted.portals = [] ∧ listed.portals = [] ∧
      ∃ p', Page.update ⟨d, .empty⟩ root (some 1) (some relisted) (some listed) = .ok p' ∧
        Reuses relisted listed (fun path => d.at? root (0 :: path))
          (fun path => p'.document.at? root (0 :: path)) ∧
        (d.recording = true → ∃ all, p'.document.log = d.log ++ all ∧
          Tally relisted listed (fun path => d.at? root (0 :: path))
            (all.filter Mutation.isStructural)) := by
  have hadmits : (Document.new true).AdmitsAll listing :=
    (passes_iff listing (Document.new true)).1 rfl
  obtain ⟨d, hd, hwf⟩ := WellFormed.performAll listing (wellFormed_new true) hadmits 8
  have hplace : d.at? root [0] = some 1 := by
    cases hd
    rfl
  have hshows : d.ShowsAt listed 1 := by
    cases hd
    exact ⟨_, _, rfl, rfl, rfl, ⟨_, rfl, rfl, rfl⟩, ⟨_, _, rfl, rfl, rfl, ⟨_, rfl, rfl, rfl⟩, trivial⟩,
      ⟨_, rfl, rfl, rfl⟩, trivial⟩
  exact ⟨d, hd, hwf, hplace, hshows, rfl, rfl,
    update_reuses (p := ⟨d, .empty⟩) hwf hplace hshows rfl rfl⟩

end Page

end LiveMarkup
