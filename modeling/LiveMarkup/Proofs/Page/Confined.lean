import LiveMarkup.Proofs.Page.Noted
import LiveMarkup.Proofs.Page.Patch

/-!
# Updates stay in their place

An update may be given a live node that was not made for the old description. As
long as no portals are described it still changes nothing but that live node and what
stands below it, if it does not fail: the live node is replaced where the descriptions
ask for it, and stays where it is otherwise (`Page.patch_confined`).

Below such a node live children and old descriptions need not match. All that is
needed of the live children is that they stand under their parent in order.
-/

namespace LiveMarkup

open Document Subtree Node

/-- The first of some children of a node stands among its subtrees, in front of the
others. -/
theorem Subtree.exists_split_of_sublist {l : NodeId} {ls : List NodeId} {ts : List Subtree}
    (h : (l :: ls).Sublist (ts.map Subtree.id)) :
    ∃ pre t post, ts = pre ++ t :: post ∧ t.id = l ∧ ls.Sublist (post.map Subtree.id) := by
  induction ts with
  | nil => cases h
  | cons t ts ih =>
      rcases List.sublist_cons_iff.1 h with h | ⟨ls', he, h⟩
      · obtain ⟨pre, u, post, rfl, hu, hls⟩ := ih h
        exact ⟨t :: pre, u, post, rfl, hu, hls⟩
      · cases he
        exact ⟨[], t, ts, rfl, rfl, h⟩

namespace Page

/-- An update of any live subtree under a host, if it does not fail, changes that
subtree and nothing else. -/
def Confined (new old : Node) : Prop :=
  ∀ ⦃p p' : Page⦄ ⦃h : NodeId⦄ ⦃F : Forest⦄ ⦃pre post : List Subtree⦄ ⦃t : Subtree⦄,
    p.document.Hosts (insert h ∅) F → F h = pre ++ t :: post → new.portals = [] →
    old.portals = [] → p.patch t.id new old = .ok p' →
    ∃ t' F', Reforested (insert h ∅) p.document F p'.document F' ∧ F' h = pre ++ t' :: post ∧
      (t'.id = t.id ↔ new.mustReplace old = false)

/-- An update of some of the live subtrees under a host, if it does not fail, changes
nothing that does not stand under the host. -/
def AllConfined (new old : List Node) : Prop :=
  ∀ ⦃p p' : Page⦄ ⦃h : NodeId⦄ ⦃F : Forest⦄ ⦃lives : List NodeId⦄,
    p.document.Hosts (insert h ∅) F → lives.Sublist ((F h).map Subtree.id) →
    allPortals new = [] → allPortals old = [] → p.patchAll h lives new old = .ok p' →
    ∃ F', Reforested (insert h ∅) p.document F p'.document F'

section Place

variable {p p' : Page} {h : NodeId} {F : Forest} {pre post : List Subtree} {t : Subtree}
  {new old : Node}

theorem discard_confined (hd : p.document.Hosts (insert h ∅) F) (hF : F h = pre ++ t :: post)
    (hold : old.portals = []) (hp' : p.discard t.id old = .ok p') :
    ∃ F', Reforested (insert h ∅) p.document F p'.document F' ∧ F' h = pre ++ post := by
  obtain ⟨p₁, h₁, hp'⟩ := Except.exists_of_bind_eq_ok hp'
  have hdoc := document_unmount hold h₁
  obtain ⟨d₂, hd₂, hr₂⟩ := hd.remove (Set.mem_insert h ∅) hF
  rw [← hdoc] at hd₂
  rw [edit_ok hd₂] at hp'
  cases hp'
  exact ⟨_, hr₂, Forest.set_self ..⟩

theorem confined_of_mustReplace (hkeep : new.mustReplace old = true) : Confined new old := by
  intro p p' h F pre post t hd hF hnew hold hp'
  rw [patch.eq_def, if_pos hkeep] at hp'
  obtain ⟨p₁, h₁, hp'⟩ := Except.exists_of_bind_eq_ok hp'
  have hdoc := document_unmount hold h₁
  have htargets : new.targets = [] := List.map_eq_nil_iff.2 hnew
  rw [← hdoc] at hd
  obtain ⟨p₂, t', F₂, hp₂, hr₂, hne, -⟩ := build_replace_ok hd (Set.notMem_empty h) hF
    (fun k hk => by rw [htargets] at hk; cases hk) (htargets ▸ List.nodup_nil)
  cases Except.ok.inj (hp₂.symm.trans hp')
  rw [hdoc] at hr₂
  refine ⟨t', _, hr₂, Forest.set_self .., iff_of_false hne ?_⟩
  rw [hkeep]
  exact Bool.noConfusion

theorem confined_text (s : String) : Confined (.text s) (.text s) := by
  intro p p' h F pre post t hd hF _ _ hp'
  have hkeep : (Node.text s).mustReplace (.text s) = false := by simp [mustReplace]
  rw [patch.eq_def, if_neg (Bool.eq_false_iff.1 hkeep)] at hp'
  cases hp'
  exact ⟨t, F, .refl hd, hF, iff_of_true rfl hkeep⟩

/-- An element that is kept gets its properties, and what is left to do is done to its
children. -/
theorem exists_patchAll_of_patch {tag : String} {props props' : Props} {cs ds : List Node}
    {id : NodeId} {data : NodeData} {us : List Subtree}
    (hkeep : (Node.element tag props cs).mustReplace (.element tag props' ds) = false)
    (hd : p.document.Hosts (insert h ∅) F) (hF : F h = pre ++ .node id data us :: post)
    (hp' : p.patch id (.element tag props cs) (.element tag props' ds) = .ok p') :
    ∃ p₁ data', p.updateProps id props props' = .ok p₁ ∧
      Reforested (insert h ∅) p.document F p₁.document
        (F.set h (pre ++ .node id data' us :: post)) ∧
      p₁.patchAll id (us.map Subtree.id) cs ds = .ok p' := by
  have hmem : h ∈ insert h (∅ : Set NodeId) := Set.mem_insert h ∅
  rw [patch, if_neg (Bool.eq_false_iff.1 hkeep)] at hp'
  obtain ⟨p₁, h₁, hp'⟩ := Except.exists_of_bind_eq_ok hp'
  obtain ⟨lives, hlives, hp'⟩ := Except.exists_of_bind_eq_ok hp'
  obtain ⟨data', hlabel⟩ := (editing_updateProps p id props props' p₁ h₁).relabeled
  have hre₁ := hd.relabel hmem hF hlabel
  have hF₁ := Forest.set_self F h (pre ++ .node id data' us :: post)
  have hchildren : p₁.document.children id = .ok (us.map Subtree.id) :=
    children_of_get? (hre₁.hosts.held_of_eq hmem hF₁).1
  obtain rfl : lives = us.map Subtree.id := Except.ok.inj (hlives.symm.trans hchildren)
  exact ⟨p₁, data', h₁, hre₁, hp'⟩

/-- What is done to the children of a live node stays below it. -/
theorem confined_element {tag : String} {props props' : Props} {cs ds : List Node}
    (hkeep : (Node.element tag props cs).mustReplace (.element tag props' ds) = false)
    (hcs : AllConfined cs ds) :
    Confined (.element tag props cs) (.element tag props' ds) := by
  intro p p' h F pre post t hd hF hnew hold hp'
  obtain ⟨id, data, us⟩ := t
  obtain ⟨p₁, data', -, hre₁, hall⟩ := exists_patchAll_of_patch hkeep hd hF hp'
  have hF₁ := Forest.set_self F h (pre ++ .node id data' us :: post)
  have hbelow := hre₁.hosts.below (Set.notMem_empty h) hF₁
  obtain ⟨F₂, hre₂⟩ := hcs hbelow (by rw [Forest.set_self]) hnew hold hall
  exact ⟨_, _, hre₁.trans (hre₂.above hre₁.hosts (Set.notMem_empty h) hF₁), Forest.set_self ..,
    iff_of_true rfl hkeep⟩

end Place

/-! ## Child by child -/

theorem discardAll_confined : ∀ {os : List Node} {p p' : Page} {h : NodeId} {F : Forest}
    {lives : List NodeId}, p.document.Hosts (insert h ∅) F →
    lives.Sublist ((F h).map Subtree.id) → allPortals os = [] → p.discardAll lives os = .ok p' →
    ∃ F', Reforested (insert h ∅) p.document F p'.document F'
  | [], p, p', h, F, lives, hd, _, _, hp' => by
      rw [discardAll] at hp'
      cases hp'
      exact ⟨F, .refl hd⟩
  | o :: os, p, p', h, F, [], hd, _, _, hp' => by
      cases hp'
      exact ⟨F, .refl hd⟩
  | o :: os, p, p', h, F, live :: lives, hd, hlives, hold, hp' => by
      obtain ⟨ho, hos⟩ := List.append_eq_nil_iff.1 hold
      obtain ⟨pre, t, post, hF, rfl, hpost⟩ := exists_split_of_sublist hlives
      obtain ⟨p₁, h₁, hp'⟩ := Except.exists_of_bind_eq_ok hp'
      obtain ⟨F₁, hre₁, hF₁⟩ := discard_confined hd hF ho h₁
      have hlives₁ : lives.Sublist ((F₁ h).map Subtree.id) := by
        rw [hF₁, List.map_append]
        exact hpost.trans (List.sublist_append_right _ _)
      obtain ⟨F₂, hre₂⟩ := discardAll_confined hre₁.hosts hlives₁ hos hp'
      exact ⟨F₂, hre₁.trans hre₂⟩

theorem allConfined_nil (os : List Node) : AllConfined [] os := by
  intro p p' h F lives hd hlives _ hold hp'
  rw [patchAll] at hp'
  exact discardAll_confined hd hlives hold hp'

/-- Where a live child or an old description is missing the new one is mounted behind
all children. -/
theorem AllConfined.mount {n : Node} {ns os : List Node} (hns : AllConfined ns os) {p p' : Page}
    {h : NodeId} {F : Forest} {lives : List NodeId} (hd : p.document.Hosts (insert h ∅) F)
    (hlives : lives.Sublist ((F h).map Subtree.id)) (hnew : allPortals (n :: ns) = [])
    (hold : allPortals os = [])
    (hp' : (p.mount (some n) (some h) >>= fun r => r.2.patchAll h lives ns os) = .ok p') :
    ∃ F', Reforested (insert h ∅) p.document F p'.document F' := by
  obtain ⟨hn, hns'⟩ := List.append_eq_nil_iff.1 hnew
  obtain ⟨p₁, t, F₁, hp₁, hre₁, hF₁, -⟩ := mount_plain hd hn
  rw [hp₁, Except.ok_bind] at hp'
  have hlives₁ : lives.Sublist ((F₁ h).map Subtree.id) := by
    rw [hF₁, List.map_append]
    exact hlives.trans (List.sublist_append_left _ _)
  obtain ⟨F₂, hre₂⟩ := hns hre₁.hosts hlives₁ hns' hold hp'
  exact ⟨F₂, hre₁.trans hre₂⟩

theorem AllConfined.cons {n o : Node} {ns os : List Node} (hn : Confined n o)
    (hns : AllConfined ns os) : AllConfined (n :: ns) (o :: os) := by
  intro p p' h F lives hd hlives hnew hold hp'
  obtain ⟨hn', hns'⟩ := List.append_eq_nil_iff.1 hnew
  obtain ⟨ho, hos⟩ := List.append_eq_nil_iff.1 hold
  cases lives with
  | nil => exact hns.mount hd hlives hnew hos hp'
  | cons live lives =>
      obtain ⟨pre, t, post, hF, rfl, hpost⟩ := exists_split_of_sublist hlives
      obtain ⟨p₁, h₁, hp'⟩ := Except.exists_of_bind_eq_ok hp'
      obtain ⟨t', F₁, hre₁, hF₁, -⟩ := hn hd hF hn' ho h₁
      have hlives₁ : lives.Sublist ((F₁ h).map Subtree.id) := by
        rw [hF₁, List.map_append, List.map_cons]
        exact (hpost.trans (List.sublist_cons_self _ _)).trans (List.sublist_append_right _ _)
      obtain ⟨F₂, hre₂⟩ := hns hre₁.hosts hlives₁ hns' hos hp'
      exact ⟨F₂, hre₁.trans hre₂⟩

theorem AllConfined.more (n : Node) {ns : List Node} (hns : AllConfined ns []) :
    AllConfined (n :: ns) [] := by
  intro p p' h F lives hd hlives hnew hold hp'
  have htail : lives.tail.Sublist ((F h).map Subtree.id) := (List.tail_sublist lives).trans hlives
  rw [patchAll.eq_def] at hp'
  cases lives <;> exact hns.mount hd htail hnew hold hp'

theorem compares_confined : Compares Confined AllConfined where
  replaced := confined_of_mustReplace
  text := confined_text
  element := confined_element
  portal _ _ _ _ _ _ _ _ _ _ hnew := by cases hnew
  nil := allConfined_nil
  cons := .cons
  more := .more

/-- An update of any live subtree stays in its place. -/
theorem patch_confined (new old : Node) : Confined new old :=
  compares_confined.one new old

end Page

end LiveMarkup
