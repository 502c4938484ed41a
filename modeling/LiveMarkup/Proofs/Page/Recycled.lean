import LiveMarkup.Proofs.Page.Bystanders
import LiveMarkup.Proofs.Page.Rooted

/-!
# Parents with a number that was used before

A renderer knows parents by their numbers, and what it remembers for a number outlives
the node. So a new node may take a number for which something is remembered, and then
the first rendering into it is not one that starts afresh: it updates whatever is the
first child of the new node by then.

The first rendering into a parent appends one new node and touches nothing else just
when nothing is remembered for the number, or the parent has no children yet
(`Renderer.startsAfresh_iff`). This holds for any history of calls and renderings.
-/

namespace LiveMarkup

open Document Node

/-! ## What is taken out comes back in no other way -/

namespace Document

/-- A computation makes no node, unless it fails. -/
abbrev Thinning (d : Document) : Except MissingNode Document → Prop :=
  Except.Yields fun d' => ∀ k, d.get? k = none → d'.get? k = none

variable {d : Document}

theorem get?_modify_eq_none {id k : NodeId} {f : LiveNode → LiveNode} (h : d.get? k = none) :
    (d.modify id f).get? k = none := by
  rw [get?_modify, h, Option.map_none, ite_self]

theorem thinning_detach (d : Document) (id : NodeId) : Thinning d (d.detach id) := by
  refine .look fun n => ?_
  cases n.parent with
  | none => exact .ok fun _ h => h
  | some p => exact .look fun _ => .ok fun k h => get?_modify_eq_none (get?_modify_eq_none h)

theorem thinning_remove (d : Document) (id : NodeId) : Thinning d (d.remove id) := by
  have hdrop : Thinning d (d.dropSubtree id) := by
    unfold dropSubtree
    split
    · exact .ok fun _ h => h
    · exact (thinning_detach d id).bind fun d₁ h₁ => .ok fun k h =>
        get?_dropAll_of_none [id] (h₁ k h)
  exact hdrop.bind fun d₁ h₁ => .ok fun k h => (get?_record d₁ _ k).trans (h₁ k h)

theorem thinning_removeAll : ∀ (ids : List NodeId) (d : Document), Thinning d (d.removeAll ids)
  | [], _ => .ok fun _ h => h
  | id :: ids, d => (thinning_remove d id).bind fun d₁ h₁ =>
      (thinning_removeAll ids d₁).mono fun _ h k hk => h k (h₁ k hk)

/-- A node that was removed was live, and is not any more. -/
theorem get?_of_remove {d' : Document} {id : NodeId} (hid : id ≠ root)
    (h : d.remove id = .ok d') : (∃ n, d.get? id = some n) ∧ d'.get? id = none := by
  obtain ⟨d₁, h₁, h⟩ := Except.exists_of_bind_eq_ok h
  rw [dropSubtree, if_neg hid] at h₁
  obtain ⟨d₂, h₂, h₁⟩ := Except.exists_of_bind_eq_ok h₁
  obtain ⟨n, hn, -⟩ := Except.exists_of_bind_eq_ok h₂
  cases h₁
  cases h
  refine ⟨⟨n, (node_eq_ok_iff d id n).1 hn⟩, (get?_record _ _ id).trans ?_⟩
  exact get?_dropAll_of_mem _ _ (List.mem_cons_self ..)

end Document

namespace Page

mutual

/-- Unmounting makes no node. -/
theorem thinning_unmount : ∀ {n : Node} {p p' : Page} {live : NodeId}, p.unmount live n = .ok p' →
    ∀ k, p.document.get? k = none → p'.document.get? k = none
  | .text s, p, p', live, h, k, hk => by
      cases h
      exact hk
  | .element tag props cs, p, p', live, h, k, hk => by
      obtain ⟨lives, -, h⟩ := Except.exists_of_bind_eq_ok h
      apply thinning_unmountAll h
      split
      · rwa [document_release]
      · exact hk
  | .portal target cs, p, p', live, h, k, hk => by
      obtain ⟨lives, -, h⟩ := Except.exists_of_bind_eq_ok h
      obtain ⟨p₁, h₁, h⟩ := Except.exists_of_bind_eq_ok h
      obtain ⟨d, hd, rfl⟩ := exists_of_edit_eq_ok h
      obtain ⟨ids, -, hd⟩ := Except.exists_of_bind_eq_ok hd
      exact thinning_removeAll ids _ d hd k (thinning_unmountAll h₁ k hk)

theorem thinning_unmountAll : ∀ {ns : List Node} {p p' : Page} {lives : List NodeId},
    p.unmountAll lives ns = .ok p' → ∀ k, p.document.get? k = none → p'.document.get? k = none
  | [], p, p', lives, h, k, hk => by
      cases lives <;> cases h <;> exact hk
  | n :: ns, p, p', [], h, k, hk => by
      cases h
      exact hk
  | n :: ns, p, p', live :: lives, h, k, hk => by
      obtain ⟨p₁, h₁, h⟩ := Except.exists_of_bind_eq_ok h
      exact thinning_unmountAll h k (thinning_unmount h₁ k hk)

end

/-- Discarding a child does not leave a page as it is. -/
theorem discard_ne {p p' : Page} {live parent : NodeId} {o : Node} {m : LiveNode}
    (hroot : p.document.Rooted) (hm : p.document.get? parent = some m) (hlive : live ∈ m.children)
    (h : p.discard live o = .ok p') : p' ≠ p := by
  rintro rfl
  have hne : live ≠ root := fun he => hroot.top parent m hm (he ▸ hlive)
  obtain ⟨p₁, h₁, h⟩ := Except.exists_of_bind_eq_ok h
  obtain ⟨d, hd, he⟩ := exists_of_edit_eq_ok h
  obtain ⟨⟨n, hn⟩, hnone⟩ := get?_of_remove hne hd
  have hdoc : p'.document = d := congrArg Page.document he
  rw [← hdoc] at hnone
  have hgone := thinning_unmount h₁ live hnone
  rw [hn] at hgone
  cases hgone

end Page

/-! ## Appending one new node -/

/-- The live nodes made for a description stand behind the children of a parent, and no
other node has changed. -/
structure Appended (p : Page) (parent : NodeId) (n : Node) (t : Subtree) (p' : Page) : Prop where
  built : Subtree.IsBuiltFor n t
  held : t.Held p'.document.get? (some parent)
  fresh : ∀ k ∈ t.ids, p.document.get? k = none
  behind : ∃ m, p.document.get? parent = some m ∧
    p'.document.get? parent = some { m with children := m.children ++ [t.id] }
  same : ∀ k, k ∉ t.ids → k ≠ parent → p'.document.get? k = p.document.get? k

namespace Page

variable {p : Page} {parent : NodeId} {n : Node} {m : LiveNode}

/-- Making a description without portals makes new nodes and changes no other. -/
theorem build_fresh (hroot : ∃ l, p.document.get? root = some l) (hn : n.portals = []) :
    ∃ p' t, p.build n = .ok (t.id, p') ∧ Subtree.IsBuiltFor n t ∧ t.Held p'.document.get? none ∧
      t.ids.Nodup ∧ ∀ k, (k ∈ t.ids → p.document.get? k = none) ∧
        (k ∉ t.ids → p'.document.get? k = p.document.get? k) := by
  have htargets : n.targets = [] := List.map_eq_nil_iff.2 hn
  have hhosts : p.document.Hosts ∅ fun _ => [] := .of_childless hroot fun k hk => hk.elim
  obtain ⟨p', t, F, hp', hs, hbuilt, -⟩ := build_ok n hhosts
    (fun k hk => by rw [htargets] at hk; cases hk) (htargets ▸ List.nodup_nil)
  refine ⟨p', t, hp', hbuilt, hs.held, hs.nodup, fun k => ?_⟩
  have hrest := congrFun hs.rest_eq k
  have hnone : ∀ G : Forest, k ∉ G.inside ∅ := fun G ⟨_, hg, _⟩ => hg
  rw [rest_of_notMem (hnone _) (Set.notMem_empty k)] at hrest
  constructor
  · intro hk
    rw [← hrest, rest_of_mem (Or.inr hk)]
  · intro hk
    rwa [rest_of_notMem (fun h => h.elim (hnone _) hk) (Set.notMem_empty k)] at hrest

/-- Mounting a description without portals under a live parent appends new nodes. -/
theorem mount_appended (hroot : ∃ l, p.document.get? root = some l)
    (hm : p.document.get? parent = some m) (hn : n.portals = []) :
    ∃ t p', p.mount (some n) (some parent) = .ok (t.id, p') ∧ Appended p parent n t p' ∧
      t.ids.Nodup := by
  obtain ⟨p₁, t, hp₁, hbuilt, hheld, hnodup, hids⟩ := build_fresh hroot hn
  have hparent : parent ∉ t.ids := by
    intro hmem
    rw [(hids parent).1 hmem] at hm
    cases hm
  have hm₁ : p₁.document.get? parent = some m := ((hids parent).2 hparent).trans hm
  have hne : parent ≠ t.id := fun he => hparent (he ▸ t.id_mem_ids)
  obtain ⟨d, hd, hget⟩ := append_of_detached hheld.view_id rfl hm₁ hne
  refine ⟨t, { p₁ with document := d }, ?_,
    ⟨hbuilt, ?_, fun k => (hids k).1, ⟨m, hm, ?_⟩, fun k hk hkp => ?_⟩, hnodup⟩
  · rw [mount, hp₁, Except.ok_bind]
    dsimp only
    rw [edit_ok hd]
    rfl
  · cases t with
    | node i data cs =>
        refine hheld.replace_top (List.nodup_cons.1 hnodup).1 ((hget i).trans (if_pos rfl)) ?_
        intro k hki hk
        have hkp : k ≠ parent := fun he => hparent (he ▸ List.mem_cons_of_mem _ hk)
        exact (hget k).trans ((if_neg hki).trans (if_neg hkp))
  · exact (hget parent).trans ((if_neg hne).trans (if_pos rfl))
  · have hkt : k ≠ t.id := fun he => hk (he ▸ t.id_mem_ids)
    exact ((hget k).trans ((if_neg hkt).trans (if_neg hkp))).trans ((hids k).2 hk)

end Page

namespace Renderer

/-! ## The first rendering -/

/-- Rendering into a parent starts afresh: nothing shown changes nothing, and a
description without portals is appended as one new node, which is given. -/
structure StartsAfresh (r : Renderer) (p : Page) (parent : NodeId) : Prop where
  nothing : ∃ r', r.render p none (some parent) = .ok (none, r', p)
  mounts : ∀ n : Node, n.portals = [] →
    ∃ t r' p', r.render p (some n) (some parent) = .ok (some t.id, r', p') ∧
      Appended p parent n t p'

variable {r : Renderer} {p : Page} {parent : NodeId}

theorem startsAfresh_of_forgotten (hroot : p.document.Rooted) (hparent : p.document.Live parent)
    (hr : r.rendered? parent = none) : StartsAfresh r p parent := by
  refine ⟨⟨_, render_none hr⟩, fun n hn => ?_⟩
  obtain ⟨m, hm⟩ := live_iff.1 hparent
  obtain ⟨t, p', hp', happended, -⟩ := Page.mount_appended hroot.live hm hn
  refine ⟨t, r.remember parent (some n), p', ?_, happended⟩
  rw [render, showIn, hr]
  dsimp only
  rw [hp']
  rfl

/-- Without a child to update the description is mounted. -/
theorem startsAfresh_of_childless (hroot : p.document.Rooted) (hparent : p.document.Live parent)
    (hnil : p.document.childrenOf parent = []) : StartsAfresh r p parent := by
  cases hr : r.rendered? parent with
  | none => exact startsAfresh_of_forgotten hroot hparent hr
  | some old =>
      obtain ⟨m, hm⟩ := live_iff.1 hparent
      have hchildren : p.document.children parent = .ok [] := by
        rw [children_of_get? hm, ← childrenOf_of_get? hm, hnil]
      constructor
      · refine ⟨r.forget parent, ?_⟩
        rw [render, showIn.eq_def, hr]
        dsimp only
        rw [hchildren]
        rfl
      · intro n hn
        obtain ⟨t, p', hp', happended, -⟩ := Page.mount_appended hroot.live hm hn
        refine ⟨t, r.remember parent (some n), p', ?_, happended⟩
        obtain ⟨m', hm', hafter⟩ := happended.behind
        rw [hm] at hm'
        cases hm'
        rw [childrenOf_of_get? hm] at hnil
        rw [hnil, List.nil_append] at hafter
        have hupdate : p.update parent none (some n) (some old) = .ok p' := by
          rw [Page.update.eq_def]
          dsimp only
          rw [hp']
          rfl
        rw [render, showIn.eq_def, hr]
        dsimp only
        rw [hchildren, Except.ok_bind, List.head?_nil, hupdate, Except.ok_bind,
          children_of_get? hafter]
        rfl

/-- A rendering of nothing that changes nothing removed no child. -/
theorem childless_of_startsAfresh (hroot : p.document.Rooted) (h : StartsAfresh r p parent)
    (hparent : p.document.Live parent) {old : Node} (hr : r.rendered? parent = some old) :
    p.document.childrenOf parent = [] := by
  obtain ⟨m, hm⟩ := live_iff.1 hparent
  rw [childrenOf_of_get? hm]
  cases hchildren : m.children with
  | nil => rfl
  | cons x xs =>
      obtain ⟨r', hnothing⟩ := h.nothing
      rw [render, showIn.eq_def, hr] at hnothing
      dsimp only at hnothing
      rw [children_of_get? hm, Except.ok_bind, hchildren, List.head?_cons] at hnothing
      cases hdiscard : p.discard x old with
      | error e =>
          have hupdate : p.update parent (some x) none (some old) = .error e := hdiscard
          rw [hupdate] at hnothing
          cases hnothing
      | ok p' =>
          have hupdate : p.update parent (some x) none (some old) = .ok p' := hdiscard
          rw [hupdate] at hnothing
          cases hnothing
          -- Discarding a child takes it out, so the page is not the same.
          have hx : x ∈ m.children := hchildren ▸ List.mem_cons_self ..
          exact absurd rfl (Page.discard_ne hroot hm hx hdiscard)

/-- The first rendering into a live node of a rooted document starts afresh just when
nothing is remembered for its number or it has no children. -/
theorem startsAfresh_iff_rendered? (hroot : p.document.Rooted) (hparent : p.document.Live parent) :
    StartsAfresh r p parent ↔ r.rendered? parent = none ∨ p.document.childrenOf parent = [] := by
  constructor
  · intro h
    cases hr : r.rendered? parent with
    | none => exact Or.inl rfl
    | some old => exact Or.inr (childless_of_startsAfresh hroot h hparent hr)
  · intro h
    rcases h with hr | hnil
    · exact startsAfresh_of_forgotten hroot hparent hr
    · exact startsAfresh_of_childless hroot hparent hnil

/-! ## Histories -/

/-- Something done to a page, some of it through a renderer. -/
inductive Act where
  | call (c : TreeCall)
  | render (n : Option Node) (parent : Option NodeId)

/-- The renderer and the page after an act. -/
def act (r : Renderer) (p : Page) : Act → Except MissingNode (Renderer × Page)
  | .call c => (p.edit (·.perform c)).map (r, ·)
  | .render n parent => (r.render p n parent).map (·.2)

/-- The renderer and the page after acts in order. -/
def actAll (r : Renderer) (p : Page) : List Act → Except MissingNode (Renderer × Page)
  | [] => .ok (r, p)
  | a :: as => do
    let (r, p) ← r.act p a
    r.actAll p as

/-- What an act leaves as last rendered into a number. -/
def Act.leaves (k : NodeId) (o : Option Node) : Act → Option Node
  | .render n (some parent) => if parent = k then n else o
  | _ => o

/-- What was last rendered into a number by acts in order. -/
def lastInto (k : NodeId) (as : List Act) : Option Node :=
  as.foldl (Act.leaves k) none

/-- An act does not insert the document node. -/
def Act.SparesRoot : Act → Prop
  | .call c => root ∉ c.inserted
  | .render _ _ => True

variable {r' : Renderer} {p' : Page} {k : NodeId} {a : Act} {as : List Act}

theorem Act.leaves_of_ne {n : Option Node} {q : Option NodeId} (h : q ≠ some k) (o : Option Node) :
    Act.leaves k o (.render n q) = o := by
  cases q with
  | none => rfl
  | some q => exact if_neg fun he => h (congrArg some he)

/-- Acts that render nothing into a number leave what was rendered into it. -/
theorem foldl_leaves (h : ∀ n, Act.render n (some k) ∉ as) (o : Option Node) :
    as.foldl (Act.leaves k) o = o := by
  induction as with
  | nil => rfl
  | cons a as ih =>
      have ha : Act.leaves k o a = o := by
        cases a with
        | call c => rfl
        | render n q =>
            apply Act.leaves_of_ne
            rintro rfl
            exact h n (List.mem_cons_self ..)
      rw [List.foldl_cons, ha]
      exact ih fun n hn => h n (List.mem_cons_of_mem _ hn)

theorem rendered?_remember (hr : r.slots.Distinct) (n : Option Node) :
    (r.remember parent n).slots.Distinct ∧
      (r.remember parent n).rendered? k = if parent = k then n else r.rendered? k := by
  cases n with
  | none => exact ⟨hr.erase parent, hr.get?_erase parent k⟩
  | some n => exact ⟨hr.insert parent n, r.slots.get?_insert parent k n⟩

/-- After an act the renderer remembers what the act leaves. -/
theorem rendered?_act (hr : r.slots.Distinct) (h : r.act p a = .ok (r', p')) (k : NodeId) :
    r'.slots.Distinct ∧ r'.rendered? k = a.leaves k (r.rendered? k) := by
  cases a with
  | call c =>
      obtain ⟨q, -, he⟩ := Except.exists_of_map_eq_ok h
      cases he
      exact ⟨hr, rfl⟩
  | render n parent =>
      obtain ⟨⟨live, r₁, p₁⟩, hn, he⟩ := Except.exists_of_map_eq_ok h
      cases he
      cases parent with
      | none =>
          obtain ⟨m, -, he⟩ := Except.exists_of_map_eq_ok hn
          cases he
          exact ⟨hr, rfl⟩
      | some parent =>
          obtain ⟨m, -, he⟩ := Except.exists_of_map_eq_ok hn
          cases he
          exact rendered?_remember hr n

theorem rooted_act (hp : p.document.Rooted) (ha : a.SparesRoot) (h : r.act p a = .ok (r', p')) :
    p'.document.Rooted := by
  cases a with
  | call c =>
      obtain ⟨q, hq, he⟩ := Except.exists_of_map_eq_ok h
      cases he
      exact Page.yields_edit (rooting_perform hp ha) _ hq
  | render n parent =>
      obtain ⟨⟨live, r₁, p₁⟩, hn, he⟩ := Except.exists_of_map_eq_ok h
      cases he
      exact rooted_render hp hn

/-- Along a history the document stays rooted and the renderer remembers what was last
rendered into each number. -/
theorem of_actAll : ∀ {as : List Act} {r : Renderer} {p : Page}, p.document.Rooted →
    r.slots.Distinct → (∀ a ∈ as, a.SparesRoot) → r.actAll p as = .ok (r', p') → ∀ k,
    p'.document.Rooted ∧ r'.rendered? k = as.foldl (Act.leaves k) (r.rendered? k)
  | [], r, p, hp, _, _, h, k => by
      cases h
      exact ⟨hp, rfl⟩
  | a :: as, r, p, hp, hr, has, h, k => by
      obtain ⟨⟨r₁, p₁⟩, h₁, h⟩ := Except.exists_of_bind_eq_ok h
      obtain ⟨hdistinct, hleaves⟩ := rendered?_act hr h₁ k
      have hroot := rooted_act hp (has a (List.mem_cons_self ..)) h₁
      have hrest := of_actAll hroot hdistinct (fun b hb => has b (List.mem_cons_of_mem _ hb)) h k
      rwa [hleaves] at hrest

/-- Into a live node that nothing was rendered into lately, rendering starts afresh just
when nothing was rendered into its number earlier, when that may have been another
node, or rendering nothing came last, or the node has no children. -/
theorem startsAfresh_iff (recording : Bool) {earlier later : List Act}
    (hacts : ∀ a ∈ earlier ++ later, a.SparesRoot)
    (hrun : actAll {} ⟨.new recording, .empty⟩ (earlier ++ later) = .ok (r, p))
    (hlater : ∀ n, Act.render n (some parent) ∉ later) (hparent : p.document.Live parent) :
    StartsAfresh r p parent ↔
      lastInto parent earlier = none ∨ p.document.childrenOf parent = [] := by
  obtain ⟨hroot, hlast⟩ := of_actAll (rooted_new recording) OrderedMap.distinct_empty hacts hrun
    parent
  rw [List.foldl_append, foldl_leaves hlater] at hlast
  rw [startsAfresh_iff_rendered? hroot hparent, hlast]
  rfl

/-- An element is made, rendered into and removed. -/
def former : List Act :=
  [.call (.createElement (.ofTag "main")), .call (.append root [1]),
    .render (some (.text "a")) (some 1), .call (.remove 1)]

/-- Another element is made under the same number. -/
def recycled : List Act :=
  [.call (.createText "x"), .call (.createElement (.ofTag "nav")), .call (.append root [1])]

/-- A text is put into it. -/
def furnished : List Act :=
  recycled ++ [.call (.append 1 [2])]

theorem sparesRoot_furnished : ∀ a ∈ former ++ furnished, a.SparesRoot := by
  simp [former, furnished, recycled, Act.SparesRoot, TreeCall.inserted, root]

theorem not_render_furnished (n : Option Node) : Act.render n (some 1) ∉ furnished := by
  simp [furnished, recycled]

/-- What is rendered into the empty element under the number that was used before is
its only child. -/
theorem startsAfresh_iff_recycled :
    ∃ r p, actAll {} ⟨.new true, .empty⟩ (former ++ recycled) = .ok (r, p) ∧
      lastInto 1 former = some (.text "a") ∧ p.document.Live 1 ∧ StartsAfresh r p 1 := by
  obtain ⟨⟨r, p⟩, hrun, hseen⟩ := Except.exists_of_any
    (x := actAll {} ⟨.new true, .empty⟩ (former ++ recycled))
    (f := fun s => decide (s.2.document.Live 1 ∧ s.2.document.childrenOf 1 = [])) (by decide +kernel)
  obtain ⟨hlive, hnil⟩ := of_decide_eq_true hseen
  refine ⟨r, p, hrun, rfl, hlive, ?_⟩
  refine (startsAfresh_iff true (fun a ha => sparesRoot_furnished a ?_) hrun (fun n hn =>
    not_render_furnished n (List.mem_append_left _ hn)) hlive).2 (Or.inr hnil)
  rw [furnished, ← List.append_assoc]
  exact List.mem_append_left _ ha

/-- Into the element with the text nothing was rendered since it was made, yet its
number was rendered into before: the first rendering puts its node in the place of the
text. -/
theorem not_startsAfresh_furnished :
    ∃ s r p, actAll {} ⟨.new true, .empty⟩ former = .ok s ∧ ¬s.2.document.Live 1 ∧
      actAll {} ⟨.new true, .empty⟩ (former ++ furnished) = .ok (r, p) ∧ p.document.Live 1 ∧
      (∀ n, Act.render n (some 1) ∉ furnished) ∧ p.document.childrenOf 1 = [2] ∧
      (∃ m, r.render p (some (.text "b")) (some 1) = .ok m ∧ m.1 = some 3 ∧
        m.2.2.document.childrenOf 1 = [3]) ∧
      ¬StartsAfresh r p 1 := by
  obtain ⟨s, hformer, hgone⟩ := Except.exists_of_any (x := actAll {} ⟨.new true, .empty⟩ former)
    (f := fun s => decide (¬s.2.document.Live 1)) (by decide +kernel)
  obtain ⟨⟨r, p⟩, hrun, hseen⟩ := Except.exists_of_any
    (x := actAll {} ⟨.new true, .empty⟩ (former ++ furnished))
    (f := fun s : Renderer × Page => decide (s.2.document.Live 1 ∧ s.2.document.childrenOf 1 = [2] ∧
        (s.1.rendered? 1).isSome = true) &&
      (s.1.render s.2 (some (.text "b")) (some 1)).toOption.any
        fun m : Option NodeId × Renderer × Page => decide (m.1 = some 3 ∧ m.2.2.document.childrenOf 1 = [3])) (by decide +kernel)
  obtain ⟨hbefore, hrendered⟩ := Bool.and_eq_true_iff.1 hseen
  obtain ⟨hlive, hchildren, hlast⟩ := of_decide_eq_true hbefore
  obtain ⟨old, hold⟩ := Option.isSome_iff_exists.1 hlast
  obtain ⟨m, hm, hafter⟩ := Except.exists_of_any hrendered
  refine ⟨s, r, p, hformer, of_decide_eq_true hgone, hrun, hlive, not_render_furnished, hchildren,
    ⟨m, hm, of_decide_eq_true hafter⟩, fun h => ?_⟩
  have hroot := (of_actAll (rooted_new true) OrderedMap.distinct_empty sparesRoot_furnished hrun
    1).1
  have hnil := childless_of_startsAfresh hroot h hlive hold
  rw [hchildren] at hnil
  cases hnil

end Renderer

end LiveMarkup
