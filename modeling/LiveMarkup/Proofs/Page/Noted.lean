import LiveMarkup.Proofs.Document.Log
import LiveMarkup.Proofs.Node.Portals
import LiveMarkup.Proofs.Page.Shows

/-!
# What pages note down

Setting properties of a live node changes nothing but what it is, and notes down
nothing that counts (`Page.editing_updateProps`). Mounting a description without
portals makes as many nodes as it has live nodes and appends all of them but the one
on top (`Page.growth_build`), and unmounting one leaves its document as it is
(`Page.document_unmount`).
-/

namespace LiveMarkup

open Document Node

/-- Mutations that make some nodes, append some, and take none away. -/
structure Growth (ms : List Mutation) (made put : Nat) : Prop where
  creates : ms.countP Mutation.creates = made
  appends : ms.countP Mutation.appends = put
  replaced : ms.filterMap Mutation.replaced? = []
  removed : ms.filterMap Mutation.removed? = []

namespace Growth

variable {ms ms' : List Mutation} {made made' put put' : Nat}

theorem nil : Growth [] 0 0 :=
  ⟨rfl, rfl, rfl, rfl⟩

theorem append (h : Growth ms made put) (h' : Growth ms' made' put') :
    Growth (ms ++ ms') (made + made') (put + put') := by
  refine ⟨?_, ?_, ?_, ?_⟩
  · rw [List.countP_append, h.creates, h'.creates]
  · rw [List.countP_append, h.appends, h'.appends]
  · rw [List.filterMap_append, h.replaced, h'.replaced, List.append_nil]
  · rw [List.filterMap_append, h.removed, h'.removed, List.append_nil]

theorem createElement (id : NodeId) (name : String) : Growth [.createElement id name] 1 0 :=
  ⟨rfl, rfl, rfl, rfl⟩

theorem createText (id : NodeId) : Growth [.createText id] 1 0 :=
  ⟨rfl, rfl, rfl, rfl⟩

theorem appendChildren (parent : NodeId) (ids : List NodeId) :
    Growth [.appendChildren parent ids] 0 1 :=
  ⟨rfl, rfl, rfl, rfl⟩

end Growth

namespace Page

variable {p : Page} {ms ms' : List Mutation}

/-- A computation that starts from a page notes mutations down, unless it fails. -/
def Noting (p : Page) (r : Except MissingNode Page) (ms : List Mutation) : Prop :=
  ∀ p', r = .ok p' → Notes p.document p'.document ms

theorem exists_of_edit_eq_ok {p' : Page} {f : Document → Except MissingNode Document}
    (h : p.edit f = .ok p') : ∃ d, f p.document = .ok d ∧ p' = { p with document := d } := by
  rw [Page.edit] at h
  cases hd : f p.document with
  | error e =>
      rw [hd] at h
      cases h
  | ok d =>
      rw [hd] at h
      cases h
      exact ⟨d, rfl, rfl⟩

/-- What holds of the document that an operation gives holds of the page's. -/
theorem yields_edit {P : Document → Prop} {f : Document → Except MissingNode Document}
    (h : Except.Yields P (f p.document)) : Except.Yields (fun p' => P p'.document) (p.edit f) := by
  intro p' hp'
  obtain ⟨d, hd, rfl⟩ := exists_of_edit_eq_ok hp'
  exact h d hd

theorem Noting.edit {f : Document → Except MissingNode Document}
    (h : Document.Noting p.document (f p.document) ms) : p.Noting (p.edit f) ms :=
  yields_edit h

/-! ## Properties -/

/-- A computation that starts from a page edits a live node, unless it fails. -/
def Editing (p : Page) (id : NodeId) (r : Except MissingNode Page) : Prop :=
  ∀ p', r = .ok p' → Edited p.document p'.document id

theorem Editing.of_document_eq {p' : Page} {id : NodeId} (h : p'.document = p.document) :
    p.Editing id (.ok p') := by
  rintro _ ⟨⟩
  rw [h]
  exact .refl _ id

theorem Editing.bind {id : NodeId} {r : Except MissingNode Page}
    {f : Page → Except MissingNode Page} (hr : p.Editing id r)
    (hf : ∀ p₁, Page.Editing p₁ id (f p₁)) : p.Editing id (r >>= f) :=
  Except.Yields.bind hr fun p₁ h₁ => Except.Yields.mono (hf p₁) fun _ => h₁.trans

theorem Editing.edit {id : NodeId} {f : Document → Except MissingNode Document}
    (h : Document.Editing p.document id (f p.document)) : p.Editing id (p.edit f) :=
  yields_edit h

theorem editing_setStyleProperties (p : Page) (id : NodeId) (ds : List (String × Value)) :
    p.Editing id (p.setStyleProperties id ds) := by
  induction ds generalizing p with
  | nil => exact .of_document_eq rfl
  | cons d ds ih =>
      have hd : p.Editing id (p.edit (·.setStyleProperty id d.1 (d.2.text?.getD ""))) :=
        .edit (editing_setStyleProperty p.document id d.1 _)
      exact hd.bind ih

theorem editing_setStyle (p : Page) (id : NodeId) (v : Option Value) :
    p.Editing id (p.setStyle id v) := by
  have htext : ∀ css, p.Editing id (p.edit (·.setStyleText id css)) := fun css =>
    .edit (editing_setStyleText p.document id css)
  cases v with
  | none => exact htext ""
  | some v =>
      cases v with
      | str css => exact htext css
      | map ds => exact (htext "").bind fun p₁ => editing_setStyleProperties p₁ id ds.entries
      | _ => exact htext ""

theorem editing_setListener (p : Page) (id : NodeId) (event : String) (new old : Option Value) :
    p.Editing id (p.setListener id event new old) := by
  unfold setListener
  dsimp only
  split
  · refine Editing.bind (.edit (editing_removeListener p.document id event _)) fun p₁ => ?_
    split
    · exact .edit (editing_addListener p₁.document id event _)
    · exact .of_document_eq rfl
  · refine Editing.bind (.of_document_eq rfl) fun p₁ => ?_
    split
    · exact .edit (editing_addListener p₁.document id event _)
    · exact .of_document_eq rfl

theorem editing_setSlot (p : Page) (id : NodeId) (slot : Slot) (new old : Option Value) :
    p.Editing id (p.setSlot id slot new old) := by
  have hattribute : ∀ name s, p.Editing id (p.edit (·.setAttribute id name s)) := fun name s =>
    .edit (Document.editing_setAttribute p.document id name s)
  cases slot with
  | key => exact .of_document_eq rfl
  | ref => exact .of_document_eq (document_setRef p id new old)
  | className => exact hattribute _ _
  | style => exact editing_setStyle p id new
  | field f =>
      have hfield : p.Editing id (p.edit (·.setField id f (.ofValue? new))) :=
        .edit (editing_setField p.document id f _)
      exact hfield
  | listener event => exact editing_setListener p id event new old
  | «attribute» name =>
      unfold Page.setSlot Page.setAttribute
      dsimp only
      cases new.bind Value.text? with
      | none => exact .edit (editing_clearAttribute p.document id _)
      | some s => exact hattribute _ s

theorem editing_setProperties (p : Page) (id : NodeId) (es : List (String × Value)) :
    p.Editing id (p.setProperties id es) := by
  induction es generalizing p with
  | nil => exact .of_document_eq rfl
  | cons e es ih => exact (editing_setSlot p id _ _ _).bind ih

theorem editing_updateNames (p : Page) (id : NodeId) (new old : Props) (names : List String) :
    p.Editing id (p.updateNames id new old names) := by
  induction names generalizing p with
  | nil => exact .of_document_eq rfl
  | cons name names ih =>
      have hname : p.Editing id (p.updateProp id new old name) := by
        unfold updateProp
        split
        · exact .of_document_eq rfl
        · exact editing_setSlot p id _ _ _
      exact hname.bind ih

theorem editing_updateProps (p : Page) (id : NodeId) (new old : Props) :
    p.Editing id (p.updateProps id new old) :=
  editing_updateNames p id new old _

/-! ## Mounting and unmounting -/

mutual

/-- Mounting makes a node for each place and appends all of them but the top one. -/
theorem growth_build : ∀ {n : Node} {p p' : Page} {id : NodeId}, n.portals = [] →
    p.build n = .ok (id, p') →
    ∃ ms put, Notes p.document p'.document ms ∧ Growth ms n.size put ∧ put + 1 = n.size
  | .text s, p, p', id, _, h => by
      cases h
      exact ⟨_, 0, notes_createText p.document s, .createText _, rfl⟩
  | .element tag props cs, p, p', id, hn, h => by
      obtain ⟨p₁, h₁, h⟩ := Except.exists_of_bind_eq_ok h
      obtain ⟨p₂, h₂, h⟩ := Except.exists_of_bind_eq_ok h
      cases h
      obtain ⟨ms, hms, hgrowth⟩ := growth_buildAll hn h₁
      have hnotes := (notes_createElement p.document (.ofTag tag)).trans
        (hms.trans (editing_setProperties p₁ _ props.entries p' h₂).notes)
      rw [List.append_nil] at hnotes
      refine ⟨_, _, hnotes, (Growth.createElement _ _).append hgrowth, ?_⟩
      rw [size, Nat.zero_add, Nat.add_comm]

/-- Mounting descriptions under a parent makes a node for each place and appends all
of them. -/
theorem growth_buildAll : ∀ {ns : List Node} {p p' : Page} {parent : NodeId}, allPortals ns = [] →
    p.buildAll parent ns = .ok p' →
    ∃ ms, Notes p.document p'.document ms ∧ Growth ms (allSize ns) (allSize ns)
  | [], p, p', parent, _, h => by
      cases h
      exact ⟨[], .refl _, .nil⟩
  | n :: ns, p, p', parent, hns, h => by
      obtain ⟨hn, hns⟩ := List.append_eq_nil_iff.1 hns
      obtain ⟨⟨id, p₁⟩, h₁, h⟩ := Except.exists_of_bind_eq_ok h
      obtain ⟨p₂, h₂, h⟩ := Except.exists_of_bind_eq_ok h
      obtain ⟨ms, put, hms, hgrowth, hput⟩ := growth_build hn h₁
      obtain ⟨ms', hms', hgrowth'⟩ := growth_buildAll hns h
      have happend : p₁.Noting (p₁.edit (·.append parent [id])) [.appendChildren parent [id]] :=
        .edit (noting_append p₁.document parent [id])
      refine ⟨_, (hms.trans (happend p₂ h₂)).trans hms', ?_⟩
      have hall := (hgrowth.append (.appendChildren parent [id])).append hgrowth'
      rwa [hput] at hall

end

mutual

/-- Whatever emptying a target of its portals keeps of a document, unmounting a
description keeps. -/
theorem yields_unmount {P : Document → Prop} : ∀ {n : Node} {p : Page} {live : NodeId},
    (∀ k ∈ n.targets, ∀ d : Document, P d → Except.Yields P (d.removeChildren k)) → P p.document →
    Except.Yields (fun p' => P p'.document) (p.unmount live n)
  | .text s, _, _, _, h => .ok h
  | .element tag props cs, p, live, hP, h => by
      refine .look fun lives => yields_unmountAll hP ?_
      split
      · rw [document_release]
        exact h
      · exact h
  | .portal target cs, p, _, hP, h =>
      .look fun _ => (yields_unmountAll (fun k hk => hP k (List.mem_cons_of_mem _ hk)) h).bind
        fun _ h => yields_edit (hP target (List.mem_cons_self ..) _ h)

theorem yields_unmountAll {P : Document → Prop} : ∀ {ns : List Node} {p : Page}
    {lives : List NodeId},
    (∀ k ∈ allTargets ns, ∀ d : Document, P d → Except.Yields P (d.removeChildren k)) →
    P p.document → Except.Yields (fun p' => P p'.document) (p.unmountAll lives ns)
  | [], p, lives, _, h => by
      cases lives <;> exact .ok h
  | n :: ns, p, [], _, h => .ok h
  | n :: ns, p, live :: lives, hP, h => by
      rw [allTargets_cons] at hP
      exact (yields_unmount (fun k hk => hP k (List.mem_append_left _ hk)) h).bind
        fun _ h => yields_unmountAll (fun k hk => hP k (List.mem_append_right _ hk)) h

end

/-- Unmounting what has no portals only concerns refs. -/
theorem document_unmount {n : Node} {p p' : Page} {live : NodeId} (hn : n.portals = [])
    (h : p.unmount live n = .ok p') : p'.document = p.document := by
  have hnone : ∀ k, k ∉ n.targets := fun k hk => by
    rw [targets, hn] at hk
    cases hk
  exact yields_unmount (P := (· = p.document)) (fun k hk => absurd hk (hnone k)) rfl p' h

end Page

end LiveMarkup
