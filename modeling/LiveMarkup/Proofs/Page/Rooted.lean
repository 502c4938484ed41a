import LiveMarkup.Page.Render
import LiveMarkup.Proofs.Document.Rooted
import LiveMarkup.Proofs.Page.Noted

/-!
# Rendering leaves the document node on top

A page only ever inserts nodes that it has just made, and a new node never has the
number of the document node as long as that is live. So whatever is rendered, with
portals to any number and into a tree in any state, the document stays rooted
(`Renderer.rooted_render`).
-/

namespace LiveMarkup

open Document hiding Rooting

namespace Page

/-- Whatever page a computation gives has a rooted document. -/
abbrev Rooting : Except MissingNode Page → Prop :=
  Except.Yields fun p => p.document.Rooted

variable {p : Page} {n o : Node} {ns os : List Node}

theorem Editing.rooting {id : NodeId} {r : Except MissingNode Page} (he : p.Editing id r)
    (h : p.document.Rooted) : Rooting r :=
  fun p' hp' => h.edited (he p' hp')

/-! ## Mounting -/

/-- A node that is not the document node may be appended. -/
theorem rooting_plant {id : NodeId} (h : p.document.Rooted ∧ id ≠ root) (parent : NodeId) :
    Rooting (p.edit (·.append parent [id])) :=
  yields_edit (rooting_append h.1 (by simpa using h.2.symm) parent)

mutual

/-- The node that is made is not the document node. -/
theorem rooted_build : ∀ {n : Node} {p p' : Page} {id : NodeId}, p.document.Rooted →
    p.build n = .ok (id, p') → p'.document.Rooted ∧ id ≠ root
  | .text s, p, p', id, h, hp' => by
      cases hp'
      exact (h.create _).imp_left (·.record _)
  | .portal target cs, p, p', id, h, hp' => by
      obtain ⟨p₁, h₁, hp'⟩ := Except.exists_of_bind_eq_ok hp'
      cases hp'
      exact ((rooting_buildAll h p₁ h₁).create _).imp_left (·.record _)
  | .element tag props cs, p, p', id, h, hp' => by
      obtain ⟨p₁, h₁, hp'⟩ := Except.exists_of_bind_eq_ok hp'
      obtain ⟨p₂, h₂, hp'⟩ := Except.exists_of_bind_eq_ok hp'
      cases hp'
      have hmade := h.create (.element { name := .ofTag tag })
      have hchildren := rooting_buildAll (hmade.1.record _) p₁ h₁
      exact ⟨(editing_setProperties p₁ _ props.entries).rooting hchildren _ h₂, hmade.2⟩

theorem rooting_buildAll : ∀ {ns : List Node} {p : Page} {parent : NodeId}, p.document.Rooted →
    Rooting (p.buildAll parent ns)
  | [], _, _, h => .ok h
  | n :: ns, p, parent, h => by
      intro p' hp'
      obtain ⟨⟨id, p₁⟩, h₁, hp'⟩ := Except.exists_of_bind_eq_ok hp'
      obtain ⟨p₂, h₂, hp'⟩ := Except.exists_of_bind_eq_ok hp'
      exact rooting_buildAll (rooting_plant (rooted_build h h₁) parent p₂ h₂) p' hp'

end

theorem rooted_mount {m : Option Node} {parent : Option NodeId} {id : NodeId} {p' : Page}
    (h : p.document.Rooted) (hp' : p.mount m parent = .ok (id, p')) : p'.document.Rooted := by
  have htext : (p.make (·.createText "")).2.document.Rooted ∧ (p.make (·.createText "")).1 ≠ root :=
    (h.create _).imp_left (·.record _)
  cases parent with
  | none =>
      cases m with
      | none =>
          cases hp'
          exact htext.1
      | some n =>
          obtain ⟨⟨k, p₁⟩, h₁, hp'⟩ := Except.exists_of_bind_eq_ok hp'
          cases hp'
          exact (rooted_build h h₁).1
  | some parent =>
      cases m with
      | none =>
          obtain ⟨q, h₁, hp'⟩ := Except.exists_of_bind_eq_ok hp'
          cases h₁
          obtain ⟨p₂, h₂, hp'⟩ := Except.exists_of_bind_eq_ok hp'
          cases hp'
          exact rooting_plant htext parent p' h₂
      | some n =>
          obtain ⟨⟨k, p₁⟩, h₁, hp'⟩ := Except.exists_of_bind_eq_ok hp'
          obtain ⟨p₂, h₂, hp'⟩ := Except.exists_of_bind_eq_ok hp'
          cases hp'
          exact rooting_plant (rooted_build h h₁) parent p' h₂

/-! ## Unmounting -/

theorem rooting_unmount (h : p.document.Rooted) (live : NodeId) (n : Node) :
    Rooting (p.unmount live n) :=
  yields_unmount (fun k _ _ h => rooting_removeChildren h k) h

theorem rooting_discard (h : p.document.Rooted) (live : NodeId) (o : Node) :
    Rooting (p.discard live o) :=
  (rooting_unmount h live o).bind fun _ h => yields_edit (rooting_remove h live)

theorem rooting_discardAll : ∀ {os : List Node} {p : Page} {lives : List NodeId},
    p.document.Rooted → Rooting (p.discardAll lives os)
  | [], p, lives, h => by
      cases lives <;> exact .ok h
  | o :: os, p, [], h => .ok h
  | o :: os, p, live :: lives, h =>
      (rooting_discard h live o).bind fun _ h => rooting_discardAll h

theorem rooting_exchange (h : p.document.Rooted) (live : NodeId) (n o : Node) :
    Rooting (p.exchange live n o) := by
  refine (rooting_unmount h live o).bind fun p₁ h₁ p' hp' => ?_
  obtain ⟨⟨id, p₂⟩, h₂, hp'⟩ := Except.exists_of_bind_eq_ok hp'
  obtain ⟨hroot, hid⟩ := rooted_build h₁ h₂
  have hreplace : Rooting (p₂.edit (·.replace live [id])) :=
    yields_edit (rooting_replace hroot (by simpa using hid.symm) live)
  exact hreplace p' hp'

/-! ## Updating -/

/-- Bringing any live node in line leaves the document rooted. -/
def RootingPatch (new old : Node) : Prop :=
  ∀ ⦃p : Page⦄ (live : NodeId), p.document.Rooted → Rooting (p.patch live new old)

/-- The same for bringing children in line. -/
def RootingPatchAll (new old : List Node) : Prop :=
  ∀ ⦃p : Page⦄ (parent : NodeId) (lives : List NodeId), p.document.Rooted →
    Rooting (p.patchAll parent lives new old)

/-- Mounting one description and going on with the others. -/
theorem RootingPatchAll.mount (hns : RootingPatchAll ns os) (h : p.document.Rooted) (n : Node)
    (parent : NodeId) (lives : List NodeId) :
    Rooting (p.mount (some n) (some parent) >>= fun r => r.2.patchAll parent lives ns os) := by
  intro p' hp'
  obtain ⟨⟨id, p₁⟩, h₁, hp'⟩ := Except.exists_of_bind_eq_ok hp'
  exact hns parent lives (rooted_mount h h₁) p' hp'

theorem compares_rooting : Node.Compares RootingPatch RootingPatchAll where
  replaced hkeep p live h := by
    rw [patch.eq_def, if_pos hkeep]
    exact rooting_exchange h live _ _
  text s p live h := by
    have hkeep : ¬(Node.text s).mustReplace (.text s) = true := by simp [Node.mustReplace]
    rw [patch.eq_def, if_neg hkeep]
    exact .ok h
  element hkeep hcs p live h := by
    rw [patch, if_neg (Bool.eq_false_iff.1 hkeep)]
    exact ((editing_updateProps p live _ _).rooting h).bind fun _ h =>
      .look fun lives => hcs live lives h
  portal hcs p live h := by
    rw [patch.eq_def]
    split
    · exact rooting_exchange h live _ _
    · exact .look fun lives => hcs _ lives h
  nil os p parent lives h := by
    rw [patchAll]
    exact rooting_discardAll h
  cons hn hns p parent lives h := by
    cases lives with
    | nil => exact hns.mount h _ parent []
    | cons live lives => exact (hn live h).bind fun _ h => hns parent lives h
  more n ns hns p parent lives h := by
    rw [patchAll.eq_def]
    cases lives <;> exact hns.mount h n parent _

theorem rooting_patch (h : p.document.Rooted) (live : NodeId) (n o : Node) :
    Rooting (p.patch live n o) :=
  compares_rooting.one n o live h

theorem rooting_update (h : p.document.Rooted) (parent : NodeId) (live : Option NodeId)
    (new old : Option Node) : Rooting (p.update parent live new old) := by
  have hmount : ∀ n, Rooting ((p.mount (some n) (some parent)).map (·.2)) := by
    intro n p' hp'
    obtain ⟨⟨id, p₁⟩, hm, rfl⟩ := Except.exists_of_map_eq_ok hp'
    exact rooted_mount h hm
  unfold update
  split
  · exact rooting_patch h _ _ _
  · exact rooting_discard h _ _
  · exact hmount _
  · exact .ok h

end Page

namespace Renderer

variable {r r' : Renderer} {p p' : Page} {n : Option Node} {live : Option NodeId}

theorem rooted_showIn {parent : NodeId} (h : p.document.Rooted)
    (hp' : r.showIn p n parent = .ok (live, p')) : p'.document.Rooted := by
  unfold showIn at hp'
  split at hp'
  · split at hp'
    · cases hp'
      exact h
    · obtain ⟨⟨id, p₁⟩, hm, he⟩ := Except.exists_of_map_eq_ok hp'
      cases he
      exact Page.rooted_mount h hm
  · obtain ⟨lives, -, hp'⟩ := Except.exists_of_bind_eq_ok hp'
    obtain ⟨p₁, h₁, hp'⟩ := Except.exists_of_bind_eq_ok hp'
    have hroot := Page.rooting_update h parent lives.head? n _ p₁ h₁
    split at hp'
    · cases hp'
      exact hroot
    · obtain ⟨lives', -, hp'⟩ := Except.exists_of_bind_eq_ok hp'
      cases hp'
      exact hroot

/-- Rendering leaves a rooted document rooted. -/
theorem rooted_render {parent : Option NodeId} (h : p.document.Rooted)
    (hp' : r.render p n parent = .ok (live, r', p')) : p'.document.Rooted := by
  cases parent with
  | none =>
      obtain ⟨⟨id, p₁⟩, hm, he⟩ := Except.exists_of_map_eq_ok hp'
      cases he
      exact Page.rooted_mount h hm
  | some parent =>
      obtain ⟨⟨live', p₁⟩, hs, he⟩ := Except.exists_of_map_eq_ok hp'
      cases he
      exact rooted_showIn h hs

end Renderer

end LiveMarkup
