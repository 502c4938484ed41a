import LiveMarkup.Proofs.Document.Calls
import LiveMarkup.Proofs.Document.Log

/-!
# The document node stays on top

A document is rooted when its own node is live and no node has it for a child. Only
inserting the document node somewhere could end this, so every call that does not do
that leaves a rooted document rooted (`Document.rooting_perform`), whatever else it
does and however wrong its numbers are.
-/

namespace LiveMarkup.Document

/-- The document node is live and a child of no node. -/
structure Rooted (d : Document) : Prop where
  live : ∃ n, d.get? root = some n
  top : ∀ k n, d.get? k = some n → root ∉ n.children

/-- Whatever document a computation gives is rooted. -/
abbrev Rooting : Except MissingNode Document → Prop :=
  Except.Yields Rooted

variable {d d' : Document} {id : NodeId} {ids : List NodeId}

/-! ## The steps of an operation -/

namespace Rooted

theorem of_get?_eq (h : d.Rooted) (hget : d'.get? = d.get?) : d'.Rooted :=
  ⟨hget ▸ h.live, hget ▸ h.top⟩

theorem record (h : d.Rooted) (m : Mutation) : (d.record m).Rooted :=
  h.of_get?_eq (get?_record_eq d m)

/-- A node may be changed as long as the document node does not become a child of
it. -/
theorem modify (h : d.Rooted) (id : NodeId) {f : LiveNode → LiveNode}
    (hf : ∀ n, root ∉ n.children → root ∉ (f n).children) : (d.modify id f).Rooted := by
  obtain ⟨n, hn⟩ := h.live
  constructor
  · rw [get?_modify]
    split
    · exact ⟨f n, by rw [hn, Option.map_some]⟩
    · exact ⟨n, hn⟩
  · intro k m hm
    rw [get?_modify] at hm
    split at hm
    · obtain ⟨m', hm', rfl⟩ := Option.map_eq_some_iff.1 hm
      exact hf m' (h.top k m' hm')
    · exact h.top k m hm

theorem create (h : d.Rooted) (data : NodeData) :
    (d.create data).2.Rooted ∧ (d.create data).1 ≠ root := by
  have hne : d.nodes.nextKey ≠ root := by
    intro he
    obtain ⟨n, hn⟩ := h.live
    rw [← he, get?, Slab.get?_nextKey] at hn
    cases hn
  refine ⟨⟨?_, fun k n hn => ?_⟩, hne⟩
  · rw [get?_create, if_neg hne.symm]
    exact h.live
  · rw [get?_create] at hn
    split at hn
    · cases hn
      exact List.not_mem_nil
    · exact h.top k n hn

/-- Nodes that are taken out with all below them do not take the document node with
them. -/
theorem dropAll (h : d.Rooted) (hids : root ∉ ids) :
    ({ d with nodes := dropAll d.nodes ids } : Document).Rooted := by
  constructor
  · obtain ⟨n, hn⟩ := h.live
    rcases get?_dropAll_or d.nodes ids root with hnone | hsame
    -- A node goes because it is named or a child of one that goes.
    · obtain ⟨i, hi, hpath⟩ := exists_of_get?_dropAll hn hnone
      rcases Relation.ReflTransGen.cases_tail hpath with hroot | ⟨q, -, m, hm, hc⟩
      · exact absurd (hroot ▸ hi) hids
      · exact absurd hc (h.top q m hm)
    · exact ⟨n, hsame.trans hn⟩
  · intro k n hn
    rcases get?_dropAll_or d.nodes ids k with hnone | hsame
    · cases hnone.symm.trans hn
    · exact h.top k n (hsame.symm.trans hn)

theorem relabel (h : d.Rooted) {data : NodeData} (hr : Relabeled d d' id data) : d'.Rooted := by
  constructor
  · obtain ⟨n, hn⟩ := h.live
    rw [hr]
    split
    · exact ⟨_, by rw [hn, Option.map_some]⟩
    · exact ⟨n, hn⟩
  · intro k n hn
    rw [hr] at hn
    split at hn
    · obtain ⟨m, hm, rfl⟩ := Option.map_eq_some_iff.1 hn
      exact h.top k m hm
    · exact h.top k n hn

theorem edited (h : d.Rooted) (he : Edited d d' id) : d'.Rooted := by
  obtain ⟨data, hr⟩ := he.relabeled
  exact h.relabel hr

end Rooted

theorem Editing.rooting {r : Except MissingNode Document} (he : Editing d id r) (h : d.Rooted) :
    Rooting r :=
  fun d' hd' => h.edited (he d' hd')

theorem rooting_detach (h : d.Rooted) (id : NodeId) : Rooting (d.detach id) := by
  refine .look fun n => ?_
  cases n.parent with
  | none => exact .ok h
  | some p =>
      refine .look fun _ => .ok ?_
      apply Rooted.modify
      · exact h.modify id fun _ hn => hn
      · exact fun n hn hmem => hn (List.mem_filter.1 hmem).1

theorem rooting_detachAll : ∀ (ids : List NodeId) {d : Document}, d.Rooted →
    Rooting (d.detachAll ids)
  | [], _, h => .ok h
  | id :: ids, _, h => (rooting_detach h id).bind fun _ => rooting_detachAll ids

theorem rooting_moveAll (parent : NodeId) : ∀ {ids : List NodeId} {d : Document}, root ∉ ids →
    d.Rooted → Rooting (d.moveAll parent ids)
  | [], _, _, h => .ok h
  | id :: ids, _, hids, h => by
      rw [List.mem_cons, not_or] at hids
      refine (rooting_detach h id).bind fun d h => .look fun _ => ?_
      apply rooting_moveAll parent hids.2
      apply Rooted.modify
      · apply h.modify
        intro n hn
        simp [hn, hids.1]
      · exact fun _ hn => hn

theorem Rooted.adopt (parent : NodeId) : ∀ (ids : List NodeId) {d : Document}, d.Rooted →
    (d.adopt parent ids).Rooted
  | [], _, h => h
  | id :: ids, _, h => Rooted.adopt parent ids (h.modify id fun _ hn => hn)

theorem rooting_insertBefore (h : d.Rooted) (hids : root ∉ ids) (anchor : NodeId) :
    Rooting (d.insertBefore anchor ids) := by
  refine (rooting_detachAll ids h).bind fun d h => .look fun n => ?_
  cases n.parent with
  | none => exact .ok h
  | some p =>
      refine .look fun m => ?_
      cases m.indexOfChild? anchor with
      | none => exact .ok h
      | some k =>
          refine .ok (Rooted.adopt p ids (h.modify p fun n hn => ?_))
          have htake : root ∉ n.children.take k := fun hmem => hn (List.mem_of_mem_take hmem)
          have hdrop : root ∉ n.children.drop k := fun hmem => hn (List.mem_of_mem_drop hmem)
          simp [htake, hdrop, hids]

theorem rooting_dropSubtree (h : d.Rooted) (id : NodeId) : Rooting (d.dropSubtree id) := by
  unfold dropSubtree
  split
  · exact .ok h
  · rename_i hid
    refine (rooting_detach h id).bind fun d h => .ok (h.dropAll ?_)
    simpa using Ne.symm hid

/-! ## Operations -/

theorem rooting_append (h : d.Rooted) (hids : root ∉ ids) (parent : NodeId) :
    Rooting (d.append parent ids) :=
  (rooting_moveAll parent hids h).bind fun _ h => .ok (h.record _)

theorem rooting_remove (h : d.Rooted) (id : NodeId) : Rooting (d.remove id) :=
  (rooting_dropSubtree h id).bind fun _ h => .ok (h.record _)

theorem rooting_removeAll : ∀ (ids : List NodeId) {d : Document}, d.Rooted →
    Rooting (d.removeAll ids)
  | [], _, h => .ok h
  | id :: ids, _, h => (rooting_remove h id).bind fun _ => rooting_removeAll ids

theorem rooting_removeChildren (h : d.Rooted) (id : NodeId) : Rooting (d.removeChildren id) :=
  .look fun ids => rooting_removeAll ids h

theorem rooting_replace (h : d.Rooted) (hids : root ∉ ids) (anchor : NodeId) :
    Rooting (d.replace anchor ids) :=
  (rooting_insertBefore h hids anchor).bind fun _ h =>
    (rooting_dropSubtree h anchor).bind fun _ h => .ok (h.record _)

/-- A call that does not insert the document node leaves it where it is. -/
theorem rooting_perform (h : d.Rooted) {c : TreeCall} (hc : root ∉ c.inserted) :
    Rooting (d.perform c) := by
  cases c with
  | createElement name => exact .ok ((h.create _).1.record _)
  | createText content => exact .ok ((h.create _).1.record _)
  | createComment => exact .ok ((h.create _).1.record _)
  | readParent id => exact .map fun _ => h
  | readChildren id => exact .map fun _ => h
  | readAttribute id name => exact .map fun _ => h
  | append parent ids => exact rooting_append h hc parent
  | replace anchor ids => exact rooting_replace h hc anchor
  | remove id => exact rooting_remove h id
  | removeChildren id => exact rooting_removeChildren h id
  | setAttribute id name value => exact (editing_setAttribute d id name value).rooting h
  | clearAttribute id name => exact (editing_clearAttribute d id name).rooting h
  | setField id field value => exact (editing_setField d id field value).rooting h
  | setStyleText id css => exact (editing_setStyleText d id css).rooting h
  | setStyleProperty id name value => exact (editing_setStyleProperty d id name value).rooting h
  | addListener id event listener => exact (editing_addListener d id event listener).rooting h
  | removeListener id event listener => exact (editing_removeListener d id event listener).rooting h

theorem rooted_new (recording : Bool) : (new recording).Rooted := by
  constructor
  · exact ⟨_, (get?_new recording root).trans (if_pos rfl)⟩
  · intro k n hn
    rw [get?_new] at hn
    split at hn
    · cases hn
      exact List.not_mem_nil
    · cases hn

end LiveMarkup.Document
