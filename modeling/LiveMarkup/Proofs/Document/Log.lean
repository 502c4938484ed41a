import LiveMarkup.Document.Edit
import LiveMarkup.Proofs.Document.Operations

/-!
# What is noted down

A document that keeps a log only ever adds to it. `Document.Logs` says what has been
added. Each operation on the tree adds one mutation, and the small steps that it is made
of none. `Document.Notes` says which of the added mutations make, move or remove nodes;
what is said about a single element is passed over there. So setting something on an
element notes down none, and it changes nothing but the element (`Document.Edited`).
-/

namespace LiveMarkup

namespace Mutation

/-- Whether a mutation makes a node. -/
def creates : Mutation → Bool
  | .createElement .. | .createText _ | .createComment _ => true
  | _ => false

/-- Whether a mutation appends nodes to another. -/
def appends : Mutation → Bool
  | .appendChildren .. => true
  | _ => false

/-- The node that a mutation replaces. -/
def replaced? : Mutation → Option NodeId
  | .replaceNode anchor _ => some anchor
  | _ => none

/-- The node that a mutation removes. -/
def removed? : Mutation → Option NodeId
  | .removeNode id => some id
  | _ => none

end Mutation

namespace Document

variable {d d' d₁ d₂ : Document} {m : Mutation} {ms ms' : List Mutation} {id parent anchor : NodeId}
  {ids : List NodeId}

/-- The given mutations and no others have been noted down, if a log is kept at all. -/
structure Logs (d d' : Document) (ms : List Mutation) : Prop where
  recording : d'.recording = d.recording
  log : d.recording = true → d'.log = d.log ++ ms

namespace Logs

theorem of_eq (hrecording : d'.recording = d.recording) (hlog : d'.log = d.log) : Logs d d' [] :=
  ⟨hrecording, fun _ => by rw [hlog, List.append_nil]⟩

theorem refl (d : Document) : Logs d d [] :=
  .of_eq rfl rfl

theorem trans (h : Logs d d₁ ms) (h' : Logs d₁ d₂ ms') : Logs d d₂ (ms ++ ms') := by
  refine ⟨h'.recording.trans h.recording, fun hr => ?_⟩
  rw [h'.log (h.recording.trans hr), h.log hr, List.append_assoc]

end Logs

theorem recording_record (d : Document) (m : Mutation) : (d.record m).recording = d.recording := by
  unfold record
  split <;> rfl

theorem logs_record (d : Document) (m : Mutation) : Logs d (d.record m) [m] :=
  ⟨recording_record d m, fun hr => by rw [record, if_pos hr]⟩

theorem logs_modify (d : Document) (id : NodeId) (f : LiveNode → LiveNode) :
    Logs d (d.modify id f) [] :=
  .of_eq rfl rfl

/-- A computation that starts from a document logs mutations, unless it fails. -/
def Logging (d : Document) (r : Except MissingNode Document) (ms : List Mutation) : Prop :=
  ∀ d', r = .ok d' → Logs d d' ms

namespace Logging

theorem ok (h : Logs d d' ms) : Logging d (.ok d') ms :=
  Except.Yields.ok h

theorem bind {r : Except MissingNode Document} {f : Document → Except MissingNode Document}
    (hr : Logging d r ms) (hf : ∀ d₁, Logging d₁ (f d₁) ms') : Logging d (r >>= f) (ms ++ ms') :=
  Except.Yields.bind hr fun d₁ h₁ => Except.Yields.mono (hf d₁) fun _ => h₁.trans

/-- What is only looked up is not logged. -/
theorem look {α : Type} {r : Except MissingNode α} {f : α → Except MissingNode Document}
    (hf : ∀ a, Logging d (f a) ms) : Logging d (r >>= f) ms :=
  Except.Yields.look hf

end Logging

/-! ## The steps of an operation -/

theorem logging_detach (d : Document) (id : NodeId) : Logging d (d.detach id) [] := by
  refine .look fun n => ?_
  cases n.parent with
  | none => exact .ok (.refl d)
  | some p => exact .look fun _ => .ok ((logs_modify d id _).trans (logs_modify _ p _))

theorem logging_detachAll : ∀ (ids : List NodeId) (d : Document), Logging d (d.detachAll ids) []
  | [], d => .ok (.refl d)
  | id :: ids, d => (logging_detach d id).bind (logging_detachAll ids)

theorem logging_moveAll (parent : NodeId) :
    ∀ (ids : List NodeId) (d : Document), Logging d (d.moveAll parent ids) []
  | [], d => .ok (.refl d)
  | id :: ids, d => (logging_detach d id).bind fun d₁ => .look fun _ d' hd' =>
      ((logs_modify d₁ parent _).trans (logs_modify _ id _)).trans
        (logging_moveAll parent ids _ d' hd')

theorem logs_adopt (parent : NodeId) :
    ∀ (ids : List NodeId) (d : Document), Logs d (d.adopt parent ids) []
  | [], d => .refl d
  | id :: ids, d => (logs_modify d id _).trans (logs_adopt parent ids _)

theorem logging_insertBefore (d : Document) (anchor : NodeId) (ids : List NodeId) :
    Logging d (d.insertBefore anchor ids) [] := by
  refine (logging_detachAll ids d).bind fun d₁ => .look fun n => ?_
  cases n.parent with
  | none => exact .ok (.refl d₁)
  | some p =>
      refine .look fun m => ?_
      cases m.indexOfChild? anchor with
      | none => exact .ok (.refl d₁)
      | some k => exact .ok ((logs_modify d₁ p _).trans (logs_adopt p ids _))

theorem logging_dropSubtree (d : Document) (id : NodeId) : Logging d (d.dropSubtree id) [] := by
  unfold dropSubtree
  split
  · exact .ok (.refl d)
  · exact (logging_detach d id).bind fun d₁ => .ok (.of_eq rfl rfl)

/-! ## Operations -/

theorem logging_append (d : Document) (parent : NodeId) (ids : List NodeId) :
    Logging d (d.append parent ids) [.appendChildren parent ids] :=
  (logging_moveAll parent ids d).bind fun d₁ => .ok (logs_record d₁ _)

theorem logging_remove (d : Document) (id : NodeId) : Logging d (d.remove id) [.removeNode id] :=
  (logging_dropSubtree d id).bind fun d₁ => .ok (logs_record d₁ _)

theorem logging_removeAll : ∀ (ids : List NodeId) (d : Document),
    Logging d (d.removeAll ids) (ids.map .removeNode)
  | [], d => .ok (.refl d)
  | id :: ids, d => (logging_remove d id).bind (logging_removeAll ids)

theorem logging_replace (d : Document) (anchor : NodeId) (ids : List NodeId) :
    Logging d (d.replace anchor ids) [.replaceNode anchor ids] :=
  (logging_insertBefore d anchor ids).bind fun d₁ =>
    (logging_dropSubtree d₁ anchor).bind fun d₂ => .ok (logs_record d₂ _)

theorem logs_create (d : Document) (data : NodeData) (m : Mutation) :
    Logs d ((d.create data).2.record m) [m] :=
  (Logs.of_eq rfl rfl : Logs d (d.create data).2 []).trans (logs_record _ m)

/-! ## Nodes that are made, moved and removed -/

/-- Some mutations have been noted down, among which those that make, move or remove
nodes are the given ones, if a log is kept at all. -/
structure Notes (d d' : Document) (ms : List Mutation) : Prop where
  recording : d'.recording = d.recording
  log : d.recording = true →
    ∃ all, d'.log = d.log ++ all ∧ all.filter Mutation.isStructural = ms

theorem Logs.notes (h : Logs d d' ms) : Notes d d' (ms.filter Mutation.isStructural) :=
  ⟨h.recording, fun hr => ⟨ms, h.log hr, rfl⟩⟩

theorem Notes.refl (d : Document) : Notes d d [] :=
  (Logs.refl d).notes

theorem Notes.trans (h : Notes d d₁ ms) (h' : Notes d₁ d₂ ms') : Notes d d₂ (ms ++ ms') := by
  refine ⟨h'.recording.trans h.recording, fun hr => ?_⟩
  obtain ⟨all, hlog, hms⟩ := h.log hr
  obtain ⟨all', hlog', hms'⟩ := h'.log (h.recording.trans hr)
  refine ⟨all ++ all', ?_, ?_⟩
  · rw [hlog', hlog, List.append_assoc]
  · rw [List.filter_append, hms, hms']

/-- A computation that starts from a document notes mutations down, unless it
fails. -/
def Noting (d : Document) (r : Except MissingNode Document) (ms : List Mutation) : Prop :=
  ∀ d', r = .ok d' → Notes d d' ms

theorem Logging.noting {r : Except MissingNode Document} (h : Logging d r ms) :
    Noting d r (ms.filter Mutation.isStructural) :=
  fun d' hd' => (h d' hd').notes

theorem noting_append (d : Document) (parent : NodeId) (ids : List NodeId) :
    Noting d (d.append parent ids) [.appendChildren parent ids] :=
  (logging_append d parent ids).noting

theorem noting_remove (d : Document) (id : NodeId) : Noting d (d.remove id) [.removeNode id] :=
  (logging_remove d id).noting

theorem noting_replace (d : Document) (anchor : NodeId) (ids : List NodeId) :
    Noting d (d.replace anchor ids) [.replaceNode anchor ids] :=
  (logging_replace d anchor ids).noting

theorem notes_createElement (d : Document) (name : Name) :
    Notes d (d.createElement name).2
      [.createElement (d.createElement name).1 name.localName] :=
  (logs_create d (.element { name }) _).notes

theorem notes_createText (d : Document) (s : String) :
    Notes d (d.createText s).2 [.createText (d.createText s).1] :=
  (logs_create d (.text s) _).notes

/-! ## Changes of elements -/

/-- Nothing that counts has been noted down, and no live node has changed except in
what one of them is. -/
structure Edited (d d' : Document) (id : NodeId) : Prop where
  notes : Notes d d' []
  relabeled : ∃ data, Relabeled d d' id data

theorem Edited.refl (d : Document) (id : NodeId) : Edited d d id := by
  refine ⟨.refl d, ?_⟩
  cases hn : d.get? id with
  | none =>
      refine ⟨.comment, fun k => ?_⟩
      split
      · rename_i hk
        rw [hk, hn, Option.map_none]
      · rfl
  | some n => exact ⟨n.data, .refl hn⟩

theorem Edited.trans (h : Edited d d₁ id) (h' : Edited d₁ d₂ id) : Edited d d₂ id := by
  obtain ⟨data, hr⟩ := h.relabeled
  obtain ⟨data', hr'⟩ := h'.relabeled
  exact ⟨h.notes.trans h'.notes, data', hr.trans hr'⟩

/-- A computation that starts from a document edits a live node, unless it fails. -/
def Editing (d : Document) (id : NodeId) (r : Except MissingNode Document) : Prop :=
  ∀ d', r = .ok d' → Edited d d' id

theorem logs_editElement (d : Document) (id : NodeId) (e : Element) (m : Mutation) :
    Logs d ((d.modify id fun n => { n with data := .element e }).record m) [m] :=
  (logs_modify d id _).trans (logs_record _ m)

theorem editing_editElement (d : Document) (id : NodeId)
    {rule : Element → Option (Element × Mutation)}
    (h : ∀ e e' m, rule e = some (e', m) → m.isStructural = false) :
    Editing d id (d.editElement id rule) := by
  intro d' hd'
  rcases editElement_cases hd' with ⟨-, rfl⟩ | ⟨e, e', m, -, hrule, rfl⟩
  · exact .refl d' id
  · have hm : ¬m.isStructural = true := by simp [h e e' m hrule]
    have hnotes := (logs_editElement d id e' m).notes
    rw [List.filter_cons_of_neg hm] at hnotes
    refine ⟨hnotes, .element e', fun k => ?_⟩
    rw [get?_record, get?_modify]
    simp only [eq_comm (a := id)]

theorem editing_setAttribute (d : Document) (id : NodeId) (name : Name) (value : String) :
    Editing d id (d.setAttribute id name value) := by
  refine editing_editElement d id fun e e' m h => ?_
  split at h
  · cases h
    rfl
  · obtain ⟨a, -, ha⟩ := Option.map_eq_some_iff.1 h
    cases ha
    rfl

theorem editing_clearAttribute (d : Document) (id : NodeId) (name : Name) :
    Editing d id (d.clearAttribute id name) := by
  refine editing_editElement d id fun e e' m h => ?_
  split at h
  · cases h
    rfl
  · obtain ⟨a, -, ha⟩ := Option.map_eq_some_iff.1 h
    cases ha
    rfl

/-- A rule that always says the same. -/
theorem editing_editElement_const (d : Document) (id : NodeId) {m : Mutation}
    (hm : m.isStructural = false) (rule : Element → Option Element) :
    Editing d id (d.editElement id fun e => (rule e).map (·, m)) := by
  refine editing_editElement d id fun e e' m' h => ?_
  obtain ⟨a, -, ha⟩ := Option.map_eq_some_iff.1 h
  cases ha
  exact hm

theorem editing_setField (d : Document) (id : NodeId) (f : Field) (v : FieldValue) :
    Editing d id (d.setField id f v) :=
  editing_editElement_const d id (m := .setField id f v) rfl fun e => some (e.setField f v)

theorem editing_setStyleText (d : Document) (id : NodeId) (css : String) :
    Editing d id (d.setStyleText id css) :=
  editing_editElement_const d id (m := .setStyle id) rfl fun e =>
    some { e with style := .parse css }

theorem editing_setStyleProperty (d : Document) (id : NodeId) (name value : String) :
    Editing d id (d.setStyleProperty id name value) :=
  editing_editElement_const d id (m := .setStyle id) rfl fun e =>
    some { e with style := e.style.set name value }

theorem editing_addListener (d : Document) (id : NodeId) (event : String) (l : Listener) :
    Editing d id (d.addListener id event l) :=
  editing_editElement_const d id (m := .addListener id event) rfl (·.addListener? event l)

theorem editing_removeListener (d : Document) (id : NodeId) (event : String) (l : Listener) :
    Editing d id (d.removeListener id event l) :=
  editing_editElement_const d id (m := .removeListener id event) rfl (·.removeListener? event l)

end Document

end LiveMarkup
