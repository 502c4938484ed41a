import LiveMarkup.Document.Dispatch
import LiveMarkup.Document.Edit
import LiveMarkup.Proofs.Document.Links

/-!
# Which listeners an element has

The listeners of an element for one event are a list of their own. A listener that is added
goes to the end of it, unless it is in it already, and one that is taken away leaves the
others in order (`Element.listenersFor_add`, `Element.listenersFor_remove`). No other list
in the document changes (`Document.listenersAt_addListener`,
`Document.listenersAt_removeListener`).
-/

namespace LiveMarkup

namespace Element

theorem filter_erase_of_eq {event : String} {l : Listener} (ls : List (String × Listener)) :
    ((ls.erase (event, l)).filter fun p => p.1 = event).map (·.2) =
      ((ls.filter fun p => p.1 = event).map (·.2)).erase l := by
  induction ls with
  | nil => rfl
  | cons p ls ih =>
      obtain ⟨event', l'⟩ := p
      by_cases he : event' = event
      · subst he
        by_cases hl : l' = l
        · simp [hl]
        · rw [List.erase_cons_tail (by simp [hl]), List.filter_cons_of_pos (by simp),
            List.filter_cons_of_pos (by simp), List.map_cons, List.map_cons,
            List.erase_cons_tail (by simp [hl]), ih]
      · rw [List.erase_cons_tail (by simp [he]), List.filter_cons_of_neg (by simp [he]),
          List.filter_cons_of_neg (by simp [he]), ih]

theorem filter_erase_of_ne {event event' : String} (h : event' ≠ event) {l : Listener}
    (ls : List (String × Listener)) :
    ((ls.erase (event, l)).filter fun p => p.1 = event') = ls.filter fun p => p.1 = event' := by
  induction ls with
  | nil => rfl
  | cons p ls ih =>
      by_cases hp : p = (event, l)
      · subst hp
        rw [List.erase_cons_head, List.filter_cons_of_neg (by simpa using Ne.symm h)]
      · rw [List.erase_cons_tail (by simpa using hp), List.filter_cons, List.filter_cons, ih]

theorem mem_listenersFor {e : Element} {event : String} {l : Listener} :
    l ∈ e.listenersFor event ↔ (event, l) ∈ e.listeners := by
  simp [listenersFor]

theorem listenersFor_add (e : Element) (event : String) (l : Listener) (name : String) :
    ((e.addListener? event l).getD e).listenersFor name =
      if name = event ∧ l ∉ e.listenersFor event then e.listenersFor event ++ [l]
      else e.listenersFor name := by
  simp only [addListener?, mem_listenersFor]
  by_cases hl : (event, l) ∈ e.listeners
  · simp [hl]
  · by_cases hname : name = event
    · simp [hl, hname, listenersFor]
    · simp [hl, hname, listenersFor, Ne.symm hname]

theorem listenersFor_remove (e : Element) (event : String) (l : Listener) (name : String) :
    ((e.removeListener? event l).getD e).listenersFor name =
      if name = event then (e.listenersFor event).erase l else e.listenersFor name := by
  rw [removeListener?]
  by_cases hl : (event, l) ∈ e.listeners
  · rw [if_pos hl, Option.getD_some]
    by_cases hname : name = event
    · rw [if_pos hname, hname]
      exact filter_erase_of_eq e.listeners
    · rw [if_neg hname]
      exact congrArg _ (filter_erase_of_ne hname e.listeners)
  · rw [if_neg hl, Option.getD_none, List.erase_of_not_mem (mem_listenersFor.not.2 hl)]
    split <;> simp [*]

end Element

namespace Document

variable {d : Document} {k : NodeId} {e : Element}

theorem listenersAt_of_element? (h : d.element? k = some e) (name : String) :
    d.listenersAt k name = e.listenersFor name := by
  rw [listenersAt, h]

/-- A rule that changes an element changes its listeners alone. -/
theorem listenersAt_editElement (h : d.element? k = some e) (rule : Element → Option Element)
    (m : Mutation) : ∃ d', d.editElement k (fun e => (rule e).map (·, m)) = .ok d' ∧
      ∀ j name, d'.listenersAt j name =
        if j = k then ((rule e).getD e).listenersFor name else d.listenersAt j name := by
  obtain ⟨n, hn, hdata⟩ := Option.bind_eq_some_iff.1 h
  have hnode := (node_eq_ok_iff d k n).2 hn
  rw [editElement, hnode]
  cases hrule : rule e with
  | none =>
      refine ⟨d, by simp [Except.map, hdata, hrule], fun j name => ?_⟩
      by_cases hj : j = k
      · rw [if_pos hj, hj, listenersAt_of_element? h, Option.getD_none]
      · rw [if_neg hj]
  | some e' =>
      refine ⟨(d.modify k fun n => { n with data := .element e' }).record m,
        by simp [Except.map, hdata, hrule], fun j name => ?_⟩
      unfold listenersAt element?
      rw [get?_record, get?_modify_eq]
      by_cases hj : j = k
      · simp [hj, hn, NodeData.element?]
      · simp [hj]

/-- A listener that is added to an element is behind the others, unless it was there. -/
theorem listenersAt_addListener (h : d.element? k = some e) (event : String) (l : Listener) :
    ∃ d', d.addListener k event l = .ok d' ∧ ∀ j name, d'.listenersAt j name =
      if j = k ∧ name = event ∧ l ∉ d.listenersAt k event then d.listenersAt k event ++ [l]
      else d.listenersAt j name := by
  obtain ⟨d', hd', hlisteners⟩ := listenersAt_editElement h (·.addListener? event l)
    (.addListener k event)
  refine ⟨d', hd', fun j name => ?_⟩
  rw [hlisteners, Element.listenersFor_add, listenersAt_of_element? h]
  by_cases hj : j = k
  · simp [hj, listenersAt_of_element? h]
  · simp [hj]

/-- A listener that is taken from an element leaves the others in order. -/
theorem listenersAt_removeListener (h : d.element? k = some e) (event : String) (l : Listener) :
    ∃ d', d.removeListener k event l = .ok d' ∧ ∀ j name, d'.listenersAt j name =
      if j = k ∧ name = event then (d.listenersAt k event).erase l
      else d.listenersAt j name := by
  obtain ⟨d', hd', hlisteners⟩ := listenersAt_editElement h (·.removeListener? event l)
    (.removeListener k event)
  refine ⟨d', hd', fun j name => ?_⟩
  rw [hlisteners, Element.listenersFor_remove, listenersAt_of_element? h]
  by_cases hj : j = k
  · simp [hj, listenersAt_of_element? h]
  · simp [hj]

end Document

end LiveMarkup
