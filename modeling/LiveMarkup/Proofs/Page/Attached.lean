import LiveMarkup.Proofs.Document.Below
import LiveMarkup.Proofs.Page.Pointing
import LiveMarkup.Proofs.Page.Unchanged

/-!
# Attached live nodes

A live node that is made like a description without portals is the top of a subtree
that mirrors the description, and the other way round (`showsAt_iff_mirrors`). In a
well-formed document an attached live node stands with its subtree in the forest
under its parent (`Document.WellFormed.exists_attached`).
-/

namespace LiveMarkup

open Document Subtree Node

mutual

/-- A subtree of a document that shows a description mirrors it. -/
theorem mirrors_of_showsAt {d : Document} : ∀ {n : Node} {t : Subtree} {parent : Option NodeId},
    t.Held d.get? parent → d.ShowsAt n t.id → Mirrors n t
  | .text s, t, parent, ht, ⟨m, hm, hdata, hchildren⟩ => by
      obtain rfl := Option.some.inj (ht.view_id.symm.trans hm)
      exact ⟨hdata, List.map_eq_nil_iff.1 hchildren⟩
  | .element tag props cs, t, parent, ht, ⟨m, e, hm, hdata, hname, hchildren⟩ => by
      obtain rfl := Option.some.inj (ht.view_id.symm.trans hm)
      exact ⟨⟨e, hdata, hname⟩, allMirror_of_allShowAt ht.children hchildren⟩
  | .portal target cs, t, parent, ht, ⟨⟨m, hm, hdata, hchildren⟩, _⟩ => by
      obtain rfl := Option.some.inj (ht.view_id.symm.trans hm)
      exact ⟨hdata, List.map_eq_nil_iff.1 hchildren⟩

theorem allMirror_of_allShowAt {d : Document} : ∀ {ns : List Node} {ts : List Subtree}
    {parent : NodeId}, AllHeld d.get? parent ts → d.AllShowAt ns (ts.map Subtree.id) →
    AllMirror ns ts
  | [], [], _, _, _ => trivial
  | _ :: _, _ :: _, _, ht, h => ⟨mirrors_of_showsAt ht.1 h.1, allMirror_of_allShowAt ht.2 h.2⟩

end

mutual

/-- A document shows a description without portals where a subtree mirrors it. -/
theorem showsAt_of_mirrors {d : Document} : ∀ {n : Node} {t : Subtree} {parent : Option NodeId},
    t.Held d.get? parent → n.portals = [] → Mirrors n t → d.ShowsAt n t.id
  | .text _, _, _, ht, _, ⟨hdata, hchildren⟩ =>
      ⟨_, ht.view_id, hdata, List.map_eq_nil_iff.2 hchildren⟩
  | .element _ _ cs, _, _, ht, hn, ⟨⟨e, hdata, hname⟩, hchildren⟩ => by
      have hcs : allPortals cs = [] := hn
      exact ⟨_, e, ht.view_id, hdata, hname, allShowAt_of_allMirror ht.children hcs hchildren⟩

theorem allShowAt_of_allMirror {d : Document} : ∀ {ns : List Node} {ts : List Subtree}
    {parent : NodeId}, AllHeld d.get? parent ts → allPortals ns = [] → AllMirror ns ts →
    d.AllShowAt ns (ts.map Subtree.id)
  | [], [], _, _, _, _ => trivial
  | _ :: _, _ :: _, _, ht, hn, h => by
      obtain ⟨hn, hns⟩ := List.append_eq_nil_iff.1 hn
      exact ⟨showsAt_of_mirrors ht.1 hn h.1, allShowAt_of_allMirror ht.2 hns h.2⟩

end

theorem showsAt_iff_mirrors {d : Document} {n : Node} {t : Subtree} {parent : Option NodeId}
    (ht : t.Held d.get? parent) (hn : n.portals = []) : d.ShowsAt n t.id ↔ Mirrors n t :=
  ⟨mirrors_of_showsAt ht, showsAt_of_mirrors ht hn⟩

/-- An attached live node stands in the forest under its parent. -/
theorem Document.WellFormed.exists_attached {d : Document} (hd : d.WellFormed)
    {parent live : NodeId} {i : Nat} (h : d.at? parent [i] = some live) :
    ∃ F pre t post, d.Hosts (insert parent ∅) F ∧ F parent = pre ++ t :: post ∧ pre.length = i ∧
      t.id = live := by
  rw [Document.at?] at h
  obtain ⟨m, hm, h⟩ := Option.bind_eq_some_iff.1 h
  obtain ⟨c, hc, hlive⟩ := Option.bind_eq_some_iff.1 h
  obtain ⟨F, hF⟩ := hd.hosts (live_iff.2 ⟨m, hm⟩)
  obtain ⟨m', hm', hchildren⟩ := hF.host parent (Set.mem_insert parent ∅)
  obtain rfl := Option.some.inj (hm.symm.trans hm')
  rw [hchildren, List.getElem?_map] at hc
  obtain ⟨t, ht, rfl⟩ := Option.map_eq_some_iff.1 hc
  obtain ⟨hi, rfl⟩ := List.getElem?_eq_some_iff.1 ht
  refine ⟨F, (F parent).take i, (F parent)[i], (F parent).drop (i + 1), hF, ?_, ?_, ?_⟩
  · rw [← List.drop_eq_getElem_cons, List.take_append_drop]
  · exact List.length_take_of_le hi.le
  · exact Option.some.inj hlive

end LiveMarkup
