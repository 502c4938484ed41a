import LiveMarkup.Node.Basic
import Mathlib.Data.List.Nodup

/-!
# The portals of a description

A description is shown in one place, except for what its portals hold: the
children of a portal are shown inside its target. So a description asks for some
children inside each target (`contentOf`), and from one description to the next
the targets change: one is emptied where a portal goes, filled where a portal
comes, and filled anew where a portal stays (`Node.changes`). The order in which
this happens is the order of the places in the descriptions.
-/

namespace LiveMarkup

/-- Portals by their targets. -/
abbrev Portals := List (NodeId × List Node)

/-- What portals hold for a target. -/
def contentOf (ps : Portals) (target : NodeId) : List Node :=
  (ps.filter (·.1 = target)).flatMap (·.2)

@[simp] theorem contentOf_nil (target : NodeId) : contentOf [] target = [] := rfl

@[simp] theorem contentOf_append (ps qs : Portals) (target : NodeId) :
    contentOf (ps ++ qs) target = contentOf ps target ++ contentOf qs target := by
  rw [contentOf, List.filter_append, List.flatMap_append]
  rfl

theorem contentOf_cons_self (target : NodeId) (cs : List Node) (ps : Portals) :
    contentOf ((target, cs) :: ps) target = cs ++ contentOf ps target := by
  simp [contentOf]

theorem contentOf_cons_of_ne {target other : NodeId} (h : other ≠ target) (cs : List Node)
    (ps : Portals) : contentOf ((other, cs) :: ps) target = contentOf ps target := by
  simp [contentOf, h]

theorem contentOf_of_notMem {ps : Portals} {target : NodeId} (h : target ∉ ps.map (·.1)) :
    contentOf ps target = [] := by
  induction ps with
  | nil => rfl
  | cons q ps ih =>
      rw [List.map_cons, List.mem_cons, not_or] at h
      rw [contentOf_cons_of_ne (Ne.symm h.1), ih h.2]

theorem contentOf_of_mem {ps : Portals} {target : NodeId} {cs : List Node}
    (hn : (ps.map (·.1)).Nodup) (h : (target, cs) ∈ ps) : contentOf ps target = cs := by
  induction ps with
  | nil => cases h
  | cons q ps ih =>
      obtain ⟨hq, hps⟩ := List.nodup_cons.1 hn
      rcases List.mem_cons.1 h with rfl | h
      · rw [contentOf_cons_self, contentOf_of_notMem hq, List.append_nil]
      · have hne : q.1 ≠ target := by
          intro he
          exact hq (List.mem_map.2 ⟨_, h, he.symm⟩)
        rw [contentOf_cons_of_ne hne, ih hps h]

namespace Node

mutual

/-- The portals of a description, each before those among its children. -/
def portals : Node → Portals
  | .text _ => []
  | .element _ _ cs => allPortals cs
  | .portal target cs => (target, cs) :: allPortals cs
termination_by structural n => n

/-- The portals of descriptions that stand next to each other. -/
def allPortals : List Node → Portals
  | [] => []
  | n :: ns => n.portals ++ allPortals ns
termination_by structural ns => ns

end

/-- The targets of the portals of a description. -/
def targets (n : Node) : List NodeId :=
  n.portals.map (·.1)

/-- The targets of the portals of descriptions that stand next to each other. -/
def allTargets (ns : List Node) : List NodeId :=
  (allPortals ns).map (·.1)

@[simp] theorem targets_text (s : String) : (text s).targets = [] := rfl

@[simp] theorem targets_portal (target : NodeId) (cs : List Node) :
    (portal target cs).targets = target :: allTargets cs := rfl

@[simp] theorem allTargets_nil : allTargets [] = [] := rfl

@[simp] theorem allTargets_cons (n : Node) (ns : List Node) :
    allTargets (n :: ns) = n.targets ++ allTargets ns := by
  rw [allTargets, allPortals, List.map_append]
  rfl

/-- What a description asks for inside a target. -/
def inside (n : Node) (target : NodeId) : List Node :=
  contentOf n.portals target

/-- What descriptions ask for inside a target. -/
def allInside (ns : List Node) (target : NodeId) : List Node :=
  contentOf (allPortals ns) target

theorem inside_portal_self {target : NodeId} {cs : List Node} (h : target ∉ allTargets cs) :
    (portal target cs).inside target = cs := by
  have hcs : contentOf (allPortals cs) target = [] := contentOf_of_notMem h
  rw [inside, portals, contentOf_cons_self, hcs, List.append_nil]

theorem allInside_of_notMem {ns : List Node} {target : NodeId} (h : target ∉ allTargets ns) :
    allInside ns target = [] :=
  contentOf_of_notMem h

end Node

/-! ## From one description to the next -/

/-- What happens to a target from one description to the next. -/
inductive TargetChange where
  | empty (target : NodeId)
  | fill (target : NodeId) (children : List Node)
  | refill (target : NodeId) (children : List Node)

namespace TargetChange

/-- The target that changes. -/
def target : TargetChange → NodeId
  | .empty target => target
  | .fill target _ => target
  | .refill target _ => target

/-- What stands inside each target after a change. -/
def apply (content : NodeId → List Node) : TargetChange → NodeId → List Node
  | .empty target => fun k => if k = target then [] else content k
  | .fill target cs => fun k => if k = target then content k ++ cs else content k
  | .refill target cs => fun k => if k = target then cs else content k

/-- What stands inside each target after changes one after the other. -/
def applyAll (content : NodeId → List Node) (cs : List TargetChange) : NodeId → List Node :=
  cs.foldl apply content

/-- The changes where descriptions come. -/
def coming (ps : Portals) : List TargetChange :=
  ps.map fun q => .fill q.1 q.2

/-- The changes where descriptions go. -/
def going (ps : Portals) : List TargetChange :=
  ps.map fun q => .empty q.1

variable {content content' : NodeId → List Node} {k : NodeId}

@[simp] theorem apply_empty_self : (TargetChange.empty k).apply content k = [] :=
  if_pos rfl

@[simp] theorem apply_fill_self (ns : List Node) :
    (TargetChange.fill k ns).apply content k = content k ++ ns :=
  if_pos rfl

@[simp] theorem apply_refill_self (ns : List Node) :
    (TargetChange.refill k ns).apply content k = ns :=
  if_pos rfl

@[simp] theorem applyAll_nil (content : NodeId → List Node) : applyAll content [] = content := rfl

theorem applyAll_cons (content : NodeId → List Node) (c : TargetChange) (cs : List TargetChange) :
    applyAll content (c :: cs) = applyAll (c.apply content) cs := rfl

theorem applyAll_append (content : NodeId → List Node) (cs ds : List TargetChange) :
    applyAll content (cs ++ ds) = applyAll (applyAll content cs) ds :=
  List.foldl_append

theorem apply_of_ne {c : TargetChange} (h : c.target ≠ k) : c.apply content k = content k := by
  cases c <;> exact if_neg (Ne.symm h)

theorem applyAll_of_ne {cs : List TargetChange} (h : ∀ c ∈ cs, c.target ≠ k) :
    applyAll content cs k = content k := by
  induction cs generalizing content with
  | nil => rfl
  | cons c cs ih =>
      rw [applyAll_cons, ih fun d hd => h d (List.mem_cons_of_mem _ hd),
        apply_of_ne (h c (List.mem_cons_self ..))]

/-- What stands inside one target does not depend on the other ones. -/
theorem applyAll_congr {cs : List TargetChange} (h : content k = content' k) :
    applyAll content cs k = applyAll content' cs k := by
  induction cs generalizing content content' with
  | nil => exact h
  | cons c cs ih =>
      apply ih
      cases c <;> simp only [apply, h]

/-- What only fills a target keeps what stands there in front. -/
theorem prefix_applyAll {cs : List TargetChange}
    (h : ∀ c ∈ cs, c.target = k → ∃ ns, c = .fill k ns) : content k <+: applyAll content cs k := by
  induction cs generalizing content with
  | nil => exact List.prefix_rfl
  | cons c cs ih =>
      refine List.IsPrefix.trans ?_ (ih fun d hd => h d (List.mem_cons_of_mem _ hd))
      by_cases hc : c.target = k
      · obtain ⟨ns, rfl⟩ := h c (List.mem_cons_self ..) hc
        exact ⟨ns, (apply_fill_self ns).symm⟩
      · have hsame : c.apply content k = content k := apply_of_ne hc
        exact hsame ▸ List.prefix_rfl

theorem applyAll_coming (ps : Portals) :
    applyAll content (coming ps) k = content k ++ contentOf ps k := by
  induction ps generalizing content with
  | nil => exact (List.append_nil _).symm
  | cons q ps ih =>
      obtain ⟨target, cs⟩ := q
      rw [coming, List.map_cons, applyAll_cons]
      refine ih.trans ?_
      by_cases hk : target = k
      · subst hk
        rw [contentOf_cons_self, ← List.append_assoc, apply_fill_self]
      · rw [contentOf_cons_of_ne hk, apply_of_ne (c := .fill target cs) hk]

theorem applyAll_going_of_mem {ps : Portals} (h : k ∈ ps.map (·.1)) :
    applyAll content (going ps) k = [] := by
  induction ps generalizing content with
  | nil => cases h
  | cons q ps ih =>
      rw [going, List.map_cons, applyAll_cons]
      by_cases hps : k ∈ ps.map (·.1)
      · exact ih hps
      · have hk : k = q.1 := (List.mem_cons.1 h).resolve_right hps
        have hstay : ∀ c ∈ going ps, c.target ≠ k := by
          intro c hc he
          obtain ⟨r, hr, rfl⟩ := List.mem_map.1 hc
          exact hps (List.mem_map.2 ⟨r, hr, he⟩)
        refine (applyAll_of_ne hstay).trans ?_
        rw [← hk, apply_empty_self]

theorem applyAll_going_of_notMem {ps : Portals} (h : k ∉ ps.map (·.1)) :
    applyAll content (going ps) k = content k := by
  refine applyAll_of_ne fun c hc he => ?_
  obtain ⟨r, hr, rfl⟩ := List.mem_map.1 hc
  exact h (List.mem_map.2 ⟨r, hr, he⟩)

end TargetChange

namespace Node

mutual

/-- The changes of targets from an old description to a new one. -/
def changes (new old : Node) : List TargetChange :=
  if new.mustReplace old then TargetChange.going old.portals ++ TargetChange.coming new.portals
  else
    match new, old with
    | .element _ _ cs, .element _ _ ds => allChanges cs ds
    | .portal target cs, .portal _ ds => .refill target cs :: allChanges cs ds
    | _, _ => []
termination_by structural new

/-- The changes of targets from old descriptions to new ones, place by place. -/
def allChanges (new old : List Node) : List TargetChange :=
  match new, old with
  | [], os => TargetChange.going (allPortals os)
  | n :: ns, o :: os => n.changes o ++ allChanges ns os
  | n :: ns, [] => TargetChange.coming n.portals ++ allChanges ns []
termination_by structural new

end

/-- The targets that may change, and how: those of portals that go are emptied,
those of portals that come are filled, and those of portals that stay are filled
anew. -/
def IsChange (new old : Portals) : TargetChange → Prop
  | .empty target => target ∈ old.map (·.1)
  | .fill target cs => (target, cs) ∈ new
  | .refill target cs => (target, cs) ∈ new ∧ target ∈ old.map (·.1)

theorem IsChange.mono {new new' old old' : Portals} {c : TargetChange} (h : IsChange new old c)
    (hnew : new ⊆ new') (hold : old ⊆ old') : IsChange new' old' c := by
  have hmap : old.map (·.1) ⊆ old'.map (·.1) := List.map_subset _ hold
  cases c with
  | empty target => exact hmap h
  | fill target cs => exact hnew h
  | refill target cs => exact ⟨hnew h.1, hmap h.2⟩

/-- A target that changes is one of an old or of a new portal. -/
theorem IsChange.target_mem {new old : Portals} {c : TargetChange} (h : IsChange new old c) :
    c.target ∈ new.map (·.1) ∨ c.target ∈ old.map (·.1) := by
  cases c with
  | empty target => exact Or.inr h
  | fill target cs => exact Or.inl (List.mem_map.2 ⟨_, h, rfl⟩)
  | refill target cs => exact Or.inr h.2

theorem isChange_of_going {new ps : Portals} {c : TargetChange} (h : c ∈ TargetChange.going ps) :
    IsChange new ps c := by
  obtain ⟨q, hq, rfl⟩ := List.mem_map.1 h
  exact List.mem_map.2 ⟨q, hq, rfl⟩

theorem isChange_of_coming {ps old : Portals} {c : TargetChange} (h : c ∈ TargetChange.coming ps) :
    IsChange ps old c := by
  obtain ⟨q, hq, rfl⟩ := List.mem_map.1 h
  exact hq

/-! ### What is kept -/

theorem eq_text_of_kept {s : String} {old : Node} (h : (text s).mustReplace old = false) :
    old = .text s := by
  cases old with
  | text t =>
      have hs : s = t := by simpa [mustReplace] using h
      rw [hs]
  | _ => cases h

theorem eq_element_of_kept {tag : String} {props : Props} {cs : List Node} {old : Node}
    (h : (element tag props cs).mustReplace old = false) :
    ∃ props' ds, old = .element tag props' ds := by
  cases old with
  | element tag' props' ds =>
      have htag : tag = tag' := by
        by_contra hne
        simp [mustReplace, hne] at h
      exact ⟨props', ds, htag ▸ rfl⟩
  | _ => cases h

theorem eq_portal_of_kept {target : NodeId} {cs : List Node} {old : Node}
    (h : (portal target cs).mustReplace old = false) : ∃ ds, old = .portal target ds := by
  cases old with
  | portal target' ds =>
      have htarget : target = target' := by simpa [mustReplace] using h
      exact ⟨ds, htarget ▸ rfl⟩
  | _ => cases h

/-! ### Induction along an update -/

/-- A property of two descriptions and one of two lists of them, which hold wherever
they hold of all that an update compares on its way down: it goes on to the children
of what is kept, and compares them place by place. -/
structure Compares (P : Node → Node → Prop) (Q : List Node → List Node → Prop) : Prop where
  replaced : ∀ {new old : Node}, new.mustReplace old = true → P new old
  text : ∀ s : String, P (.text s) (.text s)
  element : ∀ {tag : String} {props props' : Props} {cs ds : List Node},
    (Node.element tag props cs).mustReplace (.element tag props' ds) = false → Q cs ds →
      P (.element tag props cs) (.element tag props' ds)
  portal : ∀ {target : NodeId} {cs ds : List Node}, Q cs ds →
    P (.portal target cs) (.portal target ds)
  nil : ∀ os : List Node, Q [] os
  cons : ∀ {n o : Node} {ns os : List Node}, P n o → Q ns os → Q (n :: ns) (o :: os)
  more : ∀ (n : Node) {ns : List Node}, Q ns [] → Q (n :: ns) []

mutual

theorem Compares.one {P : Node → Node → Prop} {Q : List Node → List Node → Prop}
    (h : Compares P Q) : ∀ new old : Node, P new old := by
  intro new old
  cases hkeep : new.mustReplace old with
  | true => exact h.replaced hkeep
  | false =>
      match new with
      | .text s =>
          obtain rfl := eq_text_of_kept hkeep
          exact h.text s
      | .element tag props cs =>
          obtain ⟨props', ds, rfl⟩ := eq_element_of_kept hkeep
          exact h.element hkeep (h.all cs ds)
      | .portal target cs =>
          obtain ⟨ds, rfl⟩ := eq_portal_of_kept hkeep
          exact h.portal (h.all cs ds)

theorem Compares.all {P : Node → Node → Prop} {Q : List Node → List Node → Prop}
    (h : Compares P Q) : ∀ new old : List Node, Q new old
  | [], os => h.nil os
  | n :: ns, o :: os => h.cons (h.one n o) (h.all ns os)
  | n :: ns, [] => h.more n (h.all ns [])

end

theorem changes_of_mustReplace {new old : Node} (h : new.mustReplace old = true) :
    new.changes old = TargetChange.going old.portals ++ TargetChange.coming new.portals := by
  rw [changes.eq_def, if_pos h]

theorem changes_text (s : String) : (text s).changes (text s) = [] := by
  simp [changes, mustReplace]

theorem changes_element {tag : String} {props props' : Props} {cs ds : List Node}
    (h : (element tag props cs).mustReplace (element tag props' ds) = false) :
    (element tag props cs).changes (element tag props' ds) = allChanges cs ds := by
  rw [changes, if_neg (Bool.eq_false_iff.1 h)]

theorem changes_portal (target : NodeId) (cs ds : List Node) :
    (portal target cs).changes (portal target ds) = .refill target cs :: allChanges cs ds := by
  simp [changes, mustReplace]

theorem compares_isChange :
    Compares (fun new old => ∀ c ∈ new.changes old, IsChange new.portals old.portals c)
      fun new old => ∀ c ∈ allChanges new old, IsChange (allPortals new) (allPortals old) c where
  replaced h c hc := by
    rw [changes_of_mustReplace h] at hc
    exact (List.mem_append.1 hc).elim isChange_of_going isChange_of_coming
  text s c hc := by
    rw [changes_text] at hc
    cases hc
  element h hcs c hc := by
    rw [changes_element h] at hc
    exact hcs c hc
  portal hcs c hc := by
    rw [changes_portal] at hc
    rcases List.mem_cons.1 hc with rfl | hc
    · exact ⟨List.mem_cons_self .., List.mem_cons_self ..⟩
    · exact (hcs c hc).mono (List.subset_cons_self ..) (List.subset_cons_self ..)
  nil os c hc := isChange_of_going hc
  cons hn hns c hc := by
    rcases List.mem_append.1 hc with hc | hc
    · exact (hn c hc).mono (List.subset_append_left ..) (List.subset_append_left ..)
    · exact (hns c hc).mono (List.subset_append_right ..) (List.subset_append_right ..)
  more n _ hns c hc := by
    rcases List.mem_append.1 hc with hc | hc
    · exact (isChange_of_coming hc).mono (List.subset_append_left ..) (List.Subset.refl _)
    · exact (hns c hc).mono (List.subset_append_right ..) (List.Subset.refl _)

theorem isChange_of_changes (new old : Node) :
    ∀ c ∈ new.changes old, IsChange new.portals old.portals c :=
  compares_isChange.one new old

theorem isChange_of_allChanges (new old : List Node) :
    ∀ c ∈ allChanges new old, IsChange (allPortals new) (allPortals old) c :=
  compares_isChange.all new old

theorem compares_going :
    Compares (fun new old => new.portals = [] → new.changes old = TargetChange.going old.portals)
      fun new old => allPortals new = [] →
        allChanges new old = TargetChange.going (allPortals old) where
  replaced h hnew := by
    rw [changes_of_mustReplace h, hnew]
    exact List.append_nil _
  text s _ := changes_text s
  element h hcs hnew := (changes_element h).trans (hcs hnew)
  portal _ hnew := nomatch hnew
  nil _ _ := rfl
  cons hn hns hnew := by
    obtain ⟨hnew₁, hnew₂⟩ := List.append_eq_nil_iff.1 hnew
    rw [allChanges, hn hnew₁, hns hnew₂]
    exact List.map_append.symm
  more n _ hns hnew := by
    obtain ⟨hnew₁, hnew₂⟩ := List.append_eq_nil_iff.1 hnew
    rw [allChanges, hnew₁]
    exact hns hnew₂

/-- To descriptions without portals all old portals go. -/
theorem allChanges_of_allPortals_eq_nil {new : List Node} (hnew : allPortals new = [])
    (old : List Node) : allChanges new old = TargetChange.going (allPortals old) :=
  compares_going.all new old hnew

end Node

end LiveMarkup
