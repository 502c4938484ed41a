import LiveMarkup.Proofs.Page.Binding

/-!
# Subtrees that show a description

A subtree shows a description when it is made like it, node by node: a text is a
text node, an element is a live element whose subtrees show the children in
order, and a portal is an empty comment. What a live element has to be for a tag
and its properties is left open (`ElementRel`). It may be asked to have the right
name only, which is what `Mirrors` does, or to be just what the properties make
of a new element, as in `IsBuiltFor`.
-/

namespace LiveMarkup

/-- What a live element has to be for a tag and properties. -/
abbrev ElementRel := String → Props → Element → Prop

/-- A live element has the name of a tag. -/
def ElementRel.named : ElementRel :=
  fun tag _ e => e.name = .ofTag tag

/-- A live element is the new element of a tag with properties. -/
def ElementRel.built : ElementRel :=
  fun tag props e => e = .ofProps tag props

mutual

/-- How many live nodes stand in the place of a description. -/
def Node.size : Node → Nat
  | .text _ => 1
  | .element _ _ cs => 1 + Node.allSize cs
  | .portal _ _ => 1
termination_by structural n => n

/-- How many live nodes stand in the place of descriptions. -/
def Node.allSize : List Node → Nat
  | [] => 0
  | n :: ns => n.size + Node.allSize ns
termination_by structural ns => ns

end

namespace Subtree

mutual

/-- Whether a subtree shows a description. -/
def Shows (R : ElementRel) : Node → Subtree → Prop
  | .text s, t => t.data = .text s ∧ t.children = []
  | .element tag props cs, t =>
    (∃ e, t.data = .element e ∧ R tag props e) ∧ AllShow R cs t.children
  | .portal _ _, t => t.data = .comment ∧ t.children = []
termination_by structural n => n

/-- Whether subtrees show descriptions one for one. -/
def AllShow (R : ElementRel) : List Node → List Subtree → Prop
  | [], [] => True
  | n :: ns, t :: ts => Shows R n t ∧ AllShow R ns ts
  | _, _ => False
termination_by structural ns => ns

end

/-- Whether a subtree is made like a description, the elements by name. -/
abbrev Mirrors : Node → Subtree → Prop :=
  Shows .named

/-- Whether subtrees are made like descriptions, one for one. -/
abbrev AllMirror : List Node → List Subtree → Prop :=
  AllShow .named

/-- Whether a subtree is what mounting makes of a description. -/
abbrev IsBuiltFor : Node → Subtree → Prop :=
  Shows .built

/-- Whether subtrees are what mounting makes of descriptions. -/
abbrev AreBuiltFor : List Node → List Subtree → Prop :=
  AllShow .built

variable {R R' : ElementRel}

@[simp] theorem allShow_nil_left {ts : List Subtree} : AllShow R [] ts ↔ ts = [] := by
  cases ts <;> simp [AllShow]

@[simp] theorem allShow_nil_right {ns : List Node} : AllShow R ns [] ↔ ns = [] := by
  cases ns <;> simp [AllShow]

@[simp] theorem allShow_cons_cons {n : Node} {ns : List Node} {t : Subtree} {ts : List Subtree} :
    AllShow R (n :: ns) (t :: ts) ↔ Shows R n t ∧ AllShow R ns ts :=
  Iff.rfl

theorem allShow_cons {n : Node} {ns : List Node} {ts : List Subtree} :
    AllShow R (n :: ns) ts ↔ ∃ t us, ts = t :: us ∧ Shows R n t ∧ AllShow R ns us := by
  constructor
  · intro h
    cases ts with
    | nil => exact h.elim
    | cons t us => exact ⟨t, us, rfl, h⟩
  · rintro ⟨t, us, rfl, h⟩
    exact h

theorem AllShow.append {ns ms : List Node} {ts us : List Subtree} (h : AllShow R ns ts)
    (h' : AllShow R ms us) : AllShow R (ns ++ ms) (ts ++ us) := by
  induction ns generalizing ts with
  | nil =>
      rw [allShow_nil_left.1 h]
      exact h'
  | cons n ns ih =>
      obtain ⟨t, ts', rfl, hn, hns⟩ := allShow_cons.1 h
      exact ⟨hn, ih hns⟩

/-- What shows some descriptions and then more is made of two parts. -/
theorem AllShow.split {ns ms : List Node} {ts : List Subtree} (h : AllShow R (ns ++ ms) ts) :
    ∃ us vs, ts = us ++ vs ∧ AllShow R ns us ∧ AllShow R ms vs := by
  induction ns generalizing ts with
  | nil => exact ⟨[], ts, rfl, trivial, h⟩
  | cons n ns ih =>
      obtain ⟨t, ts', rfl, hn, hns⟩ := allShow_cons.1 h
      obtain ⟨us, vs, rfl, hus, hvs⟩ := ih hns
      exact ⟨t :: us, vs, rfl, ⟨hn, hus⟩, hvs⟩

mutual

theorem Shows.mono (hR : ∀ tag props e, R tag props e → R' tag props e) :
    ∀ {n : Node} {t : Subtree}, Shows R n t → Shows R' n t
  | .text _, _, h => h
  | .element _ _ _, _, ⟨⟨e, he, hr⟩, hcs⟩ => ⟨⟨e, he, hR _ _ e hr⟩, AllShow.mono hR hcs⟩
  | .portal _ _, _, h => h
termination_by structural n => n

theorem AllShow.mono (hR : ∀ tag props e, R tag props e → R' tag props e) :
    ∀ {ns : List Node} {ts : List Subtree}, AllShow R ns ts → AllShow R' ns ts
  | [], [], h => h
  | _ :: _, _ :: _, ⟨hn, hns⟩ => ⟨Shows.mono hR hn, AllShow.mono hR hns⟩
termination_by structural ns => ns

end

/-- What mounting makes is made like the description. -/
theorem Shows.mirrors {n : Node} {t : Subtree} (h : IsBuiltFor n t) : Mirrors n t :=
  h.mono fun _ _ _ he => he ▸ Element.name_ofProps _ _

theorem AllShow.mirror {ns : List Node} {ts : List Subtree} (h : AreBuiltFor ns ts) :
    AllMirror ns ts :=
  h.mono fun _ _ _ he => he ▸ Element.name_ofProps _ _

theorem isBuiltFor_element {tag : String} {props : Props} {cs : List Node} {t : Subtree} :
    IsBuiltFor (.element tag props cs) t ↔
      ∃ id ts, t = .node id (.element (.ofProps tag props)) ts ∧ AreBuiltFor cs ts := by
  constructor
  · intro h
    cases t with
    | node id data ts =>
        obtain ⟨⟨e, he, hbuilt⟩, hcs⟩ := h
        obtain rfl : data = .element e := he
        obtain rfl : e = .ofProps tag props := hbuilt
        exact ⟨id, ts, rfl, hcs⟩
  · rintro ⟨id, ts, rfl, hcs⟩
    exact ⟨⟨_, rfl, rfl⟩, hcs⟩

theorem isBuiltFor_text {s : String} {t : Subtree} :
    IsBuiltFor (.text s) t ↔ ∃ id, t = .node id (.text s) [] := by
  constructor
  · intro h
    cases t with
    | node id data ts =>
        obtain ⟨rfl, rfl⟩ : data = .text s ∧ ts = [] := h
        exact ⟨id, rfl⟩
  · rintro ⟨id, rfl⟩
    exact ⟨rfl, rfl⟩

mutual

theorem Shows.length_ids : ∀ {n : Node} {t : Subtree}, Shows R n t → t.ids.length = n.size
  | .text _, .node _ _ cs, h => by
      have hcs : cs = [] := h.2
      rw [hcs]
      rfl
  | .element _ _ ns, .node _ _ cs, h => by
      have hcs : (allIds cs).length = Node.allSize ns := AllShow.length_allIds h.2
      rw [ids_node, List.length_cons, Node.size, hcs, Nat.add_comm]
  | .portal _ _, .node _ _ cs, h => by
      have hcs : cs = [] := h.2
      rw [hcs]
      rfl

theorem AllShow.length_allIds : ∀ {ns : List Node} {ts : List Subtree}, AllShow R ns ts →
    (allIds ts).length = Node.allSize ns
  | [], [], _ => rfl
  | _ :: _, _ :: _, ⟨hn, hns⟩ => by
      rw [allIds_cons, List.length_append, Shows.length_ids hn, AllShow.length_allIds hns]
      rfl

end

end Subtree

end LiveMarkup
