import LiveMarkup.Node.Make
import Mathlib.Logic.Relation

/-!
# Lists open up

How values are grouped into lists makes no difference to what they show. What counts
are their leaves, the values other than lists at whatever depth they stand, in order:
each shows the node that it is, or its text, or nothing (`flatten_eq_filterMap`). A run
of values may be put into a list of its own at any place, and values become one another
by such steps and their reverses exactly when they have the same leaves
(`regrouped_iff`).

So a list with nothing to show goes without a trace wherever it stands
(`Place.flatten_fill_eq_iff`), and children, which are matched by their number later on,
keep their numbers.
-/

namespace LiveMarkup.Value

/-! ## Leaves -/

/-- A value other than a list. -/
def IsLeaf (v : Value) : Prop :=
  ∀ items, v ≠ .list items

mutual

/-- The leaves of a value: those of its items if it is a list, and else the value. -/
def leaves : Value → List Value
  | .list items => allLeaves items
  | v => [v]
termination_by structural v => v

/-- The leaves of values, in order. -/
def allLeaves : List Value → List Value
  | [] => []
  | v :: vs => v.leaves ++ allLeaves vs
termination_by structural vs => vs

end

/-- What a leaf shows: the node that it is, or its text if it has one. -/
def shown? : Value → Option Node
  | .node n => some n
  | .list _ => none
  | v => v.text?.map .text

/-- Whatever holds of values as soon as it holds of those behind the first and, if the
first is a list, of its items, holds of all values. -/
theorem nestingInduction {motive : List Value → Prop} (nil : motive [])
    (leaf : ∀ v vs, v.IsLeaf → motive vs → motive (v :: vs))
    (list : ∀ items vs, motive items → motive vs → motive (.list items :: vs)) :
    ∀ vs, motive vs
  | [] => nil
  | .list items :: vs =>
      list items vs (nestingInduction nil leaf list items) (nestingInduction nil leaf list vs)
  | .null :: vs | .bool _ :: vs | .number _ :: vs | .str _ :: vs | .node _ :: vs
  | .map _ :: vs | .listener _ :: vs | .component _ :: vs | .ref _ :: vs =>
      leaf _ vs (by simp [IsLeaf]) (nestingInduction nil leaf list vs)

@[simp] theorem allLeaves_nil : allLeaves [] = [] := rfl

@[simp] theorem allLeaves_cons (v : Value) (vs : List Value) :
    allLeaves (v :: vs) = v.leaves ++ allLeaves vs := rfl

@[simp] theorem leaves_list (vs : List Value) : (list vs).leaves = allLeaves vs := rfl

theorem IsLeaf.leaves_eq {v : Value} (h : v.IsLeaf) : v.leaves = [v] := by
  cases v with
  | list items => exact absurd rfl (h items)
  | _ => rfl

theorem IsLeaf.nodes_eq {v : Value} (h : v.IsLeaf) : v.nodes = v.shown?.toList := by
  cases v with
  | list items => exact absurd rfl (h items)
  | _ => rfl

@[simp] theorem allLeaves_append (vs ws : List Value) :
    allLeaves (vs ++ ws) = allLeaves vs ++ allLeaves ws := by
  induction vs with
  | nil => rfl
  | cons v vs ih => simp [ih]

theorem isLeaf_of_mem_allLeaves {vs : List Value} : ∀ v ∈ allLeaves vs, v.IsLeaf := by
  induction vs using nestingInduction with
  | nil => simp
  | leaf v vs hv ih => simpa [hv.leaves_eq] using ⟨hv, ih⟩
  | list items vs hitems ih =>
      simpa [or_imp, forall_and] using ⟨hitems, ih⟩

/-- Nodes, strings, numbers and flags are what shows. -/
theorem isSome_shown?_iff (v : Value) :
    v.shown?.isSome ↔
      (∃ n, v = .node n) ∨ (∃ s, v = .str s) ∨ (∃ x, v = .number x) ∨ ∃ b, v = .bool b := by
  cases v <;> simp [shown?, text?]

/-- Values show what their leaves show. -/
theorem flatten_eq_filterMap (vs : List Value) : flatten vs = (allLeaves vs).filterMap shown? := by
  induction vs using nestingInduction with
  | nil => rfl
  | leaf v vs hv ih => cases h : v.shown? <;> simp [hv.leaves_eq, hv.nodes_eq, h, ih]
  | list items vs hitems ih => simp [hitems, ih]

theorem flatten_eq_nil_iff (vs : List Value) :
    flatten vs = [] ↔ ∀ v ∈ allLeaves vs, v.shown? = none := by
  rw [flatten_eq_filterMap, List.filterMap_eq_nil_iff]

/-! ## Places -/

/-- A place among values: between some of them and the others, or in a list that stands
between some of them and the others. -/
inductive Place where
  | here (before after : List Value)
  | inside (before : List Value) (place : Place) (after : List Value)

namespace Place

/-- The values with a run of values at a place. -/
def fill (run : List Value) : Place → List Value
  | here before after => before ++ run ++ after
  | inside before place after => before ++ list (place.fill run) :: after

/-- What stands before a place, without the lists around it. -/
def before : Place → List Value
  | here before _ => before
  | inside before place _ => before ++ place.before

/-- What stands behind a place, without the lists around it. -/
def after : Place → List Value
  | here _ after => after
  | inside _ place after => place.after ++ after

theorem allLeaves_fill (p : Place) (run : List Value) :
    allLeaves (p.fill run) = allLeaves p.before ++ allLeaves run ++ allLeaves p.after := by
  induction p with
  | here before after => simp [fill, Place.before, Place.after]
  | inside before place after ih => simp [fill, Place.before, Place.after, ih]

/-- What is at a place shows what it shows alone, between what stands before and behind. -/
theorem flatten_fill (p : Place) (run : List Value) :
    flatten (p.fill run) = flatten p.before ++ flatten run ++ flatten p.after := by
  simp only [flatten_eq_filterMap, allLeaves_fill, List.filterMap_append]

/-- What is at a place may be left out exactly when it shows nothing. -/
theorem flatten_fill_eq_iff (p : Place) (run : List Value) :
    flatten (p.fill run) = flatten (p.fill []) ↔ ∀ v ∈ allLeaves run, v.shown? = none := by
  rw [← flatten_eq_nil_iff, flatten_fill, flatten_fill]
  simp

end Place

/-! ## Groups -/

variable {vs ws : List Value} {v w : Value}

/-- A run of values is put into a list of its own. -/
inductive Grouped : List Value → List Value → Prop where
  | group (p : Place) (run : List Value) : Grouped (p.fill run) (p.fill [.list run])

/-- Values that become one another by putting runs into lists and by opening lists. -/
def Regrouped : List Value → List Value → Prop :=
  Relation.EqvGen Grouped

theorem Grouped.allLeaves_eq (h : Grouped vs ws) : allLeaves vs = allLeaves ws := by
  obtain ⟨p, run⟩ := h
  simp [Place.allLeaves_fill]

theorem Regrouped.allLeaves_eq (h : Regrouped vs ws) : allLeaves vs = allLeaves ws := by
  induction h with
  | rel _ _ h => exact h.allLeaves_eq
  | refl _ => rfl
  | symm _ _ _ ih => exact ih.symm
  | trans _ _ _ _ _ ih ih' => exact ih.trans ih'

theorem Grouped.regrouped (h : Grouped vs ws) : Regrouped vs ws :=
  .rel _ _ h

theorem Regrouped.symm (h : Regrouped vs ws) : Regrouped ws vs :=
  Relation.EqvGen.symm _ _ h

theorem Regrouped.trans {us : List Value} (h : Regrouped us vs) (h' : Regrouped vs ws) :
    Regrouped us ws :=
  Relation.EqvGen.trans _ _ _ h h'

/-- Values may be opened down to their leaves where they stand. -/
theorem regrouped_allLeaves (vs before after : List Value) :
    Regrouped (before ++ vs ++ after) (before ++ allLeaves vs ++ after) := by
  induction vs using nestingInduction generalizing before after with
  | nil => exact .refl _
  | leaf v vs hv ih => simpa [hv.leaves_eq] using ih (before ++ [v]) after
  | list items vs hitems ih =>
      -- A list is opened before its items are, so that no place inside a list is needed.
      have hopen : Grouped (before ++ items ++ (vs ++ after))
          (before ++ .list items :: (vs ++ after)) := by
        simpa [Place.fill] using Grouped.group (.here before (vs ++ after)) items
      have hfirst : Regrouped (before ++ .list items :: (vs ++ after))
          (before ++ allLeaves items ++ (vs ++ after)) :=
        hopen.regrouped.symm.trans (hitems before (vs ++ after))
      have hrest : Regrouped (before ++ allLeaves items ++ (vs ++ after))
          (before ++ allLeaves items ++ allLeaves vs ++ after) := by
        simpa using ih (before ++ allLeaves items) after
      simpa using hfirst.trans hrest

/-- The leaves are all that regrouping keeps. -/
theorem regrouped_iff : Regrouped vs ws ↔ allLeaves vs = allLeaves ws := by
  refine ⟨Regrouped.allLeaves_eq, fun h => ?_⟩
  have hvs : Regrouped vs (allLeaves vs) := by simpa using regrouped_allLeaves vs [] []
  have hws : Regrouped ws (allLeaves ws) := by simpa using regrouped_allLeaves ws [] []
  exact hvs.trans (h ▸ hws.symm)

/-! ## Children -/

/-- Nodes are the children of the elements and the portals that are made of values. -/
structure AreChildren (vs : List Value) (ns : List Node) : Prop where
  element : ∀ components tag props, Text.trim tag ≠ "" →
    make components (.str tag) props vs = .ok (.node (.element (normalTag tag) props ns))
  portal : ∀ target, Node.portalOf (.list vs) target = .portal target ns

theorem areChildren_flatten (vs : List Value) : AreChildren vs (flatten vs) where
  element components tag props htag := by simp [make, htag, Node.ofTag]
  portal target := by simp [Node.portalOf]

theorem Regrouped.flatten_eq (h : Regrouped vs ws) : flatten vs = flatten ws := by
  rw [flatten_eq_filterMap, flatten_eq_filterMap, h.allLeaves_eq]

/-- Children make the same however they are grouped. Only a component has them as they are
and may tell them apart. -/
theorem Regrouped.make_eq_iff (h : Regrouped vs ws) (components : Components) (type : Value)
    (props : Props) :
    make components type props vs = make components type props ws ↔
      ∀ c, type = .component c → components c props vs = components c props ws := by
  cases type <;> simp [make, h.flatten_eq]

theorem Regrouped.portalOf_eq (h : Regrouped [v] [w]) (target : NodeId) :
    Node.portalOf v target = Node.portalOf w target := by
  rw [Node.portalOf, Node.portalOf, h.flatten_eq]

/-- Nesting makes no difference. Values behind others show what they show alone, and a run
of them at any place shows the same as a list of its own there. What is shown is a node for
each leaf that is a node, a string, a number or a flag, in the order of the leaves, and
nothing for other leaves, so that a run goes without a trace exactly when none of its leaves
is of these kinds. Nodes that were shown show themselves again. What is shown are the
children of elements and portals. Values become one another by regrouping exactly when they
have the same leaves, and then the same is made of them. -/
theorem nesting_ignored (p : Place) (vs ws : List Value) :
    flatten (vs ++ ws) = flatten vs ++ flatten ws ∧
      flatten (p.fill [.list vs]) = flatten (p.fill vs) ∧
      flatten vs = (allLeaves vs).filterMap shown? ∧
      (∀ v ∈ allLeaves vs, v.IsLeaf ∧ (v.shown?.isSome ↔
        (∃ n, v = .node n) ∨ (∃ s, v = .str s) ∨ (∃ x, v = .number x) ∨ ∃ b, v = .bool b)) ∧
      (flatten (p.fill vs) = flatten (p.fill []) ↔ ∀ v ∈ allLeaves vs, v.shown? = none) ∧
      flatten ((flatten vs).map .node) = flatten vs ∧
      AreChildren vs (flatten vs) ∧
      (Regrouped vs ws ↔ allLeaves vs = allLeaves ws) ∧
      (Regrouped vs ws → ∀ components type props,
        make components type props vs = make components type props ws ↔
          ∀ c, type = .component c → components c props vs = components c props ws) ∧
      ∀ v w, Regrouped [v] [w] → ∀ target, Node.portalOf v target = Node.portalOf w target := by
  have hgroup : Regrouped (p.fill vs) (p.fill [.list vs]) := (Grouped.group p vs).regrouped
  exact ⟨flatten_append vs ws, hgroup.flatten_eq.symm, flatten_eq_filterMap vs,
    fun v hv => ⟨isLeaf_of_mem_allLeaves v hv, isSome_shown?_iff v⟩,
    p.flatten_fill_eq_iff vs, flatten_map_node (flatten vs), areChildren_flatten vs,
    regrouped_iff, Regrouped.make_eq_iff, fun _ _ => Regrouped.portalOf_eq⟩

/-- Children with little grouping, some of which show nothing. -/
def loose : List Value :=
  [.null, .str "a", .list [.bool true, .null, .list [.str "b"]], .list [], .str ""]

/-- The same children in other lists. -/
def tight : List Value :=
  [.list [.null, .list [.str "a", .bool true]], .list [.null], .list [.str "b", .str ""]]

theorem nesting_ignored_loose :
    Regrouped loose tight ∧ Text.trim " P " = "P" ∧ normalTag " P " = "p" ∧
      make (fun _ _ _ => .ok .null) (.str " P ") .empty loose =
        make (fun _ _ _ => .ok .null) (.str " P ") .empty tight ∧
      make (fun _ _ _ => .ok .null) (.str " P ") .empty loose =
        .ok (.node (.element "p" .empty [.text "a", .text "true", .text "b", .text ""])) ∧
      Node.portalOf (.list loose) 7 = Node.portalOf (.list tight) 7 := by
  obtain ⟨-, -, -, -, -, -, hchildren, hleaves, hmake, hportal⟩ :=
    nesting_ignored (.here [] []) loose tight
  have hregrouped : Regrouped loose tight := hleaves.2 rfl
  have hlists : Regrouped [.list loose] [.list tight] := regrouped_iff.2 rfl
  have htrim : Text.trim " P " = "P" := by decide
  have htag : normalTag " P " = "p" := by decide
  refine ⟨hregrouped, htrim, htag, (hmake hregrouped _ _ _).2 (by simp), ?_,
    hportal _ _ hlists 7⟩
  rw [hchildren.element _ _ _ (by simp [htrim]), htag]
  rfl

end LiveMarkup.Value
