import LiveMarkup.Proofs.Page.Shows
import Mathlib.Data.List.Nodup

/-!
# What the refs point at

A description says by its `ref` properties which ref is to point at which of its
live elements (`Node.bindings`). Making a live node, bringing it in line and
removing it take the refs from the bindings of the old description to those of
the new one (`Repoints`). A ref may be bound at its new place before it is
released at its old one. That does no harm, since a ref is released only while it
points at the live node that it is taken from, and one step after the other is
again such a change as long as the live nodes that are released later are not
those bound before (`Repoints.trans`).
-/

namespace LiveMarkup

open Subtree

/-! ## The refs of a description -/

/-- The ref that a value is. -/
def Value.ref? : Value → Option Ref
  | .ref r => some r
  | _ => none

/-- The ref of an element with some properties. -/
def Props.ref? (props : Props) : Option Ref :=
  (props.get? "ref").bind Value.ref?

namespace Value

theorem bind_ref?_present? (v : Option Value) : (present? v).bind ref? = v.bind ref? := by
  cases v with
  | none => rfl
  | some v => cases v <;> rfl

/-- No ref counts as false. -/
theorem bind_ref?_filter (v : Option Value) : (v.filter isTruthy).bind ref? = v.bind ref? := by
  cases v with
  | none => rfl
  | some v =>
      cases hv : v.isTruthy with
      | true => rw [Option.filter_some_pos hv]
      | false =>
          rw [Option.filter_some_neg (by simp [hv])]
          cases v <;> first | rfl | cases hv

theorem bind_ref?_eq_none {v : Option Value} (h : ∀ r, v ≠ some (.ref r)) :
    v.bind ref? = none := by
  cases v with
  | none => rfl
  | some v =>
      cases v with
      | ref r => exact absurd rfl (h r)
      | _ => rfl

theorem bind_ref?_eq_of_beq {v w : Option Value} (h : (v == w) = true) :
    v.bind ref? = w.bind ref? := by
  cases v with
  | none =>
      cases w with
      | none => rfl
      | some w => cases h
  | some v =>
      cases w with
      | none => cases h
      | some w =>
          have hsame : v.same w = true := h
          cases v with
          | ref r =>
              cases w with
              | ref s => exact congrArg some (eq_of_beq hsame)
              | _ => cases hsame
          | _ =>
              cases w with
              | ref s => cases hsame
              | _ => rfl

end Value

theorem Slot.eq_of_ofName_eq_ref {name : String} (h : Slot.ofName name = .ref) : name = "ref" := by
  unfold Slot.ofName at h
  repeat' split at h
  all_goals first | assumption | cases h

/-- Refs together with the live nodes that they are to point at. -/
abbrev Bindings := List (Ref × NodeId)

namespace Bindings

/-- The binding of a live element to its ref, if it has one. -/
def own (r : Option Ref) (id : NodeId) : Bindings :=
  r.toList.map fun r => (r, id)

/-- Where a ref points when bindings are released. -/
def released (bs : Bindings) (r : Ref) (current : Option NodeId) : Option NodeId :=
  current.filter fun id => (r, id) ∉ bs

variable {bs : Bindings} {r : Ref} {id : NodeId}

@[simp] theorem own_none (id : NodeId) : own none id = [] :=
  rfl

theorem snd_of_mem_own {r : Option Ref} {q : Ref × NodeId} (h : q ∈ own r id) : q.2 = id := by
  obtain ⟨s, -, rfl⟩ := List.mem_map.1 h
  rfl

theorem released_of_mem (h : (r, id) ∈ bs) : bs.released r (some id) = none :=
  Option.filter_some_neg (by simpa using h)

theorem released_of_notMem (h : (r, id) ∉ bs) : bs.released r (some id) = some id :=
  Option.filter_some_pos (by simpa using h)

@[simp] theorem released_none (bs : Bindings) (r : Ref) : bs.released r none = none :=
  rfl

@[simp] theorem released_nil (r : Ref) (current : Option NodeId) :
    released [] r current = current := by
  cases current <;> rfl

theorem released_append (bs cs : Bindings) (r : Ref) (current : Option NodeId) :
    (bs ++ cs).released r current = cs.released r (bs.released r current) := by
  rw [released, released, released, Option.filter_filter]
  simp [not_or]

/-- A ref that is not among those of the bindings is left alone. -/
theorem released_of_notMem_keys (h : r ∉ bs.map (·.1)) (current : Option NodeId) :
    bs.released r current = current := by
  cases current with
  | none => rfl
  | some id => exact released_of_notMem fun hm => h (List.mem_map_of_mem hm)

end Bindings

namespace Node

mutual

/-- The refs of the elements of a description. -/
def refs : Node → List Ref
  | .text _ => []
  | .element _ props cs => (Props.ref? props).toList ++ allRefs cs
  | .portal _ _ => []
termination_by structural n => n

/-- The refs of the elements of descriptions. -/
def allRefs : List Node → List Ref
  | [] => []
  | n :: ns => n.refs ++ allRefs ns
termination_by structural ns => ns

end

mutual

/-- The refs of the elements of a description, each with the live element in its
place. -/
def bindings : Node → Subtree → Bindings
  | .text _, _ => []
  | .element _ props cs, t => Bindings.own (Props.ref? props) t.id ++ allBindings cs t.children
  | .portal _ _, _ => []
termination_by structural n => n

/-- The refs of the elements of descriptions, each with the live element in its
place. -/
def allBindings : List Node → List Subtree → Bindings
  | n :: ns, t :: ts => n.bindings t ++ allBindings ns ts
  | _, _ => []
termination_by structural ns => ns

end

mutual

/-- Whether a description has no portals, and no element of it two properties of
one name. -/
def Bare : Node → Prop
  | .text _ => True
  | .element _ props cs => props.Distinct ∧ AllBare cs
  | .portal _ _ => False
termination_by structural n => n

/-- Whether descriptions have no portals, and no element of theirs two properties
of one name. -/
def AllBare : List Node → Prop
  | [] => True
  | n :: ns => n.Bare ∧ AllBare ns
termination_by structural ns => ns

end

@[simp] theorem allBindings_nil_left (ts : List Subtree) : allBindings [] ts = [] := by
  cases ts <;> rfl

@[simp] theorem allBindings_cons_cons (n : Node) (ns : List Node) (t : Subtree)
    (ts : List Subtree) : allBindings (n :: ns) (t :: ts) = n.bindings t ++ allBindings ns ts :=
  rfl

mutual

/-- Each ref of a description is bound once in a subtree that is made like it. -/
theorem keys_bindings : ∀ {n : Node} {t : Subtree}, Mirrors n t →
    (n.bindings t).map (·.1) = n.refs
  | .text _, _, _ => rfl
  | .element _ props cs, t, h => by
      rw [bindings, refs, List.map_append, keys_allBindings h.2, Bindings.own, List.map_map]
      exact congrArg (· ++ allRefs cs) (List.map_id _)
  | .portal _ _, _, _ => rfl

theorem keys_allBindings : ∀ {ns : List Node} {ts : List Subtree}, AllMirror ns ts →
    (allBindings ns ts).map (·.1) = allRefs ns
  | [], [], _ => rfl
  | _ :: _, _ :: _, ⟨hn, hns⟩ => by
      rw [allBindings_cons_cons, List.map_append, keys_bindings hn, keys_allBindings hns, allRefs]

end

mutual

/-- The live elements that a description binds are in its subtree. -/
theorem mem_ids_of_mem_bindings : ∀ {n : Node} {t : Subtree} {q : Ref × NodeId},
    q ∈ n.bindings t → q.2 ∈ t.ids
  | .text _, _, _, h => by cases h
  | .element _ _ _, .node _ _ _, _, h => by
      rw [ids_node, List.mem_cons]
      rcases List.mem_append.1 h with h | h
      · exact Or.inl (Bindings.snd_of_mem_own h)
      · exact Or.inr (mem_allIds_of_mem_allBindings h)
  | .portal _ _, _, _, h => by cases h

theorem mem_allIds_of_mem_allBindings : ∀ {ns : List Node} {ts : List Subtree} {q : Ref × NodeId},
    q ∈ allBindings ns ts → q.2 ∈ allIds ts
  | [], _, _, h => by
      rw [allBindings_nil_left] at h
      cases h
  | _ :: _, [], _, h => by cases h
  | n :: ns, t :: ts, q, h => by
      rw [allIds_cons, List.mem_append]
      rcases List.mem_append.1 h with h | h
      · exact Or.inl (mem_ids_of_mem_bindings h)
      · exact Or.inr (mem_allIds_of_mem_allBindings h)

end

end Node

/-! ## From old bindings to new ones -/

/-- Refs have gone over from old bindings to new ones: those that are newly bound
point where they are to point, and of the others those that pointed where the old
bindings say point nowhere and the rest is as it was. -/
structure Repointed (m m' : OrderedMap Ref NodeId) (new old : Bindings) : Prop where
  distinct : m'.Distinct
  bound : ∀ q ∈ new, m'.get? q.1 = some q.2
  rest : ∀ r, r ∉ new.map (·.1) → m'.get? r = old.released r (m.get? r)

/-- Refs go over from old bindings to new ones, no two of one ref, if the
bindings that stay were in place. -/
def Repoints (m m' : OrderedMap Ref NodeId) (new old : Bindings) : Prop :=
  m.Distinct → (new.map (·.1)).Nodup → (∀ q ∈ old, q ∈ new → m.get? q.1 = some q.2) →
    Repointed m m' new old

namespace Repoints

variable {m m₁ m₂ : OrderedMap Ref NodeId} {new new₁ new₂ old old₁ old₂ : Bindings}

/-- Bindings that stay need no change. -/
theorem keep (m : OrderedMap Ref NodeId) (bs : Bindings) : Repoints m m bs bs := by
  intro hm _ hkept
  exact ⟨hm, fun q hq => hkept q hq hq, fun r hr => (Bindings.released_of_notMem_keys hr _).symm⟩

theorem refl (m : OrderedMap Ref NodeId) : Repoints m m [] [] :=
  keep m []

/-- One change after the other, where the later one releases no binding that the
earlier one made, and keeps none that the earlier one released. -/
theorem trans (h₁ : Repoints m m₁ new₁ old₁) (h₂ : Repoints m₁ m₂ new₂ old₂)
    (hnew : ∀ q ∈ old₂, q ∉ new₁) (hold : ∀ q ∈ old₂, q ∈ new₂ → q ∉ old₁) :
    Repoints m m₂ (new₁ ++ new₂) (old₁ ++ old₂) := by
  intro hm hn hkept
  rw [List.map_append] at hn
  obtain ⟨hn₁, hn₂, hapart⟩ := List.nodup_append.1 hn
  have hs₁ := h₁ hm hn₁ fun q ho hq =>
    hkept q (List.mem_append_left _ ho) (List.mem_append_left _ hq)
  have hkept₂ : ∀ q ∈ old₂, q ∈ new₂ → m₁.get? q.1 = some q.2 := by
    intro q ho hq
    have hout : q.1 ∉ new₁.map (·.1) := fun h => hapart _ h _ (List.mem_map_of_mem hq) rfl
    have hcur := hkept q (List.mem_append_right _ ho) (List.mem_append_right _ hq)
    rw [hs₁.rest q.1 hout, hcur]
    exact Bindings.released_of_notMem (hold q ho hq)
  have hs₂ := h₂ hs₁.distinct hn₂ hkept₂
  refine ⟨hs₂.distinct, fun q hq => ?_, fun r hr => ?_⟩
  · rcases List.mem_append.1 hq with hq | hq
    · have hout : q.1 ∉ new₂.map (·.1) := fun h => hapart _ (List.mem_map_of_mem hq) _ h rfl
      rw [hs₂.rest q.1 hout, hs₁.bound q hq]
      exact Bindings.released_of_notMem fun ho => hnew q ho hq
    · exact hs₂.bound q hq
  · rw [List.map_append, List.mem_append, not_or] at hr
    rw [hs₂.rest r hr.2, hs₁.rest r hr.1, Bindings.released_append]

/-- Bindings are made after others are released. -/
theorem release_bind (h₁ : Repoints m m₁ [] old) (h₂ : Repoints m₁ m₂ new []) :
    Repoints m m₂ new old := by
  have h := h₁.trans h₂ (fun _ h => by cases h) (fun _ h => by cases h)
  rwa [List.nil_append, List.append_nil] at h

/-- Bindings are released after others. -/
theorem release_release (h₁ : Repoints m m₁ [] old₁) (h₂ : Repoints m₁ m₂ [] old₂) :
    Repoints m m₂ [] (old₁ ++ old₂) :=
  h₁.trans h₂ (fun _ _ h => by cases h) (fun _ _ h => by cases h)

/-- Bindings are made after others. -/
theorem bind_bind (h₁ : Repoints m m₁ new₁ []) (h₂ : Repoints m₁ m₂ new₂ []) :
    Repoints m m₂ (new₁ ++ new₂) [] :=
  h₁.trans h₂ (fun _ h => by cases h) (fun _ h => by cases h)

/-- Bindings that are released need not be released again. -/
theorem once (h : Repoints m m₁ new (old ++ old)) : Repoints m m₁ new old := by
  intro hm hn hkept
  have hs := h hm hn fun q ho => hkept q ((List.mem_append.1 ho).elim (fun h => h) fun h => h)
  refine ⟨hs.distinct, hs.bound, fun r hr => ?_⟩
  rw [hs.rest r hr, Bindings.released_append]
  cases m.get? r with
  | none => rfl
  | some id =>
      by_cases hid : (r, id) ∈ old
      · rw [Bindings.released_of_mem hid, Bindings.released_none]
      · rw [Bindings.released_of_notMem hid, Bindings.released_of_notMem hid]

/-- The order in which new bindings are listed does not matter. -/
theorem perm (h : Repoints m m₁ new₁ old) (hp : new₁.Perm new₂) : Repoints m m₁ new₂ old := by
  intro hm hn hkept
  have hs := h hm ((hp.map (·.1)).nodup_iff.2 hn) fun q ho hq => hkept q ho (hp.mem_iff.1 hq)
  refine ⟨hs.distinct, fun q hq => hs.bound q (hp.mem_iff.2 hq), fun r hr => hs.rest r fun h => ?_⟩
  exact hr ((hp.map (·.1)).mem_iff.1 h)

end Repoints

/-! ## The refs of one element -/

namespace Page

variable {p p' : Page} {id : NodeId}

theorem repoints_release (p : Page) (r : Ref) (id : NodeId) :
    Repoints p.refs (p.release r id).refs [] [(r, id)] := by
  intro hm _ _
  unfold release
  split
  · rename_i hcur
    refine ⟨hm.erase r, fun q hq => (List.not_mem_nil hq).elim, fun s _ => ?_⟩
    rw [point, hm.get?_erase]
    split
    · rename_i hs
      have hget : p.refs.get? s = some id := hs ▸ hcur
      rw [hget, Bindings.released_of_mem (hs ▸ List.mem_singleton_self _)]
    · rename_i hs
      have hout : s ∉ ([(r, id)] : Bindings).map (·.1) := fun he =>
        hs (List.mem_singleton.1 he).symm
      rw [Bindings.released_of_notMem_keys hout]
  · rename_i hcur
    refine ⟨hm, fun q hq => (List.not_mem_nil hq).elim, fun s _ => ?_⟩
    cases hget : p.refs.get? s with
    | none => rfl
    | some i =>
        have hout : (s, i) ∉ ([(r, id)] : Bindings) := by
          intro he
          obtain ⟨rfl, rfl⟩ := Prod.mk.inj (List.mem_singleton.1 he)
          exact hcur hget
        rw [Bindings.released_of_notMem hout]

theorem repoints_point (p : Page) (r : Ref) (id : NodeId) :
    Repoints p.refs (p.point r (some id)).refs [(r, id)] [] := by
  intro hm _ _
  refine ⟨hm.insert r id, fun q hq => ?_, fun s hs => ?_⟩
  · rw [List.mem_singleton.1 hq]
    exact p.refs.get?_insert_self r id
  · have hne : r ≠ s := fun he => hs (he ▸ List.mem_singleton_self r)
    rw [point, p.refs.get?_insert, if_neg hne, Bindings.released_nil]

/-- Setting the `ref` slot releases the old ref and binds the new one. -/
theorem repoints_setRef (p : Page) (id : NodeId) (new old : Option Value) :
    Repoints p.refs (p.setRef id new old).refs (.own (new.bind Value.ref?) id)
      (.own (old.bind Value.ref?) id) := by
  have hbind : ∀ p : Page, Repoints p.refs (p.setRef id new none).refs
      (.own (new.bind Value.ref?) id) [] := by
    intro p
    unfold setRef
    dsimp only
    split
    · exact repoints_point p _ id
    · rename_i hno
      rw [Value.bind_ref?_eq_none hno]
      exact .refl p.refs
  cases old with
  | none => exact hbind p
  | some v =>
      cases v with
      | ref r => exact (repoints_release p r id).release_bind (hbind (p.release r id))
      | _ => exact hbind p

theorem refs_edit {f : Document → Except MissingNode Document} (h : p.edit f = .ok p') :
    p'.refs = p.refs := by
  unfold edit at h
  cases hd : f p.document with
  | error e =>
      rw [hd] at h
      cases h
  | ok d =>
      rw [hd] at h
      cases h
      rfl

theorem refs_bind {p₂ : Page} {r : Except MissingNode Page} {f : Page → Except MissingNode Page}
    (h : (r >>= f) = .ok p₂) (hr : ∀ p₁, r = .ok p₁ → p₁.refs = p.refs)
    (hf : ∀ p₁ p₂ : Page, f p₁ = .ok p₂ → p₂.refs = p₁.refs) : p₂.refs = p.refs := by
  obtain ⟨p₁, hp₁, hp₂⟩ := Except.exists_of_bind_eq_ok h
  exact (hf p₁ p₂ hp₂).trans (hr p₁ hp₁)

theorem refs_setStyleProperties (ds : List (String × Value)) :
    ∀ {p p' : Page}, p.setStyleProperties id ds = .ok p' → p'.refs = p.refs := by
  induction ds with
  | nil =>
      intro p p' h
      cases h
      rfl
  | cons d ds ih => exact fun h => refs_bind h (fun _ => refs_edit) fun _ _ => ih

theorem refs_setStyle {v : Option Value} (h : p.setStyle id v = .ok p') : p'.refs = p.refs := by
  unfold setStyle at h
  split at h
  · exact refs_edit h
  · exact refs_bind h (fun _ => refs_edit) fun _ _ => refs_setStyleProperties _
  · exact refs_edit h

theorem refs_setListener {event : String} {new old : Option Value}
    (h : p.setListener id event new old = .ok p') : p'.refs = p.refs := by
  have hadd : ∀ p₁ p₂ : Page, p₁.setListener id event new none = .ok p₂ → p₂.refs = p₁.refs := by
    intro p₁ p₂ h
    unfold setListener at h
    dsimp only [Except.ok_bind] at h
    split at h
    · exact refs_edit h
    · cases h
      rfl
  cases old with
  | none => exact hadd p p' h
  | some v =>
      cases v with
      | listener l => exact refs_bind h (fun _ => refs_edit) hadd
      | _ => exact hadd p p' h

theorem refs_setAttribute {name : String} {v : Option Value}
    (h : p.setAttribute id name v = .ok p') : p'.refs = p.refs := by
  unfold setAttribute at h
  split at h <;> exact refs_edit h

theorem refs_setSlot {slot : Slot} {new old : Option Value} (hslot : slot ≠ .ref)
    (h : p.setSlot id slot new old = .ok p') : p'.refs = p.refs := by
  unfold setSlot at h
  cases slot with
  | key =>
      cases h
      rfl
  | ref => exact absurd rfl hslot
  | className => exact refs_edit h
  | style => exact refs_setStyle h
  | field f => exact refs_edit h
  | listener event => exact refs_setListener h
  | «attribute» name => exact refs_setAttribute h

theorem refs_setProperty {name : String} {new old : Option Value} (hname : name ≠ "ref")
    (h : p.setProperty id name new old = .ok p') : p'.refs = p.refs :=
  refs_setSlot (fun hs => hname (Slot.eq_of_ofName_eq_ref hs)) h

/-- Properties of a new element bind its ref. -/
theorem repoints_setProperties (es : List (String × Value)) :
    ∀ {p p' : Page}, (es.map (·.1)).Nodup → p.setProperties id es = .ok p' →
    Repoints p.refs p'.refs (.own (Props.ref? ⟨es⟩) id) [] := by
  induction es with
  | nil =>
      intro p p' _ h
      cases h
      exact .refl p.refs
  | cons e es ih =>
      intro p p' hn h
      obtain ⟨name, v⟩ := e
      obtain ⟨hname, hn⟩ := List.nodup_cons.1 hn
      obtain ⟨p₁, hp₁, hp'⟩ := Except.exists_of_bind_eq_ok h
      have hrest := ih hn hp'
      by_cases href : name = "ref"
      · subst href
        cases hp₁
        have hnone : Props.ref? ⟨es⟩ = none := by
          rw [Props.ref?, OrderedMap.get?, (OrderedMap.find?_eq_none_iff _ _).2 hname]
          rfl
        rw [hnone] at hrest
        have hset := repoints_setRef p id (Value.present? (some v)) none
        rw [Value.bind_ref?_present?] at hset
        have hall := hset.bind_bind hrest
        rwa [Bindings.own_none, List.append_nil] at hall
      · have hskip : Props.ref? ⟨(name, v) :: es⟩ = Props.ref? ⟨es⟩ := by
          rw [Props.ref?, OrderedMap.get?, OrderedMap.find?, if_neg href]
          rfl
        rw [hskip, ← refs_setProperty href hp₁]
        exact hrest

/-- Bringing the `ref` property in line takes the ref from the old binding to the
new one. -/
theorem repoints_updateRef {new old : Props} (h : p.updateProp id new old "ref" = .ok p') :
    Repoints p.refs p'.refs (.own (Props.ref? new) id) (.own (Props.ref? old) id) := by
  unfold updateProp at h
  split at h
  · rename_i hsame
    cases h
    have href : Props.ref? new = Props.ref? old :=
      Value.bind_ref?_eq_of_beq (hsame.resolve_left (by decide))
    rw [href]
    exact .keep p.refs _
  · cases h
    have hset := repoints_setRef p id
      (Value.present? ((new.get? "ref").filter Value.isTruthy)) (Value.present? (old.get? "ref"))
    rwa [Value.bind_ref?_present?, Value.bind_ref?_present?, Value.bind_ref?_filter] at hset

theorem refs_updateProp {new old : Props} {name : String} (hname : name ≠ "ref")
    (h : p.updateProp id new old name = .ok p') : p'.refs = p.refs := by
  unfold updateProp at h
  split at h
  · cases h
    rfl
  · exact refs_setProperty hname h

theorem refs_updateNames {new old : Props} (names : List String) :
    ∀ {p p' : Page}, "ref" ∉ names → p.updateNames id new old names = .ok p' →
    p'.refs = p.refs := by
  induction names with
  | nil =>
      intro p p' _ h
      cases h
      rfl
  | cons name names ih =>
      intro p p' hn h
      rw [List.mem_cons, not_or] at hn
      exact refs_bind h (fun _ => refs_updateProp (Ne.symm hn.1)) fun _ _ => ih hn.2

/-- Where the new properties have a `ref`, its name must not stand twice among the
names. -/
theorem repoints_updateNames {new old : Props} (names : List String) :
    ∀ {p p' : Page}, names.count "ref" ≤ 1 ∨ Props.ref? new = none → "ref" ∈ names →
    p.updateNames id new old names = .ok p' →
    Repoints p.refs p'.refs (.own (Props.ref? new) id) (.own (Props.ref? old) id) := by
  induction names with
  | nil => exact fun _ h => by cases h
  | cons name names ih =>
      intro p p' hn hmem h
      obtain ⟨p₁, hp₁, hp'⟩ := Except.exists_of_bind_eq_ok h
      by_cases href : name = "ref"
      · subst href
        have hfirst := repoints_updateRef hp₁
        by_cases hagain : "ref" ∈ names
        · have hnone : Props.ref? new = none := by
            refine hn.resolve_left ?_
            have hcount := List.count_pos_iff.2 hagain
            rw [List.count_cons_self]
            omega
          have hrest := ih (Or.inr hnone) hagain hp'
          rw [hnone, Bindings.own_none] at hfirst hrest ⊢
          exact (hfirst.release_release hrest).once
        · rw [refs_updateNames names hagain hp']
          exact hfirst
      · rw [List.count_cons_of_ne href] at hn
        have hrest := ih hn ((List.mem_cons.1 hmem).resolve_left (Ne.symm href)) hp'
        rwa [refs_updateProp href hp₁] at hrest

/-- Bringing the properties of an element in line takes its ref from the old
binding to the new one. -/
theorem repoints_updateProps {new old : Props} (hnew : new.Distinct)
    (h : p.updateProps id new old = .ok p') :
    Repoints p.refs p'.refs (.own (Props.ref? new) id) (.own (Props.ref? old) id) := by
  by_cases hmem : "ref" ∈ changedNames new old
  · refine repoints_updateNames _ ?_ hmem h
    by_cases hkey : "ref" ∈ new.keys
    · left
      have hgone : "ref" ∉ old.keys.filter fun name => !new.contains name := by
        simp [OrderedMap.contains, new.get?_eq_none_iff, hkey]
      rw [changedNames, List.count_append, List.count_eq_zero_of_not_mem hgone]
      exact List.nodup_iff_count_le_one.1 hnew "ref"
    · right
      rw [Props.ref?, (new.get?_eq_none_iff "ref").2 hkey]
      rfl
  · rw [refs_updateNames _ hmem h]
    rw [mem_changedNames, List.mem_append, not_or, ← new.get?_eq_none_iff,
      ← old.get?_eq_none_iff] at hmem
    rw [Props.ref?, Props.ref?, hmem.1, hmem.2]
    exact .refl p.refs

end Page

end LiveMarkup
