import LiveMarkup.Proofs.Document.WellFormed

/-!
# Runs of calls

A live tree is used through a fixed set of calls (`TreeCall`). A call is admitted
(`Document.Admits`) if every number it is given is that of a live node, if it does
not insert the root, if it does not put two equal numbers in one place, and if it
puts no node below itself. The last condition is about the nodes that the place of
insertion stands below, which `TreeCall.place` reads off before the call.

An admitted call of a well-formed document cannot fail and leaves a well-formed
document (`WellFormed.perform`), so a document that started empty is well-formed at
every point of a run of admitted calls (`performAll_wellFormed`).
-/

namespace LiveMarkup

/-- A call of a live tree. -/
inductive TreeCall where
  | createElement (name : Name)
  | createText (content : String)
  | createComment
  | readParent (id : NodeId)
  | readChildren (id : NodeId)
  | readAttribute (id : NodeId) (name : Name)
  | append (parent : NodeId) (ids : List NodeId)
  | replace (anchor : NodeId) (ids : List NodeId)
  | remove (id : NodeId)
  | removeChildren (id : NodeId)
  | setAttribute (id : NodeId) (name : Name) (value : String)
  | clearAttribute (id : NodeId) (name : Name)
  | setField (id : NodeId) (field : Field) (value : FieldValue)
  | setStyleText (id : NodeId) (css : String)
  | setStyleProperty (id : NodeId) (name value : String)
  | addListener (id : NodeId) (event : String) (listener : Listener)
  | removeListener (id : NodeId) (event : String) (listener : Listener)

namespace TreeCall

/-- The numbers that a call is given. -/
def ids : TreeCall → List NodeId
  | createElement _ | createText _ | createComment => []
  | readParent id | readChildren id | readAttribute id _ => [id]
  | remove id | removeChildren id => [id]
  | setAttribute id _ _ | clearAttribute id _ | setField id _ _ | setStyleText id _ => [id]
  | setStyleProperty id _ _ | addListener id _ _ | removeListener id _ _ => [id]
  | append parent ids => parent :: ids
  | replace anchor ids => anchor :: ids

/-- The nodes that a call inserts. -/
def inserted : TreeCall → List NodeId
  | append _ ids | replace _ ids => ids
  | _ => []

/-- The nodes that what a call inserts will stand below. A node that replaces
something stands below what stood above that, unless the anchor is among the nodes
that replace it and so has left its place. -/
def place (d : Document) : TreeCall → List NodeId
  | append parent _ => d.chain parent
  | replace anchor ids => if anchor ∈ ids then [] else d.ancestors anchor
  | _ => []

/-- The nodes that replace another are told apart. -/
def Distinct : TreeCall → Prop
  | replace _ ids => ids.Nodup
  | _ => True

instance : DecidablePred Distinct
  | replace _ ids => inferInstanceAs (Decidable ids.Nodup)
  | createElement _ | createText _ | createComment => .isTrue trivial
  | readParent _ | readChildren _ | readAttribute _ _ => .isTrue trivial
  | append _ _ | remove _ | removeChildren _ => .isTrue trivial
  | setAttribute _ _ _ | clearAttribute _ _ | setField _ _ _ => .isTrue trivial
  | setStyleText _ _ | setStyleProperty _ _ _ => .isTrue trivial
  | addListener _ _ _ | removeListener _ _ _ => .isTrue trivial

end TreeCall

namespace Document

variable {d d' : Document}

/-- The document after a call. -/
def perform (d : Document) : TreeCall → Except MissingNode Document
  | .createElement name => .ok (d.createElement name).2
  | .createText content => .ok (d.createText content).2
  | .createComment => .ok d.createComment.2
  | .readParent id => (d.parent id).map fun _ => d
  | .readChildren id => (d.children id).map fun _ => d
  | .readAttribute id name => (d.getAttribute id name).map fun _ => d
  | .append parent ids => d.append parent ids
  | .replace anchor ids => d.replace anchor ids
  | .remove id => d.remove id
  | .removeChildren id => d.removeChildren id
  | .setAttribute id name value => d.setAttribute id name value
  | .clearAttribute id name => d.clearAttribute id name
  | .setField id field value => d.setField id field value
  | .setStyleText id css => d.setStyleText id css
  | .setStyleProperty id name value => d.setStyleProperty id name value
  | .addListener id event listener => d.addListener id event listener
  | .removeListener id event listener => d.removeListener id event listener

/-- The document after calls in order. -/
def performAll (d : Document) : List TreeCall → Except MissingNode Document
  | [] => .ok d
  | c :: cs => do (← d.perform c).performAll cs

/-- A call passes live nodes only, inserts neither the root nor a node twice in the
place of another, and puts no node below itself. -/
structure Admits (d : Document) (c : TreeCall) : Prop where
  live : ∀ k ∈ c.ids, d.Live k
  root_notMem : root ∉ c.inserted
  distinct : c.Distinct
  apart : ∀ k ∈ c.inserted, k ∉ c.place d

instance (d : Document) (c : TreeCall) : Decidable (d.Admits c) :=
  decidable_of_iff ((∀ k ∈ c.ids, d.Live k) ∧ root ∉ c.inserted ∧ c.Distinct ∧
      ∀ k ∈ c.inserted, k ∉ c.place d)
    ⟨fun ⟨h, hr, hd, ha⟩ => ⟨h, hr, hd, ha⟩, fun ⟨h, hr, hd, ha⟩ => ⟨h, hr, hd, ha⟩⟩

/-- Every call is admitted by the document that it is made on. -/
def AdmitsAll (d : Document) : List TreeCall → Prop
  | [] => True
  | c :: cs => d.Admits c ∧ ∀ d', d.perform c = .ok d' → d'.AdmitsAll cs

/-- Whether every call is admitted, found out by making the calls. -/
def passes (d : Document) : List TreeCall → Bool
  | [] => true
  | c :: cs => decide (d.Admits c) &&
    match d.perform c with
    | .ok d' => d'.passes cs
    | .error _ => true

theorem passes_iff : ∀ (cs : List TreeCall) (d : Document), d.passes cs ↔ d.AdmitsAll cs
  | [], _ => by simp [passes, AdmitsAll]
  | c :: cs, d => by
      rw [passes, AdmitsAll, Bool.and_eq_true, decide_eq_true_iff]
      cases hc : d.perform c with
      | error e => simp
      | ok d' => simp [passes_iff cs d']

instance (d : Document) (cs : List TreeCall) : Decidable (d.AdmitsAll cs) :=
  decidable_of_iff _ (passes_iff cs d)

theorem AdmitsAll.append : ∀ {pre cs : List TreeCall} {d : Document}, d.AdmitsAll (pre ++ cs) →
    d.AdmitsAll pre ∧ ∀ d', d.performAll pre = .ok d' → d'.AdmitsAll cs
  | [], _, _, h => ⟨trivial, fun _ hd' => Except.ok.inj hd' ▸ h⟩
  | c :: pre, cs, d, h => by
      refine ⟨⟨h.1, fun d₁ hd₁ => (AdmitsAll.append (h.2 d₁ hd₁)).1⟩, fun d' hd' => ?_⟩
      obtain ⟨d₁, hd₁, hd'⟩ := Except.exists_of_bind_eq_ok hd'
      exact (AdmitsAll.append (h.2 d₁ hd₁)).2 d' hd'

theorem WellFormed.created (hd : d.WellFormed) {data : NodeData} (hdata : data ≠ .document)
    (m : Mutation) : ((d.create data).2.record m).WellFormed :=
  (hd.create hdata).record m

/-- What is appended is neither the root nor stands at the parent or above it. -/
theorem Admits.append_apart {p : NodeId} {ids : List NodeId} (h : d.Admits (.append p ids))
    (hd : d.WellFormed) : ∀ k ∈ ids, d.Live k ∧ k ≠ root ∧ ¬ d.Above k p := by
  refine fun k hk => ⟨h.live k (List.mem_cons_of_mem _ hk), fun he => h.root_notMem (he ▸ hk), ?_⟩
  intro ha
  exact h.apart k hk ((hd.mem_chain_iff (h.live p (List.mem_cons_self ..))).2 ha)

/-- What replaces another node is neither the root nor stands above that node. -/
theorem Admits.replace_apart {a : NodeId} {ids : List NodeId} (h : d.Admits (.replace a ids))
    (hd : d.WellFormed) (haids : a ∉ ids) : ∀ k ∈ ids, d.Live k ∧ k ≠ root ∧ ¬ d.Above k a := by
  refine fun k hk => ⟨h.live k (List.mem_cons_of_mem _ hk), fun he => h.root_notMem (he ▸ hk), ?_⟩
  intro hka
  rcases Relation.ReflTransGen.cases_head hka with he | ⟨p, hp, hkp⟩
  · exact haids (he ▸ hk)
  · refine h.apart k hk ?_
    rw [TreeCall.place, if_neg haids, hd.mem_ancestors_iff (h.live a (List.mem_cons_self ..))]
    exact ⟨p, hp, hkp⟩

/-- An admitted call cannot fail and leaves a well-formed document. -/
theorem WellFormed.perform (hd : d.WellFormed) {c : TreeCall} (h : d.Admits c) :
    ∃ d', d.perform c = .ok d' ∧ d'.WellFormed := by
  have hread : ∀ {id}, id ∈ c.ids → ∀ {α : Type} (f : LiveNode → α),
      ((d.node id).map f).map (fun _ => d) = .ok d := by
    intro id hid α f
    obtain ⟨n, hn, -⟩ := (h.live id hid).node
    rw [hn]
    rfl
  cases c with
  | createElement name => exact ⟨_, rfl, hd.created (by simp) _⟩
  | createText content => exact ⟨_, rfl, hd.created (by simp) _⟩
  | createComment => exact ⟨_, rfl, hd.created (by simp) _⟩
  | readParent id => exact ⟨d, hread (List.mem_singleton_self id) _, hd⟩
  | readChildren id => exact ⟨d, hread (List.mem_singleton_self id) _, hd⟩
  | readAttribute id name => exact ⟨d, hread (List.mem_singleton_self id) _, hd⟩
  | append parent ids => exact hd.append (h.live parent (List.mem_cons_self ..)) (h.append_apart hd)
  | replace anchor ids =>
      refine hd.replace (h.live anchor (List.mem_cons_self ..)) h.distinct
        (fun k hk => ⟨h.live k (List.mem_cons_of_mem _ hk), fun he => h.root_notMem (he ▸ hk)⟩)
        fun p hm hp k hk ha => ?_
      exact (h.replace_apart hd hm k hk).2.2 (ha.trans (.single hp))
  | remove id => exact hd.remove (h.live id (List.mem_cons_self ..))
  | removeChildren id => exact hd.removeChildren (h.live id (List.mem_cons_self ..))
  | setAttribute id name value => exact hd.editElement (h.live id (List.mem_cons_self ..)) _
  | clearAttribute id name => exact hd.editElement (h.live id (List.mem_cons_self ..)) _
  | setField id field value => exact hd.editElement (h.live id (List.mem_cons_self ..)) _
  | setStyleText id css => exact hd.editElement (h.live id (List.mem_cons_self ..)) _
  | setStyleProperty id name value => exact hd.editElement (h.live id (List.mem_cons_self ..)) _
  | addListener id event listener => exact hd.editElement (h.live id (List.mem_cons_self ..)) _
  | removeListener id event listener => exact hd.editElement (h.live id (List.mem_cons_self ..)) _

theorem WellFormed.performAll (cs : List TreeCall) (hd : d.WellFormed) (h : d.AdmitsAll cs)
    (n : Nat) :
    ∃ d', d.performAll (cs.take n) = .ok d' ∧ d'.WellFormed := by
  induction n generalizing d cs with
  | zero => exact ⟨d, rfl, hd⟩
  | succ n ih =>
      cases cs with
      | nil => exact ⟨d, rfl, hd⟩
      | cons c cs =>
          obtain ⟨d₁, hd₁, hwf₁⟩ := hd.perform h.1
          obtain ⟨d₂, hd₂, hwf₂⟩ := ih cs hwf₁ (h.2 d₁ hd₁)
          refine ⟨d₂, ?_, hwf₂⟩
          rw [List.take_succ_cons, Document.performAll, hd₁, Except.ok_bind, hd₂]

/-- A document that started empty is well-formed at every point of a run of admitted
calls, none of which can fail. -/
theorem performAll_wellFormed (recording : Bool) (cs : List TreeCall)
    (h : (new recording).AdmitsAll cs) (n : Nat) :
    ∃ d, (new recording).performAll (cs.take n) = .ok d ∧ d.WellFormed :=
  WellFormed.performAll cs (wellFormed_new recording) h n

/-- Calls of which each is found to be admitted give a well-formed document. -/
theorem exists_performAll (recording : Bool) (cs : List TreeCall)
    (h : (new recording).passes cs = true) :
    ∃ d, (new recording).performAll cs = .ok d ∧ d.WellFormed := by
  have hd := WellFormed.performAll cs (wellFormed_new recording) ((passes_iff cs _).1 h) cs.length
  rwa [List.take_length] at hd

/-- Nodes that are made, moved, put in the place of each other and removed, and one
that takes a number that was freed. -/
def shuffle : List TreeCall :=
  [.createText "a", .createComment, .createText "b", .append 0 [1, 2], .append 1 [3, 3],
    .readChildren 1, .replace 2 [3], .removeChildren 0, .createElement (.ofTag "p"), .append 0 [3],
    .remove 3]

theorem performAll_wellFormed_shuffle : (new true).AdmitsAll shuffle ∧
    ∃ d, (new true).performAll (shuffle.take 11) = .ok d ∧ d.WellFormed := by
  have h : (new true).AdmitsAll shuffle := (passes_iff shuffle (new true)).1 (by decide +kernel)
  exact ⟨h, performAll_wellFormed true shuffle h 11⟩

end Document

end LiveMarkup
