import LiveMarkup.Proofs.Document.Log
import LiveMarkup.Proofs.Document.Moved
import LiveMarkup.Proofs.Document.Trees

/-!
# Replaying a log

A log is read without the document that kept it (`Trees.replay`). A node that was made is
a new tree, nodes that were moved are taken out one after the other and put below a node
or in front of one, and a node that was dropped goes with everything below it, unless it
is the root. What was set on an element is a fact about its node. A log has the local names of
attributes only, so it is read with a naming, which tells what name a local name stands for.

Trees account for a document (`Trees.Accounts`) if they have its nodes, each of them once,
with its parent, its children and its facts. Each operation on the tree leaves a document
for which the trees account that follow the operation. An operation takes all nodes from
where they are before it puts them in front of another, and the trees follow it one node
at a time (`Trees.Accounts.putAll`).
-/

namespace LiveMarkup

/-! ## What is told of a node -/

/-- The facts about a node. Only an element has any. -/
def NodeData.facts : NodeData → Facts
  | .element e => ⟨e.attributes, e.field, fun event => (e.listenersFor event).length⟩
  | _ => {}

/-- A live node as it is told. -/
def LiveNode.entry (n : LiveNode) : NodeEntry :=
  ⟨n.parent, n.children, n.data.facts⟩

/-- A node that has been put in front of another, if it is one of some nodes, and that has
them in front of that other among its children then. -/
def NodeEntry.put (e : NodeEntry) (k a : NodeId) (q : Option NodeId) (ids : List NodeId) :
    NodeEntry :=
  { e with
    parent := if k ∈ ids then q else e.parent
    children := Trees.before a ids (e.children.filter (· ∉ ids)) }

theorem NodeEntry.put_nil (e : NodeEntry) (k a : NodeId) (q : Option NodeId) :
    e.put k a q [] = e := by
  have hbefore : ∀ l, Trees.before a [] l = l := fun l => by simp [Trees.before]
  simp [put, hbefore]

/-- Different nodes may be put in front of another one after the other. -/
theorem NodeEntry.put_put (e : NodeEntry) {k a i : NodeId} {ids : List NodeId} (q : Option NodeId)
    (hi : i ∉ ids) (ha : a ∉ i :: ids) :
    (e.put k a q [i]).put k a q ids = e.put k a q (i :: ids) := by
  obtain ⟨hai, haids⟩ := not_or.1 (mt List.mem_cons.2 ha)
  rw [put, put, put, Trees.filter_before haids (by simpa using hi), filter_notMem_cons,
    Trees.before_before (Ne.symm hai)]
  by_cases hk : k ∈ ids <;> simp [hk]

namespace Document

variable {d d' : Document} {a i k p : NodeId} {ids : List NodeId} {e : NodeEntry}

/-- What is told of the live node of a number. -/
def entryOf (d : Document) (k : NodeId) : Option NodeEntry :=
  (d.get? k).map LiveNode.entry

theorem live_iff_entryOf : d.Live k ↔ (d.entryOf k).isSome := by
  rw [Live, entryOf, Option.isSome_map]

theorem parentOf_of_entryOf (h : d.entryOf k = some e) : d.parentOf k = e.parent := by
  obtain ⟨n, hn, rfl⟩ := Option.map_eq_some_iff.1 h
  exact parentOf_of_get? hn

theorem parentOf_of_entryOf_eq_none (h : d.entryOf k = none) : d.parentOf k = none := by
  rw [parentOf, Option.map_eq_none_iff.1 h, Option.bind_none]

theorem childrenOf_of_entryOf (h : d.entryOf k = some e) : d.childrenOf k = e.children := by
  obtain ⟨n, hn, rfl⟩ := Option.map_eq_some_iff.1 h
  exact childrenOf_of_get? hn

theorem entryOf_congr (h : d'.get? = d.get?) : d'.entryOf = d.entryOf := by
  funext k
  rw [entryOf, h, entryOf]

/-- A node is told as it was without its place where it has been freed. -/
theorem Freed.entryOf_eq (h : Freed d d' ids) (k : NodeId) : d'.entryOf k =
    (d.entryOf k).map fun e => { e with
      parent := if k ∈ ids then none else e.parent
      children := e.children.filter (· ∉ ids) } := by
  rw [entryOf, h k, entryOf, Option.map_map, Option.map_map]
  rfl

theorem Moved.entryOf_eq {cs : List NodeId} (h : Moved d d' p ids cs) (k : NodeId) :
    d'.entryOf k = (d.entryOf k).map fun e => { e with
      parent := if k ∈ ids then some p else e.parent
      children := if k = p then cs else e.children.filter (· ∉ ids) } := by
  rw [entryOf, h k, entryOf, Option.map_map, Option.map_map]
  rfl

/-- What is left has lost the child that was cut off. -/
theorem Cut.entryOf_eq (h : Cut d d' [i]) (hk : ¬ d.Above i k) : d'.entryOf k =
    (d.entryOf k).map fun e => { e with children := e.children.filter (· ∉ [i]) } := by
  have hki : k ∉ [i] := fun hm => hk (List.mem_singleton.1 hm ▸ .refl)
  rw [entryOf, h.left k (by simpa using hk), entryOf, Option.map_map, Option.map_map]
  congr 1
  funext n
  rw [Function.comp_apply, Function.comp_apply, LiveNode.without, if_neg hki]
  rfl

/-- Nodes that are brought in front of an anchor have its parent then, and stand there among
the children of that. -/
theorem Tied.entryOf_insertBefore (hd : d.Tied) (ha : d.Live a) (hids : ∀ j ∈ ids, d.Live j)
    (haids : a ∉ ids) : ∃ d', d.insertBefore a ids = .ok d' ∧
      ∀ k, d'.entryOf k = (d.entryOf k).map (·.put k a (d.parentOf a) ids) := by
  obtain ⟨d₁, h₁, hnone, hsome⟩ := hd.insertBefore ha hids
  have hpar : d₁.parentOf a = d.parentOf a := by rw [h₁.parentOf_eq, if_neg haids]
  have hnot : ∀ {k e}, d.entryOf k = some e → d.parentOf a ≠ some k →
      a ∉ e.children.filter (· ∉ ids) := by
    intro k e he hk hm
    rw [← childrenOf_of_entryOf he] at hm
    exact hk ((hd.mem_iff k a).1 (List.mem_filter.1 hm).1)
  cases hp : d.parentOf a with
  | none =>
      refine ⟨d₁, hnone (hpar.trans hp), fun k => ?_⟩
      rw [h₁.entryOf_eq]
      refine Option.map_congr fun e he => ?_
      rw [NodeEntry.put, Trees.before_of_notMem (hnot he (by simp [hp]))]
  | some p =>
      obtain ⟨d₂, pre, post, hd₂, hsplit, hmoved⟩ := hsome p (hpar.trans hp)
      refine ⟨d₂, hd₂, fun k => ?_⟩
      rw [hmoved.entryOf_eq]
      refine Option.map_congr fun e he => ?_
      rw [NodeEntry.put]
      by_cases hk : k = p
      · subst hk
        have hnodup : (pre ++ a :: post).Nodup := hsplit ▸ (hd.nodup k).filter _
        rw [if_pos rfl, ← childrenOf_of_entryOf he, hsplit, Trees.before_split hnodup]
      · rw [if_neg hk, Trees.before_of_notMem (hnot he (by simp [hp, Ne.symm hk]))]

/-- No node has one among its children that it stands below. -/
theorem WellFormed.filter_children_below (hd : d.WellFormed) (hk : d.Above i k)
    (he : d.entryOf k = some e) : e.children.filter (· ∉ [i]) = e.children := by
  refine List.filter_eq_self.2 fun c hc => decide_eq_true fun hm => ?_
  rw [← childrenOf_of_entryOf he, hd.mem_iff, List.mem_singleton.1 hm] at hc
  exact hd.not_above_parent hc hk

end Document

/-! ## Reading a log -/

namespace Trees

/-- The trees with a node moved behind what is below another. -/
def appendTo (p : NodeId) (ts : Trees) (i : NodeId) : Trees :=
  (ts.without i).graft p (ts.take i)

/-- The trees with a node moved in front of another. -/
def putBefore (a : NodeId) (ts : Trees) (i : NodeId) : Trees :=
  (ts.without i).plant a (ts.take i)

/-- The trees without a node and what is below it, unless it is the root. -/
def drop (id : NodeId) (ts : Trees) : Trees :=
  if id = Document.root then ts else ts.without id

/-- The trees after a mutation, with a naming for attributes. A style is no fact. -/
def replay (naming : String → Name) (ts : Trees) : Mutation → Trees
  | .createElement id _ | .createText id | .createComment id => ts.append (single id {})
  | .appendChildren parent children => children.foldl (appendTo parent) ts
  | .replaceNode anchor replacements => (replacements.foldl (putBefore anchor) ts).drop anchor
  | .removeNode id => ts.drop id
  | .setAttribute id name value => ts.retell id fun facts =>
    { facts with attributes := facts.attributes.insert (naming name) value }
  | .clearAttribute id name => ts.retell id fun facts =>
    { facts with attributes := facts.attributes.erase (naming name) }
  | .setField id field value => ts.retell id fun facts =>
    { facts with field := fun f => if field = f then value else facts.field f }
  | .setStyle _ => ts
  | .addListener id event => ts.retell id fun facts =>
    { facts with listeners := fun e => facts.listeners e + if e = event then 1 else 0 }
  | .removeListener id event => ts.retell id fun facts =>
    { facts with listeners := fun e => facts.listeners e - if e = event then 1 else 0 }

/-- The trees that a log tells of, starting from the root alone. -/
def ofLog (naming : String → Name) (log : List Mutation) : Trees :=
  log.foldl (replay naming) (single Document.root {})

open Document

variable {d d' : Document} {ts : Trees} {q q' : Option NodeId} {a i k p : NodeId}
  {ids : List NodeId}

/-! ## What stands below a node -/

/-- What is held below a node stands below it. -/
theorem Holds.exists_parentOf (h : ts.Holds d.entryOf (some p)) (ha : d.Above i p)
    (hk : k ∈ ts.ids) : ∃ c, d.parentOf k = some c ∧ d.Above i c := by
  induction ts generalizing p with
  | nil => cases hk
  | cons id facts below beside ihb ih =>
      obtain ⟨hid, hbelow, hbeside⟩ := h
      have hpar : d.parentOf id = some p := parentOf_of_entryOf hid
      rcases List.mem_cons.1 hk with rfl | hk
      · exact ⟨p, hpar, ha⟩
      · rcases List.mem_append.1 hk with hk | hk
        · exact ihb hbelow (.head hpar ha) hk
        · exact ih hbeside ha hk

theorem Holds.above_of_mem_take (h : ts.Holds d.entryOf q) (hk : k ∈ (ts.take i).ids) :
    d.Above i k := by
  induction ts generalizing q with
  | nil => cases hk
  | cons id facts below beside ihb ih =>
      obtain ⟨-, hbelow, hbeside⟩ := h
      rw [Trees.take] at hk
      by_cases he : id = i
      · rw [if_pos he, he] at hk
        rcases List.mem_cons.1 hk with rfl | hk
        · exact .refl
        · rcases List.mem_append.1 hk with hk | hk
          · obtain ⟨c, hc, ha⟩ := hbelow.exists_parentOf .refl hk
            exact .head hc (he ▸ ha)
          · exact ih hbeside hk
      · rw [if_neg he, ids_append, List.mem_append] at hk
        exact hk.elim (ihb hbelow) (ih hbeside)

theorem Holds.not_above_of_mem_without (h : ts.Holds d.entryOf q)
    (hq : ∀ c, q = some c → ¬ d.Above i c) (hk : k ∈ (ts.without i).ids) : ¬ d.Above i k := by
  induction ts generalizing q with
  | nil => cases hk
  | cons id facts below beside ihb ih =>
      obtain ⟨hid, hbelow, hbeside⟩ := h
      rw [Trees.without] at hk
      by_cases he : id = i
      · rw [if_pos he] at hk
        exact ih hbeside hq hk
      · have hnot : ¬ d.Above i id := by
          intro ha
          rcases Relation.ReflTransGen.cases_head ha with hi | ⟨c, hc, ha⟩
          · exact he hi
          · exact hq c ((parentOf_of_entryOf hid).symm.trans hc) ha
        rw [if_neg he] at hk
        rcases List.mem_cons.1 hk with rfl | hk
        · exact hnot
        · rcases List.mem_append.1 hk with hk | hk
          · exact ihb hbelow (fun c hc => Option.some.inj hc ▸ hnot) hk
          · exact ih hbeside hq hk

/-- The tree of a node is held where nothing about it has changed but the parent of the
node. -/
theorem Holds.take {v : NodeId → Option NodeEntry} (h : ts.Holds d.entryOf q) (hd : d.WellFormed)
    (hv : ∀ k e, d.Above i k → d.entryOf k = some e →
      v k = some { e with parent := if k = i then q' else e.parent }) :
    (ts.take i).Holds v q' := by
  induction ts generalizing q with
  | nil => trivial
  | cons id facts below beside ihb ih =>
      obtain ⟨hid, hbelow, hbeside⟩ := h
      rw [Trees.take]
      by_cases he : id = i
      · rw [if_pos he]
        have hview := hv id ⟨q, below.roots, facts⟩ (he ▸ .refl) hid
        rw [if_pos he] at hview
        refine ⟨hview, hbelow.congr fun k hk => ?_, ih hbeside⟩
        obtain ⟨c, hc, ha⟩ := hbelow.exists_parentOf .refl hk
        obtain ⟨e, hke⟩ := hbelow.exists_of_mem hk
        have hne : k ≠ i := fun hki => hd.not_above_parent hc (hki ▸ he ▸ ha)
        rw [hv k e (.head hc (he ▸ ha)) hke, if_neg hne, hke]
      · rw [if_neg he]
        exact holds_append.2 ⟨ihb hbelow, ih hbeside⟩

/-! ## Accounts -/

/-- Trees have the live nodes of a document, each of them once and as it is told. -/
structure Accounts (ts : Trees) (d : Document) : Prop where
  nodup : ts.ids.Nodup
  holds : ts.Holds d.entryOf none
  mem : ∀ k, d.Live k → k ∈ ts.ids

namespace Accounts

theorem congr (h : ts.Accounts d) (hd : d'.entryOf = d.entryOf) : ts.Accounts d' :=
  ⟨h.nodup, hd ▸ h.holds, fun k hk => h.mem k (by rwa [live_iff_entryOf, ← hd, ← live_iff_entryOf])⟩

theorem live (h : ts.Accounts d) (hk : k ∈ ts.ids) : d.Live k := by
  obtain ⟨e, he⟩ := h.holds.exists_of_mem hk
  rw [live_iff_entryOf, he]
  rfl

theorem not_above (h : ts.Accounts d) (hk : k ∈ (ts.without i).ids) : ¬ d.Above i k :=
  h.holds.not_above_of_mem_without (fun _ hc => nomatch hc) hk

theorem mem_without (h : ts.Accounts d) (hk : d.Live k) (hi : ¬ d.Above i k) :
    k ∈ (ts.without i).ids := by
  have hpos := List.count_pos_iff.2 (h.mem k hk)
  have htake : (ts.take i).ids.count k = 0 :=
    List.count_eq_zero.2 fun hm => hi (h.holds.above_of_mem_take hm)
  have hsum := count_without i k ts
  exact List.count_pos_iff.1 (by omega)

theorem nodup_without (h : ts.Accounts d) (i : NodeId) : (ts.without i).ids.Nodup := by
  refine List.nodup_iff_count_le_one.2 fun k => ?_
  have hle := List.nodup_iff_count_le_one.1 h.nodup k
  have hsum := count_without i k ts
  omega

/-- The account of what is left, before its children are told anew. -/
theorem holds_without (h : ts.Accounts d) (i : NodeId) : (ts.without i).Holds (fun k =>
    (d.entryOf k).map fun e => { e with children := e.children.filter (· ∉ [i]) }) none :=
  h.holds.without fun _ _ => rfl

theorem of_perm {us : Trees} (h : ts.Accounts d) (hids : us.ids.Perm ts.ids)
    (hlive : ∀ k, d'.Live k → d.Live k) (hholds : us.Holds d'.entryOf none) : us.Accounts d' :=
  ⟨hids.nodup_iff.2 h.nodup, hholds, fun k hk => hids.mem_iff.2 (h.mem k (hlive k hk))⟩

/-- A node that is moved behind the children of another. -/
theorem appendTo (h : ts.Accounts d) (hd : d.WellFormed) (hi : d.Live i) (hp : d.Live p)
    (hip : ¬ d.Above i p) (hmoved : Moved d d' p [i] ((d.childrenOf p).filter (· ∉ [i]) ++ [i])) :
    (ts.appendTo p i).Accounts d' := by
  have hentry : ∀ k, d'.entryOf k = (d.entryOf k).map fun e => { e with
      parent := if k ∈ [i] then some p else e.parent
      children := e.children.filter (· ∉ [i]) ++ if k = p then [i] else [] } := by
    intro k
    rw [hmoved.entryOf_eq]
    refine Option.map_congr fun e he => ?_
    by_cases hk : k = p
    · subst hk
      simp only [if_true, childrenOf_of_entryOf he]
    · simp only [if_neg hk, List.append_nil]
  have htree : (ts.take i).Holds d'.entryOf (some p) := by
    refine h.holds.take hd fun k e hk he => ?_
    have hkp : k ≠ p := fun hkp => hip (hkp ▸ hk)
    rw [hentry, he, Option.map_some, hd.filter_children_below hk he, if_neg hkp, List.append_nil]
    simp only [List.mem_singleton]
  refine h.of_perm (perm_graft h.nodup (h.mem_without hp hip)) (fun k => (hmoved.live_iff k).1) ?_
  refine (h.holds_without i).graft htree fun k hk => ?_
  have hki : k ∉ [i] := fun hm => h.not_above hk (List.mem_singleton.1 hm ▸ .refl)
  rw [hentry, Option.map_map, roots_take h.nodup (h.mem i hi)]
  refine Option.map_congr fun e _ => ?_
  rw [Function.comp_apply, if_neg hki]

/-- A node that is moved in front of another. -/
theorem putBefore (h : ts.Accounts d) (hd : d.WellFormed) (hi : d.Live i) (ha : d.Live a)
    (hia : ¬ d.Above i a)
    (hentry : ∀ k, d'.entryOf k = (d.entryOf k).map (·.put k a (d.parentOf a) [i])) :
    (ts.putBefore a i).Accounts d' := by
  have htree : (ts.take i).Holds d'.entryOf (d.parentOf a) := by
    refine h.holds.take hd fun k e hk he => ?_
    have hak : a ∉ e.children := by
      rw [← childrenOf_of_entryOf he, hd.mem_iff]
      exact fun hpar => hia (hk.trans (.single hpar))
    rw [hentry, he, Option.map_some, NodeEntry.put, hd.filter_children_below hk he,
      before_of_notMem hak]
    simp only [List.mem_singleton]
  have hlive : ∀ k, d'.Live k → d.Live k := by
    intro k hk
    rwa [live_iff_entryOf, hentry, Option.isSome_map, ← live_iff_entryOf] at hk
  refine h.of_perm (perm_plant h.nodup (h.mem_without ha hia)) hlive ?_
  refine (h.holds_without i).plant (fun e he => ?_) fun k hk => ?_
  · obtain ⟨e, hae, rfl⟩ := Option.map_eq_some_iff.1 he
    exact parentOf_of_entryOf hae ▸ htree
  · have hki : k ∉ [i] := fun hm => h.not_above hk (List.mem_singleton.1 hm ▸ .refl)
    rw [hentry, Option.map_map, roots_take h.nodup (h.mem i hi)]
    refine Option.map_congr fun e _ => ?_
    rw [Function.comp_apply, NodeEntry.put, if_neg hki]

/-- Nodes that are appended one after the other. -/
theorem appendAll : ∀ (ids : List NodeId) {d : Document} {ts : Trees}, ts.Accounts d →
    d.WellFormed → d.Live p → (∀ k ∈ ids, d.Live k ∧ k ≠ root ∧ ¬ d.Above k p) →
    ∃ d', d.moveAll p ids = .ok d' ∧ (ids.foldl (Trees.appendTo p) ts).Accounts d'
  | [], d, _, h, _, _, _ => ⟨d, rfl, h⟩
  | i :: ids, d, ts, h, hd, hp, hids => by
      obtain ⟨hi, -, hip⟩ := hids i (List.mem_cons_self ..)
      obtain ⟨-, d₁, hd₁, -, h₁⟩ := hd.tied.move hi hp ids
      obtain ⟨hwf, hrest⟩ := hd.moved_first h₁ hp hids
      obtain ⟨d₂, hd₂, h₂⟩ := appendAll ids (h.appendTo hd hi hp hip h₁) hwf
        ((h₁.live_iff p).2 hp) hrest
      exact ⟨d₂, hd₁.trans hd₂, h₂⟩

/-- Nodes that are put in front of another one after the other are told as if they had all
been put there at once. -/
theorem putAll : ∀ (ids : List NodeId) {d : Document} {ts : Trees}, ts.Accounts d →
    d.WellFormed → d.Live a → a ∉ ids → ids.Nodup →
    (∀ k ∈ ids, d.Live k ∧ k ≠ root ∧ ¬ d.Above k a) →
    ∃ d', (∀ k, d'.entryOf k = (d.entryOf k).map (·.put k a (d.parentOf a) ids)) ∧
      (ids.foldl (Trees.putBefore a) ts).Accounts d'
  | [], d, _, h, _, _, _, _, _ => by
      refine ⟨d, fun k => ?_, h⟩
      cases d.entryOf k with
      | none => rfl
      | some e => rw [Option.map_some, NodeEntry.put_nil]
  | i :: ids, d, ts, h, hd, ha, haids, hn, hids => by
      obtain ⟨hi, hroot, hia⟩ := hids i (List.mem_cons_self ..)
      obtain ⟨hiids, hn⟩ := List.nodup_cons.1 hn
      obtain ⟨hai, haids'⟩ := not_or.1 (mt List.mem_cons.2 haids)
      have hone : ∀ k ∈ [i], d.Live k ∧ k ≠ root := fun k hk =>
        List.mem_singleton.1 hk ▸ ⟨hi, hroot⟩
      obtain ⟨d₁, hd₁, hentry⟩ := hd.tied.entryOf_insertBefore ha (fun k hk => (hone k hk).1)
        (List.mem_singleton.not.2 hai)
      -- the same document is well-formed
      obtain ⟨d₁', hd₁', hwf, -⟩ := hd.insertBefore ha (List.nodup_singleton i) hone
        fun p _ hp k hk hkp => hia (List.mem_singleton.1 hk ▸ hkp.trans (above_of_parentOf hp))
      obtain rfl : d₁ = d₁' := Except.ok.inj (hd₁.symm.trans hd₁')
      have hlive : ∀ k, d₁.Live k ↔ d.Live k := fun k => by
        rw [live_iff_entryOf, hentry, Option.isSome_map, ← live_iff_entryOf]
      have hpar : ∀ c, c ∉ [i] → d₁.parentOf c = d.parentOf c := by
        intro c hc
        cases he : d.entryOf c with
        | none =>
            have hnone : d₁.entryOf c = none := by rw [hentry, he, Option.map_none]
            rw [parentOf_of_entryOf_eq_none hnone, parentOf_of_entryOf_eq_none he]
        | some e =>
            have hsome : d₁.entryOf c = some (e.put c a (d.parentOf a) [i]) := by
              rw [hentry, he, Option.map_some]
            rw [parentOf_of_entryOf hsome, parentOf_of_entryOf he, NodeEntry.put, if_neg hc]
      have hpara := hpar a (List.mem_singleton.not.2 hai)
      obtain ⟨d₂, hentry₂, h₂⟩ := putAll ids (h.putBefore hd hi ha hia hentry) hwf
        ((hlive a).2 ha) haids' hn fun k hk => by
          obtain ⟨hk, hkroot, hka⟩ := hids k (List.mem_cons_of_mem _ hk)
          refine ⟨(hlive k).2 hk, hkroot, fun hka' => hka ?_⟩
          exact above_of_parentOf_eq hpar (by simpa using hia) hka'
      refine ⟨d₂, fun k => ?_, h₂⟩
      rw [hentry₂, hentry, Option.map_map, hpara]
      refine Option.map_congr fun e _ => ?_
      exact e.put_put _ hiids haids

/-- A node that is cut off. -/
theorem cut (h : ts.Accounts d) (hcut : Cut d d' [i]) : (ts.without i).Accounts d' where
  nodup := h.nodup_without i
  holds := (h.holds_without i).congr fun k hk => hcut.entryOf_eq (h.not_above hk)
  mem k hk := by
    obtain ⟨n, hn⟩ := live_iff.1 hk
    obtain ⟨m, hm, -, hnot⟩ := hcut.exists_of_get? hn
    exact h.mem_without (live_iff.2 ⟨m, hm⟩) (hnot i (List.mem_singleton_self i))

/-- A node that is dropped. -/
theorem drop (h : ts.Accounts d) (hd : d.Tied) (hi : d.Live i) :
    ∃ d', d.dropSubtree i = .ok d' ∧ (ts.drop i).Accounts d' := by
  by_cases hroot : i = root
  · refine ⟨d, by rw [dropSubtree, if_pos hroot], ?_⟩
    rwa [Trees.drop, if_pos hroot]
  · obtain ⟨d', hd', hcut⟩ := hd.cut_dropSubtree hi hroot
    refine ⟨d', hd', ?_⟩
    rw [Trees.drop, if_neg hroot]
    exact h.cut hcut

/-- A node that is made. -/
theorem create (h : ts.Accounts d) {data : NodeData} (hdata : data.facts = {}) :
    (ts.append (single (d.create data).1 {})).Accounts (d.create data).2 := by
  have hnew : d.nodes.nextKey ∉ ts.ids := by
    intro hm
    obtain ⟨n, hn⟩ := live_iff.1 (h.live hm)
    rw [Document.get?, Slab.get?_nextKey] at hn
    cases hn
  have hids : (single (d.create data).1 {}).ids = [d.nodes.nextKey] := rfl
  constructor
  · rw [ids_append, hids]
    exact List.nodup_append.2 ⟨h.nodup, List.nodup_singleton _, fun k hk l hl he =>
      hnew (List.mem_singleton.1 hl ▸ he ▸ hk)⟩
  · refine holds_append.2 ⟨h.holds.congr fun k hk => ?_, ?_, trivial, trivial⟩
    · have hne : k ≠ d.nodes.nextKey := fun he => hnew (he ▸ hk)
      rw [entryOf, get?_create, if_neg hne, entryOf]
    · have hget := get?_create d data (d.create data).1
      rw [if_pos (show (d.create data).1 = d.nodes.nextKey from rfl)] at hget
      rw [entryOf, hget, Option.map_some, LiveNode.entry, hdata]
      rfl
  · intro k hk
    rw [ids_append, hids, List.mem_append, List.mem_singleton]
    obtain ⟨n, hn⟩ := live_iff.1 hk
    rw [get?_create] at hn
    by_cases hkey : k = d.nodes.nextKey
    · exact Or.inr hkey
    · rw [if_neg hkey] at hn
      exact Or.inl (h.mem k (live_iff.2 ⟨n, hn⟩))

/-- An element that is another with other facts. -/
theorem retell (h : ts.Accounts d) {e e' : Element} {g : Facts → Facts}
    (he : d.element? i = some e)
    (hg : (NodeData.element e').facts = g (NodeData.element e).facts) :
    (ts.retell i g).Accounts (d.modify i fun n => { n with data := .element e' }) := by
  have hentry : ∀ k, (d.modify i fun n => { n with data := .element e' }).entryOf k =
      (d.entryOf k).map fun e => { e with facts := if k = i then g e.facts else e.facts } := by
    intro k
    rw [entryOf, get?_modify_eq, entryOf, Option.map_map, Option.map_map]
    refine Option.map_congr fun n hn => ?_
    rw [Function.comp_apply, Function.comp_apply]
    by_cases hk : k = i
    · have hdata : n.data = .element e := by
        rw [element?, ← hk, hn, Option.bind_some] at he
        cases hdata : n.data with
        | element e₀ => rw [hdata] at he; exact congrArg _ (Option.some.inj he)
        | _ => rw [hdata] at he; cases he
      simp only [if_pos hk, LiveNode.entry, hdata, hg]
    · simp only [if_neg hk]
  refine h.of_perm (ids_retell i g ts ▸ .refl _) (fun k hk => ?_) (h.holds.retell fun k _ => ?_)
  · rwa [live_iff_entryOf, hentry, Option.isSome_map, ← live_iff_entryOf] at hk
  · exact hentry k

end Accounts

end Trees

end LiveMarkup
