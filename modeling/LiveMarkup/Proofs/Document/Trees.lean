import LiveMarkup.Document.Basic
import Mathlib.Data.List.Nodup
import Mathlib.Tactic.Ring

/-!
# Trees told by their numbers

An account of a document which knows no links: trees of numbered nodes, each with the
facts that are told of it. `Trees.nil` is no tree, and `Trees.cons` a node with the trees
below it, and the trees beside it behind. Trees are cut (`Trees.without`, `Trees.take`)
and put somewhere else (`Trees.graft`, `Trees.plant`) by going through all nodes.

A view holds trees if it has each node with its parent, its children and its facts
(`Trees.Holds`). The trees that such an operation gives are held by the view that has
changed in the same way, and how often a number stands in them is a sum and a product of
how often it stood in the parts.
-/

namespace LiveMarkup

/-- What is told of a node besides its place. -/
structure Facts where
  attributes : Attributes := .empty
  field : Field → FieldValue := fun _ => .null
  /-- How many listeners there are for an event. -/
  listeners : String → Nat := fun _ => 0

/-- A node as it is told: where it stands, what stands below it, and the facts. -/
structure NodeEntry where
  parent : Option NodeId
  children : List NodeId
  facts : Facts

/-- Trees in order. -/
inductive Trees where
  | nil
  | cons (id : NodeId) (facts : Facts) (below beside : Trees)

namespace Trees

/-- The tops of trees. -/
def roots : Trees → List NodeId
  | nil => []
  | cons id _ _ beside => id :: beside.roots

/-- The numbers of all nodes, each node before what is below it. -/
def ids : Trees → List NodeId
  | nil => []
  | cons id _ below beside => id :: (below.ids ++ beside.ids)

/-- The node of a number in trees under a common parent. -/
def find? (parent : Option NodeId) (k : NodeId) : Trees → Option NodeEntry
  | nil => none
  | cons id facts below beside =>
    if id = k then some ⟨parent, below.roots, facts⟩
    else (below.find? (some id) k).or (beside.find? parent k)

/-- A single tree. -/
def single (id : NodeId) (facts : Facts) : Trees :=
  cons id facts nil nil

/-- Trees behind others. -/
def append : Trees → Trees → Trees
  | nil, ts => ts
  | cons id facts below beside, ts => cons id facts below (beside.append ts)

/-- The trees without a node and what is below it. -/
def without (i : NodeId) : Trees → Trees
  | nil => nil
  | cons id facts below beside =>
    if id = i then beside.without i
    else cons id facts (below.without i) (beside.without i)

/-- The tree of a node, taken out of others. -/
def take (i : NodeId) : Trees → Trees
  | nil => nil
  | cons id facts below beside =>
    if id = i then cons id facts below (beside.take i)
    else (below.take i).append (beside.take i)

/-- The trees with others behind what is below a node. -/
def graft : Trees → NodeId → Trees → Trees
  | nil, _, _ => nil
  | cons id facts below beside, p, us =>
    cons id facts (if id = p then (below.graft p us).append us else below.graft p us)
      (beside.graft p us)

/-- The trees with others in front of a node. -/
def plant : Trees → NodeId → Trees → Trees
  | nil, _, _ => nil
  | cons id facts below beside, a, us =>
    if id = a then us.append (cons id facts (below.plant a us) (beside.plant a us))
    else cons id facts (below.plant a us) (beside.plant a us)

/-- The trees with the facts about a node told anew. -/
def retell (i : NodeId) (g : Facts → Facts) : Trees → Trees
  | nil => nil
  | cons id facts below beside =>
    cons id (if id = i then g facts else facts) (below.retell i g) (beside.retell i g)

/-! ## Tops -/

/-- A list with others in front of one of its items. -/
def before (a : NodeId) (ts : List NodeId) (l : List NodeId) : List NodeId :=
  l.flatMap fun c => if c = a then ts ++ [c] else [c]

theorem before_cons (a : NodeId) (ts : List NodeId) (c : NodeId) (l : List NodeId) :
    before a ts (c :: l) = (if c = a then ts ++ [c] else [c]) ++ before a ts l :=
  List.flatMap_cons

theorem before_of_notMem {a : NodeId} {l : List NodeId} (h : a ∉ l) (ts : List NodeId) :
    before a ts l = l := by
  induction l with
  | nil => rfl
  | cons c l ih =>
      rw [List.mem_cons, not_or] at h
      rw [before_cons, if_neg (Ne.symm h.1), ih h.2, List.singleton_append]

theorem before_split {a : NodeId} {pre post : List NodeId} (h : (pre ++ a :: post).Nodup)
    (ts : List NodeId) : before a ts (pre ++ a :: post) = pre ++ ts ++ a :: post := by
  have hpre : a ∉ pre := fun hm => (List.nodup_append.1 h).2.2 a hm a (List.mem_cons_self ..) rfl
  have hpost : a ∉ post := (List.nodup_cons.1 (List.nodup_append.1 h).2.1).1
  have happend : before a ts (pre ++ a :: post) = before a ts pre ++ before a ts (a :: post) :=
    List.flatMap_append
  rw [happend, before_cons, if_pos rfl, before_of_notMem hpre, before_of_notMem hpost]
  simp

theorem filter_before {a : NodeId} {ts ids : List NodeId} (ha : a ∉ ids) (hts : ∀ t ∈ ts, t ∉ ids)
    (l : List NodeId) : (before a ts l).filter (· ∉ ids) = before a ts (l.filter (· ∉ ids)) := by
  induction l with
  | nil => rfl
  | cons c l ih =>
      have hkeep : ts.filter (· ∉ ids) = ts := List.filter_eq_self.2 fun t ht =>
        decide_eq_true (hts t ht)
      rw [before_cons, List.filter_append, ih]
      by_cases hc : c ∈ ids
      · have hca : c ≠ a := fun he => ha (he ▸ hc)
        rw [if_neg hca, List.filter_cons_of_neg (by simp [hc]),
          List.filter_cons_of_neg (by simp [hc])]
        rfl
      · have hone : [c].filter (· ∉ ids) = [c] := List.filter_cons_of_pos (by simp [hc])
        rw [List.filter_cons_of_pos (by simp [hc]), before_cons]
        by_cases hca : c = a
        · rw [if_pos hca, List.filter_append, hkeep, hone]
        · rw [if_neg hca, hone]

theorem before_before {a t : NodeId} (ht : t ≠ a) (ts l : List NodeId) :
    before a ts (before a [t] l) = before a (t :: ts) l := by
  rw [before, before, before, List.flatMap_assoc]
  congr 1
  funext c
  by_cases hc : c = a
  · simp [hc, ht]
  · simp [hc]

theorem roots_append (ts us : Trees) : (ts.append us).roots = ts.roots ++ us.roots := by
  induction ts with
  | nil => rfl
  | cons id facts below beside _ ih => rw [append, roots, ih, roots, List.cons_append]

theorem roots_without (i : NodeId) (ts : Trees) :
    (ts.without i).roots = ts.roots.filter (· ∉ [i]) := by
  induction ts with
  | nil => rfl
  | cons id facts below beside _ ih =>
      rw [without, roots]
      by_cases hid : id = i
      · rw [if_pos hid, ih, List.filter_cons_of_neg (by simp [hid])]
      · rw [if_neg hid, roots, ih, List.filter_cons_of_pos (by simp [hid])]

theorem roots_graft (p : NodeId) (us ts : Trees) : (ts.graft p us).roots = ts.roots := by
  induction ts with
  | nil => rfl
  | cons id facts below beside _ ih => rw [graft, roots, ih, roots]

theorem roots_plant (a : NodeId) (us ts : Trees) :
    (ts.plant a us).roots = before a us.roots ts.roots := by
  induction ts with
  | nil => rfl
  | cons id facts below beside _ ih =>
      rw [plant, roots, before_cons, ← ih]
      by_cases hid : id = a
      · rw [if_pos hid, if_pos hid, roots_append, roots, List.append_assoc, List.singleton_append]
      · rw [if_neg hid, if_neg hid, roots, List.singleton_append]

theorem roots_retell (i : NodeId) (g : Facts → Facts) (ts : Trees) :
    (ts.retell i g).roots = ts.roots := by
  induction ts with
  | nil => rfl
  | cons id facts below beside _ ih => rw [retell, roots, ih, roots]

/-! ## Numbers -/

theorem mem_ids_top (id : NodeId) (facts : Facts) (below beside : Trees) :
    id ∈ (cons id facts below beside).ids :=
  List.mem_cons_self ..

theorem mem_ids_below {id k : NodeId} {facts : Facts} {below beside : Trees} (hk : k ∈ below.ids) :
    k ∈ (cons id facts below beside).ids :=
  List.mem_cons_of_mem _ (List.mem_append_left _ hk)

theorem mem_ids_beside {id k : NodeId} {facts : Facts} {below beside : Trees}
    (hk : k ∈ beside.ids) : k ∈ (cons id facts below beside).ids :=
  List.mem_cons_of_mem _ (List.mem_append_right _ hk)

theorem ids_append (ts us : Trees) : (ts.append us).ids = ts.ids ++ us.ids := by
  induction ts with
  | nil => rfl
  | cons id facts below beside _ ih =>
      rw [append, ids, ih, ids, List.cons_append, List.append_assoc]

theorem ids_retell (i : NodeId) (g : Facts → Facts) (ts : Trees) :
    (ts.retell i g).ids = ts.ids := by
  induction ts with
  | nil => rfl
  | cons id facts below beside ihb ih => rw [retell, ids, ihb, ih, ids]

theorem retell_self (i : NodeId) (ts : Trees) : ts.retell i (fun facts => facts) = ts := by
  induction ts with
  | nil => rfl
  | cons id facts below beside ihb ih => rw [retell, ihb, ih, ite_self]

theorem count_cons (k id : NodeId) (facts : Facts) (below beside : Trees) :
    (cons id facts below beside).ids.count k =
      (if id = k then 1 else 0) + below.ids.count k + beside.ids.count k := by
  rw [ids, List.count_cons, List.count_append]
  simp only [beq_iff_eq]
  ring

/-- Every node is cut off or is left. -/
theorem count_without (i k : NodeId) (ts : Trees) :
    (ts.without i).ids.count k + (ts.take i).ids.count k = ts.ids.count k := by
  induction ts with
  | nil => rfl
  | cons id facts below beside ihb ih =>
      rw [without, take, count_cons, ← ihb, ← ih]
      by_cases hid : id = i
      · rw [if_pos hid, if_pos hid, count_cons, ← ihb]
        ring
      · rw [if_neg hid, if_neg hid, count_cons, ids_append, List.count_append]
        ring

theorem count_graft (p k : NodeId) (us ts : Trees) :
    (ts.graft p us).ids.count k = ts.ids.count k + ts.ids.count p * us.ids.count k := by
  induction ts with
  | nil => simp [graft, ids]
  | cons id facts below beside ihb ih =>
      rw [graft, count_cons, count_cons, count_cons, ih]
      by_cases hid : id = p
      · rw [if_pos hid, if_pos hid, ids_append, List.count_append, ihb]
        ring
      · rw [if_neg hid, if_neg hid, ihb]
        ring

theorem count_plant (a k : NodeId) (us ts : Trees) :
    (ts.plant a us).ids.count k = ts.ids.count k + ts.ids.count a * us.ids.count k := by
  induction ts with
  | nil => simp [plant, ids]
  | cons id facts below beside ihb ih =>
      rw [plant, count_cons, count_cons]
      by_cases hid : id = a
      · rw [if_pos hid, if_pos hid, ids_append, List.count_append, count_cons, ihb, ih]
        ring
      · rw [if_neg hid, if_neg hid, count_cons, ihb, ih]
        ring

theorem take_of_notMem {i : NodeId} {ts : Trees} (hi : i ∉ ts.ids) : ts.take i = nil := by
  induction ts with
  | nil => rfl
  | cons id facts below beside ihb ih =>
      rw [ids, List.mem_cons, List.mem_append, not_or, not_or] at hi
      rw [take, if_neg (Ne.symm hi.1), ihb hi.2.1, ih hi.2.2]
      rfl

/-- Of different nodes one at most is taken out. -/
theorem roots_take {i : NodeId} {ts : Trees} (h : ts.ids.Nodup) (hi : i ∈ ts.ids) :
    (ts.take i).roots = [i] := by
  induction ts with
  | nil => cases hi
  | cons id facts below beside ihb ih =>
      rw [ids, List.nodup_cons, List.nodup_append] at h
      obtain ⟨hid, hbelow, hbeside, hapart⟩ := h
      rw [take]
      by_cases he : id = i
      · have hbehind : i ∉ beside.ids := fun hm => hid (he ▸ List.mem_append_right _ hm)
        rw [if_pos he, take_of_notMem hbehind, roots, he, roots]
      · rw [if_neg he, roots_append]
        rcases List.mem_append.1 ((List.mem_cons.1 hi).resolve_left (Ne.symm he)) with hm | hm
        · rw [ihb hbelow hm, take_of_notMem fun hm' => hapart i hm i hm' rfl, roots,
            List.append_nil]
        · rw [take_of_notMem fun hm' => hapart i hm' i hm rfl, ih hbeside hm, roots,
            List.nil_append]

theorem count_of_mem_without {i p : NodeId} {ts : Trees} (h : ts.ids.Nodup)
    (hp : p ∈ (ts.without i).ids) : (ts.without i).ids.count p = 1 := by
  have hle := List.nodup_iff_count_le_one.1 h p
  have hpos := List.count_pos_iff.2 hp
  have hsum := count_without i p ts
  omega

/-- Of different nodes none is lost when one is moved below another that is left. -/
theorem perm_graft {i p : NodeId} {ts : Trees} (h : ts.ids.Nodup)
    (hp : p ∈ (ts.without i).ids) : ((ts.without i).graft p (ts.take i)).ids.Perm ts.ids := by
  refine List.perm_iff_count.2 fun k => ?_
  rw [count_graft, count_of_mem_without h hp, one_mul, count_without]

/-- Of different nodes none is lost when one is moved in front of another that is left. -/
theorem perm_plant {i a : NodeId} {ts : Trees} (h : ts.ids.Nodup)
    (ha : a ∈ (ts.without i).ids) : ((ts.without i).plant a (ts.take i)).ids.Perm ts.ids := by
  refine List.perm_iff_count.2 fun k => ?_
  rw [count_plant, count_of_mem_without h ha, one_mul, count_without]

/-! ## Views -/

/-- A view has every node of trees under a common parent as it stands in them. -/
def Holds (view : NodeId → Option NodeEntry) (parent : Option NodeId) : Trees → Prop
  | nil => True
  | cons id facts below beside =>
    view id = some ⟨parent, below.roots, facts⟩ ∧ below.Holds view (some id) ∧
      beside.Holds view parent

variable {v v' : NodeId → Option NodeEntry} {q : Option NodeId} {ts us : Trees} {a i k p : NodeId}

theorem holds_append : (ts.append us).Holds v q ↔ ts.Holds v q ∧ us.Holds v q := by
  induction ts with
  | nil => exact (iff_of_eq (true_and _)).symm
  | cons id facts below beside _ ih => rw [append, Holds, Holds, ih, and_assoc, and_assoc]

theorem Holds.congr (h : ts.Holds v q) (hv : ∀ k ∈ ts.ids, v' k = v k) : ts.Holds v' q := by
  induction ts generalizing q with
  | nil => trivial
  | cons id facts below beside ihb ih =>
      obtain ⟨hid, hbelow, hbeside⟩ := h
      refine ⟨?_, ihb hbelow fun k hk => hv k (mem_ids_below hk),
        ih hbeside fun k hk => hv k (mem_ids_beside hk)⟩
      rw [hv id (mem_ids_top ..), hid]

theorem Holds.exists_of_mem (h : ts.Holds v q) (hk : k ∈ ts.ids) : ∃ e, v k = some e := by
  induction ts generalizing q with
  | nil => cases hk
  | cons id facts below beside ihb ih =>
      obtain ⟨hid, hbelow, hbeside⟩ := h
      rcases List.mem_cons.1 hk with rfl | hk
      · exact ⟨_, hid⟩
      · rcases List.mem_append.1 hk with hk | hk
        · exact ihb hbelow hk
        · exact ih hbeside hk

theorem find?_eq_none (hk : k ∉ ts.ids) : ts.find? q k = none := by
  induction ts generalizing q with
  | nil => rfl
  | cons id facts below beside ihb ih =>
      rw [ids, List.mem_cons, List.mem_append, not_or, not_or] at hk
      rw [find?, if_neg (Ne.symm hk.1), ihb hk.2.1, ih hk.2.2]
      rfl

/-- Trees without a node are held where no children have it. -/
theorem Holds.without (h : ts.Holds v q) (hv : ∀ k ∈ (ts.without i).ids, v' k =
    (v k).map fun e => { e with children := e.children.filter (· ∉ [i]) }) :
    (ts.without i).Holds v' q := by
  induction ts generalizing q with
  | nil => trivial
  | cons id facts below beside ihb ih =>
      obtain ⟨hid, hbelow, hbeside⟩ := h
      rw [Trees.without] at hv ⊢
      by_cases he : id = i
      · rw [if_pos he] at hv ⊢
        exact ih hbeside hv
      · rw [if_neg he] at hv ⊢
        refine ⟨?_, ihb hbelow fun k hk => hv k (mem_ids_below hk),
          ih hbeside fun k hk => hv k (mem_ids_beside hk)⟩
        rw [hv id (mem_ids_top ..), hid, roots_without]
        rfl

/-- Trees with others grafted below a node are held where its children have their tops
behind them. -/
theorem Holds.graft (h : ts.Holds v q) (hus : us.Holds v' (some p)) (hv : ∀ k ∈ ts.ids, v' k =
    (v k).map fun e => { e with children := e.children ++ if k = p then us.roots else [] }) :
    (ts.graft p us).Holds v' q := by
  induction ts generalizing q with
  | nil => trivial
  | cons id facts below beside ihb ih =>
      obtain ⟨hid, hbelow, hbeside⟩ := h
      have hbelow' := ihb hbelow fun k hk => hv k (mem_ids_below hk)
      have hbeside' := ih hbeside fun k hk => hv k (mem_ids_beside hk)
      have hview := hv id (mem_ids_top ..)
      rw [hid, Option.map_some] at hview
      rw [Trees.graft]
      by_cases he : id = p
      · rw [if_pos he] at hview ⊢
        refine ⟨?_, holds_append.2 ⟨hbelow', he ▸ hus⟩, hbeside'⟩
        rw [hview, roots_append, roots_graft]
      · rw [if_neg he, List.append_nil] at hview
        rw [if_neg he]
        refine ⟨?_, hbelow', hbeside'⟩
        rw [hview, roots_graft]

/-- Trees with others planted in front of a node are held where the children of its parent
have their tops in front of it. -/
theorem Holds.plant (h : ts.Holds v q) (hus : ∀ e, v a = some e → us.Holds v' e.parent)
    (hv : ∀ k ∈ ts.ids, v' k =
      (v k).map fun e => { e with children := before a us.roots e.children }) :
    (ts.plant a us).Holds v' q := by
  induction ts generalizing q with
  | nil => trivial
  | cons id facts below beside ihb ih =>
      obtain ⟨hid, hbelow, hbeside⟩ := h
      have hbelow' := ihb hbelow fun k hk => hv k (mem_ids_below hk)
      have hbeside' := ih hbeside fun k hk => hv k (mem_ids_beside hk)
      have htop : (cons id facts (below.plant a us) (beside.plant a us)).Holds v' q := by
        refine ⟨?_, hbelow', hbeside'⟩
        rw [hv id (mem_ids_top ..), hid, roots_plant]
        rfl
      rw [Trees.plant]
      by_cases he : id = a
      · rw [if_pos he]
        exact holds_append.2 ⟨hus ⟨q, below.roots, facts⟩ (he ▸ hid), htop⟩
      · rwa [if_neg he]

theorem Holds.retell {g : Facts → Facts} (h : ts.Holds v q) (hv : ∀ k ∈ ts.ids, v' k =
    (v k).map fun e => { e with facts := if k = i then g e.facts else e.facts }) :
    (ts.retell i g).Holds v' q := by
  induction ts generalizing q with
  | nil => trivial
  | cons id facts below beside ihb ih =>
      obtain ⟨hid, hbelow, hbeside⟩ := h
      refine ⟨?_, ihb hbelow fun k hk => hv k (mem_ids_below hk),
        ih hbeside fun k hk => hv k (mem_ids_beside hk)⟩
      rw [hv id (mem_ids_top ..), hid, roots_retell]
      rfl

end Trees

end LiveMarkup
