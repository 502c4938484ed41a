import LiveMarkup.Node.Basic
import LiveMarkup.Proofs.Value.Equivalence

/-!
# Descriptions that share a live node

A live node is kept for a description with the kind, tag, key or target of the
one before. That is a part of what two descriptions are compared by, so to be kept
is an equivalence, and it holds of descriptions that say the same
(`Node.Built.equivalences`).

Both are equivalences among what the operations on maps build, where no map has a
name twice (`Value.Built.distinct`).
-/

namespace LiveMarkup

/-! ## Keeping a live node -/

/-- Two keys say the same when neither is there, or both are and say the same. -/
theorem Value.optionBeq_iff {a b : Option Value} :
    (a == b) = true ↔ a = none ∧ b = none ∨
      ∃ v w, a = some v ∧ b = some w ∧ v.same w = true := by
  cases a with
  | none => cases b <;> simp
  | some v =>
      cases b with
      | none => simp
      | some w =>
          have hbeq : (some v == some w) = v.same w := rfl
          simp [hbeq]

/-- What two descriptions have in common for one live node to be kept. -/
theorem Node.kept_element_iff {s t : String} {p q : Props} {cs ds : List Node} :
    (Node.element s p cs).mustReplace (.element t q ds) = false ↔
      s = t ∧ (p.key? == q.key?) = true := by
  simp [Node.mustReplace, bne]

/-- The live node of a description can be kept for one that says the same. -/
theorem Node.mustReplace_of_same {new old : Node} (h : new.same old = true)
    (hn : new.Distinct) : new.mustReplace old = false := by
  cases new with
  | text s =>
      cases old with
      | text t => simp [Node.mustReplace, Node.same_text_iff.1 h]
      | _ => cases h
  | element s p cs =>
      cases old with
      | element t q ds =>
          have hparts := Node.same_element_iff.1 h
          exact Node.kept_element_iff.2
            ⟨hparts.1, Props.get?_beq_of_same hparts.2.1 hn.props "key"⟩
      | text t => cases p; cases h
      | portal t ds => cases p; cases h
  | portal s cs =>
      cases old with
      | portal t ds => simp [Node.mustReplace, (Node.same_portal_iff.1 h).1]
      | _ => cases h

theorem Node.mustReplace_symm {m n : Node} (hm : m.Distinct) (hn : n.Distinct)
    (h : m.mustReplace n = false) : n.mustReplace m = false := by
  cases m with
  | text s =>
      cases n with
      | text t =>
          have hst : s = t := by simpa [Node.mustReplace] using h
          simp [Node.mustReplace, hst]
      | _ => cases h
  | element s p cs =>
      cases n with
      | element t q ds =>
          obtain ⟨htag, hkey⟩ := Node.kept_element_iff.1 h
          refine Node.kept_element_iff.2 ⟨htag.symm, Value.optionBeq_iff.2 ?_⟩
          rcases Value.optionBeq_iff.1 hkey with ⟨hp, hq⟩ | ⟨v, w, hv, hw, hvw⟩
          · exact Or.inl ⟨hq, hp⟩
          · exact Or.inr ⟨w, v, hw, hv, Value.same_symm (hm.map.get? hv) (hn.map.get? hw) hvw⟩
      | _ => cases h
  | portal s cs =>
      cases n with
      | portal t ds =>
          have hst : s = t := by simpa [Node.mustReplace] using h
          simp [Node.mustReplace, hst]
      | _ => cases h

theorem Node.mustReplace_trans {l m n : Node} (hl : l.Distinct) (hm : m.Distinct)
    (hn : n.Distinct) (h : l.mustReplace m = false) (h' : m.mustReplace n = false) :
    l.mustReplace n = false := by
  cases l with
  | text s =>
      cases m with
      | text t =>
          obtain rfl : s = t := by simpa [Node.mustReplace] using h
          exact h'
      | _ => cases h
  | element s p cs =>
      cases m with
      | element t q ds =>
          cases n with
          | element u r bs =>
              obtain ⟨htag, hkey⟩ := Node.kept_element_iff.1 h
              obtain ⟨htag', hkey'⟩ := Node.kept_element_iff.1 h'
              refine Node.kept_element_iff.2 ⟨htag.trans htag', Value.optionBeq_iff.2 ?_⟩
              rcases Value.optionBeq_iff.1 hkey with ⟨hp, hq⟩ | ⟨u, v, hu, hv, huv⟩
              · rcases Value.optionBeq_iff.1 hkey' with ⟨-, hr⟩ | ⟨v, -, hv, -, -⟩
                · exact Or.inl ⟨hp, hr⟩
                · cases hq.symm.trans hv
              · rcases Value.optionBeq_iff.1 hkey' with ⟨hq, -⟩ | ⟨v', w, hv', hw, hvw⟩
                · cases hq.symm.trans hv
                · obtain rfl : v' = v := Option.some.inj (hv'.symm.trans hv)
                  exact Or.inr ⟨u, w, hu, hw, Value.same_trans (hl.map.get? hu)
                    (hm.map.get? hv) (hn.map.get? hw) huv hvw⟩
          | _ => cases h'
      | _ => cases h
  | portal s cs =>
      cases m with
      | portal t ds =>
          obtain rfl : s = t := by simpa [Node.mustReplace] using h
          cases n with
          | portal u bs => exact h'
          | _ => cases h'
      | _ => cases h

/-! ## What the operations build -/

mutual

/-- Whether a value is built from maps that the operations on maps give. -/
inductive Value.Built : Value → Prop where
  | null : Value.Built .null
  | bool (b : Bool) : Value.Built (.bool b)
  | number (x : Number) : Value.Built (.number x)
  | str (s : String) : Value.Built (.str s)
  | node {n : Node} (h : Node.Built n) : Value.Built (.node n)
  | list {vs : List Value} (h : ∀ v ∈ vs, Value.Built v) : Value.Built (.list vs)
  | map {p : Props} (h : Props.Built p) : Value.Built (.map p)
  | listener (l : Listener) : Value.Built (.listener l)
  | component (c : Component) : Value.Built (.component c)
  | ref (r : Ref) : Value.Built (.ref r)

/-- Whether a map is given by the operations on maps, from values built so. -/
inductive Props.Built : Props → Prop where
  | empty : Props.Built .empty
  | ofList {es : List (String × Value)} (hes : ∀ e ∈ es, Value.Built e.2) :
      Props.Built (.ofList es)
  | insert {p : Props} {v : Value} (hp : Props.Built p) (name : String) (hv : Value.Built v) :
      Props.Built (p.insert name v)
  | erase {p : Props} (hp : Props.Built p) (name : String) : Props.Built (p.erase name)
  | assign {p q : Props} (hp : Props.Built p) (hq : Props.Built q) : Props.Built (p.assign q)

/-- Whether the maps in a description are built so. -/
inductive Node.Built : Node → Prop where
  | text (s : String) : Node.Built (.text s)
  | element {p : Props} {cs : List Node} (tag : String) (hp : Props.Built p)
      (hcs : ∀ c ∈ cs, Node.Built c) : Node.Built (.element tag p cs)
  | portal {cs : List Node} (target : NodeId) (hcs : ∀ c ∈ cs, Node.Built c) :
      Node.Built (.portal target cs)

end

theorem Value.Distinct.insert {p : Props} {v : Value} (hp : (Value.map p).Distinct)
    (hv : v.Distinct) (name : String) : (Value.map (p.insert name v)).Distinct := by
  obtain ⟨hnames, hvalues⟩ := Value.distinct_map.1 hp
  refine Value.distinct_map.2 ⟨hnames.insert name v, fun e he => ?_⟩
  rcases OrderedMap.mem_write he with rfl | he
  · exact hv
  · exact hvalues e he

theorem Value.Distinct.erase {p : Props} (hp : (Value.map p).Distinct) (name : String) :
    (Value.map (p.erase name)).Distinct := by
  obtain ⟨hnames, hvalues⟩ := Value.distinct_map.1 hp
  exact Value.distinct_map.2 ⟨hnames.erase name,
    fun e he => hvalues e ((OrderedMap.drop_sublist name p.entries).subset he)⟩

theorem Value.Distinct.assign {p : Props} {es : List (String × Value)}
    (hp : (Value.map p).Distinct) (hes : ∀ e ∈ es, e.2.Distinct) :
    (Value.map (p.assign ⟨es⟩)).Distinct := by
  induction es generalizing p with
  | nil => exact hp
  | cons e es ih =>
      exact ih (hp.insert (hes e (List.mem_cons_self ..)) e.1)
        fun e he => hes e (List.mem_cons_of_mem _ he)

mutual

/-- No map in what the operations build has a name twice. -/
theorem Value.Built.distinct : ∀ {v : Value}, v.Built → v.Distinct
  | _, .null => trivial
  | _, .bool _ => trivial
  | _, .number _ => trivial
  | _, .str _ => trivial
  | _, .node h => h.distinct
  | _, .list h => Value.allDistinct_of_forall fun v hv => (h v hv).distinct
  | _, .map h => h.distinct
  | _, .listener _ => trivial
  | _, .component _ => trivial
  | _, .ref _ => trivial

theorem Props.Built.distinct : ∀ {p : Props}, p.Built → (Value.map p).Distinct
  | _, .empty => ⟨List.nodup_nil, trivial⟩
  | _, .ofList h => Value.Distinct.assign ⟨List.nodup_nil, trivial⟩ fun e he => (h e he).distinct
  | _, .insert hp name hv => hp.distinct.insert hv.distinct name
  | _, .erase hp name => hp.distinct.erase name
  | _, .assign hp hq => hp.distinct.assign (Value.distinct_map.1 hq.distinct).2

theorem Node.Built.distinct : ∀ {n : Node}, n.Built → n.Distinct
  | _, .text _ => trivial
  | _, .element _ hp hcs =>
      Node.distinct_element.2
        ⟨hp.distinct, Node.allDistinct_of_forall fun c hc => (hcs c hc).distinct⟩
  | _, .portal _ hcs => Node.allDistinct_of_forall fun c hc => (hcs c hc).distinct

end

/-- Among what the operations build, saying the same is an equivalence, of maps as
of values and descriptions, and maps say the same when they have the same names in
some order with values that say the same. To be kept is an equivalence of
descriptions which holds of those that say the same. -/
theorem Node.Built.equivalences :
    Equivalence (fun v w : {v : Value // v.Built} => v.1.same w.1 = true) ∧
      Equivalence (fun p q : {p : Props // p.Built} => Props.same p.1 q.1 = true) ∧
      Equivalence (fun m n : {n : Node // n.Built} => m.1.same n.1 = true) ∧
      (∀ p q : {p : Props // p.Built}, Props.same p.1 q.1 = true ↔ p.1.keys.Perm q.1.keys ∧
        ∀ name v w, p.1.get? name = some v → q.1.get? name = some w → v.same w = true) ∧
      Equivalence (fun new old : {n : Node // n.Built} => new.1.mustReplace old.1 = false) ∧
      ∀ new old : {n : Node // n.Built}, new.1.same old.1 = true →
        new.1.mustReplace old.1 = false := by
  refine ⟨⟨?_, ?_, ?_⟩, ⟨?_, ?_, ?_⟩, ⟨?_, ?_, ?_⟩, ?_, ⟨?_, ?_, ?_⟩, ?_⟩
  · exact fun v => Value.same_self v.2.distinct
  · exact fun {v w} => Value.same_symm v.2.distinct w.2.distinct
  · exact fun {u v w} => Value.same_trans u.2.distinct v.2.distinct w.2.distinct
  -- Maps are compared as the values that they are.
  · exact fun p => Value.same_self p.2.distinct
  · exact fun {p q} => Value.same_symm p.2.distinct q.2.distinct
  · exact fun {p q r} => Value.same_trans p.2.distinct q.2.distinct r.2.distinct
  · exact fun n => Node.same_self n.2.distinct
  · exact fun {m n} => Node.same_symm m.2.distinct n.2.distinct
  · exact fun {l m n} => Node.same_trans l.2.distinct m.2.distinct n.2.distinct
  · exact fun p q => Props.same_iff (Value.distinct_map.1 p.2.distinct).1
      (Value.distinct_map.1 q.2.distinct).1
  · exact fun n => Node.mustReplace_of_same (Node.same_self n.2.distinct) n.2.distinct
  · exact fun {m n} => Node.mustReplace_symm m.2.distinct n.2.distinct
  · exact fun {l m n} => Node.mustReplace_trans l.2.distinct m.2.distinct n.2.distinct
  · exact fun new old h => Node.mustReplace_of_same h new.2.distinct

/-- Properties in another order, a key which is not a number among them and the two
zeros: the elements say the same from either side, and either is kept for the
other. -/
theorem Node.Built.equivalences_reordered :
    let m := Node.element "a" (.ofList [("key", .number .nan), ("n", .number (.zero true))]) []
    let n := Node.element "a" (.ofList [("n", .number (.zero false)), ("key", .number .nan)]) []
    m.Built ∧ n.Built ∧ m.same n = true ∧ n.same m = true ∧ n.mustReplace m = false := by
  intro m n
  have hm : m.Built := .element "a" (.ofList (by simp [Value.Built.number])) (by simp)
  have hn : n.Built := .element "a" (.ofList (by simp [Value.Built.number])) (by simp)
  have hmn : m.same n = true := by decide
  obtain ⟨-, -, hnodes, -, -, hkept⟩ := Node.Built.equivalences
  have hnm : n.same m = true := hnodes.symm (x := ⟨m, hm⟩) (y := ⟨n, hn⟩) hmn
  exact ⟨hm, hn, hmn, hnm, hkept ⟨n, hn⟩ ⟨m, hm⟩ hnm⟩

end LiveMarkup
