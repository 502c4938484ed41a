import LiveMarkup.Node.Make

/-!
# Erasing strings

What is left of a value when every string and every text in it is made empty is its
shape: kinds, tags, the names of properties and their order, and how things are
nested. Writing entries into a map and making children out of values only ever look
at shapes, so erasing before gives nothing else than erasing after
(`Props.erased_insert`, `Props.erased_assign`, `allErased_flatten`). For the latter
the result has to be erased as well, since a number becomes a text.
-/

namespace LiveMarkup

mutual

/-- A value with its strings and texts erased. -/
def Value.erased : Value → Value
  | .str _ => .str ""
  | .node n => .node n.erased
  | .list vs => .list (Value.allErased vs)
  | .map ⟨es⟩ => .map ⟨Props.erasedEntries es⟩
  | v => v
termination_by structural v => v

/-- Values with their strings and texts erased. -/
def Value.allErased : List Value → List Value
  | [] => []
  | v :: vs => v.erased :: Value.allErased vs
termination_by structural vs => vs

/-- Entries with the strings and texts in their values erased. -/
def Props.erasedEntries : List (String × Value) → List (String × Value)
  | [] => []
  | (name, v) :: es => (name, v.erased) :: Props.erasedEntries es
termination_by structural es => es

/-- A description with its strings and texts erased. -/
def Node.erased : Node → Node
  | .text _ => .text ""
  | .element tag ⟨es⟩ cs => .element tag ⟨Props.erasedEntries es⟩ (Node.allErased cs)
  | .portal target cs => .portal target (Node.allErased cs)
termination_by structural n => n

/-- Descriptions with their strings and texts erased. -/
def Node.allErased : List Node → List Node
  | [] => []
  | n :: ns => n.erased :: Node.allErased ns
termination_by structural ns => ns

end

/-- Properties with the strings and texts in their values erased. -/
def Props.erased (p : Props) : Props :=
  ⟨Props.erasedEntries p.entries⟩

@[simp] theorem Value.erased_node (n : Node) : (Value.node n).erased = .node n.erased := rfl

@[simp] theorem Value.erased_map (p : Props) : (Value.map p).erased = .map (Props.erased p) := by
  cases p
  rfl

@[simp] theorem Node.erased_element (tag : String) (p : Props) (cs : List Node) :
    (Node.element tag p cs).erased = .element tag (Props.erased p) (Node.allErased cs) := by
  cases p
  rfl

theorem Value.allErased_append (vs ws : List Value) :
    Value.allErased (vs ++ ws) = Value.allErased vs ++ Value.allErased ws := by
  induction vs with
  | nil => rfl
  | cons v vs ih => rw [List.cons_append, Value.allErased, ih, Value.allErased, List.cons_append]

theorem Node.allErased_append (ns ms : List Node) :
    Node.allErased (ns ++ ms) = Node.allErased ns ++ Node.allErased ms := by
  induction ns with
  | nil => rfl
  | cons n ns ih => rw [List.cons_append, Node.allErased, ih, Node.allErased, List.cons_append]

mutual

/-- What has been erased stays as it is. -/
@[simp] theorem Value.erased_erased : ∀ v : Value, v.erased.erased = v.erased
  | .null | .bool _ | .number _ | .str _ | .listener _ | .component _ | .ref _ => rfl
  | .node n => congrArg Value.node (Node.erased_erased n)
  | .list vs => congrArg Value.list (Value.allErased_allErased vs)
  | .map ⟨es⟩ => congrArg (Value.map ⟨·⟩) (Props.erasedEntries_erasedEntries es)

@[simp] theorem Value.allErased_allErased :
    ∀ vs : List Value, Value.allErased (Value.allErased vs) = Value.allErased vs
  | [] => rfl
  | v :: vs => by
      simp only [Value.allErased, Value.erased_erased v, Value.allErased_allErased vs]

theorem Props.erasedEntries_erasedEntries : ∀ es : List (String × Value),
    Props.erasedEntries (Props.erasedEntries es) = Props.erasedEntries es
  | [] => rfl
  | (name, v) :: es => by
      simp only [Props.erasedEntries, Value.erased_erased v, Props.erasedEntries_erasedEntries es]

@[simp] theorem Node.erased_erased : ∀ n : Node, n.erased.erased = n.erased
  | .text _ => rfl
  | .element tag ⟨es⟩ cs => by
      simp only [Node.erased, Props.erasedEntries_erasedEntries es, Node.allErased_allErased cs]
  | .portal target cs => congrArg (Node.portal target) (Node.allErased_allErased cs)

@[simp] theorem Node.allErased_allErased :
    ∀ ns : List Node, Node.allErased (Node.allErased ns) = Node.allErased ns
  | [] => rfl
  | n :: ns => by
      simp only [Node.allErased, Node.erased_erased n, Node.allErased_allErased ns]

end

/-! ## Properties -/

namespace Props

@[simp] theorem erased_empty : Props.erased .empty = .empty := rfl

@[simp] theorem erased_erased (p : Props) : (Props.erased p).erased = Props.erased p :=
  congrArg OrderedMap.mk (erasedEntries_erasedEntries p.entries)

theorem erasedEntries_write (name : String) (v : Value) (es : List (String × Value)) :
    erasedEntries (OrderedMap.write name v es) =
      OrderedMap.write name v.erased (erasedEntries es) := by
  induction es with
  | nil => rfl
  | cons e es ih =>
      obtain ⟨key, w⟩ := e
      rw [OrderedMap.write, erasedEntries, OrderedMap.write]
      split
      · rfl
      · rw [erasedEntries, ih]

theorem erased_insert (p : Props) (name : String) (v : Value) :
    Props.erased (p.insert name v) = (Props.erased p).insert name v.erased :=
  congrArg OrderedMap.mk (erasedEntries_write name v p.entries)

theorem erased_assign (p q : Props) :
    Props.erased (p.assign q) = (Props.erased p).assign (Props.erased q) := by
  obtain ⟨es⟩ := q
  induction es generalizing p with
  | nil => rfl
  | cons e es ih =>
      refine (ih (p.insert e.1 e.2)).trans ?_
      rw [erased_insert]
      rfl

end Props

/-! ## Children -/

mutual

/-- Values show nodes of one shape when they have one shape. -/
theorem Value.allErased_nodes : ∀ v : Value,
    Node.allErased v.erased.nodes = Node.allErased v.nodes
  | .null | .bool _ | .number _ | .str _ | .listener _ | .component _ | .ref _ => rfl
  | .node n => congrArg (fun m => [m]) n.erased_erased
  | .list vs => allErased_flatten vs
  | .map ⟨_⟩ => rfl

theorem allErased_flatten : ∀ vs : List Value,
    Node.allErased (flatten (Value.allErased vs)) = Node.allErased (flatten vs)
  | [] => rfl
  | v :: vs => by
      rw [Value.allErased, flatten_cons, flatten_cons, Node.allErased_append,
        Node.allErased_append, Value.allErased_nodes v, allErased_flatten vs]

end

end LiveMarkup
