import LiveMarkup.Proofs.Value.Same

/-!
# Values are the same as themselves

Maps are compared by looking the names of one up in the other. So a value is the
same as itself as long as no map in it has a name twice (`Value.same_self`), which
holds of every map that was built by writing entries.
-/

namespace LiveMarkup

mutual

/-- Whether no map in a value has a name twice. -/
def Value.Distinct : Value → Prop
  | .node n => n.Distinct
  | .list vs => Value.AllDistinct vs
  | .map ⟨es⟩ => (es.map (·.1)).Nodup ∧ Props.AllDistinct es
  | _ => True
termination_by structural v => v

/-- Whether no map in values has a name twice. -/
def Value.AllDistinct : List Value → Prop
  | [] => True
  | v :: vs => v.Distinct ∧ Value.AllDistinct vs
termination_by structural vs => vs

/-- Whether no map in the values of entries has a name twice. -/
def Props.AllDistinct : List (String × Value) → Prop
  | [] => True
  | (_, v) :: es => v.Distinct ∧ Props.AllDistinct es
termination_by structural es => es

/-- Whether no map in a description has a name twice. -/
def Node.Distinct : Node → Prop
  | .text _ => True
  | .element _ ⟨es⟩ cs => (es.map (·.1)).Nodup ∧ Props.AllDistinct es ∧ Node.AllDistinct cs
  | .portal _ cs => Node.AllDistinct cs
termination_by structural n => n

/-- Whether no map in descriptions has a name twice. -/
def Node.AllDistinct : List Node → Prop
  | [] => True
  | n :: ns => n.Distinct ∧ Node.AllDistinct ns
termination_by structural ns => ns

end

mutual

/-- A value is the same as itself. -/
theorem Value.same_self : ∀ {v : Value}, v.Distinct → v.same v = true
  | .null, _ => rfl
  | .bool b, _ => beq_self_eq_true b
  | .number x, _ => x.same_refl
  | .str s, _ => beq_self_eq_true s
  | .node n, h => Node.same_self (show n.Distinct from h)
  | .list vs, h => Value.allSame_self (show Value.AllDistinct vs from h)
  | .map ⟨es⟩, h => by
      have hwithin : Props.within es ⟨es⟩ = true :=
        Props.within_self es h.2 fun e he => OrderedMap.find?_of_mem h.1 he
      rw [Value.same, hwithin, Bool.and_true]
      exact beq_self_eq_true es.length
  | .listener l, _ => beq_self_eq_true l
  | .component c, _ => beq_self_eq_true c
  | .ref r, _ => beq_self_eq_true r

theorem Value.allSame_self : ∀ {vs : List Value}, Value.AllDistinct vs →
    Value.allSame vs vs = true
  | [], _ => rfl
  | _ :: _, h => by
      rw [Value.allSame, Value.same_self h.1, Value.allSame_self h.2]
      rfl

theorem Props.within_self : ∀ (es : List (String × Value)) {q : Props}, Props.AllDistinct es →
    (∀ e ∈ es, q.get? e.1 = some e.2) → Props.within es q = true
  | [], _, _, _ => rfl
  | (name, v) :: es, q, h, hq => by
      have hv : q.get? name = some v := hq (name, v) (List.mem_cons_self ..)
      rw [Props.within, hv, Props.within_self es h.2 fun e he => hq e (List.mem_cons_of_mem _ he),
        Bool.and_true]
      exact Value.same_self h.1

theorem Node.same_self : ∀ {n : Node}, n.Distinct → n.same n = true
  | .text s, _ => beq_self_eq_true s
  | .element tag ⟨es⟩ cs, h => by
      have hwithin : Props.within es ⟨es⟩ = true :=
        Props.within_self es h.2.1 fun e he => OrderedMap.find?_of_mem h.1 he
      rw [Node.same, hwithin, Node.allSame_self h.2.2, beq_self_eq_true, Bool.and_true,
        Bool.and_true, Bool.true_and]
      exact beq_self_eq_true es.length
  | .portal target cs, h => by
      have hcs : Node.allSame cs cs = true := Node.allSame_self h
      rw [Node.same, hcs, beq_self_eq_true]
      rfl

theorem Node.allSame_self : ∀ {ns : List Node}, Node.AllDistinct ns →
    Node.allSame ns ns = true
  | [], _ => rfl
  | _ :: _, h => by
      rw [Node.allSame, Node.same_self h.1, Node.allSame_self h.2]
      rfl

end

end LiveMarkup
