import LiveMarkup.Value.Basic

/-!
# When two values are the same

Values are compared by what they say and handles by name. Numbers compare as
numbers do, except that two values that are not numbers count as the same, so a
value is always the same as itself. Properties compare as sets of entries: as
many on both sides, and every one on the left found on the right under its name.
Given distinct names this says that both have the same names with the same
values, in any order.
-/

namespace LiveMarkup

mutual

/-- Whether two values say the same. -/
def Value.same : Value → Value → Bool
  | .null, .null => true
  | .bool a, .bool b => a == b
  | .number x, .number y => x.same y
  | .str s, .str t => s == t
  | .node m, .node n => m.same n
  | .list vs, .list ws => Value.allSame vs ws
  | .map ⟨es⟩, .map q => es.length == q.size && Props.within es q
  | .listener l, .listener k => l == k
  | .component c, .component d => c == d
  | .ref r, .ref s => r == s
  | _, _ => false
termination_by structural v => v

/-- Whether two lists of values say the same, item by item. -/
def Value.allSame : List Value → List Value → Bool
  | [], [] => true
  | v :: vs, w :: ws => v.same w && Value.allSame vs ws
  | _, _ => false
termination_by structural vs => vs

/-- Whether every entry of a list is found in a map. -/
def Props.within : List (String × Value) → Props → Bool
  | [], _ => true
  | (name, v) :: es, q =>
    (match q.get? name with
      | some w => v.same w
      | none => false) && Props.within es q
termination_by structural es => es

/-- Whether two descriptions say the same. -/
def Node.same : Node → Node → Bool
  | .text s, .text t => s == t
  | .element s ⟨es⟩ cs, .element t q ds =>
    s == t && (es.length == q.size && Props.within es q) && Node.allSame cs ds
  | .portal s cs, .portal t ds => s == t && Node.allSame cs ds
  | _, _ => false
termination_by structural n => n

/-- Whether two lists of descriptions say the same, item by item. -/
def Node.allSame : List Node → List Node → Bool
  | [], [] => true
  | n :: ns, m :: ms => n.same m && Node.allSame ns ms
  | _, _ => false
termination_by structural ns => ns

end

/-- Whether two maps of properties hold the same names with the same values. -/
def Props.same (p q : Props) : Bool :=
  p.size == q.size && Props.within p.entries q

instance : BEq Value := ⟨Value.same⟩

instance : BEq Node := ⟨Node.same⟩

theorem Value.same_map (p q : Props) : (Value.map p).same (.map q) = Props.same p q := rfl

theorem Node.same_element (s t : String) (p q : Props) (cs ds : List Node) :
    (Node.element s p cs).same (.element t q ds) =
      (s == t && Props.same p q && Node.allSame cs ds) := rfl

end LiveMarkup
