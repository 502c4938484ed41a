import LiveMarkup.Value.Same
import LiveMarkup.Value.Scalar
import Mathlib.Data.List.Perm.Subperm

/-!
# Values that are the same have the same text

The two zeros count as the same number and are written differently. Without
negative zeros two values that are the same have the same text
(`Value.text?_eq_of_same`). Maps that are the same have the same names, and under
each of them values that are the same (`Props.get?_eq_of_same`), provided that no
name stands twice in either.
-/

namespace LiveMarkup

mutual

/-- Whether a value, its items and its entries are other numbers than the
negative zero. -/
def Value.ZeroFree : Value → Prop
  | .number x => x ≠ .zero true
  | .list items => Value.AllZeroFree items
  | .map ⟨es⟩ => Props.ZeroFree es
  | _ => True
termination_by structural v => v

/-- Whether no negative zero is in values. -/
def Value.AllZeroFree : List Value → Prop
  | [] => True
  | v :: vs => v.ZeroFree ∧ Value.AllZeroFree vs
termination_by structural vs => vs

/-- Whether no negative zero is in the values of entries. -/
def Props.ZeroFree : List (String × Value) → Prop
  | [] => True
  | (_, v) :: es => v.ZeroFree ∧ Props.ZeroFree es
termination_by structural es => es

end

theorem Props.ZeroFree.mem {es : List (String × Value)} (h : Props.ZeroFree es)
    {e : String × Value} (he : e ∈ es) : e.2.ZeroFree := by
  induction es with
  | nil => cases he
  | cons d es ih =>
      rcases List.mem_cons.1 he with rfl | he
      · exact h.1
      · exact ih h.2 he

theorem Number.eq_zero_of_isZero {x : Number} (h : x.isZero = true) (hx : x ≠ .zero true) :
    x = .zero false := by
  cases x with
  | finite negative m q canonical =>
      obtain rfl : m = 0 := by simpa [isZero] using h
      have hq : q = binary64.minExponent := by
        obtain ⟨-, -, -, hq | hm⟩ := canonical
        · exact hq
        · exact absurd hm (by decide)
      subst hq
      cases negative with
      | true => exact absurd rfl hx
      | false => rfl
  | _ => cases h

theorem Number.eq_of_same {x y : Number} (h : x.same y = true) (hx : x ≠ .zero true)
    (hy : y ≠ .zero true) : x = y := by
  rw [same, Bool.or_eq_true, beq_iff_eq, Bool.and_eq_true] at h
  rcases h with h | ⟨hx', hy'⟩
  · exact h
  · rw [eq_zero_of_isZero hx' hx, eq_zero_of_isZero hy' hy]

mutual

/-- Values that are the same have the same text. -/
theorem Value.text?_eq_of_same : ∀ {v w : Value}, v.same w = true → v.ZeroFree → w.ZeroFree →
    v.text? = w.text?
  | .null, w, h, _, _ => by
      cases w with
      | null => rfl
      | _ => cases h
  | .bool a, w, h, _, _ => by
      cases w with
      | bool b =>
          have hab : a = b := beq_iff_eq.1 h
          rw [hab]
      | _ => cases h
  | .number x, w, h, hv, hw => by
      cases w with
      | number y => rw [Number.eq_of_same h hv hw]
      | _ => cases h
  | .str s, w, h, _, _ => by
      cases w with
      | str t =>
          have hst : s = t := beq_iff_eq.1 h
          rw [hst]
      | _ => cases h
  | .node n, w, h, _, _ => by
      cases w with
      | node m => rfl
      | _ => cases h
  | .list vs, w, h, hv, hw => by
      cases w with
      | list ws => rw [Value.text?, Value.text?, Value.texts_eq_of_allSame h hv hw]
      | _ => cases h
  | .map p, w, h, _, _ => by
      cases w with
      | map q => rfl
      | _ => cases p; cases h
  | .listener l, w, h, _, _ => by
      cases w with
      | listener k => rfl
      | _ => cases h
  | .component c, w, h, _, _ => by
      cases w with
      | component d => rfl
      | _ => cases h
  | .ref r, w, h, _, _ => by
      cases w with
      | ref s => rfl
      | _ => cases h

theorem Value.texts_eq_of_allSame : ∀ {vs ws : List Value}, Value.allSame vs ws = true →
    Value.AllZeroFree vs → Value.AllZeroFree ws → Value.texts vs = Value.texts ws
  | [], ws, h, _, _ => by
      cases ws with
      | nil => rfl
      | cons w ws => cases h
  | v :: vs, ws, h, hv, hw => by
      cases ws with
      | nil => cases h
      | cons w ws =>
          obtain ⟨hvw, hvws⟩ := Bool.and_eq_true_iff.1 h
          rw [Value.texts, Value.texts, Value.text?_eq_of_same hvw hv.1 hw.1,
            Value.texts_eq_of_allSame hvws hv.2 hw.2]

end

/-! ## Maps -/

theorem Props.within_mem {es : List (String × Value)} {q : Props} (h : Props.within es q = true)
    {e : String × Value} (he : e ∈ es) : ∃ w, q.get? e.1 = some w ∧ e.2.same w = true := by
  induction es with
  | nil => cases he
  | cons d es ih =>
      obtain ⟨hd, hes⟩ := Bool.and_eq_true_iff.1 h
      rcases List.mem_cons.1 he with rfl | he
      · cases hq : q.get? e.1 with
        | none =>
            rw [hq] at hd
            cases hd
        | some w =>
            rw [hq] at hd
            exact ⟨w, rfl, hd⟩
      · exact ih hes he

/-- Maps that are the same have the same names, and the same value under each. -/
theorem Props.get?_of_same {p q : Props} (h : (Value.map p).same (.map q) = true)
    (hp : p.Distinct) (name : String) :
    (∃ v w, p.get? name = some v ∧ q.get? name = some w ∧ v.same w = true) ∨
      p.get? name = none ∧ q.get? name = none := by
  obtain ⟨hsize, hwithin⟩ := Bool.and_eq_true_iff.1 h
  cases hv : p.get? name with
  | some v =>
      obtain ⟨w, hw, hvw⟩ := Props.within_mem hwithin (OrderedMap.mem_of_find? hv)
      exact Or.inl ⟨v, w, rfl, hw, hvw⟩
  | none =>
      refine Or.inr ⟨rfl, ?_⟩
      have hsub : p.keys ⊆ q.keys := by
        intro k hk
        obtain ⟨e, he, rfl⟩ := List.mem_map.1 hk
        obtain ⟨w, hw, -⟩ := Props.within_mem hwithin he
        by_contra hk'
        rw [(q.get?_eq_none_iff e.1).2 hk'] at hw
        cases hw
      have hlength : q.keys.length ≤ p.keys.length := by
        have hsize' : p.entries.length = q.entries.length := beq_iff_eq.1 hsize
        rw [OrderedMap.keys, OrderedMap.keys, List.length_map, List.length_map]
        exact Nat.le_of_eq hsize'.symm
      have hperm := (List.Nodup.subperm hp hsub).perm_of_length_le hlength
      rw [OrderedMap.get?_eq_none_iff] at hv ⊢
      exact fun hk => hv (hperm.mem_iff.2 hk)

end LiveMarkup
