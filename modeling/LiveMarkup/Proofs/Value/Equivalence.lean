import LiveMarkup.Proofs.Value.Distinct

/-!
# Comparing values from either side and by way of a third

Maps are compared from one side: as many entries on both, and every entry of the
left found on the right. With distinct names that is the same from either side,
since as many names as there are on the right cannot leave one of them out
(`Props.same_iff`). So values and descriptions whose maps have distinct names
throughout can be compared from the other side (`Value.same_symm`) and by way of
a third (`Value.same_trans`).
-/

namespace LiveMarkup

/-! ## Maps -/

theorem Props.AllDistinct.mem {es : List (String × Value)} (h : Props.AllDistinct es)
    {e : String × Value} (he : e ∈ es) : e.2.Distinct := by
  induction es with
  | nil => cases he
  | cons d es ih =>
      rcases List.mem_cons.1 he with rfl | he
      · exact h.1
      · exact ih h.2 he

theorem Props.allDistinct_of_forall {es : List (String × Value)} (h : ∀ e ∈ es, e.2.Distinct) :
    Props.AllDistinct es := by
  induction es with
  | nil => trivial
  | cons e es ih =>
      exact ⟨h e (List.mem_cons_self ..), ih fun e he => h e (List.mem_cons_of_mem _ he)⟩

theorem Value.allDistinct_of_forall {vs : List Value} (h : ∀ v ∈ vs, v.Distinct) :
    Value.AllDistinct vs := by
  induction vs with
  | nil => trivial
  | cons v vs ih =>
      exact ⟨h v (List.mem_cons_self ..), ih fun w hw => h w (List.mem_cons_of_mem _ hw)⟩

theorem Node.allDistinct_of_forall {ns : List Node} (h : ∀ n ∈ ns, n.Distinct) :
    Node.AllDistinct ns := by
  induction ns with
  | nil => trivial
  | cons n ns ih =>
      exact ⟨h n (List.mem_cons_self ..), ih fun m hm => h m (List.mem_cons_of_mem _ hm)⟩

theorem Value.distinct_map {p : Props} :
    (Value.map p).Distinct ↔ p.Distinct ∧ ∀ e ∈ p.entries, e.2.Distinct := by
  obtain ⟨es⟩ := p
  exact and_congr_right fun _ => ⟨fun h _ he => h.mem he, Props.allDistinct_of_forall⟩

/-- What is under a name in a map with distinct names throughout has them as well. -/
theorem Value.Distinct.get? {p : Props} (h : (Value.map p).Distinct) {name : String} {v : Value}
    (hv : p.get? name = some v) : v.Distinct :=
  (Value.distinct_map.1 h).2 _ (OrderedMap.mem_of_find? hv)

theorem Props.within_of_forall {es : List (String × Value)} {q : Props}
    (h : ∀ e ∈ es, ∃ w, q.get? e.1 = some w ∧ e.2.same w = true) :
    Props.within es q = true := by
  induction es with
  | nil => rfl
  | cons e es ih =>
      obtain ⟨w, hw, hew⟩ := h e (List.mem_cons_self ..)
      rw [Props.within, hw, ih fun e he => h e (List.mem_cons_of_mem _ he), Bool.and_true]
      exact hew

/-- Maps say the same when they have the same names in some order, and values
that say the same under each. -/
theorem Props.same_iff {p q : Props} (hp : p.Distinct) (hq : q.Distinct) :
    Props.same p q = true ↔ p.keys.Perm q.keys ∧
      ∀ name v w, p.get? name = some v → q.get? name = some w → v.same w = true := by
  constructor
  · intro h
    have hnames : ∀ name, name ∈ p.keys ↔ name ∈ q.keys := by
      intro name
      have hnone : p.get? name = none ↔ q.get? name = none := by
        rcases Props.get?_of_same h hp name with ⟨v, w, hv, hw, -⟩ | ⟨hv, hw⟩
        · simp [hv, hw]
        · simp [hv, hw]
      rw [OrderedMap.get?_eq_none_iff, OrderedMap.get?_eq_none_iff] at hnone
      exact not_iff_not.1 hnone
    refine ⟨(List.perm_ext_iff_of_nodup hp hq).2 hnames, fun name v w hv hw => ?_⟩
    rcases Props.get?_of_same h hp name with ⟨v', w', hv', hw', hsame⟩ | ⟨hv', -⟩
    · obtain rfl : v' = v := Option.some.inj (hv'.symm.trans hv)
      obtain rfl : w' = w := Option.some.inj (hw'.symm.trans hw)
      exact hsame
    · rw [hv] at hv'
      cases hv'
  · rintro ⟨hperm, hvalues⟩
    have hsize : p.size = q.size := by
      have hlength := hperm.length_eq
      rwa [OrderedMap.keys, OrderedMap.keys, List.length_map, List.length_map] at hlength
    rw [Props.same, hsize, beq_self_eq_true, Bool.true_and]
    refine Props.within_of_forall fun e he => ?_
    have hmem : e.1 ∈ q.keys := hperm.mem_iff.1 (List.mem_map_of_mem he)
    obtain ⟨w, hw⟩ : ∃ w, q.get? e.1 = some w := by
      rw [← Option.ne_none_iff_exists', ne_eq, OrderedMap.get?_eq_none_iff, not_not]
      exact hmem
    exact ⟨w, hw, hvalues e.1 e.2 w (OrderedMap.find?_of_mem hp he) hw⟩

/-- Maps can be compared from the other side when their values can. -/
theorem Props.same_symm_of {p q : Props} (hp : p.Distinct) (hq : q.Distinct)
    (hvalues : ∀ name v w, p.get? name = some v → q.get? name = some w → v.same w = true →
      w.same v = true)
    (h : Props.same p q = true) : Props.same q p = true := by
  obtain ⟨hperm, hsame⟩ := (Props.same_iff hp hq).1 h
  exact (Props.same_iff hq hp).2
    ⟨hperm.symm, fun name w v hw hv => hvalues name v w hv hw (hsame name v w hv hw)⟩

/-- Maps can be compared by way of a third when their values can. -/
theorem Props.same_trans_of {p q r : Props} (hp : p.Distinct) (hq : q.Distinct)
    (hr : r.Distinct)
    (hvalues : ∀ name u v w, p.get? name = some u → q.get? name = some v →
      r.get? name = some w → u.same v = true → v.same w = true → u.same w = true)
    (h : Props.same p q = true) (h' : Props.same q r = true) : Props.same p r = true := by
  obtain ⟨hperm, hsame⟩ := (Props.same_iff hp hq).1 h
  obtain ⟨hperm', hsame'⟩ := (Props.same_iff hq hr).1 h'
  refine (Props.same_iff hp hr).2 ⟨hperm.trans hperm', fun name u w hu hw => ?_⟩
  rcases Props.get?_of_same h hp name with ⟨-, v, -, hv, -⟩ | ⟨hu', -⟩
  · exact hvalues name u v w hu hv hw (hsame name u v hu hv) (hsame' name v w hv hw)
  · rw [hu] at hu'
    cases hu'

/-- Maps that are the same have the same under every name, or nothing. -/
theorem Props.get?_beq_of_same {p q : Props} (h : Props.same p q = true) (hp : p.Distinct)
    (name : String) : (p.get? name == q.get? name) = true := by
  rcases Props.get?_of_same h hp name with ⟨v, w, hv, hw, hvw⟩ | ⟨hv, hw⟩
  · rw [hv, hw]
    exact hvw
  · rw [hv, hw]
    rfl

/-! ## Descriptions -/

theorem Node.distinct_element {tag : String} {props : Props} {cs : List Node} :
    (Node.element tag props cs).Distinct ↔ (Value.map props).Distinct ∧ Node.AllDistinct cs := by
  obtain ⟨es⟩ := props
  exact and_assoc.symm

theorem Node.Distinct.map {tag : String} {props : Props} {cs : List Node}
    (h : (Node.element tag props cs).Distinct) : (Value.map props).Distinct :=
  (Node.distinct_element.1 h).1

theorem Node.Distinct.props {tag : String} {props : Props} {cs : List Node}
    (h : (Node.element tag props cs).Distinct) : props.Distinct :=
  (Value.distinct_map.1 h.map).1

theorem Node.Distinct.children {tag : String} {props : Props} {cs : List Node}
    (h : (Node.element tag props cs).Distinct) : Node.AllDistinct cs :=
  (Node.distinct_element.1 h).2

/-- Two texts are the same when they say it in the same words. -/
theorem Node.same_text_iff {s t : String} : (Node.text s).same (.text t) = true ↔ s = t := by
  rw [Node.same, beq_iff_eq]

/-- Two elements are the same when their tags, properties and children are. -/
theorem Node.same_element_iff {s t : String} {p q : Props} {cs ds : List Node} :
    (Node.element s p cs).same (.element t q ds) = true ↔
      s = t ∧ Props.same p q = true ∧ Node.allSame cs ds = true := by
  rw [Node.same_element, Bool.and_eq_true, Bool.and_eq_true, beq_iff_eq, and_assoc]

/-- Two portals are the same when their targets and children are. -/
theorem Node.same_portal_iff {s t : NodeId} {cs ds : List Node} :
    (Node.portal s cs).same (.portal t ds) = true ↔ s = t ∧ Node.allSame cs ds = true := by
  rw [Node.same, Bool.and_eq_true, beq_iff_eq]

/-! ## Comparing from the other side -/

mutual

theorem Value.same_symm : ∀ {v w : Value}, v.Distinct → w.Distinct → v.same w = true →
    w.same v = true
  | .null, w, _, _, h => by
      cases w with
      | null => rfl
      | _ => cases h
  | .bool a, w, _, _, h => by
      cases w with
      | bool b => exact BEq.symm h
      | _ => cases h
  | .number x, w, _, _, h => by
      cases w with
      | number y => exact (y.same_comm x).trans h
      | _ => cases h
  | .str s, w, _, _, h => by
      cases w with
      | str t => exact BEq.symm h
      | _ => cases h
  | .node n, w, hv, hw, h => by
      cases w with
      | node m => exact Node.same_symm hv hw h
      | _ => cases h
  | .list vs, w, hv, hw, h => by
      cases w with
      | list ws => exact Value.allSame_symm hv hw h
      | _ => cases h
  | .map ⟨es⟩, w, hv, hw, h => by
      cases w with
      | map q =>
          refine Props.same_symm_of hv.1 (Value.distinct_map.1 hw).1 ?_ h
          intro name v w hv' hw'
          exact Props.same_symm_mem es hv.2 (OrderedMap.mem_of_find? hv') (hw.get? hw')
      | _ => cases h
  | .listener l, w, _, _, h => by
      cases w with
      | listener k => exact BEq.symm h
      | _ => cases h
  | .component c, w, _, _, h => by
      cases w with
      | component d => exact BEq.symm h
      | _ => cases h
  | .ref r, w, _, _, h => by
      cases w with
      | ref s => exact BEq.symm h
      | _ => cases h
termination_by structural v => v

theorem Value.allSame_symm : ∀ {vs ws : List Value}, Value.AllDistinct vs →
    Value.AllDistinct ws → Value.allSame vs ws = true → Value.allSame ws vs = true
  | [], ws, _, _, h => by
      cases ws with
      | nil => rfl
      | cons w ws => cases h
  | v :: vs, ws, hv, hw, h => by
      cases ws with
      | nil => cases h
      | cons w ws =>
          obtain ⟨hvw, hvws⟩ := Bool.and_eq_true_iff.1 h
          exact Bool.and_eq_true_iff.2
            ⟨Value.same_symm hv.1 hw.1 hvw, Value.allSame_symm hv.2 hw.2 hvws⟩
termination_by structural vs => vs

theorem Props.same_symm_mem : ∀ (es : List (String × Value)), Props.AllDistinct es →
    ∀ {e}, e ∈ es → ∀ {w}, w.Distinct → e.2.same w = true → w.same e.2 = true
  | [], _, _, he, _, _, _ => by cases he
  | (name, v) :: es, h, e, he, w, hw, hew => by
      rcases List.mem_cons.1 he with rfl | he
      · exact Value.same_symm h.1 hw hew
      · exact Props.same_symm_mem es h.2 he hw hew
termination_by structural es => es

theorem Node.same_symm : ∀ {m n : Node}, m.Distinct → n.Distinct → m.same n = true →
    n.same m = true
  | .text s, n, _, _, h => by
      cases n with
      | text t => exact Node.same_text_iff.2 (Node.same_text_iff.1 h).symm
      | _ => cases h
  | .element tag ⟨es⟩ cs, n, hm, hn, h => by
      cases n with
      | element tag' q ds =>
          obtain ⟨htag, hprops, hcs⟩ := Node.same_element_iff.1 h
          refine Node.same_element_iff.2
            ⟨htag.symm, Props.same_symm_of hm.1 hn.props ?_ hprops,
              Node.allSame_symm hm.2.2 hn.children hcs⟩
          intro name v w hv hw
          exact Props.same_symm_mem es hm.2.1 (OrderedMap.mem_of_find? hv) (hn.map.get? hw)
      | _ => cases h
  | .portal target cs, n, hm, hn, h => by
      cases n with
      | portal target' ds =>
          obtain ⟨htarget, hcs⟩ := Node.same_portal_iff.1 h
          exact Node.same_portal_iff.2 ⟨htarget.symm, Node.allSame_symm hm hn hcs⟩
      | _ => cases h
termination_by structural m => m

theorem Node.allSame_symm : ∀ {ms ns : List Node}, Node.AllDistinct ms → Node.AllDistinct ns →
    Node.allSame ms ns = true → Node.allSame ns ms = true
  | [], ns, _, _, h => by
      cases ns with
      | nil => rfl
      | cons n ns => cases h
  | m :: ms, ns, hm, hn, h => by
      cases ns with
      | nil => cases h
      | cons n ns =>
          obtain ⟨hmn, hmns⟩ := Bool.and_eq_true_iff.1 h
          exact Bool.and_eq_true_iff.2
            ⟨Node.same_symm hm.1 hn.1 hmn, Node.allSame_symm hm.2 hn.2 hmns⟩
termination_by structural ms => ms

end

/-! ## Comparing by way of a third -/

mutual

theorem Value.same_trans : ∀ {u v w : Value}, u.Distinct → v.Distinct → w.Distinct →
    u.same v = true → v.same w = true → u.same w = true
  | .null, v, w, _, _, _, h, h' => by
      cases v with
      | null => exact h'
      | _ => cases h
  | .bool a, v, w, _, _, _, h, h' => by
      cases v with
      | bool b =>
          obtain rfl : a = b := beq_iff_eq.1 h
          exact h'
      | _ => cases h
  | .number x, v, w, _, _, _, h, h' => by
      cases v with
      | number y =>
          cases w with
          | number z => exact Number.same_trans h h'
          | _ => cases h'
      | _ => cases h
  | .str s, v, w, _, _, _, h, h' => by
      cases v with
      | str t =>
          obtain rfl : s = t := beq_iff_eq.1 h
          exact h'
      | _ => cases h
  | .node l, v, w, hu, hv, hw, h, h' => by
      cases v with
      | node m =>
          cases w with
          | node n => exact Node.same_trans hu hv hw h h'
          | _ => cases h'
      | _ => cases h
  | .list us, v, w, hu, hv, hw, h, h' => by
      cases v with
      | list vs =>
          cases w with
          | list ws => exact Value.allSame_trans hu hv hw h h'
          | _ => cases h'
      | _ => cases h
  | .map ⟨es⟩, v, w, hu, hv, hw, h, h' => by
      cases v with
      | map q =>
          cases w with
          | map r =>
              refine Props.same_trans_of hu.1 (Value.distinct_map.1 hv).1
                (Value.distinct_map.1 hw).1 ?_ h h'
              intro name u v w hu' hv' hw'
              exact Props.same_trans_mem es hu.2 (OrderedMap.mem_of_find? hu') (hv.get? hv')
                (hw.get? hw')
          | _ => cases q; cases h'
      | _ => cases h
  | .listener l, v, w, _, _, _, h, h' => by
      cases v with
      | listener k =>
          obtain rfl : l = k := beq_iff_eq.1 h
          exact h'
      | _ => cases h
  | .component c, v, w, _, _, _, h, h' => by
      cases v with
      | component d =>
          obtain rfl : c = d := beq_iff_eq.1 h
          exact h'
      | _ => cases h
  | .ref r, v, w, _, _, _, h, h' => by
      cases v with
      | ref s =>
          obtain rfl : r = s := beq_iff_eq.1 h
          exact h'
      | _ => cases h
termination_by structural u => u

theorem Value.allSame_trans : ∀ {us vs ws : List Value}, Value.AllDistinct us →
    Value.AllDistinct vs → Value.AllDistinct ws → Value.allSame us vs = true →
    Value.allSame vs ws = true → Value.allSame us ws = true
  | [], vs, ws, _, _, _, h, h' => by
      cases vs with
      | nil => exact h'
      | cons v vs => cases h
  | u :: us, vs, ws, hu, hv, hw, h, h' => by
      cases vs with
      | nil => cases h
      | cons v vs =>
          cases ws with
          | nil => cases h'
          | cons w ws =>
              obtain ⟨huv, huvs⟩ := Bool.and_eq_true_iff.1 h
              obtain ⟨hvw, hvws⟩ := Bool.and_eq_true_iff.1 h'
              exact Bool.and_eq_true_iff.2 ⟨Value.same_trans hu.1 hv.1 hw.1 huv hvw,
                Value.allSame_trans hu.2 hv.2 hw.2 huvs hvws⟩
termination_by structural us => us

theorem Props.same_trans_mem : ∀ (es : List (String × Value)), Props.AllDistinct es →
    ∀ {e}, e ∈ es → ∀ {v w}, v.Distinct → w.Distinct → e.2.same v = true → v.same w = true →
      e.2.same w = true
  | [], _, _, he, _, _, _, _, _, _ => by cases he
  | (name, u) :: es, h, e, he, v, w, hv, hw, hev, hvw => by
      rcases List.mem_cons.1 he with rfl | he
      · exact Value.same_trans h.1 hv hw hev hvw
      · exact Props.same_trans_mem es h.2 he hv hw hev hvw
termination_by structural es => es

theorem Node.same_trans : ∀ {l m n : Node}, l.Distinct → m.Distinct → n.Distinct →
    l.same m = true → m.same n = true → l.same n = true
  | .text s, m, n, _, _, _, h, h' => by
      cases m with
      | text t =>
          obtain rfl := Node.same_text_iff.1 h
          exact h'
      | _ => cases h
  | .element tag ⟨es⟩ cs, m, n, hl, hm, hn, h, h' => by
      cases m with
      | element tag' q ds =>
          cases n with
          | element tag'' r bs =>
              obtain ⟨htag, hprops, hcs⟩ := Node.same_element_iff.1 h
              obtain ⟨htag', hprops', hcs'⟩ := Node.same_element_iff.1 h'
              refine Node.same_element_iff.2
                ⟨htag.trans htag', Props.same_trans_of hl.1 hm.props hn.props ?_ hprops hprops',
                  Node.allSame_trans hl.2.2 hm.children hn.children hcs hcs'⟩
              intro name u v w hu hv hw
              exact Props.same_trans_mem es hl.2.1 (OrderedMap.mem_of_find? hu) (hm.map.get? hv)
                (hn.map.get? hw)
          | _ => cases q; cases h'
      | _ => cases h
  | .portal target cs, m, n, hl, hm, hn, h, h' => by
      cases m with
      | portal target' ds =>
          cases n with
          | portal target'' bs =>
              obtain ⟨htarget, hcs⟩ := Node.same_portal_iff.1 h
              obtain ⟨htarget', hcs'⟩ := Node.same_portal_iff.1 h'
              exact Node.same_portal_iff.2
                ⟨htarget.trans htarget', Node.allSame_trans hl hm hn hcs hcs'⟩
          | _ => cases h'
      | _ => cases h
termination_by structural l => l

theorem Node.allSame_trans : ∀ {ls ms ns : List Node}, Node.AllDistinct ls →
    Node.AllDistinct ms → Node.AllDistinct ns → Node.allSame ls ms = true →
    Node.allSame ms ns = true → Node.allSame ls ns = true
  | [], ms, ns, _, _, _, h, h' => by
      cases ms with
      | nil => exact h'
      | cons m ms => cases h
  | l :: ls, ms, ns, hl, hm, hn, h, h' => by
      cases ms with
      | nil => cases h
      | cons m ms =>
          cases ns with
          | nil => cases h'
          | cons n ns =>
              obtain ⟨hlm, hlms⟩ := Bool.and_eq_true_iff.1 h
              obtain ⟨hmn, hmns⟩ := Bool.and_eq_true_iff.1 h'
              exact Bool.and_eq_true_iff.2 ⟨Node.same_trans hl.1 hm.1 hn.1 hlm hmn,
                Node.allSame_trans hl.2 hm.2 hn.2 hlms hmns⟩
termination_by structural ls => ls

end

end LiveMarkup
