import LiveMarkup.Proofs.Page.Slots
import Mathlib.Data.List.Nodup

/-!
# Properties that are patched as they are mounted

Updating skips values that are the same, takes away what does not count as true
and visits removed names last. For properties that are sound (`Props.Sound`) and
bind different slots by different names, none of this matters: a new element fits
its properties (`Element.fits_ofProps`), and an element that fitted other
properties fits the new ones once it has been brought in line with them
(`Element.Fits.updateProps`).
-/

namespace LiveMarkup

/-- No two of some names bind the same slot. -/
def SlotsApart (names : List String) : Prop :=
  ∀ a ∈ names, ∀ b ∈ names, Slot.ofName a = Slot.ofName b → a = b

/-- Properties with distinct names that bind different slots, every value true or
null and without negative zeros, and a style map, if there is one, with distinct
names of declarations. -/
structure Props.Sound (p : Props) : Prop where
  distinct : p.Distinct
  apart : SlotsApart p.keys
  true_or_null : ∀ e ∈ p.entries, e.2.isTruthy = true ∨ e.2 = .null
  zeroFree : ∀ e ∈ p.entries, e.2.ZeroFree
  style : ∀ ds : Props, p.get? "style" = some (.map ds) → (ds.keys.map Text.kebab).Nodup

/-- The value that properties assign to each slot. -/
def Props.bound (p : Props) (s : Slot) : Option Value :=
  (p.entries.find? fun e => Slot.ofName e.1 = s).bind fun e => Value.present? (some e.2)

/-! ## Style maps -/

namespace Style

theorem set_distinct {s : Style} (h : s.declarations.Distinct) (name value : String) :
    (s.set name value).declarations.Distinct := by
  unfold set
  split
  · exact h.erase _
  · exact h.insert _ _

theorem get?_set {s : Style} (h : s.declarations.Distinct) (name value k : String) :
    (s.set name value).declarations.get? k =
      if Text.kebab name = k then (if value = "" then none else some value)
      else s.declarations.get? k := by
  unfold set
  split
  · exact h.get?_erase _ _
  · exact OrderedMap.get?_insert ..

/-- What an entry of a map declares, if it has a text. -/
def declared? (e : String × Value) : Option String :=
  if e.2.text?.getD "" = "" then none else some (e.2.text?.getD "")

/-- After a map whose names are different declarations, each of them is as its
entry says. -/
theorem get?_setAll {es : List (String × Value)} (hn : (es.map fun e => Text.kebab e.1).Nodup)
    {s : Style} (hs : s.declarations.Distinct) (k : String) :
    (es.foldl (fun s d => s.set d.1 (d.2.text?.getD "")) s).declarations.get? k =
      (es.find? fun e => Text.kebab e.1 = k).elim (s.declarations.get? k) declared? := by
  induction es generalizing s with
  | nil => rfl
  | cons d es ih =>
      obtain ⟨hd, hes⟩ := List.nodup_cons.1 hn
      rw [List.foldl_cons, ih hes (set_distinct hs _ _), get?_set hs]
      by_cases hk : Text.kebab d.1 = k
      · have hnone : (es.find? fun e => Text.kebab e.1 = k) = none := by
          refine List.find?_eq_none.2 fun e he hek => hd (List.mem_map.2 ⟨e, he, ?_⟩)
          exact (of_decide_eq_true hek).trans hk.symm
        rw [hnone, List.find?_cons_of_pos (by simpa using hk), if_pos hk]
        rfl
      · rw [List.find?_cons_of_neg (by simpa using hk), if_neg hk]

theorem get?_ofMap {ds : Props} (hn : (ds.keys.map Text.kebab).Nodup) (k : String) :
    (Style.ofValue? (some (.map ds))).declarations.get? k =
      (ds.entries.find? fun e => Text.kebab e.1 = k).bind declared? := by
  have hn' : (ds.entries.map fun e => Text.kebab e.1).Nodup := by
    rwa [OrderedMap.keys, List.map_map] at hn
  have hparse : (parse "").declarations = .empty := rfl
  have hdistinct : (parse "").declarations.Distinct := OrderedMap.distinct_empty
  refine (get?_setAll hn' hdistinct k).trans ?_
  cases (ds.entries.find? fun e => Text.kebab e.1 = k) <;> rfl

theorem find?_kebab {es : List (String × Value)} (hn : (es.map fun e => Text.kebab e.1).Nodup)
    {e : String × Value} (he : e ∈ es) :
    (es.find? fun d => Text.kebab d.1 = Text.kebab e.1) = some e := by
  induction es with
  | nil => cases he
  | cons d es ih =>
      obtain ⟨hd, hes⟩ := List.nodup_cons.1 hn
      rcases List.mem_cons.1 he with rfl | he
      · exact List.find?_cons_of_pos (by simp)
      · have hne : Text.kebab d.1 ≠ Text.kebab e.1 := fun h =>
          hd (List.mem_map.2 ⟨e, he, h.symm⟩)
        rw [List.find?_cons_of_neg (by simpa using hne), ih hes he]

/-- Maps that are the same give the same style. -/
theorem ofValue?_eq_of_same {p q : Props} (h : (Value.map p).same (.map q) = true)
    (hp : (p.keys.map Text.kebab).Nodup) (hq : (q.keys.map Text.kebab).Nodup)
    (hpz : (Value.map p).ZeroFree) (hqz : (Value.map q).ZeroFree) :
    (Style.ofValue? (some (.map p))).declarations.get? =
      (Style.ofValue? (some (.map q))).declarations.get? := by
  have hp' : (p.entries.map fun e => Text.kebab e.1).Nodup := by
    rwa [OrderedMap.keys, List.map_map] at hp
  have hq' : (q.entries.map fun e => Text.kebab e.1).Nodup := by
    rwa [OrderedMap.keys, List.map_map] at hq
  have hdistinct : p.Distinct := List.Nodup.of_map Text.kebab hp
  funext k
  rw [get?_ofMap hp, get?_ofMap hq]
  by_cases hk : ∃ e ∈ p.entries, Text.kebab e.1 = k
  · obtain ⟨⟨name, v⟩, he, rfl⟩ := hk
    rcases Props.get?_of_same h hdistinct name with ⟨v', w, hv', hw, hvw⟩ | ⟨hnone, -⟩
    · have hv : p.get? name = some v := OrderedMap.find?_of_mem hdistinct he
      obtain rfl : v = v' := Option.some.inj (hv.symm.trans hv')
      have hmem : (name, w) ∈ q.entries := OrderedMap.mem_of_find? hw
      have htext : v.text? = w.text? :=
        Value.text?_eq_of_same hvw (Props.ZeroFree.mem hpz he) (Props.ZeroFree.mem hqz hmem)
      rw [find?_kebab hp' he, find?_kebab hq' hmem, Option.bind_some, Option.bind_some, declared?,
        declared?, htext]
    · have hv : p.get? name = some v := OrderedMap.find?_of_mem hdistinct he
      rw [hv] at hnone
      cases hnone
  · have hq : ¬∃ e ∈ q.entries, Text.kebab e.1 = k := by
      rintro ⟨⟨name, w⟩, he, hname⟩
      rcases Props.get?_of_same h hdistinct name with ⟨v, -, hv, -, -⟩ | ⟨-, hnone⟩
      · exact hk ⟨(name, v), OrderedMap.mem_of_find? hv, hname⟩
      · have hw : q.get? name = some w := OrderedMap.find?_of_mem (List.Nodup.of_map Text.kebab hq) he
        rw [hw] at hnone
        cases hnone
    push Not at hk hq
    rw [List.find?_eq_none.2 (by simpa using hk), List.find?_eq_none.2 (by simpa using hq)]

end Style

/-! ## Values that are the same -/

theorem Value.isNull_eq_of_same {v w : Value} (h : v.same w = true) : v.isNull = w.isNull := by
  cases v <;> cases w <;> first | rfl | cases h

/-- A slot shows the same for values that are the same. -/
theorem Slot.shown_eq_of_same {v w : Value} (h : v.same w = true) (hv : v.ZeroFree)
    (hw : w.ZeroFree) {s : Slot}
    (hvs : s = .style → ∀ ds : Props, v = .map ds → (ds.keys.map Text.kebab).Nodup)
    (hws : s = .style → ∀ ds : Props, w = .map ds → (ds.keys.map Text.kebab).Nodup) :
    s.shown (some v) = s.shown (some w) := by
  have htext : v.text? = w.text? := Value.text?_eq_of_same h hv hw
  cases s with
  | key => rfl
  | ref => rfl
  | className => rw [shown, shown, Option.bind_some, Option.bind_some, htext]
  | «attribute» name => rw [shown, shown, Option.bind_some, Option.bind_some, htext]
  | field f =>
      apply congrArg SlotView.field
      cases v with
      | bool a =>
          cases w with
          | bool b => rw [show a = b from beq_iff_eq.1 h]
          | _ => cases h
      | _ =>
          cases w with
          | bool b => cases h
          | _ => simp only [FieldValue.ofValue?, htext]
  | listener event =>
      apply congrArg SlotView.listeners
      cases v with
      | listener l =>
          cases w with
          | listener k => rw [show l = k from beq_iff_eq.1 h]
          | _ => cases h
      | _ =>
          cases w with
          | listener k => cases h
          | _ => rfl
  | style =>
      apply congrArg SlotView.style
      cases v with
      | str css =>
          cases w with
          | str css' => rw [show css = css' from beq_iff_eq.1 h]
          | _ => cases h
      | map p =>
          cases w with
          | map q => exact Style.ofValue?_eq_of_same h (hvs rfl p rfl) (hws rfl q rfl) hv hw
          | _ => cases p; cases h
      | _ =>
          cases w with
          | str css => cases h
          | map q => cases h
          | _ => rfl

theorem Slot.ofName_eq_style {name : String} (h : Slot.ofName name = .style) : name = "style" := by
  unfold Slot.ofName at h
  repeat' split at h
  all_goals first | assumption | cases h

/-! ## What properties bind -/

namespace Props

theorem Sound.empty : Props.Sound .empty := by
  constructor
  case distinct => exact List.nodup_nil
  case apart =>
    intro a ha
    cases ha
  case true_or_null =>
    intro e he
    cases he
  case zeroFree =>
    intro e he
    cases he
  case style =>
    intro ds hds
    cases hds

theorem Sound.single {name : String} {v : Value} (htrue : v.isTruthy = true ∨ v = .null)
    (hzero : v.ZeroFree) (hstyle : ∀ ds : Props, v = .map ds → (ds.keys.map Text.kebab).Nodup) :
    Props.Sound ⟨[(name, v)]⟩ := by
  constructor
  case distinct => exact List.nodup_singleton name
  case apart =>
    intro a ha b hb _
    rw [List.mem_singleton.1 ha, List.mem_singleton.1 hb]
  case true_or_null =>
    intro e he
    rwa [List.mem_singleton.1 he]
  case zeroFree =>
    intro e he
    rwa [List.mem_singleton.1 he]
  case style =>
    intro ds hds
    have hmem := List.mem_singleton.1 (OrderedMap.mem_of_find? hds)
    exact hstyle ds (Prod.mk.inj hmem).2.symm

variable {p new old : Props} {s : Slot} {name : String}

/-- A name that alone binds its slot binds it to its value. -/
theorem bound_ofName (h : ∀ a ∈ p.keys, Slot.ofName a = Slot.ofName name → a = name) :
    p.bound (Slot.ofName name) = Value.present? (p.get? name) := by
  obtain ⟨es⟩ := p
  rw [bound, OrderedMap.get?]
  dsimp only
  induction es with
  | nil => rfl
  | cons e es ih =>
      by_cases he : e.1 = name
      · rw [List.find?_cons_of_pos (by simp [he]), OrderedMap.find?, if_pos he]
        rfl
      · have hne : Slot.ofName e.1 ≠ Slot.ofName name := fun hs =>
          he (h e.1 (List.mem_cons_self ..) hs)
        rw [List.find?_cons_of_neg (by simpa using hne), OrderedMap.find?, if_neg he]
        exact ih fun a ha => h a (List.mem_cons_of_mem _ ha)

theorem bound_eq_none (h : ∀ a ∈ p.keys, Slot.ofName a ≠ s) : p.bound s = none := by
  rw [bound, List.find?_eq_none.2 fun e he => by simpa using h e.1 (List.mem_map_of_mem he)]
  rfl

theorem Sound.nodup_slots (h : p.Sound) : (p.entries.map fun e => Slot.ofName e.1).Nodup := by
  have hkeys : (p.keys.map Slot.ofName).Nodup := List.Nodup.map_on h.apart h.distinct
  rwa [OrderedMap.keys, List.map_map] at hkeys

/-- No value of sound properties is taken away as not true, but null. -/
theorem Sound.present?_filter (h : p.Sound) (name : String) :
    Value.present? ((p.get? name).filter Value.isTruthy) = Value.present? (p.get? name) := by
  cases hv : p.get? name with
  | none => rfl
  | some v =>
      rcases h.true_or_null _ (OrderedMap.mem_of_find? hv) with htrue | hnull
      · rw [Option.filter_some, if_pos htrue]
      · obtain rfl : v = .null := hnull
        rfl

/-- What is the same in two sound properties shows the same. -/
theorem Sound.shown_eq (hnew : new.Sound) (hold : old.Sound)
    (h : (new.get? name == old.get? name) = true) :
    (Slot.ofName name).shown (Value.present? (new.get? name)) =
      (Slot.ofName name).shown (Value.present? (old.get? name)) := by
  cases hv : new.get? name with
  | none =>
      cases hw : old.get? name with
      | none => rfl
      | some w =>
          rw [hv, hw] at h
          cases h
  | some v =>
      cases hw : old.get? name with
      | none =>
          rw [hv, hw] at h
          cases h
      | some w =>
          rw [hv, hw] at h
          have hsame : v.same w = true := h
          rw [Value.present?, Value.present?, Option.filter_some, Option.filter_some,
            Value.isNull_eq_of_same hsame]
          split
          · refine Slot.shown_eq_of_same hsame (hnew.zeroFree _ (OrderedMap.mem_of_find? hv))
              (hold.zeroFree _ (OrderedMap.mem_of_find? hw)) ?_ ?_
            · rintro hs ds rfl
              rw [Slot.ofName_eq_style hs] at hv
              exact hnew.style ds hv
            · rintro hs ds rfl
              rw [Slot.ofName_eq_style hs] at hw
              exact hold.style ds hw
          · rfl

end Props

/-! ## New elements -/

namespace Element

variable {bound : Slot → Option Value} {e : Element} {new old : Props}

theorem Fits.setProperties {es : List (String × Value)}
    (hn : (es.map fun d => Slot.ofName d.1).Nodup) (hf : e.Fits bound)
    (hbound : ∀ d ∈ es, bound (Slot.ofName d.1) = none) :
    (e.setProperties es).Fits fun s =>
      (es.find? fun d => Slot.ofName d.1 = s).elim (bound s) fun d => Value.present? (some d.2) := by
  induction es generalizing e bound with
  | nil => exact hf
  | cons d es ih =>
      obtain ⟨hd, hes⟩ := List.nodup_cons.1 hn
      have hset := hf.setSlot (rfl : Slot.ofName d.1 = _) (Value.present? (some d.2))
      rw [hbound d (List.mem_cons_self ..)] at hset
      have hne : ∀ c ∈ es, Slot.ofName c.1 ≠ Slot.ofName d.1 := fun c hc hs =>
        hd (List.mem_map.2 ⟨c, hc, hs⟩)
      refine (ih hes hset fun c hc => ?_).congr fun s => ?_
      · rw [Function.update_of_ne (hne c hc)]
        exact hbound c (List.mem_cons_of_mem _ hc)
      · by_cases hs : Slot.ofName d.1 = s
        · subst hs
          have hnone : (es.find? fun c => Slot.ofName c.1 = Slot.ofName d.1) = none :=
            List.find?_eq_none.2 fun c hc => by simpa using hne c hc
          rw [hnone, List.find?_cons_of_pos (by simp), Option.elim_none, Option.elim_some,
            Function.update_self]
        · rw [List.find?_cons_of_neg (by simpa using hs), Function.update_of_ne (Ne.symm hs)]

/-- A new element fits the properties it was made with, if they bind different slots. -/
theorem fits_ofProps_of_nodup (tag : String) {p : Props}
    (hp : (p.entries.map fun d => Slot.ofName d.1).Nodup) : (ofProps tag p).Fits p.bound := by
  refine ((fits_new (.ofTag tag)).setProperties hp fun _ _ => rfl).congr fun s => ?_
  rw [Props.bound]
  cases p.entries.find? fun d => Slot.ofName d.1 = s <;> rfl

/-- A new element fits the sound properties it was made with. -/
theorem fits_ofProps (tag : String) {p : Props} (hp : p.Sound) : (ofProps tag p).Fits p.bound :=
  fits_ofProps_of_nodup tag hp.nodup_slots

/-! ## Elements that had other properties -/

/-- Bringing one property in line binds its slot to the new value. -/
theorem Fits.updateProp (hnew : new.Sound) (hold : old.Sound)
    (hapart : SlotsApart (new.keys ++ old.keys)) {name : String}
    (hname : name ∈ new.keys ++ old.keys) (hf : e.Fits bound)
    (hbound : bound (Slot.ofName name) = old.bound (Slot.ofName name)) :
    (e.updateProp new old name).Fits
      (Function.update bound (Slot.ofName name) (new.bound (Slot.ofName name))) := by
  have hnew' : new.bound (Slot.ofName name) = Value.present? (new.get? name) :=
    Props.bound_ofName fun a ha => hapart a (List.mem_append_left _ ha) name hname
  have hold' : old.bound (Slot.ofName name) = Value.present? (old.get? name) :=
    Props.bound_ofName fun a ha => hapart a (List.mem_append_right _ ha) name hname
  rw [Element.updateProp]
  split
  · rename_i h
    refine hf.congr fun s => ?_
    by_cases hs : s = Slot.ofName name
    · subst hs
      rw [Function.update_self, hbound]
      rcases h with rfl | hsame
      · rfl
      · rw [hnew', hold', hnew.shown_eq hold hsame]
    · rw [Function.update_of_ne hs]
  · have hset := hf.setSlot (rfl : Slot.ofName name = _) (new.bound (Slot.ofName name))
    rw [hbound, hold', hnew', ← hnew.present?_filter name] at hset
    rw [hnew', ← hnew.present?_filter name]
    exact hset

theorem Fits.updateNames (hnew : new.Sound) (hold : old.Sound)
    (hapart : SlotsApart (new.keys ++ old.keys)) {names : List String}
    (hnames : ∀ name ∈ names, name ∈ new.keys ++ old.keys) (hn : names.Nodup) (hf : e.Fits bound)
    (hbound : ∀ name ∈ names, bound (Slot.ofName name) = old.bound (Slot.ofName name)) :
    (e.updateNames new old names).Fits fun s =>
      if s ∈ names.map Slot.ofName then new.bound s else bound s := by
  induction names generalizing e bound with
  | nil => exact hf
  | cons name names ih =>
      obtain ⟨hname, hn⟩ := List.nodup_cons.1 hn
      have hmem : name ∈ new.keys ++ old.keys := hnames name (List.mem_cons_self ..)
      have hone := hf.updateProp hnew hold hapart hmem (hbound name (List.mem_cons_self ..))
      refine (ih (fun k hk => hnames k (List.mem_cons_of_mem _ hk)) hn hone fun k hk => ?_).congr
        fun s => ?_
      · have hne : Slot.ofName k ≠ Slot.ofName name := fun hs =>
          hname (hapart k (hnames k (List.mem_cons_of_mem _ hk)) name hmem hs ▸ hk)
        rw [Function.update_of_ne hne]
        exact hbound k (List.mem_cons_of_mem _ hk)
      · by_cases hs : s = Slot.ofName name
        · subst hs
          rw [Function.update_self, ite_self, List.map_cons, if_pos (List.mem_cons_self ..)]
        · rw [Function.update_of_ne hs, List.map_cons]
          simp only [List.mem_cons, hs, false_or]

/-- An element that fitted the old properties fits the new ones when it has been
brought in line. -/
theorem Fits.updateProps (hnew : new.Sound) (hold : old.Sound)
    (hapart : SlotsApart (new.keys ++ old.keys)) (hf : e.Fits old.bound) :
    (e.updateProps new old).Fits new.bound := by
  refine (hf.updateNames hnew hold hapart (fun _ => Page.mem_changedNames.1)
    (Page.nodup_changedNames hnew.distinct hold.distinct) fun _ _ => rfl).congr fun s => ?_
  split
  · rfl
  · rename_i hs
    have hs' : ∀ a ∈ new.keys ++ old.keys, Slot.ofName a ≠ s := fun a ha he =>
      hs (List.mem_map.2 ⟨a, Page.mem_changedNames.2 ha, he⟩)
    rw [Props.bound_eq_none fun a ha => hs' a (List.mem_append_left _ ha),
      Props.bound_eq_none fun a ha => hs' a (List.mem_append_right _ ha)]

end Element

end LiveMarkup
