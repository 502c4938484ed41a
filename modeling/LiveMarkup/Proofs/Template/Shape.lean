import LiveMarkup.Proofs.Template.Moves
import LiveMarkup.Proofs.Value.Erased

/-!
# Strings do not change the shape of a template

A reader looks at the characters of a template and at the names of its tags, and
never at a string that it has put down as a child or a property. So a reader whose
strings and texts are erased goes on just as before, through the same places to
the same error or to a result of the same shape. Only a component could look at its
properties and children, which is why no tag may be named by one.
-/

namespace LiveMarkup.Template

/-- Two results that agree once they are mapped are the same refusal, or both have
succeeded. -/
theorem error_or_ok_of_map_eq {ε α β γ : Type} {x : Except ε α} {y : Except ε β} {f : α → γ}
    {g : β → γ} (h : x.map f = y.map g) :
    (∃ e, x = .error e ∧ y = .error e) ∨ ∃ a b, x = .ok a ∧ y = .ok b ∧ f a = g b := by
  cases x with
  | error e =>
      cases y with
      | error e' =>
          cases h
          exact .inl ⟨e, rfl, rfl⟩
      | ok b => cases h
  | ok a =>
      cases y with
      | error e => cases h
      | ok b => exact .inr ⟨a, b, rfl, rfl, Except.ok.inj h⟩

/-! ## Erased readers -/

/-- A tag with the strings in its properties erased. -/
def OpenTag.erased (tag : OpenTag) : OpenTag :=
  { tag with props := Props.erased tag.props }

/-- A place with the strings that have been put down there erased. What is still
being read is kept. -/
def Place.erased : Place → Place
  | .propName tag read => .propName tag.erased read
  | .propValue tag name quote read => .propValue tag.erased name quote read
  | pl => pl

/-- An open element with its strings and texts erased. -/
def Frame.erased (f : Frame) : Frame :=
  ⟨f.tag.erased, Value.allErased f.children⟩

/-- A reader with its strings and texts erased. -/
def Reader.erased (r : Reader) : Reader :=
  ⟨r.place.erased, r.frames.map Frame.erased, Value.allErased r.items⟩

@[simp] theorem OpenTag.erased_erased (tag : OpenTag) : tag.erased.erased = tag.erased := by
  simp [erased]

theorem OpenTag.erased_set (tag : OpenTag) (name : String) (v : Value) :
    (tag.set name v).erased = tag.erased.set name v.erased :=
  congrArg (OpenTag.mk tag.name) (Props.erased_insert tag.props name v)

theorem OpenTag.erased_flag (tag : OpenTag) (read : List Char) :
    (tag.flag read).erased = tag.erased.flag read := by
  rw [flag, flag]
  split
  · rfl
  · exact erased_set tag _ (.bool true)

theorem OpenTag.erased_spread (tag : OpenTag) (v : Value) :
    (tag.spread v).erased = tag.erased.spread v.erased := by
  cases v with
  | map p =>
      rw [Value.erased_map]
      exact congrArg (OpenTag.mk tag.name) (Props.erased_assign tag.props p)
  | _ => rfl

@[simp] theorem Place.erased_erased (pl : Place) : pl.erased.erased = pl.erased := by
  cases pl <;> simp [erased]

@[simp] theorem Place.mode_erased (pl : Place) : pl.erased.mode = pl.mode := by
  cases pl <;> rfl

@[simp] theorem Frame.erased_erased (f : Frame) : f.erased.erased = f.erased := by
  simp [erased]

namespace Reader

@[simp] theorem erased_erased (r : Reader) : r.erased.erased = r.erased := by
  simp [erased]

@[simp] theorem erased_goto (r : Reader) (pl : Place) :
    (r.goto pl).erased = r.erased.goto pl.erased := rfl

@[simp] theorem erased_push (r : Reader) (v : Value) :
    (r.push v).erased = r.erased.push v.erased := by
  obtain ⟨place, frames, items⟩ := r
  cases frames <;> simp [erased, push, Frame.erased, Value.allErased_append, Value.allErased]

@[simp] theorem erased_enter (r : Reader) (tag : OpenTag) :
    (r.enter tag).erased = r.erased.enter tag.erased := rfl

/-- A text that has been put down is erased. -/
theorem erased_pushText (r : Reader) (read : List Char) :
    (r.pushText read).erased =
      if read.all Text.isBlank then r.erased else r.erased.push (.str "") := by
  rw [pushText]
  split
  · rfl
  · exact erased_push r _

end Reader

/-! ## Tags without components -/

/-- Whether a tag is named by a component. -/
def TagName.isComponent : TagName → Bool
  | .embedded (.component _) => true
  | _ => false

/-- No tag that is open or being read is named by a component. -/
structure Reader.NoComponent (r : Reader) : Prop where
  place : ∀ name ∈ r.place.name?, name.isComponent = false
  frames : ∀ f ∈ r.frames, f.tag.name.isComponent = false

/-- An element that no component gives has one shape for properties and children of
one shape. -/
theorem OpenTag.make_erased (components : Components) {tag : OpenTag}
    (h : tag.name.isComponent = false) (vs : List Value) :
    (tag.erased.make components (Value.allErased vs)).map Value.erased =
      (tag.make components vs).map Value.erased := by
  have hmake : ∀ type : Value, (∀ c, type ≠ .component c) →
      (LiveMarkup.make components type (Props.erased tag.props) (Value.allErased vs)).map
          Value.erased =
        (LiveMarkup.make components type tag.props vs).map Value.erased := by
    intro type htype
    cases type with
    | str s =>
        rw [LiveMarkup.make, LiveMarkup.make]
        split
        · rfl
        · simp [Except.map, Node.ofTag, allErased_flatten]
    | component c => exact absurd rfl (htype c)
    | _ => rfl
  refine hmake tag.name.value fun c hc => ?_
  obtain ⟨name, props⟩ := tag
  cases name with
  | literal s => cases hc
  | embedded v =>
      obtain rfl : v = .component c := hc
      cases h

/-- Elements of one shape are made alike. -/
theorem OpenTag.make_congr (components : Components) {tag tag' : OpenTag}
    (htag : tag.erased = tag'.erased) (h : tag.name.isComponent = false) {vs ws : List Value}
    (hvs : Value.allErased vs = Value.allErased ws) :
    (tag.make components vs).map Value.erased = (tag'.make components ws).map Value.erased := by
  have hname : tag.erased.name = tag'.erased.name := congrArg OpenTag.name htag
  have h' : tag'.name.isComponent = false := (congrArg TagName.isComponent hname).symm.trans h
  rw [← tag.make_erased components h, ← tag'.make_erased components h', htag, hvs]

namespace Reader

variable {components : Components} {r : Reader}

/-- Erasing keeps the names of tags. -/
theorem noComponent_erased : r.erased.NoComponent ↔ r.NoComponent := by
  have hplace : r.erased.place.name? = r.place.name? := by
    obtain ⟨place, frames, items⟩ := r
    cases place <;> rfl
  constructor
  · rintro ⟨hname, hframes⟩
    rw [hplace] at hname
    exact ⟨hname, fun f hf => hframes f.erased (List.mem_map_of_mem hf)⟩
  · rintro ⟨hname, hframes⟩
    refine ⟨hplace ▸ hname, fun f hf => ?_⟩
    obtain ⟨g, hg, rfl⟩ := List.mem_map.1 hf
    exact hframes g hg

theorem noComponent_iff : r.NoComponent ↔ r.Named (·.isComponent = false) :=
  ⟨fun h => ⟨h.place, h.frames⟩, fun h => ⟨h.place, h.frames⟩⟩

end Reader

/-! ## Moves of an erased reader -/

/-- A move with the strings in its tag erased. -/
def Move.erased : Move → Move
  | .goto pl both => .goto pl.erased both
  | .empty tag => .empty tag.erased
  | .enter tag => .enter tag.erased
  | m => m

/-- Reading on keeps the value that names a tag. -/
theorem TagName.kept_isComponent : TagName.Kept (·.isComponent = false) := by
  refine ⟨rfl, fun c read value _ _ h => ?_⟩
  cases value with
  | none => rfl
  | some v => exact h

/-- A place makes the same move when its strings are erased. -/
theorem Place.erased_move (pl : Place) (c : Char) (next : Option Char) :
    (pl.erased.move c next).erased = (pl.move c next).erased := by
  cases pl with
  | propName tag read =>
      dsimp only [erased, move]
      rw [← tag.erased_flag]
      split_ifs <;> simp [Move.erased, erased]
  | propValue tag name quote read =>
      dsimp only [erased, move]
      split_ifs <;> simp [Move.erased, erased, OpenTag.erased_set]
  | _ => rfl

namespace Reader

variable {components : Components} {r : Reader}

/-- An element is closed in one shape, whatever its strings. -/
theorem erased_make {tag : OpenTag} (htag : tag.name.isComponent = false) (vs : List Value)
    (r : Reader) :
    ((tag.erased.make components (Value.allErased vs)).map fun v =>
        (r.erased.push v).goto (.text [])).map erased =
      ((tag.make components vs).map fun v => (r.push v).goto (.text [])).map erased := by
  rcases error_or_ok_of_map_eq (tag.make_erased components htag vs) with
    ⟨e, hx, hy⟩ | ⟨v, w, hx, hy, hvw⟩
  · rw [hx, hy]
    rfl
  · rw [hx, hy]
    simp [Except.map, hvw]

theorem erased_leave (h : r.NoComponent) (name : TagName) :
    (r.erased.leave components name).map erased = (r.leave components name).map erased := by
  cases hr : r.frames with
  | nil =>
      have hr' : r.erased.frames = [] := by rw [erased, hr, List.map_nil]
      rw [leave, leave, hr, hr']
  | cons f fs =>
      have hr' : r.erased.frames = f.erased :: fs.map Frame.erased := by
        rw [erased, hr, List.map_cons]
      have htag : f.tag.name.isComponent = false :=
        h.frames f (hr ▸ List.mem_cons_self ..)
      have hname : f.erased.tag.name = f.tag.name := rfl
      rw [leave_of_frames hr, leave_of_frames hr', hname]
      split
      · exact erased_make htag f.children { r with frames := fs }
      · rfl

/-- A reader may be erased before it makes a move. -/
theorem erased_act (h : r.NoComponent) {m : Move}
    (hm : ∀ name ∈ m.name?, name.isComponent = false) :
    (m.erased.act components r.erased).map (Prod.map erased id) =
      (m.act components r).map (Prod.map erased id) := by
  have hpair : ∀ {x y : Except MarkupError Reader} (both : Bool), x.map erased = y.map erased →
      (x.map (·, both)).map (Prod.map erased id) = (y.map (·, both)).map (Prod.map erased id) := by
    intro x y both hxy
    rcases error_or_ok_of_map_eq hxy with ⟨e, rfl, rfl⟩ | ⟨r₁, r₂, rfl, rfl, hr⟩
    · rfl
    · exact congrArg (fun r => Except.ok (r, both)) hr
  cases m with
  | goto pl both => simp [Move.erased, Move.act, Except.map]
  | openTag read => simp [Move.erased, Move.act, Except.map, erased_pushText]
  | empty tag => exact hpair true (erased_make (hm _ rfl) [] r)
  | enter tag => simp [Move.erased, Move.act, Except.map]
  | leave name => exact hpair false (erased_leave h name)

/-- Erasing before a step gives nothing else than erasing after it. -/
theorem erased_step (h : r.NoComponent) (c : Char) (next : Option Char) :
    (r.erased.step components c next).map (Prod.map erased id) =
      (r.step components c next).map (Prod.map erased id) := by
  have herased := noComponent_erased.2 h
  have hafter : ((r.erased.place.move c next).erased.act components r.erased.erased).map
      (Prod.map erased id) =
        ((r.erased.place.move c next).act components r.erased).map (Prod.map erased id) :=
    erased_act herased (Place.name?_move TagName.kept_isComponent herased.place c next)
  have hmove : (r.erased.place.move c next).erased = (r.place.move c next).erased :=
    r.place.erased_move c next
  rw [erased_erased, hmove, erased_act h (Place.name?_move TagName.kept_isComponent h.place c next)] at hafter
  rw [step_eq_act, step_eq_act]
  exact hafter.symm

end Reader

/-! ## Two readers of one shape -/

/-- Two readers that differ in nothing but the strings and texts they have put down,
and have no tag named by a component. -/
structure Reader.Alike (r s : Reader) : Prop where
  erased : r.erased = s.erased
  noComponent : r.NoComponent

/-- Two readings are refused for the same reason, or both lead to readers that are
alike. -/
inductive Agree : Except MarkupError Reader → Except MarkupError Reader → Prop where
  | error (e : MarkupError) : Agree (.error e) (.error e)
  | ok {r s : Reader} (h : r.Alike s) : Agree (.ok r) (.ok s)

namespace Reader.Alike

variable {components : Components} {r s : Reader}

theorem noComponent' (h : r.Alike s) : s.NoComponent := by
  rw [← noComponent_erased, ← h.erased, noComponent_erased]
  exact h.noComponent

theorem mode (h : r.Alike s) : r.place.mode = s.place.mode := by
  rw [← r.place.mode_erased, ← s.place.mode_erased]
  exact congrArg (fun r => r.place.mode) h.erased

/-- One character is read alike. -/
theorem step (h : r.Alike s) (components : Components) (c : Char) (next : Option Char) :
    (∃ e, r.step components c next = .error e ∧ s.step components c next = .error e) ∨
      ∃ r' s' both, r.step components c next = .ok (r', both) ∧
        s.step components c next = .ok (s', both) ∧ r'.Alike s' := by
  have hstep : (r.step components c next).map (Prod.map Reader.erased id) =
      (s.step components c next).map (Prod.map Reader.erased id) := by
    rw [← erased_step h.noComponent, h.erased, erased_step h.noComponent']
  refine (error_or_ok_of_map_eq hstep).imp_right ?_
  rintro ⟨⟨r', both⟩, ⟨s', both'⟩, hr, hs, heq⟩
  obtain ⟨herased, rfl⟩ : r'.erased = s'.erased ∧ both = both' := Prod.mk.inj heq
  have hnone := (noComponent_iff.1 h.noComponent).step TagName.kept_isComponent hr
  exact ⟨r', s', both, hr, hs, herased, noComponent_iff.2 hnone⟩

/-- Characters are read alike. -/
theorem read : ∀ (cs : List Char) {r s : Reader}, r.Alike s →
    Agree (r.read components cs) (s.read components cs)
  | [], _, _, h => .ok h
  | c :: cs, _, _, h => by
      rw [read_cons, read_cons]
      rcases h.step components c cs.head? with
        ⟨e, hr, hs⟩ | ⟨r', s', both, hr, hs, h'⟩
      · rw [hr, hs]
        exact .error e
      · have hshort : (if both then cs.tail else cs).length < (c :: cs).length := by
          rw [List.length_cons]
          split
          · rw [List.length_tail]
            omega
          · exact Nat.lt_succ_self _
        rw [hr, hs]
        exact read (if both then cs.tail else cs) h'
termination_by cs => cs.length
decreasing_by exact hshort

end Reader.Alike

/-! ## Embedding -/

namespace Reader

/-- Embedding a value keeps the shape, and the quote that it leaves. -/
theorem erased_embed (r : Reader) (v : Value) :
    (r.erased.embed v).1.erased = (r.embed v).1.erased ∧ (r.erased.embed v).2 = (r.embed v).2 := by
  have hplace : r.erased.place = r.place.erased := rfl
  rw [embed, embed, hplace]
  cases r.place with
  | text read =>
      dsimp only [Place.erased]
      exact ⟨by simp [erased_pushText], rfl⟩
  | tagStart read value =>
      dsimp only [Place.erased]
      exact ⟨by simp, rfl⟩
  | tagEnd read value =>
      dsimp only [Place.erased]
      exact ⟨by simp, rfl⟩
  | propName tag read =>
      dsimp only [Place.erased]
      refine ⟨?_, rfl⟩
      split <;> simp [Place.erased, OpenTag.erased_spread]
  | propValue tag name quote read => exact ⟨by simp [Place.erased, OpenTag.erased_set], rfl⟩

/-- Two strings that stand in a text or for a property are embedded alike. -/
theorem erased_embed_str (r : Reader) (h : r.place.mode = .text ∨ r.place.mode = .propValue)
    (s t : String) :
    (r.embed (.str s)).1.erased = (r.embed (.str t)).1.erased ∧
      (r.embed (.str s)).2 = (r.embed (.str t)).2 := by
  rw [embed, embed]
  cases hr : r.place with
  | text read => exact ⟨by simp [Value.erased], rfl⟩
  | propValue tag name quote read =>
      exact ⟨by simp [Place.erased, OpenTag.erased_set, Value.erased], rfl⟩
  | _ =>
      rw [hr] at h
      rcases h with h | h <;> cases h

theorem NoComponent.embed {r : Reader} (h : r.NoComponent) {v : Value}
    (hv : ∀ c, v = .component c → r.place.mode ≠ .tagStart) : (r.embed v).1.NoComponent := by
  refine noComponent_iff.2 ((noComponent_iff.1 h).embed fun hmode => ?_)
  cases v with
  | component c => exact absurd hmode (hv c rfl)
  | _ => rfl

/-- Readers that are alike stay alike when the same value is embedded, or strings
where no tag is named. -/
theorem Alike.embed {r s : Reader} (h : r.Alike s) {v w : Value}
    (hvw : v = w ∨ (∃ a b, v = .str a ∧ w = .str b) ∧
      (r.place.mode = .text ∨ r.place.mode = .propValue))
    (hv : ∀ c, v = .component c → r.place.mode ≠ .tagStart) :
    (r.embed v).1.Alike (s.embed w).1 ∧ (r.embed v).2 = (s.embed w).2 := by
  have hsame : (r.embed v).1.erased = (s.embed v).1.erased ∧ (r.embed v).2 = (s.embed v).2 := by
    have hr := r.erased_embed v
    rw [h.erased] at hr
    have hs := s.erased_embed v
    exact ⟨hr.1.symm.trans hs.1, hr.2.symm.trans hs.2⟩
  have hnone := h.noComponent.embed hv
  rcases hvw with rfl | ⟨⟨a, b, rfl, rfl⟩, hmode⟩
  · exact ⟨⟨hsame.1, hnone⟩, hsame.2⟩
  · have hstr := s.erased_embed_str (h.mode ▸ hmode) a b
    exact ⟨⟨hsame.1.trans hstr.1, hnone⟩, hsame.2.trans hstr.2⟩

end Reader

/-! ## Whole templates -/

namespace Reader

variable (components : Components)

/-- Two lists of values for a reader that are the same but for strings in texts and
for properties, and name no tag by a component. -/
structure DifferInStrings (r : Reader) (quote : Option Char) (segments : List (List Char))
    (vs ws : List Value) : Prop where
  length : vs.length = ws.length
  same : ∀ i, vs[i]? = ws[i]? ∨ (∃ s t, vs[i]? = some (.str s) ∧ ws[i]? = some (.str t)) ∧
    (r.modeAt? components quote segments vs i = some .text ∨
      r.modeAt? components quote segments vs i = some .propValue)
  noComponent : ∀ i c, vs[i]? = some (.component c) →
    r.modeAt? components quote segments vs i ≠ some .tagStart

variable {components} {r s : Reader} {quote : Option Char}

theorem DifferInStrings.nil (r : Reader) (quote : Option Char) (segments : List (List Char)) :
    r.DifferInStrings components quote segments [] [] :=
  ⟨rfl, fun _ => .inl rfl, fun _ _ h => nomatch h⟩

/-- The values behind the first one, once that has been met and embedded. -/
theorem DifferInStrings.tail {segment : List Char} {segments : List (List Char)} {v w : Value}
    {vs ws : List Value} (h : r.DifferInStrings components quote (segment :: segments) (v :: vs)
      (w :: ws)) {r' : Reader} (hread : r.read components (dropQuote quote segment) = .ok r') :
    (r'.embed v).1.DifferInStrings components (r'.embed v).2 segments vs ws := by
  have hmode : ∀ i, r.modeAt? components quote (segment :: segments) (v :: vs) (i + 1) =
      (r'.embed v).1.modeAt? components (r'.embed v).2 segments vs i := by
    intro i
    rw [modeAt?_succ, hread]
  refine ⟨Nat.succ.inj h.length, fun i => ?_, fun i c hc => ?_⟩
  · have hsame := h.same (i + 1)
    rw [hmode] at hsame
    exact hsame
  · have hnone := h.noComponent (i + 1) c hc
    rw [hmode] at hnone
    exact hnone

/-- What the two first values have in common, where the reader meets them. -/
theorem DifferInStrings.head {segment : List Char} {segments : List (List Char)} {v w : Value}
    {vs ws : List Value} (h : r.DifferInStrings components quote (segment :: segments) (v :: vs)
      (w :: ws)) {r' : Reader} (hread : r.read components (dropQuote quote segment) = .ok r') :
    (v = w ∨ (∃ a b, v = .str a ∧ w = .str b) ∧
      (r'.place.mode = .text ∨ r'.place.mode = .propValue)) ∧
      ∀ c, v = .component c → r'.place.mode ≠ .tagStart := by
  have hmode : r.modeAt? components quote (segment :: segments) (v :: vs) 0 =
      some r'.place.mode := by
    rw [modeAt?_zero, hread]
    rfl
  have hsame := h.same 0
  have hnone := h.noComponent 0
  simp only [hmode, List.getElem?_cons_zero, Option.some.injEq] at hsame
  simp only [hmode, List.getElem?_cons_zero, ne_eq, Option.some.injEq] at hnone
  exact ⟨hsame, hnone⟩

/-- Readers that are alike read what is left of a template alike and meet each value
in the same mode. -/
theorem Alike.readAll (segments : List (List Char)) {quote : Option Char} {vs ws : List Value}
    {r s : Reader} (h : r.Alike s) (hvs : r.DifferInStrings components quote segments vs ws) :
    Agree (r.readAll components quote segments vs) (s.readAll components quote segments ws) ∧
      ∀ i, r.modeAt? components quote segments vs i = s.modeAt? components quote segments ws i := by
  induction segments generalizing quote vs ws r s with
  | nil =>
      refine ⟨.ok h, fun i => ?_⟩
      have hnone : ∀ n, ¬(i < ([] : List (List Char)).length ∧ i < n) := fun n hi =>
        absurd hi.1 (Nat.not_lt_zero i)
      rw [modeAt?, modeAt?, if_neg (hnone _), if_neg (hnone _)]
  | cons segment segments ih =>
      have hread : Agree (r.read components (dropQuote quote segment))
          (s.read components (dropQuote quote segment)) := h.read _
      rw [readAll_cons, readAll_cons]
      generalize hr : r.read components (dropQuote quote segment) = x at hread ⊢
      generalize hs : s.read components (dropQuote quote segment) = y at hread ⊢
      cases vs with
      | nil =>
          obtain rfl : ws = [] := List.length_eq_zero_iff.1 hvs.length.symm
          refine ⟨?_, fun i => by rw [modeAt?_nil, modeAt?_nil]⟩
          cases hread with
          | error e => exact .error e
          | ok h' => exact (ih h' (.nil _ _ _)).1
      | cons v vs =>
          cases ws with
          | nil => exact absurd hvs.length (Nat.succ_ne_zero _)
          | cons w ws =>
              cases hread with
              | error e =>
                  refine ⟨.error e, fun i => ?_⟩
                  cases i with
                  | zero => rw [modeAt?_zero, modeAt?_zero, hr, hs]
                  | succ i => rw [modeAt?_succ, modeAt?_succ, hr, hs]
              | ok h' =>
                  obtain ⟨hvw, hv⟩ := hvs.head hr
                  obtain ⟨hembed, hquote⟩ := h'.embed hvw hv
                  obtain ⟨hrest, hmodes⟩ := ih hembed (hvs.tail hr)
                  dsimp only
                  rw [← hquote]
                  refine ⟨hrest, fun i => ?_⟩
                  cases i with
                  | zero =>
                      rw [modeAt?_zero, modeAt?_zero, hr, hs]
                      exact congrArg some h'.mode
                  | succ i =>
                      rw [modeAt?_succ, modeAt?_succ, hr, hs]
                      dsimp only
                      rw [← hquote]
                      exact hmodes i

/-- Open elements of one shape are closed alike. -/
theorem closeAll_congr {fs gs : List Frame} (hfs : fs.map Frame.erased = gs.map Frame.erased)
    (hnone : ∀ f ∈ fs, f.tag.name.isComponent = false) {items items' last last' : List Value}
    (hitems : Value.allErased items = Value.allErased items')
    (hlast : Value.allErased last = Value.allErased last') :
    (closeAll components items last fs).map Value.allErased =
      (closeAll components items' last' gs).map Value.allErased := by
  induction fs generalizing gs last last' with
  | nil =>
      obtain rfl : gs = [] := List.map_eq_nil_iff.1 hfs.symm
      refine congrArg Except.ok ?_
      rw [Value.allErased_append, Value.allErased_append, hitems, hlast]
  | cons f fs ih =>
      cases gs with
      | nil => cases hfs
      | cons g gs =>
          obtain ⟨hf, hfs⟩ := List.cons.inj hfs
          have htag : f.tag.erased = g.tag.erased := congrArg Frame.tag hf
          have hchildren : Value.allErased (f.children ++ last) =
              Value.allErased (g.children ++ last') := by
            rw [Value.allErased_append, Value.allErased_append, hlast]
            exact congrArg (· ++ _) (congrArg Frame.children hf)
          have hmake := OpenTag.make_congr components htag (hnone f (List.mem_cons_self ..)) hchildren
          rw [closeAll, closeAll]
          rcases error_or_ok_of_map_eq hmake with ⟨e, hx, hy⟩ | ⟨v, w, hx, hy, hvw⟩
          · rw [hx, hy]
          · rw [hx, hy]
            refine ih hfs (fun f hf => hnone f (List.mem_cons_of_mem _ hf)) ?_
            exact congrArg (fun v => [v]) hvw

/-- A reader whose last text has ended. -/
def settled (r : Reader) : Reader :=
  match r.place with
  | .text read => r.pushText read
  | _ => r

theorem finish_eq (r : Reader) :
    r.finish components = closeAll components r.settled.items [] r.settled.frames := rfl

theorem erased_settled (r : Reader) : r.erased.settled.erased = r.settled.erased := by
  have hplace : r.erased.place = r.place.erased := rfl
  rw [settled, settled, hplace]
  cases r.place with
  | text read =>
      dsimp only [Place.erased]
      rw [erased_pushText, erased_pushText, erased_erased]
  | _ => exact r.erased_erased

theorem NoComponent.settled {r : Reader} (h : r.NoComponent) : r.settled.NoComponent := by
  rw [Reader.settled]
  cases r.place with
  | text read => exact noComponent_iff.2 ((noComponent_iff.1 h).pushText read)
  | _ => exact h

/-- Readers that are alike end with items of one shape. -/
theorem Alike.finish (h : r.Alike s) :
    (r.finish components).map Value.allErased = (s.finish components).map Value.allErased := by
  have hsettled : r.settled.erased = s.settled.erased := by
    rw [← erased_settled, h.erased, erased_settled]
  rw [finish_eq, finish_eq]
  exact closeAll_congr (congrArg Reader.frames hsettled) h.noComponent.settled.frames
    (congrArg Reader.items hsettled) rfl

end Reader

/-- Two lists of values that are the same but for strings which stand in texts or for
properties. A template meets them in the same modes, and refuses both for the same
reason or gives results of one shape, as long as no component names a tag. -/
theorem compile_sameShape (components : Components) {segments : List String} {vs ws : List Value}
    (hlength : vs.length = ws.length)
    (hsame : ∀ i, vs[i]? = ws[i]? ∨ (∃ s t, vs[i]? = some (.str s) ∧ ws[i]? = some (.str t)) ∧
      (modeAt? components segments vs i = some .text ∨
        modeAt? components segments vs i = some .propValue))
    (hnone : ∀ i c, vs[i]? = some (.component c) →
      modeAt? components segments vs i ≠ some .tagStart) :
    (∀ i, modeAt? components segments vs i = modeAt? components segments ws i) ∧
      (compile components segments vs).map Value.allErased =
        (compile components segments ws).map Value.allErased := by
  have hstart : ({} : Reader).Alike {} :=
    ⟨rfl, ⟨fun _ hname => (nomatch hname), fun _ hf => (nomatch hf)⟩⟩
  have hdiffer : ({} : Reader).DifferInStrings components none (segments.map String.toList) vs ws :=
    ⟨hlength, hsame, hnone⟩
  obtain ⟨hread, hmodes⟩ := hstart.readAll _ hdiffer
  refine ⟨hmodes, ?_⟩
  rw [compile, compile]
  generalize ({} : Reader).readAll components none (segments.map String.toList) vs = x at hread ⊢
  generalize ({} : Reader).readAll components none (segments.map String.toList) ws = y at hread ⊢
  cases hread with
  | error e => rfl
  | ok h => exact h.finish

/-- A paragraph with a title and a text. -/
def notice : List String :=
  ["<p title='", "'>", "</p>"]

/-- Two strings that mean nothing in a template. -/
def harmless : List Value :=
  [.str "a", .str "b"]

/-- Two strings of which one would end the title and one the paragraph. -/
def harmful : List Value :=
  [.str "' hidden='", .str "</p><b>"]

theorem compile_sameShape_notice :
    modeAt? (fun _ _ _ => .ok .null) notice harmless 0 = some .propValue ∧
      modeAt? (fun _ _ _ => .ok .null) notice harmless 1 = some .text ∧
      (∀ i, modeAt? (fun _ _ _ => .ok .null) notice harmless i =
        modeAt? (fun _ _ _ => .ok .null) notice harmful i) ∧
      (compile (fun _ _ _ => .ok .null) notice harmless).map Value.allErased =
        (compile (fun _ _ _ => .ok .null) notice harmful).map Value.allErased := by
  have hvalue : modeAt? (fun _ _ _ => .ok .null) notice harmless 0 = some .propValue := by decide
  have htext : modeAt? (fun _ _ _ => .ok .null) notice harmless 1 = some .text := by decide
  refine ⟨hvalue, htext, compile_sameShape _ rfl (fun i => ?_) (fun i c hc => ?_)⟩
  · match i with
    | 0 => exact .inr ⟨⟨_, _, rfl, rfl⟩, .inr hvalue⟩
    | 1 => exact .inr ⟨⟨_, _, rfl, rfl⟩, .inl htext⟩
    | _ + 2 => exact .inl rfl
  · match i with
    | 0 => cases hc
    | 1 => cases hc
    | _ + 2 => cases hc

end LiveMarkup.Template
