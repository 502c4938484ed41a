import LiveMarkup.Proofs.Template.Tags

/-!
# Compiling gives what a tree says

The reader goes through what is written for a tree and ends up with what the tree
means, whatever follows (`Item.readOut`, `Content.readOut`). It is the fillers
that need to know what follows: a text ends where an item begins, where its
element is closed, or with the template (`Boundary`), and not with a character
that would belong to the text.
-/

namespace LiveMarkup.Template

open Piece

theorem OpenTag.make_label (components : Components) (l : Label) (p : Props)
    (children : List Value) :
    OpenTag.make components ⟨l.tagName, p⟩ children =
      LiveMarkup.make components l.type p children := by
  cases l with
  | word w => rfl
  | value v _ =>
      cases v with
      | str s =>
          have htag : normalTag (Text.trim s) = normalTag s := by
            rw [normalTag, normalTag, Text.trim_trim]
          have hmake : ∀ t, LiveMarkup.make components (.str t) p children =
              if Text.trim t = "" then .error (.invalidElementType "string")
              else .ok (.node (.element (normalTag t) p (flatten children))) := fun t => rfl
          change LiveMarkup.make components (.str (Text.trim s)) p children =
            LiveMarkup.make components (.str s) p children
          rw [hmake, hmake, Text.trim_trim, htag]
      | _ => rfl

theorem Label.same_self (l : Label) : l.tagName.same l.tagName = true := by
  cases l with
  | word w => exact beq_self_eq_true w.text
  | value v hv =>
      cases v with
      | str s => exact beq_self_eq_true (Text.trim s)
      | _ => exact Value.same_self hv

/-- No text goes on with these pieces. -/
def Boundary (ps : List Piece) : Prop :=
  ∀ c ∈ next ps, c = '<'

theorem boundary_open (ps : List Piece) : Boundary (.char '<' :: ps) :=
  fun _ hc => (Option.some.inj hc).symm

theorem Item.boundary (x : Item) (ps : List Piece) : Boundary (x.pieces ++ ps) := by
  cases x with
  | value v => exact fun c hc => nomatch hc
  | closed tag => exact boundary_open _
  | element tag content before after => exact boundary_open _

namespace Reader

variable (components : Components)

/-- The names of the elements that are open, the innermost first. -/
def opened (r : Reader) : List TagName :=
  r.frames.map (·.tag.name)

theorem opened_push (r : Reader) (v : Value) : (r.push v).opened = r.opened := by
  obtain ⟨place, frames, items⟩ := r
  cases frames <;> rfl

/-- The reader with more children of the innermost element. -/
def pushAll (r : Reader) (vs : List Value) : Reader :=
  vs.foldl push r

theorem pushAll_append (r : Reader) (vs ws : List Value) :
    r.pushAll (vs ++ ws) = (r.pushAll vs).pushAll ws :=
  List.foldl_append

theorem opened_pushAll (r : Reader) (vs : List Value) : (r.pushAll vs).opened = r.opened := by
  induction vs generalizing r with
  | nil => rfl
  | cons v vs ih => exact (ih (r.push v)).trans (r.opened_push v)

theorem pushText_goto (r : Reader) (pl : Place) (read : List Char) :
    (r.goto pl).pushText read = (r.pushText read).goto pl := by
  rw [pushText, pushText]
  split
  · rfl
  · exact r.push_goto pl _

theorem pushAll_frame (r : Reader) (f : Frame) (fs : List Frame) (vs : List Value) :
    { r with frames := f :: fs }.pushAll vs =
      { r with frames := { f with children := f.children ++ vs } :: fs } := by
  induction vs generalizing f with
  | nil => simp [pushAll]
  | cons v vs ih =>
      refine (ih { f with children := f.children ++ [v] }).trans ?_
      simp

theorem pushAll_enter (r : Reader) (tag : OpenTag) (vs : List Value) :
    (r.enter tag).pushAll vs =
      { r.goto (.text []) with frames := ⟨tag, vs⟩ :: r.frames } :=
  pushAll_frame (r.goto (.text [])) ⟨tag, []⟩ r.frames vs

theorem pushAll_item (r : Reader) (hr : r.frames = []) (vs : List Value) :
    r.pushAll vs = { r with items := r.items ++ vs } := by
  induction vs generalizing r with
  | nil => simp [pushAll]
  | cons v vs ih =>
      have hpush : r.push v = { r with items := r.items ++ [v] } := by rw [push, hr]
      refine (ih (r.push v) ?_).trans ?_
      · rw [hpush]
        exact hr
      · simp [hpush]

/-! ## Texts -/

theorem readOut_text (r : Reader) {cs : List Char} (hcs : '<' ∉ cs) (ps : List Piece) :
    (r.goto (.text [])).readOut components (chars cs ++ ps) =
      (r.goto (.text cs.reverse)).readOut components ps := by
  have hkept := readOut_kept components .text fun c (hc : c ∈ cs) r read next => by
    have hne : c ≠ '<' := fun he => hcs (he ▸ hc)
    simp [step, hne]
  rw [hkept, List.append_nil]

/-- A text that has ended may be put down at once. -/
theorem readOut_settle (r : Reader) (read : List Char) {ps : List Piece} (h : Boundary ps) :
    (r.goto (.text read)).readOut components ps =
      ((r.pushText read).goto (.text [])).readOut components ps := by
  have hnil : ∀ r : Reader, r.pushText [] = r := fun r => rfl
  cases ps with
  | nil =>
      rw [readOut_nil, readOut_nil, finish, finish]
      simp only [place_goto, pushText_goto, hnil]
      rfl
  | cons p ps =>
      cases p with
      | char c =>
          obtain rfl : c = '<' := h c rfl
          rw [readOut_char, readOut_char]
          simp [step, pushText_goto, hnil]
      | value v =>
          rw [readOut_value, readOut_value, embed, embed]
          simp only [place_goto, pushText_goto, push_goto, hnil]
          rfl

theorem readOut_filler (f : Filler) (r : Reader) {ps : List Piece} (h : Boundary ps) :
    (r.goto (.text [])).readOut components (f.pieces ++ ps) =
      ((r.pushAll f.meaning).goto (.text [])).readOut components ps := by
  cases f with
  | blanks bs =>
      have hopen : '<' ∉ bs.chars := by
        intro hmem
        have hblank := List.all_eq_true.1 bs.blank '<' hmem
        cases hblank
      have hall : bs.chars.reverse.all Text.isBlank = true := by
        rw [List.all_reverse]
        exact bs.blank
      rw [Filler.pieces, readOut_text components r hopen,
        readOut_settle components r _ h, pushText, if_pos hall]
      rfl
  | text cs hblank hopen =>
      have hall : ¬cs.reverse.all Text.isBlank = true := by
        rw [List.all_reverse, hblank]
        exact Bool.false_ne_true
      rw [Filler.pieces, readOut_text components r hopen,
        readOut_settle components r _ h, pushText, if_neg hall, textOf_reverse]
      rfl

/-! ## Closing tags -/

theorem readOut_closing_chars (r : Reader) {cs : List Char} (hcs : '>' ∉ cs) (read : List Char)
    (value : Option Value) (ps : List Piece) :
    (r.goto (.tagEnd read value)).readOut components (chars cs ++ ps) =
      (r.goto (.tagEnd (cs.reverse ++ read) value)).readOut components ps := by
  have hkept := readOut_kept components (.tagEnd · value) fun c (hc : c ∈ cs) r read next => by
    have hne : c ≠ '>' := fun he => hcs (he ▸ hc)
    simp [step, hne]
  exact hkept r read ps

theorem not_mem_blanks (bs : Blanks) {c : Char} (hc : Text.isBlank c = false) : c ∉ bs.chars := by
  intro hmem
  have hblank := List.all_eq_true.1 bs.blank c hmem
  rw [hc] at hblank
  cases hblank

/-- A closing name is read with the blanks around it. -/
theorem readOut_closing_name (r : Reader) (l : Label) (before after : Blanks) (ps : List Piece) :
    ∃ read value, nameOf read value = l.tagName ∧
      (r.goto (.tagEnd [] none)).readOut components
          (chars before.chars ++ (l.pieces ++ (chars after.chars ++ ps))) =
        (r.goto (.tagEnd read value)).readOut components ps := by
  have hbefore := not_mem_blanks before (c := '>') rfl
  have hafter := not_mem_blanks after (c := '>') rfl
  rw [readOut_closing_chars components r hbefore, List.append_nil]
  cases l with
  | word w =>
      have hword : '>' ∉ w.chars := fun hmem => isWordChar_ne (w.plain '>' hmem) rfl rfl
      refine ⟨(before.chars ++ w.chars ++ after.chars).reverse, none, ?_, ?_⟩
      · rw [nameOf, wordOf_around w before.blank after.blank]
        rfl
      · rw [Label.pieces, readOut_closing_chars components r hword,
          readOut_closing_chars components r hafter, List.reverse_append, List.reverse_append]
  | value v hv =>
      refine ⟨after.chars.reverse, some v, rfl, ?_⟩
      have hpieces : Label.pieces (.value v hv) ++ (chars after.chars ++ ps) =
          .value v :: (chars after.chars ++ ps) := rfl
      have hembed : (r.goto (.tagEnd before.chars.reverse none)).embed v =
          (r.goto (.tagEnd [] (some v)), none) := rfl
      rw [hpieces, readOut_value, hembed]
      dsimp only
      rw [unquote_none, readOut_closing_chars components r hafter, List.append_nil]

theorem readOut_open (r : Reader) (ps : List Piece) :
    (r.goto (.text [])).readOut components (.char '<' :: ps) =
      (r.goto (.tagStart [] none)).readOut components ps := by
  rw [readOut_char]
  rfl

theorem readOut_slash (r : Reader) (ps : List Piece) :
    (r.goto (.tagStart [] none)).readOut components (.char '/' :: ps) =
      (r.goto (.tagEnd [] none)).readOut components ps := by
  rw [readOut_char]
  rfl

/-- A closing tag that names the innermost element makes it. -/
theorem readOut_leave (r : Reader) (tag : OpenTag) (children : List Value) (fs : List Frame)
    {read : List Char} {value : Option Value} (h : tag.name.same (nameOf read value) = true)
    (ps : List Piece) :
    ({ r with frames := ⟨tag, children⟩ :: fs }.goto (.tagEnd read value)).readOut components
        (.char '>' :: ps) =
      tag.make components children >>= fun v =>
        (({ r with frames := fs }.push v).goto (.text [])).readOut components ps := by
  have hstep : ({ r with frames := ⟨tag, children⟩ :: fs }.goto (.tagEnd read value)).step
      components '>' (next ps) = (tag.make components children).map fun v =>
        (({ r with frames := fs }.push v).goto (.text []), false) := by
    have hpush : ∀ v, ({ r with frames := fs, place := .tagEnd read value } : Reader).push v =
        ({ r with frames := fs }.push v).goto (.tagEnd read value) :=
      push_goto { r with frames := fs } (.tagEnd read value)
    simp only [step, if_true, leave, goto, h, hpush]
    cases tag.make components children <;> rfl
  rw [readOut_char, hstep]
  cases tag.make components children <;> rfl

mutual

/-- An item is read to its end, whatever follows. -/
theorem readOut_item : ∀ (x : Item) (r : Reader) (ps : List Piece),
    (r.goto (.text [])).readOut components (x.pieces ++ ps) =
      x.meaning components >>= fun v => ((r.push v).goto (.text [])).readOut components ps
  | .value v, r, ps => by
      have hembed : (r.goto (.text [])).embed v = ((r.push v).goto (.text []), none) := by
        rw [← goto_goto (r.push v) (.text []) (.text []), ← push_goto]
        rfl
      have hpieces : Item.pieces (.value v) ++ ps = .value v :: ps := rfl
      rw [hpieces, readOut_value, hembed]
      dsimp only
      rw [unquote_none]
      rfl
  | .closed tag, r, ps => by
      obtain ⟨pl, hin, hread⟩ := readOut_opening components tag
      have hpieces : Item.pieces (.closed tag) ++ ps =
          .char '<' :: (tag.pieces ++ .char '/' :: .char '>' :: ps) := by
        simp [Item.pieces]
      rw [hpieces, readOut_open, hread, readOut_close components hin, OpenTag.make_label]
      rfl
  | .element tag content before after, r, ps => by
      obtain ⟨pl, hin, hread⟩ := readOut_opening components tag
      have hpieces : Item.pieces (.element tag content before after) ++ ps =
          .char '<' :: (tag.pieces ++ .char '>' :: (content.pieces ++ .char '<' :: .char '/' ::
            (chars before.chars ++ (tag.name.pieces ++ (chars after.chars ++
              .char '>' :: ps))))) := by
        simp [Item.pieces]
      have henter : r.enter ⟨tag.name.tagName, tag.props⟩ =
          (r.enter ⟨tag.name.tagName, tag.props⟩).goto (.text []) := rfl
      rw [hpieces, readOut_open, hread, readOut_enter components hin, henter,
        readOut_content content _ (boundary_open _), Item.meaning]
      cases content.meaning components with
      | error e => rfl
      | ok vs =>
          obtain ⟨read, value, hname, hclose⟩ := readOut_closing_name components
            ((r.enter ⟨tag.name.tagName, tag.props⟩).pushAll vs) tag.name before after
            (.char '>' :: ps)
          have hsame : tag.name.tagName.same (nameOf read value) = true := by
            rw [hname]
            exact tag.name.same_self
          refine (readOut_open components _ _).trans ?_
          rw [readOut_slash, hclose, pushAll_enter]
          refine (readOut_leave components (r.goto (.text [])) _ vs r.frames hsame ps).trans ?_
          rw [OpenTag.make_label]
          simp only [← push_goto]
          rfl

/-- Items are read one after the other. -/
theorem readOut_content : ∀ (t : Content) (r : Reader) {ps : List Piece}, Boundary ps →
    (r.goto (.text [])).readOut components (t.pieces ++ ps) =
      t.meaning components >>= fun vs => ((r.pushAll vs).goto (.text [])).readOut components ps
  | .last f, r, ps, h => readOut_filler components f r h
  | .more f x rest, r, ps, h => by
      have hx := x.boundary (rest.pieces ++ ps)
      rw [Content.pieces, Content.meaning, List.append_assoc, List.append_assoc,
        readOut_filler components f r hx, readOut_item x]
      cases x.meaning components with
      | error e => rfl
      | ok v =>
          have hrest := readOut_content rest ((r.pushAll f.meaning).push v) h
          cases hmeaning : rest.meaning components with
          | error e =>
              rw [hmeaning] at hrest
              exact hrest
          | ok vs =>
              have hpush : r.pushAll (f.meaning ++ v :: vs) =
                  ((r.pushAll f.meaning).push v).pushAll vs := pushAll_append r f.meaning (v :: vs)
              rw [hmeaning] at hrest
              apply hrest.trans
              change _ = ((r.pushAll (f.meaning ++ v :: vs)).goto (.text [])).readOut components ps
              rw [hpush]
              rfl

end

/-- Read from the start, what is written for a tree gives what the tree says. -/
theorem readOut_tree (t : Content) :
    ({} : Reader).readOut components t.pieces = t.meaning components := by
  have hstart : ({} : Reader) = ({} : Reader).goto (.text []) := rfl
  have hend : Boundary [] := fun c hc => by cases hc
  rw [← List.append_nil t.pieces, hstart, readOut_content components t {} hend]
  cases t.meaning components with
  | error e => rfl
  | ok vs =>
      change (({} : Reader).pushAll vs |>.goto (.text [])).finish components = .ok vs
      rw [pushAll_item _ rfl]
      exact congrArg Except.ok (List.append_nil _)

end Reader

/-- Compiling the segments and values of a tree gives what the tree says. -/
theorem compile_eq_meaning (components : Components) (t : Content) :
    compile components t.segments t.values = t.meaning components := by
  rw [Content.segments, Content.values, compile_cut, Reader.readOut_tree]

/-- A paragraph with a text, a value and a line break, and a tab behind the closing
name. -/
def greeting : Content :=
  .more (.blanks .none)
    (.element ⟨.word ⟨['p'], by simp, fun c hc => List.mem_singleton.1 hc ▸ rfl⟩, [], .none⟩
      (.more (.text ['h', 'i', ' '] rfl (by decide)) (.value (.str "Bob"))
        (.last (.blanks ⟨['\n'], rfl⟩)))
      .none ⟨['\t'], rfl⟩)
    (.last (.blanks .none))

example : compile (fun _ _ _ => .ok .null) ["<p>hi ", "\n</p\t>"] [.str "Bob"] =
    greeting.meaning fun _ _ _ => .ok .null := by rfl

end LiveMarkup.Template
