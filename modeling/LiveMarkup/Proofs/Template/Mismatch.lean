import LiveMarkup.Proofs.Template.Compile

/-!
# The first wrong closing tag

A template that is written as far as some place inside its elements leaves those open
(`Draft`). Reading it so far refuses nothing and has the same elements open, whatever was
opened and closed before (`Reader.readOut_draft`). So a closing tag with another name than
the innermost of them is refused with both names, and nothing that stands behind it
matters (`compile_mismatch`).
-/

namespace LiveMarkup.Template

open Piece

/-! ## Drafts -/

/-- A template as far as it is written: items, and behind them perhaps an element that is
left open, with what is written inside it. -/
inductive Draft where
  | items (t : Content)
  | inside (t : Content) (name : Word) (attrs : List (Gap × Attr)) (blanks : Blanks) (rest : Draft)

namespace Draft

/-- A draft as it is written. -/
def pieces : Draft → List Piece
  | .items t => t.pieces
  | .inside t name attrs blanks rest =>
    t.pieces ++ .char '<' ::
      (Opening.pieces ⟨.word name, attrs, blanks⟩ ++ .char '>' :: rest.pieces)

/-- The names of the elements that are left open, the outermost first. -/
def opened : Draft → List Word
  | .items _ => []
  | .inside _ name _ _ rest => name :: rest.opened

/-- Everything that is written to its end can be made. -/
def Makes (components : Components) : Draft → Prop
  | .items t => ∃ vs, t.meaning components = .ok vs
  | .inside t _ _ _ rest => (∃ vs, t.meaning components = .ok vs) ∧ rest.Makes components

/-- The name of the innermost element that is left open, or nothing when none is. -/
def innermost (d : Draft) : String :=
  d.opened.getLast?.elim "" Word.text

end Draft

/-! ## Closing tags with any name -/

/-- What stands between `</` and `>`: characters, or a value with anything in front of it
and characters behind it. -/
inductive Closer where
  | chars (cs : List Char) (h : '>' ∉ cs)
  | value (before : List Piece) (v : Value) (after : List Char) (hbefore : .char '>' ∉ before)
    (hafter : '>' ∉ after)

namespace Closer

/-- A closing tag as it is written. -/
def pieces : Closer → List Piece
  | .chars cs _ => .char '<' :: .char '/' :: (Piece.chars cs ++ [.char '>'])
  | .value before v after _ _ =>
    .char '<' :: .char '/' :: (before ++ .value v :: (Piece.chars after ++ [.char '>']))

/-- The name that is closed, without the blanks around it. Next to a value no character is
part of the name. -/
def name : Closer → TagName
  | .chars cs _ => .literal (Text.trim (String.ofList cs))
  | .value _ v _ _ _ => .ofValue v

end Closer

/-! ## Reading them -/

namespace Reader

variable (components : Components)

/-- A draft is read without a refusal, and what it leaves open is open then. -/
theorem readOut_draft {d : Draft} (hd : d.Makes components) (r : Reader) :
    ∃ r' : Reader, r'.opened = d.opened.reverse.map (.literal ·.text) ++ r.opened ∧
      ∀ ps, Boundary ps → (r.goto (.text [])).readOut components (d.pieces ++ ps) =
        (r'.goto (.text [])).readOut components ps := by
  induction d generalizing r with
  | items t =>
      obtain ⟨vs, hvs⟩ := hd
      refine ⟨r.pushAll vs, r.opened_pushAll vs, fun ps h => ?_⟩
      rw [Draft.pieces, readOut_content components t r h, hvs]
      rfl
  | inside t name attrs blanks rest ih =>
      obtain ⟨⟨vs, hvs⟩, hrest⟩ := hd
      obtain ⟨pl, hin, hread⟩ := readOut_opening components ⟨.word name, attrs, blanks⟩
      obtain ⟨r', hopened, hdraft⟩ := ih hrest
        ((r.pushAll vs).enter ⟨.literal name.text, Opening.props ⟨.word name, attrs, blanks⟩⟩)
      refine ⟨r', ?_, fun ps h => ?_⟩
      · have henter : ∀ tag, ((r.pushAll vs).enter tag).opened = tag.name :: r.opened := fun tag =>
          congrArg (tag.name :: ·) (r.opened_pushAll vs)
        rw [hopened, henter, Draft.opened, List.reverse_cons, List.map_append, List.append_assoc]
        rfl
      · rw [← hdraft ps h, Draft.pieces, List.append_assoc, List.cons_append, List.append_assoc,
          List.cons_append, readOut_content components t r (boundary_open _), hvs]
        refine (readOut_open components _ _).trans ?_
        rw [hread, readOut_enter components hin]
        rfl

/-- In a closing tag everything up to its end is part of it. -/
theorem readOut_closing_pieces {ps : List Piece} (h : .char '>' ∉ ps) (r : Reader)
    (read : List Char) (value : Option Value) :
    ∃ read' value', ∀ qs, (r.goto (.tagEnd read value)).readOut components (ps ++ qs) =
      (r.goto (.tagEnd read' value')).readOut components qs := by
  induction ps generalizing read value with
  | nil => exact ⟨read, value, fun qs => rfl⟩
  | cons p ps ih =>
      rw [List.mem_cons, not_or] at h
      obtain ⟨hp, hps⟩ := h
      cases p with
      | char c =>
          have hc : '>' ∉ [c] := fun hmem => hp (congrArg _ (List.mem_singleton.1 hmem))
          obtain ⟨read', value', hread⟩ := ih hps (c :: read) value
          refine ⟨read', value', fun qs => ?_⟩
          rw [← hread]
          exact readOut_closing_chars components r hc read value (ps ++ qs)
      | value v =>
          obtain ⟨read', value', hread⟩ := ih hps [] (some v)
          refine ⟨read', value', fun qs => ?_⟩
          rw [← hread, List.cons_append, readOut_value]
          exact congrArg _ (unquote_none _)

/-- A closing tag is read as its name. -/
theorem readOut_closer (closer : Closer) (r : Reader) :
    ∃ read value, nameOf read value = closer.name ∧
      ∀ ps, (r.goto (.text [])).readOut components (closer.pieces ++ ps) =
        (r.goto (.tagEnd read value)).readOut components (.char '>' :: ps) := by
  cases closer with
  | chars cs h =>
      refine ⟨cs.reverse, none, ?_, fun ps => ?_⟩
      · rw [nameOf, wordOf, textOf_reverse]
        rfl
      · rw [Closer.pieces, List.cons_append, List.cons_append, List.append_assoc, readOut_open,
          readOut_slash, readOut_closing_chars components r h, List.append_nil]
        rfl
  | value before v after hbefore hafter =>
      obtain ⟨read, value, hread⟩ := readOut_closing_pieces components hbefore r [] none
      refine ⟨after.reverse, some v, rfl, fun ps => ?_⟩
      rw [Closer.pieces, List.cons_append, List.cons_append, List.append_assoc, List.cons_append,
        List.append_assoc, readOut_open, readOut_slash, hread, readOut_value]
      refine (congrArg _ (unquote_none _)).trans ?_
      refine (readOut_closing_chars components r hafter [] (some v) _).trans ?_
      rw [List.append_nil]
      rfl

/-- A closing tag that does not name the innermost element is refused. -/
theorem readOut_mismatch (closer : Closer) (r : Reader)
    (h : ∀ name ∈ r.opened.head?, name.same closer.name = false) (ps : List Piece) :
    (r.goto (.text [])).readOut components (closer.pieces ++ ps) =
      .error (.unexpectedClosingTag (r.opened.head?.elim "" TagName.shown) closer.name.shown) := by
  obtain ⟨read, value, hname, hread⟩ := readOut_closer components closer r
  have hstep : (r.goto (.tagEnd read value)).step components '>' (next ps) =
      .error (.unexpectedClosingTag (r.opened.head?.elim "" TagName.shown)
        closer.name.shown) := by
    obtain ⟨place, _ | ⟨f, fs⟩, items⟩ := r
    · simp only [step, leave, goto, hname, if_true]
      rfl
    · have hsame : f.tag.name.same closer.name = false := h f.tag.name rfl
      simp only [step, leave, goto, hname, hsame, if_true, Bool.false_eq_true, if_false]
      rfl
  rw [hread, readOut_char, hstep]

end Reader

theorem Word.same_eq_false {w : Word} {name : TagName} (h : name.shown ≠ w.text) :
    TagName.same (.literal w.text) name = false := by
  cases name with
  | literal s => exact beq_false_of_ne (Ne.symm h)
  | embedded v => rfl

/-- The first closing tag whose name is not that of the innermost open element is
reported with both names, whatever is opened and closed before it and whatever text and
values follow. Where no element is open every closing tag is wrong. -/
theorem compile_mismatch (components : Components) {d : Draft} (hd : d.Makes components)
    {closer : Closer} (hname : ∀ w ∈ d.opened.getLast?, closer.name.shown ≠ w.text)
    (rest : List Piece) :
    compile components
        ((literals (d.pieces ++ (closer.pieces ++ rest))).map String.ofList)
        (embedded (d.pieces ++ (closer.pieces ++ rest))) =
      .error (.unexpectedClosingTag d.innermost closer.name.shown) := by
  obtain ⟨r, hopened, hread⟩ := Reader.readOut_draft components hd {}
  have hhead : r.opened.head? = d.opened.getLast?.map (.literal ·.text) := by
    have hempty : Reader.opened {} = [] := rfl
    rw [hopened, hempty, List.append_nil, List.head?_map, List.head?_reverse]
  have hboundary : Boundary (closer.pieces ++ rest) := by
    cases closer <;> exact boundary_open _
  have hstart : ({} : Reader) = ({} : Reader).goto (.text []) := rfl
  rw [compile_cut, hstart, hread _ hboundary, Reader.readOut_mismatch]
  · rw [hhead, Draft.innermost]
    cases d.opened.getLast? <;> rfl
  · intro name hmem
    rw [hhead, Option.mem_def, Option.map_eq_some_iff] at hmem
    obtain ⟨w, hw, rfl⟩ := hmem
    exact Word.same_eq_false (hname w hw)

/-- A list with an entry in it and another one, named in another case, that is left open. -/
def misspelt : Draft :=
  let li : Word := ⟨['l', 'i'], List.cons_ne_nil _ _, List.all_eq_true.1 rfl⟩
  .inside (.last (.blanks .none)) ⟨['u', 'l'], List.cons_ne_nil _ _, List.all_eq_true.1 rfl⟩ []
    .none
    (.inside (.more (.blanks .none) (.element ⟨.word li, [], .none⟩
        (.last (.text ['a'] rfl (by decide))) .none .none) (.last (.blanks .none)))
      ⟨['L', 'i'], List.cons_ne_nil _ _, List.all_eq_true.1 rfl⟩ [] .none
      (.items (.last (.text ['b'] rfl (by decide)))))

theorem compile_mismatch_misspelt :
    misspelt.Makes (fun _ _ _ => .ok .null) ∧
      compile (fun _ _ _ => .ok .null) ["<ul><li>a</li><Li>b</li ></ul><", ">"] [.null] =
        .error (.unexpectedClosingTag "Li" "li") := by
  have hmakes : misspelt.Makes (fun _ _ _ => .ok .null) := ⟨⟨_, rfl⟩, ⟨_, rfl⟩, ⟨_, rfl⟩⟩
  have hname : ∀ w ∈ misspelt.opened.getLast?,
      (Closer.chars ['l', 'i', ' '] (by decide)).name.shown ≠ w.text := by
    intro w hw
    cases hw
    decide
  have h := compile_mismatch _ hmakes hname
    (Piece.chars ['<', '/', 'u', 'l', '>', '<'] ++ [.value .null, .char '>'])
  exact ⟨hmakes, h⟩

end LiveMarkup.Template
