import LiveMarkup.Proofs.Template.Grammar
import LiveMarkup.Proofs.Text.Trim

/-!
# Reading tags

Behind the name of a tag and behind every attribute the reader may be in one of
two places: it may still be reading a name, the tag's or a flag's, or it waits
for the next attribute. What follows next is a blank or the end of the tag, and
then the two places give the same (`Place.InTag`). So a tag can be read attribute
by attribute, and the properties are those that the tag gives
(`Reader.readOut_opening`).
-/

namespace LiveMarkup.Template

open Piece

/-! ## Names -/

theorem textOf_reverse (cs : List Char) : textOf cs.reverse = String.ofList cs := by
  rw [textOf, List.reverse_reverse]

theorem wordOf_nil : wordOf [] = "" := rfl

theorem isBlank_of_isWordChar {c : Char} (h : isWordChar c = true) : Text.isBlank c = false := by
  simp only [isWordChar, Bool.and_eq_true, Bool.not_eq_true'] at h
  exact h.1.1.1.1.1.1

/-- A word may be read with blanks around it. -/
theorem wordOf_around (w : Word) {before after : List Char}
    (hb : before.all Text.isBlank = true) (ha : after.all Text.isBlank = true) :
    wordOf (before ++ w.chars ++ after).reverse = w.text := by
  rw [wordOf, textOf_reverse, Text.trim, String.toList_ofList,
    Text.trimChars_around hb (fun c hc => isBlank_of_isWordChar (w.plain c hc)) ha]
  rfl

theorem wordOf_word (w : Word) : wordOf w.chars.reverse = w.text := by
  have hnil : ([] : List Char).all Text.isBlank = true := rfl
  have h := wordOf_around w hnil hnil
  rwa [List.nil_append, List.append_nil] at h

theorem Word.text_ne_empty (w : Word) : w.text ≠ "" := by
  intro h
  have hchars := congrArg String.toList h
  rw [Word.text, String.toList_ofList] at hchars
  exact w.ne_nil hchars

theorem Word.not_all_blank (w : Word) : w.chars.reverse.all Text.isBlank = false := by
  rw [List.all_reverse, List.all_eq_false]
  obtain ⟨c, hc⟩ := List.exists_mem_of_ne_nil _ w.ne_nil
  exact ⟨c, hc, by simp [isBlank_of_isWordChar (w.plain c hc)]⟩

theorem OpenTag.flag_nil (tag : OpenTag) : tag.flag [] = tag := by
  rw [flag, wordOf_nil, if_pos rfl]

theorem OpenTag.flag_word (tag : OpenTag) (w : Word) :
    tag.flag w.chars.reverse = tag.set w.text (.bool true) := by
  rw [flag, wordOf_word, if_neg w.text_ne_empty]

/-- The name in a tag as the reader has it. -/
def Label.tagName : Label → TagName
  | .word w => .literal w.text
  | .value v _ => .ofValue v

/-! ## Places inside a tag -/

/-- The reader is in an opening tag that says so much, and may go on to the next
attribute or to the end. -/
inductive Place.InTag : Place → OpenTag → Prop where
  | name {read : List Char} {value : Option Value}
      (h : (read.all Text.isBlank && value.isNone) = false) :
      InTag (.tagStart read value) ⟨nameOf read value, .empty⟩
  | prop {tag : OpenTag} {read : List Char} : InTag (.propName tag read) (tag.flag read)

theorem Place.inTag_of_tag (tag : OpenTag) : Place.InTag (.propName tag []) tag := by
  have h : Place.InTag (.propName tag []) (tag.flag []) := .prop
  rwa [tag.flag_nil] at h

namespace Reader

@[simp] theorem place_goto (r : Reader) (pl : Place) : (r.goto pl).place = pl := rfl

@[simp] theorem goto_goto (r : Reader) (pl pl' : Place) : (r.goto pl).goto pl' = r.goto pl' := rfl

@[simp] theorem enter_goto (r : Reader) (pl : Place) (tag : OpenTag) :
    (r.goto pl).enter tag = r.enter tag := rfl

@[simp] theorem push_goto (r : Reader) (pl : Place) (v : Value) :
    (r.goto pl).push v = (r.push v).goto pl := by
  obtain ⟨place, frames, items⟩ := r
  cases frames <;> rfl

variable (components : Components) {pl : Place} {tag : OpenTag}

/-- Characters that are just kept where the reader is. -/
theorem readOut_kept (place : List Char → Place) {cs : List Char}
    (hcs : ∀ c ∈ cs, ∀ (r : Reader) (read : List Char) (next : Option Char),
      (r.goto (place read)).step components c next = .ok (r.goto (place (c :: read)), false))
    (r : Reader) (read : List Char) (ps : List Piece) :
    (r.goto (place read)).readOut components (chars cs ++ ps) =
      (r.goto (place (cs.reverse ++ read))).readOut components ps := by
  induction cs generalizing read with
  | nil => rfl
  | cons c cs ih =>
      rw [chars_cons, List.cons_append, readOut_char, hcs c (List.mem_cons_self ..)]
      dsimp only
      rw [if_neg Bool.false_ne_true, ih fun d hd => hcs d (List.mem_cons_of_mem _ hd),
        List.reverse_cons, List.append_assoc]
      rfl

/-- A blank in a tag ends what is being read. -/
theorem readOut_blank (h : pl.InTag tag) (r : Reader) {c : Char} (hc : Text.isBlank c = true)
    (ps : List Piece) :
    (r.goto pl).readOut components (.char c :: ps) =
      (r.goto (.propName tag [])).readOut components ps := by
  have hslash : c ≠ '/' := by
    rintro rfl
    cases hc
  have hclose : c ≠ '>' := by
    rintro rfl
    cases hc
  have hequals : c ≠ '=' := by
    rintro rfl
    cases hc
  rw [readOut_char]
  cases h with
  | name hname => simp [step, hslash, hclose, hc, hname]
  | prop => simp [step, hslash, hclose, hequals, hc]

theorem readOut_enter (h : pl.InTag tag) (r : Reader) (ps : List Piece) :
    (r.goto pl).readOut components (.char '>' :: ps) = (r.enter tag).readOut components ps := by
  rw [readOut_char]
  cases h with
  | name hname => simp [step]
  | prop => simp [step]

/-- The end of a tag that closes itself. -/
theorem readOut_close (h : pl.InTag tag) (r : Reader) (ps : List Piece) :
    (r.goto pl).readOut components (.char '/' :: .char '>' :: ps) =
      tag.make components [] >>= fun v => ((r.push v).goto (.text [])).readOut components ps := by
  have hstep : (r.goto pl).step components '/' (some '>') =
      ((r.goto pl).pushEmpty components tag).map (·, true) := by
    cases h with
    | name hname => simp [step, hname]
    | prop => simp [step]
  rw [readOut_char, next, hstep, pushEmpty]
  cases tag.make components [] with
  | error e => rfl
  | ok v =>
      simp only [push_goto, goto_goto]
      rfl

/-- Blanks in front of an attribute are passed over. -/
theorem readOut_blanks (tag : OpenTag) (r : Reader) {cs : List Char}
    (hcs : cs.all Text.isBlank = true) (ps : List Piece) :
    (r.goto (.propName tag [])).readOut components (chars cs ++ ps) =
      (r.goto (.propName tag [])).readOut components ps := by
  induction cs with
  | nil => rfl
  | cons c cs ih =>
      obtain ⟨hc, hcs⟩ := Bool.and_eq_true_iff.1 hcs
      rw [chars_cons, List.cons_append, readOut_blank components (Place.inTag_of_tag tag) r hc,
        ih hcs]

theorem readOut_gap (h : pl.InTag tag) (r : Reader) (gap : Gap) (ps : List Piece) :
    (r.goto pl).readOut components (chars gap.chars ++ ps) =
      (r.goto (.propName tag [])).readOut components ps := by
  have hblank := gap.blank
  cases hcs : gap.chars with
  | nil => exact absurd hcs gap.ne_nil
  | cons c cs =>
      rw [hcs] at hblank
      obtain ⟨hc, hcs⟩ := Bool.and_eq_true_iff.1 hblank
      rw [chars_cons, List.cons_append, readOut_blank components h r hc,
        readOut_blanks components tag r hcs]

/-- Blanks before the end of a tag leave what it says. -/
theorem readOut_end (h : pl.InTag tag) (bs : Blanks) :
    ∃ pl', Place.InTag pl' tag ∧ ∀ (r : Reader) ps,
      (r.goto pl).readOut components (chars bs.chars ++ ps) =
        (r.goto pl').readOut components ps := by
  by_cases hnil : bs.chars = []
  · refine ⟨pl, h, fun r ps => ?_⟩
    rw [hnil]
    rfl
  · exact ⟨_, Place.inTag_of_tag tag, fun r ps => readOut_gap components h r ⟨bs, hnil⟩ ps⟩

/-! ## Attributes -/

theorem isWordChar_ne {c d : Char} (h : isWordChar c = true) (hd : isWordChar d = false) :
    c ≠ d := by
  rintro rfl
  rw [h] at hd
  cases hd

theorem readOut_name (tag : OpenTag) (r : Reader) {cs : List Char}
    (hcs : ∀ c ∈ cs, isWordChar c = true) (ps : List Piece) :
    (r.goto (.propName tag [])).readOut components (chars cs ++ ps) =
      (r.goto (.propName tag cs.reverse)).readOut components ps := by
  have hkept := readOut_kept components (.propName tag) fun c (hc : c ∈ cs) r read next => by
    have hword := hcs c hc
    simp [step, isWordChar_ne hword (d := '/') rfl, isWordChar_ne hword (d := '>') rfl,
      isWordChar_ne hword (d := '=') rfl, isBlank_of_isWordChar hword]
  rw [hkept, List.append_nil]

/-- A literal is read up to its quote. -/
theorem readOut_literal (tag : OpenTag) (name : String) (r : Reader) (quote : Quote)
    {cs : List Char} (hcs : quote.char ∉ cs) (ps : List Piece) :
    (r.goto (.propValue tag name quote.char [])).readOut components
        (chars cs ++ .char quote.char :: ps) =
      (r.goto (.propName (tag.set name (.str (String.ofList cs))) [])).readOut components ps := by
  have hkept := readOut_kept components (.propValue tag name quote.char)
    fun c (hc : c ∈ cs) r read next => by
      have hne : quote.char ≠ c := fun he => hcs (he ▸ hc)
      simp [step, hne]
  rw [hkept, List.append_nil, readOut_char]
  simp [step, textOf_reverse]

/-- An equals sign takes the quote behind it along. -/
theorem readOut_equals_quote (tag : OpenTag) (r : Reader) (read : List Char) (quote : Quote)
    (ps : List Piece) :
    (r.goto (.propName tag read)).readOut components (.char '=' :: .char quote.char :: ps) =
      (r.goto (.propValue tag (wordOf read) quote.char [])).readOut components ps := by
  rw [readOut_char]
  cases quote <;> rfl

theorem readOut_equals_value (tag : OpenTag) (r : Reader) (read : List Char) (v : Value)
    (ps : List Piece) :
    (r.goto (.propName tag read)).readOut components (.char '=' :: .value v :: ps) =
      (r.goto (.propName (tag.set (wordOf read) v) [])).readOut components ps := by
  have hstep : (r.goto (.propName tag read)).step components '=' none =
      .ok (r.goto (.propValue tag (wordOf read) none []), false) := rfl
  have hnext : next (.value v :: ps) = none := rfl
  rw [readOut_char, hnext, hstep]
  dsimp only
  rw [if_neg Bool.false_ne_true, readOut_value]
  exact congrArg _ (unquote_none ps)

theorem readOut_quoted_value (tag : OpenTag) (name : String) (r : Reader) (quote : Quote)
    (v : Value) (ps : List Piece) :
    (r.goto (.propValue tag name quote.char [])).readOut components
        (.value v :: .char quote.char :: ps) =
      (r.goto (.propName (tag.set name v) [])).readOut components ps := by
  rw [readOut_value]
  exact congrArg _ (if_pos rfl)

theorem readOut_spread (tag : OpenTag) (r : Reader) (v : Value) (ps : List Piece) :
    (r.goto (.propName tag [])).readOut components (chars ['.', '.', '.'] ++ .value v :: ps) =
      (r.goto (.propName (tag.spread v) [])).readOut components ps := by
  have hdots : ∀ c ∈ ['.', '.', '.'], isWordChar c = true := by
    intro c hc
    obtain rfl : c = '.' := by simpa using hc
    rfl
  have hword : wordOf ['.', '.', '.'] = "..." := by decide
  rw [readOut_name components tag r hdots, readOut_value]
  have hembed : (r.goto (.propName tag ['.', '.', '.'])).embed v =
      (r.goto (.propName (tag.spread v) []), none) := by
    rw [embed, place_goto]
    dsimp only
    rw [if_pos hword]
    rfl
  have hread : ['.', '.', '.'].reverse = ['.', '.', '.'] := rfl
  rw [hread, hembed]
  exact congrArg _ (unquote_none ps)

theorem readOut_attr (tag : OpenTag) (a : Attr) :
    ∃ pl', Place.InTag pl' ⟨tag.name, a.set tag.props⟩ ∧ ∀ (r : Reader) ps,
      (r.goto (.propName tag [])).readOut components (a.pieces ++ ps) =
        (r.goto pl').readOut components ps := by
  cases a with
  | flag name =>
      refine ⟨.propName tag name.chars.reverse, ?_, fun r ps => ?_⟩
      · have h : Place.InTag (.propName tag name.chars.reverse) (tag.flag name.chars.reverse) :=
          .prop
        rwa [tag.flag_word] at h
      · rw [Attr.pieces, readOut_name components tag r name.plain]
  | literal name quote text h =>
      refine ⟨_, Place.inTag_of_tag _, fun r ps => ?_⟩
      have hpieces : Attr.pieces (.literal name quote text h) ++ ps = chars name.chars ++
          .char '=' :: .char quote.char :: (chars text ++ .char quote.char :: ps) := by
        simp [Attr.pieces, chars]
      rw [hpieces, readOut_name components tag r name.plain, readOut_equals_quote,
        readOut_literal components tag _ r quote h, wordOf_word]
      rfl
  | value name quote v =>
      refine ⟨_, Place.inTag_of_tag _, fun r ps => ?_⟩
      cases quote with
      | none =>
          have hpieces : Attr.pieces (.value name none v) ++ ps = chars name.chars ++
              .char '=' :: .value v :: ps := by
            simp [Attr.pieces, chars]
          rw [hpieces, readOut_name components tag r name.plain, readOut_equals_value,
            wordOf_word]
          rfl
      | some quote =>
          have hpieces : Attr.pieces (.value name (some quote) v) ++ ps = chars name.chars ++
              .char '=' :: .char quote.char :: .value v :: .char quote.char :: ps := by
            simp [Attr.pieces, chars]
          rw [hpieces, readOut_name components tag r name.plain, readOut_equals_quote,
            readOut_quoted_value, wordOf_word]
          rfl
  | spread v =>
      refine ⟨_, Place.inTag_of_tag _, fun r ps => ?_⟩
      have hspread : tag.spread v = ⟨tag.name, Attr.set tag.props (.spread v)⟩ := by
        cases v <;> rfl
      have hpieces : Attr.pieces (.spread v) ++ ps = chars ['.', '.', '.'] ++ .value v :: ps := rfl
      rw [hpieces, readOut_spread, hspread]

theorem readOut_attrs (as : List (Gap × Attr)) {pl : Place} {tag : OpenTag} (h : pl.InTag tag) :
    ∃ pl', Place.InTag pl' ⟨tag.name, as.foldl (fun p a => a.2.set p) tag.props⟩ ∧
      ∀ (r : Reader) ps, (r.goto pl).readOut components (Opening.attrPieces as ++ ps) =
        (r.goto pl').readOut components ps := by
  induction as generalizing pl tag with
  | nil => exact ⟨pl, h, fun r ps => rfl⟩
  | cons a as ih =>
      obtain ⟨gap, a⟩ := a
      obtain ⟨pl₁, h₁, hread₁⟩ := readOut_attr components tag a
      obtain ⟨pl₂, h₂, hread₂⟩ := ih h₁
      refine ⟨pl₂, h₂, fun r ps => ?_⟩
      rw [Opening.attrPieces, List.append_assoc, List.append_assoc, readOut_gap components h,
        hread₁, hread₂]

/-! ## Opening tags -/

theorem readOut_word (r : Reader) {cs : List Char} (hcs : ∀ c ∈ cs, isWordChar c = true)
    (ps : List Piece) :
    (r.goto (.tagStart [] none)).readOut components (chars cs ++ ps) =
      (r.goto (.tagStart cs.reverse none)).readOut components ps := by
  have hkept := readOut_kept components (.tagStart · none) fun c (hc : c ∈ cs) r read next => by
    have hword := hcs c hc
    simp [step, isWordChar_ne hword (d := '/') rfl, isWordChar_ne hword (d := '>') rfl,
      isBlank_of_isWordChar hword]
  rw [hkept, List.append_nil]

theorem readOut_label (l : Label) :
    ∃ pl, Place.InTag pl ⟨l.tagName, .empty⟩ ∧ ∀ (r : Reader) ps,
      (r.goto (.tagStart [] none)).readOut components (l.pieces ++ ps) =
        (r.goto pl).readOut components ps := by
  cases l with
  | word w =>
      refine ⟨.tagStart w.chars.reverse none, ?_, fun r ps => ?_⟩
      · have h : (w.chars.reverse.all Text.isBlank && (none : Option Value).isNone) = false := by
          rw [w.not_all_blank]
          rfl
        have hname : nameOf w.chars.reverse none = .literal w.text := by rw [nameOf, wordOf_word]
        have hin := Place.InTag.name h
        rwa [hname] at hin
      · rw [Label.pieces, readOut_word components r w.plain]
  | value v hv =>
      refine ⟨.tagStart [] (some v), .name rfl, fun r ps => ?_⟩
      have hpieces : Label.pieces (.value v hv) ++ ps = .value v :: ps := rfl
      rw [hpieces, readOut_value]
      exact congrArg _ (unquote_none ps)

/-- An opening tag is read up to its end. -/
theorem readOut_opening (t : Opening) :
    ∃ pl, Place.InTag pl ⟨t.name.tagName, t.props⟩ ∧ ∀ (r : Reader) ps,
      (r.goto (.tagStart [] none)).readOut components (t.pieces ++ ps) =
        (r.goto pl).readOut components ps := by
  obtain ⟨pl₁, h₁, hread₁⟩ := readOut_label components t.name
  obtain ⟨pl₂, h₂, hread₂⟩ := readOut_attrs components t.attrs h₁
  obtain ⟨pl₃, h₃, hread₃⟩ := readOut_end components h₂ t.blanks
  refine ⟨pl₃, h₃, fun r ps => ?_⟩
  rw [Opening.pieces, List.append_assoc, List.append_assoc, hread₁, hread₂, hread₃]

end Reader

end LiveMarkup.Template
