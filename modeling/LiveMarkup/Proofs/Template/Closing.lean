import LiveMarkup.Proofs.Template.Compile
import LiveMarkup.Proofs.Template.Resume
import Mathlib.Data.List.ModifyLast

/-!
# Closing tags at the end

A template may leave elements open; they are closed with it. Reading their closing tags
in a text and closing them at the end make the same elements from the same children, the
innermost first, and stop at the same one that cannot be made (`Reader.readOut_closings`).

For that a closing tag has to be read as the name it was written for. A name that was
read from characters has none that would end its tag, and no blanks around it
(`TagName.Plain`); a value that names a tag may have both.
-/

namespace LiveMarkup.Template

open Piece

/-! ## Names that read back -/

/-- A name that was read from the characters of a tag. -/
def TagName.Plain (name : TagName) : Prop :=
  ∃ s, name = .literal s ∧ '>' ∉ s.toList ∧ Text.trim s = s

theorem TagName.kept_plain : TagName.Kept TagName.Plain := by
  have hmem : ∀ read : List Char, '>' ∈ (wordOf read).toList ↔ '>' ∈ read := by
    intro read
    rw [wordOf, textOf, Text.trim, String.toList_ofList, Text.mem_trimChars rfl,
      String.toList_ofList, List.mem_reverse]
  constructor
  · exact ⟨"", rfl, by simp, rfl⟩
  · rintro c read (_ | v) hc - ⟨s, hs, hclose, htrim⟩
    · obtain rfl := TagName.literal.inj hs
      refine ⟨wordOf (c :: read), rfl, ?_, Text.trim_trim _⟩
      rw [hmem] at hclose ⊢
      exact List.not_mem_cons_of_ne_of_not_mem hc.symm hclose
    · exact ⟨s, hs, hclose, htrim⟩

/-! ## Closing tags -/

/-- The closing tag of a name. -/
def TagName.closing (name : TagName) : String :=
  "</" ++ name.shown ++ ">"

/-- The closing tags of the elements that are open, the innermost first. -/
def Reader.closings (r : Reader) : String :=
  String.join (r.opened.map TagName.closing)

namespace Reader

variable {components : Components} {r : Reader}

/-- A last child is added to the innermost open element before that is closed, or to the
items. -/
theorem closeAll_push (components : Components) (r : Reader) (v : Value) :
    closeAll components (r.push v).items [] (r.push v).frames =
      closeAll components r.items [v] r.frames := by
  obtain ⟨place, frames, items⟩ := r
  cases frames with
  | nil => exact congrArg Except.ok (List.append_nil _)
  | cons f fs =>
      have hchildren : f.children ++ [v] ++ [] = f.children ++ [v] := List.append_nil _
      rw [push, closeAll, closeAll, hchildren]

theorem closings_cons (place : Place) (f : Frame) (fs : List Frame) (items : List Value) :
    closings ⟨place, f :: fs, items⟩ = f.tag.name.closing ++ closings ⟨place, fs, items⟩ :=
  String.join_cons ..

theorem closings_push (r : Reader) (v : Value) : (r.push v).closings = r.closings := by
  rw [closings, opened_push, closings]

/-- A closing tag that names the innermost open element makes it. -/
theorem readOut_closing (r : Reader) {f : Frame} {fs : List Frame} (hf : f.tag.name.Plain)
    (ps : List Piece) :
    ({ r with frames := f :: fs }.goto (.text [])).readOut components
        (chars f.tag.name.closing.toList ++ ps) =
      f.tag.make components f.children >>= fun v =>
        (({ r with frames := fs }.push v).goto (.text [])).readOut components ps := by
  obtain ⟨tag, children⟩ := f
  obtain ⟨s, hs, hclose, htrim⟩ := hf
  have hpieces : chars tag.name.closing.toList ++ ps =
      .char '<' :: .char '/' :: (chars s.toList ++ .char '>' :: ps) := by
    rw [hs]
    simp [TagName.closing, TagName.shown, chars]
  have hname : tag.name.same (nameOf (s.toList.reverse ++ []) none) = true := by
    rw [hs, List.append_nil, nameOf, wordOf, textOf_reverse, String.ofList_toList, htrim]
    exact beq_self_eq_true s
  rw [hpieces, readOut_open, readOut_slash, readOut_closing_chars components _ hclose]
  exact readOut_leave components r tag children fs hname ps

/-- Reading the closing tags of all that is open closes it as the end of the template
does. The induction is on how much is open, since an element that is closed becomes a
child of the next one. -/
theorem readOut_closings (hr : r.Named TagName.Plain) :
    (r.goto (.text [])).readOut components (chars r.closings.toList) =
      closeAll components r.items [] r.frames := by
  induction hopen : r.frames.length generalizing r with
  | zero =>
      obtain ⟨place, frames, items⟩ := r
      obtain rfl := List.length_eq_zero_iff.1 hopen
      rfl
  | succ n ih =>
      obtain ⟨place, _ | ⟨f, fs⟩, items⟩ := r
      · cases hopen
      have hchildren : f.children ++ [] = f.children := List.append_nil _
      have hrest : Named TagName.Plain ⟨place, fs, items⟩ :=
        ⟨hr.place, fun g hg => hr.frames g (List.mem_cons_of_mem _ hg)⟩
      rw [closings_cons, String.toList_append, chars_append]
      refine (readOut_closing ⟨place, f :: fs, items⟩ (hr.frames f (List.mem_cons_self ..))
        _).trans ?_
      rw [closeAll, hchildren]
      cases f.tag.make components f.children with
      | error e => rfl
      | ok v =>
          have hlength : (push ⟨place, fs, items⟩ v).frames.length = n := by
            have hpush : (push ⟨place, fs, items⟩ v).frames.length = fs.length := by
              cases fs <;> rfl
            rw [hpush]
            exact Nat.succ.inj hopen
          have hclosed := ih (hrest.push v) hlength
          rw [closings_push, closeAll_push] at hclosed
          exact hclosed

/-- So it does behind a text that has been read. -/
theorem readOut_closings_text {read : List Char} (hr : r.Named TagName.Plain)
    (hplace : r.place = .text read) :
    r.readOut components (chars r.closings.toList) = r.finish components := by
  have hgoto : r.goto (.text read) = r := by
    rw [goto, ← hplace]
  have hboundary : Boundary (chars r.closings.toList) := by
    intro c hc
    obtain ⟨place, _ | ⟨f, fs⟩, items⟩ := r
    · cases hc
    · rw [closings_cons, String.toList_append, TagName.closing, String.toList_append,
        String.toList_append] at hc
      exact (Option.some.inj hc).symm
  have hsettled : (r.pushText read).closings = r.closings := by
    rw [pushText]
    split
    · rfl
    · exact closings_push r _
  have hsettle := readOut_settle components r read hboundary
  have hclosed : ((r.pushText read).goto (.text [])).readOut components (chars r.closings.toList) =
      closeAll components (r.pushText read).items [] (r.pushText read).frames := by
    rw [← hsettled]
    exact readOut_closings (hr.pushText read)
  rw [hgoto, hclosed] at hsettle
  rw [hsettle, finish, hplace]

end Reader

/-- Writing out the closing tags of all elements that a template leaves open, behind the
text in which it ends, changes nothing, neither its items nor what it is refused for. No
value may name one of its tags, since only names that were written can be written
again. -/
theorem compile_closings (components : Components) {segments : List String} {values : List Value}
    (hfewer : values.length < segments.length)
    (hnone : ∀ i, modeAt? components segments values i ≠ some .tagStart) {r : Reader}
    (hread : ({} : Reader).readAll components none (segments.map String.toList) values = .ok r)
    (htext : r.place.mode = .text) :
    compile components (segments.modifyLast (· ++ r.closings)) values =
      compile components segments values := by
  have hstart : Reader.Named TagName.Plain {} := ⟨nofun, nofun⟩
  have hnamed : r.Named TagName.Plain := hstart.readAll TagName.kept_plain hnone hread
  obtain ⟨read, hplace⟩ := Place.exists_of_mode htext
  obtain ⟨init, l, rfl⟩ : ∃ init l, segments = init ++ [l] :=
    ⟨_, _, (List.dropLast_concat_getLast (List.ne_nil_of_length_pos (by omega))).symm⟩
  have hlength : values.length ≤ (init.map String.toList).length := by
    rw [List.length_append, List.length_singleton] at hfewer
    rw [List.length_map]
    exact Nat.le_of_lt_succ hfewer
  rw [List.map_append, List.map_singleton] at hread
  have hclosed := Reader.readAll_append_of_text hread htext (absurd rfl) hlength
    (fun _ => rfl) r.closings.toList []
  rw [List.append_nil, Reader.readAll_singleton, Reader.dropQuote_none] at hclosed
  rw [List.modifyLast_concat, compile, compile, List.map_append, List.map_append,
    List.map_singleton, List.map_singleton, String.toList_append, hread, hclosed]
  have hchars := Reader.readOut_chars components r r.closings.toList
  rw [Reader.readOut_closings_text hnamed hplace] at hchars
  dsimp only
  rw [hchars]
  cases r.read components r.closings.toList <;> rfl

/-- A list and an entry of it, both left open, the entry with a text. -/
def unfinished : Reader :=
  { place := .text ['o', 'w', 't']
    frames :=
      [⟨⟨.literal "li", .empty⟩, [.str "one "]⟩,
        ⟨⟨.literal "ul", OrderedMap.empty.insert "class" (.str "c")⟩, []⟩] }

theorem compile_closings_unfinished :
    ({} : Reader).readAll (fun _ _ _ => .ok .null) none
        (["<ul class=\"", "\"><li>", "two"].map String.toList) [.str "c", .str "one "] =
          .ok unfinished ∧
      unfinished.closings = "</li></ul>" ∧
      compile (fun _ _ _ => .ok .null) ["<ul class=\"", "\"><li>", "two</li></ul>"]
          [.str "c", .str "one "] =
        compile (fun _ _ _ => .ok .null) ["<ul class=\"", "\"><li>", "two"]
          [.str "c", .str "one "] := by
  have hread : ({} : Reader).readAll (fun _ _ _ => .ok .null) none
      (["<ul class=\"", "\"><li>", "two"].map String.toList) [.str "c", .str "one "] =
        .ok unfinished := rfl
  refine ⟨hread, rfl, compile_closings _ (by decide) (fun i => ?_) hread rfl⟩
  match i with
  | 0 => decide
  | 1 => decide
  | n + 2 =>
      rw [modeAt?, Reader.modeAt?_of_le _ _ _ _ (Nat.le_add_left 2 n)]
      exact nofun

end LiveMarkup.Template
