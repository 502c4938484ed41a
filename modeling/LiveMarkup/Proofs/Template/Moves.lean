import LiveMarkup.Proofs.Template.Pieces
import Mathlib.Tactic.SplitIfs

/-!
# Moves of a reader

What a reader does for one character is a `Move` that its place, the character and
the next one decide. So what holds of one character is shown once for the places
and once for the moves.

The names of the tags that are open or being read are one such thing. They come
from what was read in a tag and from the values embedded there, so a property that
no further character takes from a name is kept by a whole run (`Reader.Named`).
-/

namespace LiveMarkup.Template

/-! ## Modes -/

/-- The kinds of places. -/
inductive Mode where
  | text
  | tagStart
  | tagEnd
  | propName
  | propValue
  deriving DecidableEq

/-- The kind of a place. -/
def Place.mode : Place → Mode
  | .text _ => .text
  | .tagStart _ _ => .tagStart
  | .tagEnd _ _ => .tagEnd
  | .propName _ _ => .propName
  | .propValue _ _ _ _ => .propValue

/-- The kind of place where a reader meets the value with a number, if it gets that
far. -/
def Reader.modeAt? (components : Components) (r : Reader) (quote : Option Char)
    (segments : List (List Char)) (values : List Value) (i : Nat) : Option Mode :=
  if i < segments.length ∧ i < values.length then
    (r.readAll components quote (segments.take (i + 1)) (values.take i)).toOption.map
      (·.place.mode)
  else none

/-- The kind of place where the value with a number stands in a template, as long
as nothing has been refused before it. -/
def modeAt? (components : Components) (segments : List String) (values : List Value) (i : Nat) :
    Option Mode :=
  ({} : Reader).modeAt? components none (segments.map String.toList) values i

namespace Reader

variable (components : Components)

theorem modeAt?_zero (r : Reader) (quote : Option Char) (segment : List Char)
    (segments : List (List Char)) (v : Value) (values : List Value) :
    r.modeAt? components quote (segment :: segments) (v :: values) 0 =
      (r.read components (dropQuote quote segment)).toOption.map (·.place.mode) := by
  have hreached : 0 < (segment :: segments).length ∧ 0 < (v :: values).length :=
    ⟨Nat.succ_pos _, Nat.succ_pos _⟩
  rw [modeAt?, if_pos hreached, List.take_zero, List.take_succ_cons, List.take_zero, readAll_cons]
  cases r.read components (dropQuote quote segment) <;> rfl

theorem modeAt?_succ (r : Reader) (quote : Option Char) (segment : List Char)
    (segments : List (List Char)) (v : Value) (values : List Value) (i : Nat) :
    r.modeAt? components quote (segment :: segments) (v :: values) (i + 1) =
      match r.read components (dropQuote quote segment) with
      | .error _ => none
      | .ok r => (r.embed v).1.modeAt? components (r.embed v).2 segments values i := by
  rw [modeAt?, List.take_succ_cons, List.take_succ_cons, readAll_cons]
  simp only [List.length_cons, Nat.add_lt_add_iff_right]
  cases r.read components (dropQuote quote segment) with
  | error e => exact ite_self _
  | ok r => rfl

theorem modeAt?_of_le (r : Reader) (quote : Option Char) (segments : List (List Char))
    {values : List Value} {i : Nat} (h : values.length ≤ i) :
    r.modeAt? components quote segments values i = none :=
  if_neg fun hi => Nat.not_lt.2 h hi.2

theorem modeAt?_nil (r : Reader) (quote : Option Char) (segments : List (List Char)) (i : Nat) :
    r.modeAt? components quote segments [] i = none :=
  r.modeAt?_of_le components quote segments (Nat.zero_le i)

end Reader

/-! ## Moves -/

/-- What a reader does for a character. -/
inductive Move where
  | goto (pl : Place) (both : Bool)
  | openTag (read : List Char)
  | empty (tag : OpenTag)
  | enter (tag : OpenTag)
  | leave (name : TagName)

/-- What a reader does in a place for a character, given the next one. -/
def Place.move (c : Char) (next : Option Char) : Place → Move
  | .text read => if c = '<' then .openTag read else .goto (.text (c :: read)) false
  | .tagStart read value =>
    let fresh := read.all Text.isBlank && value.isNone
    let tag : OpenTag := ⟨nameOf read value, .empty⟩
    if c = '/' && fresh then .goto (.tagEnd [] none) false
    else if c = '/' && next = some '>' then .empty tag
    else if c = '>' then .enter tag
    else if Text.isBlank c then
      .goto (if fresh then .tagStart read value else .propName tag []) false
    else .goto (.tagStart (c :: read) value) false
  | .tagEnd read value =>
    if c = '>' then .leave (nameOf read value) else .goto (.tagEnd (c :: read) value) false
  | .propName tag read =>
    if c = '/' && next = some '>' then .empty (tag.flag read)
    else if c = '>' then .enter (tag.flag read)
    else if c = '=' then
      let quote := next.filter fun q => q == '"' || q == '\''
      .goto (.propValue tag (wordOf read) quote []) quote.isSome
    else if Text.isBlank c then .goto (.propName (tag.flag read) []) false
    else .goto (.propName tag (c :: read)) false
  | .propValue tag name quote read =>
    if quote = some c then .goto (.propName (tag.set name (.str (textOf read))) []) false
    else .goto (.propValue tag name quote (c :: read)) false

namespace Move

/-- A reader after a move, and whether the next character has been read as well. -/
def act (components : Components) (r : Reader) : Move → Except MarkupError (Reader × Bool)
  | .goto pl both => .ok (r.goto pl, both)
  | .openTag read => .ok ((r.pushText read).goto (.tagStart [] none), false)
  | .empty tag => (r.pushEmpty components tag).map (·, true)
  | .enter tag => .ok (r.enter tag, false)
  | .leave name => (r.leave components name).map (·, false)

end Move

theorem Reader.step_eq_act (components : Components) (r : Reader) (c : Char)
    (next : Option Char) : r.step components c next = (r.place.move c next).act components r := by
  obtain ⟨place, frames, items⟩ := r
  cases place <;> dsimp only [step, Place.move] <;> split_ifs <;> rfl

theorem OpenTag.name_flag (tag : OpenTag) (read : List Char) : (tag.flag read).name = tag.name := by
  rw [flag]
  split <;> rfl

namespace Reader

variable {components : Components} {r : Reader}

theorem leave_of_frames {f : Frame} {fs : List Frame} (hr : r.frames = f :: fs) (name : TagName) :
    r.leave components name =
      if f.tag.name.same name then
        (f.tag.make components f.children).map fun v =>
          ({ r with frames := fs }.push v).goto (.text [])
      else .error (.unexpectedClosingTag f.tag.name.shown name.shown) := by
  rw [leave, hr]

end Reader

/-! ## Names of tags -/

/-- The name that has been read of a tag in which the reader is. -/
def Place.name? : Place → Option TagName
  | .tagStart read value => some (nameOf read value)
  | .propName tag _ => some tag.name
  | .propValue tag _ _ _ => some tag.name
  | _ => none

/-- The name of the tag that a move is about, as far as it has been read. -/
def Move.name? : Move → Option TagName
  | .goto pl _ => pl.name?
  | .empty tag => some tag.name
  | .enter tag => some tag.name
  | _ => none

/-- All tags that are open or being read have a name with a property. -/
structure Reader.Named (P : TagName → Prop) (r : Reader) : Prop where
  place : ∀ name ∈ r.place.name?, P name
  frames : ∀ f ∈ r.frames, P f.tag.name

/-- A property of names that is there before a name is read, and that no character of a
name takes away. -/
structure TagName.Kept (P : TagName → Prop) : Prop where
  fresh : P (nameOf [] none)
  keep (c : Char) (read : List Char) (value : Option Value) :
    c ≠ '>' → Text.isBlank c = false → P (nameOf read value) → P (nameOf (c :: read) value)

variable {P : TagName → Prop}

/-- A move is about no other tag than the one that is being read. -/
theorem Place.name?_move (hP : TagName.Kept P) {pl : Place} (h : ∀ name ∈ pl.name?, P name)
    (c : Char) (next : Option Char) : ∀ name ∈ (pl.move c next).name?, P name := by
  cases pl with
  | tagStart read value =>
      have hname : P (nameOf read value) := h _ rfl
      have hkeep := hP.keep c read value
      dsimp only [move]
      split_ifs <;> simp_all [Move.name?, name?]
  | propName tag read =>
      have hname : P tag.name := h _ rfl
      dsimp only [move]
      split_ifs <;> simp [Move.name?, name?, OpenTag.name_flag, hname]
  | propValue tag name quote read =>
      have hname : P tag.name := h _ rfl
      dsimp only [move]
      split_ifs <;> simp [Move.name?, name?, OpenTag.set, hname]
  | _ =>
      dsimp only [move]
      split_ifs <;> simp [Move.name?, name?]

namespace Reader

variable {components : Components} {r r' : Reader}

theorem Named.goto (h : r.Named P) {pl : Place} (hpl : ∀ name ∈ pl.name?, P name) :
    (r.goto pl).Named P :=
  ⟨hpl, h.frames⟩

theorem Named.text (h : r.Named P) (read : List Char) : (r.goto (.text read)).Named P :=
  h.goto nofun

theorem Named.push (h : r.Named P) (v : Value) : (r.push v).Named P := by
  obtain ⟨place, frames, items⟩ := r
  cases frames with
  | nil => exact ⟨h.place, h.frames⟩
  | cons f fs =>
      refine ⟨h.place, fun g hg => ?_⟩
      rcases List.mem_cons.1 hg with rfl | hg
      · exact h.frames f (List.mem_cons_self ..)
      · exact h.frames g (List.mem_cons_of_mem _ hg)

theorem Named.pushText (h : r.Named P) (read : List Char) : (r.pushText read).Named P := by
  rw [Reader.pushText]
  split
  · exact h
  · exact h.push _

theorem Named.act (hP : TagName.Kept P) (h : r.Named P) {m : Move} (hm : ∀ name ∈ m.name?, P name)
    {both : Bool} (hact : m.act components r = .ok (r', both)) : r'.Named P := by
  cases m with
  | goto pl both =>
      cases hact
      exact h.goto hm
  | openTag read =>
      cases hact
      refine (h.pushText read).goto fun name hname => ?_
      cases hname
      exact hP.fresh
  | empty tag =>
      cases hv : tag.make components [] with
      | error e => rw [Move.act, pushEmpty, hv] at hact; cases hact
      | ok v =>
          rw [Move.act, pushEmpty, hv] at hact
          cases hact
          exact (h.push v).text []
  | enter tag =>
      cases hact
      refine ⟨nofun, fun f hf => ?_⟩
      rcases List.mem_cons.1 hf with rfl | hf
      · exact hm _ rfl
      · exact h.frames f hf
  | leave name =>
      cases hr : r.frames with
      | nil => rw [Move.act, leave, hr] at hact; cases hact
      | cons f fs =>
          rw [Move.act, leave_of_frames hr] at hact
          split at hact
          · cases hv : f.tag.make components f.children with
            | error e => rw [hv] at hact; cases hact
            | ok v =>
                rw [hv] at hact
                cases hact
                have hrest : { r with frames := fs }.Named P :=
                  ⟨h.place, fun g hg => h.frames g (hr ▸ List.mem_cons_of_mem _ hg)⟩
                exact (hrest.push v).text []
          · cases hact

theorem Named.step (hP : TagName.Kept P) (h : r.Named P) {c : Char} {next : Option Char}
    {both : Bool} (hstep : r.step components c next = .ok (r', both)) : r'.Named P := by
  rw [step_eq_act] at hstep
  exact h.act hP (Place.name?_move hP h.place c next) hstep

/-- Embedding a value keeps the names of tags, if it may be one where it names a tag. -/
theorem Named.embed (h : r.Named P) {v : Value}
    (hv : r.place.mode = .tagStart → P (nameOf [] (some v))) : (r.embed v).1.Named P := by
  rw [Reader.embed]
  cases hr : r.place with
  | text read => exact ((h.pushText read).push v).text []
  | tagStart read value =>
      refine h.goto fun name hname => ?_
      obtain rfl := Option.some.inj hname
      exact hv (by rw [hr]; rfl)
  | tagEnd read value => exact h.goto nofun
  | propName tag read =>
      have htag : P tag.name := h.place _ (by rw [hr]; rfl)
      dsimp only
      split
      · refine h.goto fun name hname => ?_
        obtain rfl := Option.some.inj hname
        cases v <;> exact htag
      · exact h
  | propValue tag name quote read =>
      refine h.goto fun name' hname => ?_
      obtain rfl := Option.some.inj hname
      exact h.place _ (by rw [hr]; rfl)

theorem Named.read (hP : TagName.Kept P) : ∀ (cs : List Char) {r : Reader}, r.Named P →
    r.read components cs = .ok r' → r'.Named P
  | [], r, hr, h => by
      cases h
      exact hr
  | [c], r, hr, h => by
      rw [Reader.read] at h
      cases hstep : r.step components c none with
      | error e => rw [hstep] at h; cases h
      | ok s =>
          rw [hstep] at h
          cases h
          exact hr.step hP hstep
  | c :: d :: cs, r, hr, h => by
      rw [Reader.read] at h
      cases hstep : r.step components c (some d) with
      | error e => rw [hstep] at h; cases h
      | ok s =>
          rw [hstep] at h
          obtain ⟨s, both⟩ := s
          have hs := hr.step hP hstep
          cases both with
          | true => exact Named.read hP cs hs h
          | false => exact Named.read hP (d :: cs) hs h

/-- Where no value names a tag, all names have what the characters of a name keep. -/
theorem Named.readAll (hP : TagName.Kept P) (hr : r.Named P) {quote : Option Char}
    {segments : List (List Char)} {vs : List Value}
    (hvs : ∀ i, r.modeAt? components quote segments vs i ≠ some .tagStart)
    (h : r.readAll components quote segments vs = .ok r') : r'.Named P := by
  induction segments generalizing r quote vs with
  | nil =>
      cases h
      exact hr
  | cons segment segments ih =>
      rw [readAll_cons] at h
      cases hread : r.read components (dropQuote quote segment) with
      | error e => rw [hread] at h; cases h
      | ok s =>
          rw [hread] at h
          have hs := hr.read hP _ hread
          cases vs with
          | nil =>
              refine ih hs (fun i => ?_) h
              rw [modeAt?_nil]
              nofun
          | cons v vs =>
              refine ih (hs.embed fun hmode => ?_) (fun i => ?_) h
              · have hzero := hvs 0
                rw [modeAt?_zero, hread] at hzero
                exact absurd (congrArg some hmode) hzero
              · have hsucc := hvs (i + 1)
                rwa [modeAt?_succ, hread] at hsucc

end Reader

end LiveMarkup.Template
