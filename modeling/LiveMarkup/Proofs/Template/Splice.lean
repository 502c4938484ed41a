import LiveMarkup.Proofs.Template.Compile
import LiveMarkup.Proofs.Template.Resume
import Mathlib.Data.List.ModifyLast

/-!
# Templates in templates

A template that begins with a tag and closes what it opens reads on top of any open
elements as it reads on its own (`Reader.onTop`): it never gets at what is open below,
and what it gives goes where its items would go. So one that gives a single item may as
well be written at the place where that item is embedded in another template
(`compile_inPlace`).
-/

namespace LiveMarkup.Template

/-! ## Reading on top of open elements -/

namespace Reader

/-- A reader on top of another one. What it has finished belongs to the innermost element
that is open below, or to the items when none is. -/
def onTop (base r : Reader) : Reader :=
  { place := r.place
    frames := r.frames ++ (base.pushAll r.items).frames
    items := (base.pushAll r.items).items }

variable {components : Components} {r r' : Reader}

theorem onTop_start (base : Reader) : base.onTop {} = base.goto (.text []) := rfl

theorem onTop_item (base : Reader) (v : Value) :
    base.onTop { items := [v] } = (base.push v).goto (.text []) := rfl

@[simp] theorem place_onTop (base r : Reader) : (base.onTop r).place = r.place := rfl

@[simp] theorem onTop_goto (base r : Reader) (pl : Place) :
    base.onTop (r.goto pl) = (base.onTop r).goto pl := rfl

@[simp] theorem onTop_enter (base r : Reader) (tag : OpenTag) :
    base.onTop (r.enter tag) = (base.onTop r).enter tag := rfl

@[simp] theorem onTop_push (base r : Reader) (v : Value) :
    base.onTop (r.push v) = (base.onTop r).push v := by
  obtain ⟨place, frames, items⟩ := r
  cases frames with
  | cons f fs => rfl
  | nil =>
      have hitems : base.pushAll (items ++ [v]) = (base.pushAll items).push v :=
        pushAll_append base items [v]
      change base.onTop ⟨place, [], items ++ [v]⟩ = _
      rw [onTop, hitems, onTop, push, push]
      dsimp only [List.nil_append]
      cases (base.pushAll items).frames <;> rfl

@[simp] theorem onTop_pushText (base r : Reader) (read : List Char) :
    base.onTop (r.pushText read) = (base.onTop r).pushText read := by
  rw [pushText, pushText]
  split
  · rfl
  · exact onTop_push base r _

theorem onTop_leave (base : Reader) {name : TagName} (h : r.leave components name = .ok r') :
    (base.onTop r).leave components name = .ok (base.onTop r') := by
  obtain ⟨place, frames, items⟩ := r
  cases frames with
  | nil => cases h
  | cons f fs =>
      have hbase : (base.onTop ⟨place, f :: fs, items⟩).frames =
          f :: (fs ++ (base.pushAll items).frames) := rfl
      rw [leave_of_frames rfl] at h
      rw [leave_of_frames hbase]
      split at h
      · rw [if_pos ‹_›]
        cases hv : f.tag.make components f.children with
        | error e => rw [hv] at h; cases h
        | ok v =>
            rw [hv] at h
            cases h
            have hpush := onTop_push base ⟨place, fs, items⟩ v
            exact congrArg (fun r : Reader => Except.ok (r.goto (.text []))) hpush.symm
      · cases h

theorem onTop_act (base : Reader) {m : Move} {both : Bool}
    (h : m.act components r = .ok (r', both)) :
    m.act components (base.onTop r) = .ok (base.onTop r', both) := by
  cases m with
  | goto pl both' =>
      cases h
      rfl
  | openTag read =>
      cases h
      rw [onTop_goto, onTop_pushText]
      rfl
  | enter tag =>
      cases h
      rfl
  | empty tag =>
      cases hv : tag.make components [] with
      | error e => rw [Move.act, pushEmpty, hv] at h; cases h
      | ok v =>
          rw [Move.act, pushEmpty, hv] at h ⊢
          cases h
          rw [onTop_goto, onTop_push]
          rfl
  | leave name =>
      cases hleave : r.leave components name with
      | error e => rw [Move.act, hleave] at h; cases h
      | ok s =>
          rw [Move.act, hleave] at h
          cases h
          rw [Move.act, onTop_leave base hleave]
          rfl

theorem onTop_step (base : Reader) {c : Char} {next : Option Char} {both : Bool}
    (h : r.step components c next = .ok (r', both)) :
    (base.onTop r).step components c next = .ok (base.onTop r', both) := by
  rw [step_eq_act] at h ⊢
  exact onTop_act base h

theorem onTop_read (base : Reader) : ∀ (cs : List Char) {r : Reader},
    r.read components cs = .ok r' → (base.onTop r).read components cs = .ok (base.onTop r')
  | [], r, h => by
      cases h
      rfl
  | [c], r, h => by
      rw [read] at h ⊢
      cases hstep : r.step components c none with
      | error e => rw [hstep] at h; cases h
      | ok s =>
          rw [hstep] at h
          cases h
          rw [onTop_step base hstep]
          rfl
  | c :: d :: cs, r, h => by
      rw [read] at h ⊢
      cases hstep : r.step components c (some d) with
      | error e => rw [hstep] at h; cases h
      | ok s =>
          rw [hstep] at h
          rw [onTop_step base hstep]
          obtain ⟨s, both⟩ := s
          cases both with
          | true => exact onTop_read base cs h
          | false => exact onTop_read base (d :: cs) h

theorem onTop_embed (base r : Reader) (v : Value) :
    (base.onTop r).embed v = (base.onTop (r.embed v).1, (r.embed v).2) := by
  rw [embed, embed, place_onTop]
  cases r.place with
  | text read => simp
  | propName tag read =>
      dsimp only
      split <;> rfl
  | _ => rfl

/-- What is read without a refusal is read in the same way on top of any reader. -/
theorem onTop_readAll (base : Reader) {quote : Option Char} {segments : List (List Char)}
    {vs : List Value} (h : r.readAll components quote segments vs = .ok r') :
    (base.onTop r).readAll components quote segments vs = .ok (base.onTop r') := by
  induction segments generalizing r quote vs with
  | nil =>
      cases h
      rfl
  | cons segment segments ih =>
      rw [readAll_cons] at h ⊢
      cases hread : r.read components (dropQuote quote segment) with
      | error e => rw [hread] at h; cases h
      | ok s =>
          rw [hread] at h
          rw [onTop_read base _ hread]
          cases vs with
          | nil => exact ih h
          | cons v vs =>
              dsimp only at h ⊢
              rw [onTop_embed]
              exact ih h

/-! ## Where an item is embedded -/

/-- At a place in a text, reading goes on from the reader that the segments and values in
front of it give, whatever the text goes on with. -/
theorem exists_of_modeAt? {pre post : List (List Char)} {a : List Char} {vs ws : List Value}
    (hpre : vs.length = pre.length)
    (h : r.modeAt? components none (pre ++ a :: post) (vs ++ ws) pre.length = some .text) :
    ∃ (r' : Reader) (read : List Char), r'.place = .text read ∧ ∀ d segments values,
      r.readAll components none (pre ++ (a ++ d) :: segments) (vs ++ values) =
        r'.readAll components none (d :: segments) values := by
  have hsegments : (pre ++ a :: post).take (pre.length + 1) = pre ++ [a] := by
    rw [List.take_length_add_append, List.take_succ_cons, List.take_zero]
  have hvalues : (vs ++ ws).take pre.length = vs := by rw [← hpre, List.take_left]
  rw [modeAt?, hsegments, hvalues] at h
  split at h
  · cases hread : r.readAll components none (pre ++ [a]) vs with
    | error e => rw [hread] at h; cases h
    | ok r' =>
        rw [hread] at h
        have hmode : r'.place.mode = .text := Option.some.inj h
        obtain ⟨read, hr'⟩ := Place.exists_of_mode hmode
        refine ⟨r', read, hr', fun d segments values => ?_⟩
        exact readAll_append_of_text hread hmode (absurd rfl) hpre.le
          (fun h => absurd hpre h.ne) d segments
  · cases h

/-- A tag ends the text in front of it. -/
theorem readAll_open {read : List Char} (hr : r.place = .text read) (cs : List Char)
    (segments : List (List Char)) (vs : List Value) :
    r.readAll components none (('<' :: cs) :: segments) vs =
      ((r.pushText read).goto (.text [])).readAll components none (('<' :: cs) :: segments) vs := by
  have hstep : ∀ next, r.step components '<' next =
      ((r.pushText read).goto (.text [])).step components '<' next := by
    intro next
    have hnil : ∀ r : Reader, r.pushText [] = r := fun r => rfl
    simp [step, hr, hnil]
  rw [readAll_cons, readAll_cons, dropQuote_none, read_cons, read_cons, hstep]

/-- Written in a text, a template with a single item leads where that item embedded
there leads. -/
theorem readAll_inPlace {read : List Char} (hr : r.place = .text read) {t : List Char}
    {ts : List (List Char)} {us : List Value} {x : Value} (htag : t.head? = some '<')
    (hlength : us.length = ts.length)
    (hinner : ({} : Reader).readAll components none (t :: ts) us = .ok { items := [x] })
    (b : List Char) (post : List (List Char)) (ws : List Value) :
    r.readAll components none ((t :: ts).modifyLast (· ++ b) ++ post) (us ++ ws) =
      (r.embed x).1.readAll components none (b :: post) ws := by
  have hembed : (r.embed x).1 = ((r.pushText read).push x).goto (.text []) := by
    rw [embed, hr]
  have hread : r.readAll components none (t :: ts) us = .ok (r.embed x).1 := by
    obtain ⟨cs, rfl⟩ : ∃ cs, t = '<' :: cs := List.head?_eq_some_iff.1 htag
    rw [readAll_open hr, hembed]
    have hrun := onTop_readAll (r.pushText read) hinner
    rwa [onTop_start, onTop_item] at hrun
  obtain ⟨init, l, hts⟩ : ∃ init l, t :: ts = init ++ [l] :=
    ⟨_, _, (List.dropLast_concat_getLast (List.cons_ne_nil t ts)).symm⟩
  have hinit : us.length = init.length := by
    have hcount := congrArg List.length hts
    rw [List.length_cons, List.length_append, List.length_singleton] at hcount
    omega
  rw [hts] at hread ⊢
  rw [List.modifyLast_concat, List.append_assoc]
  refine readAll_append_of_text hread ?_ (absurd rfl) hinit.le (fun h => absurd hinit h.ne) b post
  rw [hembed]
  rfl

end Reader

/-! ## Templates in place -/

/-- The segments of a template, written in the middle of a segment between its two
parts. -/
def inPlace (a b : String) (segments : List String) : List String :=
  (segments.modifyLast (· ++ b)).modifyHead (a ++ ·)

/-- Behind the last character of a template the reader is in a text of which it has read
nothing, and no element is open. -/
def ClosesAll (components : Components) (segments : List String) (values : List Value) : Prop :=
  ∃ items, ({} : Reader).readAll components none (segments.map String.toList) values =
    .ok { items := items }

/-- Written in place, the first segment goes on behind the one part and the last one
goes on with the other. -/
theorem toList_inPlace (a b : String) {segments : List String} (h : segments ≠ []) :
    ∃ t ts, (segments.map String.toList).modifyLast (· ++ b.toList) = t :: ts ∧
      (inPlace a b segments).map String.toList = (a.toList ++ t) :: ts := by
  obtain ⟨init, l, rfl⟩ : ∃ init l, segments = init ++ [l] :=
    ⟨_, _, (List.dropLast_concat_getLast h).symm⟩
  rw [inPlace, List.map_append, List.map_singleton, List.modifyLast_concat,
    List.modifyLast_concat]
  cases init with
  | nil => exact ⟨_, _, rfl, by simp⟩
  | cons s init => exact ⟨_, _, rfl, by simp⟩

/-- A template that begins with a tag, closes what it opens and gives a single item may
be written in a text of another template instead of embedding that item there. -/
theorem compile_inPlace (components : Components) {t : String} {ts : List String}
    {us : List Value} {x : Value} (hlength : us.length = ts.length)
    (htag : t.toList.head? = some '<') (hcloses : ClosesAll components (t :: ts) us)
    (hitem : compile components (t :: ts) us = .ok [x]) (pre post : List String) (a b : String)
    (vs ws : List Value) (hpre : vs.length = pre.length)
    (htext : modeAt? components (pre ++ a :: b :: post) (vs ++ x :: ws) pre.length =
      some .text) :
    compile components (pre ++ a :: b :: post) (vs ++ x :: ws) =
      compile components (pre ++ (inPlace a b (t :: ts) ++ post)) (vs ++ (us ++ ws)) := by
  have hpre' : vs.length = (pre.map String.toList).length := by rw [hpre, List.length_map]
  obtain ⟨r, read, hr, happend⟩ : ∃ (r : Reader) (read : List Char), r.place = .text read ∧
      ∀ d segments values, ({} : Reader).readAll components none
          (pre.map String.toList ++ (a.toList ++ d) :: segments) (vs ++ values) =
        r.readAll components none (d :: segments) values := by
    rw [modeAt?, List.map_append, List.map_cons, ← List.length_map String.toList] at htext
    exact Reader.exists_of_modeAt? (by rw [hpre, List.length_map]) htext
  have hinner : ({} : Reader).readAll components none (t.toList :: ts.map String.toList) us =
      .ok { items := [x] } := by
    obtain ⟨items, hitems⟩ := hcloses
    rw [compile, hitems] at hitem
    have hone : items ++ [] = [x] := Except.ok.inj hitem
    rw [List.append_nil] at hone
    rw [← hone]
    exact hitems
  have hembedded : ({} : Reader).readAll components none
      ((pre ++ a :: b :: post).map String.toList) (vs ++ x :: ws) =
        (r.embed x).1.readAll components none (b.toList :: post.map String.toList) ws := by
    have hquote : (r.embed x).2 = none := by rw [Reader.embed, hr]
    rw [List.map_append, List.map_cons, List.map_cons, ← List.append_nil a.toList, happend,
      Reader.readAll_cons, ← hquote]
    rfl
  have hwritten : ({} : Reader).readAll components none
      ((pre ++ (inPlace a b (t :: ts) ++ post)).map String.toList) (vs ++ (us ++ ws)) =
        (r.embed x).1.readAll components none (b.toList :: post.map String.toList) ws := by
    obtain ⟨t', ts', hts, hplace⟩ := toList_inPlace a b (List.cons_ne_nil t ts)
    rw [List.map_append, List.map_append, hplace, List.cons_append, happend, ← List.cons_append,
      ← hts]
    exact Reader.readAll_inPlace hr htag (by rw [hlength, List.length_map]) hinner _ _ _
  rw [compile, compile, hembedded, hwritten]

/-- An entry of a list with its title and its text left open. -/
def entry : List String :=
  ["<li title='", "'>", "</li>"]

/-- The entry with a title and a text. -/
def entered : Value :=
  .node (.element "li" (OrderedMap.empty.insert "title" (.str "a")) [.text "b"])

theorem compile_inPlace_entry :
    ClosesAll (fun _ _ _ => .ok .null) entry [.str "a", .str "b"] ∧
      compile (fun _ _ _ => .ok .null) entry [.str "a", .str "b"] = .ok [entered] ∧
      modeAt? (fun _ _ _ => .ok .null) ["<ul class=", "> one", " two <hr ...", "/></ul>"]
        [.str "c", entered, .map .empty] 1 = some .text ∧
      compile (fun _ _ _ => .ok .null) ["<ul class=", "> one", " two <hr ...", "/></ul>"]
          [.str "c", entered, .map .empty] =
        compile (fun _ _ _ => .ok .null)
          ["<ul class=", "> one<li title='", "'>", "</li> two <hr ...", "/></ul>"]
          [.str "c", .str "a", .str "b", .map .empty] := by
  have hcloses : ClosesAll (fun _ _ _ => .ok .null) entry [.str "a", .str "b"] := ⟨_, rfl⟩
  have hitem : compile (fun _ _ _ => .ok .null) entry [.str "a", .str "b"] = .ok [entered] := rfl
  have htext : modeAt? (fun _ _ _ => .ok .null) ["<ul class=", "> one", " two <hr ...", "/></ul>"]
      [.str "c", entered, .map .empty] 1 = some .text := rfl
  have htag : "<li title='".toList.head? = some '<' := rfl
  exact ⟨hcloses, hitem, htext,
    compile_inPlace _ rfl htag hcloses hitem ["<ul class="] ["/></ul>"] "> one" " two <hr ..."
      [.str "c"] [.map .empty] rfl htext⟩

end LiveMarkup.Template
