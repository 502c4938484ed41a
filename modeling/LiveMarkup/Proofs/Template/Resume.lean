import LiveMarkup.Proofs.Template.Moves

/-!
# Reading on from inside a text

A template may be cut inside one of its segments. A reader looks one character ahead,
so what stands in front of the cut could be read in another way once it is cut off; but
a reader that is in a text behind its last character has not looked ahead to get there
(`Place.move_eq`). From such a place it reads on as if a template began there
(`Reader.read_append`, `Reader.readAll_append`), and a refusal in front of the cut is
one however the template goes on.
-/

namespace LiveMarkup.Template

/-- Only in a tag does a move look at the next character, and without one it stays in
the tag. -/
theorem Place.move_eq (pl : Place) (c : Char) (next : Option Char) :
    pl.move c next = pl.move c none ∨
      ∃ pl', pl.move c none = .goto pl' false ∧ pl'.mode ≠ .text := by
  have hslash : Text.isBlank '/' = false := rfl
  cases pl with
  | text read => exact .inl rfl
  | tagEnd read value => exact .inl rfl
  | propValue tag name quote read => exact .inl rfl
  | tagStart read value =>
      by_cases hc : c = '/'
      · subst hc
        cases hfresh : read.all Text.isBlank && value.isNone with
        | true => simp [move, hfresh]
        | false => exact .inr ⟨.tagStart ('/' :: read) value, by simp [move, hfresh, hslash], nofun⟩
      · simp [move, hc]
  | propName tag read =>
      by_cases hc : c = '/'
      · subst hc
        exact .inr ⟨.propName tag ('/' :: read), by simp [move, hslash], nofun⟩
      · by_cases hequals : c = '='
        · subst hequals
          exact .inr ⟨.propValue tag (wordOf read) none [], by simp [move], nofun⟩
        · simp [move, hc, hequals]

theorem Place.exists_of_mode {pl : Place} (h : pl.mode = .text) : ∃ read, pl = .text read := by
  cases pl with
  | text read => exact ⟨read, rfl⟩
  | _ => cases h

namespace Reader

variable {components : Components} {r r' : Reader} {c : Char} {both : Bool}

/-- Without a next character no two are read at once. -/
theorem snd_of_step_none (h : r.step components c none = .ok (r', both)) : both = false := by
  have hleave : ∀ x : Except MarkupError Reader, x.map (·, false) = .ok (r', both) →
      both = false := by
    intro x hx
    cases x with
    | error e => cases hx
    | ok s =>
        cases hx
        rfl
  obtain ⟨place, frames, items⟩ := r
  cases place with
  | tagEnd read value =>
      dsimp only [step] at h
      split_ifs at h
      · exact hleave _ h
      · cases h
        rfl
  | _ =>
      simp only [step] at h
      split_ifs at h <;> simp_all

/-- A step that leads into a text does not look at the next character. -/
theorem step_of_text (h : r.step components c none = .ok (r', both)) (ht : r'.place.mode = .text)
    (next : Option Char) : r.step components c next = .ok (r', false) := by
  obtain rfl := snd_of_step_none h
  rw [step_eq_act] at h ⊢
  rcases r.place.move_eq c next with hmove | ⟨pl', hmove, hpl'⟩
  · rw [hmove, h]
  · rw [hmove] at h
    cases h
    exact absurd ht hpl'

/-- A step that is refused is refused whatever the next character. -/
theorem step_of_error {e : MarkupError} (h : r.step components c none = .error e)
    (next : Option Char) : r.step components c next = .error e := by
  rw [step_eq_act] at h ⊢
  rcases r.place.move_eq c next with hmove | ⟨pl', hmove, -⟩
  · rw [hmove, h]
  · rw [hmove] at h
    cases h

/-- Characters that lead into a text, or are refused, are read in the same way whatever
follows them. -/
theorem read_append : ∀ (cs ds : List Char) {r : Reader},
    (∀ r', r.read components cs = .ok r' → r'.place.mode = .text) →
      r.read components (cs ++ ds) = r.read components cs >>= fun r' => r'.read components ds
  | [], ds, r, _ => rfl
  | [c], ds, r, h => by
      rw [List.singleton_append, read_cons]
      cases hstep : r.step components c none with
      | error e =>
          rw [step_of_error hstep, read, hstep]
          rfl
      | ok s =>
          obtain ⟨r', both⟩ := s
          have hread : r.read components [c] = .ok r' := by
            rw [read, hstep]
            rfl
          rw [step_of_text hstep (h r' hread), hread]
          rfl
  | c :: d :: cs, ds, r, h => by
      rw [List.cons_append, List.cons_append, read, read]
      rw [read] at h
      cases hstep : r.step components c (some d) with
      | error e => rfl
      | ok s =>
          rw [hstep] at h
          obtain ⟨r', both⟩ := s
          cases both with
          | true => exact read_append cs ds h
          | false => exact read_append (d :: cs) ds h

/-- A quote that may still close a value is left in no text. -/
theorem mode_embed_of_quote {v : Value} (h : (r.embed v).2 ≠ none) :
    (r.embed v).1.place.mode ≠ .text := by
  rw [embed] at h ⊢
  cases hr : r.place with
  | propValue tag name quote read => exact Mode.noConfusion
  | _ =>
      rw [hr] at h
      exact absurd rfl h

theorem readAll_singleton (components : Components) (r : Reader) (quote : Option Char)
    (a : List Char) :
    r.readAll components quote [a] [] = r.read components (dropQuote quote a) := by
  rw [readAll_cons]
  cases r.read components (dropQuote quote a) <;> rfl

/-- Segments with values between them that lead into a text, or are refused, are read in
the same way whatever text, segments and values follow them. -/
theorem readAll_append {quote : Option Char} {pre : List (List Char)} {vs : List Value}
    (a d : List Char) (post : List (List Char)) (ws : List Value)
    (hlength : vs.length ≤ pre.length) (hws : vs.length < pre.length → ws = [])
    (hquote : quote ≠ none → r.place.mode ≠ .text)
    (htext : ∀ r', r.readAll components quote (pre ++ [a]) vs = .ok r' → r'.place.mode = .text) :
    r.readAll components quote (pre ++ (a ++ d) :: post) (vs ++ ws) =
      r.readAll components quote (pre ++ [a]) vs >>= fun r' =>
        r'.readAll components none (d :: post) ws := by
  induction pre generalizing r quote vs with
  | nil =>
      obtain rfl : vs = [] := List.length_eq_zero_iff.1 (Nat.le_zero.1 hlength)
      rw [List.nil_append, readAll_singleton] at htext
      have hdrop : dropQuote quote (a ++ d) = dropQuote quote a ++ d := by
        cases a with
        | cons c cs =>
            rw [List.cons_append, dropQuote, dropQuote]
            split <;> rfl
        | nil =>
            cases quote with
            | none => rw [dropQuote_none, dropQuote_none]
            | some q => exact absurd (htext r rfl) (hquote (Option.some_ne_none q))
      rw [List.nil_append, List.nil_append, List.nil_append, readAll_singleton, readAll_cons,
        hdrop, read_append _ _ htext]
      cases r.read components (dropQuote quote a) with
      | error e => rfl
      | ok r' =>
          change _ = r'.readAll components none (d :: post) ws
          rw [readAll_cons, dropQuote_none]
          rfl
  | cons s pre ih =>
      rw [List.cons_append, readAll_cons] at htext
      rw [List.cons_append, List.cons_append, readAll_cons, readAll_cons]
      cases hread : r.read components (dropQuote quote s) with
      | error e => rfl
      | ok r' =>
          rw [hread] at htext
          cases vs with
          | nil =>
              obtain rfl : ws = [] := hws (Nat.succ_pos _)
              exact ih (Nat.zero_le _) (fun _ => rfl) (absurd rfl) htext
          | cons v vs =>
              refine ih (Nat.le_of_succ_le_succ hlength) (fun h => ?_) mode_embed_of_quote htext
              exact hws (Nat.succ_lt_succ h)

/-- So reading goes on from the text in which they end. -/
theorem readAll_append_of_text {quote : Option Char} {pre : List (List Char)} {vs : List Value}
    {a : List Char} (hread : r.readAll components quote (pre ++ [a]) vs = .ok r')
    (ht : r'.place.mode = .text) (hquote : quote ≠ none → r.place.mode ≠ .text)
    (hlength : vs.length ≤ pre.length) {ws : List Value} (hws : vs.length < pre.length → ws = [])
    (d : List Char) (post : List (List Char)) :
    r.readAll components quote (pre ++ (a ++ d) :: post) (vs ++ ws) =
      r'.readAll components none (d :: post) ws := by
  rw [readAll_append a d post ws hlength hws hquote, hread]
  · rfl
  · intro s hs
    rw [hread] at hs
    cases hs
    exact ht

end Reader

end LiveMarkup.Template
