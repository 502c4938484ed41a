/-!
# Cutting texts

`splitAt sep` cuts a text at every occurrence of a character and always gives
one piece more than there are occurrences, so the empty text gives one empty
piece. `cutAt sep` cuts at the first occurrence only. `cutHoles` cuts a template
source at every `{}`, reading from the left, so that in `{{}}` the hole is the
inner pair.
-/

namespace LiveMarkup.Text

/-- The pieces between the occurrences of a character. -/
def splitAt (sep : Char) : List Char → List (List Char)
  | [] => [[]]
  | c :: cs => if c = sep then [] :: splitAt sep cs else (splitAt sep cs).modifyHead (c :: ·)

/-- What stands before and after the first occurrence of a character. -/
def cutAt (sep : Char) : List Char → Option (List Char × List Char)
  | [] => none
  | c :: cs => if c = sep then some ([], cs) else (cutAt sep cs).map fun r => (c :: r.1, r.2)

/-- The pieces of a template source between its holes. -/
def cutHoles : List Char → List (List Char)
  | [] => [[]]
  | '{' :: '}' :: cs => [] :: cutHoles cs
  | c :: cs => (cutHoles cs).modifyHead (c :: ·)

@[simp] theorem splitAt_nil (sep : Char) : splitAt sep [] = [[]] := rfl

theorem splitAt_ne_nil (sep : Char) : ∀ cs, splitAt sep cs ≠ []
  | [] => by simp
  | c :: cs => by
    have := splitAt_ne_nil sep cs
    unfold splitAt
    split
    · simp
    · cases h : splitAt sep cs <;> simp_all

/-- A text without the character is one piece. -/
theorem splitAt_of_notMem {sep : Char} {cs : List Char} (h : sep ∉ cs) : splitAt sep cs = [cs] := by
  induction cs with
  | nil => rfl
  | cons c cs ih =>
    rw [List.mem_cons, not_or] at h
    rw [splitAt, if_neg (Ne.symm h.1), ih h.2, List.modifyHead_cons]

/-- The first piece ends at the first occurrence. -/
theorem splitAt_append {sep : Char} {cs : List Char} (h : sep ∉ cs) (ds : List Char) :
    splitAt sep (cs ++ sep :: ds) = cs :: splitAt sep ds := by
  induction cs with
  | nil => rw [List.nil_append, splitAt, if_pos rfl]
  | cons c cs ih =>
    rw [List.mem_cons, not_or] at h
    rw [List.cons_append, splitAt, if_neg (Ne.symm h.1), ih h.2, List.modifyHead_cons]

theorem notMem_of_mem_splitAt {sep : Char} {cs piece : List Char} (h : piece ∈ splitAt sep cs) :
    sep ∉ piece := by
  induction cs generalizing piece with
  | nil =>
    rw [splitAt, List.mem_singleton] at h
    simp [h]
  | cons c cs ih =>
    rw [splitAt] at h
    split at h
    · rcases List.mem_cons.1 h with rfl | h
      · simp
      · exact ih h
    · rename_i hc
      cases hcs : splitAt sep cs with
      | nil => exact absurd hcs (splitAt_ne_nil sep cs)
      | cons p ps =>
        rw [hcs, List.modifyHead_cons] at h
        rw [hcs] at ih
        rcases List.mem_cons.1 h with rfl | h
        · have hp := ih (List.mem_cons_self ..)
          simp [hp, Ne.symm hc]
        · exact ih (List.mem_cons_of_mem _ h)

theorem cutAt_of_notMem {sep : Char} {cs : List Char} (h : sep ∉ cs) : cutAt sep cs = none := by
  induction cs with
  | nil => rfl
  | cons c cs ih =>
    rw [List.mem_cons, not_or] at h
    rw [cutAt, if_neg (Ne.symm h.1), ih h.2, Option.map_none]

theorem cutAt_append {sep : Char} {cs : List Char} (h : sep ∉ cs) (ds : List Char) :
    cutAt sep (cs ++ sep :: ds) = some (cs, ds) := by
  induction cs with
  | nil => rw [List.nil_append, cutAt, if_pos rfl]
  | cons c cs ih =>
    rw [List.mem_cons, not_or] at h
    rw [List.cons_append, cutAt, if_neg (Ne.symm h.1), ih h.2, Option.map_some]

/-- The first occurrence is the cut: nothing is lost and none comes earlier. -/
theorem eq_append_of_cutAt {sep : Char} {cs before after : List Char}
    (h : cutAt sep cs = some (before, after)) :
    cs = before ++ sep :: after ∧ sep ∉ before := by
  induction cs generalizing before with
  | nil => simp [cutAt] at h
  | cons c cs ih =>
    by_cases hc : c = sep
    · simp [cutAt, hc] at h
      simp [h, hc]
    · simp only [cutAt, hc, if_false, Option.map_eq_some_iff, Prod.mk.injEq, Prod.exists] at h
      obtain ⟨b, a, hba, rfl, rfl⟩ := h
      obtain ⟨rfl, hb⟩ := ih hba
      exact ⟨rfl, by simp [hb, Ne.symm hc]⟩

end LiveMarkup.Text
