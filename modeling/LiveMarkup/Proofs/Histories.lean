import Mathlib.Data.List.Induction

/-!
# Lists that go on at their end

A list that records what has happened goes on at its end, and what it says of a place in it
is said of what stands before and after that place. Where a place of a longer list lies is
told here once, for histories of every kind.
-/

namespace LiveMarkup.History

variable {β : Type} {os es before after : List β} {o p : β}

/-- What stands in a longer list but not in what was added stood in the list before. -/
theorem exists_of_append_eq (h : os ++ es = before ++ o :: after) (ho : o ∉ es) :
    ∃ later, os = before ++ o :: later ∧ after = later ++ es := by
  rcases List.append_eq_append_iff.1 h with ⟨between, rfl, hes⟩ | ⟨later, rfl, hafter⟩
  · exact absurd (hes ▸ List.mem_append_right _ (List.mem_cons_self ..)) ho
  · cases later with
    | nil =>
        rw [List.nil_append] at hafter
        exact absurd (hafter ▸ List.mem_cons_self ..) ho
    | cons p later =>
        rw [List.cons_append, List.cons.injEq] at hafter
        obtain ⟨rfl, rfl⟩ := hafter
        exact ⟨later, rfl, rfl⟩

/-- What stands in a list with one more at its end is that one or stood there before. -/
theorem concat_eq_append_cons (h : os ++ [p] = before ++ o :: after) :
    (os = before ∧ p = o ∧ after = []) ∨
      ∃ later, os = before ++ o :: later ∧ after = later ++ [p] := by
  cases hafter : after using List.reverseRecOn with
  | nil =>
      rw [hafter] at h
      obtain ⟨hbefore, ho⟩ := List.append_inj' h rfl
      exact .inl ⟨hbefore, List.singleton_inj.1 ho, rfl⟩
  | append_singleton later q _ =>
      rw [hafter, ← List.cons_append, ← List.append_assoc] at h
      obtain ⟨hos, hp⟩ := List.append_inj' h rfl
      exact .inr ⟨later, hos, by rw [List.singleton_inj.1 hp]⟩

theorem concat_eq_append_cons_iff :
    os ++ [p] = before ++ o :: after ↔
      (os = before ∧ p = o ∧ after = []) ∨
        ∃ later, os = before ++ o :: later ∧ after = later ++ [p] := by
  refine ⟨concat_eq_append_cons, ?_⟩
  rintro (⟨rfl, rfl, rfl⟩ | ⟨later, rfl, rfl⟩)
  · rfl
  · simp

end LiveMarkup.History
