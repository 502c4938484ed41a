import LiveMarkup.Text.Blank
import Mathlib.Data.List.DropRight

/-!
# What trimming leaves

Trimming takes the blank characters off both ends and nothing else. So a word
without blank characters is what is left of it with blanks around
(`trimChars_around`), and what has been trimmed stays as it is (`trim_trim`).
-/

namespace LiveMarkup.Text

theorem trimChars_eq (cs : List Char) :
    trimChars cs = (cs.dropWhile isBlank).rdropWhile isBlank := rfl

theorem dropWhile_of_head {cs : List Char} (h : ∀ c ∈ cs.head?, isBlank c = false) :
    cs.dropWhile isBlank = cs := by
  cases cs with
  | nil => rfl
  | cons c cs => exact List.dropWhile_cons_of_neg (by simp [h c rfl])

theorem dropWhile_of_all {cs : List Char} (h : cs.all isBlank = true) (ds : List Char) :
    (cs ++ ds).dropWhile isBlank = ds.dropWhile isBlank := by
  induction cs with
  | nil => rfl
  | cons c cs ih =>
      obtain ⟨hc, hcs⟩ := Bool.and_eq_true_iff.1 h
      rw [List.cons_append, List.dropWhile_cons_of_pos hc, ih hcs]

theorem rdropWhile_of_all {cs : List Char} (h : cs.all isBlank = true) (ds : List Char) :
    (ds ++ cs).rdropWhile isBlank = ds.rdropWhile isBlank := by
  have hrev : cs.reverse.all isBlank = true := by rwa [List.all_reverse]
  rw [List.rdropWhile, List.reverse_append, dropWhile_of_all hrev, List.rdropWhile]

/-- A word without blank characters is what trimming leaves of it with blanks
around. -/
theorem trimChars_around {before cs after : List Char} (hb : before.all isBlank = true)
    (hcs : ∀ c ∈ cs, isBlank c = false) (ha : after.all isBlank = true) :
    trimChars (before ++ cs ++ after) = cs := by
  have hlast : cs.rdropWhile isBlank = cs := by
    rw [List.rdropWhile_eq_self_iff]
    intro hne
    simp [hcs _ (List.getLast_mem hne)]
  cases cs with
  | nil =>
      rw [trimChars_eq_nil_iff, List.append_nil, List.all_append, hb, ha]
      rfl
  | cons c cs =>
      have hc : ¬isBlank c = true := by simp [hcs c (List.mem_cons_self ..)]
      rw [trimChars_eq, List.append_assoc, dropWhile_of_all hb, List.cons_append,
        List.dropWhile_cons_of_neg hc, ← List.cons_append, rdropWhile_of_all ha, hlast]

theorem head?_trimChars {c : Char} {cs : List Char} (hc : c ∈ (trimChars cs).head?) :
    isBlank c = false := by
  obtain ⟨ds, hds⟩ := List.rdropWhile_prefix isBlank (cs.dropWhile isBlank)
  have hfirst := List.head?_dropWhile_not isBlank cs
  rw [← hds, ← trimChars_eq, List.head?_append, Option.mem_def.1 hc] at hfirst
  exact hfirst

/-- Trimming leaves a text as it is that has no blank character at either end. -/
theorem trimChars_eq_self_iff {cs : List Char} :
    trimChars cs = cs ↔
      (∀ c ∈ cs.head?, isBlank c = false) ∧ ∀ c ∈ cs.getLast?, isBlank c = false := by
  constructor
  · intro h
    refine ⟨fun c hc => head?_trimChars (h.symm ▸ hc), fun c hc => ?_⟩
    obtain ⟨hne, rfl⟩ := List.mem_getLast?_eq_getLast hc
    have hlast : (cs.dropWhile isBlank).rdropWhile isBlank = cs := h
    rw [← Bool.not_eq_true]
    have := List.rdropWhile_last_not isBlank (cs.dropWhile isBlank) (hlast.symm ▸ hne)
    simpa only [hlast] using this
  · rintro ⟨hhead, hlast⟩
    rw [trimChars_eq, dropWhile_of_head hhead, List.rdropWhile_eq_self_iff]
    intro hne
    rw [hlast _ (List.getLast?_eq_some_getLast hne)]
    exact Bool.false_ne_true

theorem trimChars_trimChars (cs : List Char) : trimChars (trimChars cs) = trimChars cs := by
  have hhead : ∀ c ∈ (trimChars cs).head?, isBlank c = false := fun c hc => head?_trimChars hc
  rw [trimChars_eq (trimChars cs), dropWhile_of_head hhead, trimChars_eq,
    List.rdropWhile_idempotent]

/-- Blanks in front are taken away. -/
theorem trimChars_append {before : List Char} (h : before.all isBlank = true) (cs : List Char) :
    trimChars (before ++ cs) = trimChars cs := by
  rw [trimChars_eq, dropWhile_of_all h, trimChars_eq]

/-- Trimming takes no character away that is not blank. -/
theorem mem_trimChars {c : Char} (hc : isBlank c = false) (cs : List Char) :
    c ∈ trimChars cs ↔ c ∈ cs := by
  have hdrop : ∀ ds : List Char, c ∈ ds.dropWhile isBlank ↔ c ∈ ds := by
    intro ds
    refine ⟨fun h => (List.dropWhile_sublist _).subset h, fun h => ?_⟩
    rw [← List.takeWhile_append_dropWhile (p := isBlank) (l := ds), List.mem_append] at h
    refine h.resolve_left fun htake => ?_
    rw [List.mem_takeWhile_imp htake] at hc
    cases hc
  rw [trimChars, List.mem_reverse, hdrop, List.mem_reverse, hdrop]

/-- What has been trimmed stays as it is. -/
theorem trim_trim (s : String) : trim (trim s) = trim s := by
  rw [trim, trim, String.toList_ofList, trimChars_trimChars]

end LiveMarkup.Text
