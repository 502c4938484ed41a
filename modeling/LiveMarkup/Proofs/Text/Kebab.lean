import LiveMarkup.Proofs.Text.Trim
import LiveMarkup.Text.Kebab

/-!
# Names in kebab case

A name in kebab case is its own kebab form (`kebab_kebab`): it starts with two hyphens, or
no ASCII capital is left in it. Its characters are those of the name, hyphens and small
letters (`mem_kebab`), so it is cut and trimmed as the name is.
-/

namespace LiveMarkup.Text

theorem isUpper_iff (c : Char) : c.isUpper = true ↔ 65 ≤ c.toNat ∧ c.toNat ≤ 90 := by
  change decide (c.val ≥ 65 ∧ c.val ≤ 90) = true ↔ _
  rw [decide_eq_true_iff, ge_iff_le, UInt32.le_iff_toNat_le, UInt32.le_iff_toNat_le]
  rfl

/-- The small letter of a capital comes behind all capitals. -/
theorem toLower_range {c : Char} (h : c.isUpper = true) :
    97 ≤ c.toLower.toNat ∧ c.toLower.toNat ≤ 122 := by
  have hc := (isUpper_iff c).1 h
  rw [← Char.toNat_val] at hc ⊢
  have hval : c.toLower.val = c.val + 32 := congrArg Char.val (dif_pos (of_decide_eq_true h))
  have h32 : (32 : UInt32).toNat = 32 := rfl
  rw [hval, UInt32.toNat_add, h32]
  omega

theorem isUpper_toLower {c : Char} (h : c.isUpper = true) : c.toLower.isUpper = false := by
  have hrange := toLower_range h
  rw [← Bool.not_eq_true, isUpper_iff]
  omega

theorem isBlank_toLower {c : Char} (h : c.isUpper = true) : isBlank c.toLower = false := by
  have hrange := toLower_range h
  simp only [isBlank, Bool.or_eq_false_iff, Bool.and_eq_false_iff, decide_eq_false_iff_not,
    beq_eq_false_iff_ne]
  omega

theorem kebabChars_cons (c : Char) (cs : List Char) :
    kebabChars (c :: cs) =
      if c.isUpper then '-' :: c.toLower :: kebabChars cs else c :: kebabChars cs :=
  rfl

theorem kebabChars_eq_flatMap (cs : List Char) :
    kebabChars cs = cs.flatMap fun c => if c.isUpper then ['-', c.toLower] else [c] := by
  induction cs with
  | nil => rfl
  | cons c cs ih =>
      rw [kebabChars_cons, List.flatMap_cons, ← ih]
      split <;> rfl

theorem mem_kebabChars {c : Char} {cs : List Char} (h : c ∈ kebabChars cs) :
    c ∈ cs ∧ c.isUpper = false ∨ c = '-' ∨ ∃ d : Char, d.isUpper = true ∧ c = d.toLower := by
  rw [kebabChars_eq_flatMap, List.mem_flatMap] at h
  obtain ⟨d, hd, hc⟩ := h
  by_cases hu : d.isUpper = true
  · rw [if_pos hu, List.mem_cons, List.mem_singleton] at hc
    exact Or.inr (hc.imp_right fun hc => ⟨d, hu, hc⟩)
  · rw [if_neg hu, List.mem_singleton] at hc
    exact Or.inl ⟨hc ▸ hd, by rw [hc, Bool.eq_false_iff.2 hu]⟩

/-- No capital is left once all have been written as small letters. -/
theorem kebabChars_kebabChars (cs : List Char) : kebabChars (kebabChars cs) = kebabChars cs := by
  apply kebabChars_eq_self
  intro c hc
  rcases mem_kebabChars hc with ⟨-, hu⟩ | rfl | ⟨d, hd, rfl⟩
  · exact hu
  · rfl
  · exact isUpper_toLower hd

/-! ## Names -/

/-- Custom properties are kept, and the characters of all other names are written anew. -/
theorem toList_kebab (name : String) :
    kebab name = name ∨ (kebab name).toList = kebabChars name.toList := by
  unfold kebab
  split
  · exact Or.inl rfl
  · exact Or.inr String.toList_ofList

theorem kebab_eq_self {name : String} (h : kebabChars name.toList = name.toList) :
    kebab name = name := by
  rcases toList_kebab name with hk | hk
  · exact hk
  · rw [← String.toList_inj, hk, h]

theorem kebab_kebab (name : String) : kebab (kebab name) = kebab name := by
  rcases toList_kebab name with hk | hk
  · rw [hk, hk]
  · apply kebab_eq_self
    rw [hk, kebabChars_kebabChars]

theorem mem_kebab {c : Char} {name : String} (h : c ∈ (kebab name).toList) :
    c ∈ name.toList ∨ c = '-' ∨ 97 ≤ c.toNat := by
  rcases toList_kebab name with hk | hk
  · exact Or.inl (hk ▸ h)
  · rw [hk] at h
    rcases mem_kebabChars h with ⟨hc, -⟩ | rfl | ⟨d, hd, rfl⟩
    · exact Or.inl hc
    · exact Or.inr (Or.inl rfl)
    · exact Or.inr (Or.inr (toLower_range hd).1)

theorem kebabChars_ne_nil {cs : List Char} (h : cs ≠ []) : kebabChars cs ≠ [] := by
  cases cs with
  | nil => exact absurd rfl h
  | cons c cs =>
      rw [kebabChars_cons]
      split <;> exact List.cons_ne_nil _ _

theorem kebab_ne_empty {name : String} (h : name ≠ "") : kebab name ≠ "" := by
  rcases toList_kebab name with hk | hk
  · rwa [hk]
  · intro he
    rw [he] at hk
    refine kebabChars_ne_nil (fun hnil => h ?_) hk.symm
    rwa [← String.toList_inj]

/-- A text without blanks at its ends has none there in kebab case. -/
theorem trimChars_kebabChars {cs : List Char} (h : trimChars cs = cs) :
    trimChars (kebabChars cs) = kebabChars cs := by
  rw [trimChars_eq_self_iff] at h ⊢
  obtain ⟨hhead, hlast⟩ := h
  constructor
  · cases cs with
    | nil => exact hhead
    | cons d cs =>
        rw [kebabChars_cons]
        by_cases hd : d.isUpper = true
        · rw [if_pos hd]
          rintro _ ⟨⟩
          rfl
        · rwa [if_neg hd]
  · rcases List.eq_nil_or_concat cs with rfl | ⟨init, d, rfl⟩
    · exact hlast
    · rw [List.concat_eq_append] at hlast ⊢
      rw [kebabChars_append, kebabChars_cons, kebabChars_nil]
      by_cases hd : d.isUpper = true
      · rw [if_pos hd, List.getLast?_append_of_ne_nil _ (List.cons_ne_nil _ _)]
        rintro _ ⟨⟩
        exact isBlank_toLower hd
      · rw [if_neg hd, List.getLast?_concat]
        rwa [List.getLast?_concat] at hlast

theorem trim_kebab {name : String} (h : trim name = name) : trim (kebab name) = kebab name := by
  rcases toList_kebab name with hk | hk
  · rwa [hk]
  · have hname : trimChars name.toList = name.toList := by
      rw [← String.toList_inj] at h
      rwa [trim, String.toList_ofList] at h
    rw [trim, hk, trimChars_kebabChars hname, ← hk, String.ofList_toList]

end LiveMarkup.Text
