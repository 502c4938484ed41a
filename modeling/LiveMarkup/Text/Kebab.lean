/-!
# Style property names

A script writes a style property in camel case (`backgroundColor`) and a style
sheet in kebab case (`background-color`). `kebab` turns the first into the
second by a rule on ASCII capitals alone: each becomes a hyphen and the small
letter, so a capital at the start gives a vendor name (`-webkit-transition`).
Custom properties, which start with two hyphens, are case-sensitive and kept.
-/

namespace LiveMarkup.Text

/-- Every ASCII capital written as a hyphen and the small letter. -/
def kebabChars : List Char → List Char
  | [] => []
  | c :: cs => if c.isUpper then '-' :: c.toLower :: kebabChars cs else c :: kebabChars cs

/-- The name of a style property as a style sheet has it. -/
def kebab (name : String) : String :=
  match name.toList with
  | '-' :: '-' :: _ => name
  | cs => String.ofList (kebabChars cs)

@[simp] theorem kebabChars_nil : kebabChars [] = [] := rfl

theorem kebabChars_append (s t : List Char) :
    kebabChars (s ++ t) = kebabChars s ++ kebabChars t := by
  induction s with
  | nil => rfl
  | cons c s ih => by_cases h : c.isUpper <;> simp [kebabChars, h, ih]

/-- A name without ASCII capitals is its own kebab form. -/
theorem kebabChars_eq_self {cs : List Char} (h : ∀ c ∈ cs, c.isUpper = false) :
    kebabChars cs = cs := by
  induction cs with
  | nil => rfl
  | cons c cs ih => simp_all [kebabChars]

end LiveMarkup.Text
