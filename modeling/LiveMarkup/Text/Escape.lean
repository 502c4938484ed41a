/-!
# Escaping for markup

Text between tags has its ampersands and angle brackets written as references,
and an attribute value, which stands between double quotes, its double quotes as
well. Every other character stands for itself, so neither form can end the text
or the value it is part of.
-/

namespace LiveMarkup.Text

/-- A character as it is written between tags. -/
def escapeTextChar : Char → List Char
  | '&' => ['&', 'a', 'm', 'p', ';']
  | '<' => ['&', 'l', 't', ';']
  | '>' => ['&', 'g', 't', ';']
  | c => [c]

/-- A character as it is written between double quotes. -/
def escapeQuotedChar : Char → List Char
  | '"' => ['&', 'q', 'u', 'o', 't', ';']
  | c => escapeTextChar c

/-- A text as it is written between tags. -/
def escape (s : String) : String :=
  String.ofList (s.toList.flatMap escapeTextChar)

/-- A text as it is written between double quotes. -/
def escapeQuoted (s : String) : String :=
  String.ofList (s.toList.flatMap escapeQuotedChar)

/-- No angle bracket is left in escaped text. -/
theorem lt_not_mem_escapeTextChar (c : Char) : '<' ∉ escapeTextChar c := by
  unfold escapeTextChar
  split <;> simp_all [eq_comm]

/-- No double quote is left in an escaped value. -/
theorem quote_not_mem_escapeQuotedChar (c : Char) : '"' ∉ escapeQuotedChar c := by
  unfold escapeQuotedChar
  split
  · simp
  · unfold escapeTextChar
    split <;> simp_all [eq_comm]

end LiveMarkup.Text
