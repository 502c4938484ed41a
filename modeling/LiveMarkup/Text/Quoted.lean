import LiveMarkup.Text.Printable

/-!
# Quoted text

A text is shown between double quotes with everything written out that a reader
could not see: the quote and the backslash behind a backslash, the tab, the two
line ends and NUL by their letter, and any other character without a shape of
its own by its code point in braces.
-/

namespace LiveMarkup.Text

/-- A character by its code point. -/
def codePoint (c : Char) : List Char :=
  ['\\', 'u', '\x7b'] ++ Nat.toDigits 16 c.toNat ++ ['\x7d']

/-- A character as it is written inside quotes. -/
def quotedChar (c : Char) : List Char :=
  match c with
  | '"' => ['\\', '"']
  | '\\' => ['\\', '\\']
  | '\t' => ['\\', 't']
  | '\r' => ['\\', 'r']
  | '\n' => ['\\', 'n']
  | '\x00' => ['\\', '0']
  | c => if isPrintable c then [c] else codePoint c

/-- A text between quotes. -/
def quoted (s : String) : String :=
  String.ofList ('"' :: s.toList.flatMap quotedChar ++ ['"'])

/-- Showing characters other than the quote and the backslash stand for
themselves. -/
theorem quotedChar_of_isPrintable {c : Char} (h : isPrintable c = true)
    (hq : c ≠ '"') (hb : c ≠ '\\') : quotedChar c = [c] := by
  unfold quotedChar
  split <;> simp_all [isPrintable]

end LiveMarkup.Text
