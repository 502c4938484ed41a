/-!
# Blank characters

A character is blank when it has the Unicode property White_Space; there are
twenty-five of them, so the set is written out and not looked up. `trim` takes
the blank characters off both ends of a text. `words` cuts a text at its blank
ASCII characters only, which is how a class attribute is read.
-/

namespace LiveMarkup.Text

/-- The characters with the property White_Space. -/
def isBlank (c : Char) : Bool :=
  let n := c.toNat
  (9 ≤ n && n ≤ 13) || n == 0x20 || n == 0x85 || n == 0xa0 || n == 0x1680 ||
    (0x2000 ≤ n && n ≤ 0x200a) || n == 0x2028 || n == 0x2029 || n == 0x202f ||
    n == 0x205f || n == 0x3000

/-- The characters left once the blank ones at both ends are gone. -/
def trimChars (cs : List Char) : List Char :=
  ((cs.dropWhile isBlank).reverse.dropWhile isBlank).reverse

/-- A text without the blank characters at its ends. -/
def trim (s : String) : String :=
  String.ofList (trimChars s.toList)

/-- The blank ASCII characters, among which the vertical tab does not count. -/
def isAsciiBlank (c : Char) : Bool :=
  c == ' ' || c == '\t' || c == '\n' || c == '\x0c' || c == '\r'

/-- The non-empty runs of characters that are not blank ASCII characters. -/
def wordChars : List Char → List (List Char)
  | [] => []
  | c :: cs =>
    if isAsciiBlank c then wordChars cs
    else match cs with
      | [] => [[c]]
      | d :: _ =>
        if isAsciiBlank d then [c] :: wordChars cs
        else (wordChars cs).modifyHead (c :: ·)

/-- The words of a text. -/
def words (s : String) : List String :=
  (wordChars s.toList).map String.ofList

@[simp] theorem trimChars_nil : trimChars [] = [] := rfl

/-- Trimming leaves nothing exactly when every character is blank. -/
theorem trimChars_eq_nil_iff (cs : List Char) :
    trimChars cs = [] ↔ cs.all isBlank = true := by
  induction cs with
  | nil => simp [trimChars]
  | cons c cs ih =>
    by_cases h : isBlank c = true
    · simpa [trimChars, h] using ih
    · simp [trimChars, h, List.dropWhile_append]
      split <;> simp_all

end LiveMarkup.Text
