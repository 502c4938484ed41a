import LiveMarkup.Text.Blank

/-!
# Lists of classes

The value of a class attribute is put together from names without the blank
characters around them; an empty name is left out. With flags, the names whose
flag is down are left out as well.
-/

namespace LiveMarkup.ClassList

/-- Class names with a space between them. -/
def ofNames (names : List String) : String :=
  " ".intercalate ((names.map Text.trim).filter (· ≠ ""))

/-- The class names whose flag is up, with a space between them. -/
def ofFlags (names : List (String × Bool)) : String :=
  ofNames ((names.filter (·.2)).map (·.1))

end LiveMarkup.ClassList
