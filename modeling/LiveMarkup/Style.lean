import LiveMarkup.OrderedMap
import LiveMarkup.Text.Blank
import LiveMarkup.Text.Kebab
import LiveMarkup.Text.Split

/-!
# Inline styles

The inline style of an element is an ordered list of declarations. Names are
kept as a style sheet has them, whichever way they were given, and no value is
empty, because giving a name the empty value takes its declaration away.

The text of a style is one declaration after another, `name: value;` with a
space between, and `parse` reads it back. Reading skips what has no colon or no
name.
-/

namespace LiveMarkup

/-- The declarations of an element's inline style. -/
structure Style where
  declarations : OrderedMap String String := .empty

namespace Style

/-- The style without declarations. -/
def empty : Style := {}

instance : Inhabited Style := ⟨empty⟩

/-- The declared value of a property. -/
def get? (s : Style) (name : String) : Option String :=
  s.declarations.get? (Text.kebab name)

/-- The style with a declaration; the empty value removes it. -/
def set (s : Style) (name value : String) : Style :=
  if value = "" then ⟨s.declarations.erase (Text.kebab name)⟩
  else ⟨s.declarations.insert (Text.kebab name) value⟩

/-- The name and the value of one declaration, if it has a colon and a name. -/
def readDeclaration? (cs : List Char) : Option (String × String) :=
  match Text.cutAt ':' cs with
  | none => none
  | some (before, after) =>
    let name := Text.trimChars before
    if name.isEmpty then none
    else some (String.ofList name, String.ofList (Text.trimChars after))

/-- The style with the declarations of a text set one after the other. -/
def setAll (s : Style) : List (List Char) → Style
  | [] => s
  | piece :: pieces =>
    match readDeclaration? piece with
    | none => s.setAll pieces
    | some (name, value) => (s.set name value).setAll pieces

/-- The style that a text declares. -/
def parse (css : String) : Style :=
  empty.setAll (Text.splitAt ';' css.toList)

/-- One declaration as it is written. -/
def declarationText (d : String × String) : String :=
  d.1 ++ ": " ++ d.2 ++ ";"

/-- The text of a style. -/
def text (s : Style) : String :=
  " ".intercalate (s.declarations.entries.map declarationText)

/-- Whether there are no declarations. -/
def isEmpty (s : Style) : Bool :=
  s.declarations.isEmpty

/-- Whether two styles have the same declarations in the same order. -/
def same (s t : Style) : Bool :=
  s.declarations.entries == t.declarations.entries

end Style

end LiveMarkup
