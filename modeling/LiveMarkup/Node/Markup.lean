import LiveMarkup.Name
import LiveMarkup.Node.Make
import LiveMarkup.Style
import LiveMarkup.Text.Escape

/-!
# The markup of a description

A description is written as markup the way mounting it would show it, without
mounting it. Keys, refs and listeners are not written, nor are properties that
are null or `false`; `true` is written as a bare name. A style given as a map is
written as its declarations that have a text. A portal shows its children
elsewhere and is written as nothing.
-/

namespace LiveMarkup

/-- The tags of the elements that never have children. -/
def voidTags : List String :=
  ["area", "base", "br", "col", "embed", "hr", "img", "input", "link", "meta", "source", "track",
    "wbr"]

/-- A name with a value between quotes, behind a space. -/
def attributeMarkup (name value : String) : String :=
  " " ++ name ++ "=\"" ++ Text.escapeQuoted value ++ "\""

namespace Node

/-- Whether the name of a property starts with the word `on`. -/
def namesListener (name : String) : Bool :=
  ['o', 'n'].isPrefixOf name.toList

/-- The style text of a map of declarations, those without a text left out. -/
def styleMarkup (declarations : Props) : String :=
  " ".intercalate <| declarations.entries.filterMap fun d =>
    match d.2.text? with
    | some value =>
      if value = "" then none else some (Style.declarationText (Text.kebab d.1, value))
    | none => none

/-- A property as it is written inside a tag. -/
def propMarkup (name : String) (v : Value) : String :=
  if name = "key" ∨ name = "ref" ∨ namesListener name then ""
  else
    let name := if name = "className" then "class" else name
    match v with
    | .bool true => " " ++ name
    | .bool false => ""
    | .map declarations =>
      if name = "style" then attributeMarkup name (styleMarkup declarations) else ""
    | v =>
      match v.text? with
      | some s => attributeMarkup name s
      | none => ""

/-- The properties of an element as they are written inside its tag. -/
def propsMarkup (props : Props) : String :=
  String.join (props.entries.map fun e => propMarkup e.1 e.2)

mutual

/-- The markup of a description. -/
def markup : Node → String
  | .text s => Text.escape s
  | .portal _ _ => ""
  | .element tag props children =>
    let name := (Name.ofTag tag).localName
    let start := "<" ++ name ++ propsMarkup props
    if name ∈ voidTags ∧ children.isEmpty then start ++ " />"
    else start ++ ">" ++ childrenMarkup children ++ "</" ++ name ++ ">"
termination_by structural n => n

/-- The markup of descriptions one after the other. -/
def childrenMarkup : List Node → String
  | [] => ""
  | n :: ns => n.markup ++ childrenMarkup ns
termination_by structural ns => ns

end

end Node

end LiveMarkup
