import LiveMarkup.Template.Reader
import LiveMarkup.Text.Split

/-!
# Templates

A template is literal segments with a value embedded behind each, the last one
excepted. `compile` gives its top-level items; `node?` shows the first of them,
which is all there is in a template with one root. A source names the places of
its values by `{}`.

Only a wrong closing tag and what cannot be made are refused. Other malformed
markup is read as far as the rules go.
-/

namespace LiveMarkup.Template

/-- The top-level items of a template. -/
def compile (components : Components) (segments : List String) (values : List Value) :
    Except MarkupError (List Value) :=
  match ({} : Reader).readAll components none (segments.map String.toList) values with
  | .error e => .error e
  | .ok r => r.finish components

/-- The first node of a template's first item. -/
def node? (components : Components) (segments : List String) (values : List Value) :
    Except MarkupError (Option Node) :=
  (compile components segments values).map fun items => (flatten (items.take 1)).head?

/-- The segments of a source whose values stand at `{}`. -/
def segments (source : String) : List String :=
  (Text.cutHoles source.toList).map String.ofList

/-- The first node of a template given by its source. -/
def ofSource? (components : Components) (source : String) (values : List Value) :
    Except MarkupError (Option Node) :=
  node? components (segments source) values

end LiveMarkup.Template
