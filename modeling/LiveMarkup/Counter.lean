import LiveMarkup.ClassList
import LiveMarkup.Document.Dispatch
import LiveMarkup.Document.Markup
import LiveMarkup.Document.Outline
import LiveMarkup.Number.Decimal
import LiveMarkup.Page.Render
import LiveMarkup.Reactive.Cell
import LiveMarkup.Template

/-!
# The counter

A count with two buttons that change it by one and a button that resets it, shown
in a document together with the counts that were left by a click. A click submits a
change to a cell. At the end of a frame the waiting changes are applied and, if
there were any, the count is rendered once.

The program takes the number of clicks of each frame, on the first button where the
number is negative and on the second one otherwise. It writes the count and the
document after each frame, then resets the count and writes the document's markup.
-/

namespace LiveMarkup.Counter

/-- A count, and what it was before each click since the last reset. -/
structure Count where
  count : Int := 0
  history : List Int := []
  deriving DecidableEq

/-- What a button does. -/
inductive Press where
  | add (delta : Int)
  | reset
  deriving DecidableEq

/-- The count after a button was pressed. -/
def Count.after (c : Count) : Press → Count
  | .add delta => { count := c.count + delta, history := c.history ++ [c.count] }
  | .reset => {}

/-! ## What is shown -/

def decrement : Listener := ⟨"decrement"⟩
def increment : Listener := ⟨"increment"⟩
def reset : Listener := ⟨"reset"⟩

/-- What a listener of a button stands for. -/
def press? (l : Listener) : Option Press :=
  if l = decrement then some (.add (-1))
  else if l = increment then some (.add 1)
  else if l = reset then some .reset
  else none

/-- A program without components. -/
def noComponents : Components :=
  fun _ _ _ => .ok .null

/-- The description of one count of the history. -/
def item (n : Int) : Except MarkupError (Option Node) :=
  Template.node? noComponents ["<li>", "</li>"] [.number (.ofInt n)]

/-- The classes of a count. -/
def classes (c : Count) : String :=
  ClassList.ofFlags [("count", true), ("negative", c.count < 0), ("zero", c.count = 0)]

/-- The description of a count. -/
def view (c : Count) : Except MarkupError (Option Node) := do
  let items ← c.history.mapM item
  Template.node? noComponents
    ["<div id=\"app\">\n            <h1 class=", ">",
      "</h1>\n            <button id=\"dec\" onClick=",
      ">-</button>\n            <button id=\"inc\" onClick=",
      ">+</button>\n            <button id=\"reset\" onClick=",
      ">reset</button>\n            <ul>", "</ul>\n        </div>"]
    [.str (classes c), .number (.ofInt c.count), .listener decrement, .listener increment,
      .listener reset, .list (items.reduceOption.map .node)]

/-! ## The application -/

/-- The count with the changes that wait, and the page that shows it. -/
structure App where
  cell : Cell Count Press Unit := { value := {} }
  page : Page := { document := .new false }
  renderer : Renderer := {}

namespace App

/-- The application with its count rendered. -/
def render (a : App) : App :=
  match view a.cell.value with
  | .error _ => a
  | .ok n =>
    match a.renderer.render a.page n (some Document.root) with
    | .error _ => a
    | .ok (_, renderer, page) => { a with renderer, page }

/-- The application as it starts. -/
def start : App :=
  render {}

/-- The application after a click on the button with an id. -/
def click (a : App) (button : String) : App :=
  match a.page.document.elementById? button with
  | none => a
  | some target =>
    let (_, calls) := a.page.document.dispatch (fun _ => []) target .click
    { a with cell := (calls.filterMap fun c => press? c.listener).foldl Cell.submit a.cell }

/-- The application after a number of clicks on a button. -/
def clicks (button : String) : Nat → App → App
  | 0, a => a
  | n + 1, a => clicks button n (a.click button)

/-- The application with what waits applied, and rendered if anything waited. -/
def turn (a : App) : App :=
  if a.cell.isPending then
    { a with cell := a.cell.clear.update fun c => a.cell.pending.foldl Count.after c }.render
  else a

/-- The application after a frame with a number of clicks. -/
def frame (a : App) (n : Int) : App :=
  (clicks (if n < 0 then "dec" else "inc") n.natAbs a).turn

/-- What is written after the frame of a number. -/
def report (a : App) (k : Nat) : String :=
  "Frame " ++ toString k ++ ": count = " ++ toString a.cell.value.count ++ "\n" ++
    a.page.document.outline Document.root

/-- What is written at the end. -/
def closing (a : App) : String :=
  (a.click "reset").turn.page.document.outerMarkup Document.root ++ "\n"

/-- What is written from the frame of a number on. -/
def session (a : App) (k : Nat) : List Int → String
  | [] => a.closing
  | n :: ns =>
    let a := a.frame n
    a.report k ++ a.session (k + 1) ns

end App

/-! ## The program -/

/-- The numbers of clicks when none are given. -/
def defaultFrames : List Int := [3, -1, 2]

/-- The numbers of clicks that arguments stand for. Those that are not integers of
64 bits are passed over. -/
def frames (args : List String) : List Int :=
  let given := args.filterMap (Number.readIntBetween? (-Int.pow 2 63) (Int.pow 2 63 - 1))
  if given.isEmpty then defaultFrames else given

/-- All that the program writes. -/
def output (args : List String) : String :=
  App.start.session 0 (frames args)

end LiveMarkup.Counter
