import LiveMarkup.Value.Basic

/-!
# Events

An event is what happened, aimed at a live node, on its way along a path of
nodes. Whether it travels up the path and whether its default action can be
prevented follow from its name alone, so an application's own event of a known
name behaves like the known one.

A listener may answer an event in two ways, by stopping it or by preventing its
default action. Preventing has no effect on an event that cannot be cancelled.
-/

namespace LiveMarkup

/-- What happened. -/
inductive EventData where
  | click
  | doubleClick
  | mouseDown
  | mouseUp
  | input (value : String)
  | change (value : String)
  | keyDown (key : String) (shift ctrl : Bool)
  | keyUp (key : String) (shift ctrl : Bool)
  | focus
  | blur
  | submit
  | custom (name : String)
  deriving DecidableEq

/-- The name that listeners are registered under. -/
def EventData.name : EventData → String
  | .click => "click"
  | .doubleClick => "dblclick"
  | .mouseDown => "mousedown"
  | .mouseUp => "mouseup"
  | .input _ => "input"
  | .change _ => "change"
  | .keyDown .. => "keydown"
  | .keyUp .. => "keyup"
  | .focus => "focus"
  | .blur => "blur"
  | .submit => "submit"
  | .custom name => name

/-- An event on its way. -/
structure Event where
  target : NodeId
  data : EventData
  path : List NodeId
  current : Option NodeId := none
  prevented : Bool := false
  stopped : Bool := false
  deriving DecidableEq

/-- How a listener answers an event. -/
inductive Reaction where
  | preventDefault
  | stopPropagation
  deriving DecidableEq

namespace Event

/-- The name of an event. -/
def name (e : Event) : String :=
  e.data.name

/-- Whether an event travels up its path. -/
def bubbles (e : Event) : Bool :=
  e.name != "focus" && e.name != "blur"

/-- Whether the default action of an event can be prevented. -/
def cancelable (e : Event) : Bool :=
  e.name != "input" && e.name != "focus" && e.name != "blur"

/-- The event after an answer. -/
def answer (e : Event) : Reaction → Event
  | .preventDefault => { e with prevented := e.prevented || e.cancelable }
  | .stopPropagation => { e with stopped := true }

/-- The event after answers in order. -/
def answers (e : Event) (rs : List Reaction) : Event :=
  rs.foldl answer e

end Event

end LiveMarkup
