import LiveMarkup.Document.Walk
import LiveMarkup.Event

/-!
# Dispatching events

An event goes from its target up to the top. At each node the listeners for it
are called in the order in which they were registered, and all of them are
called even when one stops the event; the event then goes no further. An event
that does not travel stays at its target.

What listeners do to the event is a parameter: a call is answered in view of the
calls made before, so a listener may remember what it was called with. Beside the
event that results, dispatching gives the calls that were made, each with the
event as the listener saw it.
-/

namespace LiveMarkup

/-- A call of a listener, with the event as it saw it. -/
structure Call where
  listener : Listener
  event : Event
  deriving DecidableEq

/-- How listeners answer a call after the calls made before it. -/
abbrev Behaviour :=
  List Call → Call → List Reaction

/-- An event on its way and the calls made so far. -/
structure Journey where
  event : Event
  calls : List Call := []

namespace Journey

/-- The journey after a listener was called. -/
def call (b : Behaviour) (j : Journey) (l : Listener) : Journey where
  event := j.event.answers (b j.calls ⟨l, j.event⟩)
  calls := j.calls ++ [⟨l, j.event⟩]

/-- The journey after listeners were called in order. -/
def callAll (b : Behaviour) (j : Journey) (ls : List Listener) : Journey :=
  ls.foldl (call b) j

/-- The journey with the event at a node, or at none. -/
def move (j : Journey) (id : Option NodeId) : Journey :=
  { j with event := { j.event with current := id } }

end Journey

namespace Document

/-- The listeners for an event on a live node. -/
def listenersAt (d : Document) (id : NodeId) (event : String) : List Listener :=
  match d.element? id with
  | none => []
  | some e => e.listenersFor event

/-- The journey along a path. -/
def travel (d : Document) (b : Behaviour) (j : Journey) : List NodeId → Journey
  | [] => j
  | id :: ids =>
    let j := (j.move (some id)).callAll b (d.listenersAt id j.event.name)
    if j.event.bubbles && !j.event.stopped then d.travel b j ids else j

/-- The journey of an event that is dispatched at a target. At a number that no
live node has nothing happens. -/
def journey (d : Document) (b : Behaviour) (target : NodeId) (data : EventData) : Journey :=
  match d.get? target with
  | none => { event := { target, data, path := [] } }
  | some _ =>
    let path := d.chain target
    (d.travel b { event := { target, data, path } } path).move none

/-- The event after it was dispatched at a target, and the calls made, where each
listener always answers alike. -/
def dispatch (d : Document) (reactions : Listener → List Reaction) (target : NodeId)
    (data : EventData) : Event × List Call :=
  let j := d.journey (fun _ c => reactions c.listener) target data
  (j.event, j.calls)

end Document

end LiveMarkup
