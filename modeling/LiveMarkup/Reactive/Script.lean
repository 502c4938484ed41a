/-!
# Scripts

A script is a list of actions on named states, on a queue of tasks and on an
emitter. Tasks, listeners and changes are scripts in turn, so an action may hold
scripts of its own, to be run later.

A script runs with a value at hand, or with none: the value of the state that calls
it, or what was emitted. Each action carries the word by which its answer is noted
down.
-/

namespace LiveMarkup

/-- One thing that a script can do. States hold values of type `α`, and reading one
gives an answer of type `ρ`. -/
inductive Action (α ρ : Type) where
  /-- Note down a label and the value at hand. -/
  | note (label : String)
  /-- Run a script if the value at hand passes a test. -/
  | guarded (test : Option α → Bool) (body : List (String × Action α ρ))
  /-- Queue a script as a task. -/
  | defer (body : List (String × Action α ρ))
  /-- Run tasks until the queue is empty. -/
  | drain
  /-- Ask how many tasks are queued. -/
  | queued
  /-- Give a name to a new state. -/
  | create (name : String) (value : α)
  /-- Give a second name to the state of a name. -/
  | share (name other : String)
  /-- Give a name up. -/
  | release (name : String)
  /-- Read the value of a state. -/
  | read (name : String) (view : α → ρ)
  /-- Run a script with the value of a state at hand, while it is being read. -/
  | visit (name : String) (body : List (String × Action α ρ))
  /-- Ask whether changes of a state wait. -/
  | isPending (name : String)
  /-- Ask for the value of a state and how many changes and listeners it has. -/
  | describe (name : String)
  /-- Submit a change, which runs a script and then updates the value. -/
  | change (name : String) (body : List (String × Action α ρ)) (update : α → α)
  /-- Register a script as a listener of a state and give a label to its key. -/
  | listen (name label : String) (body : List (String × Action α ρ))
  /-- Remove the listener of a state under the key of a label. -/
  | unlisten (name label : String)
  /-- Register a script with the emitter and give a label to its key. -/
  | subscribe (topic label : String) (body : List (String × Action α ρ))
  /-- Remove the emitter's listener under the key of a label. -/
  | unsubscribe (topic label : String)
  /-- Remove all of the emitter's listeners under a name. -/
  | unsubscribeAll (topic : String)
  /-- Ask how many listeners the emitter has under a name. -/
  | subscribers (topic : String)
  /-- Call the emitter's listeners under a name. -/
  | emit (topic : String) (data : α)
  /-- Ask for the emitter's names and how many listeners each has. -/
  | topics

/-- Actions to be run in order, each with the word for its answer. -/
abbrev Script (α ρ : Type) := List (String × Action α ρ)

/-- A change of a state: a script to run and an update to make after it. -/
structure Change (α ρ : Type) where
  body : Script α ρ
  update : α → α

/-- What an action answers. -/
inductive Reply (α ρ : Type) where
  | nothing
  | missing
  | truth (b : Bool)
  | count (n : Nat)
  | key (n : Nat)
  | reading (r : ρ)
  | queue (length : Nat)
  | state (value : α) (pending listeners : Nat)
  | topics (counts : List (String × Nat))

/-- Whether an answer is worth noting down. -/
def Reply.isNothing {α ρ : Type} : Reply α ρ → Bool
  | .nothing => true
  | _ => false

/-- What is noted down while scripts run. -/
inductive Entry (α ρ : Type) where
  | note (label : String) (current : Option α)
  | answer (word : String) (reply : Reply α ρ)

end LiveMarkup
