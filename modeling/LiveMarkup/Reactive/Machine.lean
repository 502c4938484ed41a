import LiveMarkup.Reactive.Cell
import LiveMarkup.Reactive.Emitter
import LiveMarkup.Reactive.Script

/-!
# The machine that runs scripts

A machine holds states behind names, one queue of tasks, one emitter, and a stack
of what is being done. It goes step by step: a step looks at the top of the stack
alone, so what a run keeps is what a step keeps, however tasks, changes and
listeners call one another.

A state lives while a name or something on the stack holds it. The first change
that waits queues a flush of its state. When the flush runs it takes all waiting
changes, applies them in order and then calls the listeners that are registered at
that moment; if its state is gone by then it does nothing.

While changes are applied the value may be neither read nor written by others, and
while it is read or listeners are told of it it may not be written. A machine that
is asked to do so is in conflict and stands still.
-/

namespace LiveMarkup

/-- What waits in the queue. -/
inductive Task (α ρ : Type) where
  | script (body : Script α ρ)
  | flush (cell : Nat)

/-- What is being done. -/
inductive Frame (α ρ : Type) where
  /-- A script with the value at hand. -/
  | script (current : Option α) (rest : Script α ρ)
  /-- A run of tasks, with how many it has started. -/
  | drain (word : String) (started : Nat)
  /-- A change of a cell whose script is above, and the changes after it. -/
  | apply (cell : Nat) (update : α → α) (rest : List (Change α ρ))
  /-- The listeners of a cell that are still to be told of its value. -/
  | notify (cell : Nat) (value : α) (rest : List (Script α ρ))
  /-- A cell that the script above reads. -/
  | visit (cell : Nat)
  /-- The listeners still to be called with what was emitted, and how many there
  were. -/
  | emit (word : String) (data : α) (total : Nat) (rest : List (Script α ρ))

namespace Frame

variable {α ρ : Type}

/-- The cell that a frame holds. -/
def held? : Frame α ρ → Option Nat
  | .apply i _ _ => some i
  | .notify i _ _ => some i
  | .visit i => some i
  | _ => none

/-- The cell whose value a frame is about to change. -/
def applying? : Frame α ρ → Option Nat
  | .apply i _ _ => some i
  | _ => none

/-- A frame holds the cell that it changes. -/
theorem held?_of_applying? {f : Frame α ρ} {i : Nat} (h : f.applying? = some i) :
    f.held? = some i := by
  cases f <;> simp_all [applying?, held?]

end Frame

/-- States, a queue and an emitter, and what is being done with them. -/
structure Machine (α ρ : Type) where
  cells : Array (Cell α (Change α ρ) (Script α ρ)) := #[]
  names : OrderedMap String Nat := .empty
  labels : OrderedMap String Nat := .empty
  queue : List (Task α ρ) := []
  emitter : Emitter (Script α ρ) := .empty
  stack : List (Frame α ρ) := []
  log : Array (Entry α ρ) := #[]
  reply : Reply α ρ := .nothing
  conflict : Bool := false

namespace Machine

variable {α ρ : Type}

/-- A machine with listeners registered with its emitter. -/
def withListeners (ls : List (String × Script α ρ)) : Machine α ρ :=
  { emitter := .ofList ls }

/-! ## States and who holds them -/

/-- Whether something on the stack holds a cell. -/
def isHeld (m : Machine α ρ) (i : Nat) : Bool :=
  m.stack.any fun f => f.held? == some i

/-- Whether changes are being applied to a cell. -/
def isApplying (m : Machine α ρ) (i : Nat) : Bool :=
  m.stack.any fun f => f.applying? == some i

/-- Whether a cell is behind a name or held by something on the stack. -/
def isAlive (m : Machine α ρ) (i : Nat) : Bool :=
  m.names.entries.any (fun n => n.2 == i) || m.isHeld i

/-- The cell behind a name and its number. -/
def named? (m : Machine α ρ) (name : String) :
    Option (Nat × Cell α (Change α ρ) (Script α ρ)) :=
  (m.names.get? name).bind fun i => m.cells[i]?.map fun c => (i, c)

/-- The machine with a cell replaced. -/
def put (m : Machine α ρ) (i : Nat) (c : Cell α (Change α ρ) (Script α ρ)) : Machine α ρ :=
  { m with cells := m.cells.setIfInBounds i c }

/-! ## Answers and frames -/

/-- The machine after an answer: what is done at the top is answered to whoever
asked, and what is done on the way is noted down. -/
def answer (m : Machine α ρ) (word : String) (r : Reply α ρ) : Machine α ρ :=
  if m.stack.isEmpty then { m with reply := r }
  else if r.isNothing then m
  else { m with log := m.log.push (.answer word r) }

/-- The machine with something to be done first. -/
def push (m : Machine α ρ) (f : Frame α ρ) : Machine α ρ :=
  { m with stack := f :: m.stack }

/-- The machine with a task behind those in the queue. -/
def enqueue (m : Machine α ρ) (t : Task α ρ) : Machine α ρ :=
  { m with queue := m.queue ++ [t] }

/-- The machine in conflict. -/
def fail (m : Machine α ρ) : Machine α ρ :=
  { m with conflict := true }

/-- What is done to the cell behind a name; without one nothing is, and the answer
says so. -/
def withNamed (m : Machine α ρ) (word name : String)
    (f : Nat → Cell α (Change α ρ) (Script α ρ) → Machine α ρ) : Machine α ρ :=
  match m.named? name with
  | none => m.answer word .missing
  | some (i, c) => f i c

/-! ## Changes, flushes and tasks -/

/-- The machine with a change of a cell submitted. The first change to wait queues
the flush. -/
def submit (m : Machine α ρ) (i : Nat) (c : Cell α (Change α ρ) (Script α ρ))
    (x : Change α ρ) : Machine α ρ :=
  let m' := m.put i (c.submit x)
  if c.isPending then m' else m'.enqueue (.flush i)

/-- The machine that goes on with the changes of a cell, or tells its listeners
once there are no more. -/
def advance (m : Machine α ρ) (i : Nat) (c : Cell α (Change α ρ) (Script α ρ)) :
    List (Change α ρ) → Machine α ρ
  | [] => m.push (.notify i c.value c.listeners.toList)
  | x :: xs => (m.push (.apply i x.update xs)).push (.script (some c.value) x.body)

/-- The machine with the flush of a cell begun. -/
def flush (m : Machine α ρ) (i : Nat) : Machine α ρ :=
  match m.cells[i]? with
  | none => m
  | some c =>
    if !m.isAlive i || !c.isPending then m
    else if m.isHeld i then (m.put i c.clear).fail
    else (m.put i c.clear).advance i c.clear c.pending

/-- The machine with a task begun. -/
def start (m : Machine α ρ) : Task α ρ → Machine α ρ
  | .script body => m.push (.script none body)
  | .flush i => m.flush i

/-! ## Actions -/

/-- The machine after an action was begun, with a value at hand. -/
def perform (m : Machine α ρ) (current : Option α) (word : String) :
    Action α ρ → Machine α ρ
  | .note label => { m with log := m.log.push (.note label current) }
  | .guarded test body => if test current then m.push (.script current body) else m
  | .defer body => m.enqueue (.script body)
  | .drain => m.push (.drain word 0)
  | .queued => m.answer word (.queue m.queue.length)
  | .create name value =>
    { m with
      cells := m.cells.push { value }
      names := m.names.insert name m.cells.size }
  | .share name other => m.withNamed word name fun i _ =>
    { m with names := m.names.insert other i }
  | .release name =>
    { m with names := m.names.erase name }.answer word (.truth (m.names.contains name))
  | .read name view => m.withNamed word name fun i c =>
    if m.isApplying i then m.fail else m.answer word (.reading (view c.value))
  | .visit name body => m.withNamed word name fun i c =>
    if m.isApplying i then m.fail
    else (m.push (.visit i)).push (.script (some c.value) body)
  | .isPending name => m.withNamed word name fun _ c => m.answer word (.truth c.isPending)
  | .describe name => m.withNamed word name fun i c =>
    if m.isApplying i then m.fail
    else m.answer word (.state c.value c.pending.length c.listeners.size)
  | .change name body update => m.withNamed word name fun i c => m.submit i c ⟨body, update⟩
  | .listen name label body => m.withNamed word name fun i c =>
    { m.put i (c.listen body) with
      labels := m.labels.insert label c.listeners.nextKey }.answer word
        (.key c.listeners.nextKey)
  | .unlisten name label => m.withNamed word name fun i c =>
    match m.labels.get? label with
    | none => m.answer word (.truth false)
    | some key =>
      (m.put i (c.unlisten key)).answer word (.truth (c.listeners.get? key).isSome)
  | .subscribe topic label body =>
    { m with
      emitter := m.emitter.on topic body
      labels := m.labels.insert label (m.emitter.nextKey topic) }.answer word
        (.key (m.emitter.nextKey topic))
  | .unsubscribe topic label =>
    match m.labels.get? label with
    | none => m.answer word (.truth false)
    | some key =>
      { m with emitter := m.emitter.off topic key }.answer word
        (.truth (m.emitter.get? topic key).isSome)
  | .unsubscribeAll topic => { m with emitter := m.emitter.offAll topic }
  | .subscribers topic => m.answer word (.count (m.emitter.count topic))
  | .emit topic data =>
    m.push (.emit word data (m.emitter.count topic) (m.emitter.listeners topic))
  | .topics => m.answer word (.topics m.emitter.counts)

/-! ## Steps and runs -/

/-- The machine one step on. A machine with nothing to do, or in conflict, stays as
it is. -/
def step (m : Machine α ρ) : Machine α ρ :=
  if m.conflict then m
  else match m.stack with
  | [] => m
  | .script _ [] :: fs => { m with stack := fs }
  | .script v ((word, a) :: rest) :: fs =>
    { m with stack := .script v rest :: fs }.perform v word a
  | .drain word n :: fs =>
    match m.queue with
    | [] => { m with stack := fs }.answer word (.count n)
    | t :: ts => { m with queue := ts, stack := .drain word (n + 1) :: fs }.start t
  | .apply i update xs :: fs =>
    match m.cells[i]? with
    | none => { m with stack := fs }
    | some c => ({ m with stack := fs }.put i (c.update update)).advance i (c.update update) xs
  | .notify _ _ [] :: fs => { m with stack := fs }
  | .notify i v (l :: ls) :: fs => { m with stack := .script (some v) l :: .notify i v ls :: fs }
  | .visit _ :: fs => { m with stack := fs }
  | .emit word _ n [] :: fs => { m with stack := fs }.answer word (.count n)
  | .emit word v n (l :: ls) :: fs =>
    { m with stack := .script (some v) l :: .emit word v n ls :: fs }

/-- Whether there is nothing left that a step would do. -/
def isIdle (m : Machine α ρ) : Bool :=
  m.conflict || m.stack.isEmpty

/-- The machine a number of steps on. -/
def runFor : Nat → Machine α ρ → Machine α ρ
  | 0, m => m
  | n + 1, m => runFor n m.step

/-- The machine with an action begun that is asked for from outside, where no value
is at hand and what is noted down starts afresh. -/
def request (m : Machine α ρ) (word : String) (a : Action α ρ) : Machine α ρ :=
  { m with log := #[], reply := .nothing }.perform none word a

/-- An idle machine stays as it is. -/
theorem step_of_isIdle {m : Machine α ρ} (h : m.isIdle = true) : m.step = m := by
  unfold step
  split
  · rfl
  · rename_i hc
    have hs : m.stack = [] := by simpa [isIdle, hc] using h
    simp [hs]

/-- Nothing happens to an idle machine in any number of steps. -/
theorem runFor_of_isIdle {m : Machine α ρ} (h : m.isIdle = true) (n : Nat) :
    runFor n m = m := by
  induction n with
  | zero => rfl
  | succ n ih => rw [runFor, step_of_isIdle h, ih]

/-- Steps add up. -/
theorem runFor_add (k n : Nat) (m : Machine α ρ) :
    runFor (k + n) m = runFor n (runFor k m) := by
  induction k generalizing m with
  | zero => rw [Nat.zero_add]; rfl
  | succ k ih => rw [Nat.succ_add]; exact ih m.step

/-- The last of a number of steps. -/
theorem runFor_succ (k : Nat) (m : Machine α ρ) : runFor (k + 1) m = (runFor k m).step :=
  runFor_add k 1 m

end Machine

end LiveMarkup
