import LiveMarkup.Proofs.Reactive.Actions

/-!
# Histories of a machine

What a run did to its cells is written down beside the machine as a list of
happenings: cells are created, changes are submitted, and changes have their turn,
which is when their script is run and their update made. `Machine.Reaches` says
which machines are reached with which history, from one that has only listeners,
through requests made while nothing is being done and through steps.

The machine keeps of all this the value of a cell and the changes that wait, the
changes that a flush in progress has taken, and the flushes in the queue. These
four views (`contents?`, `flights`, `flushes` and `isAlive`) are what a step is
described by.
-/

namespace LiveMarkup

variable {α ρ : Type}

/-- What happens to a cell. -/
inductive Happening (α ρ : Type) where
  | created (cell : Nat) (value : α)
  | submitted (cell : Nat) (change : Change α ρ)
  /-- The turn of a change comes: its script is run and then its update is made. -/
  | applied (cell : Nat) (change : Change α ρ)

namespace Happening

/-- The values that a cell was created with. -/
def createdAs (i : Nat) (hs : List (Happening α ρ)) : List α :=
  hs.filterMap fun
    | created j v => if j = i then some v else none
    | _ => none

/-- The changes submitted to a cell, in order. -/
def submittedTo (i : Nat) (hs : List (Happening α ρ)) : List (Change α ρ) :=
  hs.filterMap fun
    | submitted j x => if j = i then some x else none
    | _ => none

/-- The changes of a cell whose turn has come, in order. -/
def appliedTo (i : Nat) (hs : List (Happening α ρ)) : List (Change α ρ) :=
  hs.filterMap fun
    | applied j x => if j = i then some x else none
    | _ => none

/-- The cell that something happens to. -/
def cell : Happening α ρ → Nat
  | created i _ => i
  | submitted i _ => i
  | applied i _ => i

/-- The turn of the first change of a list comes. -/
def turn (i : Nat) : List (Change α ρ) → List (Happening α ρ)
  | [] => []
  | x :: _ => [applied i x]

/-- Nothing in a history happened to a cell. -/
def Silent (i : Nat) (hs : List (Happening α ρ)) : Prop :=
  createdAs i hs = [] ∧ submittedTo i hs = [] ∧ appliedTo i hs = []

theorem createdAs_append (i : Nat) (hs es : List (Happening α ρ)) :
    createdAs i (hs ++ es) = createdAs i hs ++ createdAs i es :=
  List.filterMap_append

theorem submittedTo_append (i : Nat) (hs es : List (Happening α ρ)) :
    submittedTo i (hs ++ es) = submittedTo i hs ++ submittedTo i es :=
  List.filterMap_append

theorem appliedTo_append (i : Nat) (hs es : List (Happening α ρ)) :
    appliedTo i (hs ++ es) = appliedTo i hs ++ appliedTo i es :=
  List.filterMap_append

theorem silent_nil (i : Nat) : Silent i ([] : List (Happening α ρ)) :=
  ⟨rfl, rfl, rfl⟩

theorem silent_of_cell_ne {i : Nat} {e : Happening α ρ} (h : e.cell ≠ i) : Silent i [e] := by
  cases e <;> simp_all [Silent, createdAs, submittedTo, appliedTo, cell]

theorem silent_turn {i j : Nat} (h : j ≠ i) (xs : List (Change α ρ)) : Silent i (turn j xs) := by
  cases xs with
  | nil => exact silent_nil i
  | cons x xs => exact silent_of_cell_ne h

theorem Silent.append {i : Nat} {hs es : List (Happening α ρ)} (h : Silent i hs)
    (he : Silent i es) : Silent i (hs ++ es) := by
  simp [Silent, createdAs_append, submittedTo_append, appliedTo_append, h.1, h.2.1, h.2.2, he.1,
    he.2.1, he.2.2]

end Happening

/-- The update that a frame is about to make to a cell, and the changes after it. -/
def Frame.flight? (i : Nat) : Frame α ρ → Option ((α → α) × List (Change α ρ))
  | .apply j update xs => if j = i then some (update, xs) else none
  | _ => none

/-- Whether a task is the flush of a cell. -/
def Task.isFlushOf (i : Nat) : Task α ρ → Bool
  | .script _ => false
  | .flush j => j == i

namespace Machine

open Happening

/-! ## What happens -/

/-- What happens when an action is begun. -/
def performed (m : Machine α ρ) : Action α ρ → List (Happening α ρ)
  | .create _ value => [created m.cells.size value]
  | .change name body update =>
    match m.named? name with
    | none => []
    | some (i, _) => [submitted i ⟨body, update⟩]
  | _ => []

/-- What happens when a flush is begun. -/
def flushed (m : Machine α ρ) (i : Nat) : List (Happening α ρ) :=
  match m.cells[i]? with
  | none => []
  | some c => if m.isAlive i && !m.isHeld i then turn i c.pending else []

/-- What happens in a step. -/
def stepped (m : Machine α ρ) : List (Happening α ρ) :=
  if m.conflict then []
  else match m.stack with
  | .script _ ((_, a) :: _) :: _ => m.performed a
  | .drain _ _ :: _ =>
    match m.queue with
    | .flush i :: _ => m.flushed i
    | _ => []
  | .apply i _ xs :: _ => turn i xs
  | _ => []

/-- The machines that are reached, and what has happened to their cells by then. -/
inductive Reaches : Machine α ρ → List (Happening α ρ) → Prop where
  | start (ls : List (String × Script α ρ)) : Reaches (withListeners ls) []
  | request {m : Machine α ρ} {hs : List (Happening α ρ)} (word : String) (a : Action α ρ) :
      Reaches m hs → m.conflict = false → m.stack = [] →
      Reaches (m.request word a) (hs ++ m.performed a)
  | step {m : Machine α ρ} {hs : List (Happening α ρ)} :
      Reaches m hs → Reaches m.step (hs ++ m.stepped)

/-! ## The views -/

/-- The value of a cell and the changes that wait. -/
def contents? (m : Machine α ρ) (i : Nat) : Option (α × List (Change α ρ)) :=
  (m.cells[i]?).map fun c => (c.value, c.pending)

/-- The flushes of a cell that are in progress, each by the update it is about to
make and the changes after that. -/
def flights (m : Machine α ρ) (i : Nat) : List ((α → α) × List (Change α ρ)) :=
  m.stack.filterMap (Frame.flight? i)

/-- How many flushes of a cell are in the queue. -/
def flushes (m : Machine α ρ) (i : Nat) : Nat :=
  m.queue.countP (Task.isFlushOf i)

variable {m m' m₁ : Machine α ρ} {i j : Nat} {c c' : Cell α (Change α ρ) (Script α ρ)}

theorem isAlive_iff :
    m.isAlive i ↔ (∃ e ∈ m.names.entries, e.2 = i) ∨ ∃ f ∈ m.stack, f.held? = some i := by
  simp [isAlive, isHeld]

theorem flights_eq_nil_iff : m.flights i = [] ↔ m.isApplying i = false := by
  simp only [flights, isApplying, List.filterMap_eq_nil_iff, List.any_eq_false]
  refine forall_congr' fun f => imp_congr_right fun _ => ?_
  cases f <;> simp [Frame.flight?, Frame.applying?]

/-- A cell that no frame holds has no flush in progress. -/
theorem flights_of_isHeld (h : m.isHeld i = false) : m.flights i = [] := by
  rw [flights_eq_nil_iff, isApplying, List.any_eq_false]
  rw [isHeld, List.any_eq_false] at h
  intro f hf ha
  exact h f hf (by simpa using Frame.held?_of_applying? (by simpa using ha))

theorem contents?_of_get? (h : m.cells[i]? = some c) :
    m.contents? i = some (c.value, c.pending) := by
  rw [contents?, h]
  rfl

theorem contents?_put (h : m.cells[i]? = some c') (j : Nat) :
    (m.put i c).contents? j = if j = i then some (c.value, c.pending) else m.contents? j := by
  have hlt : i < m.cells.size := (Array.getElem?_eq_some_iff.1 h).1
  by_cases hj : j = i
  · simp [contents?, put, hj, hlt]
  · simp [contents?, put, hj, Ne.symm hj]

theorem flushes_enqueue_flush (m : Machine α ρ) (i j : Nat) :
    (m.enqueue (.flush i)).flushes j = m.flushes j + if j = i then 1 else 0 := by
  by_cases h : j = i
  · simp [flushes, enqueue, Task.isFlushOf, h]
  · simp [flushes, enqueue, Task.isFlushOf, h, Ne.symm h]

/-- The cell behind a name exists and is alive. -/
theorem of_named? {name : String} (h : m.named? name = some (i, c)) :
    m.cells[i]? = some c ∧ m.isAlive i := by
  unfold named? at h
  obtain ⟨j, hj, hcell⟩ := Option.bind_eq_some_iff.1 h
  obtain ⟨c', hc', he⟩ := Option.map_eq_some_iff.1 hcell
  cases he
  refine ⟨hc', isAlive_iff.2 (Or.inl ⟨_, OrderedMap.mem_of_find? hj, rfl⟩)⟩

/-! ## Steps that nothing happens in -/

/-- The value of a cell, its waiting changes and its flushes are the same, and it has
not come alive. -/
structure QuietAt (m m' : Machine α ρ) (i : Nat) : Prop where
  contents : m'.contents? i = m.contents? i
  flights : m'.flights i = m.flights i
  flushes : m'.flushes i = m.flushes i
  alive : m'.isAlive i → m.isAlive i

/-- That is so for all cells. -/
def Quiet (m m' : Machine α ρ) : Prop :=
  ∀ i, QuietAt m m' i

theorem QuietAt.trans (h : QuietAt m m' i) (h' : QuietAt m' m₁ i) : QuietAt m m₁ i where
  contents := h'.contents.trans h.contents
  flights := h'.flights.trans h.flights
  flushes := h'.flushes.trans h.flushes
  alive hi := h.alive (h'.alive hi)

namespace Quiet

theorem refl (m : Machine α ρ) : Quiet m m :=
  fun _ => ⟨rfl, rfl, rfl, id⟩

theorem trans (h : Quiet m m') (h' : Quiet m' m₁) : Quiet m m₁ :=
  fun i => (h i).trans (h' i)

/-- What is noted down, labels and the emitter do not matter. -/
theorem of_eq (hcells : m'.cells = m.cells) (hnames : m'.names = m.names)
    (hqueue : m'.queue = m.queue) (hstack : m'.stack = m.stack) : Quiet m m' := fun i => by
  constructor
  · rw [contents?, hcells, contents?]
  · rw [Machine.flights, hstack, Machine.flights]
  · rw [Machine.flushes, hqueue, Machine.flushes]
  · rw [isAlive_iff, isAlive_iff, hnames, hstack]
    exact id

theorem answer (m : Machine α ρ) (word : String) (r : Reply α ρ) : Quiet m (m.answer word r) := by
  obtain ⟨log, reply, h⟩ := m.exists_answer_eq word r
  rw [h]
  exact of_eq rfl rfl rfl rfl

/-- Frames that change no cell may be put on the stack if they hold what is alive. -/
theorem push {f : Frame α ρ} (hf : ∀ i, f.flight? i = none)
    (hheld : ∀ i, f.held? = some i → m.isAlive i) : Quiet m (m.push f) := fun i => by
  refine ⟨rfl, List.filterMap_cons_none (hf i), rfl, fun hi => ?_⟩
  rw [isAlive_iff] at hi
  rcases hi with hn | ⟨g, hg, hgi⟩
  · exact isAlive_iff.2 (Or.inl hn)
  · rcases List.mem_cons.1 hg with rfl | hg
    · exact hheld i hgi
    · exact isAlive_iff.2 (Or.inr ⟨g, hg, hgi⟩)

theorem push_free (m : Machine α ρ) {f : Frame α ρ} (hf : f.held? = none) : Quiet m (m.push f) := by
  apply push
  · intro i
    cases f <;> simp_all [Frame.held?, Frame.flight?]
  · intro i hi
    rw [hf] at hi
    cases hi

theorem pop {f : Frame α ρ} {fs : List (Frame α ρ)} (hs : m.stack = f :: fs)
    (hf : ∀ i, f.flight? i = none) : Quiet m { m with stack := fs } := fun i => by
  refine ⟨rfl, ?_, rfl, fun hi => ?_⟩
  · rw [Machine.flights, Machine.flights, hs, List.filterMap_cons_none (hf i)]
  · rw [isAlive_iff] at hi ⊢
    rcases hi with hn | ⟨g, hg, hgi⟩
    · exact Or.inl hn
    · exact Or.inr ⟨g, hs ▸ List.mem_cons_of_mem _ hg, hgi⟩

/-- The top of the stack may give way to another frame that holds the same. -/
theorem replace {f f' : Frame α ρ} {fs : List (Frame α ρ)} (hs : m.stack = f :: fs)
    (hf : ∀ i, f.flight? i = none) (hf' : ∀ i, f'.flight? i = none) (hheld : f'.held? = f.held?) :
    Quiet m { m with stack := f' :: fs } := fun i => by
  refine ⟨rfl, ?_, rfl, fun hi => ?_⟩
  · rw [Machine.flights, Machine.flights, hs, List.filterMap_cons_none (hf i),
      List.filterMap_cons_none (hf' i)]
  · rw [isAlive_iff] at hi ⊢
    rcases hi with hn | ⟨g, hg, hgi⟩
    · exact Or.inl hn
    · right
      rcases List.mem_cons.1 hg with rfl | hg
      · exact ⟨f, hs ▸ List.mem_cons_self .., hheld ▸ hgi⟩
      · exact ⟨g, hs ▸ List.mem_cons_of_mem _ hg, hgi⟩

theorem dequeue {body : Script α ρ} {ts : List (Task α ρ)} (hq : m.queue = .script body :: ts) :
    Quiet m { m with queue := ts } := fun i => by
  refine ⟨rfl, rfl, ?_, id⟩
  rw [Machine.flushes, Machine.flushes, hq]
  simp [Task.isFlushOf]

theorem enqueue (m : Machine α ρ) (body : Script α ρ) : Quiet m (m.enqueue (.script body)) :=
  fun i => ⟨rfl, rfl, by simp [Machine.flushes, Machine.enqueue, Task.isFlushOf], id⟩

/-- Listeners of a cell do not matter. -/
theorem put (h : m.cells[i]? = some c) (c' : Cell α (Change α ρ) (Script α ρ))
    (hv : c'.value = c.value) (hp : c'.pending = c.pending) : Quiet m (m.put i c') := fun j => by
  refine ⟨?_, rfl, rfl, id⟩
  rw [contents?_put h, hv, hp]
  split
  · rename_i hj
    rw [hj, contents?_of_get? h]
  · rfl

/-- Names may be given to what is alive, and given up. -/
theorem names {names : OrderedMap String Nat} (h : ∀ e ∈ names.entries, m.isAlive e.2) :
    Quiet m { m with names } := fun i => by
  refine ⟨rfl, rfl, rfl, fun hi => ?_⟩
  rw [isAlive_iff] at hi
  rcases hi with ⟨e, he, rfl⟩ | hf
  · exact h e he
  · exact isAlive_iff.2 (Or.inr hf)

end Quiet

theorem isAlive_of_mem {e : String × Nat} (h : e ∈ m.names.entries) : m.isAlive e.2 :=
  isAlive_iff.2 (Or.inl ⟨e, h, rfl⟩)

/-- What is done to a named cell is quiet if it is for every cell that is alive. -/
theorem quiet_withNamed {word name : String}
    {f : Nat → Cell α (Change α ρ) (Script α ρ) → Machine α ρ}
    (h : ∀ i c, m.cells[i]? = some c → m.isAlive i → (f i c).conflict = false → Quiet m (f i c))
    (hc : (m.withNamed word name f).conflict = false) : Quiet m (m.withNamed word name f) := by
  unfold withNamed at hc ⊢
  cases hn : m.named? name with
  | none => exact .answer m word .missing
  | some ic =>
      rw [hn] at hc
      obtain ⟨hcell, halive⟩ := of_named? hn
      exact h ic.1 ic.2 hcell halive hc

theorem quiet_unlessApplying {m' : Machine α ρ} {i : Nat} (hm : Quiet m m')
    (hc : (if m.isApplying i then m.fail else m').conflict = false) :
    Quiet m (if m.isApplying i then m.fail else m') := by
  split at hc
  · cases hc
  · rwa [if_neg ‹_›]

/-- An action is quiet, or creates a cell, or submits a change to a cell that is alive. -/
theorem perform_cases {v : Option α} {word : String} {a : Action α ρ}
    (hc : (m.perform v word a).conflict = false) :
    (Quiet m (m.perform v word a) ∧ m.performed a = []) ∨
    (∃ name value, a = .create name value) ∨
    (∃ i c x, m.cells[i]? = some c ∧ m.isAlive i ∧ m.perform v word a = m.submit i c x ∧
      m.performed a = [submitted i x]) := by
  cases a with
  | create name value => exact Or.inr (Or.inl ⟨name, value, rfl⟩)
  | change name body update =>
      rw [perform, withNamed, performed]
      cases hn : m.named? name with
      | none => exact Or.inl ⟨.answer m word .missing, rfl⟩
      | some ic =>
          obtain ⟨hcell, halive⟩ := of_named? hn
          exact Or.inr (Or.inr ⟨ic.1, ic.2, _, hcell, halive, rfl, rfl⟩)
  | note label => exact Or.inl ⟨Quiet.of_eq rfl rfl rfl rfl, rfl⟩
  | guarded test body =>
      refine Or.inl ⟨?_, rfl⟩
      rw [perform]
      split
      · exact .push_free m rfl
      · exact .refl m
  | defer body => exact Or.inl ⟨.enqueue m body, rfl⟩
  | drain => exact Or.inl ⟨.push_free m rfl, rfl⟩
  | queued => exact Or.inl ⟨.answer m word _, rfl⟩
  | share name other =>
      refine Or.inl ⟨quiet_withNamed (fun i c _ halive _ => ?_) hc, rfl⟩
      refine .names fun e he => ?_
      rcases OrderedMap.mem_write he with rfl | he
      · exact halive
      · exact isAlive_of_mem he
  | release name =>
      refine Or.inl ⟨?_, rfl⟩
      refine Quiet.trans (.names fun e he => ?_) (.answer _ word _)
      exact isAlive_of_mem ((OrderedMap.drop_sublist name _).subset he)
  | read name view =>
      exact Or.inl ⟨quiet_withNamed
        (fun i c _ _ hf => quiet_unlessApplying (.answer m word _) hf) hc, rfl⟩
  | visit name body =>
      refine Or.inl ⟨quiet_withNamed (fun i c _ halive hf => ?_) hc, rfl⟩
      have hvisit : Quiet m ((m.push (.visit i)).push (.script (some c.value) body)) := by
        refine Quiet.trans (.push (fun _ => rfl) fun j hj => ?_) (.push_free _ rfl)
        cases hj
        exact halive
      exact quiet_unlessApplying hvisit hf
  | isPending name =>
      exact Or.inl ⟨quiet_withNamed (fun i c _ _ _ => .answer m word _) hc, rfl⟩
  | describe name =>
      exact Or.inl ⟨quiet_withNamed
        (fun i c _ _ hf => quiet_unlessApplying (.answer m word _) hf) hc, rfl⟩
  | listen name label body =>
      refine Or.inl ⟨quiet_withNamed (fun i c hcell _ _ => ?_) hc, rfl⟩
      refine Quiet.trans (.put hcell (c.listen body) rfl rfl) (Quiet.trans ?_ (.answer _ word _))
      exact .of_eq rfl rfl rfl rfl
  | unlisten name label =>
      refine Or.inl ⟨quiet_withNamed (fun i c hcell _ _ => ?_) hc, rfl⟩
      cases m.labels.get? label with
      | none => exact .answer m word _
      | some key => exact Quiet.trans (.put hcell (c.unlisten key) rfl rfl) (.answer _ word _)
  | subscribe topic label body =>
      refine Or.inl ⟨Quiet.trans ?_ (.answer _ word _), rfl⟩
      exact .of_eq rfl rfl rfl rfl
  | unsubscribe topic label =>
      refine Or.inl ⟨?_, rfl⟩
      rw [perform]
      cases m.labels.get? label with
      | none => exact .answer m word _
      | some key =>
          refine Quiet.trans ?_ (.answer _ word _)
          exact .of_eq rfl rfl rfl rfl
  | unsubscribeAll topic => exact Or.inl ⟨Quiet.of_eq rfl rfl rfl rfl, rfl⟩
  | subscribers topic => exact Or.inl ⟨.answer m word _, rfl⟩
  | emit topic data => exact Or.inl ⟨.push_free m rfl, rfl⟩
  | topics => exact Or.inl ⟨.answer m word _, rfl⟩

end Machine

end LiveMarkup
