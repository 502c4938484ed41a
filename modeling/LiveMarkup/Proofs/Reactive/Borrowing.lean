import LiveMarkup.Proofs.Reactive.Drain

/-!
# What a run borrows

A value is borrowed while something is done with it: to be written while changes are
applied to a cell, and to be read while its listeners are told or a visitor looks at it.
The waiting changes and the listeners of a cell, and the queue, are borrowed too, but
given back before anyone is called. A part that is borrowed to be written cannot be
borrowed a second time, and a machine that is asked to do so is in conflict.

Which scripts are at work is read off the stack down to the last run of tasks
(`Machine.task`), since a task is on its own. A run is considerate if no change looks at
the value of its own cell, directly or through what it calls, and no change, listener or
visitor of a cell runs tasks (`Machine.considers`). Then a run of tasks is begun only
while no value is borrowed, so a flush finds its value free however runs of tasks are
nested (`Machine.Steady`), and all borrows of a considerate run agree
(`Machine.Considerate.conflictFree`).
-/

namespace LiveMarkup

variable {α ρ : Type}

/-- What can be borrowed. -/
inductive Part where
  | value (cell : Nat)
  | pending (cell : Nat)
  | listeners (cell : Nat)
  | queue

/-- A part that is borrowed, to be read or to be written. -/
inductive Borrow where
  | read (part : Part)
  | write (part : Part)

namespace Borrow

/-- The part that is borrowed. -/
def part : Borrow → Part
  | read p => p
  | write p => p

/-- Two borrows may be there at once if they are of different parts or both only to read. -/
def Agrees : Borrow → Borrow → Prop
  | read _, read _ => True
  | b, b' => b.part ≠ b'.part

theorem agrees_of_part_ne {b b' : Borrow} (h : b.part ≠ b'.part) : b.Agrees b' := by
  cases b with
  | read p =>
    cases b' with
    | read q => trivial
    | write q => exact h
  | write p => exact h

end Borrow

namespace Frame

/-- What is borrowed as long as a frame is there. -/
def borrows : Frame α ρ → List Borrow
  | .apply i _ _ => [.write (.value i)]
  | .notify i _ _ => [.read (.value i)]
  | .visit i => [.read (.value i)]
  | _ => []

/-- Whether a frame is a run of tasks. -/
def isDrain : Frame α ρ → Bool
  | .drain _ _ => true
  | _ => false

/-- Whether a frame is a run of tasks or a part of a flush, which a run of tasks begins. -/
def isOutermost : Frame α ρ → Bool
  | .drain _ _ => true
  | .apply _ _ _ => true
  | .notify _ _ _ => true
  | _ => false

/-- What may stand above what: a run of tasks or a flush stands above no frame that holds a
cell, and what holds a cell does not stand above a change of it. -/
structure StandsOn (f g : Frame α ρ) : Prop where
  free : f.isOutermost = true → g.held? = none
  unchanged : ∀ i, f.held? = some i → g.applying? ≠ some i

variable {f g : Frame α ρ}

theorem borrows_of_held? (h : f.held? = none) : f.borrows = [] := by
  cases f <;> simp_all [held?, borrows]

theorem standsOn_of_free (hf : f.isOutermost = false) (hheld : f.held? = none) : f.StandsOn g where
  free h := by
    rw [hf] at h
    cases h
  unchanged i h := by
    rw [hheld] at h
    cases h

theorem standsOn_of_held? (h : g.held? = none) : f.StandsOn g where
  free _ := h
  unchanged i _ hg := by
    rw [held?_of_applying? hg] at h
    cases h

/-- A frame below one that reads the value of a cell reads values too, or borrows none of that
cell. -/
theorem agrees_read {i : Nat} (h : g.applying? ≠ some i) {b : Borrow} (hb : b ∈ g.borrows) :
    (Borrow.read (.value i)).Agrees b := by
  cases g with
  | apply j u xs =>
      rw [borrows, List.mem_singleton] at hb
      subst hb
      rintro ⟨⟩
      exact h rfl
  | notify j v ls =>
      rw [borrows, List.mem_singleton] at hb
      exact hb ▸ trivial
  | visit j =>
      rw [borrows, List.mem_singleton] at hb
      exact hb ▸ trivial
  | script v rest => cases hb
  | drain word n => cases hb
  | emit word v n ls => cases hb

/-- What a frame has borrowed agrees with what those below it have. -/
theorem StandsOn.agrees (h : f.StandsOn g) {b b' : Borrow} (hb : b ∈ f.borrows)
    (hb' : b' ∈ g.borrows) : b.Agrees b' := by
  have hfree : f.isOutermost = true → b.Agrees b' := fun hf => by
    rw [borrows_of_held? (h.free hf)] at hb'
    cases hb'
  cases f with
  | visit i =>
      rw [borrows, List.mem_singleton] at hb
      exact hb ▸ agrees_read (h.unchanged i rfl) hb'
  | apply i u xs => exact hfree rfl
  | notify i v ls => exact hfree rfl
  | script v rest => cases hb
  | drain word n => cases hb
  | emit word v n ls => cases hb

end Frame

namespace Machine

/-! ## Considerate runs -/

/-- What is being done in the task that the machine is in: the frames above the last run of
tasks. -/
def task (m : Machine α ρ) : List (Frame α ρ) :=
  m.stack.takeWhile fun f => !f.isDrain

/-- Whether the cell behind a name is not being changed in the task that the machine is
in. -/
def isUnchanged (m : Machine α ρ) (name : String) : Bool :=
  match m.named? name with
  | none => true
  | some (i, _) => m.task.all fun f => f.applying? != some i

/-- Whether an action is considerate: tasks are not run by a change, a listener or a visitor
of a cell, and a value is not looked at by a change of its own cell. -/
def considers (m : Machine α ρ) : Action α ρ → Bool
  | .drain => m.task.all fun f => f.held?.isNone
  | .read name _ => m.isUnchanged name
  | .visit name _ => m.isUnchanged name
  | .describe name => m.isUnchanged name
  | _ => true

/-- Whether the action that is begun in the next step, if there is one, is considerate. -/
def isConsiderate (m : Machine α ρ) : Bool :=
  match m.stack with
  | .script _ ((_, a) :: _) :: _ => m.considers a
  | _ => true

/-- The machines that are reached by considerate runs. -/
inductive Considerate : Machine α ρ → Prop where
  | start (ls : List (String × Script α ρ)) : Considerate (withListeners ls)
  | request {m : Machine α ρ} (word : String) (a : Action α ρ) :
      Considerate m → m.stack = [] → Considerate (m.request word a)
  | step {m : Machine α ρ} : Considerate m → m.isConsiderate = true → Considerate m.step

/-! ## What a step borrows -/

/-- What is borrowed of the cell behind a name. -/
def borrowsNamed (m : Machine α ρ) (name : String)
    (f : Nat → Cell α (Change α ρ) (Script α ρ) → List Borrow) : List Borrow :=
  match m.named? name with
  | none => []
  | some (i, c) => f i c

/-- What is borrowed to begin an action. The first change to wait is queued as well. -/
def borrowsFor (m : Machine α ρ) : Action α ρ → List Borrow
  | .defer _ => [.write .queue]
  | .queued => [.read .queue]
  | .read name _ => m.borrowsNamed name fun i _ => [.read (.value i)]
  | .visit name _ => m.borrowsNamed name fun i _ => [.read (.value i)]
  | .describe name => m.borrowsNamed name fun i _ =>
    [.read (.value i), .read (.pending i), .read (.listeners i)]
  | .isPending name => m.borrowsNamed name fun i _ => [.read (.pending i)]
  | .change name _ _ => m.borrowsNamed name fun i c =>
    .write (.pending i) :: if c.isPending then [] else [.write .queue]
  | .listen name _ _ => m.borrowsNamed name fun i _ => [.write (.listeners i)]
  | .unlisten name _ => m.borrowsNamed name fun i _ => [.write (.listeners i)]
  | _ => []

/-- What is borrowed to begin the flush of a cell. -/
def borrowsToFlush (m : Machine α ρ) (i : Nat) : List Borrow :=
  match m.cells[i]? with
  | none => []
  | some c =>
    if m.isAlive i then .write (.pending i) :: if c.isPending then [.write (.value i)] else []
    else []

/-- What is borrowed in a step, beside what the frames below the top have borrowed. A flush
that has made its last change gives the value back, takes down the listeners and borrows
the value again. -/
def borrowing (m : Machine α ρ) : List Borrow :=
  match m.stack with
  | .script _ ((_, a) :: _) :: _ => m.borrowsFor a
  | .drain _ _ :: _ =>
    .write .queue ::
      match m.queue with
      | .flush i :: _ => m.borrowsToFlush i
      | _ => []
  | .apply i _ [] :: _ => [.read (.listeners i), .read (.value i)]
  | f :: _ => f.borrows
  | [] => []

/-! ## Nothing is held below a run of tasks -/

variable {m : Machine α ρ} {f : Frame α ρ} {fs : List (Frame α ρ)} {i : Nat}

/-- The machine is not in conflict, and each frame may stand on those below it. -/
structure Steady (m : Machine α ρ) : Prop where
  unconflicted : m.conflict = false
  stands : m.stack.Pairwise Frame.StandsOn

/-- Nothing that holds a cell stands below a run of tasks. -/
theorem mem_takeWhile_of_held? (hs : fs.Pairwise Frame.StandsOn) (hf : f ∈ fs)
    (hheld : f.held? = some i) : f ∈ fs.takeWhile fun f => !f.isDrain := by
  induction fs with
  | nil => cases hf
  | cons g fs ih =>
      obtain ⟨hg, hfs⟩ := List.pairwise_cons.1 hs
      have hdrain : g.isDrain = false := by
        cases g with
        | drain word n =>
            rcases List.mem_cons.1 hf with rfl | hf
            · cases hheld
            · rw [(hg f hf).free rfl] at hheld
              cases hheld
        | _ => rfl
      rw [List.takeWhile_cons, hdrain]
      rcases List.mem_cons.1 hf with rfl | hf
      · exact List.mem_cons_self ..
      · exact List.mem_cons_of_mem _ (ih hfs hf)

namespace Steady

theorem of_eq {m' : Machine α ρ} (h : m.Steady) (hconflict : m'.conflict = m.conflict)
    (hstack : m'.stack = m.stack) : m'.Steady :=
  ⟨hconflict.trans h.unconflicted, hstack ▸ h.stands⟩

theorem answer (h : m.Steady) (word : String) (r : Reply α ρ) : (m.answer word r).Steady :=
  h.of_eq (conflict_answer m word r) (stack_answer m word r)

theorem push (h : m.Steady) (hf : ∀ g ∈ m.stack, f.StandsOn g) : (m.push f).Steady :=
  ⟨h.unconflicted, List.pairwise_cons.2 ⟨hf, h.stands⟩⟩

theorem push_free (h : m.Steady) (hf : f.isOutermost = false) (hheld : f.held? = none) :
    (m.push f).Steady :=
  h.push fun _ _ => Frame.standsOn_of_free hf hheld

/-- What holds a cell is at work in the task that the machine is in. -/
theorem mem_task (h : m.Steady) (hf : f ∈ m.stack) (hheld : f.held? = some i) : f ∈ m.task :=
  mem_takeWhile_of_held? h.stands hf hheld

/-- A cell that is not being changed in the present task is not being changed at all. -/
theorem applying?_ne (h : m.Steady) {name : String} (hname : m.isUnchanged name = true)
    {c : Cell α (Change α ρ) (Script α ρ)} (hnamed : m.named? name = some (i, c)) :
    ∀ f ∈ m.stack, f.applying? ≠ some i := by
  intro f hf hi
  rw [isUnchanged, hnamed] at hname
  have hne := List.all_eq_true.1 hname f (h.mem_task hf (Frame.held?_of_applying? hi))
  simp [hi] at hne

theorem isApplying_eq_false (h : m.Steady) {name : String} (hname : m.isUnchanged name = true)
    {c : Cell α (Change α ρ) (Script α ρ)} (hnamed : m.named? name = some (i, c)) :
    m.isApplying i = false := by
  rw [isApplying, List.any_eq_false]
  exact fun f hf => by simpa using h.applying?_ne hname hnamed f hf

/-- Tasks are run while nothing is held. -/
theorem held?_eq_none (h : m.Steady) (hdrain : m.considers .drain = true) :
    ∀ f ∈ m.stack, f.held? = none := by
  intro f hf
  cases hi : f.held? with
  | none => rfl
  | some i =>
      have hnone := List.all_eq_true.1 hdrain f (h.mem_task hf hi)
      simp [hi] at hnone

theorem clashes_eq_false (h : m.Steady) {a : Action α ρ} (ha : m.considers a = true) :
    m.clashes a = false := by
  cases a with
  | read name _ | visit name _ | describe name =>
      rw [clashes]
      cases hnamed : m.named? name with
      | none => rfl
      | some ic => exact h.isApplying_eq_false ha hnamed
  | _ => rfl

theorem stands_pushes (h : m.Steady) {a : Action α ρ} (ha : m.considers a = true) (v : Option α)
    (word : String) : (m.pushes v word a ++ m.stack).Pairwise Frame.StandsOn := by
  cases a with
  | guarded test body =>
      rw [pushes]
      split
      · exact (h.push_free rfl rfl).stands
      · exact h.stands
  | drain =>
      exact (h.push fun f hf => Frame.standsOn_of_held? (h.held?_eq_none ha f hf)).stands
  | visit name body =>
      rw [pushes]
      cases hnamed : m.named? name with
      | none => exact h.stands
      | some ic =>
          have hvisit : (m.push (.visit ic.1)).Steady := by
            refine h.push fun f hf => ⟨?_, ?_⟩
            · intro hout
              cases hout
            · intro j hj
              cases hj
              exact h.applying?_ne ha hnamed f hf
          dsimp only
          split
          · exact h.stands
          · exact (hvisit.push_free rfl rfl).stands
  | emit topic data => exact (h.push_free rfl rfl).stands
  | _ => exact h.stands

/-- A considerate action leaves the machine steady. -/
theorem perform (h : m.Steady) {a : Action α ρ} (ha : m.considers a = true) (v : Option α)
    (word : String) : (m.perform v word a).Steady where
  unconflicted := by rw [conflict_perform, h.unconflicted, h.clashes_eq_false ha, Bool.or_false]
  stands := by
    rw [stack_perform]
    exact h.stands_pushes ha v word

/-- A flush goes on where nothing is held. -/
theorem advance (h : m.Steady) (hheld : ∀ f ∈ m.stack, f.held? = none)
    (c : Cell α (Change α ρ) (Script α ρ)) (xs : List (Change α ρ)) :
    (m.advance i c xs).Steady := by
  cases xs with
  | nil => exact h.push fun f hf => Frame.standsOn_of_held? (hheld f hf)
  | cons x xs =>
      exact (h.push fun f hf => Frame.standsOn_of_held? (hheld f hf)).push_free rfl rfl

theorem isHeld_eq_false (hheld : ∀ f ∈ m.stack, f.held? = none) : m.isHeld i = false := by
  rw [isHeld, List.any_eq_false]
  intro f hf
  simp [hheld f hf]

/-- A task may be begun where nothing is held. -/
theorem start (h : m.Steady) (hheld : ∀ f ∈ m.stack, f.held? = none) (t : Task α ρ) :
    (m.start t).Steady := by
  cases t with
  | script body => exact h.push_free rfl rfl
  | flush i =>
      change (m.flush i).Steady
      unfold flush
      split
      · exact h
      · rename_i c _
        split
        · exact h
        · have hput : (m.put i c.clear).Steady := h.of_eq rfl rfl
          rw [if_neg (by simp [isHeld_eq_false hheld])]
          exact hput.advance hheld _ _

/-- The top of the stack may go, or give way to a frame that stands on as much. -/
theorem pop (h : m.Steady) (hstack : m.stack = f :: fs) : { m with stack := fs }.Steady :=
  ⟨h.unconflicted, (List.pairwise_cons.1 (hstack ▸ h.stands)).2⟩

theorem replace (h : m.Steady) (hstack : m.stack = f :: fs) {g : Frame α ρ}
    (hg : ∀ k, f.StandsOn k → g.StandsOn k) : { m with stack := g :: fs }.Steady := by
  obtain ⟨hf, hfs⟩ := List.pairwise_cons.1 (hstack ▸ h.stands)
  exact ⟨h.unconflicted, List.pairwise_cons.2 ⟨fun k hk => hg k (hf k hk), hfs⟩⟩

theorem held?_below (h : m.Steady) (hstack : m.stack = f :: fs) (hf : f.isOutermost = true) :
    ∀ g ∈ fs, g.held? = none :=
  fun g hg => ((List.pairwise_cons.1 (hstack ▸ h.stands)).1 g hg).free hf

/-- A considerate step leaves the machine steady. -/
theorem step (h : m.Steady) (hm : m.isConsiderate = true) : m.step.Steady := by
  obtain ⟨cells, names, labels, queue, emitter, stack, log, reply, conflict⟩ := m
  cases conflict with
  | true => exact h
  | false =>
      cases stack with
      | nil => exact h
      | cons f fs =>
          cases f with
          | script v body =>
              cases body with
              | nil => exact h.pop rfl
              | cons wa rest =>
                  have hrest := h.replace rfl (g := .script v rest) fun k hk => ⟨hk.1, hk.2⟩
                  exact hrest.perform hm v wa.1
          | drain word n =>
              have hbelow := h.held?_below rfl rfl
              cases queue with
              | nil => exact (h.pop rfl).answer _ _
              | cons t ts =>
                  have hagain := h.replace rfl (g := .drain word (n + 1)) fun k hk => ⟨hk.1, hk.2⟩
                  refine Steady.start ?_ (fun g hg => ?_) t
                  · exact hagain.of_eq rfl rfl
                  · rcases List.mem_cons.1 hg with rfl | hg
                    · rfl
                    · exact hbelow g hg
          | apply j u xs =>
              have hbelow := h.held?_below rfl rfl
              rw [Machine.step]
              simp only [Bool.false_eq_true, if_false]
              split
              · exact h.pop rfl
              · refine Steady.advance ?_ hbelow _ _
                exact (h.pop rfl).of_eq rfl rfl
          | notify j v ls =>
              cases ls with
              | nil => exact h.pop rfl
              | cons l ls =>
                  have hnext := h.replace rfl (g := .notify j v ls) fun k hk => ⟨hk.1, hk.2⟩
                  exact hnext.push_free rfl rfl
          | visit j => exact h.pop rfl
          | emit word v n ls =>
              cases ls with
              | nil => exact (h.pop rfl).answer _ _
              | cons l ls =>
                  have hnext := h.replace rfl (g := .emit word v n ls) fun k hk => ⟨hk.1, hk.2⟩
                  exact hnext.push_free rfl rfl

/-! ## What is borrowed agrees -/

theorem exists_of_mem_borrows {b : Borrow} (hb : b ∈ f.borrows) : ∃ i, b.part = .value i := by
  cases f with
  | apply i u xs => exact ⟨i, by rw [List.mem_singleton.1 hb]; rfl⟩
  | notify i v ls => exact ⟨i, by rw [List.mem_singleton.1 hb]; rfl⟩
  | visit i => exact ⟨i, by rw [List.mem_singleton.1 hb]; rfl⟩
  | script v rest => cases hb
  | drain word n => cases hb
  | emit word v n ls => cases hb

/-- Frames borrow values only. -/
theorem agrees_of_no_value {b b' : Borrow} (hb : ∀ i, b.part ≠ .value i) (hb' : b' ∈ f.borrows) :
    b.Agrees b' := by
  obtain ⟨i, hi⟩ := exists_of_mem_borrows hb'
  exact Borrow.agrees_of_part_ne fun he => hb i (he.trans hi)

theorem exists_of_mem_borrowsNamed {name : String}
    {g : Nat → Cell α (Change α ρ) (Script α ρ) → List Borrow} {b : Borrow}
    (hb : b ∈ m.borrowsNamed name g) : ∃ i c, m.named? name = some (i, c) ∧ b ∈ g i c := by
  unfold borrowsNamed at hb
  cases hnamed : m.named? name with
  | none =>
      rw [hnamed] at hb
      cases hb
  | some ic =>
      rw [hnamed] at hb
      exact ⟨ic.1, ic.2, rfl, hb⟩

/-- What an action borrows is no value, or one to be read that no change is made to. -/
theorem borrowsFor_cases (h : m.Steady) {a : Action α ρ} (ha : m.considers a = true) {b : Borrow}
    (hb : b ∈ m.borrowsFor a) :
    (∀ i, b.part ≠ .value i) ∨
      ∃ i, b = .read (.value i) ∧ ∀ f ∈ m.stack, f.applying? ≠ some i := by
  have hlook : ∀ {name : String} {i : Nat} {c : Cell α (Change α ρ) (Script α ρ)},
      m.isUnchanged name = true → m.named? name = some (i, c) → b = .read (.value i) →
      ∃ i, b = .read (.value i) ∧ ∀ f ∈ m.stack, f.applying? ≠ some i :=
    fun hname hnamed hb => ⟨_, hb, h.applying?_ne hname hnamed⟩
  cases a with
  | read name view =>
      obtain ⟨i, c, hnamed, hb⟩ := exists_of_mem_borrowsNamed hb
      exact .inr (hlook ha hnamed (List.mem_singleton.1 hb))
  | visit name body =>
      obtain ⟨i, c, hnamed, hb⟩ := exists_of_mem_borrowsNamed hb
      exact .inr (hlook ha hnamed (List.mem_singleton.1 hb))
  | describe name =>
      obtain ⟨i, c, hnamed, hb⟩ := exists_of_mem_borrowsNamed hb
      rcases List.mem_cons.1 hb with hb | hb
      · exact .inr (hlook ha hnamed hb)
      · left
        intro j
        simp only [List.mem_cons, List.not_mem_nil, or_false] at hb
        rcases hb with rfl | rfl <;> exact fun h => by cases h
  | isPending name =>
      obtain ⟨i, c, hnamed, hb⟩ := exists_of_mem_borrowsNamed hb
      rw [List.mem_singleton.1 hb]
      exact .inl fun _ h => by cases h
  | change name body update =>
      obtain ⟨i, c, hnamed, hb⟩ := exists_of_mem_borrowsNamed hb
      left
      intro j
      rcases List.mem_cons.1 hb with rfl | hb
      · exact fun h => by cases h
      · split at hb
        · cases hb
        · rw [List.mem_singleton.1 hb]
          exact fun h => by cases h
  | listen name label body =>
      obtain ⟨i, c, hnamed, hb⟩ := exists_of_mem_borrowsNamed hb
      rw [List.mem_singleton.1 hb]
      exact .inl fun _ h => by cases h
  | unlisten name label =>
      obtain ⟨i, c, hnamed, hb⟩ := exists_of_mem_borrowsNamed hb
      rw [List.mem_singleton.1 hb]
      exact .inl fun _ h => by cases h
  | defer body =>
      rw [List.mem_singleton.1 hb]
      exact .inl fun _ h => by cases h
  | queued =>
      rw [List.mem_singleton.1 hb]
      exact .inl fun _ h => by cases h
  | _ => cases hb

/-- Where nothing is held nothing is borrowed for long. -/
theorem agrees_of_held?_eq_none {b b' : Borrow} (hf : f.held? = none) (hb' : b' ∈ f.borrows) :
    b.Agrees b' := by
  rw [Frame.borrows_of_held? hf] at hb'
  cases hb'

/-- What a considerate step borrows agrees with what the frames below the top have. -/
theorem agrees_borrowing (h : m.Steady) (hm : m.isConsiderate = true) :
    ∀ b ∈ m.borrowing, ∀ f ∈ m.stack.tail, ∀ b' ∈ f.borrows, b.Agrees b' := by
  intro b hb g hg b' hb'
  cases hstack : m.stack with
  | nil =>
      rw [hstack] at hg
      cases hg
  | cons f fs =>
      have htop := hstack ▸ h.stands
      rw [hstack] at hg
      have hon : f.StandsOn g := (List.pairwise_cons.1 htop).1 g hg
      cases f with
      | script v body =>
          cases body with
          | nil =>
              rw [borrowing, hstack] at hb
              cases hb
          | cons wa rest =>
              rw [borrowing, hstack] at hb
              rw [isConsiderate, hstack] at hm
              rcases h.borrowsFor_cases hm hb with hvalue | ⟨i, rfl, hi⟩
              · exact agrees_of_no_value hvalue hb'
              · have hmem : g ∈ m.stack := hstack ▸ List.mem_cons_of_mem _ hg
                exact Frame.agrees_read (hi g hmem) hb'
      | drain word n => exact agrees_of_held?_eq_none (hon.free rfl) hb'
      | apply j u xs => exact agrees_of_held?_eq_none (hon.free rfl) hb'
      | notify j v ls => exact agrees_of_held?_eq_none (hon.free rfl) hb'
      | visit j =>
          rw [borrowing, hstack] at hb
          exact hon.agrees hb hb'
      | emit word v n ls =>
          rw [borrowing, hstack] at hb
          cases hb

end Steady

/-! ## Runs -/

/-- What is asked for from outside is considerate. -/
theorem considers_of_stack_eq_nil (hm : m.stack = []) (a : Action α ρ) : m.considers a = true := by
  have htask : m.task = [] := by rw [task, hm, List.takeWhile_nil]
  have hunchanged : ∀ name, m.isUnchanged name = true := fun name => by
    rw [isUnchanged, htask]
    split <;> rfl
  cases a with
  | drain => rw [considers, htask, List.all_nil]
  | read name view => exact hunchanged name
  | visit name body => exact hunchanged name
  | describe name => exact hunchanged name
  | _ => rfl

theorem Considerate.steady (h : Considerate m) : m.Steady := by
  induction h with
  | start ls => exact ⟨rfl, .nil⟩
  | @request m word a _ hm ih =>
      have hfresh : { m with log := #[], reply := .nothing }.Steady := ih.of_eq rfl rfl
      exact hfresh.perform (considers_of_stack_eq_nil hm a) none word
  | step _ hm ih => exact ih.step hm

/-- A considerate run never comes into conflict. At every point of it what is borrowed by
what is being done agrees, and so does what the next step borrows, if that is considerate
too. -/
theorem Considerate.conflictFree (h : Considerate m) :
    m.conflict = false ∧
      (m.stack.Pairwise fun f g => ∀ b ∈ f.borrows, ∀ b' ∈ g.borrows, b.Agrees b') ∧
      (m.isConsiderate = true →
        ∀ b ∈ m.borrowing, ∀ f ∈ m.stack.tail, ∀ b' ∈ f.borrows, b.Agrees b') := by
  refine ⟨h.steady.unconflicted, h.steady.stands.imp ?_, h.steady.agrees_borrowing⟩
  intro f g hon b hb b' hb'
  exact hon.agrees hb hb'

/-- Whether a number of steps are considerate. -/
def isConsiderateFor : Nat → Machine α ρ → Bool
  | 0, _ => true
  | n + 1, m => m.isConsiderate && isConsiderateFor n m.step

theorem Considerate.run {n : Nat} (h : Considerate m) (hn : isConsiderateFor n m = true) :
    Considerate (runFor n m) := by
  induction n generalizing m with
  | zero => exact h
  | succ n ih =>
      rw [isConsiderateFor, Bool.and_eq_true] at hn
      exact ih (h.step hn.1) hn.2

/-- A listener that visits its own state and, unless the value is great, submits a change of
it meanwhile. -/
def hospitable : Script Nat Nat :=
  [("", .visit "n" [("", .read "n" id),
    ("", .guarded (·.any (· < 3)) [("", .change "n" [] (· + 2))])])]

/-- A change of one state that reads another one, submits a change of its own state and
queues a task that changes the other one and runs tasks itself. -/
def versatile : Action Nat Nat :=
  .change "n" [("", .read "k" id), ("", .isPending "n"), ("", .change "n" [] (· * 2)),
    ("", .defer [("", .change "k" [] (· + 1)), ("", .drain)])] (· + 1)

/-- A run of tasks with such a listener and such a change. -/
def together : Machine Nat Nat :=
  (((((withListeners []).request "" (.create "n" 0)).request "" (.create "k" 5)).request ""
    (.listen "n" "one" hospitable)).request "" versatile).request "run" .drain

theorem considerate_together : Considerate together := by
  refine .request "run" .drain (.request "" versatile (.request "" (.listen "n" "one" hospitable)
    (.request "" (.create "k" 5) (.request "" (.create "n" 0) (.start []) ?_) ?_) ?_) ?_) ?_ <;> rfl

/-- The visitor submits its change while the value is borrowed twice to be read, and the
nested run of tasks flushes the other state. -/
theorem conflictFree_together :
    (runFor 11 together).conflict = false ∧
      (runFor 11 together).stack.flatMap Frame.borrows = [.read (.value 0), .read (.value 0)] ∧
      (runFor 11 together).borrowing = [.write (.pending 0)] ∧
      (∀ b ∈ (runFor 11 together).borrowing, ∀ f ∈ (runFor 11 together).stack.tail,
        ∀ b' ∈ f.borrows, b.Agrees b') ∧
      (runFor 40 together).conflict = false ∧ (runFor 40 together).stack = [] ∧
      (runFor 40 together).cells.toList.map (·.value) = [4, 6] := by
  have hvisit := (considerate_together.run (n := 11) rfl).conflictFree
  have hend := (considerate_together.run (n := 40) rfl).conflictFree
  exact ⟨hvisit.1, rfl, rfl, hvisit.2.2 rfl, hend.1, rfl, rfl⟩

/-- A listener that runs tasks while a change of its own state waits is in conflict over the
value it is told of. -/
example : (runFor 8 (((((withListeners []).request "" (.create "n" 0)).request ""
    (.listen "n" "one" [("", .change "n" [] (· + 1)), ("", .drain)])).request ""
    (.change "n" [] (· + 1))).request "run" .drain : Machine Nat Nat)).conflict = true :=
  rfl

end Machine

end LiveMarkup
