import LiveMarkup.Reactive.Machine

/-!
# What an action does to the parts of a machine

An action puts some frames on the stack and takes none away (`Machine.stack_perform`), it
brings the machine in conflict exactly if it looks at a value that is being changed
(`Machine.conflict_perform`), and it creates or edits one cell or none
(`Machine.cells_perform`). An answer is the reply to whoever asked, or it is noted down, and
changes nothing else. What holds of every action because of one of these parts need not be
shown action by action.
-/

namespace LiveMarkup.Machine

variable {α ρ : Type}

/-! ## Answers -/

section Answer

variable (m : Machine α ρ) (word : String) (r : Reply α ρ)

theorem exists_answer_eq : ∃ log reply, m.answer word r = { m with log, reply } := by
  unfold answer
  split
  · exact ⟨_, _, rfl⟩
  · split <;> exact ⟨_, _, rfl⟩

@[simp] theorem cells_answer : (m.answer word r).cells = m.cells := by
  obtain ⟨log, reply, h⟩ := m.exists_answer_eq word r
  rw [h]

@[simp] theorem queue_answer : (m.answer word r).queue = m.queue := by
  obtain ⟨log, reply, h⟩ := m.exists_answer_eq word r
  rw [h]

@[simp] theorem emitter_answer : (m.answer word r).emitter = m.emitter := by
  obtain ⟨log, reply, h⟩ := m.exists_answer_eq word r
  rw [h]

@[simp] theorem stack_answer : (m.answer word r).stack = m.stack := by
  obtain ⟨log, reply, h⟩ := m.exists_answer_eq word r
  rw [h]

@[simp] theorem conflict_answer : (m.answer word r).conflict = m.conflict := by
  obtain ⟨log, reply, h⟩ := m.exists_answer_eq word r
  rw [h]

variable {m r}

/-- With nothing being done, an answer goes to whoever asked. -/
theorem reply_answer (h : m.stack = []) : (m.answer word r).reply = r := by
  simp [answer, h]

/-- With something being done, an answer is noted down if it is worth it. -/
theorem log_answer (h : m.stack ≠ []) (hr : r.isNothing = false) :
    (m.answer word r).log = m.log.push (.answer word r) := by
  simp [answer, h, hr]

end Answer

/-! ## Actions -/

section Perform

variable (m : Machine α ρ) (v : Option α) (word : String)

/-- The frames that an action puts on the stack. -/
def pushes : Action α ρ → List (Frame α ρ)
  | .guarded test body => if test v then [.script v body] else []
  | .drain => [.drain word 0]
  | .visit name body =>
    match m.named? name with
    | none => []
    | some (i, c) => if m.isApplying i then [] else [.script (some c.value) body, .visit i]
  | .emit topic data => [.emit word data (m.emitter.count topic) (m.emitter.listeners topic)]
  | _ => []

/-- Whether an action looks at a value that is being changed. -/
def clashes : Action α ρ → Bool
  | .read name _ | .visit name _ | .describe name =>
    match m.named? name with
    | none => false
    | some (i, _) => m.isApplying i
  | _ => false

/-- The cells after the one behind a name is edited. -/
def edited (name : String)
    (edit : Cell α (Change α ρ) (Script α ρ) → Cell α (Change α ρ) (Script α ρ)) :
    Array (Cell α (Change α ρ) (Script α ρ)) :=
  match m.named? name with
  | none => m.cells
  | some (i, c) => m.cells.setIfInBounds i (edit c)

/-- The cells after an action. -/
def cellsAfter : Action α ρ → Array (Cell α (Change α ρ) (Script α ρ))
  | .create _ value => m.cells.push { value }
  | .change name body update => m.edited name (·.submit ⟨body, update⟩)
  | .listen name _ body => m.edited name (·.listen body)
  | .unlisten name label =>
    match m.labels.get? label with
    | none => m.cells
    | some key => m.edited name (·.unlisten key)
  | _ => m.cells

/-- An action only ever puts these frames on the stack, none of which goes on with a flush. -/
theorem mem_pushes {m : Machine α ρ} {v : Option α} {word : String} {a : Action α ρ}
    {f : Frame α ρ} (hf : f ∈ m.pushes v word a) :
    (∃ v body, f = .script v body) ∨ f = .drain word 0 ∨ (∃ i, f = .visit i) ∨
      ∃ v n ls, f = .emit word v n ls := by
  cases a with
  | visit name body =>
      rw [pushes] at hf
      split at hf
      · cases hf
      · split at hf
        · cases hf
        · simp only [List.mem_cons, List.not_mem_nil, or_false] at hf
          rcases hf with rfl | rfl
          · exact .inl ⟨_, _, rfl⟩
          · exact .inr (.inr (.inl ⟨_, rfl⟩))
  | _ => simp_all [pushes]

theorem stack_perform (a : Action α ρ) :
    (m.perform v word a).stack = m.pushes v word a ++ m.stack := by
  cases a with
  | visit name body =>
      simp only [perform, withNamed, pushes]
      cases m.named? name with
      | none => simp
      | some ic =>
          dsimp only
          split <;> simp [push, fail]
  | _ =>
      simp only [perform, withNamed, submit, pushes]
      repeat' split
      all_goals simp [push, put, enqueue, fail]

theorem conflict_perform (a : Action α ρ) :
    (m.perform v word a).conflict = (m.conflict || m.clashes a) := by
  cases a with
  | read name _ | visit name _ | describe name =>
      simp only [perform, withNamed, clashes]
      cases m.named? name with
      | none => simp
      | some ic =>
          dsimp only
          split <;> simp_all [push, fail]
  | _ =>
      simp only [perform, withNamed, submit, clashes]
      repeat' split
      all_goals simp [push, put, enqueue]

theorem cells_perform (a : Action α ρ) : (m.perform v word a).cells = m.cellsAfter a := by
  cases a with
  | change name body update =>
      simp only [perform, withNamed, submit, cellsAfter, edited]
      cases m.named? name with
      | none => simp
      | some ic =>
          dsimp only
          split <;> simp [put, enqueue]
  | listen name label body =>
      simp only [perform, withNamed, cellsAfter, edited]
      cases m.named? name <;> simp [put]
  | unlisten name label =>
      simp only [perform, withNamed, cellsAfter, edited]
      cases m.labels.get? label <;> cases m.named? name <;> simp [put]
  | _ =>
      simp only [perform, withNamed, cellsAfter]
      repeat' split
      all_goals simp [push, enqueue, fail]

end Perform

end LiveMarkup.Machine
