import LiveMarkup.Proofs.Reactive.Drain
import LiveMarkup.Proofs.Reactive.Handles
import Mathlib.Algebra.Ring.Nat

/-!
# What a step does to the queue and to the emitter

An action may queue a task and may make a call of the emitter, and runs of tasks get no
further by it (`Machine.effect_perform`). Tasks are started, and runs of tasks come to their
end, in steps of their own. This is all that a step does to the queue, the emitter and the
runs of tasks (`Machine.step_cases`), and what is proved of these need not look at the
actions one by one.
-/

namespace LiveMarkup

variable {α ρ : Type}

/-- What happens to tasks. -/
inductive Service (α ρ : Type) where
  | queued (task : Task α ρ)
  | started (task : Task α ρ)
  /-- A run of tasks finds the queue empty and returns how many it has started. -/
  | returned (count : Nat)

/-- How many tasks a run of tasks has started. -/
def Frame.taken : Frame α ρ → Nat
  | .drain _ n => n
  | _ => 0

namespace Machine

/-- The task that an action queues. -/
def queues? (m : Machine α ρ) : Action α ρ → Option (Task α ρ)
  | .defer body => some (.script body)
  | .change name _ _ =>
    (m.named? name).bind fun ic => if ic.2.isPending then none else some (.flush ic.1)
  | _ => none

/-- The calls of the emitter that an action makes. -/
def calls (m : Machine α ρ) : Action α ρ → List (Emitter.Call (Script α ρ))
  | .subscribe topic _ body => [.on topic body]
  | .unsubscribe topic label =>
    match m.labels.get? label with
    | none => []
    | some key => [.off topic key]
  | .unsubscribeAll topic => [.offAll topic]
  | _ => []

/-- What happens to tasks in a step. -/
def serves? (m : Machine α ρ) : Option (Service α ρ) :=
  if m.conflict then none
  else match m.stack with
  | .script _ ((_, a) :: _) :: _ => (m.queues? a).map .queued
  | .drain _ n :: _ =>
    match m.queue with
    | [] => some (.returned n)
    | t :: _ => some (.started t)
  | _ => none

/-- The calls of the emitter that a step makes. -/
def calling (m : Machine α ρ) : List (Emitter.Call (Script α ρ)) :=
  if m.conflict then []
  else match m.stack with
  | .script _ ((_, a) :: _) :: _ => m.calls a
  | _ => []

/-- How many tasks the runs of tasks on the stack have started. -/
def counted (m : Machine α ρ) : Nat :=
  (m.stack.map Frame.taken).sum

/-- A task was queued, or none, calls of the emitter were made, and the runs of tasks have
come no further. -/
structure Effect (m m' : Machine α ρ) (o : Option (Task α ρ))
    (cs : List (Emitter.Call (Script α ρ))) : Prop where
  queue : m'.queue = m.queue ++ o.toList
  emitter : m'.emitter = cs.foldl Emitter.call m.emitter
  counted : m'.counted = m.counted

variable {m m' m₁ : Machine α ρ} {o : Option (Task α ρ)} {cs cs' : List (Emitter.Call (Script α ρ))}
  {f : Frame α ρ} {fs : List (Frame α ρ)}

namespace Effect

theorem of_eq (hqueue : m'.queue = m.queue) (hemitter : m'.emitter = m.emitter)
    (hstack : m'.stack = m.stack) : Effect m m' none [] where
  queue := by simp [hqueue]
  emitter := hemitter
  counted := by simp [Machine.counted, hstack]

theorem refl (m : Machine α ρ) : Effect m m none [] :=
  of_eq rfl rfl rfl

theorem answer (m : Machine α ρ) (word : String) (r : Reply α ρ) :
    Effect m (m.answer word r) none [] :=
  of_eq (queue_answer m word r) (emitter_answer m word r) (stack_answer m word r)

theorem push (m : Machine α ρ) (hf : f.taken = 0) : Effect m (m.push f) none [] where
  queue := by simp [Machine.push]
  emitter := rfl
  counted := by simp [Machine.counted, Machine.push, hf]

theorem pop (hs : m.stack = f :: fs) (hf : f.taken = 0) :
    Effect m { m with stack := fs } none [] where
  queue := by simp
  emitter := rfl
  counted := by simp [Machine.counted, hs, hf]

/-- What was done before is all the same if it led to the same. -/
theorem after (h : Effect m' m₁ o cs') (hqueue : m'.queue = m.queue)
    (hemitter : cs'.foldl Emitter.call m'.emitter = cs.foldl Emitter.call m.emitter)
    (hcounted : m'.counted = m.counted) : Effect m m₁ o cs where
  queue := hqueue ▸ h.queue
  emitter := h.emitter.trans hemitter
  counted := h.counted.trans hcounted

end Effect

theorem queue_perform (m : Machine α ρ) (v : Option α) (word : String) (a : Action α ρ) :
    (m.perform v word a).queue = m.queue ++ (m.queues? a).toList := by
  cases a with
  | change name body update =>
      simp only [perform, withNamed, submit, queues?]
      cases m.named? name with
      | none => simp
      | some ic =>
          dsimp only [Option.bind_some]
          split <;> simp [put, enqueue]
  | _ =>
      simp only [perform, withNamed, queues?]
      repeat' split
      all_goals simp [push, put, enqueue, fail]

theorem emitter_perform (m : Machine α ρ) (v : Option α) (word : String) (a : Action α ρ) :
    (m.perform v word a).emitter = (m.calls a).foldl Emitter.call m.emitter := by
  cases a with
  | unsubscribe topic label =>
      simp only [perform, calls]
      cases m.labels.get? label <;> simp [Emitter.call]
  | _ =>
      simp only [perform, withNamed, submit, calls]
      repeat' split
      all_goals simp [push, put, enqueue, fail, Emitter.call]

/-- An action queues its task and makes its calls, and no run of tasks gets further. -/
theorem effect_perform (m : Machine α ρ) (v : Option α) (word : String) (a : Action α ρ) :
    Effect m (m.perform v word a) (m.queues? a) (m.calls a) where
  queue := queue_perform m v word a
  emitter := emitter_perform m v word a
  counted := by
    have htaken : ∀ f ∈ m.pushes v word a, f.taken = 0 := fun f hf => by
      rcases mem_pushes hf with ⟨_, _, rfl⟩ | rfl | ⟨_, rfl⟩ | ⟨_, _, _, rfl⟩ <;> rfl
    have hsum : ((m.pushes v word a).map Frame.taken).sum = 0 := by
      simpa [List.sum_eq_zero_iff_forall_eq_nat] using htaken
    rw [counted, counted, stack_perform, List.map_append, List.sum_append, hsum, Nat.zero_add]

theorem effect_advance (m : Machine α ρ) (i : Nat) (c : Cell α (Change α ρ) (Script α ρ))
    (xs : List (Change α ρ)) : Effect m (m.advance i c xs) none [] := by
  cases xs with
  | nil => exact .push m rfl
  | cons x xs => exact (Effect.push _ rfl).after rfl rfl (Effect.push m rfl).counted

/-- Neither does a task do any of this when it is only started. -/
theorem effect_start (m : Machine α ρ) (t : Task α ρ) : Effect m (m.start t) none [] := by
  cases t with
  | script body => exact .push m rfl
  | flush i =>
      rw [start, flush]
      split
      · exact .refl m
      · split
        · exact .refl m
        · split
          · exact .of_eq rfl rfl rfl
          · exact (effect_advance ..).after rfl rfl rfl

/-- In a step a task may be queued and calls may be made of the emitter, or a run of tasks
finds the queue empty and returns, or it starts the first task there is. -/
theorem step_cases (m : Machine α ρ) :
    (∃ o, m.serves? = o.map .queued ∧ Effect m m.step o m.calling) ∨
    (∃ word n fs, m.stack = .drain word n :: fs ∧ m.queue = [] ∧ m.calling = [] ∧
      m.serves? = some (.returned n) ∧ m.step = { m with stack := fs }.answer word (.count n)) ∨
    (∃ word n fs t ts, m.stack = .drain word n :: fs ∧ m.queue = t :: ts ∧ m.calling = [] ∧
      m.serves? = some (.started t) ∧
      m.step = { m with queue := ts, stack := .drain word (n + 1) :: fs }.start t) := by
  obtain ⟨cells, names, labels, queue, emitter, stack, log, reply, conflict⟩ := m
  cases conflict with
  | true => exact .inl ⟨none, rfl, .refl _⟩
  | false =>
      cases stack with
      | nil => exact .inl ⟨none, rfl, .refl _⟩
      | cons f fs =>
          cases f with
          | script v body =>
              cases body with
              | nil => exact .inl ⟨none, rfl, .pop rfl rfl⟩
              | cons wa rest => exact .inl ⟨_, rfl, (effect_perform ..).after rfl rfl rfl⟩
          | drain word n =>
              cases queue with
              | nil => exact .inr (.inl ⟨word, n, fs, rfl, rfl, rfl, rfl, rfl⟩)
              | cons t ts => exact .inr (.inr ⟨word, n, fs, t, ts, rfl, rfl, rfl, rfl, rfl⟩)
          | apply i u xs =>
              refine .inl ⟨none, rfl, ?_⟩
              simp only [step, Bool.false_eq_true, if_false]
              split
              · exact .pop rfl rfl
              · exact (effect_advance ..).after rfl rfl (Effect.pop rfl rfl).counted
          | notify i v ls =>
              cases ls with
              | nil => exact .inl ⟨none, rfl, .pop rfl rfl⟩
              | cons l ls =>
                  exact .inl ⟨none, rfl, by simp [step], rfl, by simp [step, counted, Frame.taken]⟩
          | visit i => exact .inl ⟨none, rfl, .pop rfl rfl⟩
          | emit word v n ls =>
              cases ls with
              | nil =>
                  refine .inl ⟨none, rfl, ?_⟩
                  exact (Effect.answer ..).after rfl rfl (Effect.pop rfl rfl).counted
              | cons l ls =>
                  exact .inl ⟨none, rfl, by simp [step], rfl, by simp [step, counted, Frame.taken]⟩

/-- What is noted of the machines that a number of steps start from. -/
def along {β : Type} (f : Machine α ρ → List β) (k : Nat) (m : Machine α ρ) : List β :=
  (List.range k).flatMap fun j => f (runFor j m)

theorem along_succ {β : Type} (f : Machine α ρ → List β) (k : Nat) (m : Machine α ρ) :
    along f (k + 1) m = along f k m ++ f (runFor k m) := by
  simp [along, List.range_succ]

end Machine

end LiveMarkup
