import LiveMarkup.Proofs.Reactive.Accounts

/-!
# Running the queue to its end

A step takes the top of the stack and nothing below it (`suffix_step`), so a run of
tasks that was asked for from outside stays at the bottom until it finds the queue
empty (`queue_of_drained`). With the accounts of every cell kept until then, nothing
waits on a cell that is alive when it ends (`Reaches.accounted`).
-/

namespace LiveMarkup.Machine

open Happening

variable {α ρ : Type} {m : Machine α ρ} {hs : List (Happening α ρ)}

/-! ## The stack below the top -/

section Suffix

variable {s : List (Frame α ρ)}

theorem suffix_answer (h : s <:+ m.stack) (word : String) (r : Reply α ρ) :
    s <:+ (m.answer word r).stack := by
  rwa [stack_answer]

theorem suffix_push (h : s <:+ m.stack) (f : Frame α ρ) : s <:+ (m.push f).stack :=
  h.trans (List.suffix_cons ..)

/-- An action takes nothing from the stack. -/
theorem suffix_perform (h : s <:+ m.stack) (v : Option α) (word : String) (a : Action α ρ) :
    s <:+ (m.perform v word a).stack := by
  rw [stack_perform]
  exact h.trans (List.suffix_append ..)

theorem suffix_advance (h : s <:+ m.stack) (i : Nat) (c : Cell α (Change α ρ) (Script α ρ))
    (xs : List (Change α ρ)) : s <:+ (m.advance i c xs).stack := by
  cases xs with
  | nil => exact suffix_push h _
  | cons x xs => exact suffix_push (suffix_push h _) _

theorem suffix_start (h : s <:+ m.stack) (t : Task α ρ) : s <:+ (m.start t).stack := by
  cases t with
  | script body => exact suffix_push h _
  | flush i =>
      change s <:+ (m.flush i).stack
      unfold flush
      split
      · exact h
      · split
        · exact h
        · split
          · exact h
          · apply suffix_advance
            exact h

/-- A step takes the top of the stack and nothing below it. -/
theorem suffix_step {f : Frame α ρ} (hs : m.stack = f :: s) : s <:+ m.step.stack := by
  obtain ⟨cells, names, labels, queue, emitter, stack, log, reply, conflict⟩ := m
  subst hs
  have htop : ∀ g : Frame α ρ, s <:+ g :: s := fun g => List.suffix_cons g s
  cases conflict with
  | true => exact htop f
  | false =>
      cases f with
      | script v body =>
          cases body with
          | nil => exact List.suffix_rfl
          | cons wa rest => exact suffix_perform (htop (.script v rest)) v wa.1 wa.2
      | drain word n =>
          cases queue with
          | nil =>
              apply suffix_answer
              exact List.suffix_rfl
          | cons t ts => exact suffix_start (htop (.drain word (n + 1))) t
      | apply j u xs =>
          rw [step]
          simp only [Bool.false_eq_true, if_false]
          split
          · exact List.suffix_rfl
          · apply suffix_advance
            exact List.suffix_rfl
      | notify j v ls =>
          cases ls with
          | nil => exact List.suffix_rfl
          | cons l ls => exact (htop (.notify j v ls)).trans (List.suffix_cons ..)
      | visit j => exact List.suffix_rfl
      | emit word v n ls =>
          cases ls with
          | nil =>
              apply suffix_answer
              exact List.suffix_rfl
          | cons l ls => exact (htop (.emit word v n ls)).trans (List.suffix_cons ..)

end Suffix

/-! ## Runs of tasks asked for from outside -/

/-- What was asked for from outside is a run of tasks, which goes on or has left
nothing in the queue. -/
def Draining (m : Machine α ρ) (word : String) : Prop :=
  (∃ n, [.drain word n] <:+ m.stack) ∨ m.stack = [] ∧ m.queue = []

theorem Draining.step {word : String} (h : m.Draining word) : m.step.Draining word := by
  rcases h with ⟨n, hn⟩ | ⟨hs, hq⟩
  · cases hs : m.stack with
    | nil =>
        rw [hs, List.suffix_nil] at hn
        cases hn
    | cons f fs =>
        rw [hs, List.suffix_cons_iff] at hn
        rcases hn with hn | hn
        · -- the run of tasks itself goes on
          cases hn
          obtain ⟨cells, names, labels, queue, emitter, stack, log, reply, conflict⟩ := m
          subst hs
          cases conflict with
          | true => exact Or.inl ⟨n, List.suffix_rfl⟩
          | false =>
              cases queue with
              | nil =>
                  right
                  simp [Machine.step, stack_answer, queue_answer]
              | cons t ts =>
                  refine Or.inl ⟨n + 1, ?_⟩
                  apply suffix_start
                  exact List.suffix_rfl
        · exact Or.inl ⟨n, hn.trans (suffix_step hs)⟩
  · right
    have hidle : m.step = m := by
      rw [Machine.step]
      split
      · rfl
      · rw [hs]
    rw [hidle]
    exact ⟨hs, hq⟩

theorem Draining.run {word : String} (k : Nat) (h : m.Draining word) :
    (runFor k m).Draining word := by
  induction k generalizing m with
  | zero => exact h
  | succ k ih => exact ih h.step

/-- A run of tasks that was asked for from outside ends with nothing in the queue. -/
theorem queue_of_drained {word : String} {k : Nat} (hm : m.stack = [])
    (hs : (runFor k (m.request word .drain)).stack = []) :
    (runFor k (m.request word .drain)).queue = [] := by
  have hstart : (m.request word .drain).Draining word := by
    refine Or.inl ⟨0, ?_⟩
    have hstack : .drain word 0 :: m.stack = [.drain word 0] := congrArg _ hm
    exact hstack ▸ List.suffix_rfl
  rcases hstart.run k with ⟨n, hn⟩ | ⟨-, hq⟩
  · rw [hs, List.suffix_nil] at hn
    cases hn
  · exact hq

theorem Reaches.run (h : Reaches m hs) (k : Nat) : ∃ es, Reaches (runFor k m) (hs ++ es) := by
  induction k generalizing m hs with
  | zero => exact ⟨[], by rwa [List.append_nil]⟩
  | succ k ih =>
      obtain ⟨es, hes⟩ := ih h.step
      exact ⟨m.stepped ++ es, by rwa [← List.append_assoc]⟩

/-- No change is lost, made twice or made out of turn. While no changes are being
applied to a cell that is alive, those whose turn has come and those that wait are
the ones submitted to it, in order, its value is what it was created with after
the former were made, and a flush of it is in the queue, once, if and only if some
wait. When a run of tasks that was asked for from outside has ended, none wait. -/
theorem Reaches.accounted (h : Reaches m hs) (hc : m.conflict = false) :
    (∀ i c, m.cells[i]? = some c → m.isAlive i → m.isApplying i = false →
      appliedTo i hs ++ c.pending = submittedTo i hs ∧
      (∃ v, createdAs i hs = [v] ∧ c.value = applyAll v (appliedTo i hs)) ∧
      m.flushes i = if c.pending = [] then 0 else 1) ∧
    (∀ word k, m.stack = [] → (runFor k (m.request word .drain)).stack = [] →
      (runFor k (m.request word .drain)).conflict = false →
      ∀ i c, (runFor k (m.request word .drain)).cells[i]? = some c →
        (runFor k (m.request word .drain)).isAlive i → c.pending = []) := by
  constructor
  · intro i c hcell halive happlying
    have hold := (h.kept hc i).born _ _ (contents?_of_get? hcell)
    have hnone := flights_eq_nil_iff.2 happlying
    have ho := hold.order
    rw [hnone, List.flatMap_nil, List.append_nil] at ho
    obtain ⟨v, hcreated, hv⟩ := hold.value
    rw [hnone] at hv
    exact ⟨ho, ⟨v, hcreated, hv⟩, hold.queued halive⟩
  · intro word k hm hs hc' i c hcell halive
    obtain ⟨es, hes⟩ := (Reaches.request word .drain h hc hm).run k
    have hold := (hes.kept hc' i).born _ _ (contents?_of_get? hcell)
    have hflushes := hold.queued halive
    rw [flushes, queue_of_drained hm hs] at hflushes
    by_cases hpending : c.pending = []
    · exact hpending
    · rw [if_neg hpending] at hflushes
      cases hflushes

/-- A state that waits to be changed, by a change that submits another one. -/
def doubling : Action Nat Nat :=
  .change "n" [("", .change "n" [] (· * 2))] (· + 1)

/-- A machine with such a state. -/
def tally : Machine Nat Nat :=
  ((withListeners []).request "" (.create "n" 0)).request "" doubling

theorem accounted_tally : tally.conflict = false ∧ tally.flushes 0 = 1 ∧
    (runFor 20 (tally.request "run" .drain)).stack = [] ∧
    ∃ c, (runFor 20 (tally.request "run" .drain)).cells[0]? = some c ∧ c.value = 2 ∧
      c.pending = [] := by
  have hstart : Reaches (withListeners [] : Machine Nat Nat) [] := .start []
  have hcreate := Reaches.request "" (.create "n" 0) hstart rfl rfl
  have h : Reaches tally _ := Reaches.request "" doubling hcreate rfl rfl
  have hwaiting := (h.accounted rfl).1 0 _ rfl (by decide) (by decide)
  refine ⟨rfl, hwaiting.2.2.trans rfl, rfl, _, rfl, rfl, ?_⟩
  exact (h.accounted rfl).2 "run" 20 rfl rfl rfl 0 _ rfl (by decide)

end LiveMarkup.Machine
