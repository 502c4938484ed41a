import LiveMarkup.Proofs.Histories
import LiveMarkup.Proofs.Reactive.Effects

/-!
# First in, first out

What happens to tasks is written down beside the machine as a list: a task is queued, a run
of tasks starts it, and a run of tasks that finds the queue empty returns how many it has
started (`Machine.Serves`).

The tasks queued are those started, in the same order, followed by the queue. A run of tasks
that is started by a task takes tasks away from the runs below it, so no run's number says
which tasks it started. But what the runs have returned and what those on the stack have
counted so far is the number of tasks started (`Machine.Tended`).
-/

namespace LiveMarkup

variable {α ρ : Type}

namespace Service

/-- The task that is queued. -/
def queued? : Service α ρ → Option (Task α ρ)
  | queued t => some t
  | _ => none

/-- The task that is started. -/
def started? : Service α ρ → Option (Task α ρ)
  | started t => some t
  | _ => none

/-- The number that is returned. -/
def returned? : Service α ρ → Option Nat
  | returned n => some n
  | _ => none

/-- The tasks that were queued, in order. -/
def queuedIn (ss : List (Service α ρ)) : List (Task α ρ) :=
  ss.filterMap queued?

/-- The tasks that were started, in order. -/
def startedIn (ss : List (Service α ρ)) : List (Task α ρ) :=
  ss.filterMap started?

/-- What runs of tasks have returned, in order. -/
def returnedIn (ss : List (Service α ρ)) : List Nat :=
  ss.filterMap returned?

variable {ss : List (Service α ρ)} {s : Service α ρ}

theorem queuedIn_concat (ss : List (Service α ρ)) (s : Service α ρ) :
    queuedIn (ss ++ [s]) = queuedIn ss ++ s.queued?.toList := by
  cases s <;> simp [queuedIn, queued?]

theorem startedIn_concat (ss : List (Service α ρ)) (s : Service α ρ) :
    startedIn (ss ++ [s]) = startedIn ss ++ s.started?.toList := by
  cases s <;> simp [startedIn, started?]

theorem returnedIn_concat (ss : List (Service α ρ)) (s : Service α ρ) :
    returnedIn (ss ++ [s]) = returnedIn ss ++ s.returned?.toList := by
  cases s <;> simp [returnedIn, returned?]

/-- Whenever a task was started, it was the first that had been queued and not yet started,
and whenever a run of tasks returned, all tasks that had been queued were started. -/
structure FirstInFirstOut (ss : List (Service α ρ)) : Prop where
  started : ∀ before t after, ss = before ++ .started t :: after →
    ∃ left, queuedIn before = startedIn before ++ t :: left
  returned : ∀ before n after, ss = before ++ .returned n :: after →
    startedIn before = queuedIn before

theorem firstInFirstOut_nil : FirstInFirstOut ([] : List (Service α ρ)) :=
  ⟨by simp, by simp⟩

theorem FirstInFirstOut.concat (h : FirstInFirstOut ss)
    (hstarted : ∀ t, s = .started t → ∃ left, queuedIn ss = startedIn ss ++ t :: left)
    (hreturned : ∀ n, s = .returned n → startedIn ss = queuedIn ss) :
    FirstInFirstOut (ss ++ [s]) := by
  constructor
  · intro before t after heq
    rcases History.concat_eq_append_cons heq with ⟨rfl, hs, -⟩ | ⟨later, hss, -⟩
    · exact hstarted t hs
    · exact h.started before t later hss
  · intro before n after heq
    rcases History.concat_eq_append_cons heq with ⟨rfl, hs, -⟩ | ⟨later, hss, -⟩
    · exact hreturned n hs
    · exact h.returned before n later hss

end Service

namespace Machine

open Service

/-- The machines that are reached, and what has happened to tasks by then. -/
inductive Serves : Machine α ρ → List (Service α ρ) → Prop where
  | start (ls : List (String × Script α ρ)) : Serves (withListeners ls) []
  | request {m : Machine α ρ} {ss : List (Service α ρ)} (word : String) (a : Action α ρ) :
      Serves m ss → m.conflict = false → m.stack = [] →
      Serves (m.request word a) (ss ++ ((m.queues? a).map .queued).toList)
  | step {m : Machine α ρ} {ss : List (Service α ρ)} :
      Serves m ss → Serves m.step (ss ++ m.serves?.toList)

variable {m m' : Machine α ρ} {o : Option (Task α ρ)} {f : Frame α ρ} {fs : List (Frame α ρ)}
  {cs : List (Emitter.Call (Script α ρ))}

/-! ## What a run keeps -/

/-- What a machine and what has happened to tasks have to do with each other. -/
structure Tended (m : Machine α ρ) (ss : List (Service α ρ)) : Prop where
  order : queuedIn ss = startedIn ss ++ m.queue
  inTurn : FirstInFirstOut ss
  counts : (startedIn ss).length = (returnedIn ss).sum + m.counted

variable {ss : List (Service α ρ)}

theorem tended_withListeners (ls : List (String × Script α ρ)) : Tended (withListeners ls) [] :=
  ⟨rfl, firstInFirstOut_nil, rfl⟩

theorem Tended.effect (h : m.Tended ss) (he : Effect m m' o cs) :
    m'.Tended (ss ++ (o.map queued).toList) := by
  cases o with
  | none =>
      have hqueue : m'.queue = m.queue := by simpa using he.queue
      rw [Option.map_none, Option.toList_none, List.append_nil]
      exact ⟨hqueue ▸ h.order, h.inTurn, he.counted ▸ h.counts⟩
  | some t =>
      rw [Option.map_some, Option.toList_some]
      refine ⟨?_, h.inTurn.concat (by simp) (by simp), ?_⟩
      · simp [queuedIn_concat, startedIn_concat, queued?, started?, h.order, he.queue]
      · simp [startedIn_concat, returnedIn_concat, started?, returned?, h.counts, he.counted]

/-- When a run of tasks returns, its number moves from the stack to what was returned. -/
theorem Tended.atReturn {word : String} {n : Nat} (h : m.Tended ss)
    (hs : m.stack = .drain word n :: fs) (hq : m.queue = []) :
    ({ m with stack := fs }.answer word (.count n)).Tended (ss ++ [returned n]) := by
  have hall : startedIn ss = queuedIn ss := by rw [h.order, hq, List.append_nil]
  have hcounted : m.counted = n + (fs.map Frame.taken).sum := by simp [counted, hs, Frame.taken]
  refine ⟨?_, h.inTurn.concat (by simp) fun _ _ => hall, ?_⟩
  · simp [queuedIn_concat, startedIn_concat, queued?, started?, queue_answer, hall, hq]
  · rw [startedIn_concat, returnedIn_concat, counted, stack_answer]
    simp [started?, returned?, h.counts, hcounted, Nat.add_assoc]

/-- The task that is started is the first of the queue, and the run of tasks counts it. -/
theorem Tended.atStart {word : String} {n : Nat} {t : Task α ρ} {ts : List (Task α ρ)}
    (h : m.Tended ss) (hs : m.stack = .drain word n :: fs) (hq : m.queue = t :: ts) :
    ({ m with queue := ts, stack := .drain word (n + 1) :: fs }.start t).Tended
      (ss ++ [started t]) := by
  have hfirst : queuedIn ss = startedIn ss ++ t :: ts := hq ▸ h.order
  have heffect := effect_start { m with queue := ts, stack := .drain word (n + 1) :: fs } t
  have hcounted : ({ m with queue := ts, stack := .drain word (n + 1) :: fs }.start t).counted =
      m.counted + 1 := by
    rw [heffect.counted, counted, counted, hs]
    simp only [List.map_cons, List.sum_cons, Frame.taken]
    omega
  refine ⟨?_, h.inTurn.concat (fun u hu => ?_) (by simp), ?_⟩
  · simp [queuedIn_concat, startedIn_concat, queued?, started?, hfirst, heffect.queue]
  · cases hu
    exact ⟨ts, hfirst⟩
  · rw [startedIn_concat, returnedIn_concat, hcounted]
    simp [started?, returned?, h.counts, Nat.add_assoc]

theorem Tended.step (h : m.Tended ss) : m.step.Tended (ss ++ m.serves?.toList) := by
  rcases m.step_cases with ⟨o, ho, heffect⟩ | ⟨word, n, fs, hs, hq, -, hr, hstep⟩ |
    ⟨word, n, fs, t, ts, hs, hq, -, ht, hstep⟩
  · rw [ho]
    exact h.effect heffect
  · rw [hr, hstep]
    exact h.atReturn hs hq
  · rw [ht, hstep]
    exact h.atStart hs hq

theorem Serves.tended (h : Serves m ss) : m.Tended ss := by
  induction h with
  | start ls => exact tended_withListeners ls
  | request word a _ _ _ ih => exact ih.effect ((effect_perform ..).after rfl rfl rfl)
  | step _ ih => exact ih.step

/-- A run of tasks leaves the stack only when it finds the queue empty. -/
theorem step_of_drain {word : String} {n : Nat} (hs : m.stack = .drain word n :: fs)
    (hdown : m.step.stack.length ≤ fs.length) :
    m.queue = [] ∧ m.serves? = some (returned n) ∧
      m.step = { m with stack := fs }.answer word (.count n) := by
  have hlonger : ¬ fs.length + 1 ≤ fs.length := Nat.not_succ_le_self _
  cases hconflict : m.conflict with
  | true =>
      have hstep : m.step = m := step_of_isIdle (by simp [isIdle, hconflict])
      rw [hstep, hs] at hdown
      exact absurd hdown hlonger
  | false =>
      cases hq : m.queue with
      | nil => simp [step, serves?, hconflict, hs, hq]
      | cons t ts =>
          have hstep : m.step =
              { m with queue := ts, stack := .drain word (n + 1) :: fs }.start t := by
            simp [step, hconflict, hs, hq]
          have hkept : .drain word (n + 1) :: fs <:+ m.step.stack := by
            rw [hstep]
            apply suffix_start
            exact List.suffix_rfl
          exact absurd (Nat.le_trans hkept.length_le hdown) hlonger

/-- A run of tasks that returns leaves the stack, and its number is the reply if nothing else
is being done, and is noted down otherwise. -/
theorem exists_answer_of_returned {n : Nat} (h : m.serves? = some (returned n)) :
    ∃ word fs, m.stack = .drain word n :: fs ∧ m.step.stack = fs ∧
      (fs = [] → m.step.reply = .count n) ∧
      (fs ≠ [] → m.step.log = m.log.push (.answer word (.count n))) := by
  rcases m.step_cases with ⟨o, ho, -⟩ | ⟨word, k, fs, hs, -, -, hr, hstep⟩ |
    ⟨word, k, fs, t, ts, -, -, -, ht, -⟩
  · rw [h] at ho
    cases o <;> cases ho
  · rw [h] at hr
    cases hr
    refine ⟨word, fs, hs, ?_, fun hfs => ?_, fun hfs => ?_⟩
    · rw [hstep, stack_answer]
    · rw [hstep, reply_answer word hfs]
    · rw [hstep, log_answer word hfs rfl]
  · rw [h] at ht
    cases ht

/-- The script of a task that is started is what is done next, above the run of tasks that
has started it. -/
theorem exists_script_of_started {body : Script α ρ}
    (h : m.serves? = some (started (.script body))) :
    ∃ word n fs, m.stack = .drain word n :: fs ∧
      m.step.stack = .script none body :: .drain word (n + 1) :: fs := by
  rcases m.step_cases with ⟨o, ho, -⟩ | ⟨word, n, fs, -, -, -, hr, -⟩ |
    ⟨word, n, fs, t, ts, hs, -, -, ht, hstep⟩
  · rw [h] at ho
    cases o <;> cases ho
  · rw [h] at hr
    cases hr
  · rw [h] at ht
    cases ht
    exact ⟨word, n, fs, hs, hstep ▸ rfl⟩

/-- Tasks run first in, first out, and each of them once. Those queued are those started, in
the same order, and the queue: whenever a task was started, it was the first that had been
queued and not yet started, and whenever a run of tasks returned, all that had been queued
were started. What is started is run at once, above the run of tasks that started it. A run
of tasks leaves the stack only with nothing in the queue, and the number that it returns is
the reply to whoever asked for it, or is noted down if the run was started by a task. When
nothing is being done, the numbers of all runs of tasks, those started by tasks included, add
up to the number of tasks started. -/
theorem Serves.firstInFirstOut (h : Serves m ss) :
    queuedIn ss = startedIn ss ++ m.queue ∧ FirstInFirstOut ss ∧
      (∀ body, m.serves? = some (started (.script body)) →
        ∃ word n fs, m.stack = .drain word n :: fs ∧
          m.step.stack = .script none body :: .drain word (n + 1) :: fs) ∧
      (∀ word n fs, m.stack = .drain word n :: fs → m.step.stack.length ≤ fs.length →
        m.step.queue = [] ∧ startedIn ss = queuedIn ss ∧ m.serves? = some (returned n) ∧
          m.step = { m with stack := fs }.answer word (.count n)) ∧
      (∀ n, m.serves? = some (returned n) →
        ∃ word fs, m.stack = .drain word n :: fs ∧ m.step.stack = fs ∧
          (fs = [] → m.step.reply = .count n) ∧
          (fs ≠ [] → m.step.log = m.log.push (.answer word (.count n)))) ∧
      (m.stack = [] → (returnedIn ss).sum = (startedIn ss).length) := by
  obtain ⟨horder, hturn, hcounts⟩ := h.tended
  refine ⟨horder, hturn, fun body => exists_script_of_started, fun word n fs hs hdown => ?_,
    fun n => exists_answer_of_returned, fun hs => ?_⟩
  · obtain ⟨hq, hreturned, hstep⟩ := step_of_drain hs hdown
    refine ⟨?_, ?_, hreturned, hstep⟩
    · rw [hstep, queue_answer, hq]
    · rw [horder, hq, List.append_nil]
  · rw [hcounts, counted, hs]
    rfl

theorem Serves.run (h : Serves m ss) (k : Nat) :
    Serves (runFor k m) (ss ++ along (·.serves?.toList) k m) := by
  induction k with
  | zero => exact (List.append_nil ss).symm ▸ h
  | succ k ih =>
      rw [runFor_succ, along_succ, ← List.append_assoc]
      exact ih.step

/-- A task that queues another one and runs tasks itself. -/
def greedy : Action Nat Nat :=
  .defer [("", .defer []), ("run", .drain)]

/-- A machine with that task and one behind it. -/
def busy : Machine Nat Nat :=
  ((withListeners []).request "" greedy).request "" (.defer [("", .note "b")])

/-- The run that the first task starts takes all others away from the one below it. Its number
is noted down behind what the others did, and the reply is the number of the one below. -/
theorem firstInFirstOut_busy : ∃ ss : List (Service Nat Nat),
    Serves (runFor 11 (busy.request "run" .drain)) ss ∧
      (runFor 11 (busy.request "run" .drain)).stack = [] ∧
      (runFor 11 (busy.request "run" .drain)).log =
        #[.note "b" none, .answer "run" (.count 2)] ∧
      (runFor 11 (busy.request "run" .drain)).reply = .count 1 ∧
      returnedIn ss = [2, 1] ∧ startedIn ss = queuedIn ss ∧ (startedIn ss).length = 3 := by
  have hstart : Serves (withListeners [] : Machine Nat Nat) [] := .start []
  have hfirst := hstart.request "" greedy rfl rfl
  have hbusy : Serves busy _ := hfirst.request "" (.defer [("", .note "b")]) rfl rfl
  have hrun := (hbusy.request "run" .drain rfl rfl).run 11
  obtain ⟨horder, -, -, -, -, hsum⟩ := hrun.firstInFirstOut
  refine ⟨_, hrun, rfl, rfl, rfl, rfl, ?_, ?_⟩
  · exact (horder.trans (List.append_nil _)).symm
  · exact (hsum rfl).symm

end Machine

end LiveMarkup
