import LiveMarkup.Proofs.Reactive.History

/-!
# A machine seen from one of its cells

Of all that a machine does, a cell and the flushes of it in progress (`Machine.view`) are
concerned by little: changes are submitted, listeners come and go, a flush is begun, goes
on and ends. What a run did in this respect is written down beside the machine as a list
of occurrences (`Machine.Records`), and each step is a turn of the view that goes with
what occurs in it (`Machine.turn_step`). So what is said of one cell need not be shown for
every action, but only for the nine turns.
-/

namespace LiveMarkup

variable {α ρ : Type}

/-- Something that concerns a cell. -/
inductive Occurrence (α ρ : Type) where
  | submitted (cell : Nat) (change : Change α ρ)
  | listened (cell key : Nat) (listener : Script α ρ)
  | unlistened (cell key : Nat)
  /-- A flush is begun, which finds a value and takes the changes that wait. -/
  | begun (cell : Nat) (value : α) (batch : List (Change α ρ))
  /-- An update of a change is made. -/
  | updated (cell : Nat) (update : α → α)
  /-- A listener is told of a value. -/
  | called (cell : Nat) (listener : Script α ρ) (value : α)
  /-- A flush has no one left to tell. -/
  | ended (cell : Nat)

/-- The cell that is concerned. -/
def Occurrence.cell : Occurrence α ρ → Nat
  | submitted i _ => i
  | listened i _ _ => i
  | unlistened i _ => i
  | begun i _ _ => i
  | updated i _ => i
  | called i _ _ => i
  | ended i => i

/-- How far a flush in progress has come. -/
inductive Phase (α ρ : Type) where
  /-- It is about to make an update, and has others to make after that. -/
  | making (update : α → α) (rest : List (α → α))
  /-- It tells listeners of a value, and these are left. -/
  | telling (value : α) (rest : List (Script α ρ))

/-- How a flush goes on with updates, or with the listeners of its cell once there are no
more. -/
def Phase.next (c : Cell α (Change α ρ) (Script α ρ)) : List (α → α) → Phase α ρ
  | [] => .telling c.value c.listeners.toList
  | u :: us => .making u us

/-- The flush of a cell that a frame goes on with. -/
def Frame.phase? (i : Nat) : Frame α ρ → Option (Phase α ρ)
  | .apply j update xs => if j = i then some (.making update (xs.map (·.update))) else none
  | .notify j v ls => if j = i then some (.telling v ls) else none
  | _ => none

theorem Frame.phase?_of_held? {f : Frame α ρ} {i : Nat} (h : f.held? ≠ some i) :
    f.phase? i = none := by
  cases f <;> simp_all [phase?, held?]

theorem Frame.phase?_of_ne {f : Frame α ρ} {i j : Nat} (hij : i ≠ j) (h : f.held? = some j) :
    f.phase? i = none :=
  phase?_of_held? fun hi => hij (Option.some.inj (hi.symm.trans h))

/-- A cell and the flushes of it in progress. -/
structure CellView (α ρ : Type) where
  cell : Option (Cell α (Change α ρ) (Script α ρ))
  phases : List (Phase α ρ)

open Occurrence in
/-- What can become of the view of a cell, and what then occurs. -/
inductive CellView.Turn (i : Nat) : CellView α ρ → List (Occurrence α ρ) → CellView α ρ → Prop where
  | still {w : CellView α ρ} {os : List (Occurrence α ρ)} (h : ∀ o ∈ os, o.cell ≠ i) : Turn i w os w
  | create (value : α) (ps : List (Phase α ρ)) : Turn i ⟨none, ps⟩ [] ⟨some { value }, ps⟩
  | submit (c : Cell α (Change α ρ) (Script α ρ)) (x : Change α ρ) (ps : List (Phase α ρ)) :
      Turn i ⟨some c, ps⟩ [submitted i x] ⟨some (c.submit x), ps⟩
  | listen (c : Cell α (Change α ρ) (Script α ρ)) (l : Script α ρ) (ps : List (Phase α ρ)) :
      Turn i ⟨some c, ps⟩ [listened i c.listeners.nextKey l] ⟨some (c.listen l), ps⟩
  | unlisten (c : Cell α (Change α ρ) (Script α ρ)) (key : Nat) (ps : List (Phase α ρ)) :
      Turn i ⟨some c, ps⟩ [unlistened i key] ⟨some (c.unlisten key), ps⟩
  | begin (c : Cell α (Change α ρ) (Script α ρ)) (h : c.pending ≠ []) :
      Turn i ⟨some c, []⟩ [begun i c.value c.pending]
        ⟨some c.clear, [.next c.clear (c.pending.map (·.update))]⟩
  | update (c : Cell α (Change α ρ) (Script α ρ)) (u : α → α) (us : List (α → α))
      (ps : List (Phase α ρ)) :
      Turn i ⟨some c, .making u us :: ps⟩ [updated i u]
        ⟨some (c.update u), .next (c.update u) us :: ps⟩
  | call (o : Option (Cell α (Change α ρ) (Script α ρ))) (v : α) (l : Script α ρ)
      (ls : List (Script α ρ)) (ps : List (Phase α ρ)) :
      Turn i ⟨o, .telling v (l :: ls) :: ps⟩ [called i l v] ⟨o, .telling v ls :: ps⟩
  | finish (o : Option (Cell α (Change α ρ) (Script α ρ))) (v : α) (ps : List (Phase α ρ)) :
      Turn i ⟨o, .telling v [] :: ps⟩ [ended i] ⟨o, ps⟩

namespace Machine

open Occurrence

/-! ## What occurs -/

/-- What occurs when an action is begun. -/
def performing (m : Machine α ρ) : Action α ρ → List (Occurrence α ρ)
  | .change name body update =>
    match m.named? name with
    | none => []
    | some (i, _) => [submitted i ⟨body, update⟩]
  | .listen name _ body =>
    match m.named? name with
    | none => []
    | some (i, c) => [listened i c.listeners.nextKey body]
  | .unlisten name label =>
    match m.named? name, m.labels.get? label with
    | some (i, _), some key => [unlistened i key]
    | _, _ => []
  | _ => []

/-- What occurs when a flush is begun. -/
def beginning (m : Machine α ρ) (i : Nat) : List (Occurrence α ρ) :=
  match m.cells[i]? with
  | none => []
  | some c => if m.isAlive i && c.isPending && !m.isHeld i then [begun i c.value c.pending] else []

/-- What occurs in a step. -/
def occurring (m : Machine α ρ) : List (Occurrence α ρ) :=
  if m.conflict then []
  else match m.stack with
  | .script _ ((_, a) :: _) :: _ => m.performing a
  | .drain _ _ :: _ =>
    match m.queue with
    | .flush i :: _ => m.beginning i
    | _ => []
  | .apply i update _ :: _ => [updated i update]
  | .notify i v (l :: _) :: _ => [called i l v]
  | .notify i _ [] :: _ => [ended i]
  | _ => []

theorem called_notMem_performing (m : Machine α ρ) (a : Action α ρ) (i : Nat) (l : Script α ρ)
    (v : α) : called i l v ∉ m.performing a := by
  cases a <;> simp only [performing] <;> repeat' split
  all_goals simp

theorem called_notMem_beginning (m : Machine α ρ) (i j : Nat) (l : Script α ρ) (v : α) :
    called i l v ∉ m.beginning j := by
  unfold beginning
  repeat' split
  all_goals simp

/-- A listener is called with a value when its script becomes what is done next, with the
value at hand, above the flush that goes on with the other listeners. -/
theorem called_mem_occurring_iff {m : Machine α ρ} (hc : m.conflict = false) (i : Nat)
    (l : Script α ρ) (v : α) : called i l v ∈ m.occurring ↔
      ∃ ls fs, m.stack = .notify i v (l :: ls) :: fs ∧
        m.step.stack = .script (some v) l :: .notify i v ls :: fs := by
  constructor
  · intro h
    unfold occurring at h
    rw [if_neg (by simp [hc])] at h
    split at h
    case h_1 => exact absurd h (called_notMem_performing _ _ _ _ _)
    case h_2 =>
      split at h
      · exact absurd h (called_notMem_beginning _ _ _ _ _)
      · cases h
    case h_4 j w k ls fs hs =>
      obtain ⟨rfl, rfl, rfl⟩ : i = j ∧ l = k ∧ v = w := by simpa using h
      exact ⟨ls, fs, hs, by simp [step, hc, hs]⟩
    all_goals simp at h
  · rintro ⟨ls, fs, hs, -⟩
    simp [occurring, hc, hs]

/-- The machines that are reached, and what has occurred by then. -/
inductive Records : Machine α ρ → List (Occurrence α ρ) → Prop where
  | start (ls : List (String × Script α ρ)) : Records (withListeners ls) []
  | request {m : Machine α ρ} {os : List (Occurrence α ρ)} (word : String) (a : Action α ρ) :
      Records m os → m.conflict = false → m.stack = [] →
      Records (m.request word a) (os ++ m.performing a)
  | step {m : Machine α ρ} {os : List (Occurrence α ρ)} :
      Records m os → Records m.step (os ++ m.occurring)

/-- What occurs in a number of steps. -/
def occurringFor : Nat → Machine α ρ → List (Occurrence α ρ)
  | 0, _ => []
  | n + 1, m => m.occurring ++ occurringFor n m.step

theorem Records.run {m : Machine α ρ} {os : List (Occurrence α ρ)} (h : Records m os) (n : Nat) :
    Records (runFor n m) (os ++ occurringFor n m) := by
  induction n generalizing m os with
  | zero => rwa [occurringFor, List.append_nil]
  | succ n ih =>
      rw [occurringFor, ← List.append_assoc]
      exact ih h.step

/-! ## The view of a cell -/

/-- The flushes of a cell that are in progress. -/
def phases (m : Machine α ρ) (i : Nat) : List (Phase α ρ) :=
  m.stack.filterMap (Frame.phase? i)

/-- What a cell sees of the machine. -/
def view (m : Machine α ρ) (i : Nat) : CellView α ρ :=
  ⟨m.cells[i]?, m.phases i⟩

variable {m m' : Machine α ρ} {i j : Nat} {c c' : Cell α (Change α ρ) (Script α ρ)}
  {f : Frame α ρ} {fs : List (Frame α ρ)}

/-- A cell that no frame holds has no flush in progress. -/
theorem phases_of_isHeld (h : m.isHeld i = false) : m.phases i = [] := by
  rw [isHeld, List.any_eq_false] at h
  exact List.filterMap_eq_nil_iff.2 fun f hf =>
    Frame.phase?_of_held? fun hi => h f hf (by simp [hi])

theorem phases_cons (hstack : m.stack = f :: fs) (i : Nat) :
    m.phases i = (f.phase? i).toList ++ fs.filterMap (Frame.phase? i) := by
  rw [phases, hstack, List.filterMap_cons]
  cases f.phase? i <;> rfl

theorem phases_push (m : Machine α ρ) (f : Frame α ρ) (i : Nat) :
    (m.push f).phases i = (f.phase? i).toList ++ m.phases i :=
  phases_cons rfl i

theorem view_answer (m : Machine α ρ) (word : String) (r : Reply α ρ) :
    (m.answer word r).view = m.view := by
  obtain ⟨log, reply, h⟩ := m.exists_answer_eq word r
  rw [h]
  rfl

/-- An action goes on with no flush, so that a cell sees of it only what becomes of itself. -/
theorem view_perform (m : Machine α ρ) (v : Option α) (word : String) (a : Action α ρ) (i : Nat) :
    (m.perform v word a).view i = ⟨(m.cellsAfter a)[i]?, m.phases i⟩ := by
  have hpushed : ∀ f ∈ m.pushes v word a, f.phase? i = none := fun f hf => by
    rcases mem_pushes hf with ⟨_, _, rfl⟩ | rfl | ⟨_, rfl⟩ | ⟨_, _, _, rfl⟩ <;> rfl
  rw [view, cells_perform, phases, stack_perform, List.filterMap_append,
    List.filterMap_eq_nil_iff.2 hpushed, List.nil_append, phases]

theorem view_put (hcell : m.cells[j]? = some c) (c' : Cell α (Change α ρ) (Script α ρ)) (i : Nat) :
    (m.put j c').view i = if i = j then ⟨some c', m.phases i⟩ else m.view i := by
  have hlt : j < m.cells.size := (Array.getElem?_eq_some_iff.1 hcell).1
  by_cases hi : i = j
  · subst hi
    simp [view, put, hlt, phases]
  · simp [view, put, hi, Ne.symm hi, phases]

/-- A flush of a cell goes on with updates, on top of what else is in progress. -/
theorem view_launch (hcell : m.cells[j]? = some c) (c' : Cell α (Change α ρ) (Script α ρ))
    (xs : List (Change α ρ)) (i : Nat) :
    ((m.put j c').advance j c' xs).view i =
      if i = j then ⟨some c', .next c' (xs.map (·.update)) :: m.phases j⟩ else m.view i := by
  have hcells : ((m.put j c').advance j c' xs).cells = (m.put j c').cells := by
    cases xs <;> rfl
  have hphases : ((m.put j c').advance j c' xs).phases i =
      (if i = j then [.next c' (xs.map (·.update))] else []) ++ m.phases i := by
    cases xs with
    | nil =>
        simp only [advance, phases_push, Frame.phase?, eq_comm (a := j)]
        split <;> rfl
    | cons x xs =>
        simp only [advance, phases_push, Frame.phase?, eq_comm (a := j)]
        split <;> rfl
  have hput := view_put hcell c' i
  rw [view, hcells, hphases]
  by_cases hi : i = j
  · subst hi
    rw [if_pos rfl] at hput
    rw [if_pos rfl, if_pos rfl]
    exact congrArg (CellView.mk · _) (congrArg CellView.cell hput)
  · rw [if_neg hi] at hput
    rw [if_neg hi, if_neg hi]
    exact hput

/-! ## Turns -/

/-- What a cell does not see is no turn for it. -/
theorem turn_of_view_eq (h : m'.view = m.view) (i : Nat) : (m.view i).Turn i [] (m'.view i) := by
  rw [h]
  exact .still fun o ho => absurd ho List.not_mem_nil

/-- A turn of one cell and no other. -/
theorem turn_of_others (j : Nat) {o : Occurrence α ρ} (ho : o.cell = j)
    (hothers : ∀ i, i ≠ j → m'.view i = m.view i) (hturn : (m.view j).Turn j [o] (m'.view j))
    (i : Nat) : (m.view i).Turn i [o] (m'.view i) := by
  by_cases hi : i = j
  · subst hi
    exact hturn
  · rw [hothers i hi]
    refine .still fun p hp => ?_
    rw [List.mem_singleton.1 hp, ho]
    exact Ne.symm hi

/-- A cell is edited in its place. -/
theorem turn_put {o : Occurrence α ρ} (hcell : m.cells[j]? = some c) (ho : o.cell = j)
    (hturn : ∀ ps, CellView.Turn j ⟨some c, ps⟩ [o] ⟨some c', ps⟩) (i : Nat) :
    (m.view i).Turn i [o] ((m.put j c').view i) := by
  refine turn_of_others j ho (fun i hi => ?_) ?_ i
  · rw [view_put hcell, if_neg hi]
  · rw [view_put hcell, if_pos rfl, view, hcell]
    exact hturn _

/-- An action is a turn for every cell. -/
theorem turn_perform (m : Machine α ρ) (v : Option α) (word : String) (a : Action α ρ) (i : Nat) :
    (m.view i).Turn i (m.performing a) ((m.perform v word a).view i) := by
  rw [view_perform]
  cases a with
  | change name body update =>
      simp only [cellsAfter, edited, performing]
      cases hnamed : m.named? name with
      | none => exact turn_of_view_eq rfl i
      | some jc => exact turn_put (of_named? hnamed).1 rfl (.submit jc.2 _) i
  | listen name label body =>
      simp only [cellsAfter, edited, performing]
      cases hnamed : m.named? name with
      | none => exact turn_of_view_eq rfl i
      | some jc => exact turn_put (of_named? hnamed).1 rfl (.listen jc.2 body) i
  | unlisten name label =>
      rw [cellsAfter, performing]
      cases m.labels.get? label with
      | none => cases m.named? name <;> exact turn_of_view_eq rfl i
      | some key =>
          simp only [edited]
          cases hnamed : m.named? name with
          | none => exact turn_of_view_eq rfl i
          | some jc => exact turn_put (of_named? hnamed).1 rfl (.unlisten jc.2 key) i
  | create name value =>
      by_cases hi : i = m.cells.size
      · subst hi
        have hnone : m.view m.cells.size = ⟨none, m.phases m.cells.size⟩ := by simp [view]
        rw [hnone, cellsAfter, Array.getElem?_push_size]
        exact .create value _
      · have hsame : (m.cellsAfter (.create name value))[i]? = m.cells[i]? := by
          simp [cellsAfter, Array.getElem?_push, hi]
        rw [hsame]
        exact turn_of_view_eq rfl i
  | _ => exact turn_of_view_eq rfl i

/-- A flush that is begun does nothing, or it takes the changes that wait. -/
theorem turn_flush (hc : (m.flush j).conflict = false) (i : Nat) :
    (m.view i).Turn i (m.beginning j) ((m.flush j).view i) := by
  unfold flush at hc ⊢
  unfold beginning
  cases hcell : m.cells[j]? with
  | none => exact turn_of_view_eq rfl i
  | some c =>
      rw [hcell] at hc
      dsimp only at hc ⊢
      cases halive : m.isAlive j with
      | false => exact turn_of_view_eq rfl i
      | true =>
          cases hpending : c.isPending with
          | false => exact turn_of_view_eq rfl i
          | true =>
              cases hheld : m.isHeld j with
              | true =>
                  rw [halive, hpending, hheld] at hc
                  cases hc
              | false =>
                  have hnone : m.phases j = [] := phases_of_isHeld hheld
                  have hne : c.pending ≠ [] := by simpa [Cell.isPending] using hpending
                  have hlaunch := view_launch hcell c.clear c.pending
                  refine turn_of_others j rfl (fun k hk => (hlaunch k).trans (if_neg hk)) ?_ i
                  rw [hlaunch, if_pos rfl, view, hcell, hnone]
                  exact .begin c hne

/-- The frame at the top goes on with a flush of a cell, on top of what else is in
progress. -/
theorem turn_top (j : Nat) {o : Occurrence α ρ} (hstack : m.stack = f :: fs) (ho : o.cell = j)
    (hheld : f.held? = some j)
    (hothers : ∀ i, i ≠ j → m'.view i = { m with stack := fs }.view i)
    (hturn : CellView.Turn j
      ⟨m.cells[j]?, (f.phase? j).toList ++ { m with stack := fs }.phases j⟩ [o] (m'.view j))
    (i : Nat) : (m.view i).Turn i [o] (m'.view i) := by
  refine turn_of_others j ho (fun i hi => ?_) ?_ i
  · rw [hothers i hi, view, view, phases_cons hstack, Frame.phase?_of_ne hi hheld]
    rfl
  · rw [view, phases_cons hstack]
    exact hturn

/-- An update is made, and the flush goes on. -/
theorem turn_apply {u : α → α} {xs : List (Change α ρ)} (hstack : m.stack = .apply j u xs :: fs)
    (hcell : m.cells[j]? = some c) (i : Nat) :
    (m.view i).Turn i [updated j u]
      ((({ m with stack := fs }.put j (c.update u)).advance j (c.update u) xs).view i) := by
  have hcell' : { m with stack := fs }.cells[j]? = some c := hcell
  have hlaunch := view_launch hcell' (c.update u) xs
  refine turn_top j hstack rfl rfl
    (fun k hk => (hlaunch k).trans (if_neg hk)) ?_ i
  rw [hlaunch, if_pos rfl, hcell, Frame.phase?, if_pos rfl]
  exact .update c u _ _

/-- A listener is called, and the others are left. -/
theorem turn_call {v : α} {l : Script α ρ} {ls : List (Script α ρ)}
    (hstack : m.stack = .notify j v (l :: ls) :: fs) (i : Nat) :
    (m.view i).Turn i [called j l v]
      ({ m with stack := .script (some v) l :: .notify j v ls :: fs }.view i) := by
  have hview : ∀ k, { m with stack := .script (some v) l :: .notify j v ls :: fs }.view k =
      ⟨m.cells[k]?, (Frame.phase? k (.notify j v ls)).toList ++ { m with stack := fs }.phases k⟩ :=
    fun k => congrArg (CellView.mk _) (phases_push { m with stack := fs } (.notify j v ls) k)
  refine turn_top j hstack rfl rfl
    (fun k hk => (hview k).trans ?_) ?_ i
  · rw [Frame.phase?, if_neg (Ne.symm hk)]
    rfl
  · rw [hview, Frame.phase?, Frame.phase?, if_pos rfl, if_pos rfl]
    exact .call _ v l ls _

/-- There is no listener left to call. -/
theorem turn_finish {v : α} (hstack : m.stack = .notify j v [] :: fs) (i : Nat) :
    (m.view i).Turn i [ended j] ({ m with stack := fs }.view i) := by
  refine turn_top j hstack rfl rfl (fun k _ => rfl) ?_ i
  rw [Frame.phase?, if_pos rfl]
  exact .finish _ v _

/-- A step is a turn for every cell. -/
theorem turn_step (hborn : ∀ i, m.cells[i]? = none → m.phases i = [])
    (hc : m.step.conflict = false) (i : Nat) :
    (m.view i).Turn i m.occurring (m.step.view i) := by
  obtain ⟨cells, names, labels, queue, emitter, stack, log, reply, conflict⟩ := m
  cases conflict with
  | true => cases hc
  | false =>
      cases stack with
      | nil => exact turn_of_view_eq rfl i
      | cons f fs =>
          cases f with
          | script v body =>
              cases body with
              | nil => exact turn_of_view_eq rfl i
              | cons wa rest =>
                  have hturn := turn_perform (⟨cells, names, labels, queue, emitter,
                    .script v rest :: fs, log, reply, false⟩ : Machine α ρ) v wa.1 wa.2 i
                  exact hturn
          | drain word n =>
              cases queue with
              | nil =>
                  refine turn_of_view_eq ?_ i
                  exact (view_answer _ word _).trans rfl
              | cons t ts =>
                  cases t with
                  | script body => exact turn_of_view_eq rfl i
                  | flush j => exact turn_flush hc i
          | apply j u xs =>
              cases hcell : cells[j]? with
              | none =>
                  have hnone := hborn j hcell
                  simp [phases, Frame.phase?] at hnone
              | some c =>
                  rw [step]
                  simp only [Bool.false_eq_true, if_false, hcell]
                  exact turn_apply rfl hcell i
          | notify j v ls =>
              cases ls with
              | nil => exact turn_finish rfl i
              | cons l ls => exact turn_call rfl i
          | visit j => exact turn_of_view_eq rfl i
          | emit word v n ls =>
              cases ls with
              | nil =>
                  refine turn_of_view_eq ?_ i
                  exact (view_answer _ word _).trans rfl
              | cons l ls =>
                  exact turn_of_view_eq rfl i

end Machine

end LiveMarkup
