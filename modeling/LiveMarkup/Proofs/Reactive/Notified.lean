import LiveMarkup.Proofs.Histories
import LiveMarkup.Proofs.Reactive.Accounts
import LiveMarkup.Proofs.Reactive.Order
import LiveMarkup.Proofs.Reactive.Turns

/-!
# One notification for each batch

A flush takes the changes that wait and makes their updates in order. When the last one is
made it calls the listeners that are registered at that moment, each once, with the value
that the batch as a whole has made of the value it found (`Told`). Listeners that come and
go and changes that are submitted meanwhile are a matter of later flushes.

A history in which all flushes have ended is one in which each of them was like that
(`Settled`), and the history of a cell with a flush in progress is such a history followed
by that flush as far as it has come (`InProgress`). Each turn of the view of a cell leads
from one to the other (`CellView.Fits.turn`), and two flushes of a cell are never in progress
at once.
-/

namespace LiveMarkup

variable {α ρ : Type}

open History (exists_of_append_eq concat_eq_append_cons)

namespace Occurrence

/-! ## What a history says of a cell -/

/-- The changes submitted to a cell, in order. -/
def submittedTo (i : Nat) (os : List (Occurrence α ρ)) : List (Change α ρ) :=
  os.filterMap fun
    | submitted j x => if j = i then some x else none
    | _ => none

/-- The changes that flushes of a cell have taken, in order. -/
def takenFrom (i : Nat) (os : List (Occurrence α ρ)) : List (Change α ρ) :=
  os.flatMap fun
    | begun j _ batch => if j = i then batch else []
    | _ => []

/-- The updates made to a cell, in order. -/
def updatesOf (i : Nat) (os : List (Occurrence α ρ)) : List (α → α) :=
  os.filterMap fun
    | updated j u => if j = i then some u else none
    | _ => none

/-- The calls to listeners of a cell, in order, each with the value told. -/
def callsOf (i : Nat) (os : List (Occurrence α ρ)) : List (Script α ρ × α) :=
  os.filterMap fun
    | called j l v => if j = i then some (l, v) else none
    | _ => none

/-- The listeners of a cell after one more occurrence, each with its key. -/
def hear (i : Nat) (ls : List (Nat × Script α ρ)) : Occurrence α ρ → List (Nat × Script α ρ)
  | listened j key l => if j = i then (key, l) :: ls else ls
  | unlistened j key => if j = i then ls.filter (·.1 ≠ key) else ls
  | _ => ls

/-- The listeners that are registered with a cell after a history, each with its key. -/
def listening (i : Nat) (os : List (Occurrence α ρ)) : List (Nat × Script α ρ) :=
  os.foldl (hear i) []

/-- Whether a flush of a cell is begun or ends. -/
def bounds (i : Nat) : Occurrence α ρ → Bool
  | begun j _ _ => j == i
  | ended j => j == i
  | _ => false

/-- Whether an update is made to a cell or a listener of it is called. -/
def acts (i : Nat) : Occurrence α ρ → Bool
  | updated j _ => j == i
  | called j _ _ => j == i
  | _ => false

/-- No flush of a cell is begun or ends. -/
def Within (i : Nat) (os : List (Occurrence α ρ)) : Prop :=
  ∀ o ∈ os, o.bounds i = false

/-- No flush of a cell has a part in what occurs. -/
structure Aside (i : Nat) (os : List (Occurrence α ρ)) : Prop where
  idle : ∀ o ∈ os, o.acts i = false
  within : Within i os

variable {i : Nat} {os es before after : List (Occurrence α ρ)} {o : Occurrence α ρ}

theorem submittedTo_append (i : Nat) (os es : List (Occurrence α ρ)) :
    submittedTo i (os ++ es) = submittedTo i os ++ submittedTo i es :=
  List.filterMap_append

theorem takenFrom_append (i : Nat) (os es : List (Occurrence α ρ)) :
    takenFrom i (os ++ es) = takenFrom i os ++ takenFrom i es :=
  List.flatMap_append

theorem updatesOf_append (i : Nat) (os es : List (Occurrence α ρ)) :
    updatesOf i (os ++ es) = updatesOf i os ++ updatesOf i es :=
  List.filterMap_append

theorem callsOf_append (i : Nat) (os es : List (Occurrence α ρ)) :
    callsOf i (os ++ es) = callsOf i os ++ callsOf i es :=
  List.filterMap_append

theorem listening_concat (i : Nat) (os : List (Occurrence α ρ)) (o : Occurrence α ρ) :
    listening i (os ++ [o]) = hear i (listening i os) o := by
  rw [listening, List.foldl_append]
  rfl

theorem within_nil (i : Nat) : Within i ([] : List (Occurrence α ρ)) :=
  fun _ ho => nomatch ho

theorem Within.append (h : Within i os) (he : Within i es) : Within i (os ++ es) := by
  intro o ho
  rcases List.mem_append.1 ho with ho | ho
  · exact h o ho
  · exact he o ho

theorem within_singleton (h : o.bounds i = false) : Within i [o] :=
  List.forall_mem_singleton.2 h

theorem aside_singleton (h : o.acts i = false) (h' : o.bounds i = false) : Aside i [o] :=
  ⟨List.forall_mem_singleton.2 h, within_singleton h'⟩

theorem Aside.updates (h : Aside i os) : updatesOf i os = [] := by
  refine List.filterMap_eq_nil_iff.2 fun o ho => ?_
  have hidle := h.idle o ho
  cases o <;> simp_all [acts]

theorem Aside.calls (h : Aside i os) : callsOf i os = [] := by
  refine List.filterMap_eq_nil_iff.2 fun o ho => ?_
  have hidle := h.idle o ho
  cases o <;> simp_all [acts]

theorem aside_of_cell_ne (h : ∀ o ∈ os, o.cell ≠ i) : Aside i os := by
  refine ⟨fun o ho => ?_, fun o ho => ?_⟩
  · have hne := h o ho
    cases o <;> simp_all [acts, cell]
  · have hne := h o ho
    cases o <;> simp_all [bounds, cell]

/-- Occurrences at other cells do not mention a cell. -/
theorem unmentioned_of_cell_ne (h : ∀ o ∈ os, o.cell ≠ i) :
    submittedTo i os = [] ∧ takenFrom i os = [] ∧ ∀ ls, os.foldl (hear i) ls = ls := by
  induction os with
  | nil => exact ⟨rfl, rfl, fun ls => rfl⟩
  | cons o os ih =>
      obtain ⟨hsubmitted, htaken, hheard⟩ := ih fun p hp => h p (List.mem_cons_of_mem _ hp)
      have ho : o.cell ≠ i := h o (List.mem_cons_self ..)
      refine ⟨?_, ?_, fun ls => ?_⟩
      · refine (submittedTo_append i [o] os).trans ?_
        rw [hsubmitted]
        cases o <;> simp_all [submittedTo, cell]
      · refine (takenFrom_append i [o] os).trans ?_
        rw [htaken]
        cases o <;> simp_all [takenFrom, cell]
      · rw [List.foldl_cons, hheard]
        cases o <;> simp_all [hear, cell]

/-! ## What a flush does -/

open Machine (applyAll)

/-- A flush takes all changes that were submitted since the last one, and there are
some. -/
structure TakesAll (i : Nat) (before : List (Occurrence α ρ)) (batch : List (Change α ρ)) :
    Prop where
  nonempty : batch ≠ []
  exact : takenFrom i before ++ batch = submittedTo i before

/-- After it has made the updates of its batch in order, and has called no one until then,
a flush makes no more and calls the listeners that are registered at the moment of the last
one, each once, with the value that the batch makes of the value it found. -/
structure Tells (i : Nat) (before : List (Occurrence α ρ)) (value : α) (batch : List (Change α ρ))
    (making : List (Occurrence α ρ)) (last : α → α) (telling : List (Occurrence α ρ))
    (left : List (Script α ρ)) : Prop where
  updates : updatesOf i making ++ [last] = batch.map (·.update)
  quiet : callsOf i making = []
  rest : updatesOf i telling = []
  calls : (callsOf i telling ++ left.map (·, applyAll value batch)).Perm
    ((listening i (before ++ begun i value batch :: (making ++ [updated i last]))).map fun l =>
      (l.2, applyAll value batch))

/-- A flush has made all updates of its batch, and all but some listeners have been
called. -/
def Told (i : Nat) (before : List (Occurrence α ρ)) (value : α) (batch : List (Change α ρ))
    (own : List (Occurrence α ρ)) (left : List (Script α ρ)) : Prop :=
  ∃ making last telling, own = making ++ updated i last :: telling ∧
    Tells i before value batch making last telling left

/-- A flush has made some updates of its batch and called no one. -/
def Made (i : Nat) (batch : List (Change α ρ)) (own : List (Occurrence α ρ))
    (left : List (α → α)) : Prop :=
  updatesOf i own ++ left = batch.map (·.update) ∧ callsOf i own = []

/-- A flush has ended and by then has called all listeners. -/
def Finished (i : Nat) (before : List (Occurrence α ρ)) (value : α) (batch : List (Change α ρ))
    (after : List (Occurrence α ρ)) : Prop :=
  ∃ own later, after = own ++ ended i :: later ∧ Within i own ∧ Told i before value batch own []

/-- A flush has not ended. -/
def Unfinished (i : Nat) (before : List (Occurrence α ρ)) (value : α) (batch : List (Change α ρ))
    (after : List (Occurrence α ρ)) : Prop :=
  Within i after ∧
    ((∃ u us, Made i batch after (u :: us)) ∨ ∃ ls, Told i before value batch after ls)

/-- All flushes have ended. -/
def Settled (i : Nat) (os : List (Occurrence α ρ)) : Prop :=
  ∀ before value batch after, os = before ++ begun i value batch :: after →
    TakesAll i before batch ∧ Finished i before value batch after

/-- Updates are made and listeners are called in flushes only. -/
def ActsInFlush (i : Nat) (os : List (Occurrence α ρ)) : Prop :=
  ∀ before o after, os = before ++ o :: after → o.acts i = true →
    ∃ earlier value batch own, before = earlier ++ begun i value batch :: own ∧ Within i own

end Occurrence

open Occurrence Machine

/-- How far a flush has come according to a history, with the value that the cell has
then. -/
def Phase.Reached (i : Nat) (before : List (Occurrence α ρ)) (value : α)
    (batch : List (Change α ρ)) (own : List (Occurrence α ρ)) (v : α) : Phase α ρ → Prop
  | .making u us => Made i batch own (u :: us) ∧ v = (updatesOf i own).foldl (fun v u => u v) value
  | .telling w ls => w = applyAll value batch ∧ Told i before value batch own ls

/-- All flushes but the last one have ended, and that one has come so far. -/
def InProgress (i : Nat) (os : List (Occurrence α ρ)) (v : α) (p : Phase α ρ) : Prop :=
  ∃ before value batch own, os = before ++ begun i value batch :: own ∧ Settled i before ∧
    TakesAll i before batch ∧ Within i own ∧ p.Reached i before value batch own v

/-- At most one flush is in progress. -/
def Stage (i : Nat) (os : List (Occurrence α ρ)) (v : α) : List (Phase α ρ) → Prop
  | [] => Settled i os
  | [p] => InProgress i os v p
  | _ :: _ :: _ => False

/-- A cell, its listeners, the changes that wait and its flush in progress are what the
history makes of them. -/
structure Cell.Fits (i : Nat) (os : List (Occurrence α ρ)) (c : Cell α (Change α ρ) (Script α ρ))
    (ps : List (Phase α ρ)) : Prop where
  listeners : c.listeners.entries.Perm (listening i os)
  pending : takenFrom i os ++ c.pending = submittedTo i os
  stage : Stage i os c.value ps

/-- What a cell sees fits the history. Of a cell that does not exist there is none. -/
structure CellView.Fits (i : Nat) (os : List (Occurrence α ρ)) (w : CellView α ρ) : Prop where
  unborn : w.cell = none → w.phases = [] ∧ ∀ o ∈ os, o.cell ≠ i
  born : ∀ c, w.cell = some c → c.Fits i os w.phases
  acts : ActsInFlush i os

section Flushes

variable {i : Nat} {os es before own after : List (Occurrence α ρ)} {value v : α}
  {batch : List (Change α ρ)} {p : Phase α ρ} {ps : List (Phase α ρ)}
  {c : Cell α (Change α ρ) (Script α ρ)}

/-! ## Histories that go on -/

theorem Occurrence.Within.begun_notMem (h : Within i es) : begun i value batch ∉ es := by
  intro hmem
  have hbounds := h _ hmem
  simp [bounds] at hbounds

theorem Occurrence.Finished.append (h : Finished i before value batch after)
    (es : List (Occurrence α ρ)) : Finished i before value batch (after ++ es) := by
  obtain ⟨own, later, rfl, hown, htold⟩ := h
  exact ⟨own, later ++ es, by simp, hown, htold⟩

theorem Occurrence.Settled.append (h : Settled i os) (he : Within i es) : Settled i (os ++ es) := by
  intro before value batch after heq
  obtain ⟨later, hos, rfl⟩ := exists_of_append_eq heq he.begun_notMem
  obtain ⟨htakes, hfinished⟩ := h _ _ _ _ hos
  exact ⟨htakes, hfinished.append es⟩

theorem Occurrence.ActsInFlush.append (h : ActsInFlush i os) (he : ∀ o ∈ es, o.acts i = false) :
    ActsInFlush i (os ++ es) := by
  intro before o after heq hacts
  have hnew : o ∉ es := fun hmem => Bool.false_ne_true ((he o hmem).symm.trans hacts)
  obtain ⟨later, hos, -⟩ := exists_of_append_eq heq hnew
  exact h _ _ _ hos hacts

theorem Occurrence.Told.append {left : List (Script α ρ)} (h : Told i before value batch own left)
    (he : Aside i es) : Told i before value batch (own ++ es) left := by
  obtain ⟨making, last, telling, rfl, htells⟩ := h
  refine ⟨making, last, telling ++ es, by simp, htells.updates, htells.quiet, ?_, ?_⟩
  · rw [updatesOf_append, htells.rest, he.updates]
    rfl
  · rw [callsOf_append, he.calls, List.append_nil]
    exact htells.calls

theorem Phase.Reached.append (h : p.Reached i before value batch own v) (he : Aside i es) :
    p.Reached i before value batch (own ++ es) v := by
  cases p with
  | making u us =>
      obtain ⟨⟨hupdates, hcalls⟩, hv⟩ := h
      have hsame : updatesOf i (own ++ es) = updatesOf i own := by
        rw [updatesOf_append, he.updates, List.append_nil]
      refine ⟨⟨by rw [hsame, hupdates], ?_⟩, by rw [hsame, hv]⟩
      rw [callsOf_append, hcalls, he.calls]
      rfl
  | telling w ls => exact ⟨h.1, h.2.append he⟩

/-- What a flush has no part in leaves it where it is. -/
theorem Stage.append (h : Stage i os v ps) (he : Aside i es) : Stage i (os ++ es) v ps := by
  match ps with
  | [] => exact Settled.append h he.within
  | [p] =>
      obtain ⟨before, value, batch, own, rfl, hsettled, htakes, hown, hreached⟩ := h
      exact ⟨before, value, batch, own ++ es, by simp, hsettled, htakes, hown.append he.within,
        hreached.append he⟩
  | _ :: _ :: _ => exact h

/-- A flush in a history is the one in progress, or it has ended. -/
theorem Occurrence.Settled.last_or_finished {before' after' : List (Occurrence α ρ)} {value' : α}
    {batch' : List (Change α ρ)} (h : Settled i before) (hown : Within i own)
    (heq : before ++ begun i value batch :: own = before' ++ begun i value' batch' :: after') :
    (before = before' ∧ value = value' ∧ batch = batch' ∧ own = after') ∨
      TakesAll i before' batch' ∧ Finished i before' value' batch' after' := by
  have heq' : (before ++ [begun i value batch]) ++ own =
      before' ++ begun i value' batch' :: after' := by
    rw [← heq, List.append_assoc, List.singleton_append]
  obtain ⟨later, hbefore, rfl⟩ := exists_of_append_eq heq' hown.begun_notMem
  rcases concat_eq_append_cons hbefore with ⟨rfl, hbegun, rfl⟩ | ⟨between, hsplit, rfl⟩
  · cases hbegun
    exact .inl ⟨rfl, rfl, rfl, rfl⟩
  · obtain ⟨htakes, hfinished⟩ := h _ _ _ _ hsplit
    exact .inr ⟨htakes, (hfinished.append _).append own⟩

/-! ## Flushes that go on -/

/-- A flush is begun. -/
theorem Occurrence.Settled.begin (h : Settled i os)
    (hpending : takenFrom i os ++ c.pending = submittedTo i os) (hne : c.pending ≠ []) :
    InProgress i (os ++ [begun i c.value c.pending]) c.value
      (.next c.clear (c.pending.map (·.update))) := by
  refine ⟨os, c.value, c.pending, [], rfl, h, ⟨hne, hpending⟩, within_nil i, ?_⟩
  cases hp : c.pending with
  | nil => exact absurd hp hne
  | cons x xs => exact ⟨⟨rfl, rfl⟩, rfl⟩

theorem Occurrence.updatesOf_concat (i : Nat) (own : List (Occurrence α ρ)) (u : α → α) :
    updatesOf i (own ++ [updated i u]) = updatesOf i own ++ [u] := by
  simp [updatesOf]

theorem Occurrence.Made.update {u : α → α} {us : List (α → α)} (h : Made i batch own (u :: us)) :
    Made i batch (own ++ [updated i u]) us := by
  obtain ⟨hupdates, hcalls⟩ := h
  refine ⟨?_, ?_⟩
  · rw [updatesOf_concat, List.append_assoc]
    exact hupdates
  · rw [callsOf_append, hcalls]
    rfl

/-- With the last update of a flush the listeners that there are come to be called. -/
theorem Occurrence.Made.told {u : α → α} (h : Made i batch own [u])
    (hlisteners : c.listeners.entries.Perm
      (listening i (before ++ begun i value batch :: own))) :
    Told i before value batch (own ++ [updated i u]) c.listeners.toList := by
  refine ⟨own, u, [], rfl, h.1, h.2, rfl, ?_⟩
  have hheard : listening i (before ++ begun i value batch :: (own ++ [updated i u])) =
      listening i (before ++ begun i value batch :: own) := by
    rw [← List.cons_append, ← List.append_assoc, listening_concat]
    rfl
  have hcalled : (c.listeners.toList.map fun l => (l, applyAll value batch)) =
      c.listeners.entries.map fun l => (l.2, applyAll value batch) := by
    rw [← Slab.map_snd_entries, List.map_map]
    rfl
  rw [hheard]
  exact (List.Perm.of_eq hcalled).trans (hlisteners.map _)

theorem Occurrence.Told.call {l : Script α ρ} {ls : List (Script α ρ)}
    (h : Told i before value batch own (l :: ls)) :
    Told i before value batch (own ++ [called i l (applyAll value batch)]) ls := by
  obtain ⟨making, last, telling, rfl, htells⟩ := h
  have hcalls : callsOf i (telling ++ [called i l (applyAll value batch)]) =
      callsOf i telling ++ [(l, applyAll value batch)] := by
    simp [callsOf]
  refine ⟨making, last, telling ++ [called i l (applyAll value batch)], by simp, htells.updates,
    htells.quiet, ?_, ?_⟩
  · rw [updatesOf_append, htells.rest]
    rfl
  · rw [hcalls, List.append_assoc]
    exact htells.calls

/-- The next update of a flush is made, and it goes on with the others or comes to the
listeners. -/
theorem InProgress.update {u : α → α} {us : List (α → α)}
    (h : InProgress i os c.value (.making u us))
    (hlisteners : c.listeners.entries.Perm (listening i os)) :
    InProgress i (os ++ [updated i u]) (u c.value) (.next (c.update u) us) := by
  obtain ⟨before, value, batch, own, rfl, hsettled, htakes, hown, hmade, hv⟩ := h
  have hvalue : u c.value = (updatesOf i (own ++ [updated i u])).foldl (fun v u => u v) value := by
    rw [updatesOf_concat, List.foldl_append, ← hv]
    rfl
  refine ⟨before, value, batch, own ++ [updated i u], by simp, hsettled, htakes,
    hown.append (within_singleton rfl), ?_⟩
  cases us with
  | nil =>
      refine ⟨?_, hmade.told (c := c.update u) hlisteners⟩
      rw [Cell.value_update, hvalue, updatesOf_concat, hmade.1, List.foldl_map]
      rfl
  | cons u' us => exact ⟨hmade.update, hvalue⟩

/-- The next listener is called. -/
theorem InProgress.call {w : α} {l : Script α ρ} {ls : List (Script α ρ)}
    (h : InProgress i os v (.telling w (l :: ls))) :
    InProgress i (os ++ [called i l w]) v (.telling w ls) := by
  obtain ⟨before, value, batch, own, rfl, hsettled, htakes, hown, rfl, htold⟩ := h
  exact ⟨before, value, batch, own ++ [called i l (applyAll value batch)], by simp, hsettled,
    htakes, hown.append (within_singleton rfl), rfl, htold.call⟩

/-- While a flush is in progress whatever occurs does so in a flush. -/
theorem Occurrence.ActsInFlush.concat (h : ActsInFlush i os) (hp : InProgress i os v p)
    (o : Occurrence α ρ) : ActsInFlush i (os ++ [o]) := by
  intro before' o' after heq hacts
  rcases concat_eq_append_cons heq with ⟨rfl, -, -⟩ | ⟨later, hos, -⟩
  · obtain ⟨before, value, batch, own, hos, -, -, hown, -⟩ := hp
    exact ⟨before, value, batch, own, hos, hown⟩
  · exact h _ _ _ hos hacts

/-- A flush that has called all listeners ends. -/
theorem InProgress.finish {w : α} (h : InProgress i os v (.telling w [])) :
    Settled i (os ++ [ended i]) := by
  obtain ⟨before, value, batch, own, rfl, hsettled, htakes, hown, -, htold⟩ := h
  intro before' value' batch' after' heq
  have hend : begun i value' batch' ∉ [(ended i : Occurrence α ρ)] := by simp
  obtain ⟨later, hos, rfl⟩ := exists_of_append_eq heq hend
  rcases hsettled.last_or_finished hown hos with ⟨rfl, rfl, rfl, rfl⟩ | ⟨htakes', hfinished⟩
  · exact ⟨htakes, own, [], rfl, hown, htold⟩
  · exact ⟨htakes', hfinished.append _⟩

/-! ## Turns -/

theorem Stage.single (h : Stage i os v (p :: ps)) : ps = [] ∧ InProgress i os v p := by
  cases ps with
  | nil => exact ⟨rfl, h⟩
  | cons q ps => cases h

/-- A cell goes on to fit its history if its listeners, the changes that wait and its flush
do. -/
theorem Cell.Fits.turn {c' : Cell α (Change α ρ) (Script α ρ)} {ps' : List (Phase α ρ)}
    (h : c.Fits i os ps)
    (hlisteners : c'.listeners.entries.Perm (es.foldl (hear i) (listening i os)))
    (hpending : takenFrom i es ++ c'.pending = c.pending ++ submittedTo i es)
    (hstage : Stage i (os ++ es) c'.value ps') : c'.Fits i (os ++ es) ps' where
  listeners := by
    rw [listening, List.foldl_append]
    exact hlisteners
  pending := by
    rw [takenFrom_append, submittedTo_append, List.append_assoc, hpending, ← List.append_assoc,
      h.pending]
  stage := hstage

theorem CellView.Fits.of_cell (h : c.Fits i os ps) (hacts : ActsInFlush i os) :
    CellView.Fits i os ⟨some c, ps⟩ := by
  refine ⟨nofun, fun c' hc' => ?_, hacts⟩
  cases hc'
  exact h

/-- Whatever its turn, a cell goes on to fit its history. -/
theorem CellView.Fits.turn {w w' : CellView α ρ} (h : w.Fits i os) (hturn : w.Turn i es w') :
    w'.Fits i (os ++ es) := by
  cases hturn with
  | still hes =>
      obtain ⟨hsubmitted, htaken, hheard⟩ := unmentioned_of_cell_ne hes
      have haside := aside_of_cell_ne hes
      refine ⟨fun hnone => ?_, fun c hc => ?_, h.acts.append haside.idle⟩
      · obtain ⟨hphases, hos⟩ := h.unborn hnone
        refine ⟨hphases, fun o ho => ?_⟩
        exact (List.mem_append.1 ho).elim (hos o) (hes o)
      · have hold := h.born c hc
        refine hold.turn ?_ ?_ (hold.stage.append haside)
        · rw [hheard]
          exact hold.listeners
        · rw [htaken, hsubmitted, List.append_nil]
          rfl
  | create value ps =>
      obtain ⟨hphases, hos⟩ := h.unborn rfl
      obtain rfl : ps = [] := hphases
      obtain ⟨hsubmitted, htaken, hheard⟩ := unmentioned_of_cell_ne hos
      have hsettled : Settled i os := fun before value batch after heq => by
        have hmem : begun i value batch ∈ os := by simp [heq]
        exact absurd hmem (aside_of_cell_ne hos).within.begun_notMem
      rw [List.append_nil]
      refine .of_cell ⟨?_, ?_, hsettled⟩ h.acts
      · rw [listening, hheard]
        rfl
      · rw [htaken, hsubmitted]
        rfl
  | submit c x ps =>
      have hold := h.born c rfl
      have haside : Aside i [(submitted i x : Occurrence α ρ)] := aside_singleton rfl rfl
      have hsubmitted : submittedTo i [(submitted i x : Occurrence α ρ)] = [x] := by
        simp [submittedTo]
      refine .of_cell (hold.turn hold.listeners ?_ (hold.stage.append haside))
        (h.acts.append haside.idle)
      rw [hsubmitted]
      rfl
  | listen c l ps =>
      have hold := h.born c rfl
      have haside : Aside i [(listened i c.listeners.nextKey l : Occurrence α ρ)] :=
        aside_singleton rfl rfl
      refine .of_cell (hold.turn ?_ (List.append_nil _).symm (hold.stage.append haside))
        (h.acts.append haside.idle)
      rw [List.foldl_cons, List.foldl_nil, hear, if_pos rfl]
      exact (Slab.perm_entries_insert _ l).trans (hold.listeners.cons _)
  | unlisten c key ps =>
      have hold := h.born c rfl
      have haside : Aside i [(unlistened i key : Occurrence α ρ)] := aside_singleton rfl rfl
      refine .of_cell (hold.turn ?_ (List.append_nil _).symm (hold.stage.append haside))
        (h.acts.append haside.idle)
      rw [List.foldl_cons, List.foldl_nil, hear, if_pos rfl]
      exact (Slab.perm_entries_remove _ key).trans (hold.listeners.filter _)
  | begin c hne =>
      have hold := h.born c rfl
      have htaken : takenFrom i [begun i c.value c.pending] = c.pending := by simp [takenFrom]
      refine .of_cell (hold.turn hold.listeners ?_ ?_)
        (h.acts.append (List.forall_mem_singleton.2 rfl))
      · rw [htaken]
        rfl
      · exact Settled.begin hold.stage hold.pending hne
  | update c u us ps =>
      have hold := h.born c rfl
      obtain ⟨rfl, hprogress⟩ := hold.stage.single
      exact .of_cell (hold.turn hold.listeners (List.append_nil _).symm
        (hprogress.update hold.listeners)) (h.acts.concat hprogress _)
  | call o v l ls ps =>
      cases o with
      | none => exact absurd (h.unborn rfl).1 (List.cons_ne_nil _ _)
      | some c =>
          have hold := h.born c rfl
          obtain ⟨rfl, hprogress⟩ := hold.stage.single
          exact .of_cell (hold.turn hold.listeners (List.append_nil _).symm hprogress.call)
            (h.acts.concat hprogress _)
  | finish o v ps =>
      cases o with
      | none => exact absurd (h.unborn rfl).1 (List.cons_ne_nil _ _)
      | some c =>
          have hold := h.born c rfl
          obtain ⟨rfl, hprogress⟩ := hold.stage.single
          exact .of_cell (hold.turn hold.listeners (List.append_nil _).symm hprogress.finish)
            (h.acts.concat hprogress _)

end Flushes

/-! ## Runs -/

namespace Machine

variable {m : Machine α ρ} {os : List (Occurrence α ρ)}

/-- Every cell fits the history of a run without a conflict. -/
theorem Records.fits (h : Records m os) (hc : m.conflict = false) (i : Nat) :
    (m.view i).Fits i os := by
  induction h generalizing i with
  | start ls =>
      refine ⟨fun _ => ⟨rfl, nofun⟩, fun c hcell => ?_, fun before o after heq => ?_⟩
      · cases hcell
      · cases before <;> cases heq
  | @request m os word a _ hm _ ih =>
      have hperforming : m.performing a =
          { m with log := #[], reply := .nothing }.performing a := by
        cases a <;> rfl
      have hturn := turn_perform { m with log := #[], reply := .nothing } none word a i
      rw [← hperforming] at hturn
      exact (ih hm i).turn hturn
  | @step m os _ ih =>
      have hm : m.conflict = false := by
        cases hm : m.conflict with
        | false => rfl
        | true =>
            rw [Machine.step, if_pos hm, hm] at hc
            cases hc
      exact (ih hm i).turn (turn_step (fun k hk => ((ih hm k).unborn hk).1) hc i)

/-- In a run without a conflict every flush takes the changes that were submitted to its cell
since the last one, makes their updates in order, and after the last of them calls the
listeners that are registered at that moment, each once, with the value that the batch has
made of the value it found. Where a flush has not ended, it has come some way in this and
something is still being done. No update is made and no listener called at any other
time, and a listener that is called runs its script at once, with that value at hand. -/
theorem Records.notified (h : Records m os) (hc : m.conflict = false) (i : Nat) :
    (∀ before value batch after, os = before ++ begun i value batch :: after →
      TakesAll i before batch ∧
        (Finished i before value batch after ∨
          m.stack ≠ [] ∧ Unfinished i before value batch after)) ∧
      ActsInFlush i os ∧
      ∀ l v, called i l v ∈ m.occurring ↔ ∃ ls fs, m.stack = .notify i v (l :: ls) :: fs ∧
        m.step.stack = .script (some v) l :: .notify i v ls :: fs := by
  have hfits := h.fits hc i
  refine ⟨fun before value batch after heq => ?_, hfits.acts, called_mem_occurring_iff hc i⟩
  cases hcell : (m.view i).cell with
  | none =>
      have hmem : begun i value batch ∈ os := by simp [heq]
      exact absurd rfl ((hfits.unborn hcell).2 _ hmem)
  | some c =>
      have hstage := (hfits.born c hcell).stage
      cases hphases : (m.view i).phases with
      | nil =>
          rw [hphases] at hstage
          obtain ⟨htakes, hfinished⟩ := hstage before value batch after heq
          exact ⟨htakes, .inl hfinished⟩
      | cons p ps =>
          rw [hphases] at hstage
          have hstack : m.stack ≠ [] := by
            intro hnil
            rw [view, phases, hnil] at hphases
            cases hphases
          obtain ⟨-, before', value', batch', own, rfl, hsettled, htakes, hown, hreached⟩ :=
            hstage.single
          rcases hsettled.last_or_finished hown heq with ⟨rfl, rfl, rfl, rfl⟩ | ⟨htakes', hfinished⟩
          · refine ⟨htakes, .inr ⟨hstack, hown, ?_⟩⟩
            cases p with
            | making u us => exact .inl ⟨u, us, hreached.1⟩
            | telling w ls => exact .inr ⟨ls, hreached.2⟩
          · exact ⟨htakes', .inl hfinished⟩

/-- A listener that registers another one and submits a change, unless the value is great. -/
def curious : Script Nat Nat :=
  [("", .guarded (·.any (· < 3)) [("", .listen "n" "other" []), ("", .change "n" [] (· + 2))])]

/-- A state with such a listener and two changes that wait. -/
def curiously : Machine Nat Nat :=
  ((((withListeners []).request "" (.create "n" 0)).request "" (.listen "n" "one" curious)).request
    "" (.change "n" [] (· + 1))).request "" (.change "n" [] (· * 2))

theorem notified_curious :
    (runFor 40 (curiously.request "run" .drain)).conflict = false ∧
      (runFor 40 (curiously.request "run" .drain)).stack = [] ∧
      ∃ os, Records (runFor 40 (curiously.request "run" .drain)) os ∧
        callsOf 0 os = [(curious, 2), (curious, 4), ([], 4)] ∧
        (∀ before value batch after, os = before ++ begun 0 value batch :: after →
          TakesAll 0 before batch ∧ Finished 0 before value batch after) ∧
        ActsInFlush 0 os := by
  have hstart : Records (withListeners [] : Machine Nat Nat) [] := .start []
  have hcreate := Records.request "" (.create "n" 0) hstart rfl rfl
  have hlisten := Records.request "" (.listen "n" "one" curious) hcreate rfl rfl
  have hone := Records.request "" (.change "n" [] (· + 1)) hlisten rfl rfl
  have htwo : Records curiously _ := Records.request "" (.change "n" [] (· * 2)) hone rfl rfl
  have hrun := (Records.request "run" .drain htwo rfl rfl).run 40
  have hstack : (runFor 40 (curiously.request "run" .drain)).stack = [] := rfl
  obtain ⟨hflushes, hcalls, -⟩ := hrun.notified rfl 0
  refine ⟨rfl, hstack, _, hrun, rfl, fun before value batch after heq => ?_, hcalls⟩
  obtain ⟨htakes, hfinished | ⟨hbusy, -⟩⟩ := hflushes before value batch after heq
  · exact ⟨htakes, hfinished⟩
  · exact absurd hstack hbusy

end Machine

end LiveMarkup
