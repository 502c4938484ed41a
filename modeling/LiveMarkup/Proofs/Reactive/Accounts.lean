import LiveMarkup.Proofs.Reactive.History

/-!
# No change is lost

Whatever was submitted to a cell has had its turn, or a flush in progress has taken
it, or it waits, and read in this order that is the order of submission
(`Machine.Accounted`). A cell that is alive and has changes waiting has one flush in
the queue and otherwise none. Both hold in every machine that is reached without a
conflict (`Reaches.kept`), since a flush is queued by the first change to wait and
takes all that wait, and since a cell that is gone does not come back.
-/

namespace LiveMarkup.Machine

open Happening

variable {α ρ : Type} {m m' : Machine α ρ} {hs es : List (Happening α ρ)} {i j : Nat}
  {c : Cell α (Change α ρ) (Script α ρ)} {v : α} {x : Change α ρ} {xs ps : List (Change α ρ)}

/-- A value after changes were applied to it in order. -/
def applyAll (v : α) (xs : List (Change α ρ)) : α :=
  xs.foldl (fun v x => x.update v) v

theorem applyAll_append (v : α) (xs ys : List (Change α ρ)) :
    applyAll v (xs ++ ys) = applyAll (applyAll v xs) ys :=
  List.foldl_append

/-- The flush in progress that a list of changes is left to. -/
def launched : List (Change α ρ) → List ((α → α) × List (Change α ρ))
  | [] => []
  | x :: xs => [(x.update, xs)]

/-- The changes and the value of a cell, with one flush in progress at most, are what
its history makes of them. -/
structure Accounted (m : Machine α ρ) (hs : List (Happening α ρ)) (i : Nat) (v : α)
    (ps : List (Change α ρ)) : Prop where
  single : (m.flights i).length ≤ 1
  order : appliedTo i hs ++ (m.flights i).flatMap (·.2) ++ ps = submittedTo i hs
  value : ∃ v₀, createdAs i hs = [v₀] ∧
    (m.flights i).foldl (fun v f => f.1 v) v = applyAll v₀ (appliedTo i hs)
  queued : m.isAlive i → m.flushes i = if ps = [] then 0 else 1

/-- Every cell is accounted for, and nothing has happened to a cell that does not
exist. -/
structure Kept (m : Machine α ρ) (hs : List (Happening α ρ)) (i : Nat) : Prop where
  born : ∀ v ps, m.contents? i = some (v, ps) → m.Accounted hs i v ps
  unborn : m.contents? i = none → Silent i hs ∧ m.flights i = [] ∧ m.flushes i = 0

theorem Kept.quiet (h : Kept m hs i) (q : QuietAt m m' i) (he : Silent i es) :
    Kept m' (hs ++ es) i := by
  constructor
  · intro v ps hv
    rw [q.contents] at hv
    have ha := h.born v ps hv
    refine ⟨?_, ?_, ?_, fun halive => ?_⟩
    · rw [q.flights]
      exact ha.single
    · rw [appliedTo_append, submittedTo_append, he.2.1, he.2.2, List.append_nil, List.append_nil,
        q.flights]
      exact ha.order
    · rw [createdAs_append, appliedTo_append, he.1, he.2.2, List.append_nil, List.append_nil,
        q.flights]
      exact ha.value
    · rw [q.flushes]
      exact ha.queued (q.alive halive)
  · intro hv
    rw [q.contents] at hv
    obtain ⟨hsilent, hflights, hflushes⟩ := h.unborn hv
    exact ⟨hsilent.append he, q.flights.trans hflights, q.flushes.trans hflushes⟩

theorem Kept.of_contents? (hv : m.contents? i = some (v, ps)) (h : m.Accounted hs i v ps) :
    Kept m hs i := by
  constructor
  · intro w qs hw
    rw [hv] at hw
    cases hw
    exact h
  · intro hn
    rw [hv] at hn
    cases hn

/-! ## What changes the accounts of a cell -/

theorem Accounted.submit (h : m.Accounted hs i v ps) (halive : m.isAlive i)
    (hflights : m'.flights i = m.flights i)
    (hflushes : m'.flushes i = m.flushes i + if ps = [] then 1 else 0) :
    m'.Accounted (hs ++ [submitted i x]) i v (ps ++ [x]) where
  single := by
    rw [hflights]
    exact h.single
  order := by
    have hsub : submittedTo i [submitted i x] = [x] := by simp [submittedTo]
    rw [appliedTo_append, submittedTo_append, hsub, ← h.order, hflights]
    simp [appliedTo]
  value := by
    rw [createdAs_append, appliedTo_append, hflights]
    simpa [createdAs, appliedTo] using h.value
  queued := by
    intro _
    rw [hflushes, h.queued halive]
    by_cases hps : ps = [] <;> simp [hps]

/-- A flush goes on with the changes that it has taken: the first of them has its
turn. -/
theorem Accounted.launch (horder : appliedTo i hs ++ xs ++ ps = submittedTo i hs)
    (hvalue : ∃ v₀, createdAs i hs = [v₀] ∧ v = applyAll v₀ (appliedTo i hs))
    (hflights : m.flights i = launched xs)
    (hqueued : m.isAlive i → m.flushes i = if ps = [] then 0 else 1) :
    m.Accounted (hs ++ turn i xs) i v ps := by
  obtain ⟨v₀, hcreated, hv⟩ := hvalue
  cases xs with
  | nil =>
      rw [turn, List.append_nil]
      refine ⟨?_, ?_, ⟨v₀, hcreated, ?_⟩, hqueued⟩
      · rw [hflights]
        exact Nat.zero_le 1
      · rwa [hflights]
      · rw [hflights]
        exact hv
  | cons x xs =>
      have happlied : appliedTo i (hs ++ [applied i x]) = appliedTo i hs ++ [x] := by
        simp [appliedTo]
      refine ⟨?_, ?_, ⟨v₀, ?_, ?_⟩, hqueued⟩
      · rw [hflights]
        exact Nat.le_refl 1
      · rw [turn, happlied, hflights, submittedTo_append, ← horder]
        simp [launched, submittedTo]
      · rw [turn, createdAs_append, hcreated]
        simp [createdAs]
      · rw [turn, happlied, hflights, applyAll_append, ← hv]
        rfl

/-! ## What a step does to the views -/

theorem flights_push (m : Machine α ρ) (f : Frame α ρ) (j : Nat) :
    (m.push f).flights j = (f.flight? j).toList ++ m.flights j := by
  unfold flights push
  rw [List.filterMap_cons]
  cases f.flight? j <;> rfl

/-- The flush of a cell that is alive goes on, and other cells are as they were. -/
theorem flights_advance (m : Machine α ρ) (i : Nat) (c : Cell α (Change α ρ) (Script α ρ))
    (xs : List (Change α ρ)) (j : Nat) :
    (m.advance i c xs).flights j = (if j = i then launched xs else []) ++ m.flights j := by
  cases xs with
  | nil => simp [advance, flights_push, Frame.flight?, launched]
  | cons x xs =>
      by_cases hj : j = i
      · simp [advance, flights_push, Frame.flight?, launched, hj]
      · simp [advance, flights_push, Frame.flight?, hj, Ne.symm hj]

theorem contents?_advance (m : Machine α ρ) (i : Nat) (c : Cell α (Change α ρ) (Script α ρ))
    (xs : List (Change α ρ)) : (m.advance i c xs).contents? = m.contents? := by
  cases xs <;> rfl

theorem flushes_advance (m : Machine α ρ) (i : Nat) (c : Cell α (Change α ρ) (Script α ρ))
    (xs : List (Change α ρ)) : (m.advance i c xs).flushes = m.flushes := by
  cases xs <;> rfl

theorem isAlive_push {f : Frame α ρ} (h : (m.push f).isAlive j) :
    m.isAlive j ∨ f.held? = some j := by
  rw [isAlive_iff] at h ⊢
  rcases h with hn | ⟨g, hg, hgj⟩
  · exact Or.inl (Or.inl hn)
  · rcases List.mem_cons.1 hg with rfl | hg
    · exact Or.inr hgj
    · exact Or.inl (Or.inr ⟨g, hg, hgj⟩)

theorem isAlive_advance (h : (m.advance i c xs).isAlive j) : m.isAlive j ∨ j = i := by
  cases xs with
  | nil =>
      rcases isAlive_push h with h | h
      · exact Or.inl h
      · cases h
        exact Or.inr rfl
  | cons x xs =>
      rcases isAlive_push h with h | h
      · rcases isAlive_push h with h | h
        · exact Or.inl h
        · cases h
          exact Or.inr rfl
      · cases h

/-- A flush that goes on is quiet for the other cells. -/
theorem quietAt_advance (m : Machine α ρ) (c : Cell α (Change α ρ) (Script α ρ))
    (xs : List (Change α ρ)) (hj : j ≠ i) : QuietAt m (m.advance i c xs) j where
  contents := by rw [contents?_advance]
  flights := by rw [flights_advance, if_neg hj, List.nil_append]
  flushes := by rw [flushes_advance]
  alive h := (isAlive_advance h).resolve_right hj

/-! ## Actions -/

theorem kept_create (h : ∀ i, Kept m hs i) (name : String) (value : α) (w : Option α)
    (word : String) (i : Nat) :
    Kept (m.perform w word (.create name value)) (hs ++ [created m.cells.size value]) i := by
  have hcontents : ∀ j, (m.perform w word (.create name value)).contents? j =
      if j = m.cells.size then some (value, []) else m.contents? j := by
    intro j
    by_cases hj : j = m.cells.size
    · simp [perform, contents?, hj]
    · simp [perform, contents?, Array.getElem?_push, hj]
  by_cases hi : i = m.cells.size
  · subst hi
    have hnone : m.contents? m.cells.size = none := by simp [contents?]
    obtain ⟨⟨hc, hs, ha⟩, hflights, hflushes⟩ := (h m.cells.size).unborn hnone
    have hnew : (m.perform w word (.create name value)).flights m.cells.size = [] := hflights
    refine .of_contents? ((hcontents _).trans (if_pos rfl)) ⟨?_, ?_, ⟨value, ?_, ?_⟩, fun _ => ?_⟩
    · rw [hnew]
      exact Nat.zero_le 1
    · rw [appliedTo_append, submittedTo_append, ha, hs, hnew]
      rfl
    · rw [createdAs_append, hc]
      simp [createdAs]
    · rw [appliedTo_append, ha, hnew]
      rfl
    · exact hflushes
  · have he : (created m.cells.size value : Happening α ρ).cell ≠ i := fun he => hi he.symm
    refine (h i).quiet ⟨(hcontents i).trans (if_neg hi), rfl, rfl, fun halive => ?_⟩
      (silent_of_cell_ne he)
    rw [isAlive_iff] at halive ⊢
    rcases halive with ⟨e, hmem, hei⟩ | hf
    · rcases OrderedMap.mem_write hmem with rfl | hmem
      · exact absurd hei.symm hi
      · exact Or.inl ⟨e, hmem, hei⟩
    · exact Or.inr hf

theorem kept_submit (h : ∀ i, Kept m hs i) (hcell : m.cells[i]? = some c) (halive : m.isAlive i)
    (x : Change α ρ) (j : Nat) : Kept (m.submit i c x) (hs ++ [submitted i x]) j := by
  have hcontents : ∀ k, (m.submit i c x).contents? k =
      if k = i then some (c.value, c.pending ++ [x]) else m.contents? k := by
    intro k
    unfold submit
    split <;> exact contents?_put hcell k
  have hflushes : ∀ k, (m.submit i c x).flushes k =
      m.flushes k + if k = i ∧ c.pending = [] then 1 else 0 := by
    intro k
    unfold submit
    cases hp : c.isPending with
    | true =>
        have hne : c.pending ≠ [] := by simpa [Cell.isPending] using hp
        rw [if_pos rfl, if_neg fun h => hne h.2]
        rfl
    | false =>
        have hnil := (c.isPending_eq_false_iff).1 hp
        simp only [Bool.false_eq_true, if_false, hnil, and_true]
        exact flushes_enqueue_flush _ i k
  have hflights : ∀ k, (m.submit i c x).flights k = m.flights k := by
    intro k
    unfold submit
    split <;> rfl
  have hlives : ∀ k, (m.submit i c x).isAlive k = m.isAlive k := by
    intro k
    unfold submit
    split <;> rfl
  by_cases hj : j = i
  · subst hj
    have hold := (h j).born _ _ (contents?_of_get? hcell)
    refine .of_contents? ((hcontents j).trans (if_pos rfl)) ?_
    apply hold.submit halive (hflights j)
    rw [hflushes]
    simp only [true_and]
  · refine (h j).quiet ⟨(hcontents j).trans (if_neg hj), hflights j, ?_, fun hk => ?_⟩
      (silent_of_cell_ne (Ne.symm hj))
    · rw [hflushes, if_neg fun h => hj h.1, Nat.add_zero]
    · rwa [hlives] at hk

theorem kept_perform (h : ∀ i, Kept m hs i) {w : Option α} {word : String} {a : Action α ρ}
    (hc : (m.perform w word a).conflict = false) (i : Nat) :
    Kept (m.perform w word a) (hs ++ m.performed a) i := by
  rcases perform_cases hc with ⟨hq, he⟩ | ⟨name, value, rfl⟩ | ⟨j, c, x, hcell, halive, hm, he⟩
  · rw [he]
    exact (h i).quiet (hq i) (silent_nil i)
  · exact kept_create h name value w word i
  · rw [hm, he]
    exact kept_submit h hcell halive x i

/-! ## Steps -/

theorem flushes_of_queue {ts : List (Task α ρ)} (hq : m.queue = .flush i :: ts) (j : Nat) :
    m.flushes j = ts.countP (Task.isFlushOf j) + if j = i then 1 else 0 := by
  unfold flushes
  rw [hq]
  by_cases h : j = i
  · simp [Task.isFlushOf, h]
  · simp [Task.isFlushOf, h, Ne.symm h]

/-- A flush does nothing if its cell is gone or nothing waits, and otherwise takes all
that waits. -/
theorem flush_cases (hcell : m.cells[i]? = some c) (hc : (m.flush i).conflict = false) :
    ((m.isAlive i = false ∨ c.pending = []) ∧ m.flush i = m ∧ m.flushed i = []) ∨
    (m.isAlive i ∧ m.isHeld i = false ∧
      m.flush i = (m.put i c.clear).advance i c.clear c.pending ∧
      m.flushed i = turn i c.pending) := by
  unfold flush at hc ⊢
  unfold flushed
  rw [hcell] at hc ⊢
  simp only at hc ⊢
  cases hlive : m.isAlive i with
  | false =>
      left
      simp
  | true =>
      cases hpending : c.isPending with
      | false =>
          have hnil := (c.isPending_eq_false_iff).1 hpending
          left
          simp [hnil, turn]
      | true =>
          cases hheld : m.isHeld i with
          | false =>
              right
              simp
          | true => simp [hlive, hpending, hheld, fail] at hc

/-- The flush of a cell goes on with changes that it has taken, when no other flush
of the cell is in progress and the other cells were left alone until then. -/
theorem kept_launch (h : ∀ i, Kept m hs i) (hothers : ∀ k, k ≠ i → QuietAt m m' k)
    (hcell : m'.cells[i]? = some c) (hnone : m'.flights i = [])
    (c' : Cell α (Change α ρ) (Script α ρ))
    (horder : appliedTo i hs ++ xs ++ c'.pending = submittedTo i hs)
    (hvalue : ∃ v₀, createdAs i hs = [v₀] ∧ c'.value = applyAll v₀ (appliedTo i hs))
    (hqueued : m'.flushes i = if c'.pending = [] then 0 else 1) (j : Nat) :
    Kept ((m'.put i c').advance i c' xs) (hs ++ turn i xs) j := by
  by_cases hj : j = i
  · subst hj
    have hcontents : ((m'.put j c').advance j c' xs).contents? j = some (c'.value, c'.pending) := by
      rw [contents?_advance, contents?_put hcell, if_pos rfl]
    have hflights : ((m'.put j c').advance j c' xs).flights j = launched xs := by
      rw [flights_advance, if_pos rfl]
      change launched xs ++ m'.flights j = _
      rw [hnone, List.append_nil]
    refine .of_contents? hcontents (.launch horder hvalue hflights fun _ => ?_)
    rw [flushes_advance]
    exact hqueued
  · refine (h j).quiet ((hothers j hj).trans ?_) (silent_turn (Ne.symm hj) _)
    have hput : QuietAt m' (m'.put i c') j := by
      refine ⟨?_, rfl, rfl, id⟩
      rw [contents?_put hcell, if_neg hj]
    exact hput.trans (quietAt_advance _ _ _ hj)

theorem quietAt_dequeue {ts : List (Task α ρ)} (hq : m.queue = .flush i :: ts) (hj : j ≠ i) :
    QuietAt m { m with queue := ts } j := by
  refine ⟨rfl, rfl, ?_, id⟩
  have hflushes := flushes_of_queue hq j
  rw [if_neg hj, Nat.add_zero] at hflushes
  exact hflushes.symm

/-- A flush that is taken from the queue does nothing if its cell is gone. A cell
that is alive has no flush in the queue without a change that waits. -/
theorem kept_skip (h : ∀ i, Kept m hs i) {ts : List (Task α ρ)} (hq : m.queue = .flush i :: ts)
    (hcell : m.cells[i]? = some c) (hgone : m.isAlive i = false ∨ c.pending = []) (j : Nat) :
    Kept { m with queue := ts } (hs ++ []) j := by
  by_cases hj : j = i
  · subst hj
    have hold := (h j).born _ _ (contents?_of_get? hcell)
    refine .of_contents? (contents?_of_get? hcell) ?_
    rw [List.append_nil]
    refine ⟨hold.single, hold.order, hold.value, fun halive => ?_⟩
    have hnil : c.pending = [] := by
      rcases hgone with hdead | hnil
      · exact absurd (halive.symm.trans hdead) Bool.true_eq_false.mp
      · exact hnil
    have hzero := hold.queued halive
    rw [if_pos hnil, flushes_of_queue hq, if_pos rfl] at hzero
    exact absurd hzero (Nat.succ_ne_zero _)
  · exact (h j).quiet (quietAt_dequeue hq hj) (silent_nil j)

/-- A flush that is taken from the queue finds its cell gone, or all that waits has
its turn. -/
theorem kept_flush (h : ∀ i, Kept m hs i) {ts : List (Task α ρ)} (hq : m.queue = .flush i :: ts)
    (hm : m' = { m with queue := ts }) (hc : (m'.flush i).conflict = false) (j : Nat) :
    Kept (m'.flush i) (hs ++ m'.flushed i) j := by
  subst hm
  have hflushes := flushes_of_queue hq i
  rw [if_pos rfl] at hflushes
  cases hcell : m.cells[i]? with
  | none =>
      have hzero := ((h i).unborn (by simp [contents?, hcell])).2.2
      rw [hflushes] at hzero
      exact absurd hzero (Nat.succ_ne_zero _)
  | some c =>
      have hcell' : ({ m with queue := ts } : Machine α ρ).cells[i]? = some c := hcell
      rcases flush_cases hcell' hc with ⟨hgone, hflush, he⟩ | ⟨halive, hheld, hflush, he⟩
      · rw [hflush, he]
        exact kept_skip h hq hcell hgone j
      · rw [hflush, he]
        have hold := (h i).born _ _ (contents?_of_get? hcell)
        have hnone : m.flights i = [] := flights_of_isHeld hheld
        refine kept_launch h (fun k hk => quietAt_dequeue hq hk) hcell' hnone c.clear ?_ ?_ ?_ j
        · have ho := hold.order
          rw [hnone, List.flatMap_nil, List.append_nil] at ho
          exact (List.append_nil _).trans ho
        · obtain ⟨v₀, hcreated, hv⟩ := hold.value
          rw [hnone] at hv
          exact ⟨v₀, hcreated, hv⟩
        · have hone := hold.queued halive
          rw [hflushes] at hone
          split at hone
          · cases hone
          · exact Nat.succ.inj hone

theorem flights_of_apply {u : α → α} {fs : List (Frame α ρ)}
    (hstack : m.stack = .apply i u xs :: fs) (j : Nat) : m.flights j =
      (if j = i then [(u, xs)] else []) ++ ({ m with stack := fs } : Machine α ρ).flights j := by
  unfold flights
  rw [hstack, List.filterMap_cons]
  by_cases hj : j = i
  · simp [Frame.flight?, hj]
  · simp [Frame.flight?, hj, Ne.symm hj]

theorem quietAt_pop_apply {u : α → α} {fs : List (Frame α ρ)}
    (hstack : m.stack = .apply i u xs :: fs) (hj : j ≠ i) : QuietAt m { m with stack := fs } j := by
  refine ⟨rfl, ?_, rfl, fun halive => ?_⟩
  · rw [flights_of_apply hstack, if_neg hj, List.nil_append]
  · rw [isAlive_iff] at halive ⊢
    rcases halive with hn | ⟨f, hf, hfj⟩
    · exact Or.inl hn
    · exact Or.inr ⟨f, hstack ▸ List.mem_cons_of_mem _ hf, hfj⟩

/-- A change is made, and the one after it has its turn. -/
theorem kept_apply (h : ∀ i, Kept m hs i) {u : α → α} {fs : List (Frame α ρ)}
    (hstack : m.stack = .apply i u xs :: fs) (hcell : m.cells[i]? = some c)
    (hm : m' = { m with stack := fs }) (j : Nat) :
    Kept ((m'.put i (c.update u)).advance i (c.update u) xs) (hs ++ turn i xs) j := by
  subst hm
  have hold := (h i).born _ _ (contents?_of_get? hcell)
  have hflights := flights_of_apply hstack i
  rw [if_pos rfl] at hflights
  have hlast : ({ m with stack := fs } : Machine α ρ).flights i = [] := by
    have hone := hold.single
    rw [hflights, List.singleton_append, List.length_cons] at hone
    exact List.eq_nil_of_length_eq_zero (by omega)
  rw [hlast, List.append_nil] at hflights
  refine kept_launch h (fun k hk => quietAt_pop_apply hstack hk) hcell hlast (c.update u) ?_ ?_ ?_ j
  · have ho := hold.order
    rwa [hflights, List.flatMap_singleton] at ho
  · obtain ⟨v₀, hcreated, hv⟩ := hold.value
    rw [hflights] at hv
    exact ⟨v₀, hcreated, hv⟩
  · have halive : m.isAlive i := by
      rw [isAlive_iff, hstack]
      exact Or.inr ⟨_, List.mem_cons_self .., rfl⟩
    exact hold.queued halive

theorem kept_quiet (h : ∀ i, Kept m hs i) (q : Quiet m m') (i : Nat) : Kept m' (hs ++ []) i :=
  (h i).quiet (q i) (silent_nil i)

theorem kept_replace (h : ∀ i, Kept m hs i) {f : Frame α ρ} {fs : List (Frame α ρ)}
    (hstack : m.stack = f :: fs) (f' : Frame α ρ) (hf : ∀ i, f.flight? i = none)
    (hf' : ∀ i, f'.flight? i = none) (hheld : f'.held? = f.held?) (i : Nat) :
    Kept { m with stack := f' :: fs } hs i := by
  have hk := kept_quiet h (.replace hstack hf hf' hheld) i
  rwa [List.append_nil] at hk

/-- A step keeps every account, unless it comes into conflict. -/
theorem kept_step (h : ∀ i, Kept m hs i) (hc : m.step.conflict = false) :
    ∀ i, Kept m.step (hs ++ m.stepped) i := by
  obtain ⟨cells, names, labels, queue, emitter, stack, log, reply, conflict⟩ := m
  cases conflict with
  | true => cases hc
  | false =>
      cases stack with
      | nil => exact kept_quiet h (.refl _)
      | cons f fs =>
          cases f with
          | script v body =>
              cases body with
              | nil => exact kept_quiet h (.pop rfl fun _ => rfl)
              | cons wa rest =>
                  have hrest :=
                    kept_replace h rfl (.script v rest) (fun _ => rfl) (fun _ => rfl) rfl
                  exact kept_perform hrest hc
          | drain word n =>
              cases queue with
              | nil => exact kept_quiet h (.trans (.pop rfl fun _ => rfl) (.answer _ _ _))
              | cons t ts =>
                  have hagain := kept_replace h rfl (.drain word (n + 1)) (fun _ => rfl)
                    (fun _ => rfl) rfl
                  cases t with
                  | script body =>
                      exact kept_quiet hagain (.trans (.dequeue rfl) (.push_free _ rfl))
                  | flush j => exact kept_flush hagain rfl rfl hc
          | apply j u xs =>
              cases hcell : cells[j]? with
              | none =>
                  have hzero := ((h j).unborn (by simp [contents?, hcell])).2.1
                  simp [flights, Frame.flight?] at hzero
              | some c =>
                  rw [step]
                  simp only [Bool.false_eq_true, if_false, hcell]
                  exact kept_apply h rfl hcell rfl
          | notify j v ls =>
              cases ls with
              | nil => exact kept_quiet h (.pop rfl fun _ => rfl)
              | cons l ls =>
                  have hnext :=
                    kept_replace h rfl (.notify j v ls) (fun _ => rfl) (fun _ => rfl) rfl
                  exact kept_quiet hnext (.push_free _ rfl)
          | visit j => exact kept_quiet h (.pop rfl fun _ => rfl)
          | emit word v n ls =>
              cases ls with
              | nil => exact kept_quiet h (.trans (.pop rfl fun _ => rfl) (.answer _ _ _))
              | cons l ls =>
                  have hnext :=
                    kept_replace h rfl (.emit word v n ls) (fun _ => rfl) (fun _ => rfl) rfl
                  exact kept_quiet hnext (.push_free _ rfl)

theorem Reaches.kept (h : Reaches m hs) (hc : m.conflict = false) : ∀ i, Kept m hs i := by
  induction h with
  | start ls =>
      intro i
      refine ⟨fun v ps hv => ?_, fun _ => ⟨silent_nil i, rfl, rfl⟩⟩
      simp [contents?, withListeners] at hv
  | @request m hs word a _ hm _ ih =>
      have hfresh : Quiet m { m with log := #[], reply := .nothing } := .of_eq rfl rfl rfl rfl
      refine kept_perform (fun i => ?_) hc
      have hk := kept_quiet (ih hm) hfresh i
      rwa [List.append_nil] at hk
  | @step m hs _ ih =>
      apply kept_step (ih ?_) hc
      cases hm : m.conflict with
      | false => rfl
      | true =>
          rw [Machine.step, if_pos hm, hm] at hc
          cases hc

end LiveMarkup.Machine
