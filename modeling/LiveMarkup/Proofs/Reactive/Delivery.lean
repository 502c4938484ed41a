import LiveMarkup.Proofs.Reactive.Effects
import LiveMarkup.Proofs.Reactive.Order
import Mathlib.Data.Nat.Find

/-!
# Messages and who gets them

To whoever uses it, an emitter is a board: under each name and each key there is a listener
or none. Registering a listener puts it under a key that is not in use, removing one takes
it from its own name and key alone, and clearing a name takes all that is under it. What an
emitter does and answers is what a board does and answers (`Emitter.run_replies`), and a
machine leaves its emitter alone except for the calls that its actions make
(`Machine.Enrols.emitter_eq`).

An emission goes through the listeners that its name has when it begins. A listener that is
called stands above it on the stack, and what happens there is not the emission's
(`Machine.Emitting.step`). So the calls made so far are the first of those to be made, and
all of them are made when the emission is over (`Machine.Emitting.run`).
-/

namespace LiveMarkup

variable {α ρ β : Type}

/-! ## Boards -/

/-- Listeners under names and keys. -/
abbrev Board (β : Type) := String → Nat → Option β

namespace Board

/-- The board with a place filled or freed. -/
def set (b : Board β) (name : String) (key : Nat) (o : Option β) : Board β :=
  fun other k => if name = other ∧ key = k then o else b other k

/-- The board with nothing under a name. -/
def clear (b : Board β) (name : String) : Board β :=
  fun other k => if name = other then none else b other k

/-- The calls that may be made of a board one after the other, each with its answer, and
the board that they leave. -/
inductive Run : List (Emitter.Call (Script α ρ) × Reply α ρ) → Board (Script α ρ) → Prop where
  | start : Run [] fun _ _ => none
  | on {cs : List (Emitter.Call (Script α ρ) × Reply α ρ)} {b : Board (Script α ρ)}
      (name : String) (l : Script α ρ) {key : Nat} (unused : b name key = none) :
      Run cs b → Run (cs ++ [(.on name l, .key key)]) (b.set name key (some l))
  | off {cs : List (Emitter.Call (Script α ρ) × Reply α ρ)} {b : Board (Script α ρ)}
      (name : String) (key : Nat) :
      Run cs b → Run (cs ++ [(.off name key, .truth (b name key).isSome)]) (b.set name key none)
  | offAll {cs : List (Emitter.Call (Script α ρ) × Reply α ρ)} {b : Board (Script α ρ)}
      (name : String) : Run cs b → Run (cs ++ [(.offAll name, .nothing)]) (b.clear name)

end Board

namespace Emitter

/-- What a call is answered. -/
def reply (e : Emitter (Script α ρ)) : Call (Script α ρ) → Reply α ρ
  | .on name _ => .key (e.nextKey name)
  | .off name key => .truth (e.get? name key).isSome
  | .offAll _ => .nothing

/-- Calls made one after the other, each with its answer. -/
def replies (e : Emitter (Script α ρ)) :
    List (Call (Script α ρ)) → List (Call (Script α ρ) × Reply α ρ)
  | [] => []
  | c :: cs => (c, e.reply c) :: replies (e.call c) cs

theorem replies_concat (e : Emitter (Script α ρ)) (cs : List (Call (Script α ρ)))
    (c : Call (Script α ρ)) :
    e.replies (cs ++ [c]) = e.replies cs ++ [(c, (cs.foldl call e).reply c)] := by
  induction cs generalizing e with
  | nil => rfl
  | cons d cs ih => exact congrArg ((d, e.reply d) :: ·) (ih (e.call d))

/-- The calls that register the listeners of a list. -/
def enrolling (ls : List (String × β)) : List (Call β) :=
  ls.map fun l => .on l.1 l.2

theorem ofList_eq_after (ls : List (String × β)) : ofList ls = after (enrolling ls) := by
  rw [after, enrolling, List.foldl_map]
  rfl

theorem distinct_after (cs : List (Call β)) : (after cs).topics.Distinct :=
  (placeLaw "" 0).sound_foldl OrderedMap.distinct_empty cs

/-- An emitter is a board. -/
theorem run_replies (cs : List (Call (Script α ρ))) :
    Board.Run (empty.replies cs) (after cs).get? := by
  induction cs using List.reverseRecOn with
  | nil => exact .start
  | append_singleton cs c ih =>
      rw [replies_concat, ← after, after_concat]
      cases c with
      | on name l =>
          have hset : ((after cs).call (.on name l)).get? =
              Board.set (after cs).get? name ((after cs).nextKey name) (some l) := by
            funext other k
            simp [call, get?_on, Board.set, eq_comm]
          exact hset ▸ .on name l (get?_nextKey _ _) ih
      | off name key =>
          have hset : ((after cs).call (.off name key)).get? =
              Board.set (after cs).get? name key none := by
            funext other k
            exact get?_off _ _ _ _ _
          exact hset ▸ .off name key ih
      | offAll name =>
          have hclear : ((after cs).call (.offAll name)).get? =
              Board.clear (after cs).get? name := by
            funext other k
            exact get?_offAll (distinct_after cs) _ _ _
          exact hclear ▸ .offAll name ih

theorem nodup_keys_called (e : Emitter β) (name : String) :
    ((e.called name).map (·.1)).Nodup :=
  List.pairwise_map.2 ((e.topic name).pairwise_entries.imp Nat.ne_of_lt)

theorem count_eq_length_called (e : Emitter β) (name : String) :
    e.count name = (e.called name).length := by
  have hsize : (e.topic name).toList.length = (e.topic name).size := by
    simp [Slab.toList, Slab.size, List.length_filterMap_eq_countP, Array.countP_toList]
  rw [count, ← hsize, ← listeners, ← map_snd_called, List.length_map]

end Emitter

namespace Machine

variable {m : Machine α ρ}

/-! ## The calls that a machine makes of its emitter -/

/-- The machines that are reached from one with some listeners, and the calls of the
emitter that were made by then. -/
inductive Enrols (ls : List (String × Script α ρ)) :
    Machine α ρ → List (Emitter.Call (Script α ρ)) → Prop where
  | start : Enrols ls (withListeners ls) []
  | request {m : Machine α ρ} {cs : List (Emitter.Call (Script α ρ))} (word : String)
      (a : Action α ρ) :
      Enrols ls m cs → m.conflict = false → m.stack = [] →
      Enrols ls (m.request word a) (cs ++ m.calls a)
  | step {m : Machine α ρ} {cs : List (Emitter.Call (Script α ρ))} :
      Enrols ls m cs → Enrols ls m.step (cs ++ m.calling)

/-- A step changes the emitter by the calls that it makes. -/
theorem emitter_step (m : Machine α ρ) :
    m.step.emitter = m.calling.foldl Emitter.call m.emitter := by
  rcases m.step_cases with ⟨o, -, heffect⟩ | ⟨word, n, fs, -, -, hcalls, -, hstep⟩ |
    ⟨word, n, fs, t, ts, -, -, hcalls, -, hstep⟩
  · exact heffect.emitter
  · rw [hstep, hcalls, emitter_answer]
    rfl
  · rw [hstep, hcalls]
    exact (effect_start ..).emitter

/-- What the emitter of a machine holds is due to the listeners it began with and to the
calls that were made. -/
theorem Enrols.emitter_eq {ls : List (String × Script α ρ)}
    {cs : List (Emitter.Call (Script α ρ))} (h : Enrols ls m cs) :
    m.emitter = cs.foldl Emitter.call (.ofList ls) := by
  induction h with
  | start => rfl
  | request word a _ _ _ ih =>
      rw [List.foldl_append, ← ih]
      exact (effect_perform ..).emitter
  | step _ ih => rw [List.foldl_append, ← ih, emitter_step]

/-- An action that makes a call is answered what the emitter answers. -/
theorem exists_perform_eq_answer {a : Action α ρ} {c : Emitter.Call (Script α ρ)}
    (h : m.calls a = [c]) (v : Option α) (word : String) :
    ∃ m' : Machine α ρ, m'.emitter = m.emitter.call c ∧
      (m.perform v word a = m'.answer word (m.emitter.reply c) ∨
        m.perform v word a = m' ∧ m.emitter.reply c = .nothing) := by
  cases a with
  | subscribe topic label body =>
      obtain rfl := List.singleton_inj.1 h
      exact ⟨_, rfl, .inl rfl⟩
  | unsubscribe topic label =>
      cases hlabel : m.labels.get? label with
      | none => simp [calls, hlabel] at h
      | some key =>
          simp only [calls, hlabel] at h
          obtain rfl := List.singleton_inj.1 h
          simp only [perform, hlabel]
          exact ⟨_, rfl, .inl rfl⟩
  | unsubscribeAll topic =>
      obtain rfl := List.singleton_inj.1 h
      exact ⟨_, rfl, .inr ⟨rfl, rfl⟩⟩
  | _ => cases h

/-! ## Emissions -/

/-- The listeners that an emission at some depth of the stack calls in a step, each with
what it is told: what the step of the emission has put right above it. -/
def delivered (depth : Nat) (m : Machine α ρ) : List (Script α ρ × α) :=
  match m.stack, m.step.stack with
  | .emit _ _ _ _ :: fs, .script (some data) l :: _ :: gs =>
    if fs.length = depth ∧ gs.length = depth then [(l, data)] else []
  | _, _ => []

/-- The listeners that an emission at some depth calls in a number of steps. -/
def deliveredFor (depth k : Nat) (m : Machine α ρ) : List (Script α ρ × α) :=
  along (delivered depth) k m

/-- The stack has been above some depth for a number of steps. -/
def StaysAbove (depth k : Nat) (m : Machine α ρ) : Prop :=
  ∀ j ≤ k, depth < (runFor j m).stack.length

/-- An emission is in progress above what was done before, and some listeners are left. -/
def Emitting (m : Machine α ρ) (word : String) (data : α) (n : Nat) (base : List (Frame α ρ))
    (ls : List (Script α ρ)) : Prop :=
  ∃ above, m.stack = above ++ .emit word data n ls :: base

section Emission

variable {word : String} {data : α} {n k : Nat} {base : List (Frame α ρ)}
  {ls : List (Script α ρ)}

theorem Emitting.lt_length (h : m.Emitting word data n base ls) :
    base.length < m.stack.length := by
  obtain ⟨above, hs⟩ := h
  rw [hs, List.length_append, List.length_cons]
  omega

theorem delivered_of_above {f : Frame α ρ} {fs : List (Frame α ρ)} (hs : m.stack = f :: fs)
    (hfs : base.length < fs.length) : m.delivered base.length = [] := by
  unfold delivered
  split
  · rename_i hstack _
    obtain ⟨-, rfl⟩ := List.cons.inj (hs.symm.trans hstack)
    exact if_neg fun h => absurd h.1 (Nat.ne_of_gt hfs)
  · rfl

theorem delivered_of_down (hstep : m.step.stack.length ≤ base.length + 1) :
    m.delivered base.length = [] := by
  unfold delivered
  split
  · rename_i hstack
    rw [hstack] at hstep
    refine if_neg fun h => ?_
    simp only [List.length_cons] at hstep
    omega
  · rfl

/-- An emission calls the first of the listeners that are left, or waits for what goes on
above it, or has no one left to call and answers. -/
theorem Emitting.step (h : m.Emitting word data n base ls) :
    (∃ rest, m.step.Emitting word data n base rest ∧
      m.delivered base.length ++ rest.map (·, data) = ls.map (·, data)) ∨
    (m.delivered base.length = [] ∧ ls = [] ∧
      m.step = { m with stack := base }.answer word (.count n)) := by
  obtain ⟨above, hs⟩ := h
  cases above with
  | cons f above =>
      left
      obtain ⟨news, hnews⟩ := suffix_step hs
      have hnone : m.delivered base.length = [] := delivered_of_above hs (by simp; omega)
      refine ⟨ls, ⟨news ++ above, hnews ▸ (List.append_assoc ..).symm⟩, ?_⟩
      rw [hnone, List.nil_append]
  | nil =>
      rw [List.nil_append] at hs
      cases hconflict : m.conflict with
      | true =>
          left
          have hstep : m.step = m := step_of_isIdle (by simp [isIdle, hconflict])
          have hnone : m.delivered base.length = [] := delivered_of_down (by simp [hstep, hs])
          refine ⟨ls, ⟨[], by rw [hstep, hs, List.nil_append]⟩, ?_⟩
          rw [hnone, List.nil_append]
      | false =>
          cases ls with
          | nil =>
              right
              have hstep : m.step.stack = base := by
                simp [Machine.step, hconflict, hs, stack_answer]
              refine ⟨delivered_of_down (by simp [hstep]), rfl, ?_⟩
              simp [Machine.step, hconflict, hs]
          | cons l ls =>
              left
              have hstep : m.step.stack = .script (some data) l :: .emit word data n ls :: base := by
                simp [Machine.step, hconflict, hs]
              refine ⟨ls, ⟨[.script (some data) l], hstep⟩, ?_⟩
              simp [delivered, hs, hstep]

/-- The listeners called so far and those that are left are the listeners there were. -/
theorem Emitting.run (h : m.Emitting word data n base ls) (hk : m.StaysAbove base.length k) :
    ∃ rest, (runFor k m).Emitting word data n base rest ∧
      m.deliveredFor base.length k ++ rest.map (·, data) = ls.map (·, data) := by
  induction k with
  | zero => exact ⟨ls, h, rfl⟩
  | succ k ih =>
      obtain ⟨rest, hrest, hcalled⟩ := ih fun j hj => hk j (Nat.le_succ_of_le hj)
      rcases hrest.step with ⟨rest', hrest', hstep⟩ | ⟨-, -, hended⟩
      · refine ⟨rest', ?_, ?_⟩
        · rwa [runFor_succ]
        · rw [deliveredFor, along_succ, ← deliveredFor, List.append_assoc, hstep, hcalled]
      · -- the stack would not have stayed above
        have hlt := hk (k + 1) (Nat.le_refl _)
        rw [runFor_succ, hended, stack_answer] at hlt
        exact absurd hlt (Nat.lt_irrefl _)

/-- When the stack comes down, all listeners were called, and the emission answers. -/
theorem Emitting.ended (h : m.Emitting word data n base ls) (hk : m.StaysAbove base.length k)
    (hdown : (runFor (k + 1) m).stack.length ≤ base.length) :
    m.deliveredFor base.length (k + 1) = ls.map (·, data) ∧
      runFor (k + 1) m = { runFor k m with stack := base }.answer word (.count n) := by
  obtain ⟨rest, hrest, hcalled⟩ := h.run hk
  rcases hrest.step with ⟨rest', hrest', -⟩ | ⟨hnone, rfl, hended⟩
  · rw [← runFor_succ] at hrest'
    exact absurd hrest'.lt_length (Nat.not_lt_of_le hdown)
  · rw [List.map_nil, List.append_nil] at hcalled
    rw [deliveredFor, along_succ, ← deliveredFor, hnone, List.append_nil]
    exact ⟨hcalled, runFor_succ k m ▸ hended⟩

/-- A stack that comes down at some time comes down a first time. -/
theorem exists_staysAbove {depth : Nat} (h : depth < m.stack.length)
    (hdown : ∃ k, (runFor k m).stack.length ≤ depth) :
    ∃ k, m.StaysAbove depth k ∧ (runFor (k + 1) m).stack.length ≤ depth := by
  have hfirst := Nat.find_spec hdown
  cases hk : Nat.find hdown with
  | zero =>
      rw [hk] at hfirst
      exact absurd h (Nat.not_lt_of_le hfirst)
  | succ k =>
      refine ⟨k, fun j hj => ?_, hk ▸ hfirst⟩
      exact Nat.lt_of_not_le (Nat.find_min hdown (hk ▸ Nat.lt_succ_of_le hj))

/-- Whenever a listener was called, it comes to its end. -/
def Heard (m : Machine α ρ) (word : String) (data : α) (n : Nat) (base : List (Frame α ρ)) :
    Prop :=
  ∀ k l rest, (runFor k m).stack = .script (some data) l :: .emit word data n rest :: base →
    ∃ j, (runFor (k + j) m).stack = .emit word data n rest :: base ∧
      (runFor (k + j) m).conflict = false

theorem Heard.exists_down (h : m.Heard word data n base)
    (hs : (runFor k m).stack = .emit word data n ls :: base)
    (hconflict : (runFor k m).conflict = false) :
    ∃ k, (runFor k m).stack.length ≤ base.length := by
  induction ls generalizing k with
  | nil =>
      refine ⟨k + 1, ?_⟩
      simp [runFor_succ, Machine.step, hconflict, hs, stack_answer]
  | cons l ls ih =>
      have hcalled : (runFor (k + 1) m).stack =
          .script (some data) l :: .emit word data n ls :: base := by
        simp [runFor_succ, Machine.step, hconflict, hs]
      obtain ⟨j, hj, hclear⟩ := h _ _ _ hcalled
      exact ih hj hclear

end Emission

/-- What it means that a message is delivered. The listeners under its name are those that
are there, under one key each, and the number that is answered for the name is theirs. The
emission calls them one after the other, each once and with the data, and no one else; what
was called at any time is the first part of them, and when the emission ends they were all
called and it answers their number. If whoever is called comes to an end, so does it. -/
structure Delivers (m : Machine α ρ) (v : Option α) (word name : String) (data : α) : Prop where
  nodup : ((m.emitter.called name).map (·.1)).Nodup
  current : ∀ key l, (key, l) ∈ m.emitter.called name ↔ m.emitter.get? name key = some l
  counted : m.perform v word (.subscribers name) =
    m.answer word (.count (m.emitter.called name).length)
  ongoing : ∀ k, (m.perform v word (.emit name data)).StaysAbove m.stack.length k →
    (m.perform v word (.emit name data)).deliveredFor m.stack.length k <+:
      (m.emitter.called name).map fun x => (x.2, data)
  ended : ∀ k, (m.perform v word (.emit name data)).StaysAbove m.stack.length k →
    (runFor (k + 1) (m.perform v word (.emit name data))).stack.length ≤ m.stack.length →
    (m.perform v word (.emit name data)).deliveredFor m.stack.length (k + 1) =
        (m.emitter.called name).map (fun x => (x.2, data)) ∧
      runFor (k + 1) (m.perform v word (.emit name data)) =
        { runFor k (m.perform v word (.emit name data)) with stack := m.stack }.answer word
          (.count (m.emitter.called name).length)
  returns : (m.perform v word (.emit name data)).Heard word data
      (m.emitter.called name).length m.stack →
    ∃ k, (m.perform v word (.emit name data)).StaysAbove m.stack.length k ∧
      (runFor (k + 1) (m.perform v word (.emit name data))).stack.length ≤ m.stack.length

theorem delivers_of_conflict (hconflict : m.conflict = false) (v : Option α) (word name : String)
    (data : α) : m.Delivers v word name data := by
  have hcount := m.emitter.count_eq_length_called name
  have hcalled : (m.emitter.called name).map (fun x => (x.2, data)) =
      (m.emitter.listeners name).map (·, data) := by
    rw [← Emitter.map_snd_called, List.map_map]
    rfl
  have hs : (m.perform v word (.emit name data)).stack =
      .emit word data (m.emitter.called name).length (m.emitter.listeners name) :: m.stack := by
    rw [← hcount]
    rfl
  have hemitting : (m.perform v word (.emit name data)).Emitting word data
      (m.emitter.called name).length m.stack (m.emitter.listeners name) := ⟨[], hs⟩
  refine ⟨m.emitter.nodup_keys_called name, fun key l => Emitter.mem_called, ?_, ?_, ?_, ?_⟩
  · rw [← hcount]
    rfl
  · intro k hk
    obtain ⟨rest, -, hrest⟩ := hemitting.run hk
    exact ⟨rest.map (·, data), hrest.trans hcalled.symm⟩
  · intro k hk hdown
    rw [hcalled]
    exact hemitting.ended hk hdown
  · intro hheard
    exact exists_staysAbove hemitting.lt_length (Heard.exists_down (k := 0) hheard hs hconflict)

/-- A machine's emitter is a board, whatever calls were made since it began with some
listeners, its actions are answered what the board answers, and it delivers each message
once to each listener that is there. -/
theorem delivers {ls : List (String × Script α ρ)} {cs : List (Emitter.Call (Script α ρ))}
    (hemitter : m.emitter = cs.foldl Emitter.call (.ofList ls)) (hconflict : m.conflict = false)
    (v : Option α) (word name : String) (data : α) :
    Board.Run (Emitter.empty.replies (Emitter.enrolling ls ++ cs)) m.emitter.get? ∧
      (∀ a c, m.calls a = [c] → ∃ m' : Machine α ρ, m'.emitter = m.emitter.call c ∧
        (m.perform v word a = m'.answer word (m.emitter.reply c) ∨
          m.perform v word a = m' ∧ m.emitter.reply c = .nothing)) ∧
      m.Delivers v word name data := by
  have hafter : m.emitter = Emitter.after (Emitter.enrolling ls ++ cs) := by
    rw [hemitter, Emitter.ofList_eq_after, Emitter.after, Emitter.after, List.foldl_append]
  refine ⟨?_, fun a c hc => exists_perform_eq_answer hc v word, delivers_of_conflict hconflict ..⟩
  rw [hafter]
  exact Emitter.run_replies _

/-- A listener that notes a label down. -/
def noting (label : String) : Script Nat Nat :=
  [("", .note label)]

/-- A machine with three listeners under a name, of which the second was removed. -/
def hall : Machine Nat Nat :=
  (((withListeners [("greet", noting "a")]).request ""
    (.subscribe "greet" "b" (noting "b"))).request ""
    (.subscribe "greet" "c" (noting "c"))).request "" (.unsubscribe "greet" "b")

theorem delivers_hall :
    hall.emitter = [.on "greet" (noting "b"), .on "greet" (noting "c"), .off "greet" 1].foldl
        Emitter.call (.ofList [("greet", noting "a")]) ∧ hall.conflict = false ∧
      (hall.perform none "" (.emit "greet" 7)).deliveredFor 0 7 =
        [(noting "a", 7), (noting "c", 7)] ∧
      (runFor 7 (hall.perform none "" (.emit "greet" 7))).reply = .count 2 := by
  have hstart : Enrols [("greet", noting "a")] (withListeners [("greet", noting "a")]) [] := .start
  have hsecond := hstart.request "" (.subscribe "greet" "b" (noting "b")) rfl rfl
  have hthird := hsecond.request "" (.subscribe "greet" "c" (noting "c")) rfl rfl
  have hall' : Enrols _ hall _ := hthird.request "" (.unsubscribe "greet" "b") rfl rfl
  obtain ⟨-, -, hdelivers⟩ := delivers hall'.emitter_eq rfl none "" "greet" 7
  have habove : (hall.perform none "" (.emit "greet" 7)).StaysAbove hall.stack.length 6 := by
    unfold StaysAbove
    decide
  obtain ⟨hcalled, hanswer⟩ := hdelivers.ended 6 habove (by decide)
  exact ⟨hall'.emitter_eq, rfl, hcalled, congrArg Machine.reply hanswer⟩

end Machine

end LiveMarkup
