import LiveMarkup.Proofs.Document.Calls
import LiveMarkup.Proofs.Document.Listeners

/-!
# Whom an event calls

What a call, a visit to a node or a whole journey does to an event is said in one form: the
calls that are made, and what they do to the event by how they are answered
(`Journey.Leads`). Such steps compose, so what holds of one call holds of a journey.

An event goes along its path as far as the first node where it is stopped, or only to its
target if it does not travel (`Document.Travels`). In a well-formed document the path is the
way up from the target (`Document.WellFormed.isWayUp`).
-/

namespace LiveMarkup

/-- Each call with the answers to it, where some calls were made before. -/
def Behaviour.replies (b : Behaviour) : List Call → List Call → List (Call × List Reaction)
  | _, [] => []
  | before, c :: cs => (c, b before c) :: replies b (before ++ [c]) cs

namespace Behaviour

theorem replies_append (b : Behaviour) (before cs ds : List Call) :
    b.replies before (cs ++ ds) = b.replies before cs ++ b.replies (before ++ cs) ds := by
  induction cs generalizing before with
  | nil => rw [List.nil_append, List.append_nil, replies, List.nil_append]
  | cons c cs ih =>
      rw [List.cons_append, replies, replies, ih, List.append_assoc, List.singleton_append,
        List.cons_append]

theorem mem_replies {b : Behaviour} {before cs : List Call} {x : Call × List Reaction}
    (hx : x ∈ b.replies before cs) : x.1 ∈ cs ∧ ∃ earlier, x.2 = b earlier x.1 := by
  induction cs generalizing before with
  | nil => cases hx
  | cons c cs ih =>
      rcases List.mem_cons.1 hx with rfl | hx
      · exact ⟨List.mem_cons_self .., before, rfl⟩
      · exact ⟨List.mem_cons_of_mem _ (ih hx).1, (ih hx).2⟩

end Behaviour

namespace Event

theorem cancelable_congr {e e' : Event} (h : e'.data = e.data) : e'.cancelable = e.cancelable := by
  rw [cancelable, cancelable, name, name, h]

theorem bubbles_congr {e e' : Event} (h : e'.data = e.data) : e'.bubbles = e.bubbles := by
  rw [bubbles, bubbles, name, name, h]

theorem bubbles_iff {e : Event} : e.bubbles = true ↔ e.name ≠ "focus" ∧ e.name ≠ "blur" := by
  simp [bubbles]

theorem cancelable_iff {e : Event} : e.cancelable = true ↔ e.name ∉ ["input", "focus", "blur"] := by
  simp [cancelable, and_assoc]

/-- Answers stop an event, and prevent its default action if that can be prevented. -/
theorem answers_eq (e : Event) (rs : List Reaction) : e.answers rs =
    { e with
      prevented := e.prevented || e.cancelable && rs.contains .preventDefault
      stopped := e.stopped || rs.contains .stopPropagation } := by
  induction rs generalizing e with
  | nil => simp [answers]
  | cons r rs ih =>
      have hstep : e.answers (r :: rs) = (e.answer r).answers rs := rfl
      rw [hstep, ih]
      cases r with
      | preventDefault =>
          have hsame : (e.answer .preventDefault).cancelable = e.cancelable := cancelable_congr rfl
          rw [hsame]
          cases hc : e.cancelable <;> simp [answer, hc]
      | stopPropagation =>
          have hsame : (e.answer .stopPropagation).cancelable = e.cancelable := cancelable_congr rfl
          rw [hsame]
          simp [answer]

end Event

namespace Journey

variable {b : Behaviour} {j j₁ j₂ : Journey} {cs ds : List Call}

/-- A journey leads on to another by some calls. The event is stopped then if it was or if a
call is answered so, and likewise its default action is prevented, if that can be. -/
structure Leads (b : Behaviour) (j j' : Journey) (cs : List Call) : Prop where
  calls : j'.calls = j.calls ++ cs
  target : j'.event.target = j.event.target
  data : j'.event.data = j.event.data
  path : j'.event.path = j.event.path
  stopped : j'.event.stopped = true ↔
    j.event.stopped = true ∨ ∃ x ∈ b.replies j.calls cs, .stopPropagation ∈ x.2
  prevented : j'.event.prevented = true ↔ j.event.prevented = true ∨
    j.event.cancelable = true ∧ ∃ x ∈ b.replies j.calls cs, .preventDefault ∈ x.2
  seen : ∀ c ∈ cs, c.event.target = j.event.target ∧ c.event.data = j.event.data ∧
    c.event.path = j.event.path

/-- A call on a journey was answered in some way. -/
def Answered (b : Behaviour) (j : Journey) (r : Reaction) : Prop :=
  ∃ x ∈ b.replies [] j.calls, r ∈ x.2

namespace Leads

theorem move (b : Behaviour) (j : Journey) (id : Option NodeId) : Leads b j (j.move id) [] where
  calls := (List.append_nil _).symm
  target := rfl
  data := rfl
  path := rfl
  stopped := by simp [Behaviour.replies, Journey.move]
  prevented := by simp [Behaviour.replies, Journey.move]
  seen _ hc := nomatch hc

theorem call (b : Behaviour) (j : Journey) (l : Listener) :
    Leads b j (j.call b l) [⟨l, j.event⟩] where
  calls := rfl
  target := by rw [Journey.call, Event.answers_eq]
  data := by rw [Journey.call, Event.answers_eq]
  path := by rw [Journey.call, Event.answers_eq]
  stopped := by
    rw [Journey.call, Event.answers_eq]
    simp [Behaviour.replies]
  prevented := by
    rw [Journey.call, Event.answers_eq]
    simp [Behaviour.replies]
  seen c hc := by
    rw [List.mem_singleton.1 hc]
    exact ⟨rfl, rfl, rfl⟩

theorem trans (h : Leads b j j₁ cs) (h' : Leads b j₁ j₂ ds) : Leads b j j₂ (cs ++ ds) where
  calls := by rw [h'.calls, h.calls, List.append_assoc]
  target := h'.target.trans h.target
  data := h'.data.trans h.data
  path := h'.path.trans h.path
  stopped := by
    rw [h'.stopped, h.stopped, h.calls, b.replies_append]
    simp only [List.mem_append, or_and_right, exists_or, or_assoc]
  prevented := by
    rw [h'.prevented, h.prevented, h.calls, b.replies_append, Event.cancelable_congr h.data]
    simp only [List.mem_append, or_and_right, exists_or, and_or_left, or_assoc]
  seen c hc := by
    rcases List.mem_append.1 hc with hc | hc
    · exact h.seen c hc
    · rw [← h.target, ← h.data, ← h.path]
      exact h'.seen c hc

end Leads

theorem current_call (b : Behaviour) (j : Journey) (l : Listener) :
    (j.call b l).event.current = j.event.current := by
  rw [call, Event.answers_eq]

/-- The listeners at one node are all called in order. -/
theorem leads_callAll (b : Behaviour) (ls : List Listener) (j : Journey) :
    ∃ cs, Leads b j (j.callAll b ls) cs ∧
      cs.map (fun c => (c.event.current, c.listener)) = ls.map fun l => (j.event.current, l) := by
  induction ls generalizing j with
  | nil => exact ⟨[], .move b j j.event.current, rfl⟩
  | cons l ls ih =>
      obtain ⟨cs, hleads, horder⟩ := ih (j.call b l)
      rw [current_call] at horder
      exact ⟨⟨l, j.event⟩ :: cs, (Leads.call b j l).trans hleads, congrArg _ horder⟩

end Journey

namespace Document

open Journey

variable {d : Document} {b : Behaviour} {j : Journey} {target : NodeId} {data : EventData}

/-- A journey goes along the first part of a path. It calls the listeners there node by
node, none of which stops the event before the last node, and goes on until one does, unless
the event does not travel. -/
structure Travels (d : Document) (b : Behaviour) (j : Journey) (visited rest : List NodeId)
    (cs : List Call) : Prop where
  leads : Leads b j (d.travel b j (visited ++ rest)) cs
  order : cs.map (fun c => (c.event.current, c.listener)) =
    visited.flatMap fun k => (d.listenersAt k j.event.name).map fun l => (some k, l)
  last : ∀ x ∈ b.replies j.calls cs, .stopPropagation ∈ x.2 →
    x.1.event.current = visited.getLast?
  stays : j.event.bubbles = false → visited = (visited ++ rest).take 1
  goesOn : j.event.bubbles = true → rest ≠ [] →
    ∃ x ∈ b.replies j.calls cs, .stopPropagation ∈ x.2

/-- The journey after a visit to a node. -/
def visit (d : Document) (b : Behaviour) (j : Journey) (id : NodeId) : Journey :=
  (j.move (some id)).callAll b (d.listenersAt id j.event.name)

theorem travel_cons (d : Document) (b : Behaviour) (j : Journey) (id : NodeId)
    (ids : List NodeId) : d.travel b j (id :: ids) =
      if (d.visit b j id).event.bubbles && !(d.visit b j id).event.stopped then
        d.travel b (d.visit b j id) ids
      else d.visit b j id :=
  rfl

/-- On a visit to a node the listeners there are called in order. -/
theorem leads_visit (d : Document) (b : Behaviour) (j : Journey) (id : NodeId) :
    ∃ cs, Leads b j (d.visit b j id) cs ∧ cs.map (fun c => (c.event.current, c.listener)) =
      (d.listenersAt id j.event.name).map fun l => (some id, l) := by
  obtain ⟨cs, hleads, horder⟩ :=
    leads_callAll b (d.listenersAt id j.event.name) (j.move (some id))
  exact ⟨cs, (Leads.move b j (some id)).trans hleads, horder⟩

namespace Travels

variable {id : NodeId} {ids visited rest : List NodeId} {cs ds : List Call}

theorem nil (d : Document) (b : Behaviour) (j : Journey) : Travels d b j [] [] [] where
  leads := .move b j j.event.current
  order := rfl
  last _ hx := nomatch hx
  stays _ := rfl
  goesOn _ h := absurd rfl h

/-- A journey that ends where the event was stopped, or that does not go on anyway. -/
theorem ends (hj : j.event.stopped = false) (hleads : Leads b j (d.visit b j id) cs)
    (horder : cs.map (fun c => (c.event.current, c.listener)) =
      (d.listenersAt id j.event.name).map fun l => (some id, l))
    (hend : ((d.visit b j id).event.bubbles && !(d.visit b j id).event.stopped) = false)
    (rest : List NodeId) : Travels d b j [id] rest cs where
  leads := by
    rw [List.singleton_append, travel_cons, hend]
    exact hleads
  order := by rw [horder, List.flatMap_singleton]
  last x hx _ := by
    have hmem := List.mem_map_of_mem (f := fun c : Call => (c.event.current, c.listener))
      (Behaviour.mem_replies hx).1
    rw [horder] at hmem
    obtain ⟨l, -, hl⟩ := List.mem_map.1 hmem
    exact (Prod.ext_iff.1 hl).1.symm
  stays _ := rfl
  goesOn hbubbles _ := by
    rw [Event.bubbles_congr hleads.data, hbubbles, Bool.true_and, Bool.not_eq_false'] at hend
    refine (hleads.stopped.1 hend).resolve_left ?_
    rw [hj]
    exact Bool.false_ne_true

/-- A journey that goes on from a node where the event was not stopped. -/
theorem cons (hleads : Leads b j (d.visit b j id) cs)
    (horder : cs.map (fun c => (c.event.current, c.listener)) =
      (d.listenersAt id j.event.name).map fun l => (some id, l))
    (hbubbles : (d.visit b j id).event.bubbles = true)
    (hstopped : (d.visit b j id).event.stopped = false)
    (h : Travels d b (d.visit b j id) visited rest ds) :
    Travels d b j (id :: visited) rest (cs ++ ds) where
  leads := by
    rw [List.cons_append, travel_cons, hbubbles, hstopped]
    exact hleads.trans h.leads
  order := by
    have hname : (d.visit b j id).event.name = j.event.name := congrArg EventData.name hleads.data
    rw [List.map_append, horder, h.order, hname, List.flatMap_cons]
  last x hx hstop := by
    rw [b.replies_append, List.mem_append, ← hleads.calls] at hx
    rcases hx with hx | hx
    · rw [hleads.stopped.2 (.inr ⟨x, hx, hstop⟩)] at hstopped
      cases hstopped
    · rw [h.last x hx hstop]
      cases visited with
      | nil =>
          have hds : ds = [] := List.map_eq_nil_iff.1 h.order
          rw [hds] at hx
          cases hx
      | cons v vs => rw [List.getLast?_cons_cons]
  stays hstay := by
    rw [Event.bubbles_congr hleads.data, hstay] at hbubbles
    cases hbubbles
  goesOn _ hrest := by
    obtain ⟨x, hx, hstop⟩ := h.goesOn hbubbles hrest
    refine ⟨x, ?_, hstop⟩
    rw [b.replies_append, ← hleads.calls]
    exact List.mem_append_right _ hx

end Travels

/-- A journey of an event that is not stopped yet goes along a part of any path. -/
theorem exists_travels (d : Document) (b : Behaviour) : ∀ (ids : List NodeId) {j : Journey},
    j.event.stopped = false →
    ∃ visited rest cs, ids = visited ++ rest ∧ Travels d b j visited rest cs
  | [], j, _ => ⟨[], [], [], rfl, .nil d b j⟩
  | id :: ids, j, hj => by
      obtain ⟨cs, hleads, horder⟩ := d.leads_visit b j id
      cases hon : (d.visit b j id).event.bubbles && !(d.visit b j id).event.stopped with
      | false => exact ⟨[id], ids, cs, rfl, .ends hj hleads horder hon ids⟩
      | true =>
          rw [Bool.and_eq_true, Bool.not_eq_true'] at hon
          obtain ⟨visited, rest, ds, rfl, h⟩ := exists_travels d b ids hon.2
          exact ⟨id :: visited, rest, cs ++ ds, rfl, .cons hleads horder hon.1 hon.2 h⟩

/-! ## The way up -/

/-- Nodes lead from one up to the top, each followed by its parent. -/
structure IsWayUp (d : Document) (k : NodeId) (ids : List NodeId) : Prop where
  head : ids.head? = some k
  step : ids.IsChain fun c p => d.parentOf c = some p
  top : ∀ t, ids.getLast? = some t → d.parentOf t = none

theorem isChain_upward (d : Document) (steps : Nat) (o : Option NodeId) :
    (d.upward steps o).IsChain fun c p => d.parentOf c = some p := by
  induction steps generalizing o with
  | zero => exact .nil
  | succ steps ih =>
      cases o with
      | none => exact .nil
      | some k =>
          rw [upward_some, List.isChain_cons]
          refine ⟨fun p hp => ?_, ih _⟩
          cases steps with
          | zero => cases hp
          | succ steps =>
              cases hpar : d.parentOf k with
              | none =>
                  rw [hpar, upward_none] at hp
                  cases hp
              | some q =>
                  rw [hpar, upward_some] at hp
                  exact congrArg some (Option.some.inj hp)

/-- A way up that has ended has led to the top. -/
theorem parentOf_getLast_upward {steps : Nat} {k t : NodeId}
    (h : (d.upward steps (some k)).length < steps)
    (ht : (d.upward steps (some k)).getLast? = some t) : d.parentOf t = none := by
  induction steps generalizing k with
  | zero => cases ht
  | succ steps ih =>
      rw [upward_some] at h ht
      rw [List.length_cons] at h
      cases hpar : d.parentOf k with
      | none =>
          rw [hpar, upward_none] at ht
          obtain rfl := Option.some.inj ht
          exact hpar
      | some p =>
          rw [hpar] at h ht
          refine ih (Nat.lt_of_succ_lt_succ h) ?_
          cases steps with
          | zero => omega
          | succ steps =>
              rw [upward_some] at ht ⊢
              rwa [List.getLast?_cons_cons] at ht

theorem WellFormed.isWayUp {k : NodeId} (hd : d.WellFormed) (hk : d.Live k) :
    d.IsWayUp k (d.chain k) where
  head := rfl
  step := d.isChain_upward (d.nodes.capacity + 1) (some k)
  top t ht := by
    have hlen := Nat.lt_succ_of_le (hd.length_upward_le hk (d.nodes.capacity + 1))
    exact parentOf_getLast_upward hlen ht

/-! ## Dispatching -/

/-- An event has gone from its target along the first part of the way up, as far as the first
node where it was stopped, or only to the target if it does not travel. It has called all
listeners for it there, each with the event at its node. It was stopped if one of them
stopped it, and its default action was prevented if that can be and one of them did so. -/
structure Dispatched (d : Document) (b : Behaviour) (target : NodeId) (data : EventData)
    (j : Journey) (visited rest : List NodeId) : Prop where
  way : d.chain target = visited ++ rest
  order : j.calls.map (fun c => (c.event.current, c.listener)) =
    visited.flatMap fun k => (d.listenersAt k data.name).map fun l => (some k, l)
  stays : data.name = "focus" ∨ data.name = "blur" → visited = [target]
  last : ∀ x ∈ b.replies [] j.calls, .stopPropagation ∈ x.2 → x.1.event.current = visited.getLast?
  goesOn : data.name ≠ "focus" ∧ data.name ≠ "blur" → rest ≠ [] → j.Answered b .stopPropagation
  seen : ∀ c ∈ j.calls, c.event.target = target ∧ c.event.data = data ∧
    c.event.path = d.chain target
  target_eq : j.event.target = target
  data_eq : j.event.data = data
  path_eq : j.event.path = d.chain target
  current_eq : j.event.current = none
  stopped : j.event.stopped = true ↔ j.Answered b .stopPropagation
  prevented : j.event.prevented = true ↔
    data.name ∉ ["input", "focus", "blur"] ∧ j.Answered b .preventDefault

theorem exists_dispatched (h : d.Live target) (data : EventData) (b : Behaviour) :
    ∃ visited rest, Dispatched d b target data (d.journey b target data) visited rest := by
  obtain ⟨n, hn⟩ := live_iff.1 h
  let j₀ : Journey := { event := { target, data, path := d.chain target } }
  obtain ⟨visited, rest, cs, hway, ht⟩ := d.exists_travels b (d.chain target) (j := j₀) rfl
  have hj : d.journey b target data = (d.travel b j₀ (visited ++ rest)).move none := by
    rw [journey, hn, ← hway]
  have hleads := ht.leads.trans (.move b _ none)
  rw [← hj, List.append_nil] at hleads
  have hcalls : (d.journey b target data).calls = cs := hleads.calls
  have hanswered : ∀ r, (d.journey b target data).Answered b r ↔
      ∃ x ∈ b.replies [] cs, r ∈ x.2 := fun r => by rw [Answered, hcalls]
  refine ⟨visited, rest, ?_⟩
  constructor
  case way => exact hway
  case order => exact hcalls ▸ ht.order
  case stays =>
    intro hname
    have hstay : j₀.event.bubbles = false := by
      rw [← Bool.not_eq_true, Event.bubbles_iff]
      tauto
    rw [ht.stays hstay, ← hway]
    rfl
  case last => exact hcalls ▸ ht.last
  case goesOn =>
    intro hname hrest
    exact (hanswered _).2 (ht.goesOn (Event.bubbles_iff.2 hname) hrest)
  case seen => exact hcalls ▸ hleads.seen
  case target_eq => exact hleads.target
  case data_eq => exact hleads.data
  case path_eq => exact hleads.path
  case current_eq =>
    rw [hj]
    rfl
  case stopped =>
    rw [hleads.stopped, hanswered]
    exact or_iff_right Bool.false_ne_true
  case prevented =>
    rw [hleads.prevented, hanswered, Event.cancelable_iff]
    exact or_iff_right Bool.false_ne_true

/-- An event that travels and is answered by nobody calls the listeners of its target and
of the nodes above it. -/
theorem listeners_dispatch (h : ∃ n, d.get? target = some n)
    (hname : data.name ≠ "focus" ∧ data.name ≠ "blur") :
    (d.dispatch (fun _ => []) target data).2.map (·.listener) =
      (d.chain target).flatMap fun id => d.listenersAt id data.name := by
  obtain ⟨visited, rest, hd⟩ := exists_dispatched (live_iff.2 h) data fun _ _ => []
  have hrest : rest = [] := by
    by_contra hne
    obtain ⟨x, hx, hstop⟩ := hd.goesOn hname hne
    obtain ⟨_, hsilent⟩ := (Behaviour.mem_replies hx).2
    rw [hsilent] at hstop
    cases hstop
  have horder := congrArg (List.map Prod.snd) hd.order
  rw [List.map_map, List.map_flatMap] at horder
  rw [hd.way, hrest, List.append_nil]
  refine horder.trans (List.flatMap_congr fun k _ => ?_)
  rw [List.map_map]
  exact List.map_id _

/-- In a well-formed document an event that is dispatched at a live node goes up from it and
calls the listeners at each node, in the order in which they were added. -/
theorem WellFormed.dispatches (hd : d.WellFormed) (h : d.Live target) (data : EventData)
    (b : Behaviour) : d.IsWayUp target (d.chain target) ∧
      (∃ visited rest, Dispatched d b target data (d.journey b target data) visited rest) ∧
      ∀ k e event l, d.element? k = some e →
        (∃ d', d.addListener k event l = .ok d' ∧ ∀ i name, d'.listenersAt i name =
          if i = k ∧ name = event ∧ l ∉ d.listenersAt k event then d.listenersAt k event ++ [l]
          else d.listenersAt i name) ∧
        ∃ d', d.removeListener k event l = .ok d' ∧ ∀ i name, d'.listenersAt i name =
          if i = k ∧ name = event then (d.listenersAt k event).erase l
          else d.listenersAt i name := by
  refine ⟨hd.isWayUp h, exists_dispatched h data b, fun k e event l he => ⟨?_, ?_⟩⟩
  · exact listenersAt_addListener he event l
  · exact listenersAt_removeListener he event l

/-- A button in a box, two listeners on the button and one on the box. -/
def panel : List TreeCall :=
  [.createElement (.ofTag "div"), .createElement (.ofTag "button"), .append 0 [1], .append 1 [2],
    .addListener 1 "click" ⟨"box"⟩, .addListener 2 "click" ⟨"first"⟩,
    .addListener 2 "click" ⟨"second"⟩]

/-- The first listener stops the event and the second one, which knows that it was called
second, prevents the default action. -/
def teamwork : Behaviour
  | [], _ => [.stopPropagation]
  | _ :: _, _ => [.preventDefault]

/-- A click on the button is heard by both of its listeners and not by that of the box. -/
theorem dispatches_panel : ∃ d, (new true).performAll panel = .ok d ∧ d.WellFormed ∧ d.Live 2 ∧
    d.IsWayUp 2 (d.chain 2) ∧
    (∃ visited rest, Dispatched d teamwork 2 .click (d.journey teamwork 2 .click) visited rest) ∧
    d.chain 2 = [2, 1, 0] ∧
    (d.journey teamwork 2 .click).calls.map (·.listener) = [⟨"first"⟩, ⟨"second"⟩] ∧
    (d.journey teamwork 2 .click).event.prevented = true := by
  obtain ⟨d, hd, hwf⟩ := exists_performAll true panel rfl
  have hrun : ((new true).performAll panel).map (fun d => (decide (d.Live 2), d.chain 2,
      (d.journey teamwork 2 .click).calls.map (·.listener),
      (d.journey teamwork 2 .click).event.prevented)) =
      .ok (true, [2, 1, 0], [⟨"first"⟩, ⟨"second"⟩], true) := rfl
  rw [hd] at hrun
  obtain ⟨hlive, hchain, hcalls, hprevented⟩ : d.Live 2 ∧ d.chain 2 = [2, 1, 0] ∧
      (d.journey teamwork 2 .click).calls.map (·.listener) = [⟨"first"⟩, ⟨"second"⟩] ∧
      (d.journey teamwork 2 .click).event.prevented = true := by
    simpa [Except.map] using hrun
  obtain ⟨hup, hdispatched, -⟩ := hwf.dispatches hlive .click teamwork
  exact ⟨d, hd, hwf, hlive, hup, hdispatched, hchain, hcalls, hprevented⟩

end Document

end LiveMarkup
