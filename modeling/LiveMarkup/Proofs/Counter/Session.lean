import LiveMarkup.Proofs.Counter.View
import LiveMarkup.Proofs.Document.Dispatched

/-!
# The counter counts

Between two frames nothing waits and the document shows the count just as mounting it
would (`App.Settled`). A click finds its button, whichever count is shown, and leaves a
change waiting (`App.click_eq`); at the end of the frame all that wait are applied and
the count is rendered (`App.Settled.frame`).

So after every frame the program writes the sum of the clicks, the document holds the
text of it and of the counts before each click, and at the end, the count being reset,
the markup of the document is that of the start (`output_eq`).
-/

namespace LiveMarkup

open Document Subtree Node

/-! ## Whole lines -/

/-- Whether a text has no line that is begun and not ended. -/
def EndsLine (s : String) : Prop :=
  s = "" ∨ ∃ t, s = t ++ "\n"

theorem EndsLine.append {s t : String} (hs : EndsLine s) (ht : EndsLine t) : EndsLine (s ++ t) := by
  obtain rfl | ⟨t, rfl⟩ := ht
  · rwa [String.append_empty]
  · exact .inr ⟨s ++ t, String.append_assoc.symm⟩

theorem EndsLine.join {ss : List String} (h : ∀ s ∈ ss, EndsLine s) :
    EndsLine (String.join ss) := by
  induction ss with
  | nil => exact .inl rfl
  | cons s ss ih =>
      rw [List.forall_mem_cons] at h
      rw [String.join_cons]
      exact h.1.append (ih h.2)

/-- An outline is made of whole lines. -/
theorem Document.endsLine_outlineWithin (d : Document) (levels depth : Nat) (id : NodeId) :
    EndsLine (d.outlineWithin levels depth id) := by
  induction levels generalizing depth id with
  | zero => exact .inl rfl
  | succ levels ih =>
      unfold outlineWithin
      split
      · exact .inl rfl
      · split
        · exact .inl rfl
        · refine .append (.inr ⟨_, rfl⟩) (.join ?_)
          simp only [List.forall_mem_map]
          exact fun k _ => ih _ k

namespace Counter

/-! ## Clicks -/

namespace Keys

variable {d : Document} {k : Keys} {c : Count} {items : List Subtree}

theorem held_button (h : (k.tree c items).Held d.get? none) (b : Button) :
    (b.tree (k.button b)).Held d.get? (some k.app) :=
  h.2.1.2.mem (by cases b <;> simp)

theorem elementById?_button (h : (k.tree c items).Held d.get? none)
    (hn : (k.tree c items).ids.Nodup) (b : Button) :
    d.elementById? b.id = some (k.button b).1 := by
  rw [h.elementById?_eq hn rfl]
  cases b <;> rfl

theorem chain_button (h : (k.tree c items).Held d.get? none)
    (hn : (k.tree c items).ids.Nodup) (b : Button) :
    d.chain (k.button b).1 = [(k.button b).1, k.app, root] := by
  -- The way up from a button takes two steps, and there are at least so many numbers.
  have hcapacity : 2 ≤ d.nodes.capacity := le_trans (by simp [tree]) (h.length_ids_le hn)
  obtain ⟨steps, hsteps⟩ := Nat.exists_eq_add_of_le' hcapacity
  rw [chain, ancestors, (held_button h b).1, hsteps, Option.bind_some, upward_some,
    parentOf_of_get? h.2.1.1, upward_some, parentOf_of_get? h.1, upward_none]

/-- A click on a button is heard by the listener of the button alone. -/
theorem listeners_button (h : (k.tree c items).Held d.get? none)
    (hn : (k.tree c items).ids.Nodup) (b : Button) :
    ((d.chain (k.button b).1).flatMap fun k => d.listenersAt k "click") = [b.listener] := by
  have hself : d.listenersAt (k.button b).1 "click" = [b.listener] := by
    rw [listenersAt, element?, (held_button h b).1]
    cases b <;> rfl
  have habove : d.listenersAt k.app "click" = [] := by
    rw [listenersAt, element?, h.2.1.1]
    rfl
  have htop : d.listenersAt root "click" = [] := by
    rw [listenersAt, element?, h.1]
    rfl
  rw [chain_button h hn]
  simp [hself, habove, htop]

end Keys

namespace App

variable {a : App} {c : Count}

theorem click_of_listeners {name : String} {target : NodeId} {l : Listener} {x : Press}
    (hfind : a.page.document.elementById? name = some target)
    (hlive : ∃ n, a.page.document.get? target = some n)
    (hlisteners : ((a.page.document.chain target).flatMap fun k =>
      a.page.document.listenersAt k "click") = [l])
    (hx : press? l = some x) : a.click name = { a with cell := a.cell.submit x } := by
  have hcalls : (a.page.document.dispatch (fun _ => []) target .click).2.map (·.listener) = [l] :=
    (listeners_dispatch hlive (by decide)).trans hlisteners
  have hpresses : ((a.page.document.dispatch (fun _ => []) target .click).2.filterMap
      fun call => press? call.listener) = [x] := by
    have hmap := congrArg (List.filterMap press?) hcalls
    rwa [List.filterMap_map, List.filterMap_cons_some hx, List.filterMap_nil] at hmap
  rw [click, hfind]
  dsimp only
  rw [hpresses]
  rfl

/-- A click on a button leaves what the button does waiting. -/
theorem click_eq (h : Displayed a.renderer a.page c) (b : Button) :
    a.click b.id = { a with cell := a.cell.submit b.press } := by
  obtain ⟨k, items, hheld, hnodup, -⟩ := h.exists_keys
  exact click_of_listeners (Keys.elementById?_button hheld hnodup b)
    ⟨_, (Keys.held_button hheld b).1⟩ (Keys.listeners_button hheld hnodup b) b.press?_listener

/-- The application with changes waiting behind those that wait. -/
def waiting (a : App) (xs : List Press) : App :=
  { a with cell := { a.cell with pending := a.cell.pending ++ xs } }

/-- Clicks on a button leave as many changes waiting. -/
theorem clicks_eq (b : Button) (n : Nat) : ∀ {a : App}, Displayed a.renderer a.page c →
    clicks b.id n a = a.waiting (List.replicate n b.press) := by
  induction n with
  | zero =>
      intro a _
      rw [clicks, List.replicate_zero, waiting, List.append_nil]
  | succ n ih =>
      intro a h
      have hstep : a.click b.id = a.waiting [b.press] := click_eq h b
      have hrest : clicks b.id n (a.waiting [b.press]) = _ := ih h
      rw [clicks, hstep, hrest, waiting, waiting, waiting, List.append_assoc, List.singleton_append,
        List.replicate_succ]

end App

/-! ## Frames -/

/-- Nothing waits and the count is shown. -/
structure App.Settled (a : App) (c : Count) : Prop where
  value : a.cell.value = c
  pending : a.cell.pending = []
  displayed : Displayed a.renderer a.page c

namespace App

variable {a : App} {c : Count}

theorem render_eq {live : Option NodeId} {r : Renderer} {p : Page}
    (h : a.renderer.render a.page (some a.cell.value.node) (some root) = .ok (live, r, p)) :
    a.render = { a with renderer := r, page := p } := by
  rw [App.render, view_eq]
  dsimp only
  rw [h]

/-- The program starts settled at zero. -/
theorem settled_start : start.Settled {} := by
  have hempty : Renderer.Mounted root ⟨root, .document, none, []⟩ ({} : App).renderer
      ({} : App).page none [] :=
    .of_childless ⟨⟨root, .document, none, []⟩, rfl⟩ rfl rfl rfl
  have hportals : ∀ d ∈ some ({} : App).cell.value.node, d.portals = [] := by
    rintro d ⟨⟩
    exact (faithful_node _).portals_eq_nil
  obtain ⟨live, p, ts, hp, hm⟩ := hempty.render hportals trivial
  rw [start, render_eq hp]
  exact ⟨rfl, rfl, ts, hm⟩

/-- At the end of a frame what waits is applied, and the count is shown. -/
theorem Settled.turn (h : a.Settled c) (xs : List Press) :
    (a.waiting xs).turn.Settled (xs.foldl Count.after c) := by
  have hpending : (a.waiting xs).cell.pending = xs := by
    rw [waiting, h.pending, List.nil_append]
  have hvalue : (a.waiting xs).cell.value = c := h.value
  have hdisplayed : Displayed (a.waiting xs).renderer (a.waiting xs).page c := h.displayed
  generalize a.waiting xs = w at *
  subst hpending hvalue
  unfold App.turn
  split
  · obtain ⟨live, r, p, hp, hd⟩ := hdisplayed.render (w.cell.pending.foldl Count.after w.cell.value)
    let next : App :=
      { w with cell := w.cell.clear.update fun c => w.cell.pending.foldl Count.after c }
    have hrender : next.render = { next with renderer := r, page := p } := render_eq hp
    rw [hrender]
    exact ⟨rfl, rfl, hd⟩
  · rename_i hpending
    have hnil : w.cell.pending = [] := (w.cell.isPending_eq_false_iff).1 (by simpa using hpending)
    rw [hnil]
    exact ⟨rfl, hnil, hdisplayed⟩

end App

/-- The changes of a count that a number of clicks makes, one for each click. -/
def changes (n : Int) : List Int :=
  List.replicate n.natAbs (if n < 0 then -1 else 1)

theorem sum_changes (n : Int) : (changes n).sum = n := by
  rw [changes, List.sum_replicate, nsmul_eq_mul]
  split <;> omega

/-- The count after changes. -/
def Count.change (c : Count) (ds : List Int) : Count :=
  (ds.map Press.add).foldl Count.after c

namespace App

variable {a : App} {c : Count}

/-- A frame changes the count once for each click. -/
theorem Settled.frame (h : a.Settled c) (n : Int) : (a.frame n).Settled (c.change (changes n)) := by
  have hframe : ∀ b : Button, b.press = .add (if n < 0 then -1 else 1) →
      (clicks b.id n.natAbs a).turn.Settled (c.change (changes n)) := by
    intro b hb
    rw [clicks_eq b n.natAbs h.displayed, hb, ← List.map_replicate]
    exact h.turn _
  unfold App.frame
  split
  · exact hframe .dec (by simp [*, Button.press])
  · exact hframe .inc (by simp [*, Button.press])

/-- The application after frames. -/
def afterAll (a : App) (ns : List Int) : App :=
  ns.foldl App.frame a

theorem Settled.afterAll (h : a.Settled c) (ns : List Int) :
    (a.afterAll ns).Settled (c.change (ns.flatMap changes)) := by
  induction ns generalizing a c with
  | nil => exact h
  | cons n ns ih =>
      have hns := ih (h.frame n)
      rwa [Count.change, Count.change, ← List.foldl_append, ← List.map_append] at hns

/-- After the reset the count is at zero again. -/
theorem Settled.closing_eq (h : a.Settled c) : a.closing = (Count.node {}).markup ++ "\n" := by
  have hclick : a.click "reset" = a.waiting [.reset] := click_eq h.displayed .reset
  rw [closing, hclick, (h.turn [.reset]).displayed.outerMarkup_root]
  rfl

/-- What is written are the reports of the frames and the closing line. -/
theorem session_eq (a : App) (k : Nat) (ns : List Int) : a.session k ns =
    String.join ((List.range ns.length).map fun i =>
      (a.afterAll (ns.take (i + 1))).report (k + i)) ++ (a.afterAll ns).closing := by
  induction ns generalizing a k with
  | nil => simp [session, App.afterAll]
  | cons n ns ih =>
      have hreports : ((List.range (n :: ns).length).map fun i =>
          (a.afterAll ((n :: ns).take (i + 1))).report (k + i)) =
          (a.frame n).report k :: (List.range ns.length).map fun i =>
            ((a.frame n).afterAll (ns.take (i + 1))).report (k + 1 + i) := by
        rw [List.length_cons, List.range_succ_eq_map, List.map_cons, List.map_map]
        refine congrArg₂ List.cons rfl (List.map_congr_left fun i _ => ?_)
        rw [Function.comp_apply, Nat.succ_eq_add_one, Nat.add_right_comm k 1 i]
        rfl
      rw [hreports, String.join_cons, String.append_assoc, session]
      exact congrArg (_ ++ ·) (ih (a.frame n) (k + 1))

end App

/-! ## What is written -/

/-- The markup of the document before the first click. -/
def initialMarkup : String :=
  "<div id=\"app\"><h1 class=\"count zero\">0</h1><button id=\"dec\">-</button>" ++
    "<button id=\"inc\">+</button><button id=\"reset\">reset</button><ul></ul></div>"

theorem markup_node : (Count.node {}).markup = initialMarkup := by
  decide +kernel

namespace Count

theorem count_change (c : Count) (ds : List Int) : (c.change ds).count = c.count + ds.sum := by
  induction ds generalizing c with
  | nil => exact (Int.add_zero _).symm
  | cons d ds ih =>
      have hrest : ((c.after (.add d)).change ds).count = c.count + d + ds.sum := ih _
      rw [List.sum_cons, ← Int.add_assoc, ← hrest]
      rfl

/-- The history gets the count before each change. -/
theorem history_change (c : Count) (ds : List Int) :
    (c.change ds).history = c.history ++ (ds.scanl (· + ·) c.count).dropLast := by
  induction ds generalizing c with
  | nil => exact (List.append_nil _).symm
  | cons d ds ih =>
      have hrest : ((c.after (.add d)).change ds).history =
          (c.history ++ [c.count]) ++ (ds.scanl (· + ·) (c.count + d)).dropLast := ih _
      rw [List.scanl_cons, List.dropLast_cons_of_ne_nil List.scanl_ne_nil, List.append_cons,
        ← hrest]
      rfl

end Count

/-- The count at the start and after each click of frames. -/
def counts (ns : List Int) : List Int :=
  (ns.flatMap changes).scanl (· + ·) 0

theorem sum_flatMap_changes (ns : List Int) : (ns.flatMap changes).sum = ns.sum := by
  induction ns with
  | nil => rfl
  | cons n ns ih => rw [List.flatMap_cons, List.sum_append, sum_changes, ih, List.sum_cons]

theorem counts_take_subset (ns : List Int) (k : Nat) : counts (ns.take k) ⊆ counts ns := by
  intro c hc
  have hsplit : ns.flatMap changes =
      (ns.take k).flatMap changes ++ (ns.drop k).flatMap changes := by
    rw [← List.flatMap_append, List.take_append_drop]
  rw [counts, hsplit, List.scanl_append]
  exact List.mem_append_left _ hc

theorem sum_mem_counts (ns : List Int) : ns.sum ∈ counts ns := by
  have hlast : (counts ns).getLast List.scanl_ne_nil = ns.sum := by
    rw [← sum_flatMap_changes, List.sum_eq_foldl]
    exact List.getLast_scanl _
  exact hlast ▸ List.getLast_mem _

/-- After frames the count is the sum of the clicks, and it is shown with all the counts
before it. -/
theorem App.start_afterAll (ns : List Int) (h : ∀ c ∈ counts ns, c.natAbs < 2 ^ 53) :
    (App.start.afterAll ns).cell.value.count = ns.sum ∧
      ShowsCount (App.start.afterAll ns).page.document ns.sum (counts ns).dropLast := by
  have hsettled := App.settled_start.afterAll ns
  have hcount : (Count.change {} (ns.flatMap changes)).count = ns.sum := by
    rw [Count.count_change, sum_flatMap_changes]
    exact Int.zero_add _
  have hhistory : (Count.change {} (ns.flatMap changes)).history = (counts ns).dropLast :=
    Count.history_change {} _
  have hshown := hsettled.displayed.showsCount
  rw [hcount, hhistory] at hshown
  rw [hsettled.value]
  exact ⟨hcount, hshown (h _ (sum_mem_counts ns)) fun n hn => h n (List.dropLast_subset _ hn)⟩

/-- The counter counts. For each frame it writes the sum of the clicks so far and an outline
of the document, in which there are then that sum below the heading and the counts before
each click in the list; and its last line is the markup of the document at the start,
whatever was clicked. -/
theorem output_eq (args : List String) (h : ∀ c ∈ counts (frames args), c.natAbs < 2 ^ 53) :
    output args = String.join ((List.range (frames args).length).map fun k =>
        "Frame " ++ toString k ++ ": count = " ++ toString ((frames args).take (k + 1)).sum ++
          "\n" ++ (App.start.afterAll ((frames args).take (k + 1))).page.document.outline root) ++
      (initialMarkup ++ "\n") ∧
    (∀ k < (frames args).length,
      EndsLine ((App.start.afterAll ((frames args).take (k + 1))).page.document.outline root) ∧
      ShowsCount (App.start.afterAll ((frames args).take (k + 1))).page.document
        ((frames args).take (k + 1)).sum (counts ((frames args).take (k + 1))).dropLast) ∧
    App.start.page.document.outerMarkup root = initialMarkup := by
  have hafter := fun k => App.start_afterAll ((frames args).take (k + 1)) fun c hc =>
    h c (counts_take_subset _ _ hc)
  refine ⟨?_, fun k _ => ⟨endsLine_outlineWithin .., (hafter k).2⟩,
    App.settled_start.displayed.outerMarkup_root.trans markup_node⟩
  have hclosing : (App.start.afterAll (frames args)).closing = initialMarkup ++ "\n" := by
    rw [(App.settled_start.afterAll _).closing_eq, markup_node]
  have hreport : ∀ k, (App.start.afterAll ((frames args).take (k + 1))).report (0 + k) = _ ++ _ :=
    fun k => by rw [App.report, (hafter k).1, Nat.zero_add]
  simp only [output, App.session_eq, hclosing, hreport]

/-- Two clicks up, and three down in the next frame. -/
theorem output_two_frames :
    (∀ c ∈ counts (frames ["2", "x", "-3"]), c.natAbs < 2 ^ 53) ∧
    ShowsCount (App.start.afterAll [2]).page.document 2 [0, 1] ∧
    ShowsCount (App.start.afterAll [2, -3]).page.document (-1) [0, 1, 2, 1, 0] ∧
    ∃ before, output ["2", "x", "-3"] = before ++ (initialMarkup ++ "\n") := by
  have hframes : frames ["2", "x", "-3"] = [2, -3] := by decide
  have htwo : counts [2] = [0, 1, 2] := by decide
  have hfive : counts [2, -3] = [0, 1, 2, 1, 0, -1] := by decide
  have hsmall : ∀ c ∈ counts (frames ["2", "x", "-3"]), c.natAbs < 2 ^ 53 := by
    rw [hframes, hfive]
    simp
  obtain ⟨houtput, hshown, -⟩ := output_eq ["2", "x", "-3"] hsmall
  rw [hframes] at hshown
  have hfirst := (hshown 0 (by decide)).2
  have hsecond := (hshown 1 (by decide)).2
  rw [show [2, -3].take (0 + 1) = [(2 : Int)] from rfl, htwo] at hfirst
  rw [show [2, -3].take (1 + 1) = [(2 : Int), -3] from rfl, hfive] at hsecond
  exact ⟨hsmall, hfirst, hsecond, _, houtput⟩

end Counter

end LiveMarkup
