import LiveMarkup.Counter
import LiveMarkup.Proofs.Number.Whole
import LiveMarkup.Proofs.Page.Rebuilt
import LiveMarkup.Proofs.Template.ReadBack

/-!
# What the counter shows

The template of the counter is a tree of the grammar, whatever stands in its places. So
every count has one and the same description (`Counter.view_eq`), with the count in the
heading, three buttons, and a list of the counts before each click. It is faithful, so its
markup is that of the live nodes, and going from one count to another gives just the nodes
that mounting makes. In the document they are found again by their tags
(`Displayed.showsCount`).
-/

namespace LiveMarkup.Counter

open Document Subtree Node Template Piece

/-! ## The description -/

/-- The buttons. -/
inductive Button where
  | dec
  | inc
  | reset

namespace Button

/-- The `id` of a button. -/
def id : Button → String
  | .dec => "dec"
  | .inc => "inc"
  | .reset => "reset"

/-- The listener of a button. -/
def listener : Button → Listener
  | .dec => decrement
  | .inc => increment
  | .reset => Counter.reset

/-- What is written on a button. -/
def label : Button → String
  | .dec => "-"
  | .inc => "+"
  | .reset => "reset"

/-- What pressing a button does. -/
def press : Button → Press
  | .dec => .add (-1)
  | .inc => .add 1
  | .reset => .reset

theorem press?_listener (b : Button) : press? b.listener = some b.press := by
  cases b <;> rfl

end Button

/-- The description of one count of the history. -/
def itemNode (n : Int) : Node :=
  .element "li" .empty [.text (Number.ofInt n).text]

/-- The description of a button. -/
def Button.node (b : Button) : Node :=
  .element "button" ⟨[("id", .str b.id), ("onClick", .listener b.listener)]⟩ [.text b.label]

/-- The description of a count. -/
def Count.node (c : Count) : Node :=
  .element "div" ⟨[("id", .str "app")]⟩
    [.element "h1" ⟨[("class", .str (classes c))]⟩ [.text (Number.ofInt c.count).text],
      Button.dec.node, Button.inc.node, Button.reset.node,
      .element "ul" .empty (c.history.map itemNode)]

theorem item_eq (n : Int) : item n = .ok (some (itemNode n)) := rfl

theorem mapM_item (ns : List Int) : ns.mapM item = .ok (ns.map fun n => some (itemNode n)) := by
  induction ns with
  | nil => rfl
  | cons n ns ih => rw [List.mapM_cons, item_eq, ih]; rfl

/-! ## The template -/

/-- A word of the template. -/
def word (s : String) (hne : s ≠ "") (h : s.toList.all isNameChar = true) : Word :=
  .ofName s hne (List.all_eq_true.1 h)

/-- An element with one space in front of each attribute and no other blanks in its tags. -/
def elementItem (tag : Word) (as : List Attr) (t : Content) : Item :=
  .element ⟨.word tag, as.map fun a => (.space, a), .none⟩ t .none .none

/-- The content of an element that holds one value. -/
def onlyValue (v : Value) : Content :=
  .more (.blanks .none) (.value v) (.last (.blanks .none))

/-- The end of a line with the blanks in front of the next one. -/
def newLine (indent : Nat) : Filler :=
  .blanks ⟨'\n' :: List.replicate indent ' ', by simp [Text.isBlank]⟩

/-- Items on lines of their own. -/
def onLines : List Item → Content
  | [] => .last (newLine 8)
  | x :: xs => .more (newLine 12) x (onLines xs)

/-- A button as it is written. -/
def Button.item (b : Button) : Item :=
  elementItem (word "button" (by decide) (by decide))
    [.literal (word "id" (by decide) (by decide)) .double b.id.toList (by cases b <;> decide),
      .value (word "onClick" (by decide) (by decide)) none (.listener b.listener)]
    (.last (.text b.label.toList (by cases b <;> decide) (by cases b <;> decide)))

/-- The template as a tree of the grammar, with what stands in its places. -/
def template (s : String) (x : Number) (items : List Value) : Content :=
  .more (.blanks .none)
    (elementItem (word "div" (by decide) (by decide))
      [.literal (word "id" (by decide) (by decide)) .double "app".toList (by decide)]
      (onLines
        [elementItem (word "h1" (by decide) (by decide))
            [.value (word "class" (by decide) (by decide)) none (.str s)] (onlyValue (.number x)),
          Button.dec.item, Button.inc.item, Button.reset.item,
          elementItem (word "ul" (by decide) (by decide)) [] (onlyValue (.list items))]))
    (.last (.blanks .none))

section

variable (s : String) (x : Number) (items : List Value)

theorem segments_template : (template s x items).segments =
    ["<div id=\"app\">\n            <h1 class=", ">",
      "</h1>\n            <button id=\"dec\" onClick=",
      ">-</button>\n            <button id=\"inc\" onClick=",
      ">+</button>\n            <button id=\"reset\" onClick=",
      ">reset</button>\n            <ul>", "</ul>\n        </div>"] := by
  rfl

theorem values_template : (template s x items).values =
    [.str s, .number x, .listener decrement, .listener increment, .listener reset,
      .list items] := by
  rfl

/-- The template reads the same way whatever stands in its places. -/
theorem node?_template :
    Template.node? noComponents (template s x items).segments (template s x items).values =
      .ok (some (.element "div" ⟨[("id", .str "app")]⟩
        [.element "h1" ⟨[("class", .str s)]⟩ [.text x.text], Button.dec.node, Button.inc.node,
          Button.reset.node, .element "ul" .empty (flatten items ++ [])])) := by
  rw [Template.node?, Content.segments, Content.values, compile_cut, Reader.readOut_tree]
  rfl

end

/-- Every count has its description. -/
theorem view_eq (c : Count) : view c = .ok (some c.node) := by
  have hitems : (c.history.map fun n => some (itemNode n)).reduceOption =
      c.history.map itemNode :=
    List.filterMap_map.trans (congrFun List.filterMap_eq_map _)
  have hread := node?_template (classes c) (.ofInt c.count) ((c.history.map itemNode).map .node)
  rw [segments_template, values_template, flatten_map_node, List.append_nil] at hread
  rw [view, mapM_item, Except.ok_bind, hitems, hread]
  rfl

/-! ## Its markup -/

theorem faithfulEntry_id (s : String) : Props.FaithfulEntry ("id", .str s) :=
  .of_ne (fun f => by cases f <;> decide) (by decide) (fun _ => rfl) rfl

theorem faithfulEntry_class (s : String) : Props.FaithfulEntry ("class", .str s) :=
  .of_ne (fun f => by cases f <;> decide) (by decide) (fun _ => rfl) rfl

theorem faithfulEntry_onClick (l : Listener) : Props.FaithfulEntry ("onClick", .listener l) :=
  .of_ne (fun f => by cases f <;> decide) (by decide) (fun h => absurd h (by decide)) rfl

theorem faithful_itemNode (n : Int) : (itemNode n).Faithful :=
  ⟨fun h => List.cons_ne_nil _ _ h.2, .empty, trivial, trivial⟩

theorem allFaithful_itemNode : ∀ ns : List Int, AllFaithful (ns.map itemNode)
  | [] => trivial
  | n :: ns => ⟨faithful_itemNode n, allFaithful_itemNode ns⟩

theorem Button.faithful_node (b : Button) : b.node.Faithful := by
  refine ⟨fun h => List.cons_ne_nil _ _ h.2, ⟨?_, ?_, ?_, ?_⟩, trivial, trivial⟩
  · unfold OrderedMap.Distinct OrderedMap.keys
    simp
  · simp [OrderedMap.keys]
  · simp only [List.forall_mem_cons]
    exact ⟨faithfulEntry_id b.id, faithfulEntry_onClick b.listener, List.forall_mem_nil _⟩
  · simp

theorem faithful_node (c : Count) : c.node.Faithful := by
  refine ⟨fun h => List.cons_ne_nil _ _ h.2, .single (faithfulEntry_id _), ?_,
    Button.faithful_node _, Button.faithful_node _, Button.faithful_node _, ?_, trivial⟩
  · exact ⟨fun h => List.cons_ne_nil _ _ h.2, .single (faithfulEntry_class _), trivial, trivial⟩
  · exact ⟨fun h => absurd h.1 (by decide), .empty, allFaithful_itemNode _⟩

/-! ## From one count to another -/

theorem rebuilds_of_same {tag : String} {props : Props} (h : Props.same props props = true)
    (hn : props.Distinct) {cs ds : List Node} (hcs : AllRebuild cs ds) :
    (Node.element tag props cs).Rebuilds (.element tag props ds) :=
  fun _ => ⟨Element.updateProps_of_same h hn _, hcs⟩

theorem rebuilds_itemNode (n m : Int) : (itemNode n).Rebuilds (itemNode m) :=
  rebuilds_of_same rfl OrderedMap.distinct_empty ⟨trivial, trivial⟩

theorem allRebuild_itemNode : ∀ ns ms : List Int, AllRebuild (ns.map itemNode) (ms.map itemNode)
  | [], _ => trivial
  | _ :: _, [] => trivial
  | n :: ns, m :: ms => ⟨rebuilds_itemNode n m, allRebuild_itemNode ns ms⟩

theorem Button.rebuilds_node (b : Button) : b.node.Rebuilds b.node := by
  refine rebuilds_of_same ?_ ?_ ⟨trivial, trivial⟩
  · simp [Props.same, Props.within, OrderedMap.get?, OrderedMap.find?, Value.same]
  · simp [OrderedMap.Distinct, OrderedMap.keys]

theorem text_filter_isTruthy (s : String) :
    ((Value.present? ((some (.str s)).filter Value.isTruthy)).bind Value.text?).getD "" = s := by
  by_cases hs : s = ""
  · rw [hs]
    rfl
  · have htrue : (Value.str s).isTruthy = true := by simpa [Value.isTruthy] using hs
    rw [Option.filter_some_pos htrue]
    rfl

/-- A class that is a text takes the place of another one. -/
theorem updateProps_class (tag s t : String) :
    (Element.ofProps tag ⟨[("class", .str t)]⟩).updateProps ⟨[("class", .str s)]⟩
      ⟨[("class", .str t)]⟩ = .ofProps tag ⟨[("class", .str s)]⟩ := by
  have hupdate : ∀ e : Element, e.updateProps ⟨[("class", .str s)]⟩ ⟨[("class", .str t)]⟩ =
      e.updateProp ⟨[("class", .str s)]⟩ ⟨[("class", .str t)]⟩ "class" := fun _ => rfl
  have hslot : Slot.ofName "class" = .className := by decide
  rw [hupdate]
  unfold Element.updateProp
  -- A class that stays the same is passed over; any other is set as for a new element.
  split
  · rename_i hsame
    have hst : s = t := eq_of_beq (hsame.resolve_left (by decide))
    rw [hst]
  · rw [Element.setProperty, hslot]
    change Element.setAttribute _ _
      (((Value.present? ((some (.str s)).filter _)).bind _).getD "") = _
    rw [text_filter_isTruthy]
    rfl

/-- Every element of a description becomes what mounting makes of another one. -/
theorem rebuilds_node (c c' : Count) : c.node.Rebuilds c'.node := by
  refine rebuilds_of_same rfl ?_ ⟨?_, Button.rebuilds_node _, Button.rebuilds_node _,
    Button.rebuilds_node _, ?_, trivial⟩
  · exact List.nodup_singleton _
  · exact fun _ => ⟨updateProps_class _ _ _, trivial, trivial⟩
  · exact rebuilds_of_same rfl OrderedMap.distinct_empty (allRebuild_itemNode _ _)

/-! ## Its live nodes -/

/-- The numbers of the live nodes that every count has; those of a button are its own and
that of its text. -/
structure Keys where
  app : NodeId
  heading : NodeId
  count : NodeId
  button : Button → NodeId × NodeId
  list : NodeId

/-- The live nodes of a button. -/
def Button.tree (b : Button) (k : NodeId × NodeId) : Subtree :=
  .node k.1
    (.element (.ofProps "button" ⟨[("id", .str b.id), ("onClick", .listener b.listener)]⟩))
    [.node k.2 (.text b.label) []]

/-- The live nodes of a count below the document, those of its history given. -/
def Keys.tree (k : Keys) (c : Count) (items : List Subtree) : Subtree :=
  .node root .document [.node k.app (.element (.ofProps "div" ⟨[("id", .str "app")]⟩))
    [.node k.heading (.element (.ofProps "h1" ⟨[("class", .str (classes c))]⟩))
        [.node k.count (.text (Number.ofInt c.count).text) []],
      Button.dec.tree (k.button .dec), Button.inc.tree (k.button .inc),
      Button.reset.tree (k.button .reset), .node k.list (.element (.ofProps "ul" .empty)) items]]

/-- What is made for an element with a text in it. -/
theorem exists_labelled {tag : String} {props : Props} {s : String} {t : Subtree}
    (h : IsBuiltFor (.element tag props [.text s]) t) :
    ∃ k k', t = .node k (.element (.ofProps tag props)) [.node k' (.text s) []] := by
  obtain ⟨k, ts, rfl, hts⟩ := isBuiltFor_element.1 h
  obtain ⟨t, us, rfl, ht, hus⟩ := allShow_cons.1 hts
  obtain ⟨k', rfl⟩ := isBuiltFor_text.1 ht
  obtain rfl := allShow_nil_left.1 hus
  exact ⟨k, k', rfl⟩

theorem Button.exists_tree {b : Button} {t : Subtree} (h : IsBuiltFor b.node t) :
    ∃ k, t = b.tree k := by
  obtain ⟨k, k', rfl⟩ := exists_labelled h
  exact ⟨(k, k'), rfl⟩

theorem exists_keys {c : Count} {t : Subtree} (h : IsBuiltFor c.node t) :
    ∃ (k : Keys) (items : List Subtree), .node root .document [t] = k.tree c items ∧
      AreBuiltFor (c.history.map itemNode) items := by
  obtain ⟨app, ts, rfl, hts⟩ := isBuiltFor_element.1 h
  obtain ⟨t₁, ts, rfl, h₁, hts⟩ := allShow_cons.1 hts
  obtain ⟨t₂, ts, rfl, h₂, hts⟩ := allShow_cons.1 hts
  obtain ⟨t₃, ts, rfl, h₃, hts⟩ := allShow_cons.1 hts
  obtain ⟨t₄, ts, rfl, h₄, hts⟩ := allShow_cons.1 hts
  obtain ⟨t₅, ts, rfl, h₅, hts⟩ := allShow_cons.1 hts
  obtain rfl := allShow_nil_left.1 hts
  obtain ⟨heading, count, rfl⟩ := exists_labelled h₁
  obtain ⟨dec, rfl⟩ := Button.exists_tree h₂
  obtain ⟨inc, rfl⟩ := Button.exists_tree h₃
  obtain ⟨reset, rfl⟩ := Button.exists_tree h₄
  obtain ⟨list, items, rfl, hitems⟩ := isBuiltFor_element.1 h₅
  exact ⟨⟨app, heading, count, fun b => b.rec dec inc reset, list⟩, items, rfl, hitems⟩

/-! ## A document that shows a count -/

/-- Nothing but a count is shown in a document, and just as mounting it shows it. -/
def Displayed (r : Renderer) (p : Page) (c : Count) : Prop :=
  ∃ ts, Renderer.Mounted root ⟨root, .document, none, []⟩ r p (some c.node) ts

namespace Displayed

variable {r : Renderer} {p : Page} {c : Count}

theorem exists_keys (h : Displayed r p c) : ∃ (k : Keys) (items : List Subtree),
    (k.tree c items).Held p.document.get? none ∧ (k.tree c items).ids.Nodup ∧
      AreBuiltFor (c.history.map itemNode) items := by
  obtain ⟨ts, hm⟩ := h
  obtain ⟨t, us, rfl, ht, hus⟩ := allShow_cons.1 hm.built
  obtain rfl := allShow_nil_left.1 hus
  obtain ⟨k, items, htree, hitems⟩ := Counter.exists_keys ht
  obtain ⟨hheld, hnodup⟩ := hm.held_root
  rw [htree] at hheld hnodup
  exact ⟨k, items, hheld, hnodup, hitems⟩

/-- Another count may be shown after it. -/
theorem render (h : Displayed r p c) (c' : Count) : ∃ live r' p',
    r.render p (some c'.node) (some root) = .ok (live, r', p') ∧ Displayed r' p' c' := by
  obtain ⟨ts, hm⟩ := h
  have hportals : ∀ d ∈ some c'.node, d.portals = [] := by
    rintro d ⟨⟩
    exact (faithful_node c').portals_eq_nil
  obtain ⟨live, p', ts', hp', hm'⟩ := hm.render hportals ⟨rebuilds_node c' c, trivial⟩
  exact ⟨live, _, p', hp', ts', hm'⟩

theorem outerMarkup_root (h : Displayed r p c) : p.document.outerMarkup root = c.node.markup := by
  obtain ⟨ts, hm⟩ := h
  refine (hm.outerMarkup_root ⟨faithful_node c, trivial⟩).trans ?_
  exact String.append_empty

end Displayed

/-! ## What is found in the document -/

/-- Whether there is one text below a node. -/
def HoldsText (d : Document) (k : NodeId) (s : String) : Prop :=
  ∃ t, d.children k = .ok [t] ∧ (d.get? t).map (·.data) = some (.text s)

/-- Whether a document has one heading with a count and one list with the counts of a
history. -/
structure ShowsCount (d : Document) (count : Int) (history : List Int) : Prop where
  heading : ∃ k, d.elementsByTag root "h1" = [k] ∧ HoldsText d k (toString count)
  list : ∃ k items, d.elementsByTag root "ul" = [k] ∧ d.children k = .ok items ∧
    List.Forall₂ (fun n i => (d.element? i).map (·.name.localName) = some "li" ∧
      HoldsText d i (toString n)) history items

theorem holdsText_of_held {d : Document} {k t : NodeId} {data : NodeData} {s : String}
    {parent : Option NodeId} (h : (Subtree.node k data [.node t (.text s) []]).Held d.get? parent) :
    HoldsText d k s :=
  ⟨t, children_of_get? h.1, congrArg (Option.map (·.data)) h.2.1.1⟩

/-- The nodes of a history are items and texts. -/
theorem filter_allNodes_items {name : String} (hname : "li" ≠ name) {ns : List Int}
    {items : List Subtree} (h : AreBuiltFor (ns.map itemNode) items) :
    (allNodes items).filter (·.2.hasTag name) = [] := by
  induction ns generalizing items with
  | nil =>
      rw [allShow_nil_left.1 h]
      rfl
  | cons n ns ih =>
      obtain ⟨t, us, rfl, ht, hus⟩ := allShow_cons.1 h
      obtain ⟨k, k', rfl⟩ := exists_labelled ht
      have hli : (NodeData.element (.ofProps "li" .empty)).hasTag name = false :=
        decide_eq_false hname
      have htext : (NodeData.text (Number.ofInt n).text).hasTag name = false := rfl
      rw [allNodes, List.filter_append, ih hus, List.append_nil]
      simp [Subtree.nodes, allNodes, hli, htext]

/-- Every count of a history has its item. -/
theorem forall₂_items {d : Document} {list : NodeId} {ns : List Int} {items : List Subtree}
    (h : AreBuiltFor (ns.map itemNode) items) (hheld : AllHeld d.get? list items)
    (hns : ∀ n ∈ ns, n.natAbs < 2 ^ 53) :
    List.Forall₂ (fun n i => (d.element? i).map (·.name.localName) = some "li" ∧
      HoldsText d i (toString n)) ns (items.map Subtree.id) := by
  induction ns generalizing items with
  | nil =>
      rw [allShow_nil_left.1 h]
      exact .nil
  | cons n ns ih =>
      obtain ⟨t, us, rfl, ht, hus⟩ := allShow_cons.1 h
      obtain ⟨k, k', rfl⟩ := exists_labelled ht
      obtain ⟨hn, hns⟩ := List.forall_mem_cons.1 hns
      rw [Number.text_ofInt hn] at hheld
      have hname : (d.element? k).map (·.name.localName) = some "li" := by
        rw [element?, hheld.1.1]
        rfl
      exact .cons ⟨hname, holdsText_of_held hheld.1⟩ (ih hus hheld.2 hns)

/-- What is shown is found: the count below the heading, the history in the list. -/
theorem Displayed.showsCount {r : Renderer} {p : Page} {c : Count} (h : Displayed r p c)
    (hc : c.count.natAbs < 2 ^ 53) (hhistory : ∀ n ∈ c.history, n.natAbs < 2 ^ 53) :
    ShowsCount p.document c.count c.history := by
  obtain ⟨k, items, hheld, hnodup, hitems⟩ := h.exists_keys
  have htag : ∀ name, p.document.elementsByTag root name = _ := hheld.elementsByTag_eq hnodup
  obtain ⟨-, ⟨-, hheading, -, -, -, hlist, -⟩, -⟩ := hheld
  constructor
  case heading =>
    refine ⟨k.heading, ?_, Number.text_ofInt hc ▸ holdsText_of_held hheading⟩
    have hfound : (k.tree c items).nodes.filter (·.2.hasTag "h1") =
        (k.heading, .element (.ofProps "h1" ⟨[("class", .str (classes c))]⟩)) ::
          (allNodes items ++ [] ++ []).filter (·.2.hasTag "h1") := rfl
    rw [htag, hfound, List.append_nil, List.append_nil, filter_allNodes_items (by decide) hitems]
    rfl
  case list =>
    refine ⟨k.list, items.map Subtree.id, ?_, children_of_get? hlist.1,
      forall₂_items hitems hlist.2 hhistory⟩
    have hfound : (k.tree c items).nodes.filter (·.2.hasTag "ul") =
        (k.list, .element (.ofProps "ul" .empty)) ::
          (allNodes items ++ [] ++ []).filter (·.2.hasTag "ul") := rfl
    rw [htag, hfound, List.append_nil, List.append_nil, filter_allNodes_items (by decide) hitems]
    rfl

end LiveMarkup.Counter
