import LiveMarkup.Proofs.Document.Calls
import LiveMarkup.Proofs.Document.Listeners
import LiveMarkup.Proofs.Document.Replay

/-!
# The log as an account

What a log tells of a document is what there is: at every point of a run of admitted calls
each node stands where replaying the log has put it, in the order in which its parent has
it there, with the attributes, fields and numbers of listeners that were told
(`Document.performAll_account`). What replaces a node must not be the node itself, and the
attributes have to be named as the log is read, as they are in the null namespace, where a
local name is read as the one name that it gives. The log has only the local names, so where
two names have one in common no reading of it can tell which attribute was set
(`Document.log_eq_of_localName_eq`).

The log is not longer than that. It says that an attribute or a listener is another, or
that there is one more or less, for the calls after which that is so and for no other
(`Document.Followed.alters`), however they are named.
-/

namespace LiveMarkup

/-- Whether a mutation says that attributes or listeners are others. -/
def Mutation.alters : Mutation → Bool
  | .setAttribute .. | .clearAttribute .. | .addListener .. | .removeListener .. => true
  | _ => false

/-- What a call notes down if attributes or listeners are others after it. -/
def TreeCall.alteration? : TreeCall → Option Mutation
  | .setAttribute id name value => some (.setAttribute id name.localName value)
  | .clearAttribute id name => some (.clearAttribute id name.localName)
  | .addListener id event _ => some (.addListener id event)
  | .removeListener id event _ => some (.removeListener id event)
  | _ => none

/-- The attribute that a call sets or takes away has the name that its local name stands
for. Read with `Name.ofAttribute`, that is a name in the null namespace. -/
def TreeCall.NamedBy (naming : String → Name) : TreeCall → Prop
  | .setAttribute _ name _ | .clearAttribute _ name => naming name.localName = name
  | _ => True

/-- What replaces a node is not the node itself. -/
def TreeCall.Apart : TreeCall → Prop
  | .replace anchor ids => anchor ∉ ids
  | _ => True

/-- The attributes and the listeners of an element. -/
def Element.outfit (e : Element) : Attributes × List (String × Listener) :=
  (e.attributes, e.listeners)

namespace Element

variable {e e' : Element} {event : String} {l : Listener}

theorem facts_new (name : Name) : (NodeData.element { name }).facts = {} := by
  have hfield : Element.field { name } = fun _ => .null := funext fun f => by cases f <;> rfl
  rw [NodeData.facts, hfield]
  rfl

/-- A listener that is added is one more for its event. -/
theorem facts_addListener (h : e.addListener? event l = some e') :
    (NodeData.element e').facts = { (NodeData.element e).facts with
      listeners := fun name => (e.listenersFor name).length + if name = event then 1 else 0 } := by
  have hcount : ∀ name, (e'.listenersFor name).length =
      (e.listenersFor name).length + if name = event then 1 else 0 := by
    intro name
    have hadd := listenersFor_add e event l name
    have hnew : l ∉ e.listenersFor event := by
      rw [mem_listenersFor]
      intro hm
      rw [addListener?, if_pos hm] at h
      cases h
    rw [h, Option.getD_some] at hadd
    rw [hadd]
    by_cases hname : name = event
    · simp [hname, hnew]
    · simp [hname]
  rw [addListener?] at h
  split at h
  · cases h
  · cases h
    exact congrArg (Facts.mk _ _) (funext hcount)

/-- A listener that is taken away is one less for its event. -/
theorem facts_removeListener (h : e.removeListener? event l = some e') :
    (NodeData.element e').facts = { (NodeData.element e).facts with
      listeners := fun name => (e.listenersFor name).length - if name = event then 1 else 0 } := by
  have hcount : ∀ name, (e'.listenersFor name).length =
      (e.listenersFor name).length - if name = event then 1 else 0 := by
    intro name
    have hremove := listenersFor_remove e event l name
    have hold : l ∈ e.listenersFor event := by
      rw [mem_listenersFor]
      by_contra hm
      rw [removeListener?, if_neg hm] at h
      cases h
    rw [h, Option.getD_some] at hremove
    rw [hremove]
    by_cases hname : name = event
    · rw [if_pos hname, if_pos hname, hname, List.length_erase_of_mem hold]
    · rw [if_neg hname, if_neg hname, Nat.sub_zero]
  rw [removeListener?] at h
  split at h
  · cases h
    exact congrArg (Facts.mk _ _) (funext hcount)
  · cases h

end Element

namespace Document

open Trees (Accounts replay)

variable {d d' : Document} {c : TreeCall} {ms : List Mutation} {id : NodeId}
  {naming : String → Name}

/-- The attributes and the listeners of a live element. -/
def outfit (d : Document) (k : NodeId) : Option (Attributes × List (String × Listener)) :=
  (d.element? k).map Element.outfit

/-- What a call notes down tells all that it has done if its attribute is named as it is
read, and that attributes or listeners are others if they are. -/
structure Followed (d : Document) (c : TreeCall) (d' : Document) (ms : List Mutation) : Prop where
  logs : Logs d d' ms
  accounts : ∀ naming, c.NamedBy naming → ∀ ts : Trees, ts.Accounts d →
    (ms.foldl (replay naming) ts).Accounts d'
  alters : d'.outfit = d.outfit ∧ ms.filter Mutation.alters = [] ∨
    d'.outfit ≠ d.outfit ∧ ms.filter Mutation.alters = c.alteration?.toList

/-! ## Calls on the tree -/

theorem Followed.of_structural (hlogs : Logs d d' ms) (hc : c.alteration? = none)
    (hms : ms.filter Mutation.alters = [])
    (haccounts : ∀ naming, ∀ ts : Trees, ts.Accounts d →
      (ms.foldl (replay naming) ts).Accounts d') : Followed d c d' ms where
  logs := hlogs
  accounts naming _ := haccounts naming
  alters := by
    rw [hc, hms]
    exact (em _).imp (⟨·, rfl⟩) (⟨·, rfl⟩)

theorem accounts_record {ts : Trees} (h : ts.Accounts d) (m : Mutation) :
    ts.Accounts (d.record m) :=
  h.congr (entryOf_congr (get?_record_eq d m))

/-- Nodes that are removed one after the other, all of them children of one node. -/
theorem WellFormed.accounts_removeAll {p : NodeId} : ∀ (ids : List NodeId) {d : Document}
    {ts : Trees}, d.WellFormed → ts.Accounts d → ids.Nodup → (∀ k ∈ ids, d.parentOf k = some p) →
    ∃ d', d.removeAll ids = .ok d' ∧
      ((ids.map Mutation.removeNode).foldl (replay naming) ts).Accounts d'
  | [], d, _, _, h, _, _ => ⟨d, rfl, h⟩
  | i :: ids, d, ts, hd, h, hn, hids => by
      have hi := hids i (List.mem_cons_self ..)
      have hroot := hd.ne_root hi
      obtain ⟨hiids, hn⟩ := List.nodup_cons.1 hn
      obtain ⟨d₁, hd₁, hcut⟩ := hd.cut_remove (live_of_parentOf hi) hroot
      have h₁ : (ts.replay naming (.removeNode i)).Accounts d₁ := by
        rw [replay, Trees.drop, if_neg hroot]
        exact h.cut hcut
      obtain ⟨d₂, hd₂, h₂⟩ := accounts_removeAll ids
        (hd.cut hcut (List.mem_singleton.not.2 (Ne.symm hroot))) h₁ hn fun k hk =>
          hd.parentOf_cut hcut hi (hids k (List.mem_cons_of_mem _ hk)) fun he => hiids (he ▸ hk)
      refine ⟨d₂, ?_, h₂⟩
      rw [Document.removeAll, hd₁, Except.ok_bind, hd₂]

/-- A node that is made is noted down under its number. -/
theorem followed_create (d : Document) {data : NodeData} {m : Mutation} (hdata : data.facts = {})
    (hm : ∀ naming, ∀ ts : Trees, ts.replay naming m = ts.append (.single (d.create data).1 {}))
    (hc : c.alteration? = none) (halters : m.alters = false) :
    Followed d c ((d.create data).2.record m) [m] := by
  refine .of_structural (logs_create d data m) hc (by simp [halters]) fun naming ts h => ?_
  rw [List.foldl_cons, List.foldl_nil, hm]
  exact accounts_record (h.create hdata) m

theorem WellFormed.followed_append {p : NodeId} {ids : List NodeId} (hd : d.WellFormed)
    (hp : d.Live p) (hids : ∀ k ∈ ids, d.Live k ∧ k ≠ root ∧ ¬ d.Above k p)
    (h : d.append p ids = .ok d') :
    Followed d (.append p ids) d' [.appendChildren p ids] := by
  refine .of_structural (logging_append d p ids d' h) rfl rfl fun _ ts hts => ?_
  obtain ⟨d₁, hd₁, h₁⟩ := Accounts.appendAll ids hts hd hp hids
  rw [Document.append, hd₁] at h
  cases h
  exact accounts_record h₁ _

theorem WellFormed.followed_replace {a : NodeId} {ids : List NodeId} (hd : d.WellFormed)
    (ha : d.Live a) (haids : a ∉ ids) (hn : ids.Nodup)
    (hids : ∀ k ∈ ids, d.Live k ∧ k ≠ root ∧ ¬ d.Above k a) (h : d.replace a ids = .ok d') :
    Followed d (.replace a ids) d' [.replaceNode a ids] := by
  refine .of_structural (logging_replace d a ids d' h) rfl rfl fun _ ts hts => ?_
  obtain ⟨d₁, hd₁, hentry⟩ := hd.tied.entryOf_insertBefore ha (fun k hk => (hids k hk).1) haids
  obtain ⟨d₁', hd₁', hwf, hlabel⟩ := hd.insertBefore ha hn
    (fun k hk => ⟨(hids k hk).1, (hids k hk).2.1⟩)
    fun p _ hp k hk hkp => (hids k hk).2.2 (hkp.trans (above_of_parentOf hp))
  obtain rfl : d₁ = d₁' := Except.ok.inj (hd₁.symm.trans hd₁')
  -- the trees follow one node at a time
  obtain ⟨d₂, hentry₂, h₂⟩ := Accounts.putAll ids hts hd ha haids hn hids
  have h₁ : (ids.foldl (Trees.putBefore a) ts).Accounts d₁ :=
    h₂.congr (funext fun k => (hentry k).trans (hentry₂ k).symm)
  obtain ⟨d₃, hd₃, h₃⟩ := h₁.drop hwf.tied ((live_congr (hlabel a)).2 ha)
  rw [Document.replace, hd₁, Except.ok_bind, hd₃] at h
  cases h
  exact accounts_record h₃ _

theorem WellFormed.followed_remove (hd : d.WellFormed) (hid : d.Live id)
    (h : d.remove id = .ok d') : Followed d (.remove id) d' [.removeNode id] := by
  refine .of_structural (logging_remove d id d' h) rfl rfl fun _ ts hts => ?_
  obtain ⟨d₁, hd₁, h₁⟩ := hts.drop hd.tied hid
  rw [Document.remove, hd₁] at h
  cases h
  exact accounts_record h₁ _

theorem WellFormed.followed_removeChildren (hd : d.WellFormed) (hid : d.Live id)
    (h : d.removeChildren id = .ok d') :
    Followed d (.removeChildren id) d' ((d.childrenOf id).map .removeNode) := by
  obtain ⟨n, hn⟩ := live_iff.1 hid
  rw [Document.removeChildren, children_of_get? hn, Except.ok_bind, ← childrenOf_of_get? hn] at h
  refine .of_structural (logging_removeAll _ d d' h) rfl ?_ fun _ ts hts => ?_
  · rw [List.filter_map, List.map_eq_nil_iff, List.filter_eq_nil_iff]
    exact fun k _ => Bool.false_ne_true
  · obtain ⟨d₁, hd₁, h₁⟩ := hd.accounts_removeAll _ hts (hd.nodup id) fun k => (hd.mem_iff id k).1
    exact Except.ok.inj (hd₁.symm.trans h) ▸ h₁

/-! ## Calls on an element -/

/-- An element has become another as a mutation tells, which is the one for the call if
attributes or listeners are others. -/
structure Told (c : TreeCall) (id : NodeId) (e e' : Element) (m : Mutation) : Prop where
  replay : ∀ naming, c.NamedBy naming → ∃ g, (∀ ts : Trees, ts.replay naming m = ts.retell id g) ∧
    (NodeData.element e').facts = g (NodeData.element e).facts
  alters : e'.outfit = e.outfit ∧ m.alters = false ∨
    e'.outfit ≠ e.outfit ∧ m.alters = true ∧ c.alteration? = some m

theorem outfit_modify {e e' : Element} (he : d.element? id = some e) (m : Mutation) :
    ((d.modify id fun n => { n with data := .element e' }).record m).outfit = d.outfit ↔
      e'.outfit = e.outfit := by
  have houtfit : ∀ k, ((d.modify id fun n => { n with data := .element e' }).record m).outfit k =
      if k = id then some e'.outfit else d.outfit k := by
    intro k
    rw [outfit, element?, get?_record, get?_modify_eq]
    by_cases hk : k = id
    · obtain ⟨n, hn, -⟩ := Option.bind_eq_some_iff.1 he
      rw [if_pos hk, hk, hn, Option.map_some, if_pos rfl]
      rfl
    · simp only [if_neg hk, Option.map_id']
      rfl
  have hid : d.outfit id = some e.outfit := by rw [outfit, he, Option.map_some]
  constructor
  · intro h
    have hk := houtfit id
    rw [h, hid, if_pos rfl] at hk
    exact (Option.some.inj hk).symm
  · intro h
    funext k
    rw [houtfit, h]
    split
    · rename_i hk
      rw [hk, hid]
    · rfl

/-- A rule that tells what it does is followed. -/
theorem followed_editElement {rule : Element → Option (Element × Mutation)}
    (htold : ∀ e e' m, rule e = some (e', m) → Told c id e e' m)
    (h : d.editElement id rule = .ok d') : ∃ ms, Followed d c d' ms := by
  rcases editElement_cases h with ⟨-, rfl⟩ | ⟨e, e', m, he, hrule, rfl⟩
  · exact ⟨[], .refl d', fun _ _ _ hts => hts, Or.inl ⟨rfl, rfl⟩⟩
  · obtain ⟨hreplay, halters⟩ := htold e e' m hrule
    refine ⟨[m], logs_editElement d id e' m, fun naming hc ts hts => ?_, ?_⟩
    · obtain ⟨g, hg, hfacts⟩ := hreplay naming hc
      rw [List.foldl_cons, List.foldl_nil, hg]
      exact accounts_record (hts.retell he hfacts) m
    · rw [Ne, outfit_modify he]
      rcases halters with ⟨hsame, hm⟩ | ⟨hother, hm, hc⟩
      · exact Or.inl ⟨hsame, List.filter_cons_of_neg (by simp [hm])⟩
      · refine Or.inr ⟨hother, ?_⟩
        rw [List.filter_cons_of_pos hm, hc]
        rfl

/-- A style is neither a fact nor an attribute. -/
theorem told_style (c : TreeCall) (id : NodeId) (e : Element) (style : Style) :
    Told c id e { e with style := style } (.setStyle id) where
  replay _ _ := ⟨fun facts => facts, fun ts => (ts.retell_self id).symm, rfl⟩
  alters := Or.inl ⟨rfl, rfl⟩

theorem told_setAttribute {name : Name} {value : String} {e e' : Element} {m : Mutation}
    (h : (if name.localName = "style" then
        some ({ e with style := Style.parse value }, Mutation.setStyle id)
      else (e.attributes.set? name value).map fun a =>
        ({ e with attributes := a }, .setAttribute id name.localName value)) = some (e', m)) :
    Told (.setAttribute id name value) id e e' m := by
  split at h
  · cases h
    exact told_style _ id e _
  · obtain ⟨a, ha, hem⟩ := Option.map_eq_some_iff.1 h
    cases hem
    rw [Attributes.set?] at ha
    split at ha
    · cases ha
    · rename_i hother
      cases ha
      refine ⟨fun naming hname => ⟨_, fun _ => rfl, ?_⟩, Or.inr ⟨fun he => hother ?_, rfl, rfl⟩⟩
      · rw [hname]
        rfl
      · have hattributes : e.attributes.insert name value = e.attributes :=
          (Prod.ext_iff.1 he).1
        rw [← hattributes, OrderedMap.get?_insert_self]

theorem told_clearAttribute {name : Name} {e e' : Element} {m : Mutation}
    (h : (if name.localName = "style" then some ({ e with style := .empty }, Mutation.setStyle id)
      else (e.attributes.clear? name).map fun a =>
        ({ e with attributes := a }, .clearAttribute id name.localName)) = some (e', m)) :
    Told (.clearAttribute id name) id e e' m := by
  split at h
  · cases h
    exact told_style _ id e _
  · obtain ⟨a, ha, hem⟩ := Option.map_eq_some_iff.1 h
    cases hem
    rw [Attributes.clear?] at ha
    split at ha
    · rename_i hthere
      cases ha
      refine ⟨fun naming hname => ⟨_, fun _ => rfl, ?_⟩, Or.inr ⟨fun he => ?_, rfl, rfl⟩⟩
      · rw [hname]
        rfl
      · exact OrderedMap.erase_ne_self hthere (Prod.ext_iff.1 he).1
    · cases ha

theorem told_addListener {event : String} {l : Listener} {e e' : Element} {m : Mutation}
    (h : (e.addListener? event l).map (·, Mutation.addListener id event) = some (e', m)) :
    Told (.addListener id event l) id e e' m := by
  obtain ⟨a, ha, hem⟩ := Option.map_eq_some_iff.1 h
  cases hem
  refine ⟨fun _ _ => ⟨_, fun _ => rfl, Element.facts_addListener ha⟩,
    Or.inr ⟨fun he => ?_, rfl, rfl⟩⟩
  rw [Element.addListener?] at ha
  split at ha
  · cases ha
  · cases ha
    have hlisteners : e.listeners ++ [(event, l)] = e.listeners := (Prod.ext_iff.1 he).2
    simp at hlisteners

theorem told_removeListener {event : String} {l : Listener} {e e' : Element} {m : Mutation}
    (h : (e.removeListener? event l).map (·, Mutation.removeListener id event) = some (e', m)) :
    Told (.removeListener id event l) id e e' m := by
  obtain ⟨a, ha, hem⟩ := Option.map_eq_some_iff.1 h
  cases hem
  refine ⟨fun _ _ => ⟨_, fun _ => rfl, Element.facts_removeListener ha⟩,
    Or.inr ⟨fun he => ?_, rfl, rfl⟩⟩
  rw [Element.removeListener?] at ha
  split at ha
  · rename_i hmem
    cases ha
    have hlisteners : e.listeners.erase (event, l) = e.listeners := (Prod.ext_iff.1 he).2
    have hlength := List.length_erase_of_mem hmem
    have hpos := List.length_pos_of_mem hmem
    rw [hlisteners] at hlength
    omega
  · cases ha

theorem told_setField (e : Element) (f : Field) (v : FieldValue) :
    Told (.setField id f v) id e (e.setField f v) (.setField id f v) := by
  have hattributes : (e.setField f v).attributes = e.attributes := by cases f <;> rfl
  have hlisteners : (e.setField f v).listeners = e.listeners := by cases f <;> rfl
  refine ⟨fun _ _ => ⟨_, fun _ => rfl, ?_⟩, Or.inl ⟨?_, rfl⟩⟩
  · have hfield : (e.setField f v).field = fun g => if f = g then v else e.field g :=
      funext fun g => e.field_setField f g v
    rw [NodeData.facts, NodeData.facts, hattributes, hfield]
    simp only [Element.listenersFor, hlisteners]
  · rw [Element.outfit, Element.outfit, hattributes, hlisteners]

/-! ## Runs -/

/-- An admitted call is noted down by mutations that tell what it has done. -/
theorem WellFormed.followed (hd : d.WellFormed) (h : d.Admits c) (hc : c.Apart)
    (hd' : d.perform c = .ok d') : ∃ ms, Followed d c d' ms := by
  have hid : ∀ {k}, k ∈ c.ids → d.Live k := fun hk => h.live _ hk
  have hread : ∀ {α : Type} {r : Except MissingNode α}, c.alteration? = none →
      (r.map fun _ => d) = .ok d' → ∃ ms, Followed d c d' ms := by
    intro α r hc hr
    obtain ⟨_, -, rfl⟩ := Except.exists_of_map_eq_ok hr
    exact ⟨[], .of_structural (.refl d) hc rfl fun _ _ hts => hts⟩
  cases c with
  | createElement name =>
      cases hd'
      exact ⟨_, followed_create d (Element.facts_new name) (fun _ _ => rfl) rfl rfl⟩
  | createText content =>
      cases hd'
      exact ⟨_, followed_create d rfl (fun _ _ => rfl) rfl rfl⟩
  | createComment =>
      cases hd'
      exact ⟨_, followed_create d rfl (fun _ _ => rfl) rfl rfl⟩
  | readParent id => exact hread rfl hd'
  | readChildren id => exact hread rfl hd'
  | readAttribute id name => exact hread rfl hd'
  | append p ids =>
      exact ⟨_, hd.followed_append (hid (List.mem_cons_self ..)) (h.append_apart hd) hd'⟩
  | replace a ids =>
      exact ⟨_, hd.followed_replace (hid (List.mem_cons_self ..)) hc h.distinct
        (h.replace_apart hd hc) hd'⟩
  | remove id => exact ⟨_, hd.followed_remove (hid (List.mem_cons_self ..)) hd'⟩
  | removeChildren id => exact ⟨_, hd.followed_removeChildren (hid (List.mem_cons_self ..)) hd'⟩
  | setAttribute id name value =>
      exact followed_editElement (fun e e' m => told_setAttribute) hd'
  | clearAttribute id name => exact followed_editElement (fun e e' m => told_clearAttribute) hd'
  | setField id f v =>
      refine followed_editElement (fun e e' m hem => ?_) hd'
      cases hem
      exact told_setField e f v
  | setStyleText id css =>
      refine followed_editElement (fun e e' m hem => ?_) hd'
      cases hem
      exact told_style _ id e _
  | setStyleProperty id name value =>
      refine followed_editElement (fun e e' m hem => ?_) hd'
      cases hem
      exact told_style _ id e _
  | addListener id event l => exact followed_editElement (fun e e' m => told_addListener) hd'
  | removeListener id event l => exact followed_editElement (fun e e' m => told_removeListener) hd'

/-- A document whose log accounts for it after some calls, if it is read with the naming of
these. -/
structure Accountable (cs : List TreeCall) (d : Document) : Prop where
  wellFormed : d.WellFormed
  recording : d.recording = true
  accounts : ∀ naming, (∀ c ∈ cs, c.NamedBy naming) → (Trees.ofLog naming d.log).Accounts d

variable {pre : List TreeCall}

/-- An admitted call keeps the log an account. -/
theorem Accountable.perform (hd : d.Accountable pre) (h : d.Admits c) (hc : c.Apart) :
    ∃ d' ms, d.perform c = .ok d' ∧ d'.Accountable (pre ++ [c]) ∧ Followed d c d' ms := by
  obtain ⟨d', hd', hwf⟩ := hd.wellFormed.perform h
  obtain ⟨ms, hms⟩ := hd.wellFormed.followed h hc hd'
  refine ⟨d', ms, hd', ⟨hwf, hms.logs.recording.trans hd.recording, fun naming hnamed => ?_⟩, hms⟩
  obtain ⟨hpre, hlast⟩ := List.forall_mem_append.1 hnamed
  rw [hms.logs.log hd.recording, Trees.ofLog, List.foldl_append]
  exact hms.accounts naming (List.forall_mem_singleton.1 hlast) _ (hd.accounts naming hpre)

theorem Accountable.performAll : ∀ (cs : List TreeCall) {pre : List TreeCall} {d : Document},
    d.Accountable pre → d.AdmitsAll cs → (∀ c ∈ cs, c.Apart) →
    ∃ d', d.performAll cs = .ok d' ∧ d'.Accountable (pre ++ cs)
  | [], pre, d, hd, _, _ => ⟨d, rfl, (List.append_nil pre).symm ▸ hd⟩
  | c :: cs, pre, d, hd, h, hapart => by
      obtain ⟨hc, hcs⟩ := List.forall_mem_cons.1 hapart
      obtain ⟨d₁, -, hd₁, h₁, -⟩ := hd.perform h.1 hc
      obtain ⟨d₂, hd₂, h₂⟩ := performAll cs h₁ (h.2 d₁ hd₁) hcs
      refine ⟨d₂, ?_, List.append_cons .. ▸ h₂⟩
      rw [Document.performAll, hd₁, Except.ok_bind, hd₂]

/-- An attribute that an element does not have is set, which is noted down by its local
name. -/
theorem setAttribute_of_get?_eq_none {e : Element} {name : Name} {value : String}
    (he : d.element? id = some e) (hstyle : name.localName ≠ "style")
    (hname : e.attributes.get? name = none) (h : d.setAttribute id name value = .ok d') :
    d'.log = (d.record (.setAttribute id name.localName value)).log ∧
      (d'.entryOf id).map (·.facts.attributes) = some (e.attributes.insert name value) := by
  have hset : e.attributes.set? name value = some (e.attributes.insert name value) := by
    rw [Attributes.set?, hname, if_neg (by simp)]
  rcases editElement_cases h with ⟨hnone, -⟩ | ⟨e₁, e', m, he₁, hrule, rfl⟩
  · rw [he, Option.bind_some, if_neg hstyle, hset] at hnone
    cases hnone
  · obtain rfl : e₁ = e := Option.some.inj (he₁.symm.trans he)
    obtain ⟨n, hn, -⟩ := Option.bind_eq_some_iff.1 he
    rw [if_neg hstyle, hset] at hrule
    cases hrule
    constructor
    · by_cases hr : d.recording = true <;> simp [record, modify, hr]
    · rw [entryOf, get?_record, get?_modify_eq, hn, Option.map_some, if_pos rfl]
      rfl

/-- Two attributes with one local name are noted down alike, so that no reading of a log tells
which of them was set. -/
theorem log_eq_of_localName_eq {d₁ d₂ : Document} {e : Element} {name name' : Name}
    {value : String} (hlocal : name.localName = name'.localName) (hne : name ≠ name')
    (hstyle : name.localName ≠ "style") (he : d.element? id = some e)
    (hname : e.attributes.get? name = none) (hname' : e.attributes.get? name' = none)
    (h₁ : d.perform (.setAttribute id name value) = .ok d₁)
    (h₂ : d.perform (.setAttribute id name' value) = .ok d₂) :
    d₁.log = d₂.log ∧ d₁.entryOf id ≠ d₂.entryOf id := by
  obtain ⟨hlog₁, hset₁⟩ := setAttribute_of_get?_eq_none he hstyle hname h₁
  obtain ⟨hlog₂, hset₂⟩ := setAttribute_of_get?_eq_none he (hlocal ▸ hstyle) hname' h₂
  refine ⟨by rw [hlog₁, hlog₂, hlocal], fun hentry => ?_⟩
  have hinsert : e.attributes.insert name value = e.attributes.insert name' value := by
    rw [hentry, hset₂] at hset₁
    exact (Option.some.inj hset₁).symm
  have hget := OrderedMap.get?_insert e.attributes name' name value
  rw [← hinsert, OrderedMap.get?_insert_self, if_neg (Ne.symm hne), hname] at hget
  cases hget

end Document

end LiveMarkup
