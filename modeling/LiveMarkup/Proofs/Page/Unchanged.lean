import LiveMarkup.Page.Update
import LiveMarkup.Proofs.Node.Kept

/-!
# A description that says the same changes nothing

A live node is made like a description when its document shows the description
there (`Document.ShowsAt`). Bringing it in line with a description that is the
same gives the very page that it started from, so nothing is written to a live
node, no ref moves and nothing is noted down (`Page.update_of_same`).

Properties are the same in any order, so each step of the walk first needs that
the names of both sides agree. That is where names must not stand twice.
-/

namespace LiveMarkup

namespace Document

mutual

/-- Whether a live node is made like a description. A portal is a comment here,
and its children are shown under its target. -/
def ShowsAt (d : Document) : Node → NodeId → Prop
  | .text s, live => ∃ n, d.get? live = some n ∧ n.data = .text s ∧ n.children = []
  | .element tag _ cs, live =>
    ∃ n e, d.get? live = some n ∧ n.data = .element e ∧ e.name = .ofTag tag ∧
      d.AllShowAt cs n.children
  | .portal target cs, live =>
    (∃ n, d.get? live = some n ∧ n.data = .comment ∧ n.children = []) ∧
      ∃ m, d.get? target = some m ∧ d.AllShowAt cs m.children
termination_by structural n => n

/-- Whether live nodes are made like descriptions, one for one. -/
def AllShowAt (d : Document) : List Node → List NodeId → Prop
  | [], [] => True
  | n :: ns, live :: lives => d.ShowsAt n live ∧ d.AllShowAt ns lives
  | _, _ => False
termination_by structural ns => ns

end

end Document

/-! ## Nothing to change -/

open Document (root)

namespace Page

/-- Under every name the values are the same, so none of them is set. -/
theorem updateNames_of_same {new old : Props} (h : Props.same new old = true)
    (hn : new.Distinct) (p : Page) (live : NodeId) (names : List String) :
    p.updateNames live new old names = .ok p := by
  induction names with
  | nil => rfl
  | cons name names ih =>
      have hsame : name = "key" ∨ (new.get? name == old.get? name) = true :=
        Or.inr (Props.get?_beq_of_same h hn name)
      have hname : p.updateProp live new old name = .ok p := if_pos hsame
      rw [updateNames, hname]
      exact ih

mutual

/-- A live node that shows a description stays as it is for one that says the
same. -/
theorem patch_of_same : ∀ (new old : Node) {p : Page} {live : NodeId},
    p.document.ShowsAt old live → new.Distinct → new.same old = true →
    p.patch live new old = .ok p
  | .text s, old, p, live, _, hn, hs => by
      have hkeep := Node.mustReplace_of_same hs hn
      cases old with
      | text t => rw [patch.eq_def, hkeep]; rfl
      | _ => cases hs
  | .element s q cs, old, p, live, hold, hn, hs => by
      have hkeep := Node.mustReplace_of_same hs hn
      cases old with
      | element t q' ds =>
          have hparts := Node.same_element_iff.1 hs
          rcases hold with ⟨n, e, hlive, -, -, hchildren⟩
          have hprops : p.updateProps live q q' = .ok p :=
            updateNames_of_same hparts.2.1 hn.props p live _
          have hcs : p.patchAll live n.children cs ds = .ok p :=
            patchAll_of_same cs ds live hchildren hn.children hparts.2.2
          rw [patch.eq_def, hkeep]
          dsimp only [Bool.false_eq_true, if_false]
          rw [hprops]
          change (p.document.children live >>= fun lives => p.patchAll live lives cs ds) = .ok p
          rw [Document.children_of_get? hlive]
          exact hcs
      | text t => cases q; cases hs
      | portal t ds => cases q; cases hs
  | .portal s cs, old, p, live, hold, hn, hs => by
      have hkeep := Node.mustReplace_of_same hs hn
      cases old with
      | portal t ds =>
          have hparts : s = t ∧ Node.allSame cs ds = true := by simpa [Node.same] using hs
          rcases hold with ⟨-, m, htarget, hchildren⟩
          rw [← hparts.1] at htarget
          have hcs : p.patchAll s m.children cs ds = .ok p :=
            patchAll_of_same cs ds s hchildren hn hparts.2
          rw [patch.eq_def, hkeep]
          change (p.document.children s >>= fun lives => p.patchAll s lives cs ds) = .ok p
          rw [Document.children_of_get? htarget]
          exact hcs
      | _ => cases hs

/-- Children that show descriptions stay as they are for others that say the
same. -/
theorem patchAll_of_same : ∀ (new old : List Node) {p : Page} {lives : List NodeId}
    (parent : NodeId), p.document.AllShowAt old lives → Node.AllDistinct new →
    Node.allSame new old = true → p.patchAll parent lives new old = .ok p
  | [], old, p, lives, parent, _, _, hs => by
      cases old with
      | nil => cases lives <;> rfl
      | cons o os => cases hs
  | n :: ns, old, p, lives, parent, hold, hn, hs => by
      cases old with
      | nil => cases hs
      | cons o os =>
          cases lives with
          | nil => exact hold.elim
          | cons live lives =>
              have hparts : n.same o = true ∧ Node.allSame ns os = true := by
                simpa [Node.allSame] using hs
              have hhead := patch_of_same n o hold.1 hn.1 hparts.1
              have htail := patchAll_of_same ns os parent hold.2 hn.2 hparts.2
              rw [patchAll, hhead]
              exact htail

end

/-- Bringing a live node in line with a description that says the same as the one
it shows leaves the page as it is: the live nodes, the refs and the log. -/
theorem update_of_same {p : Page} {parent live : NodeId} {new old : Node}
    (hold : p.document.ShowsAt old live) (hn : new.Distinct) (hs : (new == old) = true) :
    p.update parent (some live) (some new) (some old) = .ok p :=
  patch_of_same new old hold hn hs

/-- An element with a comment inside, where a portal stands, and the target of
the portal next to it. -/
def settled : Page where
  document :=
    { nodes := ((((Slab.empty.insert ⟨root, .document, none, [1, 2]⟩).insert
        ⟨1, .element { name := .ofTag "aside" }, some root, [4]⟩).insert
          ⟨2, .element { name := .ofTag "main" }, some root, [3]⟩).insert
            ⟨3, .comment, some 2, []⟩).insert ⟨4, .text "a", some 1, []⟩ }

/-- A description of an element with a property that is not a number, one that is
not true, and a portal. -/
def uneven : Node :=
  .element "main" ⟨[("title", .number .nan), ("hidden", .bool false)]⟩ [.portal 1 [.text "a"]]

/-- The same description with the properties in the other order. -/
def unevenBack : Node :=
  .element "main" ⟨[("hidden", .bool false), ("title", .number .nan)]⟩ [.portal 1 [.text "a"]]

theorem showsAt_settled : settled.document.ShowsAt uneven 2 := by
  have hplace : ∃ n, settled.document.get? 3 = some n ∧ n.data = .comment ∧ n.children = [] :=
    ⟨_, rfl, rfl, rfl⟩
  have htext : settled.document.ShowsAt (.text "a") 4 := ⟨_, rfl, rfl, rfl⟩
  have hportal : settled.document.ShowsAt (.portal 1 [.text "a"]) 3 :=
    ⟨hplace, _, rfl, htext, trivial⟩
  exact ⟨_, _, rfl, rfl, rfl, hportal, trivial⟩

theorem distinct_unevenBack : unevenBack.Distinct := by
  have hnames : ["hidden", "title"].Nodup := by decide
  exact ⟨hnames, ⟨trivial, trivial, trivial⟩, ⟨trivial, trivial⟩, trivial⟩

theorem update_of_same_settled :
    settled.document.ShowsAt uneven 2 ∧ unevenBack.Distinct ∧ (unevenBack == uneven) = true ∧
      settled.update root (some 2) (some unevenBack) (some uneven) = .ok settled := by
  have hsame : (unevenBack == uneven) = true := by decide
  exact ⟨showsAt_settled, distinct_unevenBack, hsame,
    update_of_same showsAt_settled distinct_unevenBack hsame⟩

end Page

end LiveMarkup
