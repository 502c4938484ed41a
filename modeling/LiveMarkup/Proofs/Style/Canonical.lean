import LiveMarkup.Proofs.Text.Kebab
import LiveMarkup.Style

/-!
# The text of a style

However a style has come about, its names are different and in kebab case, and none of its
values is empty (`Style.Kept`). As long as every declaration was read or was set with a name
and a value that can be read back (`IsName`, `IsValue`), the style can be read back from its
text, with its declarations in the same order (`Style.canonical`).

Reading goes through the text one declaration after the other. Between two of them stands a
space, so what is left to read may start with blanks (`Style.setAll_written`).
-/

namespace LiveMarkup.Style

variable {s : Style} {name value : String} {cs piece : List Char} {pieces : List (List Char)}

/-- A name that a declaration can be read back with. -/
structure IsName (name : String) : Prop where
  ne_empty : name ≠ ""
  colon_notMem : ':' ∉ name.toList
  semicolon_notMem : ';' ∉ name.toList
  trim_eq : Text.trim name = name

/-- A value that can be read back. The empty one takes a declaration away. -/
structure IsValue (value : String) : Prop where
  semicolon_notMem : ';' ∉ value.toList
  trim_eq : Text.trim value = value

/-- A style that has come about by reading, by clearing and by setting what can be read
back. -/
inductive Built : Style → Prop where
  | empty : Built .empty
  | parse (css : String) : Built (.parse css)
  | clear {s : Style} : Built s → Built .empty
  | set {s : Style} {name value : String} :
      Built s → IsName name → IsValue value → Built (s.set name value)

/-! ## What every style keeps -/

/-- Names are different and in kebab case, and no value is empty. -/
structure Kept (s : Style) : Prop where
  distinct : s.declarations.Distinct
  kebab : ∀ d ∈ s.declarations.entries, Text.kebab d.1 = d.1
  ne_empty : ∀ d ∈ s.declarations.entries, d.2 ≠ ""

/-- What is declared after a declaration was declared before, or it is the declaration in
kebab case and not empty. -/
theorem mem_set {d : String × String} (h : d ∈ (s.set name value).declarations.entries) :
    d = (Text.kebab name, value) ∧ value ≠ "" ∨ d ∈ s.declarations.entries := by
  unfold set at h
  split at h
  · exact Or.inr ((OrderedMap.drop_sublist _ _).subset h)
  · rename_i hvalue
    exact (OrderedMap.mem_write h).imp_left fun hd => ⟨hd, hvalue⟩

theorem kept_empty : Kept .empty where
  distinct := OrderedMap.distinct_empty
  kebab _ hd := nomatch hd
  ne_empty _ hd := nomatch hd

theorem Kept.set (h : s.Kept) (name value : String) : (s.set name value).Kept where
  distinct := by
    unfold Style.set
    split
    · exact h.distinct.erase _
    · exact h.distinct.insert _ _
  kebab d hd := by
    rcases mem_set hd with ⟨rfl, -⟩ | hd
    · exact Text.kebab_kebab name
    · exact h.kebab d hd
  ne_empty d hd := by
    rcases mem_set hd with ⟨rfl, hvalue⟩ | hd
    · exact hvalue
    · exact h.ne_empty d hd

/-! ## What can be read back -/

theorem notMem_trimChars {c : Char} (hc : Text.isBlank c = false) (h : c ∉ cs) :
    c ∉ (String.ofList (Text.trimChars cs)).toList := by
  rwa [String.toList_ofList, Text.mem_trimChars hc]

theorem notMem_of_blank {c : Char} (hc : Text.isBlank c = false)
    (h : cs.all Text.isBlank = true) : c ∉ cs := by
  intro hmem
  rw [List.all_eq_true.1 h c hmem] at hc
  cases hc

theorem trim_ofList_trimChars (cs : List Char) :
    Text.trim (String.ofList (Text.trimChars cs)) = String.ofList (Text.trimChars cs) := by
  rw [Text.trim, String.toList_ofList, Text.trimChars_trimChars]

theorem toList_trim_eq (h : Text.trim name = name) : Text.trimChars name.toList = name.toList := by
  rwa [← String.toList_inj, Text.trim, String.toList_ofList] at h

/-- Kebab case adds hyphens and small letters only. -/
theorem IsName.kebab (h : IsName name) : IsName (Text.kebab name) where
  ne_empty := Text.kebab_ne_empty h.ne_empty
  colon_notMem hc := by
    rcases Text.mem_kebab hc with hc | hc | hc
    · exact h.colon_notMem hc
    · revert hc
      decide
    · revert hc
      decide
  semicolon_notMem hc := by
    rcases Text.mem_kebab hc with hc | hc | hc
    · exact h.semicolon_notMem hc
    · revert hc
      decide
    · revert hc
      decide
  trim_eq := Text.trim_kebab h.trim_eq

/-- What is read from a piece without a semicolon can be read back. -/
theorem isName_isValue_of_readDeclaration? (hpiece : ';' ∉ piece)
    (h : readDeclaration? piece = some (name, value)) : IsName name ∧ IsValue value := by
  unfold readDeclaration? at h
  cases hcut : Text.cutAt ':' piece with
  | none =>
      rw [hcut] at h
      cases h
  | some r =>
      obtain ⟨before, after⟩ := r
      obtain ⟨rfl, hcolon⟩ := Text.eq_append_of_cutAt hcut
      rw [List.mem_append, List.mem_cons, not_or, not_or] at hpiece
      rw [hcut] at h
      dsimp only at h
      split at h
      · cases h
      · rename_i hne
        obtain ⟨rfl, rfl⟩ := Prod.mk.inj (Option.some.inj h)
        have hname : String.ofList (Text.trimChars before) ≠ "" := by
          intro he
          rw [← String.toList_inj, String.toList_ofList] at he
          exact hne (by rw [he]; rfl)
        exact ⟨⟨hname, notMem_trimChars rfl hcolon, notMem_trimChars rfl hpiece.1,
          trim_ofList_trimChars before⟩, ⟨notMem_trimChars rfl hpiece.2.2,
          trim_ofList_trimChars after⟩⟩

/-- A style that can be read back from its text. -/
structure Legible (s : Style) : Prop extends Kept s where
  legible : ∀ d ∈ s.declarations.entries, IsName d.1 ∧ IsValue d.2

theorem legible_empty : Legible .empty :=
  ⟨kept_empty, fun _ hd => nomatch hd⟩

theorem Legible.set (h : s.Legible) (hname : IsName name) (hvalue : IsValue value) :
    (s.set name value).Legible := by
  refine ⟨h.toKept.set name value, fun d hd => ?_⟩
  rcases mem_set hd with ⟨rfl, -⟩ | hd
  · exact ⟨hname.kebab, hvalue⟩
  · exact h.legible d hd

theorem Legible.setAll (h : s.Legible) (hpieces : ∀ piece ∈ pieces, ';' ∉ piece) :
    (s.setAll pieces).Legible := by
  induction pieces generalizing s with
  | nil => exact h
  | cons piece pieces ih =>
      obtain ⟨hpiece, hpieces⟩ := List.forall_mem_cons.1 hpieces
      unfold Style.setAll
      split
      · exact ih h hpieces
      · rename_i hread
        obtain ⟨hname, hvalue⟩ := isName_isValue_of_readDeclaration? hpiece hread
        exact ih (h.set hname hvalue) hpieces

theorem Built.legible (h : s.Built) : s.Legible := by
  induction h with
  | empty => exact legible_empty
  | parse css => exact legible_empty.setAll fun _ => Text.notMem_of_mem_splitAt
  | clear _ _ => exact legible_empty
  | set _ hname hvalue ih => exact ih.set hname hvalue

/-! ## Reading back -/

theorem readDeclaration?_of_blank (h : cs.all Text.isBlank = true) :
    readDeclaration? cs = none := by
  rw [readDeclaration?, Text.cutAt_of_notMem (notMem_of_blank rfl h)]

/-- A declaration is read as it is written, with blanks in front. -/
theorem readDeclaration?_written (hlead : cs.all Text.isBlank = true) (hname : IsName name)
    (hvalue : IsValue value) :
    readDeclaration? (cs ++ name.toList ++ ':' :: ' ' :: value.toList) = some (name, value) := by
  have hcolon : ':' ∉ cs ++ name.toList := by
    rw [List.mem_append, not_or]
    exact ⟨notMem_of_blank rfl hlead, hname.colon_notMem⟩
  have hne : name.toList ≠ [] := fun he => hname.ne_empty (by rwa [← String.toList_inj])
  rw [readDeclaration?, Text.cutAt_append hcolon]
  dsimp only
  rw [Text.trimChars_append hlead, toList_trim_eq hname.trim_eq,
    ← List.singleton_append (x := ' '), Text.trimChars_append (by decide),
    toList_trim_eq hvalue.trim_eq, String.ofList_toList, String.ofList_toList,
    if_neg (by simpa using hne)]

theorem toList_declarationText (d : String × String) :
    (declarationText d).toList = d.1.toList ++ ':' :: ' ' :: d.2.toList ++ [';'] := by
  simp [declarationText]

/-- What stands behind a declaration is blank in front of the next one. -/
theorem exists_intercalate_cons (xs : List (List Char)) (x : List Char) :
    ∃ lead : List Char, lead.all Text.isBlank = true ∧
      [' '].intercalate (x :: xs) = x ++ (lead ++ [' '].intercalate xs) := by
  cases xs with
  | nil => exact ⟨[], rfl, by simp⟩
  | cons y ys => exact ⟨[' '], by decide, by rw [List.intercalate_cons_cons, List.append_assoc]⟩

/-- Reading what was written sets every declaration in order. -/
theorem setAll_written : ∀ (es : List (String × String)) (s : Style) {lead : List Char},
    (∀ d ∈ es, IsName d.1 ∧ IsValue d.2) → lead.all Text.isBlank = true →
    s.setAll (Text.splitAt ';' (lead ++ [' '].intercalate (es.map fun d =>
      (declarationText d).toList))) = es.foldl (fun s d => Style.set s d.1 d.2) s
  | [], s, lead, _, hlead => by
      have hsemicolon : ';' ∉ lead := notMem_of_blank rfl hlead
      rw [List.map_nil, List.intercalate_nil, List.append_nil, Text.splitAt_of_notMem hsemicolon,
        setAll, readDeclaration?_of_blank hlead]
      rfl
  | d :: es, s, lead, h, hlead => by
      obtain ⟨⟨hname, hvalue⟩, hes⟩ := List.forall_mem_cons.1 h
      obtain ⟨lead', hlead', hrest⟩ := exists_intercalate_cons
        (es.map fun d => (declarationText d).toList) (declarationText d).toList
      have hsemicolon : ';' ∉ lead ++ d.1.toList ++ ':' :: ' ' :: d.2.toList := by
        have hblank : ';' ∉ lead := notMem_of_blank rfl hlead
        simp [hblank, hname.semicolon_notMem, hvalue.semicolon_notMem]
      rw [List.map_cons, hrest, toList_declarationText, List.append_assoc _ [';'],
        List.singleton_append, ← List.append_assoc, ← List.append_assoc,
        Text.splitAt_append hsemicolon, setAll, readDeclaration?_written hlead hname hvalue]
      exact setAll_written es _ hes hlead'

/-- Setting declarations in kebab case that are not empty writes them down. -/
theorem foldl_set : ∀ {es : List (String × String)} {m : OrderedMap String String},
    (∀ d ∈ es, Text.kebab d.1 = d.1) → (∀ d ∈ es, d.2 ≠ "") →
    es.foldl (fun s d => Style.set s d.1 d.2) ⟨m⟩ = ⟨m.assign ⟨es⟩⟩
  | [], _, _, _ => rfl
  | d :: es, m, hkebab, hne => by
      obtain ⟨hd, hkebab⟩ := List.forall_mem_cons.1 hkebab
      obtain ⟨hvalue, hne⟩ := List.forall_mem_cons.1 hne
      rw [List.foldl_cons, set, if_neg hvalue, hd]
      exact foldl_set hkebab hne

theorem Legible.parse_text (h : s.Legible) : Style.parse s.text = s := by
  have hwritten := setAll_written s.declarations.entries .empty h.legible
    (List.all_nil : [].all Text.isBlank = true)
  have hlist : s.text.toList = [' '].intercalate (s.declarations.entries.map fun d =>
      (declarationText d).toList) := by
    rw [text, String.toList_intercalate, List.map_map]
    rfl
  rw [List.nil_append, ← hlist] at hwritten
  rw [parse, hwritten]
  refine (foldl_set h.kebab h.ne_empty).trans ?_
  exact congrArg Style.mk h.distinct.ofList_entries

/-- Every style that has come about by reading, by clearing and by setting what can be read
back has different names in kebab case and no empty value, and is read back from its text.
So is what was read from any text. -/
theorem canonical :
    (∀ s : Style, s.Built → s.declarations.Distinct ∧
      (∀ d ∈ s.declarations.entries, Text.kebab d.1 = d.1 ∧ d.2 ≠ "") ∧ parse s.text = s) ∧
    ∀ css, parse (parse css).text = parse css := by
  refine ⟨fun s hs => ?_, fun css => (Built.parse css).legible.parse_text⟩
  have h := hs.legible
  exact ⟨h.distinct, fun d hd => ⟨h.kebab d hd, h.ne_empty d hd⟩, h.parse_text⟩

/-- A style that was read with pieces left out, with a declaration set in camel case and one
taken away. -/
def mixed : Style :=
  ((parse "color: red; --Gap: a:b;; bogus; :x ; margin-top : 4px").set "WebkitTransition"
    "all 1s").set "color" ""

theorem canonical_mixed : mixed.Built ∧
    mixed.text = "--Gap: a:b; margin-top: 4px; -webkit-transition: all 1s;" ∧
    mixed.declarations.Distinct ∧
    (∀ d ∈ mixed.declarations.entries, Text.kebab d.1 = d.1 ∧ d.2 ≠ "") ∧
    parse mixed.text = mixed := by
  have hbuilt : mixed.Built := by
    refine .set (.set (.parse _) ⟨by decide, ?_, ?_, ?_⟩ ⟨?_, ?_⟩) ⟨by decide, ?_, ?_, ?_⟩ ⟨?_, ?_⟩
    all_goals decide +kernel
  exact ⟨hbuilt, by decide +kernel, canonical.1 mixed hbuilt⟩

end LiveMarkup.Style
