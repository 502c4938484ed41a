import LiveMarkup.Node.Markup
import LiveMarkup.Proofs.Template.Compile
import LiveMarkup.Proofs.Text.Kebab

/-!
# Markup reads back

The markup of a description is a template without values. If the description is
plain, so that its tags and property names are words and no two texts stand next to
each other, then what is written for it is what is written for a tree of the
grammar (`Node.exists_item`, `Node.exists_content`). Hence reading it gives the
description again, with its texts and property values as they were escaped
(`Node.markup_readBack`). Whatever they hold, they end neither a text nor a tag.

A text is no item of the grammar but the filler in front of the item that follows
it. So what is written for a list of descriptions is looked at with a filler in
front.
-/

namespace LiveMarkup

/-! ## Plain descriptions -/

/-- Whether a character may stand in a tag: a small ASCII letter, a digit or a
hyphen. -/
def isTagChar (c : Char) : Bool :=
  c.isLower || c.isDigit || c == '-'

/-- Whether a character may stand in a property name: an ASCII letter, a digit or a
hyphen. -/
def isNameChar (c : Char) : Bool :=
  c.isAlphanum || c == '-'

/-- A value that is written as it is read: a string, or `true`. -/
def Value.IsWritten : Value → Prop
  | .str _ => True
  | .bool b => b = true
  | _ => False

/-- Properties under words that mean nothing but the attribute they name, with
values that are written as they are read. -/
structure Props.Plain (p : Props) : Prop where
  distinct : p.Distinct
  ne_empty : ∀ name ∈ p.keys, name ≠ ""
  word : ∀ name ∈ p.keys, ∀ c ∈ name.toList, isNameChar c = true
  plainName : ∀ name ∈ p.keys, name ≠ "key" ∧ name ≠ "ref" ∧ name ≠ "className" ∧
    Node.namesListener name = false
  written : ∀ e ∈ p.entries, e.2.IsWritten

namespace Node

/-- Whether a description is a text. -/
def isText : Node → Bool
  | .text _ => true
  | _ => false

mutual

/-- Whether a description can be read back from its markup: it has no portals, its
tags are words, its properties are plain, its texts are not blank, and no two texts
stand next to each other. -/
def Plain : Node → Prop
  | .text s => s.toList.all Text.isBlank = false
  | .element tag props cs =>
    tag ≠ "" ∧ (∀ c ∈ tag.toList, isTagChar c = true) ∧ Props.Plain props ∧ AllPlain cs
  | .portal _ _ => False
termination_by structural n => n

/-- Whether descriptions that stand next to each other can be read back. -/
def AllPlain : List Node → Prop
  | [] => True
  | n :: ns => n.Plain ∧ (n.isText = true → ∀ m ∈ ns.head?, m.isText = false) ∧ AllPlain ns
termination_by structural ns => ns

end

end Node

/-- A value with a string escaped as it is between quotes. -/
def Value.escaped : Value → Value
  | .str s => .str (Text.escapeQuoted s)
  | v => v

/-- Properties with their strings escaped. -/
def Props.escaped (p : Props) : Props :=
  ⟨p.entries.map fun e => (e.1, e.2.escaped)⟩

namespace Node

mutual

/-- A description with its texts and the strings of its properties escaped. -/
def escaped : Node → Node
  | .text s => .text (Text.escape s)
  | .element tag props cs => .element tag (Props.escaped props) (allEscaped cs)
  | .portal target cs => .portal target (allEscaped cs)
termination_by structural n => n

/-- Descriptions with their texts and the strings of their properties escaped. -/
def allEscaped : List Node → List Node
  | [] => []
  | n :: ns => n.escaped :: allEscaped ns
termination_by structural ns => ns

end

/-- What a template has for the markup of a description. -/
def readValue : Node → Value
  | .text s => .str (Text.escape s)
  | n => .node n.escaped

theorem flatten_readValue (ns : List Node) : flatten (ns.map readValue) = allEscaped ns := by
  induction ns with
  | nil => rfl
  | cons n ns ih =>
      rw [List.map_cons, flatten_cons, ih, allEscaped]
      cases n <;> rfl

end Node

/-! ## Words -/

namespace Template

open Piece

theorem isLower_iff (c : Char) : c.isLower = true ↔ 97 ≤ c.toNat ∧ c.toNat ≤ 122 := by
  change (decide (c.val ≥ 97) && decide (c.val ≤ 122)) = true ↔ _
  rw [Bool.and_eq_true, decide_eq_true_iff, decide_eq_true_iff, ge_iff_le,
    UInt32.le_iff_toNat_le, UInt32.le_iff_toNat_le]
  rfl

theorem isDigit_iff (c : Char) : c.isDigit = true ↔ 48 ≤ c.toNat ∧ c.toNat ≤ 57 := by
  change (decide (c.val ≥ 48) && decide (c.val ≤ 57)) = true ↔ _
  rw [Bool.and_eq_true, decide_eq_true_iff, decide_eq_true_iff, ge_iff_le,
    UInt32.le_iff_toNat_le, UInt32.le_iff_toNat_le]
  rfl

theorem isTagChar_iff (c : Char) : isTagChar c = true ↔
    (c.isLower = true ∨ c.isDigit = true) ∨ c = '-' := by
  rw [isTagChar, Bool.or_eq_true, Bool.or_eq_true, beq_iff_eq]

theorem isNameChar_iff (c : Char) : isNameChar c = true ↔
    ((c.isUpper = true ∨ c.isLower = true) ∨ c.isDigit = true) ∨ c = '-' := by
  change (((c.isUpper || c.isLower) || c.isDigit) || c == '-') = true ↔ _
  rw [Bool.or_eq_true, Bool.or_eq_true, Bool.or_eq_true, beq_iff_eq]

theorem isNameChar_of_isTagChar {c : Char} (h : isTagChar c = true) : isNameChar c = true :=
  (isNameChar_iff c).2 (((isTagChar_iff c).1 h).imp_left (Or.imp_left Or.inr))

theorem toLower_of_isTagChar {c : Char} (h : isTagChar c = true) : c.toLower = c := by
  have hpoint : c.toNat ≤ 57 ∨ 97 ≤ c.toNat := by
    rw [isTagChar_iff, isLower_iff, isDigit_iff] at h
    rcases h with (⟨h₁, -⟩ | ⟨-, h₂⟩) | rfl
    · exact .inr h₁
    · exact .inl h₂
    · exact .inl (by decide)
  have hcapital : ¬(c.val ≥ 'A'.val ∧ c.val ≤ 'Z'.val) := by
    rw [ge_iff_le, UInt32.le_iff_toNat_le, UInt32.le_iff_toNat_le]
    change ¬(65 ≤ c.toNat ∧ c.toNat ≤ 90)
    omega
  exact dif_neg hcapital

/-- The code point of a character in a name. -/
theorem toNat_of_isNameChar {c : Char} (h : isNameChar c = true) :
    c.toNat = 45 ∨ (48 ≤ c.toNat ∧ c.toNat ≤ 57) ∨ (65 ≤ c.toNat ∧ c.toNat ≤ 90) ∨
      (97 ≤ c.toNat ∧ c.toNat ≤ 122) := by
  rw [isNameChar_iff, Text.isUpper_iff, isLower_iff, isDigit_iff] at h
  rcases h with ((h | h) | h) | rfl
  · exact .inr (.inr (.inl h))
  · exact .inr (.inr (.inr h))
  · exact .inr (.inl h)
  · exact .inl rfl

theorem isWordChar_of_isNameChar {c : Char} (h : isNameChar c = true) : isWordChar c = true := by
  have hpoint := toNat_of_isNameChar h
  have hne : ∀ d : Char, (d.toNat ≠ 45 ∧ (d.toNat < 48 ∨ 57 < d.toNat) ∧
      (d.toNat < 65 ∨ 90 < d.toNat) ∧ (d.toNat < 97 ∨ 122 < d.toNat)) → c ≠ d := by
    rintro d hd rfl
    omega
  have hblank : Text.isBlank c = false := by
    simp only [Text.isBlank, Bool.or_eq_false_iff, Bool.and_eq_false_iff, decide_eq_false_iff_not,
      beq_eq_false_iff_ne]
    omega
  simp [isWordChar, hblank, hne]

/-- A string of such characters as a word. -/
def Word.ofName (s : String) (hne : s ≠ "") (h : ∀ c ∈ s.toList, isNameChar c = true) : Word where
  chars := s.toList
  ne_nil := fun hnil => hne (String.toList_eq_nil_iff.1 hnil)
  plain := fun c hc => isWordChar_of_isNameChar (h c hc)

@[simp] theorem Word.text_ofName (s : String) (hne : s ≠ "")
    (h : ∀ c ∈ s.toList, isNameChar c = true) : (Word.ofName s hne h).text = s :=
  String.ofList_toList

end Template

open Template Piece

/-! ## Tags -/

section Tag

variable {tag : String} (h : ∀ c ∈ tag.toList, isTagChar c = true)

include h

theorem trim_of_isTagChar : Text.trim tag = tag := by
  have hnil : ([] : List Char).all Text.isBlank = true := rfl
  have hblank : ∀ c ∈ tag.toList, Text.isBlank c = false := fun c hc =>
    isBlank_of_isWordChar (isWordChar_of_isNameChar (isNameChar_of_isTagChar (h c hc)))
  have htrim := Text.trimChars_around hnil hblank hnil
  rw [List.nil_append, List.append_nil] at htrim
  rw [Text.trim, htrim, String.ofList_toList]

/-- A tag of small letters, digits and hyphens is kept as it is. -/
theorem normalTag_of_isTagChar : normalTag tag = tag := by
  have hascii : ∀ c ∈ tag.toList, c.toNat < 0x80 := fun c hc => by
    have hpoint := toNat_of_isNameChar (isNameChar_of_isTagChar (h c hc))
    omega
  have hlower : ∀ c ∈ tag.toList, c.toLower = c := fun c hc => toLower_of_isTagChar (h c hc)
  rw [normalTag, trim_of_isTagChar h, Text.lowercase, Text.lowercaseAfter_of_ascii hascii,
    List.map_congr_left hlower, List.map_id', String.ofList_toList]

/-- Such a tag has no part in front of a colon. -/
theorem localName_of_isTagChar : (Name.ofTag tag).localName = tag := by
  have hcut : Text.cutAt ':' tag.toList = none := by
    cases hcut : Text.cutAt ':' tag.toList with
    | none => rfl
    | some r =>
        have hcolon : ':' ∈ tag.toList := by
          rw [(Text.eq_append_of_cutAt hcut).1]
          exact List.mem_append_right _ (List.mem_cons_self ..)
        cases h ':' hcolon
  rw [Name.ofTag, Name.cutTag?, hcut]
  rfl

end Tag

/-! ## Attributes -/

namespace Template

/-- The space in front of an attribute. -/
def Gap.space : Gap :=
  ⟨⟨[' '], rfl⟩, List.cons_ne_nil _ _⟩

@[simp] theorem Filler.pieces_none : (Filler.blanks .none).pieces = [] := rfl

@[simp] theorem Filler.meaning_none : (Filler.blanks .none).meaning = [] := rfl

/-- Escaped, a value does not end before its quote. -/
theorem quote_not_mem_escapeQuoted (s : String) : '"' ∉ (Text.escapeQuoted s).toList := by
  rw [Text.escapeQuoted, String.toList_ofList, List.mem_flatMap]
  rintro ⟨c, -, hc⟩
  exact Text.quote_not_mem_escapeQuotedChar c hc

/-- A property is written as an attribute behind a space. -/
theorem exists_attr {name : String} {v : Value} (hne : name ≠ "")
    (hword : ∀ c ∈ name.toList, isNameChar c = true)
    (hplain : name ≠ "key" ∧ name ≠ "ref" ∧ name ≠ "className" ∧ Node.namesListener name = false)
    (hv : v.IsWritten) :
    ∃ a : Attr, chars (Node.propMarkup name v).toList = chars [' '] ++ a.pieces ∧
      ∀ p : Props, a.set p = p.insert name v.escaped := by
  obtain ⟨hkey, href, hclass, hon⟩ := hplain
  cases v with
  | str s =>
      refine ⟨.literal (.ofName name hne hword) .double (Text.escapeQuoted s).toList
        (quote_not_mem_escapeQuoted s), ?_, fun p => ?_⟩
      · have hmarkup : Node.propMarkup name (.str s) = attributeMarkup name s := by
          simp [Node.propMarkup, hkey, href, hclass, hon, Value.text?]
        simp [hmarkup, attributeMarkup, Attr.pieces, Word.ofName, Quote.char, chars]
      · simp [Attr.set, Value.escaped]
  | bool b =>
      obtain rfl : b = true := hv
      refine ⟨.flag (.ofName name hne hword), ?_, fun p => ?_⟩
      · have hmarkup : Node.propMarkup name (.bool true) = " " ++ name := by
          simp [Node.propMarkup, hkey, href, hclass, hon]
        simp [hmarkup, Attr.pieces, Word.ofName, chars]
      · simp [Attr.set, Value.escaped]
  | _ => exact hv.elim

/-- Properties are written as attributes that give them again. -/
theorem exists_attrs {p : Props} (h : p.Plain) :
    ∃ as : List (Gap × Attr), chars (Node.propsMarkup p).toList = Opening.attrPieces as ∧
      as.foldl (fun p a => a.2.set p) .empty = p.escaped := by
  have hentries : ∀ es : List (String × Value), (∀ e ∈ es, e ∈ p.entries) →
      ∃ as : List (Gap × Attr),
        chars (String.join (es.map fun e => Node.propMarkup e.1 e.2)).toList =
          Opening.attrPieces as ∧
        ∀ q : Props, as.foldl (fun p a => a.2.set p) q =
          q.assign ⟨es.map fun e => (e.1, e.2.escaped)⟩ := by
    intro es hes
    induction es with
    | nil => exact ⟨[], rfl, fun q => rfl⟩
    | cons e es ih =>
        have he := hes e (List.mem_cons_self ..)
        have hname : e.1 ∈ p.keys := List.mem_map_of_mem he
        obtain ⟨a, hpieces, hset⟩ := exists_attr (h.ne_empty _ hname) (h.word _ hname)
          (h.plainName _ hname) (h.written e he)
        obtain ⟨as, hrest, hsets⟩ := ih fun d hd => hes d (List.mem_cons_of_mem _ hd)
        refine ⟨(Gap.space, a) :: as, ?_, fun q => ?_⟩
        · rw [List.map_cons, String.join_cons, String.toList_append, chars_append, hpieces, hrest,
            List.append_assoc]
          rfl
        · rw [List.foldl_cons, hset, hsets]
          rfl
  obtain ⟨as, hpieces, hset⟩ := hentries p.entries fun e he => he
  refine ⟨as, hpieces, (hset .empty).trans ?_⟩
  have hdistinct : p.escaped.Distinct := by
    rw [OrderedMap.Distinct, OrderedMap.keys, Props.escaped, List.map_map]
    exact h.distinct
  exact hdistinct.ofList_entries

/-! ## Trees -/

/-- What is written for a text is no blank text. -/
theorem escape_not_blank {s : String} (h : s.toList.all Text.isBlank = false) :
    (Text.escape s).toList.all Text.isBlank = false := by
  obtain ⟨c, hc, hblank⟩ := List.all_eq_false.1 h
  have hwritten : ∃ d ∈ Text.escapeTextChar c, Text.isBlank d = false := by
    unfold Text.escapeTextChar
    split
    · exact ⟨'&', List.mem_cons_self .., rfl⟩
    · exact ⟨'&', List.mem_cons_self .., rfl⟩
    · exact ⟨'&', List.mem_cons_self .., rfl⟩
    · exact ⟨c, List.mem_cons_self .., Bool.eq_false_iff.2 hblank⟩
  obtain ⟨d, hd, hdblank⟩ := hwritten
  rw [Text.escape, String.toList_ofList, List.all_eq_false]
  exact ⟨d, List.mem_flatMap.2 ⟨c, hc, hd⟩, Bool.eq_false_iff.1 hdblank⟩

theorem lt_not_mem_escape (s : String) : '<' ∉ (Text.escape s).toList := by
  rw [Text.escape, String.toList_ofList, List.mem_flatMap]
  rintro ⟨c, -, hc⟩
  exact Text.lt_not_mem_escapeTextChar c hc

variable (components : Components)

/-- A word of small letters, digits and hyphens makes an element of that tag. -/
theorem make_word {tag : String} (hne : tag ≠ "") (htag : ∀ c ∈ tag.toList, isTagChar c = true)
    (hname : ∀ c ∈ tag.toList, isNameChar c = true) (p : Props) (vs : List Value) :
    LiveMarkup.make components (Label.word (.ofName tag hne hname)).type p vs =
      .ok (.node (.element tag p (flatten vs))) := by
  have htype : (Label.word (.ofName tag hne hname)).type = .str tag :=
    congrArg Value.str (Word.text_ofName tag hne hname)
  rw [htype, LiveMarkup.make, trim_of_isTagChar htag, if_neg hne, Node.ofTag,
    normalTag_of_isTagChar htag]

/-- What an element stands for, once its children do. -/
theorem Item.meaning_element {t : Content} {vs : List Value} (h : t.meaning components = .ok vs)
    (tag : Opening) (before after : Blanks) :
    Item.meaning components (.element tag t before after) =
      LiveMarkup.make components tag.name.type tag.props vs := by
  rw [Item.meaning, h]
  rfl

mutual

/-- What is written for a description that is no text is an item. -/
theorem exists_item : ∀ (n : Node), n.Plain → n.isText = false →
    ∃ x : Item, x.pieces = chars n.markup.toList ∧
      x.meaning components = .ok (.node n.escaped)
  | .text s, _, htext => nomatch htext
  | .portal _ _, h, _ => h.elim
  | .element tag props cs, h, _ => by
      obtain ⟨hne, htag, hprops, hcs⟩ := h
      obtain ⟨as, hattrs, hset⟩ := exists_attrs hprops
      obtain ⟨t, ht, hmeaning⟩ := exists_content cs (.blanks .none) (.inl rfl) hcs
      let name : Label := .word (.ofName tag hne fun c hc => isNameChar_of_isTagChar (htag c hc))
      have hmake : ∀ vs, LiveMarkup.make components name.type (Props.escaped props) vs =
          .ok (.node (.element tag (Props.escaped props) (flatten vs))) :=
        fun vs => make_word components hne htag _ _ vs
      have hname := localName_of_isTagChar htag
      by_cases hvoid : tag ∈ voidTags ∧ cs.isEmpty = true
      · refine ⟨.closed ⟨name, as, Gap.space.toBlanks⟩, ?_, ?_⟩
        · rw [Node.markup, hname, if_pos hvoid, Item.pieces, Opening.pieces, ← hattrs]
          simp [name, Label.pieces, Word.ofName, Gap.space, chars]
        · rw [Item.meaning, Opening.props, hset, hmake, List.isEmpty_iff.1 hvoid.2]
          rfl
      · refine ⟨.element ⟨name, as, .none⟩ t .none .none, ?_, ?_⟩
        · rw [Node.markup, hname, if_neg hvoid, Item.pieces, Opening.pieces, ← hattrs, ht,
            Filler.pieces_none, List.nil_append]
          simp [name, Label.pieces, Word.ofName, Blanks.none, chars]
        · rw [Item.meaning_element components hmeaning, Opening.props, hset, hmake,
            Filler.meaning_none, List.nil_append, Node.flatten_readValue, Node.escaped]

/-- What is written for descriptions is content, with a filler in front that no
text follows. -/
theorem exists_content : ∀ (ns : List Node) (f : Filler),
    (f = .blanks .none ∨ ∀ m ∈ ns.head?, m.isText = false) → Node.AllPlain ns →
    ∃ t : Content, t.pieces = f.pieces ++ chars (Node.childrenMarkup ns).toList ∧
      t.meaning components = .ok (f.meaning ++ ns.map Node.readValue)
  | [], f, _, _ => by
      refine ⟨.last f, ?_, ?_⟩
      · rw [Content.pieces, Node.childrenMarkup, String.toList_empty, chars_nil, List.append_nil]
      · rw [Content.meaning, List.map_nil, List.append_nil]
  | .text s :: ns, f, hf, h => by
      obtain ⟨hn, hnext, hns⟩ := h
      obtain rfl : f = .blanks .none := by
        rcases hf with hf | hf
        · exact hf
        · cases hf (.text s) rfl
      let text : Filler := .text (Text.escape s).toList (escape_not_blank hn) (lt_not_mem_escape s)
      obtain ⟨t, ht, hmeaning⟩ := exists_content ns text (.inr (hnext rfl)) hns
      refine ⟨t, ?_, ?_⟩
      · rw [ht, Node.childrenMarkup, Node.markup, String.toList_append, chars_append,
          Filler.pieces_none, List.nil_append, Filler.pieces]
      · rw [hmeaning]
        simp [text, Filler.meaning, Node.readValue]
  | .element tag props cs :: ns, f, hf, h => by
      obtain ⟨hn, hnext, hns⟩ := h
      obtain ⟨x, hx, hitem⟩ := exists_item (.element tag props cs) hn rfl
      obtain ⟨t, ht, hmeaning⟩ := exists_content ns (.blanks .none) (.inl rfl) hns
      refine ⟨.more f x t, ?_, ?_⟩
      · rw [Content.pieces, hx, ht, Node.childrenMarkup, String.toList_append, chars_append,
          Filler.pieces_none, List.nil_append]
      · rw [Content.meaning, hitem, hmeaning]
        rfl
  | .portal _ _ :: _, _, _, h => h.1.elim

end

/-- Compiling characters only is reading them. -/
theorem compile_chars (cs : List Char) :
    compile components [String.ofList cs] [] = ({} : Reader).readOut components (chars cs) := by
  have hliterals : literals (chars cs) = [cs] := by rw [literals, cut_chars, List.map_nil]
  have hembedded : embedded (chars cs) = [] := by rw [embedded, cut_chars, List.map_nil]
  rw [← compile_cut, hliterals, hembedded, List.map_cons, List.map_nil]

end Template

/-- The markup of a plain description is read as the description, with its texts
and the strings of its properties as they were escaped. -/
theorem Node.markup_readBack (components : Components) {n : Node} (h : n.Plain) :
    Template.node? components [n.markup] [] = .ok (some n.escaped) := by
  have halone : AllPlain [n] := ⟨h, fun _ _ hm => (nomatch hm), trivial⟩
  obtain ⟨t, ht, hmeaning⟩ := exists_content components [n] (.blanks .none) (.inl rfl) halone
  have hmarkup : t.pieces = chars n.markup.toList := by
    rw [ht, childrenMarkup, childrenMarkup, String.append_empty, Filler.pieces_none,
      List.nil_append]
  have hcompile : Template.compile components [n.markup] [] = .ok [n.readValue] := by
    rw [← String.ofList_toList (s := n.markup), compile_chars, ← hmarkup, Reader.readOut_tree,
      hmeaning]
    rfl
  have hnode : flatten [n.readValue] = [n.escaped] := flatten_readValue [n]
  rw [Template.node?, hcompile]
  change Except.ok (flatten [n.readValue]).head? = _
  rw [hnode]
  rfl

/-- A paragraph whose title would end its tag and whose text would open one. -/
def Node.breaking : Node :=
  .element "p" ⟨[("title", .str "\"><b"), ("hidden", .bool true)]⟩
    [.text "1 <b & 2", .element "br" .empty []]

theorem Node.plain_breaking : breaking.Plain := by
  have hnames : ["title", "hidden"].Nodup := by decide
  have hwords : ∀ name ∈ ["title", "hidden"], name.toList.all isNameChar = true := by decide
  have hprops : Props.Plain ⟨[("title", .str "\"><b"), ("hidden", .bool true)]⟩ :=
    { distinct := hnames
      ne_empty := by decide
      word := fun name hname => List.all_eq_true.1 (hwords name hname)
      plainName := by decide
      written := by
        intro e he
        rcases List.mem_cons.1 he with rfl | he
        · exact trivial
        · obtain rfl := List.mem_singleton.1 he
          exact rfl }
  have hempty : Props.Plain .empty := ⟨List.nodup_nil, fun _ hname => (nomatch hname),
    fun _ hname => (nomatch hname), fun _ hname => (nomatch hname), fun _ he => (nomatch he)⟩
  have hbreak : (Node.element "br" .empty []).Plain :=
    ⟨by decide, List.all_eq_true.1 (by decide), hempty, trivial⟩
  have hblank : "1 <b & 2".toList.all Text.isBlank = false := by decide
  have htext : (Node.text "1 <b & 2").Plain := hblank
  refine ⟨by decide, List.all_eq_true.1 (by decide), hprops, htext, ?_, hbreak, ?_, trivial⟩
  · rintro - m hm
    obtain rfl := Option.some.inj hm
    rfl
  · exact fun hm => nomatch hm

/-- The title and the text are still what they were, and the paragraph has no other
children. -/
theorem Node.markup_readBack_breaking :
    breaking.Plain ∧ Template.node? (fun _ _ _ => .ok .null) [breaking.markup] [] =
      .ok (some (.element "p" ⟨[("title", .str "&quot;&gt;&lt;b"), ("hidden", .bool true)]⟩
        [.text "1 &lt;b &amp; 2", .element "br" .empty []])) := by
  have hescaped : breaking.escaped =
      .element "p" ⟨[("title", .str "&quot;&gt;&lt;b"), ("hidden", .bool true)]⟩
        [.text "1 &lt;b &amp; 2", .element "br" .empty []] := by
    rfl
  exact ⟨plain_breaking, hescaped ▸ markup_readBack _ plain_breaking⟩

end LiveMarkup
