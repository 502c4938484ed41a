import LiveMarkup.Proofs.Template.Pieces
import LiveMarkup.Proofs.Value.Distinct

/-!
# The grammar of templates

A template is written from the trees below, which hold all that the writer may
choose: the blanks between the parts of a tag and between items, and the quotes
around property values. What must not be written cannot be built. Between two
items which are no texts stands one filler, a literal text or blanks, so two
texts never touch, and blanks never touch a text.

`Content.pieces` is what a tree looks like when it is written. `Content.meaning`
is what it says, without any reading: texts and values stand for themselves, and
elements are made from their name, properties and children, the children first.
-/

namespace LiveMarkup.Template

/-! ## Words and blanks -/

/-- Whether a character may stand in a name: it is not blank and has no meaning
inside a tag. -/
def isWordChar (c : Char) : Bool :=
  !Text.isBlank c && c != '<' && c != '>' && c != '/' && c != '=' && c != '"' && c != '\''

/-- A name as it is written. -/
structure Word where
  chars : List Char
  ne_nil : chars ≠ []
  plain : ∀ c ∈ chars, isWordChar c = true

/-- The name that a word is. -/
def Word.text (w : Word) : String :=
  String.ofList w.chars

/-- Any number of blank characters. -/
structure Blanks where
  chars : List Char
  blank : chars.all Text.isBlank = true

/-- No characters at all. -/
def Blanks.none : Blanks :=
  ⟨[], rfl⟩

/-- At least one blank character. -/
structure Gap extends Blanks where
  ne_nil : chars ≠ []

/-- One of the two quotes. -/
inductive Quote where
  | double
  | single

/-- The character of a quote. -/
def Quote.char : Quote → Char
  | .double => '"'
  | .single => '\''

/-! ## Tags -/

/-- The name in a tag: a word, or a value whose maps have no name twice. -/
inductive Label where
  | word (w : Word)
  | value (v : Value) (distinct : v.Distinct)

namespace Label

/-- A name as it is written. -/
def pieces : Label → List Piece
  | .word w => Piece.chars w.chars
  | .value v _ => [.value v]

/-- The type of the element that is named. -/
def type : Label → Value
  | .word w => .str w.text
  | .value v _ => v

end Label

/-- One attribute of a tag. -/
inductive Attr where
  | flag (name : Word)
  | literal (name : Word) (quote : Quote) (text : List Char) (h : quote.char ∉ text)
  | value (name : Word) (quote : Option Quote) (v : Value)
  | spread (v : Value)

namespace Attr

/-- An attribute as it is written. -/
def pieces : Attr → List Piece
  | .flag name => Piece.chars name.chars
  | .literal name quote text _ =>
    Piece.chars (name.chars ++ '=' :: quote.char :: text ++ [quote.char])
  | .value name none v => Piece.chars (name.chars ++ ['=']) ++ [.value v]
  | .value name (some quote) v =>
    Piece.chars (name.chars ++ ['=', quote.char]) ++ [.value v, .char quote.char]
  | .spread v => Piece.chars ['.', '.', '.'] ++ [.value v]

/-- The properties with an attribute. -/
def set (p : Props) : Attr → Props
  | .flag name => p.insert name.text (.bool true)
  | .literal name _ text _ => p.insert name.text (.str (String.ofList text))
  | .value name _ v => p.insert name.text v
  | .spread (.map q) => p.assign q
  | .spread _ => p

end Attr

/-- An opening tag up to its end. -/
structure Opening where
  name : Label
  attrs : List (Gap × Attr)
  blanks : Blanks

namespace Opening

/-- The attributes of a tag as they are written, each behind its gap. -/
def attrPieces : List (Gap × Attr) → List Piece
  | [] => []
  | (gap, a) :: as => Piece.chars gap.chars ++ (a.pieces ++ attrPieces as)

/-- An opening tag as it is written. -/
def pieces (t : Opening) : List Piece :=
  t.name.pieces ++ (attrPieces t.attrs ++ Piece.chars t.blanks.chars)

/-- The properties that a tag gives. -/
def props (t : Opening) : Props :=
  t.attrs.foldl (fun p a => a.2.set p) .empty

end Opening

/-! ## Items -/

/-- What stands between two items that are no texts: blanks, or a text. -/
inductive Filler where
  | blanks (bs : Blanks)
  | text (cs : List Char) (hblank : cs.all Text.isBlank = false) (hopen : '<' ∉ cs)

namespace Filler

/-- A filler as it is written. -/
def pieces : Filler → List Piece
  | .blanks bs => Piece.chars bs.chars
  | .text cs _ _ => Piece.chars cs

/-- The items that a filler stands for. -/
def meaning : Filler → List Value
  | .blanks _ => []
  | .text cs _ _ => [.str (String.ofList cs)]

end Filler

mutual

/-- An item that is no text: a value, an element without children that closes
itself, or an element with its children and the blanks around the closing name. -/
inductive Item where
  | value (v : Value)
  | closed (tag : Opening)
  | element (tag : Opening) (content : Content) (before after : Blanks)

/-- Items with fillers in front of each, between them, and behind the last. -/
inductive Content where
  | last (f : Filler)
  | more (f : Filler) (x : Item) (rest : Content)

end

mutual

/-- An item as it is written. -/
def Item.pieces : Item → List Piece
  | .value v => [.value v]
  | .closed tag => .char '<' :: (tag.pieces ++ [.char '/', .char '>'])
  | .element tag content before after =>
    .char '<' :: (tag.pieces ++ .char '>' :: (content.pieces ++ .char '<' :: .char '/' ::
      (Piece.chars before.chars ++ (tag.name.pieces ++ (Piece.chars after.chars ++ [.char '>'])))))
termination_by structural x => x

/-- Items as they are written. -/
def Content.pieces : Content → List Piece
  | .last f => f.pieces
  | .more f x rest => f.pieces ++ (x.pieces ++ rest.pieces)
termination_by structural t => t

end

/-- The segments of a tree. -/
def Content.segments (t : Content) : List String :=
  (Piece.literals t.pieces).map String.ofList

/-- The values embedded in a tree. -/
def Content.values (t : Content) : List Value :=
  Piece.embedded t.pieces

/-- A value stands behind each segment, the last one excepted. -/
theorem Content.length_segments (t : Content) : t.segments.length = t.values.length + 1 := by
  rw [segments, values, Piece.literals, Piece.embedded, List.length_map, List.length_cons,
    List.length_map, List.length_map]

mutual

/-- What an item stands for. -/
def Item.meaning (components : Components) : Item → Except MarkupError Value
  | .value v => .ok v
  | .closed tag => make components tag.name.type tag.props []
  | .element tag content _ _ => do
    make components tag.name.type tag.props (← content.meaning components)
termination_by structural x => x

/-- What items stand for, in order. -/
def Content.meaning (components : Components) : Content → Except MarkupError (List Value)
  | .last f => .ok f.meaning
  | .more f x rest => do
    let v ← x.meaning components
    return f.meaning ++ v :: (← rest.meaning components)
termination_by structural t => t

end

end LiveMarkup.Template
