import LiveMarkup.Node.Make

/-!
# Reading a template character by character

A template is read with one character of look-ahead. The reader knows its place,
the elements that are open and the items finished so far. Each place carries
exactly what was read there: a text or a tag its characters, a property name the
tag it belongs to, a property value also the name and the quote that will end
it. So nothing read in one place can be left over in another.

Characters are kept with the last one first, since the last one is where the
next is added. Elements are kept innermost first.

A value embedded in the template stands for a child in a text, for the name in a
tag, for the whole value after a property's equals sign, and for the properties
to spread where a property is spelled with three dots; anywhere else among the
properties it leaves no trace.
-/

namespace LiveMarkup.Template

/-- The name of an element as a template has it. -/
inductive TagName where
  | literal (name : String)
  | embedded (v : Value)

namespace TagName

/-- A value in the place of a name; a string is taken as if it were written. -/
def ofValue : Value → TagName
  | .str s => .literal (Text.trim s)
  | v => .embedded v

/-- The value that names the element when it is made. -/
def value : TagName → Value
  | .literal s => .str s
  | .embedded v => v

/-- A name as a message shows it. -/
def shown : TagName → String
  | .literal s => s
  | .embedded v => "<" ++ v.typeName ++ ">"

/-- Whether a closing tag with one name closes an element with the other. -/
def same : TagName → TagName → Bool
  | .literal s, .literal t => s == t
  | .embedded v, .embedded w => v.same w
  | _, _ => false

end TagName

/-- The characters read, as a text. -/
def textOf (read : List Char) : String :=
  String.ofList read.reverse

/-- The characters read, as a word. -/
def wordOf (read : List Char) : String :=
  Text.trim (textOf read)

/-- The name in a tag: the value embedded there, or else what was read. -/
def nameOf (read : List Char) : Option Value → TagName
  | some v => .ofValue v
  | none => .literal (wordOf read)

/-- An element whose opening tag is being read. -/
structure OpenTag where
  name : TagName
  props : Props

namespace OpenTag

/-- The tag with a property. -/
def set (tag : OpenTag) (name : String) (v : Value) : OpenTag :=
  { tag with props := tag.props.insert name v }

/-- The tag with what was read as a property that is set; nothing read, nothing
set. -/
def flag (tag : OpenTag) (read : List Char) : OpenTag :=
  if wordOf read = "" then tag else tag.set (wordOf read) (.bool true)

/-- The tag with the properties of a map; other values have none to spread. -/
def spread (tag : OpenTag) : Value → OpenTag
  | .map props => { tag with props := tag.props.assign props }
  | _ => tag

end OpenTag

/-- Where the reader is, with what it has read there. -/
inductive Place where
  | text (read : List Char)
  | tagStart (read : List Char) (value : Option Value)
  | tagEnd (read : List Char) (value : Option Value)
  | propName (tag : OpenTag) (read : List Char)
  | propValue (tag : OpenTag) (name : String) (quote : Option Char) (read : List Char)

/-- An element whose children are being read. -/
structure Frame where
  tag : OpenTag
  children : List Value

/-- What has been read of a template. -/
structure Reader where
  place : Place := .text []
  frames : List Frame := []
  items : List Value := []

/-- The element of a tag that has been read to its end. -/
def OpenTag.make (components : Components) (tag : OpenTag) (children : List Value) :
    Except MarkupError Value :=
  LiveMarkup.make components tag.name.value tag.props children

namespace Reader

/-- The reader at another place. -/
def goto (r : Reader) (place : Place) : Reader :=
  { r with place }

/-- The reader with one more child of the innermost element, or one more item
when none is open. -/
def push (r : Reader) (v : Value) : Reader :=
  match r.frames with
  | [] => { r with items := r.items ++ [v] }
  | f :: fs => { r with frames := { f with children := f.children ++ [v] } :: fs }

/-- The reader with a text that has ended as a child; a blank text is none. -/
def pushText (r : Reader) (read : List Char) : Reader :=
  if read.all Text.isBlank then r else r.push (.str (textOf read))

/-- The reader inside an element whose opening tag has ended. -/
def enter (r : Reader) (tag : OpenTag) : Reader :=
  { r with place := .text [], frames := ⟨tag, []⟩ :: r.frames }

/-- The reader after an element without children. -/
def pushEmpty (components : Components) (r : Reader) (tag : OpenTag) :
    Except MarkupError Reader :=
  (tag.make components []).map fun v => (r.push v).goto (.text [])

/-- The reader after a closing tag, which has to name the innermost element. -/
def leave (components : Components) (r : Reader) (found : TagName) : Except MarkupError Reader :=
  match r.frames with
  | [] => .error (.unexpectedClosingTag "" found.shown)
  | f :: fs =>
    if f.tag.name.same found then
      (f.tag.make components f.children).map fun v =>
        ({ r with frames := fs }.push v).goto (.text [])
    else .error (.unexpectedClosingTag f.tag.name.shown found.shown)

/-- The reader after one character, given the one that follows it in the same
segment, and whether that one has been read as well. -/
def step (components : Components) (r : Reader) (c : Char) (next : Option Char) :
    Except MarkupError (Reader × Bool) :=
  match r.place with
  | .text read =>
    if c = '<' then .ok ((r.pushText read).goto (.tagStart [] none), false)
    else .ok (r.goto (.text (c :: read)), false)
  | .tagStart read value =>
    let fresh := read.all Text.isBlank && value.isNone
    let tag : OpenTag := ⟨nameOf read value, .empty⟩
    if c = '/' && fresh then .ok (r.goto (.tagEnd [] none), false)
    else if c = '/' && next = some '>' then (r.pushEmpty components tag).map (·, true)
    else if c = '>' then .ok (r.enter tag, false)
    else if Text.isBlank c then
      .ok (if fresh then r else r.goto (.propName tag []), false)
    else .ok (r.goto (.tagStart (c :: read) value), false)
  | .tagEnd read value =>
    if c = '>' then (r.leave components (nameOf read value)).map (·, false)
    else .ok (r.goto (.tagEnd (c :: read) value), false)
  | .propName tag read =>
    if c = '/' && next = some '>' then
      (r.pushEmpty components (tag.flag read)).map (·, true)
    else if c = '>' then .ok (r.enter (tag.flag read), false)
    else if c = '=' then
      let quote := next.filter fun q => q == '"' || q == '\''
      .ok (r.goto (.propValue tag (wordOf read) quote []), quote.isSome)
    else if Text.isBlank c then .ok (r.goto (.propName (tag.flag read) []), false)
    else .ok (r.goto (.propName tag (c :: read)), false)
  | .propValue tag name quote read =>
    if quote = some c then
      .ok (r.goto (.propName (tag.set name (.str (textOf read))) []), false)
    else .ok (r.goto (.propValue tag name quote (c :: read)), false)

/-- The reader after the characters of a segment. -/
def read (components : Components) (r : Reader) : List Char → Except MarkupError Reader
  | [] => .ok r
  | [c] => (r.step components c none).map (·.1)
  | c :: d :: cs =>
    match r.step components c (some d) with
    | .error e => .error e
    | .ok (r, true) => r.read components cs
    | .ok (r, false) => r.read components (d :: cs)

/-- The reader after an embedded value, and the quote which may close the value
at the start of the next segment. -/
def embed (r : Reader) (v : Value) : Reader × Option Char :=
  match r.place with
  | .text read => (((r.pushText read).push v).goto (.text []), none)
  | .tagStart _ _ => (r.goto (.tagStart [] (some v)), none)
  | .tagEnd _ _ => (r.goto (.tagEnd [] (some v)), none)
  | .propName tag read =>
    (if wordOf read = "..." then r.goto (.propName (tag.spread v) []) else r, none)
  | .propValue tag name quote _ => (r.goto (.propName (tag.set name v) []), quote)

/-- A segment without the quote it starts with, if that closes a value. -/
def dropQuote (quote : Option Char) : List Char → List Char
  | [] => []
  | c :: cs => if quote = some c then cs else c :: cs

/-- The reader after segments with values embedded behind each of them, as long
as there are any. `quote` may close a value at the start of the first segment. -/
def readAll (components : Components) (r : Reader) (quote : Option Char) :
    List (List Char) → List Value → Except MarkupError Reader
  | [], _ => .ok r
  | segment :: segments, values =>
    match r.read components (dropQuote quote segment), values with
    | .error e, _ => .error e
    | .ok r, [] => r.readAll components none segments []
    | .ok r, v :: values =>
      let (r, quote) := r.embed v
      r.readAll components quote segments values

/-- The items once every open element is closed, innermost first, with `last`
added as the last children of the innermost one. -/
def closeAll (components : Components) (items last : List Value) :
    List Frame → Except MarkupError (List Value)
  | [] => .ok (items ++ last)
  | f :: fs =>
    match f.tag.make components (f.children ++ last) with
    | .error e => .error e
    | .ok v => closeAll components items [v] fs

/-- The items of a template that has been read to its end. A text ends there and
every open element is closed; a tag that has not ended is dropped. -/
def finish (components : Components) (r : Reader) : Except MarkupError (List Value) :=
  let r := match r.place with
    | .text read => r.pushText read
    | _ => r
  closeAll components r.items [] r.frames

theorem read_cons (components : Components) (r : Reader) (c : Char) (cs : List Char) :
    r.read components (c :: cs) =
      match r.step components c cs.head? with
      | .error e => .error e
      | .ok (r, both) => r.read components (if both then cs.tail else cs) := by
  cases cs with
  | nil =>
    simp only [read, List.head?_nil, List.tail_nil, ite_self]
    cases r.step components c none <;> rfl
  | cons d cs =>
    simp only [read, List.head?_cons, List.tail_cons]
    rcases r.step components c (some d) with _ | ⟨r', _ | _⟩ <;> rfl

end Reader

end LiveMarkup.Template
