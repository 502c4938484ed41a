import LiveMarkup.Text.Split

/-!
# Names in namespaces

Elements and attributes are named by a local name in a namespace, which is known
by its address. A name may carry the prefix that stands for its namespace in a
text, and names that differ in it alone are different names.

A tag names an element by one rule: what stands before a colon picks the
namespace and what stands after it, up to another colon, is the local name,
provided the part before takes at least two bytes. A tag without such a part is
a local name as it stands, in the namespace registered for the whole tag, so
`svg` alone opens an SVG tree. Unregistered parts and tags give HTML elements.

Attributes are named in the null namespace. It has no address that a prefix could
stand for, so a name in it has no prefix: it is the name that its local name
gives.
-/

namespace LiveMarkup

/-- A namespace, by the address that identifies it. -/
structure Namespace where
  uri : String
  deriving DecidableEq

namespace Namespace

/-- The namespace without an address. -/
def null : Namespace := ⟨""⟩

def html : Namespace := ⟨"http://www.w3.org/1999/xhtml"⟩

def svg : Namespace := ⟨"http://www.w3.org/2000/svg"⟩

def xlink : Namespace := ⟨"http://www.w3.org/1999/xlink"⟩

def xml : Namespace := ⟨"http://www.w3.org/XML/1998/namespace"⟩

def xmlns : Namespace := ⟨"http://www.w3.org/2000/xmlns/"⟩

/-- The namespace registered for the part of a tag before the colon. -/
def registered? (tag : String) : Option Namespace :=
  if tag = "svg" then some svg
  else if tag = "xhtml" then some html
  else if tag = "xlink" then some xlink
  else if tag = "xml" then some xml
  else if tag = "xmlns" then some xmlns
  else none

end Namespace

/-- A local name in a namespace, with the prefix that stands for the namespace, if any
does. -/
structure Name where
  qualified ::
  qualifier? : Option String
  space : Namespace
  localName : String
  deriving DecidableEq

namespace Name

/-- A name without a prefix. -/
def mk (space : Namespace) (localName : String) : Name where
  qualifier? := none
  space := space
  localName := localName

/-- The name of an attribute in the null namespace. -/
def ofAttribute (name : String) : Name :=
  mk .null name

/-- A name in the null namespace is the one that its local name gives an attribute. -/
def InNullNamespace (n : Name) : Prop :=
  ofAttribute n.localName = n
  deriving Decidable

theorem inNullNamespace_iff {n : Name} :
    n.InNullNamespace ↔ n.qualifier? = none ∧ n.space = .null := by
  obtain ⟨qualifier?, space, localName⟩ := n
  simp [InNullNamespace, ofAttribute, mk, eq_comm]

@[simp] theorem localName_ofAttribute (name : String) : (ofAttribute name).localName = name :=
  rfl

theorem ofAttribute_injective : Function.Injective ofAttribute :=
  Function.LeftInverse.injective localName_ofAttribute

/-- A tag as a local name in the namespace registered for all of it. -/
def ofPlainTag (tag : String) : Name :=
  mk ((Namespace.registered? tag).getD .html) tag

/-- The part before the first colon and the local name after it, if the part
takes more than one byte. -/
def cutTag? (tag : String) : Option (String × String) :=
  match Text.cutAt ':' tag.toList with
  | some (before, after) =>
    let space := String.ofList before
    if 1 < space.utf8ByteSize then some (space, String.ofList (after.takeWhile (· ≠ ':')))
    else none
  | none => none

/-- The name of the element that a tag stands for. -/
def ofTag (tag : String) : Name :=
  match cutTag? tag with
  | some (space, name) => mk ((Namespace.registered? space).getD .html) name
  | none => ofPlainTag tag

end Name

end LiveMarkup
