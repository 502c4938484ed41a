import LiveMarkup.Text.Quoted

/-!
# States, queues and emitters in words

How the things that scripts work on are written out: a type's name with its parts
in braces, each part behind its name.
-/

namespace LiveMarkup.Shown

/-- The key of a listener. -/
def key (n : Nat) : String :=
  "ListenerId(" ++ toString n ++ ")"

/-- A type's name with named parts. -/
def record (type : String) (parts : List (String × String)) : String :=
  type ++ " \x7b " ++ ", ".intercalate (parts.map fun p => p.1 ++ ": " ++ p.2) ++ " \x7d"

/-- A list of things that are written out. -/
def list (items : List String) : String :=
  "[" ++ ", ".intercalate items ++ "]"

/-- A queue by how many tasks it holds. -/
def queue (length : Nat) : String :=
  record "MicrotaskQueue" [("len", toString length)]

/-- A state by its value, and how many changes wait and how many listeners there
are. -/
def state (value : String) (pending listeners : Nat) : String :=
  record "State"
    [("value", value), ("pending", toString pending), ("listeners", toString listeners)]

/-- An emitter by how many listeners each name has. -/
def emitter (counts : List (String × Nat)) : String :=
  record "Emitter"
    [("listeners", "\x7b" ++
      ", ".intercalate (counts.map fun c => Text.quoted c.1 ++ ": " ++ toString c.2) ++ "\x7d")]

end LiveMarkup.Shown
