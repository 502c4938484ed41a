/-!
# Random ids

A random id is drawn letter by letter from the small ASCII letters and the
digits. Where the choices come from is up to the caller: `ofChoices` takes any
stream of naturals and `draw` makes one with a generator.
-/

namespace LiveMarkup.RandomId

/-- The letters of an id. -/
def alphabet : List Char :=
  "abcdefghijklmnopqrstuvwxyz0123456789".toList

/-- The length of an id when none is given. -/
def defaultLength : Nat := 15

/-- The letter that a natural chooses. -/
def letter (n : Nat) : Char :=
  alphabet.getD (n % alphabet.length) 'a'

/-- The id that a list of naturals chooses. -/
def ofChoices (choices : List Nat) : String :=
  String.ofList (choices.map letter)

/-- A number of naturals from a generator. -/
def choices : Nat → StdGen → List Nat
  | 0, _ => []
  | n + 1, g =>
    let (k, g) := randNat g 0 (alphabet.length - 1)
    k :: choices n g

/-- An id of a given length from a generator. -/
def draw (length : Nat) (g : StdGen) : String :=
  ofChoices (choices length g)

theorem letter_mem (n : Nat) : letter n ∈ alphabet := by
  have h : n % alphabet.length < alphabet.length := Nat.mod_lt _ (by decide)
  simp [letter, List.getD_eq_getElem?_getD, h]

theorem length_choices (n : Nat) (g : StdGen) : (choices n g).length = n := by
  induction n generalizing g with
  | zero => rfl
  | succ n ih => simp [choices, ih]

/-- An id has the length asked for. -/
theorem length_draw (n : Nat) (g : StdGen) : (draw n g).length = n := by
  simp [draw, ofChoices, length_choices]

end LiveMarkup.RandomId
