/-!
# Ranges of code points

A property of characters is a table of closed ranges of code points, in order
and apart from one another, and `Text.within` looks a code point up in it.
-/

namespace LiveMarkup.Text

/-- Whether a code point lies in one of the ranges. -/
def within (ranges : List (Nat × Nat)) (n : Nat) : Bool :=
  ranges.any fun r => r.1 ≤ n && n ≤ r.2

@[simp] theorem within_nil (n : Nat) : within [] n = false := rfl

theorem within_cons (r : Nat × Nat) (rs : List (Nat × Nat)) (n : Nat) :
    within (r :: rs) n = ((r.1 ≤ n && n ≤ r.2) || within rs n) := rfl

end LiveMarkup.Text
