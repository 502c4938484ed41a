import LiveMarkup.Number.Basic

/-!
# Reading numbers

A decimal is digits, perhaps with a point among them, perhaps with an exponent;
at least one digit stands before the exponent. Its value is a natural times a
power of ten, and `Number.ofDecimal` is the number nearest to that. Powers of
ten far outside the range of the format are decided by the number of digits
alone, before any power is computed.

The integer readers take an optional sign and ASCII digits only, and refuse a
value outside the bounds they are given.
-/

namespace LiveMarkup.Number

/-- How many digits a natural has, with none for zero. -/
def decimalLength (n : Nat) : Nat :=
  if n = 0 then 0 else (Nat.toDigits 10 n).length

/-- The ratio `m * 10 ^ e`. -/
def decimalRatio (m : Nat) (e : Int) : Nat × Nat :=
  if 0 ≤ e then (m * Nat.pow 10 e.toNat, 1) else (m, Nat.pow 10 (-e).toNat)

/-- The nearest number to `m * 10 ^ e`, by a given way to round a ratio. -/
def ofDecimalBy (round : Bool → Nat → Nat → Number) (negative : Bool) (m : Nat) (e : Int) :
    Number :=
  let top : Int := decimalLength m + e
  if m = 0 ∨ top < -400 then zero negative
  else if 400 < top then .infinite negative
  else
    let r := decimalRatio m e
    round negative r.1 r.2

/-- The number nearest to `m * 10 ^ e`. -/
def ofDecimal (negative : Bool) (m : Nat) (e : Int) : Number :=
  ofDecimalBy ofRatio negative m e

/-- The value of a run of ASCII digits. -/
def digitsValue (cs : List Char) : Nat :=
  cs.foldl (fun n c => 10 * n + (c.toNat - '0'.toNat)) 0

/-- The digits a text starts with, and the rest. -/
def spanDigits (cs : List Char) : List Char × List Char :=
  (cs.takeWhile Char.isDigit, cs.dropWhile Char.isDigit)

/-- A sign, if there is one, and the rest. -/
def cutSign : List Char → Bool × List Char
  | '-' :: cs => (true, cs)
  | '+' :: cs => (false, cs)
  | cs => (false, cs)

/-- The integer that a text of digits behind an optional sign stands for. -/
def readInt? (cs : List Char) : Option Int :=
  let (negative, digits) := cutSign cs
  if digits.isEmpty || !digits.all Char.isDigit then none
  else if negative then some (-(digitsValue digits : Int))
  else some (digitsValue digits)

/-- The integer that a text stands for, if it lies between two bounds. -/
def readIntBetween? (low high : Int) (s : String) : Option Int :=
  (readInt? s.toList).filter fun n => low ≤ n && n ≤ high

/-- The exponent that ends a decimal; nothing at all is the exponent zero. -/
def readExponent? : List Char → Option Int
  | [] => some 0
  | c :: cs => if c = 'e' ∨ c = 'E' then readInt? cs else none

/-- The natural and the power of ten of an unsigned decimal. -/
def readDecimal? (cs : List Char) : Option (Nat × Int) :=
  let (whole, rest) := spanDigits cs
  let (fraction, rest) := match rest with
    | '.' :: rest => spanDigits rest
    | rest => ([], rest)
  if whole.isEmpty && fraction.isEmpty then none
  else (readExponent? rest).map fun e => (digitsValue (whole ++ fraction), e - fraction.length)

/-- The number that a text stands for, by a given way to round a ratio. The
words for the values without digits may be written in either case. -/
def readBy? (round : Bool → Nat → Nat → Number) (s : String) : Option Number :=
  let (negative, cs) := cutSign s.toList
  let word := String.ofList (cs.map Char.toLower)
  if word = "nan" then some .nan
  else if word = "inf" ∨ word = "infinity" then some (.infinite negative)
  else (readDecimal? cs).map fun d => ofDecimalBy round negative d.1 d.2

/-- The number that a text stands for. -/
def read? (s : String) : Option Number :=
  readBy? ofRatio s

/-- The number of the single-width format that a text stands for. -/
def readSingle? (s : String) : Option Number :=
  readBy? ofRatioSingle s

/-- The bounds are kept. -/
theorem between_of_readIntBetween? {low high n : Int} {s : String}
    (h : readIntBetween? low high s = some n) : low ≤ n ∧ n ≤ high := by
  simp only [readIntBetween?, Option.filter_eq_some_iff, Bool.and_eq_true,
    decide_eq_true_eq] at h
  exact h.2

end LiveMarkup.Number
