import LiveMarkup.Number.Decimal

/-!
# Writing numbers

A number is written with the fewest digits that read back as the same number,
and with the nearest such digits; of two equally near, the greater. The digits
are always written in place, with zeros up to the point where they are needed,
and never with an exponent.

The reals that read back as `m * 2 ^ q` form an interval, whose ends count when
`m` is even. On the grid of the decimals with `k` digits only the two neighbours
of the number can be the nearest in the interval, so the first `k` at which one
of the two lies in the interval gives the digits. Everything is measured in
quarters of the last binary place, which keeps the ends of the interval whole.
-/

namespace LiveMarkup.Number

/-- The decimals that read back as one number: with `unit` worth a quarter of
the last binary place, all between `low` and `high` quarters, the two ends as
`closed` says. -/
structure Interval where
  low : Nat
  middle : Nat
  high : Nat
  unit : Nat × Nat
  closed : Bool

/-- The interval of a positive significand and its exponent. Below a power of
two the numbers lie twice as close. -/
def interval (m : Nat) (q : Int) : Interval where
  low := 4 * m - (if m = Nat.pow 2 (binary64.precision - 1) then 1 else 2)
  middle := 4 * m
  high := 4 * m + 2
  unit := scale 1 1 (2 - q)
  closed := m % 2 == 0

/-- Whether `n * 10 ^ e` lies in an interval. -/
def Interval.holds (i : Interval) (n : Nat) (e : Int) : Bool :=
  let d := decimalRatio n e
  let x := d.1 * i.unit.2
  let y := i.unit.1 * d.2
  if i.closed then i.low * y ≤ x && x ≤ i.high * y else i.low * y < x && x < i.high * y

/-- The decimal exponent of the middle of an interval: the least `d` with the
middle below `10 ^ d`. -/
def Interval.magnitude (i : Interval) : Int :=
  let n := i.middle * i.unit.1
  let d := i.unit.2
  if d ≤ n then decimalLength (n / d) else 1 - decimalLength ((d - 1) / n)

/-- The nearer of the two neighbours of the middle on the grid of the multiples
of `10 ^ e`, as far as they lie in the interval. -/
def Interval.nearest? (i : Interval) (e : Int) : Option Nat :=
  let g := decimalRatio 1 e
  let n := i.middle * i.unit.1 * g.2
  let d := i.unit.2 * g.1
  let below := n / d
  match i.holds below e, i.holds (below + 1) e with
  | true, true => some (if 2 * (n % d) < d then below else below + 1)
  | true, false => some below
  | false, true => some (below + 1)
  | false, false => none

/-- The first grid with a decimal in the interval, starting from the grid of the
multiples of `10 ^ e` and going on to `steps` finer ones. -/
def Interval.digits (i : Interval) (e : Int) : Nat → Nat × Int
  | 0 => (0, e)
  | steps + 1 =>
    match i.nearest? e with
    | some n => (n, e)
    | none => i.digits (e - 1) steps

/-- The fewest and nearest digits of a positive significand and its exponent, as
a natural and a power of ten. Seventeen digits always suffice. -/
def shortest (m : Nat) (q : Int) : Nat × Int :=
  let i := interval m q
  i.digits (i.magnitude - 1) 18

/-- Digits without the zeros at their end, with the power of ten raised to
match. -/
def dropZeros (digits : List Char) (e : Int) : List Char × Int :=
  let kept := (digits.reverse.dropWhile (· == '0')).reverse
  (kept, e + (digits.length - kept.length : Nat))

/-- The digits of a natural times a power of ten, written in place. -/
def placed (n : Nat) (e : Int) : List Char :=
  let (digits, e) := dropZeros (Nat.toDigits 10 n) e
  if 0 ≤ e then digits ++ List.replicate e.toNat '0'
  else
    let places := (-e).toNat
    let padded := List.replicate (places + 1 - digits.length) '0' ++ digits
    padded.take (padded.length - places) ++ '.' :: padded.drop (padded.length - places)

/-- The sign of a number, if it shows. -/
def signText (negative : Bool) : List Char :=
  if negative then ['-'] else []

/-- The text of a number. -/
def text : Number → String
  | .nan => "NaN"
  | .infinite negative => if negative then "-Infinity" else "Infinity"
  | .finite negative m q _ =>
    if m = 0 then String.ofList (signText negative ++ ['0'])
    else
      let (n, e) := shortest m q
      String.ofList (signText negative ++ placed n e)

end LiveMarkup.Number
