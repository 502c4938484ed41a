/-!
# Binary floating-point numbers

A `Number` is a value of the binary64 interchange format: not a number, an
infinity, or `±m * 2 ^ q` in canonical form, where the significand `m` uses all
53 bits unless the exponent `q` is already the least one. The proof of that form
is part of the number, so two finite numbers have the same value exactly when
they have the same parts, the two zeros aside.

`Number.ofRatio` rounds a ratio to the nearest number, with a tie going to the
even significand. It works on naturals throughout, so nothing is lost on the
way, and it is written for any binary format, because a binary32 value is
rounded in its own format before it is widened.
-/

namespace LiveMarkup

/-- A binary format: how many bits a significand has and between which exponents
it is scaled. -/
structure BinaryFormat where
  precision : Nat
  minExponent : Int
  maxExponent : Int

/-- The format of every number here. -/
def binary64 : BinaryFormat := ⟨53, -1074, 971⟩

/-- The single-width format, from which numbers may be widened. -/
def binary32 : BinaryFormat := ⟨24, -149, 104⟩

/-- A significand and an exponent in the form that no other pair of the same
value has. -/
def BinaryFormat.IsCanonical (f : BinaryFormat) (m : Nat) (q : Int) : Prop :=
  m < Nat.pow 2 f.precision ∧ f.minExponent ≤ q ∧ q ≤ f.maxExponent ∧
    (q = f.minExponent ∨ Nat.pow 2 (f.precision - 1) ≤ m)

instance (f : BinaryFormat) (m : Nat) (q : Int) : Decidable (f.IsCanonical m q) :=
  inferInstanceAs (Decidable (_ ∧ _ ∧ _ ∧ _))

/-- A number: not a number, an infinity, or a sign with a canonical significand
and exponent. -/
inductive Number where
  | nan
  | infinite (negative : Bool)
  | finite (negative : Bool) (m : Nat) (q : Int) (canonical : binary64.IsCanonical m q)
  deriving DecidableEq

namespace Number

/-- The zero of either sign. -/
def zero (negative : Bool) : Number :=
  .finite negative 0 binary64.minExponent (by decide)

instance : Inhabited Number := ⟨zero false⟩

/-- Whether a number is one of the two zeros. -/
def isZero : Number → Bool
  | .finite _ m _ _ => m == 0
  | _ => false

/-- Whether two numbers count as the same value: the zeros do, and so do two
values that are not numbers. -/
def same (x y : Number) : Bool :=
  x == y || (x.isZero && y.isZero)

/-- The sign and the parts as a number; a value out of range is infinite. -/
def ofParts (negative : Bool) (m : Nat) (q : Int) : Number :=
  if h : binary64.IsCanonical m q then .finite negative m q h else .infinite negative

/-- A quotient rounded to the nearest natural, a tie going to the even one. -/
def roundQuotient (n d : Nat) : Nat :=
  let q := n / d
  let r := n % d
  if 2 * r < d then q
  else if d < 2 * r then q + 1
  else q + q % 2

/-- The ratio `n / d` divided by a power of two, as a ratio. -/
def scale (n d : Nat) (e : Int) : Nat × Nat :=
  if 0 ≤ e then (n, d * Nat.pow 2 e.toNat) else (n * Nat.pow 2 (-e).toNat, d)

/-- The significand and exponent nearest to a positive ratio, in a format which
has no greatest exponent. The exponent is the one that gives the quotient the
format's full precision, or the least one where that is greater. -/
def roundRatio (f : BinaryFormat) (n d : Nat) : Nat × Int :=
  let p := f.precision
  let l : Int := (n.log2 : Int) - d.log2
  let s := scale n d (l - (p - 1))
  let e := max f.minExponent (if s.1 < s.2 * Nat.pow 2 (p - 1) then l - p else l - (p - 1))
  let t := scale n d e
  let m := roundQuotient t.1 t.2
  if m = Nat.pow 2 p then (Nat.pow 2 (p - 1), e + 1) else (m, e)

/-- The number nearest to a ratio. -/
def ofRatio (negative : Bool) (n d : Nat) : Number :=
  if n = 0 then zero negative
  else
    let r := roundRatio binary64 n d
    ofParts negative r.1 r.2

/-- The number nearest to a ratio among those of the single-width format. -/
def ofRatioSingle (negative : Bool) (n d : Nat) : Number :=
  if n = 0 then zero negative
  else
    let r := roundRatio binary32 n d
    if binary32.maxExponent < r.2 then .infinite negative
    else
      let s := scale r.1 1 (-r.2)
      ofRatio negative s.1 s.2

/-- The number nearest to an integer. -/
def ofInt (n : Int) : Number :=
  ofRatio (n < 0) n.natAbs 1

theorem same_refl (x : Number) : x.same x = true := by
  simp [same]

theorem same_comm (x y : Number) : x.same y = y.same x := by
  simp [same, Bool.and_comm, BEq.comm (a := x)]

theorem same_trans {x y z : Number} (h : x.same y = true) (h' : y.same z = true) :
    x.same z = true := by
  simp only [same, Bool.or_eq_true, beq_iff_eq, Bool.and_eq_true] at *
  rcases h with rfl | ⟨hx, hy⟩ <;> rcases h' with rfl | ⟨hy', hz⟩ <;> simp_all

end Number

end LiveMarkup
