import LiveMarkup.Number.Shortest
import Mathlib.Data.List.TakeWhile
import Mathlib.Data.Nat.Log
import Mathlib.Tactic.Ring

/-!
# Whole numbers are written as integers

An integer of at most 53 bits is a number without loss, and its text is the text of the
integer (`Number.text_ofInt`). The digits found need not be those of the integer, for
zeros at its end may be left to the power of ten; but the only whole number near enough
to be read back as `v` is `v` itself, so whatever digits are found on a grid of whole
numbers are those of `v` once they are written in place.
-/

namespace LiveMarkup.Number

/-! ## Digits in place -/

theorem toDigits_mul_pow {n : Nat} (hn : 0 < n) (k : Nat) :
    Nat.toDigits 10 (n * 10 ^ k) = Nat.toDigits 10 n ++ List.replicate k '0' := by
  induction k with
  | zero => simp
  | succ k ih =>
      have hpos : 0 < n * 10 ^ k := Nat.mul_pos hn (Nat.pow_pos (by decide))
      have hmul : n * 10 ^ (k + 1) = 10 * (n * 10 ^ k) + 0 := by ring
      rw [hmul, ← Nat.toDigits_append_toDigits (by decide) hpos (by decide), ih,
        Nat.toDigits_zero, List.append_assoc, List.replicate_succ']

/-- What is dropped are zeros, and the power of ten counts them. -/
theorem dropZeros_eq (digits : List Char) (e : Int) :
    ∃ (kept : List Char) (z : Nat), dropZeros digits e = (kept, e + z) ∧
      digits = kept ++ List.replicate z '0' := by
  have hzeros : ∀ c ∈ digits.reverse.takeWhile (· == '0'), c = '0' := fun c hc =>
    eq_of_beq (List.mem_takeWhile_imp (p := (· == '0')) hc)
  have hdigits : digits = (digits.reverse.dropWhile (· == '0')).reverse ++
      List.replicate (digits.reverse.takeWhile (· == '0')).length '0' := by
    rw [← List.reverse_replicate, ← List.eq_replicate_of_mem hzeros, ← List.reverse_append,
      List.takeWhile_append_dropWhile, List.reverse_reverse]
  have hlength := congrArg List.length hdigits
  rw [List.length_append, List.length_replicate] at hlength
  rw [Nat.eq_sub_of_add_eq' hlength.symm] at hdigits
  exact ⟨_, _, rfl, hdigits⟩

/-- Digits times a power of ten that is whole are written without a point. -/
theorem placed_natCast {n : Nat} (hn : 0 < n) (k : Nat) :
    placed n k = Nat.toDigits 10 (n * 10 ^ k) := by
  obtain ⟨kept, z, hdrop, hdigits⟩ := dropZeros_eq (Nat.toDigits 10 n) k
  have hnonneg : (0 : Int) ≤ k + z := by omega
  have htoNat : ((k : Int) + z).toNat = z + k := by omega
  rw [placed, hdrop]
  dsimp only
  rw [if_pos hnonneg, htoNat, ← List.replicate_append_replicate, ← List.append_assoc, ← hdigits,
    toDigits_mul_pow hn]

/-! ## Intervals around whole numbers -/

/-- An interval of at most one half to either side of a natural. -/
structure Interval.Around (v : Nat) (i : Interval) : Prop where
  scale : i.unit.1 = 1
  fine : 4 ≤ i.unit.2
  middle : i.middle = v * i.unit.2
  low_lt : i.low < i.middle
  lt_high : i.middle < i.high
  near_low : i.middle ≤ i.low + 2
  near_high : i.high ≤ i.middle + 2

theorem eq_of_mul_near {v w u : Nat} (hu : 4 ≤ u) (hlow : v * u ≤ w * u + 2)
    (hhigh : w * u ≤ v * u + 2) : w = v := by
  rcases Nat.lt_trichotomy w v with h | h | h
  · have := Nat.mul_le_mul_right u (Nat.succ_le_of_lt h)
    rw [Nat.succ_mul] at this
    omega
  · exact h
  · have := Nat.mul_le_mul_right u (Nat.succ_le_of_lt h)
    rw [Nat.succ_mul] at this
    omega

namespace Interval.Around

variable {v : Nat} {i : Interval}

/-- The natural is the only whole number in the interval. -/
theorem holds_iff (h : i.Around v) (n k : Nat) : i.holds n k = true ↔ n * 10 ^ k = v := by
  have hratio : decimalRatio n k = (n * 10 ^ k, 1) := if_pos (Int.natCast_nonneg k)
  have hholds : i.holds n k =
      if i.closed then i.low ≤ n * 10 ^ k * i.unit.2 && n * 10 ^ k * i.unit.2 ≤ i.high
      else i.low < n * 10 ^ k * i.unit.2 && n * 10 ^ k * i.unit.2 < i.high := by
    rw [holds, hratio, h.scale]
    simp
  have hmiddle := h.middle
  have hlow := h.low_lt
  have hhigh := h.lt_high
  have hnl := h.near_low
  have hnh := h.near_high
  rw [hholds]
  constructor
  · intro hin
    have hbetween : i.low ≤ n * 10 ^ k * i.unit.2 ∧ n * 10 ^ k * i.unit.2 ≤ i.high := by
      split at hin <;> simp only [Bool.and_eq_true, decide_eq_true_eq] at hin <;> omega
    exact eq_of_mul_near h.fine (by omega) (by omega)
  · rintro rfl
    rw [← hmiddle]
    split <;> simp only [Bool.and_eq_true, decide_eq_true_eq] <;> omega

/-- On a grid of whole numbers nothing but the natural is found. -/
theorem of_nearest? (h : i.Around v) {n k : Nat} (hn : i.nearest? k = some n) : n * 10 ^ k = v := by
  rw [← h.holds_iff]
  unfold nearest? at hn
  dsimp only at hn
  grind

/-- On the grid of all whole numbers the natural is found. -/
theorem nearest?_zero (h : i.Around v) : i.nearest? 0 = some v := by
  have hu : 0 < i.unit.2 := Nat.lt_of_lt_of_le (by decide) h.fine
  have hratio : decimalRatio 1 0 = (1, 1) := rfl
  have hbelow : i.holds v 0 = true := (h.holds_iff v 0).2 (by simp)
  have hquot : i.middle / i.unit.2 = v := by rw [h.middle, Nat.mul_div_cancel _ hu]
  have hrem : i.middle % i.unit.2 = 0 := by rw [h.middle, Nat.mul_mod_left]
  rw [nearest?, hratio, h.scale]
  simp only [Nat.mul_one, hquot, hrem, hbelow]
  split <;> simp_all

/-- Going from a grid of whole numbers to finer ones, the digits of the natural are
found. -/
theorem digits_eq (h : i.Around v) : ∀ {k steps : Nat}, k < steps →
    ∃ n j : Nat, i.digits k steps = (n, (j : Int)) ∧ n * 10 ^ j = v
  | k, steps + 1, hk => by
      rw [digits]
      cases hn : i.nearest? k with
      | some n => exact ⟨n, k, rfl, h.of_nearest? hn⟩
      | none =>
          cases k with
          -- The natural is on the grid of all whole numbers, so no finer one is needed.
          | zero =>
              rw [Int.ofNat_zero, h.nearest?_zero] at hn
              cases hn
          | succ k =>
              have hprev : ((k + 1 : Nat) : Int) - 1 = k := by omega
              dsimp only
              rw [hprev]
              exact h.digits_eq (Nat.lt_of_succ_lt_succ hk)

theorem magnitude_eq (h : i.Around v) (hv : 0 < v) : i.magnitude = decimalLength v := by
  have hu : 0 < i.unit.2 := Nat.lt_of_lt_of_le (by decide) h.fine
  have hle : i.unit.2 ≤ i.middle := h.middle ▸ Nat.le_mul_of_pos_left _ hv
  rw [magnitude, h.scale]
  simp only [Nat.mul_one]
  rw [if_pos hle, h.middle, Nat.mul_div_cancel _ hu]

end Interval.Around

/-! ## Integers -/

theorem scale_of_nonpos (n d : Nat) {e : Int} (he : e ≤ 0) :
    scale n d e = (n * 2 ^ (-e).toNat, d) := by
  unfold scale
  split
  · obtain rfl : e = 0 := by omega
    simp
  · rfl

/-- The significand of a natural of at most 53 bits uses all of them. -/
theorem significand_bounds {v : Nat} (hv : v ≠ 0) (hlt : v < 2 ^ 53) :
    v.log2 ≤ 52 ∧ 2 ^ 52 ≤ v * 2 ^ (52 - v.log2) ∧ v * 2 ^ (52 - v.log2) < 2 ^ 53 := by
  have hlog : v.log2 < 53 := (Nat.log2_lt hv).2 hlt
  have hlow : 2 ^ v.log2 ≤ v := Nat.log2_self_le hv
  have hhigh : v < 2 ^ (v.log2 + 1) := Nat.lt_log2_self
  have hpos : 0 < 2 ^ (52 - v.log2) := Nat.pow_pos (by decide)
  refine ⟨by omega, ?_, ?_⟩
  · calc
      2 ^ 52 = 2 ^ v.log2 * 2 ^ (52 - v.log2) := by rw [← Nat.pow_add]; congr 1; omega
      _ ≤ v * 2 ^ (52 - v.log2) := Nat.mul_le_mul_right _ hlow
  · calc
      v * 2 ^ (52 - v.log2) < 2 ^ (v.log2 + 1) * 2 ^ (52 - v.log2) :=
        Nat.mul_lt_mul_of_pos_right hhigh hpos
      _ = 2 ^ 53 := by rw [← Nat.pow_add]; congr 1; omega

/-- A natural of at most 53 bits is a number as it is. -/
theorem roundRatio_one {v : Nat} (hv : v ≠ 0) (hlt : v < 2 ^ 53) :
    roundRatio binary64 v 1 = (v * 2 ^ (52 - v.log2), (v.log2 : Int) - 52) := by
  obtain ⟨hlog, hlow, hhigh⟩ := significand_bounds hv hlt
  have hnonpos : (v.log2 : Int) - 52 ≤ 0 := by omega
  have htoNat : (-((v.log2 : Int) - 52)).toNat = 52 - v.log2 := by omega
  have hscale : scale v 1 ((v.log2 : Int) - 52) = (v * 2 ^ (52 - v.log2), 1) := by
    rw [scale_of_nonpos v 1 hnonpos, htoNat]
  have hround : ∀ n, roundQuotient n 1 = n := fun n => by simp [roundQuotient, Nat.mod_one]
  have hlength : (v.log2 : Int) - Nat.log2 1 - ((binary64.precision : Nat) - 1) =
      (v.log2 : Int) - 52 := by
    rw [show Nat.log2 1 = 0 from rfl, show binary64.precision = 53 from rfl]
    omega
  have hfull : ¬v * 2 ^ (52 - v.log2) < 1 * Nat.pow 2 (binary64.precision - 1) := by
    rw [Nat.one_mul]
    exact Nat.not_lt.2 hlow
  have hmax : max binary64.minExponent ((v.log2 : Int) - 52) = (v.log2 : Int) - 52 :=
    max_eq_right (by simp only [binary64]; omega)
  have hcarry : v * 2 ^ (52 - v.log2) ≠ Nat.pow 2 binary64.precision := Nat.ne_of_lt hhigh
  unfold roundRatio
  dsimp only
  rw [hlength, hscale]
  dsimp only
  rw [if_neg hfull, hmax, hscale]
  dsimp only
  rw [hround, if_neg hcarry]

theorem around_interval {v l : Nat} (hv : 0 < v) (hl : l ≤ 52) :
    (interval (v * 2 ^ (52 - l)) ((l : Int) - 52)).Around v := by
  have hunit : scale 1 1 (2 - ((l : Int) - 52)) = (1, 2 ^ (54 - l)) := by
    have hnonneg : (0 : Int) ≤ 2 - ((l : Int) - 52) := by omega
    have htoNat : (2 - ((l : Int) - 52)).toNat = 54 - l := by omega
    rw [scale, if_pos hnonneg, htoNat, Nat.one_mul]
    rfl
  have hpow : 2 ^ (54 - l) = 4 * 2 ^ (52 - l) := by
    rw [show 54 - l = 52 - l + 2 by omega, Nat.pow_add, Nat.mul_comm]
  have hpos : 0 < v * 2 ^ (52 - l) := Nat.mul_pos hv (Nat.pow_pos (by decide))
  have hmiddle : 4 * (v * 2 ^ (52 - l)) = v * 2 ^ (54 - l) := by rw [hpow]; ring
  have hfine : 4 ≤ 2 ^ (54 - l) := hpow ▸ Nat.le_mul_of_pos_right 4 (Nat.pow_pos (by decide))
  constructor
  case scale => exact congrArg Prod.fst hunit
  case fine => exact hfine.trans_eq (congrArg Prod.snd hunit).symm
  case middle => exact hmiddle.trans (congrArg (v * ·) (congrArg Prod.snd hunit).symm)
  all_goals
    unfold interval
    dsimp only
    try split
  all_goals omega

/-- The text of a natural of at most 53 bits is that of its digits. -/
theorem text_ofRatio_one (negative : Bool) {v : Nat} (hv : v ≠ 0) (hlt : v < 2 ^ 53) :
    (ofRatio negative v 1).text = String.ofList (signText negative ++ Nat.toDigits 10 v) := by
  obtain ⟨hlog, hlow, hhigh⟩ := significand_bounds hv hlt
  have hcanonical : binary64.IsCanonical (v * 2 ^ (52 - v.log2)) ((v.log2 : Int) - 52) := by
    refine ⟨hhigh, ?_, ?_, Or.inr hlow⟩ <;> simp only [binary64] <;> omega
  have haround := around_interval (Nat.pos_of_ne_zero hv) hlog
  obtain ⟨k, hk, hlength⟩ : ∃ k < 18, decimalLength v = k + 1 := by
    have hshort : (Nat.toDigits 10 v).length ≤ 18 :=
      (Nat.length_toDigits_le_iff (by decide) (by decide)).2 (hlt.trans (by decide))
    have hpos : 0 < (Nat.toDigits 10 v).length := Nat.length_toDigits_pos
    refine ⟨(Nat.toDigits 10 v).length - 1, by omega, ?_⟩
    rw [decimalLength, if_neg hv]
    omega
  obtain ⟨n, j, hdigits, hvalue⟩ := haround.digits_eq hk
  have hshortest : shortest (v * 2 ^ (52 - v.log2)) ((v.log2 : Int) - 52) = (n, (j : Int)) := by
    rw [← hdigits, shortest, haround.magnitude_eq (Nat.pos_of_ne_zero hv), hlength]
    congr 1
    omega
  have hn : 0 < n := Nat.pos_of_ne_zero fun h => hv (by rw [← hvalue, h, Nat.zero_mul])
  have hne : v * 2 ^ (52 - v.log2) ≠ 0 := by omega
  rw [ofRatio, if_neg hv, roundRatio_one hv hlt]
  dsimp only
  rw [ofParts, dif_pos hcanonical, text]
  dsimp only
  rw [if_neg hne, hshortest]
  dsimp only
  rw [placed_natCast hn, hvalue]

/-- An integer of at most 53 bits is written as an integer. -/
theorem text_ofInt {n : Int} (hn : n.natAbs < 2 ^ 53) : (ofInt n).text = toString n := by
  by_cases h0 : n.natAbs = 0
  · obtain rfl : n = 0 := Int.natAbs_eq_zero.1 h0
    rfl
  · rw [ofInt, text_ofRatio_one _ h0 hn]
    cases n with
    | ofNat n =>
        have hpos : decide (Int.ofNat n < 0) = false := decide_eq_false (Int.not_ofNat_neg n)
        rw [hpos]
        exact Nat.toString_eq_ofList_toDigits.symm
    | negSucc n =>
        have hneg : decide (Int.negSucc n < 0) = true := decide_eq_true (Int.negSucc_lt_zero n)
        have htext : toString (Int.negSucc n) = "-" ++ toString (n + 1) := rfl
        rw [hneg, htext, Nat.toString_eq_ofList_toDigits]
        exact String.ofList_append

example : (ofInt (-1200)).text = "-1200" := by decide

end LiveMarkup.Number
