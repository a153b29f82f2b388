import LoxLang.Decimal.Shortest
import Mathlib.Algebra.Order.Field.Rat
import Mathlib.Tactic.FieldSimp
import Mathlib.Tactic.Positivity
import Mathlib.Tactic.Linarith
import Mathlib.Tactic.Ring
import Mathlib.Tactic.SplitIfs

/-!
# What the shortest decimal is like

The search for the shortest decimal of a double never fails: a grid of seventeen digits has a point in
every interval (`Interval.exists_candidate`).  So the decimal it finds is in the interval of the double and
has at most seventeen places (`shortest_spec`).  From this follows on which side of the point its last digit
stands: a double with a fraction part has a decimal with one (`exponent_shortest_neg`), and a large
double has not (`exponent_shortest_nonneg`).

The interval and the decimal are compared as rational numbers.
-/

namespace LoxLang

namespace Decimal

/-! ### The leading digit -/

theorem lt_pow_digitCount (n : Nat) : n < 10 ^ digitCount n :=
  (Nat.length_toDigits_le_iff (by decide) Nat.length_toDigits_pos).1 (Nat.le_refl _)

theorem pow_le_of_lt_digitCount {n k : Nat} (hn : 0 < n) (h : k < digitCount n) : 10 ^ k ≤ n := by
  rcases Nat.eq_zero_or_pos k with rfl | hk
  · exact hn
  · exact Nat.le_of_not_lt fun hlt =>
      Nat.not_le_of_lt h ((Nat.length_toDigits_le_iff (by decide) hk).2 hlt)

theorem lt_digitCount_of_pow_le {n k : Nat} (h : 10 ^ k ≤ n) : k < digitCount n := by
  rcases Nat.eq_zero_or_pos k with rfl | hk
  · exact Nat.length_toDigits_pos
  · exact Nat.lt_of_not_le fun hle =>
      Nat.not_lt_of_le h ((Nat.length_toDigits_le_iff (by decide) hk).1 hle)

/-- The power of ten of the leading digit is not above the number. -/
theorem pow_leadingExponent_le {num den : Nat} (hnum : 0 < num) (hden : 0 < den) :
    (10 : ℚ) ^ leadingExponent num den * den ≤ num := by
  unfold leadingExponent
  split_ifs with h
  · have hq : 0 < num / den := Nat.div_pos h hden
    have hpos : 0 < digitCount (num / den) := Nat.length_toDigits_pos
    obtain ⟨k, hk⟩ := Nat.exists_eq_succ_of_ne_zero hpos.ne'
    have hle : 10 ^ k ≤ num / den := pow_le_of_lt_digitCount hq (hk ▸ Nat.lt_succ_self k)
    have hmul : 10 ^ k * den ≤ num := (Nat.mul_le_mul_right den hle).trans (Nat.div_mul_le_self num den)
    have hexp : ((digitCount (num / den) : Int) - 1) = k := by rw [hk]; omega
    rw [hexp, zpow_natCast]
    exact_mod_cast hmul
  · have hlt : (den - 1) / num < 10 ^ digitCount ((den - 1) / num) := lt_pow_digitCount _
    generalize digitCount ((den - 1) / num) = k at hlt
    have hmul : den ≤ 10 ^ k * num := by
      have := (Nat.div_lt_iff_lt_mul hnum).1 hlt
      omega
    rw [zpow_neg, zpow_natCast, inv_mul_le_iff₀ (by positivity)]
    exact_mod_cast hmul

/-- A number of at least `10 ^ k` has its leading digit there or further to the left. -/
theorem le_leadingExponent {num den k : Nat} (hden : 0 < den) (h : 10 ^ k * den ≤ num) :
    (k : Int) ≤ leadingExponent num den := by
  have hle : den ≤ num := (Nat.le_mul_of_pos_left den (Nat.pow_pos (by decide))).trans h
  have hk := lt_digitCount_of_pow_le ((Nat.le_div_iff_mul_le hden).2 h)
  rw [leadingExponent, if_pos hle]
  omega

/-! ### Decimals in an interval -/

/-- The number that the decimal stands for. -/
def Numeral.value (d : Numeral) : ℚ := d.digits * 10 ^ d.exponent

/-- The number lies between the ends of the interval. -/
def Interval.Contains (i : Interval) (q : ℚ) : Prop := i.low ≤ q * i.den ∧ q * i.den ≤ i.high

theorem trim_spec (fuel : Nat) (d : Numeral) :
    (d.trim fuel).value = d.value ∧ d.exponent ≤ (d.trim fuel).exponent := by
  induction fuel generalizing d with
  | zero => exact ⟨rfl, Int.le_refl _⟩
  | succ fuel ih =>
    rw [Numeral.trim]
    split_ifs with h
    · obtain ⟨hvalue, hexp⟩ := ih ⟨d.digits / 10, d.exponent + 1⟩
      refine ⟨?_, by dsimp only at hexp; omega⟩
      have hten : d.digits / 10 * 10 = d.digits := by
        simp only [Bool.and_eq_true, bne_iff_ne, beq_iff_eq] at h
        omega
      calc (Numeral.trim fuel ⟨d.digits / 10, d.exponent + 1⟩).value
          = ((d.digits / 10 : Nat) : ℚ) * 10 ^ (d.exponent + 1) := hvalue
        _ = ((d.digits / 10 * 10 : Nat) : ℚ) * 10 ^ d.exponent := by
          rw [zpow_add_one₀ (by norm_num)]
          push_cast
          ring
        _ = d.value := by rw [hten]; rfl
    · exact ⟨rfl, Int.le_refl _⟩

/-- A power of ten is the quotient of two of which one is `1`. -/
theorem pow_toNat (e : Int) : (10 : ℚ) ^ e * (10 ^ (-e).toNat : Nat) = (10 ^ e.toNat : Nat) := by
  rcases Int.le_total 0 e with h | h
  · obtain ⟨k, rfl⟩ := Int.eq_ofNat_of_zero_le h
    simp
  · obtain ⟨k, hk⟩ := Int.eq_ofNat_of_zero_le (a := -e) (by omega)
    obtain rfl : e = -k := by omega
    simp [zpow_neg]

namespace Interval

/-- The step of the grid of multiples of `10 ^ e`, as a multiple of the unit in which the interval is
given once its ends are scaled by `10 ^ (-e)`. -/
def step (i : Interval) (e : Int) : Nat := 10 ^ e.toNat * i.den

/-- The `n`-th grid point is not zero and lies in the interval. -/
def fits (i : Interval) (e : Int) (n : Nat) : Bool :=
  n != 0 && Interval.holds ⟨i.low * 10 ^ (-e).toNat, i.value * 10 ^ (-e).toNat,
    i.high * 10 ^ (-e).toNat, i.step e, i.closed⟩ (n * i.step e)

variable {i : Interval} {tie : Tie} {e : Int}

/-- What the search on one grid finds is a point of the grid that fits. -/
theorem fits_of_candidate? {d : Numeral} (h : i.candidate? tie e = some d) :
    d.exponent = e ∧ i.fits e d.digits = true := by
  unfold candidate? at h
  dsimp only at h
  split at h
  · cases h
  · next hfloor _ => cases h; exact ⟨rfl, hfloor⟩
  · next _ hnext => cases h; exact ⟨rfl, hnext⟩
  · next hfloor hnext =>
    -- both neighbours fit, and one of them is taken
    cases tie <;> split_ifs at h <;> cases h
    all_goals first | exact ⟨rfl, hfloor⟩ | exact ⟨rfl, hnext⟩

/-- If the search on one grid finds nothing, neither neighbour of the value fits. -/
theorem not_fits_of_candidate? (h : i.candidate? tie e = none) :
    i.fits e (i.value * 10 ^ (-e).toNat / i.step e) = false ∧
      i.fits e (i.value * 10 ^ (-e).toNat / i.step e + 1) = false := by
  unfold candidate? at h
  dsimp only at h
  split at h
  · next hfloor hnext => exact ⟨hfloor, hnext⟩
  · cases h
  · cases h
  · cases tie <;> split_ifs at h

theorem contains_of_fits {n : Nat} (h : i.fits e n = true) :
    i.Contains (Numeral.value ⟨n, e⟩) := by
  have hends : i.low * 10 ^ (-e).toNat ≤ n * i.step e ∧ n * i.step e ≤ i.high * 10 ^ (-e).toNat := by
    simp only [fits, holds, Bool.and_eq_true] at h
    split at h <;> simp only [Bool.and_eq_true, decide_eq_true_eq] at h <;> omega
  have hscale : (0 : ℚ) < (10 ^ (-e).toNat : Nat) := by positivity
  have hvalue : (Numeral.value ⟨n, e⟩ * i.den) * (10 ^ (-e).toNat : Nat) = (n * i.step e : Nat) := by
    rw [Numeral.value, step, mul_assoc, mul_comm (i.den : ℚ), ← mul_assoc, mul_assoc (n : ℚ),
      pow_toNat, Nat.cast_mul, Nat.cast_mul, mul_assoc]
  constructor
  · rw [← mul_le_mul_iff_left₀ hscale, hvalue]
    exact_mod_cast hends.1
  · rw [← mul_le_mul_iff_left₀ hscale, hvalue]
    exact_mod_cast hends.2

theorem fits_of_lt {n : Nat} (hn : n ≠ 0) (hlow : i.low * 10 ^ (-e).toNat < n * i.step e)
    (hhigh : n * i.step e < i.high * 10 ^ (-e).toNat) : i.fits e n = true := by
  simp only [fits, holds, Bool.and_eq_true, bne_iff_ne]
  refine ⟨hn, ?_⟩
  split
  · simp [hlow.le, hhigh.le]
  · simp [hlow, hhigh]

/-- A grid with a step below the width of the interval has a point in it. -/
theorem candidate?_ne_none (hlow : i.low < i.value) (hhigh : i.value < i.high)
    (hwidth : i.step e + i.low * 10 ^ (-e).toNat < i.high * 10 ^ (-e).toNat)
    (hlarge : i.step e ≤ i.value * 10 ^ (-e).toNat) (hpos : 0 < i.step e) :
    i.candidate? tie e ≠ none := by
  intro hnone
  obtain ⟨hfloor, hnext⟩ := not_fits_of_candidate? hnone
  have hscale : 0 < 10 ^ (-e).toNat := Nat.pow_pos (by decide)
  have hlow' := Nat.mul_lt_mul_of_pos_right hlow hscale
  have hhigh' := Nat.mul_lt_mul_of_pos_right hhigh hscale
  generalize i.value * 10 ^ (-e).toNat = value at *
  have hbelow : value / i.step e * i.step e ≤ value := Nat.div_mul_le_self _ _
  have habove : value < (value / i.step e + 1) * i.step e := by
    rw [Nat.add_one_mul]
    exact Nat.lt_div_mul_add hpos
  -- the point below the value is not above the lower end, and the one above it not below the upper one
  have hfloor' : ¬i.low * 10 ^ (-e).toNat < value / i.step e * i.step e := fun hlt => by
    rw [fits_of_lt (Nat.div_pos hlarge hpos).ne' hlt (hbelow.trans_lt hhigh')] at hfloor
    cases hfloor
  have hnext' : ¬(value / i.step e + 1) * i.step e < i.high * 10 ^ (-e).toNat := fun hlt => by
    rw [fits_of_lt (Nat.succ_ne_zero _) (hlow'.trans habove) hlt] at hnext
    cases hnext
  rw [Nat.add_one_mul] at hnext'
  omega

end Interval

/-! ### Seventeen digits -/

/-- The mantissa of a double has at most 53 bits, and the doubles are closer together below it only if it
is the least one with 53 bits. -/
structure Finite.IsDouble (x : Finite) : Prop where
  lt : x.mantissa < 2 ^ 53
  narrow : x.narrowBelow = true → x.mantissa = 2 ^ 52

theorem isDouble_of_ofFloat {x : Float} {v : Finite} (hx : Binary.ofFloat x = .finite v) :
    v.IsDouble := by
  unfold Binary.ofFloat Binary.ofBits at hx
  dsimp only at hx
  have hlt : x.toBits.toNat % Nat.pow 2 52 < 2 ^ 52 := Nat.mod_lt _ (by decide)
  split_ifs at hx <;> cases hx
  · exact ⟨by dsimp only; omega, nofun⟩
  · refine ⟨by dsimp only; simp only [Nat.pow_eq] at *; omega, fun h => ?_⟩
    simp only [Bool.and_eq_true, beq_iff_eq] at h
    dsimp only
    rw [h.1]
    rfl

namespace Interval

variable {x : Finite}

theorem den_pos (x : Finite) : 0 < (Interval.of x).den :=
  Nat.mul_pos (by decide) x.fraction_snd_pos

/-- The ends and the value in units of the last binary place. -/
theorem ends (x : Finite) :
    (Interval.of x).low = 4 * (x.mantissa * 2 ^ x.exponent.toNat) -
        (if x.narrowBelow then 2 ^ x.exponent.toNat else 2 * 2 ^ x.exponent.toNat) ∧
      (Interval.of x).value = 4 * (x.mantissa * 2 ^ x.exponent.toNat) ∧
      (Interval.of x).high = 4 * (x.mantissa * 2 ^ x.exponent.toNat) + 2 * 2 ^ x.exponent.toNat :=
  ⟨rfl, rfl, rfl⟩

theorem value_pos (hpos : 0 < x.mantissa) : 0 < (Interval.of x).value :=
  Nat.mul_pos (by decide) (Nat.mul_pos hpos (Nat.two_pow_pos _))

/-- The value of a number with its leading digit at `10 ^ lead` is at least `10 ^ k` steps of the grid on
which that is the digit `k + 1` from the right. -/
theorem steps_le_value {i : Interval} {lead : Int} (hlead : (10 : ℚ) ^ lead * i.den ≤ i.value) (k : Nat) :
    10 ^ k * i.step (lead - k) ≤ i.value * 10 ^ (-(lead - k)).toNat := by
  have hscale : (10 : ℚ) ^ lead * i.den * (10 ^ (-(lead - k)).toNat : Nat) =
      (10 ^ k * i.step (lead - k) : Nat) := by
    rw [step, Nat.cast_mul, Nat.cast_mul, ← pow_toNat (lead - k), zpow_sub₀ (by norm_num),
      zpow_natCast]
    push_cast
    field_simp
  have hmul := mul_le_mul_of_nonneg_right hlead
    (show (0 : ℚ) ≤ (10 ^ (-(lead - k)).toNat : Nat) from Nat.cast_nonneg _)
  rw [hscale] at hmul
  exact_mod_cast hmul

/-- The interval of a double holds a decimal of seventeen digits. -/
theorem exists_candidate (hx : x.IsDouble) (hpos : 0 < x.mantissa) (tie : Tie) :
    (Interval.of x).candidate? tie
      (leadingExponent (Interval.of x).value (Interval.of x).den - 16) ≠ none := by
  have hsteps := steps_le_value (pow_leadingExponent_le (value_pos hpos) (den_pos x)) 16
  generalize leadingExponent (Interval.of x).value (Interval.of x).den - (16 : Nat) = e at hsteps
  have hstep : 0 < (Interval.of x).step e := Nat.mul_pos (Nat.pow_pos (by decide)) (den_pos x)
  -- all lengths are multiples of the unit, up to the scale of the grid
  obtain ⟨hlow, hvalue, hhigh⟩ := ends x
  have hunit : 0 < 2 ^ x.exponent.toNat := Nat.two_pow_pos _
  have hnum : 2 ^ x.exponent.toNat ≤ x.mantissa * 2 ^ x.exponent.toNat := Nat.le_mul_of_pos_left _ hpos
  have hscaled : x.mantissa * 2 ^ x.exponent.toNat * 10 ^ (-e).toNat =
      x.mantissa * (2 ^ x.exponent.toNat * 10 ^ (-e).toNat) := Nat.mul_assoc _ _ _
  have hm : x.mantissa * (2 ^ x.exponent.toNat * 10 ^ (-e).toNat) ≤
      (2 ^ 53 - 1) * (2 ^ x.exponent.toNat * 10 ^ (-e).toNat) :=
    Nat.mul_le_mul_right _ (by have := hx.lt; omega)
  refine candidate?_ne_none ?_ ?_ ?_ ?_ hstep
  · rw [hlow, hvalue]
    split <;> omega
  · omega
  · have hscale : 0 < 2 ^ x.exponent.toNat * 10 ^ (-e).toNat :=
      Nat.mul_pos hunit (Nat.pow_pos (by decide))
    rw [hvalue, Nat.mul_assoc, hscaled] at hsteps
    rw [hlow, hhigh, Nat.sub_mul, Nat.add_mul, Nat.mul_assoc 4, hscaled, Nat.mul_assoc 2]
    split
    -- below a power of two the interval is narrower, but then the mantissa is the least one
    · next hnarrow =>
      rw [hx.narrow hnarrow] at *
      omega
    · rw [Nat.mul_assoc 2]
      omega
  · omega

end Interval

variable {x : Finite} (tie : Tie)

/-- The shortest decimal is in the interval of the number, and is a multiple of the place that the
seventeenth digit has. -/
theorem shortest_spec (hx : x.IsDouble) (hpos : 0 < x.mantissa) :
    (Interval.of x).Contains (shortest tie x).value ∧
      leadingExponent (Interval.of x).value (Interval.of x).den - 16 ≤ (shortest tie x).exponent := by
  have hlast := Interval.exists_candidate hx hpos tie
  rw [shortest, if_neg hpos.ne']
  dsimp only
  generalize leadingExponent (Interval.of x).value (Interval.of x).den = lead at hlast ⊢
  split
  · next d hd =>
    obtain ⟨e, he, hcandidate⟩ := List.exists_of_findSome?_eq_some hd
    obtain ⟨n, hn, rfl⟩ := List.mem_map.1 he
    obtain ⟨hexp, hfits⟩ := Interval.fits_of_candidate? hcandidate
    obtain ⟨hvalue, hle⟩ := trim_spec 20 d
    have hn := List.mem_range.1 hn
    refine ⟨?_, by omega⟩
    rw [hvalue, show d = ⟨d.digits, lead - n⟩ from hexp ▸ rfl]
    exact Interval.contains_of_fits hfits
  · next hnone =>
    refine absurd (List.findSome?_eq_none_iff.1 hnone _ (List.mem_map.2 ⟨16, ?_, rfl⟩)) hlast
    exact List.mem_range.2 (by decide)

/-- A number with a fraction part has one in its shortest decimal too: no whole number rounds to it. -/
theorem exponent_shortest_neg (hx : x.IsDouble) (hfraction : x.isWhole = false) :
    (shortest tie x).exponent < 0 := by
  have hpos : 0 < x.mantissa := Nat.pos_of_ne_zero fun h => by
    simp [Finite.isWhole, Finite.fraction, h] at hfraction
  have hneg : x.exponent.toNat = 0 := by
    refine Int.toNat_of_nonpos (Int.not_lt.1 fun h => ?_)
    simp [Finite.isWhole, Finite.fraction, Int.toNat_of_nonpos (Int.neg_nonpos_of_nonneg h.le),
      Nat.mod_one] at hfraction
  refine Int.not_le.1 fun hexp => ?_
  obtain ⟨e, he⟩ := Int.eq_ofNat_of_zero_le hexp
  have hvalue : (shortest tie x).value = ((shortest tie x).digits * 10 ^ e : Nat) := by
    rw [Numeral.value, he]
    simp
  obtain ⟨hlow, hhigh⟩ := (shortest_spec tie hx hpos).1
  rw [hvalue] at hlow hhigh
  norm_cast at hlow hhigh
  generalize (shortest tie x).digits * 10 ^ e = n at hlow hhigh
  -- the unit is `1`, and the interval is not wide enough for another whole number
  obtain ⟨hlow', -, hhigh'⟩ := Interval.ends x
  have hden : n * (Interval.of x).den = 4 * (n * x.fraction.2) := Nat.mul_left_comm _ _ _
  rw [hden] at hlow hhigh
  rw [hlow', hneg] at hlow
  rw [hhigh', hneg] at hhigh
  have hnum : x.fraction.1 = n * x.fraction.2 := by
    show x.mantissa * 2 ^ x.exponent.toNat = _
    rw [hneg]
    split at hlow <;> omega
  rw [Finite.isWhole, hnum, Nat.mul_mod_left] at hfraction
  cases hfraction

/-- The shortest decimal of a number of at least `10 ^ 18` has no fraction part. -/
theorem exponent_shortest_nonneg (hx : x.IsDouble) (hlarge : 10 ^ 18 ≤ x.whole) :
    0 ≤ (shortest tie x).exponent := by
  have hle : 10 ^ 18 * x.fraction.2 ≤ x.fraction.1 :=
    (Nat.le_div_iff_mul_le x.fraction_snd_pos).1 hlarge
  have hpos : 0 < x.mantissa := Nat.pos_of_ne_zero fun h => by
    simp [Finite.whole, Finite.fraction, h] at hlarge
  have hscaled : 10 ^ 18 * (Interval.of x).den ≤ (Interval.of x).value :=
    (Nat.mul_left_comm _ _ _).trans_le (Nat.mul_le_mul_left 4 hle)
  have hlead := le_leadingExponent (Interval.den_pos x) hscaled
  have := (shortest_spec tie hx hpos).2
  omega

end Decimal

end LoxLang
