/-!
# Doubles as exact binary fractions

`Binary.ofFloat` reads the 64 bits of a double as `nan`, an infinity, or the exact number
`±mantissa · 2^exponent`.  Everything that writes a number works on this form, so no text ever
depends on floating-point arithmetic.

* `Finite.isWhole` tells whether the number has no fraction part;
* `Finite.whole` is its magnitude rounded toward zero, exact when `isWhole` holds.
-/

namespace LoxLang.Decimal

/-- The exact number `±mantissa · 2^exponent`. -/
structure Finite where
  negative : Bool
  mantissa : Nat
  exponent : Int
  /-- The next smaller double is only half as far away as the next larger one. -/
  narrowBelow : Bool
  deriving DecidableEq, Repr

/-- A double, read from its bits. -/
inductive Binary where
  | nan
  | infinite (negative : Bool)
  | finite (value : Finite)
  deriving DecidableEq, Repr

namespace Finite

/-- The magnitude as a fraction `(numerator, denominator)` with a power of two below. -/
def fraction (x : Finite) : Nat × Nat :=
  (x.mantissa * Nat.pow 2 x.exponent.toNat, Nat.pow 2 (-x.exponent).toNat)

/-- The magnitude without its fraction part. -/
def whole (x : Finite) : Nat := x.fraction.1 / x.fraction.2

/-- The number has no fraction part. -/
def isWhole (x : Finite) : Bool := x.fraction.1 % x.fraction.2 == 0

/-- The denominator is never zero. -/
theorem fraction_snd_pos (x : Finite) : 0 < x.fraction.2 := Nat.two_pow_pos _

theorem isWhole_iff (x : Finite) :
    x.isWhole = true ↔ x.fraction.1 = x.whole * x.fraction.2 := by
  rw [isWhole, beq_iff_eq, whole, ← Nat.dvd_iff_mod_eq_zero]
  exact ⟨fun h => (Nat.div_mul_cancel h).symm, fun h => ⟨_, h.trans (Nat.mul_comm _ _)⟩⟩

end Finite

namespace Binary

/-- The fields of the 64-bit format: one sign bit, eleven exponent bits, fifty-two fraction bits.
The exponent field `2047` marks infinities and NaN; `0` marks the subnormal numbers, whose
mantissa has no leading one. -/
def ofBits (bits : Nat) : Binary :=
  let negative := bits / Nat.pow 2 63 % 2 == 1
  let field : Nat := bits / Nat.pow 2 52 % Nat.pow 2 11
  let fraction : Nat := bits % Nat.pow 2 52
  if field = 2047 then
    if fraction = 0 then .infinite negative else .nan
  else if field = 0 then
    .finite ⟨negative, fraction, -1074, false⟩
  else
    let mantissa := Nat.pow 2 52 + fraction
    .finite ⟨negative, mantissa, (field : Int) - 1075, fraction == 0 && field > 1⟩

/-- The exact reading of a double. -/
def ofFloat (x : Float) : Binary := ofBits x.toBits.toNat

end Binary

end LoxLang.Decimal
