import LoxLang.Decimal.Layout

/-!
# The texts of a number

One double has five texts in this language, all made from its exact reading:

* `Number.plain`: the fewest digits that read back, every place written, no exponent;
* `Number.display`: what `print` writes, where a whole number shows every digit of its exact value;
* `Number.literal`: a literal in a printed tree, where a whole number ends in `.0`;
* `Number.scanned`: a literal in a token listing, where whole numbers below `2^63` end in `.0`;
* `Number.json`: a JSON number, with an exponent part for very large and very small numbers.
-/

namespace LoxLang.Number

open Decimal

/-- A minus sign for negative numbers. -/
def sign (negative : Bool) : String := if negative then "-" else ""

/-- JSON numbers are written with all places while the leading exponent lies from −5 to 15. -/
def jsonLayout : Layout := ⟨.toEven, -5, 15, ".0"⟩

/-- The fewest digits of a magnitude, with all places written. -/
def plainFinite (x : Finite) : String := sign x.negative ++ (shortest .up x).positional

/-- Every digit of the whole part of the exact value. -/
def wholeDigits (x : Finite) : String := sign x.negative ++ toString x.whole

/-- The text of a number that is not finite, or else that given by `finite`. -/
def withFinite (x : Float) (finite : Finite → String) : String :=
  match Binary.ofFloat x with
  | .nan => "NaN"
  | .infinite negative => sign negative ++ "inf"
  | .finite v => finite v

/-- The fewest digits that read back, padded with zeros up to the point; `-0` keeps its sign. -/
def plain (x : Float) : String := withFinite x plainFinite

/-- What `print` writes: all digits of a whole number's exact value, else the fewest digits. -/
def display (x : Float) : String :=
  withFinite x fun v => if v.isWhole then wholeDigits v else plainFinite v

/-- A literal in a printed tree: as `display`, and a whole number ends in `.0`. -/
def literal (x : Float) : String :=
  withFinite x fun v => if v.isWhole then wholeDigits v ++ ".0" else plainFinite v

/-- A literal in a token listing: whole numbers that fit in a signed 64-bit word end in `.0`, all
others have the fewest digits. -/
def scanned (x : Float) : String :=
  withFinite x fun v =>
    if v.isWhole && v.whole < Nat.pow 2 63 then
      sign (v.negative && v.whole != 0) ++ toString v.whole ++ ".0"
    else plainFinite v

/-- A JSON number; infinities and NaN have no JSON form and are written `null`. -/
def json (x : Float) : String :=
  match Binary.ofFloat x with
  | .finite v => sign v.negative ++ jsonLayout.write v
  | _ => "null"

end LoxLang.Number
