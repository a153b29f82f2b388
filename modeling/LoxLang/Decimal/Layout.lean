import LoxLang.Decimal.Shortest

/-!
# Writing decimals

`Numeral.positional` writes all places of a decimal around a point; `Numeral.scientific` writes one
digit before the point and a power of ten after the mark `e`.  A `Layout` decides between the two
by the exponent of the leading digit.
-/

namespace LoxLang.Decimal

namespace Numeral

/-- The exponent of ten of the leading digit. -/
def lead (d : Numeral) : Int := d.exponent + digitCount d.digits - 1

/-- All places, without exponent; a whole number has no point. -/
def positional (d : Numeral) : String :=
  let text := toString d.digits
  if 0 ≤ d.exponent then text.pushn '0' d.exponent.toNat
  else
    let places := (-d.exponent).toNat
    let padded := List.replicate (places + 1 - text.length) '0' ++ text.toList
    let (whole, fraction) := padded.splitAt (padded.length - places)
    String.ofList (whole ++ '.' :: fraction)

/-- One digit, a point and the others if there are any, then the exponent with its sign. -/
def scientific (d : Numeral) : String :=
  let exponent := (if 0 ≤ d.lead then "+" else "-") ++ toString d.lead.natAbs
  match (toString d.digits).toList with
  | [] => ""
  | [c] => String.ofList [c, 'e'] ++ exponent
  | c :: cs => String.ofList (c :: '.' :: cs ++ ['e']) ++ exponent

end Numeral

/-- How the shortest decimals of a format are written. -/
structure Layout where
  tie : Tie
  /-- The least leading exponent written with all places. -/
  least : Int
  /-- The greatest leading exponent written with all places. -/
  greatest : Int
  /-- What follows a whole number written with all places. -/
  wholeMark : String

/-- The text of a magnitude in the given layout. -/
def Layout.write (l : Layout) (x : Finite) : String :=
  let d := shortest l.tie x
  if l.least ≤ d.lead && d.lead ≤ l.greatest then
    d.positional ++ (if 0 ≤ d.exponent then l.wholeMark else "")
  else d.scientific

end LoxLang.Decimal
