import LoxLang.Decimal.Binary

/-!
# The fewest digits that read back

`shortest tie x` is the decimal `digits · 10^exponent` with the fewest digits among those that
round to the double `x`; of several with as few digits it is the one nearest to `x`, and `tie`
settles an exact draw.

For each number of digits from one to seventeen the two neighbours of `x` on the decimal grid of
that many digits are tried in exact arithmetic (`candidate?`), and the first grid with a hit wins.
Seventeen digits always suffice for a double.
-/

namespace LoxLang.Decimal

/-- The number `digits · 10^exponent`. -/
structure Numeral where
  digits : Nat
  exponent : Int
  deriving DecidableEq, Repr

/-- Which of two equally near neighbours is taken. -/
inductive Tie where
  | up
  | toEven
  deriving DecidableEq, Repr

/-- How many decimal digits a number is written with. -/
def digitCount (n : Nat) : Nat := (Nat.toDigits 10 n).length

/-- The exponent of ten of the leading digit of `num / den`, for positive arguments. -/
def leadingExponent (num den : Nat) : Int :=
  if den ≤ num then (digitCount (num / den) : Int) - 1
  else -(digitCount ((den - 1) / num) : Int)

/-- The reals that round to a double, as fractions over one denominator. -/
structure Interval where
  low : Nat
  value : Nat
  high : Nat
  den : Nat
  /-- The ends round to the double as well. -/
  closed : Bool
  deriving Repr

/-- The interval reaches half way to each neighbouring double; its ends belong to it exactly when
the mantissa is even, because a draw is rounded to the even mantissa. -/
def Interval.of (x : Finite) : Interval :=
  let (num, den) := x.fraction
  let unit := Nat.pow 2 x.exponent.toNat
  { low := 4 * num - (if x.narrowBelow then unit else 2 * unit)
    value := 4 * num
    high := 4 * num + 2 * unit
    den := 4 * den
    closed := x.mantissa % 2 == 0 }

/-- The fraction `n / den` lies in the interval. -/
def Interval.holds (i : Interval) (n : Nat) : Bool :=
  if i.closed then i.low ≤ n && n ≤ i.high else i.low < n && n < i.high

/-- Of the two neighbours of the value on the grid of multiples of `10^exponent`, the nearest one
inside the interval. -/
def Interval.candidate? (i : Interval) (tie : Tie) (exponent : Int) : Option Numeral :=
  let up := Nat.pow 10 exponent.toNat
  let down := Nat.pow 10 (-exponent).toNat
  -- every fraction is scaled so that the grid points become multiples of `step`
  let step := up * i.den
  let scaled : Interval := ⟨i.low * down, i.value * down, i.high * down, step, i.closed⟩
  let floor := scaled.value / step
  let below := scaled.value - floor * step
  let above := step - below
  let fits := fun n => n != 0 && scaled.holds (n * step)
  match fits floor, fits (floor + 1) with
  | false, false => none
  | true, false => some ⟨floor, exponent⟩
  | false, true => some ⟨floor + 1, exponent⟩
  | true, true =>
    if below < above then some ⟨floor, exponent⟩
    else if above < below then some ⟨floor + 1, exponent⟩
    else match tie with
      | .up => some ⟨floor + 1, exponent⟩
      | .toEven => some ⟨if floor % 2 = 0 then floor else floor + 1, exponent⟩

/-- The same number without trailing zero digits, dropping at most `fuel` of them. -/
def Numeral.trim : Nat → Numeral → Numeral
  | 0, d => d
  | fuel + 1, d =>
    if d.digits != 0 && d.digits % 10 == 0 then trim fuel ⟨d.digits / 10, d.exponent + 1⟩ else d

/-- The decimal with the fewest digits that reads back as `x`; zero for zero. -/
def shortest (tie : Tie) (x : Finite) : Numeral :=
  if x.mantissa = 0 then ⟨0, 0⟩
  else
    let i := Interval.of x
    let lead := leadingExponent i.value i.den
    let grids := (List.range 17).map fun (n : Nat) => lead - n
    match grids.findSome? (i.candidate? tie) with
    | some d => d.trim 20
    | none => ⟨0, 0⟩

end LoxLang.Decimal
