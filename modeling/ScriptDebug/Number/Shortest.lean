/-
# The shortest decimal that reads back

Every real in an interval around a binary64 number is rounded to it. The
shortest decimal is a point of the coarsest decimal grid that meets this
interval; of two points the nearer is taken, and the upper at a tie.

Key definitions: `Number.Interval`, `Number.Interval.point?`, `Number.shortest`.
-/
import ScriptDebug.Number.Binary64

namespace ScriptDebug
namespace Number

/-- The reals that round to a number: from `low / unit` to `high / unit` around `value / unit`,
with both ends if `closed`. -/
structure Interval where
  low : Nat
  value : Nat
  high : Nat
  unit : Nat
  closed : Bool

/-- The interval of a positive number. Below a power of two the numbers lie twice as dense. -/
def Interval.of (p : Parts) : Interval :=
  let up := (p.exponent - 2).toNat
  let dense := p.mantissa = 1 <<< 52 ∧ p.exponent ≠ -1074
  { low := (4 * p.mantissa - if dense then 1 else 2) <<< up
    value := (4 * p.mantissa) <<< up
    high := (4 * p.mantissa + 2) <<< up
    unit := 1 <<< (2 - p.exponent).toNat
    closed := p.mantissa % 2 = 0 }

/-- A decimal: `digits · 10 ^ exponent`. -/
structure Decimal where
  digits : Nat
  exponent : Int
  deriving DecidableEq, Repr

/-- The point of the grid of multiples of `10 ^ k` that the interval holds, nearest to the value. -/
def Interval.point? (i : Interval) (k : Int) : Option Decimal :=
  let fine := Nat.pow 10 (-k).toNat
  let step := Nat.pow 10 k.toNat * i.unit
  let value := i.value * fine
  let below := value / step
  let holds := fun n =>
    let x := n * step
    let low := i.low * fine
    let high := i.high * fine
    if i.closed then low ≤ x && x ≤ high else low < x && x < high
  let upperNearer := (below + 1) * step - value ≤ value - below * step
  if holds (below + 1) && (upperNearer || !holds below) then some ⟨below + 1, k⟩
  else if holds below then some ⟨below, k⟩
  else none

/-- The number of decimal digits of an integer, and zero for zero. -/
def width (n : Nat) : Nat := if n = 0 then 0 else (toString n).length

/-- The shortest decimal that reads back as the positive finite number `x`. No grid coarser than
the integer part is long holds a point, and `10 ^ -324` is finer than every interval is wide. -/
def shortest (x : Float) : Decimal :=
  let i := Interval.of (parts x)
  let top := width (i.value / i.unit)
  let grids := (List.range (top + 325)).map fun (n : Nat) => (top : Int) - (n : Int)
  (grids.findSome? i.point?).getD ⟨0, 0⟩

/-- A decimal without exponent: zeros fill up to the point on either side. -/
def Decimal.positional (d : Decimal) : String :=
  let s := toString d.digits
  if 0 ≤ d.exponent then s ++ String.ofList (List.replicate d.exponent.toNat '0')
  else
    let places := (-d.exponent).toNat
    let padded := List.replicate (places + 1 - s.length) '0' ++ s.toList
    let point := padded.length - places
    String.ofList (padded.take point ++ '.' :: padded.drop point)

/-- The text of a number: the shortest decimal that reads back, never with an exponent. Both zeros
are written the same. -/
def text (x : Float) : String :=
  if x.isNaN then "NaN"
  else if x.isInf then if x > 0 then "Infinity" else "-Infinity"
  else if x == 0 then "0"
  else
    let digits := (shortest x.abs).positional
    if x < 0 then "-" ++ digits else digits

end Number
end ScriptDebug
