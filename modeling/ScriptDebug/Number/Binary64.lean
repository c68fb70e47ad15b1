/-
# Binary64 numbers taken apart

A finite number is an integer mantissa times a power of two, with a sign.
Remainder and decimal text are computed on those parts in exact integer
arithmetic.

Key definitions: `Number.Parts`, `Number.parts`, `Number.ofParts`, `Number.remainder`.
-/

namespace ScriptDebug
namespace Number

/-- The number `± mantissa · 2 ^ exponent`. -/
structure Parts where
  negative : Bool
  mantissa : Nat
  exponent : Int
  deriving DecidableEq, Repr

/-- The parts of a finite number. Those of an infinity or of a number that is none are of no use. -/
def parts (x : Float) : Parts :=
  let bits : Nat := x.toBits.toNat
  let fraction : Nat := bits % (1 <<< 52)
  let biased : Nat := (bits >>> 52) % (1 <<< 11)
  { negative := bits >>> 63 = 1
    mantissa := if biased = 0 then fraction else (1 <<< 52) + fraction
    exponent := if biased = 0 then -1074 else (biased : Int) - 1075 }

/-- The number with these parts, where the mantissa is below `2 ^ 53` and the exponent that of a
finite number. -/
def ofParts (p : Parts) : Float :=
  let magnitude := Float.scaleB (Float.ofNat p.mantissa) p.exponent
  if p.negative then -magnitude else magnitude

/-- What is left of `x` after taking off `y` as often as it fits, with the sign of `x`. It is
exact: on the finer of the two scales both numbers are integers. -/
def remainder (x y : Float) : Float :=
  if x.isNaN || y.isNaN || x.isInf || y == 0 then 0 / 0
  else if y.isInf || x == 0 then x
  else
    let a := parts x
    let b := parts y
    let scale := min a.exponent b.exponent
    let m := a.mantissa <<< (a.exponent - scale).toNat
    let n := b.mantissa <<< (b.exponent - scale).toNat
    ofParts { negative := a.negative, mantissa := m % n, exponent := scale }

end Number
end ScriptDebug
