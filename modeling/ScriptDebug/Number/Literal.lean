/-
# Reading decimal numbers

Numeric text is an optional sign, then digits with at most one point and an
optional exponent; `inf`, `infinity` and `nan` are read in any case. The value
is the binary64 number nearest to the decimal.

Key definitions: `Number.nearest`, `Number.read?`, `Number.readNat?`, `Number.readInt?`.
-/
import ScriptDebug.Text.Blank

namespace ScriptDebug
namespace Number

/-- The value of a digit string in base ten. -/
def digitsValue (ds : List Char) : Nat := ds.foldl (fun n c => 10 * n + (c.toNat - '0'.toNat)) 0

/-- The binary64 number nearest to `m · 10 ^ e`. Decimals far beyond the range are settled without
forming the power: where `k` is the binary logarithm of `m`, `m` is not below `10 ^ (3 k / 10)` but
below `10 ^ (31 (k + 1) / 100)`. -/
def nearest (m : Nat) (e : Int) : Float :=
  let k : Int := m.log2
  if m = 0 || 31 * (k + 1) / 100 + 1 + e < -330 then 0
  else if 310 < 3 * k / 10 + e then 1 / 0
  else Float.ofScientific m (decide (e < 0)) e.natAbs

/-- Takes the digits off the front of a text. -/
def takeDigits (cs : List Char) : List Char × List Char :=
  (cs.takeWhile Char.isDigit, cs.dropWhile Char.isDigit)

/-- An exponent: its mark, an optional sign, and at least one digit. No text is exponent zero. -/
def readExponent? : List Char → Option Int
  | [] => some 0
  | mark :: cs =>
    if mark = 'e' ∨ mark = 'E' then
      let (negative, ds) := match cs with
        | '-' :: r => (true, r)
        | '+' :: r => (false, r)
        | r => (false, r)
      if ds.isEmpty || !ds.all Char.isDigit then none
      else some (if negative then -(digitsValue ds : Int) else digitsValue ds)
    else none

/-- A decimal without sign: digits, a point among them or at an end, an exponent. -/
def readDecimal? (cs : List Char) : Option Float :=
  let (whole, rest) := takeDigits cs
  let (fraction, rest) := match rest with
    | '.' :: r => takeDigits r
    | r => ([], r)
  if whole.isEmpty && fraction.isEmpty then none
  else (readExponent? rest).map fun e =>
    nearest (digitsValue (whole ++ fraction)) (e - fraction.length)

/-- Numeric text without sign. -/
def readMagnitude? (cs : List Char) : Option Float :=
  let word := String.ofList (cs.map Char.toLower)
  if word = "inf" ∨ word = "infinity" then some (1 / 0)
  else if word = "nan" then some (0 / 0)
  else readDecimal? cs

/-- Numeric text. -/
def read? : List Char → Option Float
  | '-' :: cs => (readMagnitude? cs).map fun x => -x
  | '+' :: cs => readMagnitude? cs
  | cs => readMagnitude? cs

/-- The largest number of a line, a radius or a size. -/
def maxSize : Nat := (1 <<< 64) - 1

/-- At least one digit and nothing else. -/
def readDigits? (cs : List Char) : Option Nat :=
  if cs.isEmpty || !cs.all Char.isDigit then none else some (digitsValue cs)

/-- A size in decimal, with an optional plus sign. -/
def readNat? (cs : List Char) : Option Nat :=
  let ds := match cs with
    | '+' :: r => r
    | r => r
  (readDigits? ds).filter (· ≤ maxSize)

/-- A 32-bit integer in decimal, with an optional sign. -/
def readInt? : List Char → Option Int
  | '-' :: cs => ((readDigits? cs).filter (· ≤ 1 <<< 31)).map fun n => -(n : Int)
  | '+' :: cs => ((readDigits? cs).filter (· < 1 <<< 31)).map Int.ofNat
  | cs => ((readDigits? cs).filter (· < 1 <<< 31)).map Int.ofNat

end Number
end ScriptDebug
