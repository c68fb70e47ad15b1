/-
# Numbers of JSON

A number is read to its end before anything is asked of it. A number without
fraction and exponent is a size if it is below `2 ^ 64`; beyond the range of
binary64 it is no JSON.

Key definitions: `Json.Numeral`, `Json.number`, `Json.skipNumber`.
-/
import ScriptDebug.Json.Text
import ScriptDebug.Number.Literal

namespace ScriptDebug
namespace Json

/-- What a number without its sign is: a size, or any other number. -/
inductive Numeral where
  | size (n : Nat)
  | other
  deriving DecidableEq, Repr

/-- A decimal under way: `digits · 10 ^ exponent`. -/
structure Scaled where
  digits : Nat
  exponent : Int

/-- Appends digits of the whole part. Once one does not fit into 64 bits, it and those after it count
as zeros. -/
def Scaled.whole (s : Scaled) (full : Bool) : List Char → Scaled
  | [] => s
  | c :: cs =>
    let n := 10 * s.digits + (c.toNat - '0'.toNat)
    if full || Number.maxSize < n then whole { s with exponent := s.exponent + 1 } true cs
    else whole { s with digits := n } false cs

/-- Appends digits of the fraction as long as they fit into 64 bits. -/
def Scaled.fraction (s : Scaled) : List Char → Scaled
  | [] => s
  | c :: cs =>
    let n := 10 * s.digits + (c.toNat - '0'.toNat)
    if Number.maxSize < n then s else fraction ⟨n, s.exponent - 1⟩ cs

/-- Whether a decimal is beyond the range of binary64. -/
def Scaled.tooLarge (s : Scaled) : Bool :=
  0 < s.digits && 0 ≤ s.exponent &&
    (308 < s.exponent || (Float.ofNat s.digits * Number.nearest 1 s.exponent).isInf)

/-- The digits before the point, without a leading zero. -/
def wholeDigits (atEnd : Refusal) : List Char → Except Refusal (List Char × List Char)
  | [] => .error atEnd
  | c :: cs =>
    if c = '0' then
      if cs.head?.any Char.isDigit then .error .notJson else .ok (['0'], cs)
    else if c.isDigit then .ok (Number.takeDigits (c :: cs))
    else .error .notJson

/-- At least one digit. -/
def someDigits (atEnd : Refusal) (cs : List Char) : Except Refusal (List Char × List Char) :=
  match Number.takeDigits cs with
  | ([], []) => .error atEnd
  | ([], _) => .error .notJson
  | (ds, rest) => .ok (ds, rest)

/-- The digits after a point, if there is one. -/
def fractionPart (atEnd : Refusal) :
    List Char → Except Refusal (Option (List Char) × List Char)
  | '.' :: cs => (someDigits atEnd cs).map fun (ds, rest) => (some ds, rest)
  | cs => .ok (none, cs)

/-- The digits of an exponent with their sign, if there is one. -/
def exponentPart (atEnd : Refusal) (cs : List Char) :
    Except Refusal (Option (Bool × List Char) × List Char) :=
  match cs with
  | [] => .ok (none, [])
  | c :: rest =>
    if c = 'e' ∨ c = 'E' then
      let (negative, digits) := match rest with
        | '-' :: r => (true, r)
        | '+' :: r => (false, r)
        | r => (false, r)
      (someDigits atEnd digits).map fun (ds, rest) => (some (negative, ds), rest)
    else .ok (none, cs)

/-- The parts of a number without its sign: whole digits, fraction, exponent. -/
structure Literal where
  whole : List Char
  fraction : Option (List Char)
  exponent : Option (Bool × List Char)

/-- Reads the parts of a number. `atEnd` is the refusal of a text that ends inside. -/
def literal (atEnd : Refusal) (cs : List Char) : Except Refusal (Literal × List Char) := do
  let (whole, cs) ← wholeDigits atEnd cs
  let (fraction, cs) ← fractionPart atEnd cs
  let (exponent, cs) ← exponentPart atEnd cs
  .ok (⟨whole, fraction, exponent⟩, cs)

/-- The value of an exponent. -/
def exponentValue : Option (Bool × List Char) → Int
  | none => 0
  | some (negative, ds) =>
    if negative then -(Number.digitsValue ds : Int) else Number.digitsValue ds

def Literal.scaled (l : Literal) : Scaled :=
  let s := (Scaled.whole ⟨0, 0⟩ false l.whole).fraction (l.fraction.getD [])
  { s with exponent := s.exponent + exponentValue l.exponent }

/-- Whether the number is written as an integer. -/
def Literal.isInteger (l : Literal) : Bool := l.fraction.isNone && l.exponent.isNone

def Literal.numeral (l : Literal) : Numeral :=
  let n := Number.digitsValue l.whole
  if l.isInteger && n ≤ Number.maxSize then .size n else .other

/-- A number without its sign. A size is within the range; of any other number it is asked. -/
def number (cs : List Char) : Except Refusal (Numeral × List Char) := do
  let (l, cs) ← literal .endsEarly cs
  match l.numeral with
  | .size n => .ok (.size n, cs)
  | .other => if l.scaled.tooLarge then .error .notJson else .ok (.other, cs)

/-- Drops a number without its sign, of which nothing but the form is asked. -/
def skipNumber (cs : List Char) : Except Refusal (List Char) :=
  (literal .notJson cs).map Prod.snd

end Json
end ScriptDebug
