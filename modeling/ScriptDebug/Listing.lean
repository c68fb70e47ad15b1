/-
# Listings

The source around the current line. The window style numbers the lines within a
radius and puts a cursor before the current one; the plain style is the text
itself. In colour the cursor is green and every other line grey.

Key definitions: `ListStyle`, `ListOptions`, `Listing.row`, `Listing.render`.
-/
import ScriptDebug.Source

namespace ScriptDebug

inductive ListStyle where
  | window
  | plain
  deriving DecidableEq, Repr

structure ListOptions where
  style : ListStyle
  radius : Nat
  color : Bool
  deriving DecidableEq, Repr

/-- A coloured window of four lines to either side. -/
def ListOptions.default : ListOptions := ⟨.window, 4, true⟩

namespace Listing

/-- Six characters for a number and the gap after it, or one more than the number if that has six
or more digits. -/
def paddedNumber (n : Nat) : String :=
  let digits := toString n
  digits ++ String.ofList (List.replicate (max (6 - digits.length) 1) ' ')

/-- The end of every colour. -/
def resetCode : String := "\x1b[0m"

/-- Puts a text in a colour. A reset inside the text is followed by the colour once more. -/
def inColor (code : String) (s : String) : String :=
  code ++ (s.replace resetCode (resetCode ++ code)) ++ resetCode

def green : String → String := inColor "\x1b[32m"

def grey : String → String := inColor "\x1b[90m"

/-- The row of line `n` with the cursor on line `current`. -/
def row (color : Bool) (current n : Nat) (contents : String) : String :=
  let numbered := paddedNumber n ++ contents
  if n = current then (if color then green ">" else ">") ++ " " ++ numbered
  else if color then grey ("  " ++ numbered)
  else "  " ++ numbered

/-- The lines of a window around line `current`, each with its number. -/
def window (lines : Array String) (current radius : Nat) : List (Nat × String) :=
  let first := max (current - radius) 1
  ((lines.extract (first - 1) (current + radius)).toList.zipIdx first).map fun p => (p.2, p.1)

/-- The listing of a source. -/
def render (s : Source) (current : Nat) (o : ListOptions) : String :=
  match o.style with
  | .plain => s.text
  | .window =>
    String.join ((window s.lines current o.radius).map fun p =>
      row o.color current p.1 p.2 ++ "\n")

end Listing
end ScriptDebug
