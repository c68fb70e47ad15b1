/-
# Blank characters

A character is blank when it has Unicode's `White_Space` property. Front-end
lines, names of levels and numeric text are trimmed of blanks at both ends.

Key definitions: `Text.isBlank`, `Text.trim`, `Text.trimEnd`.
-/

namespace ScriptDebug
namespace Text

/-- The ranges of Unicode's `White_Space` property, both ends included. -/
def blankRanges : List (Nat × Nat) :=
  [(0x9, 0xD), (0x20, 0x20), (0x85, 0x85), (0xA0, 0xA0), (0x1680, 0x1680), (0x2000, 0x200A),
    (0x2028, 0x2029), (0x202F, 0x202F), (0x205F, 0x205F), (0x3000, 0x3000)]

/-- Whether a range of the table holds the code point. -/
def inRanges (ranges : List (Nat × Nat)) (n : Nat) : Bool :=
  ranges.any fun r => r.1 ≤ n && n ≤ r.2

def isBlank (c : Char) : Bool := inRanges blankRanges c.toNat

def trimStart (s : List Char) : List Char := s.dropWhile isBlank

def trimEnd (s : List Char) : List Char := (s.reverse.dropWhile isBlank).reverse

def trim (s : List Char) : List Char := trimEnd (trimStart s)

/-- The number of bytes a text takes in UTF-8. -/
def bytes (s : List Char) : Nat := s.foldl (fun n c => n + c.utf8Size) 0

end Text
end ScriptDebug
