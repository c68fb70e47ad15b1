/-
# Quoted text

A text between double quotes on one line: the quote and the backslash are
written after a backslash, line breaks, tabs and NUL have short forms, and a
character that is not shown is written by its number in hexadecimal.

Key definitions: `Text.quoted`.
-/
import ScriptDebug.Text.Unshown

namespace ScriptDebug
namespace Text

/-- A number in hexadecimal with small letters. -/
def hex (n : Nat) : List Char := Nat.toDigits 16 n

/-- How a character is written between quotes. -/
def quoteChar (c : Char) : List Char :=
  if c = '"' then ['\\', '"']
  else if c = '\\' then ['\\', '\\']
  else if c = '\n' then ['\\', 'n']
  else if c = '\r' then ['\\', 'r']
  else if c = '\t' then ['\\', 't']
  else if c.toNat = 0 then ['\\', '0']
  else if c.toNat < 0x20 ∨ c.toNat = 0x7F ∨ (0x7F < c.toNat ∧ isUnshown c) then
    '\\' :: 'u' :: '{' :: hex c.toNat ++ ['}']
  else [c]

def quoted (s : String) : String := String.ofList ('"' :: s.toList.flatMap quoteChar ++ ['"'])

end Text
end ScriptDebug
