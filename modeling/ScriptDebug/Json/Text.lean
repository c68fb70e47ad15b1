/-
# Strings and words of JSON

Readers take a text from its front and give what they read with the text left,
or refuse it for the first problem they meet: the text is no JSON, it is JSON of
another shape, or it ends too early.

A string is read character by character. Escapes by number come in fours of
hexadecimal digits; a lenient reader, which drops the string, does not ask
whether such numbers pair up to a character.

Key definitions: `Json.Refusal`, `Json.skipBlank`, `Json.word`, `Json.StringState`,
`Json.string`.
-/
import ScriptDebug.Text.Blank

namespace ScriptDebug
namespace Json

/-- Why a text is refused. -/
inductive Refusal where
  | notJson
  | wrongShape
  | endsEarly
  deriving DecidableEq, Repr

def isBlank (c : Char) : Bool := c = ' ' || c = '\n' || c = '\t' || c = '\r'

def skipBlank (cs : List Char) : List Char := cs.dropWhile isBlank

/-- Takes the characters of a word off the front of a text. -/
def word : List Char → List Char → Except Refusal (List Char)
  | [], cs => .ok cs
  | _ :: _, [] => .error .endsEarly
  | w :: ws, c :: cs => if c = w then word ws cs else .error .notJson

/-- The character that a backslash and `c` stand for. -/
def unescape? (c : Char) : Option Char :=
  if c = '"' ∨ c = '\\' ∨ c = '/' then some c
  else if c = 'b' then some '\x08'
  else if c = 'f' then some '\x0c'
  else if c = 'n' then some '\n'
  else if c = 'r' then some '\r'
  else if c = 't' then some '\t'
  else none

def hexDigit? (c : Char) : Option Nat :=
  if c.isDigit then some (c.toNat - '0'.toNat)
  else if 'a' ≤ c ∧ c ≤ 'f' then some (c.toNat - 'a'.toNat + 10)
  else if 'A' ≤ c ∧ c ≤ 'F' then some (c.toNat - 'A'.toNat + 10)
  else none

/-- Whether a number is the first or the second half of a pair that stands for one character. -/
def isHighHalf (n : Nat) : Bool := 0xD800 ≤ n && n ≤ 0xDBFF

def isLowHalf (n : Nat) : Bool := 0xDC00 ≤ n && n ≤ 0xDFFF

/-- The character of a pair of halves. -/
def pairChar (high low : Nat) : Char :=
  Char.ofNat ((high - 0xD800) * 0x400 + (low - 0xDC00) + 0x10000)

/-- Where reading a string has got to: in plain text, after a backslash, among the hexadecimal
digits of a number (the first half before it, the value and the count of digits so far), and before
the backslash and before the letter that a second half needs. -/
inductive StringState where
  | plain
  | escape
  | digits (high : Option Nat) (value count : Nat)
  | lowBackslash (high : Nat)
  | lowLetter (high : Nat)

/-- A number starts where at least four bytes are left. -/
def startDigits (high : Option Nat) (cs : List Char) : Except Refusal StringState :=
  if Text.bytes (cs.take 4) < 4 then .error .endsEarly else .ok (.digits high 0 0)

/-- What a number of four digits comes to: a character, or the first half of a pair. -/
def finishDigits (lenient : Bool) (high : Option Nat) (value : Nat) :
    Except Refusal (StringState × Option Char) :=
  if lenient then .ok (.plain, none)
  else match high with
    | some h =>
      if isLowHalf value then .ok (.plain, some (pairChar h value)) else .error .notJson
    | none =>
      if isLowHalf value then .error .notJson
      else if isHighHalf value then .ok (.lowBackslash value, none)
      else .ok (.plain, some (Char.ofNat value))

/-- One character of a string other than the closing quote: the next state, and the character that
is complete with it. `cs` is the text after it. -/
def stringStep (lenient : Bool) (c : Char) (cs : List Char) :
    StringState → Except Refusal (StringState × Option Char)
  | .plain =>
    if c = '\\' then .ok (.escape, none)
    else if c.toNat < 0x20 then .error .notJson
    else .ok (.plain, some c)
  | .escape =>
    if c = 'u' then (startDigits none cs).map fun s => (s, none)
    else match unescape? c with
      | some e => .ok (.plain, some e)
      | none => .error .notJson
  | .digits high value count =>
    match hexDigit? c with
    | none => .error .notJson
    | some d =>
      if count < 3 then .ok (.digits high (16 * value + d) (count + 1), none)
      else finishDigits lenient high (16 * value + d)
  | .lowBackslash high => if c = '\\' then .ok (.lowLetter high, none) else .error .notJson
  | .lowLetter high =>
    if c = 'u' then (startDigits (some high) cs).map fun s => (s, none) else .error .notJson

/-- Whether a character closes the string. -/
def StringState.closes (c : Char) : StringState → Bool
  | .plain => c = '"'
  | _ => false

/-- The rest of a string and the text after its closing quote. `held` is what was read so far, in
reverse. -/
def stringFrom (lenient : Bool) (held : List Char) :
    StringState → List Char → Except Refusal (String × List Char)
  | _, [] => .error .endsEarly
  | s, c :: cs =>
    if s.closes c then .ok (String.ofList held.reverse, cs)
    else match stringStep lenient c cs s with
      | .error e => .error e
      | .ok (s, some e) => stringFrom lenient (e :: held) s cs
      | .ok (s, none) => stringFrom lenient held s cs

/-- The string after an opening quote. -/
def string (cs : List Char) : Except Refusal (String × List Char) :=
  stringFrom false [] .plain cs

/-- Drops the string after an opening quote. -/
def skipString (cs : List Char) : Except Refusal (List Char) :=
  (stringFrom true [] .plain cs).map Prod.snd

end Json
end ScriptDebug
