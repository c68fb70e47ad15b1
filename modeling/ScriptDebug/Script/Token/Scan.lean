/-
# Reading tokens

Between tokens stand ASCII white space and comments from `//` to the end of the
line. A token is the longest one at its place. The first text that is no token
is an error at its offset.

Key definitions: `Token.readLexeme`, `Token.scan`, `Token.ofText`.
-/
import ScriptDebug.Number.Literal
import ScriptDebug.Script.Error
import ScriptDebug.Script.Token

namespace ScriptDebug
namespace Token

/-- White space between tokens. Other blanks of Unicode are not part of the language. -/
def isSpace (c : Char) : Bool := c = ' ' || c = '\t' || c = '\n' || c = '\x0c' || c = '\r'

def startsName (c : Char) : Bool := c.isAlpha || c = '_' || c = '$'

def continuesName (c : Char) : Bool := c.isAlphanum || c = '_' || c = '$'

def inNumber (c : Char) : Bool := c.isDigit || c = '.'

/-- A number starts with a digit, or with a point and a digit. -/
def startsNumber (c : Char) (cs : List Char) : Bool :=
  c.isDigit || (c = '.' && cs.head?.any Char.isDigit)

/-- The character that a backslash and `c` stand for. -/
def unescape (c : Char) : Char := if c = 'n' then '\n' else if c = 't' then '\t' else c

/-- What a string holds, the bytes it takes with its closing quote, and the text after that.
`held` is what was read so far in reverse, `width` its bytes. There is no string if the text or the
line ends first. -/
def stringBody (quote : Char) (held : List Char) (width : Nat) :
    List Char → Option (String × Nat × List Char)
  | [] => none
  | ['\\'] => none
  | '\\' :: c :: cs => stringBody quote (unescape c :: held) (width + 1 + c.utf8Size) cs
  | c :: cs =>
    if c = quote then some (String.ofList held.reverse, width + 1, cs)
    else if c = '\n' then none
    else stringBody quote (c :: held) (width + c.utf8Size) cs

/-- The number that a run of digits and points writes. -/
def numeral (literal : List Char) : Except SyntaxProblem Lexeme :=
  match Number.readDecimal? literal with
  | some x => .ok (.number x)
  | none => .error (.invalidNumber (String.ofList literal))

/-- The lexeme that starts with `c`, its bytes, and the text after it. -/
def readLexeme (c : Char) (cs : List Char) : Except SyntaxProblem (Lexeme × Nat × List Char) :=
  if startsNumber c cs then
    match numeral (c :: cs.takeWhile inNumber) with
    | .ok l => .ok (l, (c :: cs.takeWhile inNumber).length, cs.dropWhile inNumber)
    | .error problem => .error problem
  else if c = '"' ∨ c = '\'' then
    match stringBody c [] 0 cs with
    | some (s, width, rest) => .ok (.string s, 1 + width, rest)
    | none => .error .unterminatedString
  else if startsName c then
    .ok (.ofWord (String.ofList (c :: cs.takeWhile continuesName)),
      (c :: cs.takeWhile continuesName).length, cs.dropWhile continuesName)
  else match Lexeme.withEquals? c, cs with
    | some l, '=' :: rest => .ok (l, 2, rest)
    | _, _ => match Lexeme.sign? c with
      | some l => .ok (l, 1, cs)
      | none => .error (.unexpectedCharacter c)

theorem length_dropWhile_le {α : Type} (p : α → Bool) (l : List α) :
    (l.dropWhile p).length ≤ l.length :=
  (List.dropWhile_suffix p).length_le

theorem stringBody_length {quote : Char} {held : List Char} {width : Nat} {cs : List Char}
    {s : String} {w : Nat} {rest : List Char}
    (h : stringBody quote held width cs = some (s, w, rest)) : rest.length < cs.length := by
  fun_induction stringBody quote held width cs <;> grind

theorem readLexeme_length {c : Char} {cs : List Char} {l : Lexeme} {w : Nat} {rest : List Char}
    (h : readLexeme c cs = .ok (l, w, rest)) : rest.length ≤ cs.length := by
  unfold readLexeme at h
  split at h
  · split at h <;> grind [length_dropWhile_le]
  · split at h
    · split at h
      · next hs => have := stringBody_length hs; grind
      · grind
    · split at h
      · grind [length_dropWhile_le]
      · split at h
        · grind
        · split at h <;> grind

/-- Appends the tokens of a text that begins at offset `o`. -/
def scan (tokens : Array Token) (o : Nat) (cs : List Char) : Except Misread (Array Token) :=
  match cs with
  | [] => .ok tokens
  | c :: cs =>
    if isSpace c then scan tokens (o + 1) cs
    else if c = '/' ∧ cs.head? = some '/' then
      scan tokens (o + 1 + Text.bytes (cs.takeWhile (· ≠ '\n'))) (cs.dropWhile (· ≠ '\n'))
    else match _h : readLexeme c cs with
      | .error problem => .error ⟨problem, o⟩
      | .ok (l, width, rest) => scan (tokens.push ⟨l, ⟨o, o + width⟩⟩) (o + width) rest
termination_by cs.length
decreasing_by
  · simp
  · have := length_dropWhile_le (· ≠ '\n') cs
    simp only [List.length_cons]
    omega
  · have := readLexeme_length _h
    simp only [List.length_cons]
    omega

/-- The tokens of a text. -/
def ofText (text : String) : Except Misread (List Token) :=
  (scan #[] 0 text.toList).map Array.toList

end Token
end ScriptDebug
