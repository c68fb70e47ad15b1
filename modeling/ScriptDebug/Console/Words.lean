/-
# Words of a line

Words are parted by spaces, tabs and line feeds. Quotes and backslashes take
such characters, and each other, into a word; a `#` where a word could start
begins a comment to the end of the line. A quote or a backslash that the text
leaves open makes it no list of words.

Key definitions: `Console.words?`.
-/

namespace ScriptDebug
namespace Console

/-- Whether a character parts words. -/
def partsWords (c : Char) : Bool := c = ' ' || c = '\t' || c = '\n'

/-- Where reading a line of words has got to, with the characters of the open word in reverse:
between words, in a comment, in a word, after a backslash in it, in single or double quotes, and
after a backslash in double quotes. -/
inductive WordState where
  | between
  | comment
  | word (held : List Char)
  | escape (held : List Char)
  | single (held : List Char)
  | double (held : List Char)
  | doubleEscape (held : List Char)

/-- Whether a backslash between double quotes takes a character's meaning away. -/
def escapable (c : Char) : Bool := c = '$' || c = '`' || c = '"' || c = '\\'

/-- The state inside a word after a character that stands in no quotes. -/
def inWord (held : List Char) (c : Char) : WordState :=
  if c = '"' then .double held
  else if c = '\'' then .single held
  else if c = '\\' then .escape held
  else .word (c :: held)

/-- The words of a text from a state on, after the words read before. -/
def wordsFrom (words : List String) : WordState → List Char → Option (List String)
  | .between, [] => some words.reverse
  | .comment, [] => some words.reverse
  | .word held, [] => some (String.ofList held.reverse :: words).reverse
  | _, [] => none
  | .between, c :: cs =>
    if partsWords c then wordsFrom words .between cs
    else if c = '#' then wordsFrom words .comment cs
    else wordsFrom words (inWord [] c) cs
  | .comment, c :: cs => wordsFrom words (if c = '\n' then .between else .comment) cs
  | .word held, c :: cs =>
    if partsWords c then wordsFrom (String.ofList held.reverse :: words) .between cs
    else wordsFrom words (inWord held c) cs
  | .escape held, c :: cs => wordsFrom words (.word (if c = '\n' then held else c :: held)) cs
  | .single held, c :: cs =>
    wordsFrom words (if c = '\'' then .word held else .single (c :: held)) cs
  | .double held, c :: cs =>
    wordsFrom words
      (if c = '"' then .word held else if c = '\\' then .doubleEscape held
        else .double (c :: held)) cs
  | .doubleEscape held, c :: cs =>
    wordsFrom words
      (.double (if escapable c then c :: held else if c = '\n' then held
        else c :: '\\' :: held)) cs

/-- The words of a text. -/
def words? (s : List Char) : Option (List String) := wordsFrom [] .between s

end Console
end ScriptDebug
