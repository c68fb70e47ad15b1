/-
# Tokens

A token is a lexeme with the bytes of the source that it covers.

Key definitions: `Span`, `Lexeme`, `Token`.
-/

namespace ScriptDebug

/-- The bytes from `start` up to, and without, `stop`. -/
structure Span where
  start : Nat
  stop : Nat
  deriving DecidableEq, Repr

/-- From the start of the one to the end of the other. -/
def Span.to (a b : Span) : Span := ⟨a.start, b.stop⟩

inductive Lexeme where
  | number (value : Float)
  | string (value : String)
  | name (text : String)
  | kwLet
  | kwVar
  | kwDebugger
  | kwThis
  | kwTrue
  | kwFalse
  | kwNull
  | kwUndefined
  | parenOpen
  | parenClose
  | braceOpen
  | braceClose
  | semicolon
  | assign
  | plus
  | minus
  | star
  | slash
  | percent
  | bang
  | eqEq
  | notEq
  | lt
  | le
  | gt
  | ge
  deriving BEq, Repr

structure Token where
  lexeme : Lexeme
  span : Span
  deriving BEq, Repr

namespace Lexeme

/-- The reserved words. -/
def keyword? (word : String) : Option Lexeme :=
  if word = "let" then some kwLet
  else if word = "var" then some kwVar
  else if word = "debugger" then some kwDebugger
  else if word = "this" then some kwThis
  else if word = "true" then some kwTrue
  else if word = "false" then some kwFalse
  else if word = "null" then some kwNull
  else if word = "undefined" then some kwUndefined
  else none

def ofWord (word : String) : Lexeme := (keyword? word).getD (name word)

/-- The signs that end in an equals sign, by the character before it. -/
def withEquals? (c : Char) : Option Lexeme :=
  if c = '=' then some eqEq
  else if c = '!' then some notEq
  else if c = '<' then some le
  else if c = '>' then some ge
  else none

/-- The signs of one character. -/
def sign? (c : Char) : Option Lexeme :=
  if c = '=' then some assign
  else if c = '!' then some bang
  else if c = '<' then some lt
  else if c = '>' then some gt
  else if c = '(' then some parenOpen
  else if c = ')' then some parenClose
  else if c = '{' then some braceOpen
  else if c = '}' then some braceClose
  else if c = ';' then some semicolon
  else if c = '+' then some plus
  else if c = '-' then some minus
  else if c = '*' then some star
  else if c = '/' then some slash
  else if c = '%' then some percent
  else none

end Lexeme
end ScriptDebug
