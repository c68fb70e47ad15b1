/-
# Syntax errors

What can be wrong with a source text, and where. The reader of tokens and the
reader of trees report a problem at a byte offset; the source turns it into a
line and a column.

Key definitions: `SyntaxProblem`, `Misread`, `SyntaxError`, `Source.locate`.
-/
import ScriptDebug.Source

namespace ScriptDebug

inductive SyntaxProblem where
  | invalidNumber (literal : String)
  | unterminatedString
  | unexpectedCharacter (c : Char)
  | nestedTooDeeply
  | expectedName
  | expectedSemicolon
  | expectedBraceClose
  | expectedParenClose
  | unexpectedEnd
  | unexpectedToken
  | invalidTarget
  deriving DecidableEq, Repr

def SyntaxProblem.detail : SyntaxProblem → String
  | .invalidNumber literal => s!"invalid number `{literal}`"
  | .unterminatedString => "unterminated string literal"
  | .unexpectedCharacter c => s!"unexpected character `{c}`"
  | .nestedTooDeeply => "expression nested too deeply"
  | .expectedName => "expected binding name"
  | .expectedSemicolon => "expected `;`"
  | .expectedBraceClose => "expected `\x7d`"
  | .expectedParenClose => "expected `)`"
  | .unexpectedEnd => "unexpected end of input"
  | .unexpectedToken => "unexpected token"
  | .invalidTarget => "invalid assignment target"

/-- A problem at a byte offset. -/
structure Misread where
  problem : SyntaxProblem
  offset : Nat
  deriving DecidableEq, Repr

/-- A problem at a place in a named source. -/
structure SyntaxError where
  problem : SyntaxProblem
  file : String
  place : Source.Place
  deriving DecidableEq, Repr

def SyntaxError.message (e : SyntaxError) : String :=
  let detail := e.problem.detail
  let file := e.file
  let line := e.place.line
  let column := e.place.column
  s!"SyntaxError: {detail} ({file}:{line}:{column})"

def Source.locate (s : Source) (m : Misread) : SyntaxError :=
  { problem := m.problem, file := s.name, place := s.lineCol m.offset }

end ScriptDebug
