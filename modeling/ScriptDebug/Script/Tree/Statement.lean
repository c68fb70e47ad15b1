/-
# Reading statements from tokens

Statements are read until a closing brace or the end. Every statement takes at
least one token, which the results carry along as a proof, and a block takes
one from the nesting budget of what stands in it.

Key definitions: `Tree.maxNesting`, `Tree.statement`, `Tree.statements`,
`Tree.ofTokens`, `Tree.ofSource`.
-/
import ScriptDebug.Script.Tree.Expression

namespace ScriptDebug
namespace Tree

/-- The deepest nesting of a source. -/
def maxNesting : Nat := 256

/-- The end of a statement is its semicolon; before a closing brace and at the end of the text
there may be none. The span is that of the token which ends it. -/
def terminator (stop : Nat) : List Token → Except Misread (Span × List Token)
  | [] => .ok (⟨stop, stop⟩, [])
  | t :: rest =>
    match t.lexeme with
    | .semicolon => .ok (t.span, rest)
    | .braceClose => .ok (t.span, t :: rest)
    | _ => fail .expectedSemicolon t.span.start

theorem terminator_length {stop : Nat} {ts rest : List Token} {span : Span}
    (h : terminator stop ts = .ok (span, rest)) : rest.length ≤ ts.length := by
  unfold terminator at h
  split at h
  · grind
  · split at h <;> grind [fail]

/-- What a declaration gives its name, if it says. -/
def initialiser (stop budget : Nat) : List Token → Except Misread (Option Expr × List Token)
  | ⟨.assign, _⟩ :: rest => do
    let (value, rest) ← assignment stop budget rest
    .ok (some value, rest)
  | ts => .ok (none, ts)

theorem initialiser_length {stop budget : Nat} {ts rest : List Token} {init : Option Expr}
    (h : initialiser stop budget ts = .ok (init, rest)) : rest.length ≤ ts.length := by
  unfold initialiser at h
  split at h
  · obtain ⟨⟨value, left⟩, hv, h⟩ := bind_eq_ok.1 h
    have hv := assignment_shorter hv
    grind
  · grind

/-- A declaration after its keyword, whose span is `start`. -/
def declaration (stop budget : Nat) (how : Declaration) (start : Span) :
    List Token → Except Misread (Stmt × List Token)
  | ⟨.name x, _⟩ :: rest => do
    let (init, rest) ← initialiser stop budget rest
    let (last, rest) ← terminator stop rest
    .ok (.declare (start.to last) how x init, rest)
  | _ => fail .expectedName start.stop

/-- A statement that is neither empty nor a block, from its first token `t` on. -/
def simple (stop budget : Nat) (t : Token) (ts : List Token) : Except Misread (Stmt × List Token) :=
  match t.lexeme with
  | .kwDebugger => do
    let (last, rest) ← terminator stop ts
    .ok (.pause (t.span.to last), rest)
  | .kwLet => declaration stop budget .lexical t.span ts
  | .kwVar => declaration stop budget .globalProperty t.span ts
  | _ => do
    let (value, rest) ← assignment stop budget (t :: ts)
    let (last, rest) ← terminator stop rest
    .ok (.expr (t.span.to last) value, rest)

theorem declaration_length {stop budget : Nat} {how : Declaration} {start : Span}
    {ts rest : List Token} {s : Stmt} (h : declaration stop budget how start ts = .ok (s, rest)) :
    rest.length ≤ ts.length := by
  unfold declaration at h
  split at h
  · obtain ⟨⟨init, left⟩, hi, h⟩ := bind_eq_ok.1 h
    obtain ⟨⟨last, left⟩, hl, h⟩ := bind_eq_ok.1 h
    have hi := initialiser_length hi
    have hl := terminator_length hl
    grind
  · grind [fail]

theorem simple_length {stop budget : Nat} {t : Token} {ts rest : List Token} {s : Stmt}
    (h : simple stop budget t ts = .ok (s, rest)) : rest.length ≤ ts.length := by
  unfold simple at h
  split at h
  · obtain ⟨⟨last, left⟩, hl, h⟩ := bind_eq_ok.1 h
    have hl := terminator_length hl
    grind
  · exact declaration_length h
  · exact declaration_length h
  · obtain ⟨⟨value, left⟩, hv, h⟩ := bind_eq_ok.1 h
    obtain ⟨⟨last, left⟩, hl, h⟩ := bind_eq_ok.1 h
    have hv := assignment_shorter hv
    have hl := terminator_length hl
    grind

/-- The tokens left after no or some statements read from `ts`. -/
abbrev NotLonger (ts : List Token) := { rest : List Token // rest.length ≤ ts.length }

/-- A result with the bound on what is left put beside it. -/
def bounded {ts : List Token} (r : Except Misread (Stmt × List Token))
    (h : ∀ s rest, r = .ok (s, rest) → rest.length ≤ ts.length) :
    Except Misread (Stmt × NotLonger ts) :=
  match r, h with
  | .ok (s, rest), h => .ok (s, ⟨rest, h s rest rfl⟩)
  | .error e, _ => .error e

mutual

/-- The statement that starts with the token `t`. -/
def statement (stop budget : Nat) (t : Token) (ts : List Token) :
    Except Misread (Stmt × NotLonger ts) :=
  match t.lexeme with
  | .semicolon => .ok (.empty t.span, ⟨ts, Nat.le_refl _⟩)
  | .braceOpen => do
    let ⟨inner, _⟩ ← descend budget (here stop ts)
    let (body, ⟨rest, hr⟩) ← statements stop inner ts
    match rest, hr with
    | [], _ => fail .expectedBraceClose stop
    | close :: rest, hr =>
      .ok (.block (t.span.to close.span) body, ⟨rest, Nat.le_trans (Nat.le_succ _) hr⟩)
  | _ => bounded (simple stop budget t ts) fun _ _ => simple_length
termination_by 2 * ts.length + 1

/-- The statements up to a closing brace or the end. -/
def statements (stop budget : Nat) (ts : List Token) : Except Misread (List Stmt × NotLonger ts) :=
  match ts with
  | [] => .ok ([], ⟨[], Nat.le_refl _⟩)
  | t :: rest =>
    match t.lexeme with
    | .braceClose => .ok ([], ⟨t :: rest, Nat.le_refl _⟩)
    | _ => do
      let (s, ⟨left, hl⟩) ← statement stop budget t rest
      let (more, ⟨left, hm⟩) ← statements stop budget left
      .ok (s :: more, ⟨left, Nat.le_trans hm (Nat.le_succ_of_le hl)⟩)
termination_by 2 * ts.length

end

/-- The statements of a whole text, whose tokens are `ts` and whose length is `stop`. A brace that
closes no block is no statement. -/
def ofTokens (stop : Nat) (ts : List Token) : Except Misread (List Stmt) := do
  let (body, ⟨rest, _⟩) ← statements stop maxNesting ts
  match rest with
  | [] => .ok body
  | t :: _ => fail .unexpectedToken t.span.start

/-- The tree of a source. -/
def ofSource (s : Source) : Except SyntaxError (List Stmt) :=
  match Token.ofText s.text >>= ofTokens s.text.utf8ByteSize with
  | .ok body => .ok body
  | .error e => .error (s.locate e)

end Tree
end ScriptDebug
