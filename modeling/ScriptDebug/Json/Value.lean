/-
# Values of JSON

Readers of values of a known shape, and of the parts that lists and objects are
made of. A value of another shape is refused for its shape if it is a scalar
that reads well, or a list or object that begins.

A value that nobody asks for is dropped. The brackets that are open are kept in
a list, so it is a loop over the text however deep the value is nested.

Key definitions: `Json.mismatch`, `Json.size`, `Json.bool`, `Json.text`, `Json.nextItem`,
`Json.nextKey`, `Json.skipValue`.
-/
import ScriptDebug.Json.Number

namespace ScriptDebug
namespace Json

/-- The refusal that a reader of scalars gives with a result of no use. -/
def refusalOf {α : Type} : Except Refusal α → Refusal
  | .error e => e
  | .ok _ => .wrongShape

/-- Why the value at the front of a text is refused, where a value of another shape is asked for. -/
def mismatch : List Char → Refusal
  | [] => .endsEarly
  | c :: cs =>
    if c = 'n' then refusalOf (word "ull".toList cs)
    else if c = 't' then refusalOf (word "rue".toList cs)
    else if c = 'f' then refusalOf (word "alse".toList cs)
    else if c = '-' then refusalOf (number cs)
    else if c.isDigit then refusalOf (number (c :: cs))
    else if c = '"' then refusalOf (string cs)
    else if c = '[' ∨ c = '{' then .wrongShape
    else .notJson

/-! ### Scalars -/

/-- A size: an integer from zero to `2 ^ 64 - 1`. -/
def size (cs : List Char) : Except Refusal (Nat × List Char) :=
  match skipBlank cs with
  | [] => .error .endsEarly
  | c :: rest =>
    if c.isDigit then
      match number (c :: rest) with
      | .ok (.size n, rest) => .ok (n, rest)
      | .ok (.other, _) => .error .wrongShape
      | .error e => .error e
    else .error (mismatch (c :: rest))

def bool (cs : List Char) : Except Refusal (Bool × List Char) :=
  match skipBlank cs with
  | 't' :: rest => (word "rue".toList rest).map (true, ·)
  | 'f' :: rest => (word "alse".toList rest).map (false, ·)
  | rest => .error (mismatch rest)

def text (cs : List Char) : Except Refusal (String × List Char) :=
  match skipBlank cs with
  | '"' :: rest => string rest
  | rest => .error (mismatch rest)

/-- A text, or nothing for `null`. -/
def text? (cs : List Char) : Except Refusal (Option String × List Char) :=
  match skipBlank cs with
  | 'n' :: rest => (word "ull".toList rest).map (none, ·)
  | rest => (text rest).map fun (s, rest) => (some s, rest)

/-- `null` and nothing else. -/
def null (cs : List Char) : Except Refusal (List Char) :=
  match skipBlank cs with
  | 'n' :: rest => word "ull".toList rest
  | rest => .error (mismatch rest)

/-! ### Lists and objects -/

/-- The text at the next item of a list, or none at its end. No comma stands before the first item,
and none after the last. -/
def nextItem (first : Bool) (cs : List Char) : Except Refusal (Option (List Char)) :=
  match skipBlank cs with
  | [] => .error .endsEarly
  | ']' :: _ => .ok none
  | c :: rest =>
    if first then .ok (some (c :: rest))
    else if c = ',' then
      match skipBlank rest with
      | [] => .error .endsEarly
      | ']' :: _ => .error .notJson
      | rest => .ok (some rest)
    else .error .notJson

/-- The text after a bracket that has to come next. -/
def closing (bracket : Char) (cs : List Char) : Except Refusal (List Char) :=
  match skipBlank cs with
  | [] => .error .endsEarly
  | c :: rest => if c = bracket then .ok rest else .error .notJson

/-- The text after the opening quote of the next key of an object, or none at its end. -/
def nextKeyQuote (first : Bool) (cs : List Char) : Except Refusal (Option (List Char)) :=
  match skipBlank cs with
  | [] => .error .endsEarly
  | '}' :: _ => .ok none
  | c :: rest =>
    let key := if first then some (c :: rest) else if c = ',' then some (skipBlank rest) else none
    match key with
    | none => .error .notJson
    | some [] => .error .endsEarly
    | some ('"' :: rest) => .ok (some rest)
    | some _ => .error .notJson

/-- The next key of an object and the text after it, or none at its end. -/
def nextKey (first : Bool) (cs : List Char) : Except Refusal (Option (String × List Char)) := do
  match ← nextKeyQuote first cs with
  | none => .ok none
  | some rest => (string rest).map some

/-- The text after the colon that has to come next. -/
def colon (cs : List Char) : Except Refusal (List Char) := closing ':' cs

/-! ### Values that nobody asks for -/

/-- The text at the value of an object's next member, which comes after a comma or first. -/
def skipKey (cs : List Char) : Except Refusal (List Char) :=
  match skipBlank cs with
  | [] => .error .endsEarly
  | '"' :: rest => do colon (← skipString rest)
  | _ => .error .notJson

/-- Drops a scalar that begins with `c`. -/
def skipScalar (c : Char) (cs : List Char) : Except Refusal (List Char) :=
  if c = 'n' then word "ull".toList cs
  else if c = 't' then word "rue".toList cs
  else if c = 'f' then word "alse".toList cs
  else if c = '-' then skipNumber cs
  else if c.isDigit then skipNumber (c :: cs)
  else if c = '"' then skipString cs
  else .error .notJson

/-- The bracket that closes the one that opened. -/
def closerOf (c : Char) : Char := if c = '[' then ']' else '}'

mutual

/-- Drops the rest of a text's value at whose front a value begins inside the brackets `opened`.
Each call takes a character, so `n` calls are enough for `n` characters. -/
def skipNested (n : Nat) (opened : List Char) (cs : List Char) : Except Refusal (List Char) :=
  match n with
  | 0 => .error .endsEarly
  | n + 1 =>
    match skipBlank cs with
    | [] => .error .endsEarly
    | c :: rest =>
      if c = '[' ∨ c = '{' then
        match skipBlank rest with
        | [] => .error .endsEarly
        | d :: rest =>
          if d = closerOf c then skipAfter n opened rest
          else if c = '[' then skipNested n (c :: opened) (d :: rest)
          else do skipNested n (c :: opened) (← skipKey (d :: rest))
      else do skipAfter n opened (← skipScalar c rest)

/-- Drops what follows a value inside the brackets `opened`. -/
def skipAfter (n : Nat) (opened : List Char) (cs : List Char) : Except Refusal (List Char) :=
  match n, opened with
  | _, [] => .ok cs
  | 0, _ => .error .endsEarly
  | n + 1, c :: opened =>
    match skipBlank cs with
    | [] => .error .endsEarly
    | d :: rest =>
      if d = closerOf c then skipAfter n opened rest
      else if d = ',' then
        if c = '[' then skipNested n (c :: opened) rest
        else do skipNested n (c :: opened) (← skipKey rest)
      else .error .notJson

end

/-- Drops the value at the front of a text of at most `n` characters. -/
def skipValue (n : Nat) (cs : List Char) : Except Refusal (List Char) :=
  skipNested (2 * n + 1) [] cs

end Json
end ScriptDebug
