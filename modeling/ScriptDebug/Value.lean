/-
# Values

What a script computes with. Objects are known by identity only; the machine
keeps the properties of the one object that has any, the global object.

Key definitions: `ObjectRef`, `Value`, `Value.same`, `Value.toNumber`, `Value.truthy`, `Value.text`.
-/
import ScriptDebug.Number.Literal
import ScriptDebug.Number.Shortest

namespace ScriptDebug

/-- The identity of an object: the global object, or another by its number. -/
inductive ObjectRef where
  | global
  | other (number : Nat)
  deriving DecidableEq, Repr

/-- A value. `unresolved` stands for a name that no scope holds. -/
inductive Value where
  | undefined
  | null
  | bool (value : Bool)
  | number (value : Float)
  | string (value : String)
  | object (ref : ObjectRef)
  | unresolved (name : String)
  deriving Repr, Inhabited

namespace Value

/-- Strict equality. Numbers compare as numbers do, so one that is none equals nothing. -/
def same : Value → Value → Bool
  | undefined, undefined => true
  | null, null => true
  | bool a, bool b => a == b
  | number a, number b => a == b
  | string a, string b => a == b
  | object a, object b => a == b
  | unresolved a, unresolved b => a == b
  | _, _ => false

def isUndefined : Value → Bool
  | undefined => true
  | _ => false

/-- The number that a text stands for: zero if it is blank, and no number if it is not numeric. -/
def numberOfText (s : String) : Float :=
  let trimmed := Text.trim s.toList
  if trimmed.isEmpty then 0 else (Number.read? trimmed).getD (0 / 0)

def toNumber : Value → Float
  | null => 0
  | bool b => if b then 1 else 0
  | number x => x
  | string s => numberOfText s
  | undefined | object _ | unresolved _ => 0 / 0

def truthy : Value → Bool
  | undefined | null | unresolved _ => false
  | bool b => b
  | number x => x != 0 && !x.isNaN
  | string s => !s.isEmpty
  | object _ => true

/-- The text that shows a value. -/
def text : Value → String
  | undefined => "undefined"
  | null => "null"
  | bool b => if b then "true" else "false"
  | number x => Number.text x
  | string s => s
  | object _ => "[object Object]"
  | unresolved name => s!"<unresolved {name}>"

end Value
end ScriptDebug
