/-
# Settings from JSON

Settings are an object with a member for each setting that is not to have its
default, or a list of their values in order, of which the last ones may be
missing. A member with another name is refused, and so is a second one of a
name, both where the name is read. A breakpoint is an object or a list too; of
an object other members are dropped, and nothing may be missing.

Key definitions: `Settings.Field`, `Settings.Field.read`, `Settings.ofJson`.
-/
import ScriptDebug.Json.Value
import ScriptDebug.Settings

namespace ScriptDebug

open Json (Refusal)

/-! ### Breakpoints -/

namespace Breakpoint

/-- A breakpoint whose filename and line may not have been read yet. -/
structure Draft where
  filename : Option String
  line : Option Nat

/-- A breakpoint lacks nothing. -/
def Draft.finish (d : Draft) : Except Refusal Breakpoint :=
  match d.filename, d.line with
  | some filename, some line => .ok ⟨filename, line⟩
  | _, _ => .error .wrongShape

/-- The members of a breakpoint, from a key on, in a text of at most `n` characters. Each member
takes some of them, so there are not more than `n`. -/
def members (n : Nat) (first : Bool) (d : Draft) (cs : List Char) :
    Except Refusal (Draft × List Char) :=
  match n with
  | 0 => .error .endsEarly
  | n + 1 => do
    match ← Json.nextKey first cs with
    | none => .ok (d, cs)
    | some (key, cs) =>
      if key = "filename" then
        if d.filename.isSome then .error .wrongShape
        else
          let (filename, cs) ← Json.text (← Json.colon cs)
          members n false { d with filename := some filename } cs
      else if key = "line" then
        if d.line.isSome then .error .wrongShape
        else
          let (line, cs) ← Json.size (← Json.colon cs)
          members n false { d with line := some line } cs
      else members n false d (← Json.skipValue n (← Json.colon cs))

/-- An item of a list that has to be there. -/
def item (first : Bool) (cs : List Char) : Except Refusal (List Char) := do
  match ← Json.nextItem first cs with
  | some cs => .ok cs
  | none => .error .wrongShape

/-- A breakpoint at the front of a text of at most `n` characters. -/
def read (n : Nat) (cs : List Char) : Except Refusal (Breakpoint × List Char) :=
  match Json.skipBlank cs with
  | '{' :: cs => do
    let (d, cs) ← members n true ⟨none, none⟩ cs
    let b ← d.finish
    .ok (b, ← Json.closing '}' cs)
  | '[' :: cs => do
    let (filename, cs) ← Json.text (← item true cs)
    let (line, cs) ← Json.size (← item false cs)
    .ok (⟨filename, line⟩, ← Json.closing ']' cs)
  | cs => .error (Json.mismatch cs)

/-- The items of a list of breakpoints, from one on, in a text of at most `n` characters. -/
def items (n : Nat) (first : Bool) (done : List Breakpoint) (cs : List Char) :
    Except Refusal (List Breakpoint × List Char) :=
  match n with
  | 0 => .error .endsEarly
  | n + 1 => do
    match ← Json.nextItem first cs with
    | none => .ok (done.reverse, cs)
    | some cs =>
      let (b, cs) ← read n cs
      items n false (b :: done) cs

/-- A list of breakpoints in JSON. -/
def readList (cs : List Char) : Except Refusal (List Breakpoint × List Char) :=
  match Json.skipBlank cs with
  | '[' :: cs => do
    let (bs, cs) ← items cs.length true [] cs
    .ok (bs, ← Json.closing ']' cs)
  | cs => .error (Json.mismatch cs)

end Breakpoint

/-! ### Styles -/

namespace ListStyle

/-- The style of a name. -/
def ofName (name : String) : Except Refusal ListStyle :=
  if name = "window" then .ok .window
  else if name = "plain" then .ok .plain
  else .error .wrongShape

/-- A style in JSON: its name, or an object whose one member has this name and is `null`. -/
def read (cs : List Char) : Except Refusal (ListStyle × List Char) :=
  match Json.skipBlank cs with
  | [] => .error .endsEarly
  | '"' :: cs => do
    let (name, cs) ← Json.string cs
    .ok (← ofName name, cs)
  | '{' :: cs => do
    let (name, cs) ← Json.text cs
    let style ← ofName name
    let cs ← Json.null (← Json.colon cs)
    .ok (style, ← Json.closing '}' cs)
  | _ => .error .notJson

end ListStyle

/-! ### Settings -/

namespace Settings

/-- The settings, in the order in which a list has them. -/
inductive Field where
  | breakpoints
  | stopOnEntry
  | listStyle
  | listRadius
  | color
  | historyFile
  | logLevel
  deriving DecidableEq, Repr

namespace Field

def all : List Field :=
  [breakpoints, stopOnEntry, listStyle, listRadius, color, historyFile, logLevel]

def name : Field → String
  | breakpoints => "breakpoints"
  | stopOnEntry => "stop_on_entry"
  | listStyle => "list_style"
  | listRadius => "list_radius"
  | color => "color"
  | historyFile => "history_file"
  | logLevel => "log_level"

/-- Reads the value of a setting into settings. -/
def read (s : Settings) (cs : List Char) : Field → Except Refusal (Settings × List Char)
  | breakpoints => do
    let (v, cs) ← Breakpoint.readList cs
    .ok ({ s with breakpoints := v }, cs)
  | stopOnEntry => do
    let (v, cs) ← Json.bool cs
    .ok ({ s with stopOnEntry := v }, cs)
  | listStyle => do
    let (v, cs) ← ListStyle.read cs
    .ok ({ s with listStyle := v }, cs)
  | listRadius => do
    let (v, cs) ← Json.size cs
    .ok ({ s with listRadius := v }, cs)
  | color => do
    let (v, cs) ← Json.bool cs
    .ok ({ s with color := v }, cs)
  | historyFile => do
    let (v, cs) ← Json.text? cs
    .ok ({ s with historyFile := v }, cs)
  | logLevel => do
    let (v, cs) ← Json.text? cs
    .ok ({ s with logLevel := v }, cs)

end Field

/-- The members of settings, from a key on. `left` are the settings that have not come yet. -/
def members (left : List Field) (first : Bool) (s : Settings) (cs : List Char) :
    Except Refusal (Settings × List Char) := do
  match ← Json.nextKey first cs with
  | none => .ok (s, cs)
  | some (key, cs) =>
    match _found : left.find? (·.name == key) with
    | none => .error .wrongShape
    | some field =>
      let (s, cs) ← field.read s (← Json.colon cs)
      members (left.erase field) false s cs
termination_by left.length
decreasing_by
  have mem := List.mem_of_find?_eq_some _found
  have pos := List.length_pos_of_mem mem
  rw [List.length_erase_of_mem mem]
  omega

/-- The values of settings in order, as many as there are. -/
def items (s : Settings) (first : Bool) (cs : List Char) :
    List Field → Except Refusal (Settings × List Char)
  | [] => .ok (s, cs)
  | field :: fields => do
    match ← Json.nextItem first cs with
    | none => .ok (s, cs)
    | some cs =>
      let (s, cs) ← field.read s cs
      items s false cs fields

/-- Settings at the front of a text. -/
def read (cs : List Char) : Except Refusal (Settings × List Char) :=
  match Json.skipBlank cs with
  | '{' :: cs => do
    let (s, cs) ← members Field.all true default cs
    .ok (s, ← Json.closing '}' cs)
  | '[' :: cs => do
    let (s, cs) ← items default true cs Field.all
    .ok (s, ← Json.closing ']' cs)
  | cs => .error (Json.mismatch cs)

/-- The settings of a text, after which only blanks may come. -/
def ofJson (text : String) : Except Refusal Settings := do
  let (s, rest) ← read text.toList
  if (Json.skipBlank rest).isEmpty then .ok s else .error .notJson

end Settings
end ScriptDebug
