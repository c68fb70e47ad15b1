/-
# Settings are read back from JSON

Settings are written as an object with a member for each setting of a list. Where
every setting that is left out has its default, the settings themselves are read from
that object, whatever the order of the members; a member of another name anywhere
among them makes the object no settings (`settings_survive_json`).

A member that is read takes its field off the ones that have not come yet and copies
one setting (`Settings.members_member`); the members of an object do so one after the
other (`Settings.members_listed`). What is copied stays, and what is not copied is
the default.

Key definitions: `Breakpoint.json`, `Settings.json`, `Settings.copyAll`,
`Settings.Field.Same`, `Settings.Sized`.
Key theorems: `Breakpoint.readList_json`, `Settings.Field.read_json`,
`Settings.members_listed`, `settings_survive_json`.
-/
import ScriptDebug.Proofs.Json.Writing
import ScriptDebug.Settings.OfJson

namespace ScriptDebug

variable {cs : List Char}

/-! ### Breakpoints -/

namespace Breakpoint

def json (b : Breakpoint) : List Char :=
  Json.object [("filename", Json.quoted b.filename), ("line", b.line.repr.toList)]

theorem members_filename {n : Nat} {first : Bool} {d : Draft} (hd : d.filename = none)
    (filename : String) :
    members (n + 1) first d
        (Json.comma first ++ (Json.member ("filename", Json.quoted filename) ++ cs)) =
      members n false { d with filename := some filename } cs := by
  rw [Json.member_append, members, Json.bind_of_ok (Json.nextKey_comma first _)]
  dsimp only
  rw [if_pos rfl, hd, Option.isSome_none, if_neg Bool.false_ne_true,
    Json.bind_of_ok (Json.colon_cons _),
    Json.bind_of_ok (Json.text_quoted filename)]

theorem members_line {n line : Nat} {first : Bool} {d : Draft} (hd : d.line = none)
    (hline : line ≤ Number.maxSize) (h : Json.Follows cs) :
    members (n + 1) first d (Json.comma first ++ (Json.member ("line", line.repr.toList) ++ cs)) =
      members n false { d with line := some line } cs := by
  rw [Json.member_append, members, Json.bind_of_ok (Json.nextKey_comma first _)]
  dsimp only
  rw [if_neg (by decide), if_pos rfl, hd, Option.isSome_none, if_neg Bool.false_ne_true,
    Json.bind_of_ok (Json.colon_cons _), Json.bind_of_ok (Json.size_repr hline h)]

theorem members_end {n : Nat} {first : Bool} (d : Draft) :
    members (n + 1) first d ('}' :: cs) = .ok (d, '}' :: cs) := by
  rw [members, Json.bind_of_ok (Json.nextKey_end first)]

/-- A breakpoint is read back. The bound is enough for two members and their end. -/
theorem read_json {n : Nat} {b : Breakpoint} (hb : b.line ≤ Number.maxSize) (hn : 3 ≤ n) :
    read n (b.json ++ cs) = .ok (b, cs) := by
  obtain ⟨n, rfl⟩ := Nat.exists_eq_add_of_le' hn
  have hmembers : members (n + 3) true ⟨none, none⟩
      (Json.listed true ([("filename", Json.quoted b.filename), ("line", b.line.repr.toList)].map
        Json.member) ++ '}' :: cs) = .ok (⟨some b.filename, some b.line⟩, '}' :: cs) := by
    rw [List.map_cons, List.map_singleton, Json.listed_cons, members_filename rfl, Json.listed_cons,
      members_line rfl hb (Json.follows_listed (.objectEnd cs) [])]
    exact members_end _
  rw [json, Json.object_append, read, Json.skipBlank_cons rfl]
  show (members (n + 3) true ⟨none, none⟩ _ >>= _) = _
  rw [Json.bind_of_ok hmembers]
  rfl

theorem four_le_length_json (b : Breakpoint) : 4 ≤ b.json.length := by
  simp only [json, Json.object, Json.listed, Json.member, Json.quoted, List.map_cons,
    List.length_append, List.length_cons]
  omega

/-- Breakpoints are read back one after the other. Each takes characters enough for the bound. -/
theorem items_json {n : Nat} {first : Bool} {bs done : List Breakpoint}
    (hbs : ∀ b ∈ bs, b.line ≤ Number.maxSize)
    (hn : (Json.listed first (bs.map json) ++ ']' :: cs).length ≤ n) :
    items n first done (Json.listed first (bs.map json) ++ ']' :: cs) =
      .ok (done.reverse ++ bs, ']' :: cs) := by
  induction bs generalizing n first done with
  | nil =>
    simp only [List.length_append, List.length_cons] at hn
    obtain ⟨n, rfl⟩ : ∃ m, n = m + 1 := ⟨n - 1, by omega⟩
    show items (n + 1) first done (']' :: cs) = _
    rw [items, Json.bind_of_ok (Json.nextItem_end first), List.append_nil]
  | cons b bs ih =>
    rw [List.map_cons, Json.listed_cons] at hn ⊢
    simp only [List.length_append, List.length_cons] at hn
    have hlength := four_le_length_json b
    obtain ⟨n, rfl⟩ : ∃ m, n = m + 1 := ⟨n - 1, by omega⟩
    have hitem : Json.nextItem first
        (Json.comma first ++ (b.json ++ (Json.listed false (bs.map json) ++ ']' :: cs))) =
        .ok (some (b.json ++ (Json.listed false (bs.map json) ++ ']' :: cs))) := by
      rw [json, Json.object_append]
      exact Json.nextItem_object first
    rw [items, Json.bind_of_ok hitem]
    dsimp only
    rw [Json.bind_of_ok (read_json (hbs b List.mem_cons_self) (by omega)),
      ih fun b' hb' => hbs b' (List.mem_cons_of_mem b hb')]
    · rw [List.reverse_cons, List.append_assoc, List.singleton_append]
    · simp only [List.length_append, List.length_cons]
      omega

theorem readList_json {bs : List Breakpoint} (hbs : ∀ b ∈ bs, b.line ≤ Number.maxSize) :
    readList (Json.list (bs.map json) ++ cs) = .ok (bs, cs) := by
  rw [Json.list_append, readList, Json.skipBlank_cons rfl]
  show (items (List.length _) true [] _ >>= _) = _
  rw [Json.bind_of_ok (items_json hbs (Nat.le_refl _))]
  rfl

end Breakpoint

/-! ### Styles -/

namespace ListStyle

def name : ListStyle → String
  | window => "window"
  | plain => "plain"

theorem read_name (style : ListStyle) : read (Json.quoted style.name ++ cs) = .ok (style, cs) := by
  rw [Json.quoted_append, read, Json.skipBlank_cons rfl]
  show (Json.string _ >>= _) = _
  rw [Json.bind_of_ok (Json.string_quoted _)]
  cases style <;> rfl

end ListStyle

/-! ### Single settings -/

namespace Settings

/-- The numbers of the settings are sizes. -/
structure Sized (s : Settings) : Prop where
  listRadius : s.listRadius ≤ Number.maxSize
  line : ∀ b ∈ s.breakpoints, b.line ≤ Number.maxSize

namespace Field

/-- A setting as it is written. -/
def json (s : Settings) : Field → List Char
  | breakpoints => Json.list (s.breakpoints.map Breakpoint.json)
  | stopOnEntry => Json.truth s.stopOnEntry
  | listStyle => Json.quoted s.listStyle.name
  | listRadius => s.listRadius.repr.toList
  | color => Json.truth s.color
  | historyFile => Json.optional s.historyFile
  | logLevel => Json.optional s.logLevel

/-- Settings with one setting from others, `s`. -/
def copy (s t : Settings) : Field → Settings
  | breakpoints => { t with breakpoints := s.breakpoints }
  | stopOnEntry => { t with stopOnEntry := s.stopOnEntry }
  | listStyle => { t with listStyle := s.listStyle }
  | listRadius => { t with listRadius := s.listRadius }
  | color => { t with color := s.color }
  | historyFile => { t with historyFile := s.historyFile }
  | logLevel => { t with logLevel := s.logLevel }

/-- The setting is the same in both. -/
def Same (s t : Settings) : Field → Prop
  | breakpoints => s.breakpoints = t.breakpoints
  | stopOnEntry => s.stopOnEntry = t.stopOnEntry
  | listStyle => s.listStyle = t.listStyle
  | listRadius => s.listRadius = t.listRadius
  | color => s.color = t.color
  | historyFile => s.historyFile = t.historyFile
  | logLevel => s.logLevel = t.logLevel

variable {s t : Settings}

/-- A setting is read back, into whatever settings. -/
theorem read_json (hs : s.Sized) (h : Json.Follows cs) (f : Field) :
    Field.read t (f.json s ++ cs) f = .ok (f.copy s t, cs) := by
  cases f with
  | breakpoints => exact Json.bind_of_ok (Breakpoint.readList_json hs.line)
  | stopOnEntry => exact Json.bind_of_ok (Json.bool_truth s.stopOnEntry)
  | listStyle => exact Json.bind_of_ok (ListStyle.read_name s.listStyle)
  | listRadius => exact Json.bind_of_ok (Json.size_repr hs.listRadius h)
  | color => exact Json.bind_of_ok (Json.bool_truth s.color)
  | historyFile => exact Json.bind_of_ok (Json.text?_optional s.historyFile)
  | logLevel => exact Json.bind_of_ok (Json.text?_optional s.logLevel)

theorem same_copy (f : Field) : f.Same s (f.copy s t) := by
  cases f <;> rfl

theorem Same.copy {f : Field} (h : f.Same s t) (g : Field) : f.Same s (g.copy s t) := by
  cases f <;> cases g <;> first | exact h | rfl

theorem name_injective : Function.Injective name := by
  intro f g
  cases f <;> cases g <;> decide

end Field

variable {s t : Settings}

theorem eq_of_same (h : ∀ f : Field, f.Same s t) : s = t := by
  cases s
  cases t
  congr
  exacts [h .breakpoints, h .stopOnEntry, h .listStyle, h .listRadius, h .color, h .historyFile,
    h .logLevel]

/-- Settings with those of a list from others, `s`. -/
def copyAll (s t : Settings) (fields : List Field) : Settings :=
  fields.foldl (fun t f => f.copy s t) t

/-- A setting that has been copied stays the same, whatever is copied after it. -/
theorem same_copyAll {fields : List Field} {f : Field} (h : f ∈ fields ∨ f.Same s t) :
    f.Same s (copyAll s t fields) := by
  induction fields generalizing t with
  | nil => exact h.resolve_left List.not_mem_nil
  | cons g fields ih =>
    show f.Same s (copyAll s (g.copy s t) fields)
    refine ih ?_
    rcases h with h | h
    · rcases List.mem_cons.1 h with rfl | h
      · exact .inr (Field.same_copy f)
      · exact .inl h
    · exact .inr (h.copy g)

/-! ### Members -/

/-- A setting with its name. -/
def member (s : Settings) (f : Field) : String × List Char := (f.name, f.json s)

/-- Settings as they are written, where only those of a list are, in its order. -/
def json (s : Settings) (fields : List Field) : List Char := Json.object (fields.map s.member)

variable {left : List Field} {first : Bool}

theorem members_end : members left first t ('}' :: cs) = .ok (t, '}' :: cs) := by
  rw [members, Json.bind_of_ok (Json.nextKey_end first)]

/-- A member whose setting has not come yet copies it. -/
theorem members_member {f : Field} (hs : s.Sized) (hf : f ∈ left) (h : Json.Follows cs) :
    members left first t (Json.comma first ++ (Json.member (s.member f) ++ cs)) =
      members (left.erase f) false (f.copy s t) cs := by
  rw [member, Json.member_append, members, Json.bind_of_ok (Json.nextKey_comma first _)]
  dsimp only
  split
  · rename_i hfind
    exact absurd (beq_self_eq_true f.name) (List.find?_eq_none.1 hfind f hf)
  · rename_i g hfind
    have hname := List.find?_some hfind
    obtain rfl : g = f := Field.name_injective (beq_iff_eq.1 hname)
    rw [Json.bind_of_ok (Json.colon_cons _), Json.bind_of_ok (Field.read_json hs h g)]

/-- A member of another name is refused, whatever its value is and whatever follows. -/
theorem members_unknown {key : String} (hkey : ∀ f : Field, f.name ≠ key) (value : List Char) :
    members left first t (Json.comma first ++ (Json.member (key, value) ++ cs)) =
      .error .wrongShape := by
  rw [Json.member_append, members, Json.bind_of_ok (Json.nextKey_comma first _)]
  dsimp only
  split
  · rfl
  · rename_i f hfind
    have hname := List.find?_some hfind
    exact absurd (beq_iff_eq.1 hname) (hkey f)

/-- Members of different settings copy them one after the other. -/
theorem members_listed {fields : List Field} (hs : s.Sized) (hnodup : fields.Nodup)
    (hleft : ∀ f ∈ fields, f ∈ left) (h : Json.Follows cs) :
    members left first t (Json.listed first ((fields.map s.member).map Json.member) ++ cs) =
      members (fields.foldl List.erase left) (first && fields.isEmpty) (copyAll s t fields) cs := by
  induction fields generalizing left first t with
  | nil =>
    show members left first t cs = members left (first && true) t cs
    rw [Bool.and_true]
  | cons f fields ih =>
    obtain ⟨hf, hnodup⟩ := List.nodup_cons.1 hnodup
    rw [List.map_cons, List.map_cons, Json.listed_cons,
      members_member hs (hleft f List.mem_cons_self) (Json.follows_listed h _), ih hnodup]
    · rw [List.isEmpty_cons, Bool.and_false, Bool.false_and]
      rfl
    · intro g hg
      have hne : g ≠ f := fun heq => hf (heq ▸ hg)
      exact (List.mem_erase_of_ne hne).2 (hleft g (List.mem_cons_of_mem f hg))

/-- What an object comes to is what its members come to. -/
theorem ofJson_object {ms : List (String × List Char)} {r : Except Json.Refusal Settings}
    (h : members Field.all true default (Json.listed true (ms.map Json.member) ++ ['}']) =
      r.map fun s => (s, ['}'])) :
    ofJson (String.ofList (Json.object ms)) = r := by
  rw [ofJson, String.toList_ofList, ← List.append_nil (Json.object ms), Json.object_append, read,
    Json.skipBlank_cons rfl]
  show (members Field.all true default _ >>= _) >>= _ = _
  rw [h]
  cases r <;> rfl

theorem mem_all (f : Field) : f ∈ Field.all := by
  cases f <;> decide

end Settings

/-- **Settings survive JSON**, with any that have their default left out, in any order. With a
member of another name among the others, whatever its value is, none are read. -/
theorem settings_survive_json (s : Settings) (fields : List Settings.Field) (hs : s.Sized)
    (hnodup : fields.Nodup) (hdefault : ∀ f ∉ fields, f.Same s Settings.default) :
    Settings.ofJson (String.ofList (s.json fields)) = .ok s ∧
      ∀ before after key value, before ++ after = fields →
        (∀ f : Settings.Field, f.name ≠ key) →
        Settings.ofJson (String.ofList (Json.object
          (before.map s.member ++ (key, value) :: after.map s.member))) = .error .wrongShape := by
  refine ⟨Settings.ofJson_object ?_, fun before after key value hsplit hkey =>
    Settings.ofJson_object ?_⟩
  · have hcopied : Settings.copyAll s .default fields = s :=
      (Settings.eq_of_same fun f => Settings.same_copyAll <|
        (Classical.em (f ∈ fields)).imp_right (hdefault f)).symm
    rw [Settings.members_listed hs hnodup (fun f _ => Settings.mem_all f) (.objectEnd []),
      Settings.members_end, hcopied]
    rfl
  · subst hsplit
    have hbefore := (List.nodup_append.1 hnodup).1
    rw [List.map_append, Json.listed_append, List.map_cons, List.append_assoc, Json.listed_cons]
    cases before with
    | nil => exact Settings.members_unknown hkey value
    | cons f before =>
      refine (Settings.members_listed hs hbefore (fun f _ => Settings.mem_all f)
        (.comma _)).trans ?_
      exact Settings.members_unknown hkey value

/-- Settings with names that have to be escaped and with the largest line. -/
def Settings.uncommon : Settings :=
  { Settings.default with
    breakpoints := [⟨"a\"b\\c\n\x01é.js", Number.maxSize⟩, ⟨"", 0⟩]
    listStyle := .plain
    historyFile := some "null" }

theorem uncommon_settings_survive_json :
    (Settings.uncommon.Sized ∧ [Settings.Field.historyFile, .breakpoints, .listStyle].Nodup ∧
      ∀ f ∉ [Settings.Field.historyFile, .breakpoints, .listStyle],
        f.Same Settings.uncommon Settings.default) ∧
    Settings.ofJson (String.ofList
      (Settings.uncommon.json [.historyFile, .breakpoints, .listStyle])) = .ok Settings.uncommon ∧
    Settings.ofJson (String.ofList (Json.object
      ([Settings.Field.historyFile].map Settings.uncommon.member ++ ("colour", "true".toList) ::
        [Settings.Field.breakpoints, .listStyle].map Settings.uncommon.member))) =
      .error .wrongShape := by
  have hsized : Settings.uncommon.Sized := ⟨by decide, by decide⟩
  have hnodup : [Settings.Field.historyFile, .breakpoints, .listStyle].Nodup := by decide
  have hdefault : ∀ f ∉ [Settings.Field.historyFile, .breakpoints, .listStyle],
      f.Same Settings.uncommon Settings.default := by
    intro f hf
    cases f <;> first | rfl | exact absurd (by decide) hf
  have hkey : ∀ f : Settings.Field, f.name ≠ "colour" := by
    intro f
    cases f <;> decide
  obtain ⟨hread, hunknown⟩ := settings_survive_json Settings.uncommon _ hsized hnodup hdefault
  exact ⟨⟨hsized, hnodup, hdefault⟩, hread, hunknown [.historyFile] _ _ _ rfl hkey⟩

end ScriptDebug
