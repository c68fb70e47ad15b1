/-
# Typing commands

Every command of the console can be typed: a file's name and a variable's name
between single quotes, in which a single quote is written `'\''`, numbers in
decimal, and what is to be executed as it stands. The line that is typed, with
blanks around it, is understood as the command (`typed_command_understood`), so
nothing that a name or an expression holds is taken for a quote, a comment, a
colon or a number of the line.

A word between single quotes is read as the word (`Console.wordsFrom_quoted`), a
word without blanks, quotes and backslashes as itself (`Console.wordsFrom_bare`),
and the arguments of a line are what is left of it without its first word
(`Console.ofLine_of_split`).

Key definitions: `Console.quoted`, `Console.Command.ReadFrom`,
`Console.Command.lines`, `Console.Command.Typeable`.
Key theorems: `Console.wordsFrom_quoted`, `Console.wordsFrom_bare`,
`Console.ofLine_of_split`, `typed_command_understood`.
-/
import ScriptDebug.Console.Line
import ScriptDebug.Proofs.Number.Integer
import ScriptDebug.Proofs.Text.Runs

namespace ScriptDebug
namespace Console

/-! ### Words -/

/-- What stands for a character between single quotes. -/
def quoteChar (c : Char) : List Char := if c = '\'' then ['\'', '\\', '\'', '\''] else [c]

/-- A text between single quotes. -/
def quoted (s : List Char) : List Char := '\'' :: (s.flatMap quoteChar ++ ['\''])

/-- A word between single quotes is the word, whatever characters it has. -/
theorem wordsFrom_single (words : List String) (held s rest : List Char) :
    wordsFrom words (.single held) (s.flatMap quoteChar ++ '\'' :: rest) =
      wordsFrom words (.word (s.reverse ++ held)) rest := by
  induction s generalizing held with
  | nil => rfl
  | cons c s ih =>
    have hheld : (c :: s).reverse ++ held = s.reverse ++ c :: held := by simp
    rw [List.flatMap_cons, List.append_assoc, hheld, ← ih]
    by_cases hc : c = '\''
    · -- the quotes are closed, a quote is escaped, and the quotes are opened again
      subst hc
      rfl
    · rw [quoteChar, if_neg hc, List.singleton_append, wordsFrom, if_neg hc]

theorem wordsFrom_quoted (words : List String) (s rest : List Char) :
    wordsFrom words .between (quoted s ++ rest) = wordsFrom words (.word s.reverse) rest := by
  have hopen : quoted s ++ rest = '\'' :: (s.flatMap quoteChar ++ '\'' :: rest) := by simp [quoted]
  rw [hopen]
  show wordsFrom words (.single []) _ = _
  rw [wordsFrom_single, List.append_nil]

/-- A character that means itself inside a word. -/
def IsBare (c : Char) : Prop := partsWords c = false ∧ c ≠ '"' ∧ c ≠ '\'' ∧ c ≠ '\\'

theorem IsBare.inWord {c : Char} (h : IsBare c) (held : List Char) :
    inWord held c = .word (c :: held) := by
  unfold Console.inWord
  rw [if_neg h.2.1, if_neg h.2.2.1, if_neg h.2.2.2]

/-- What stands bare goes on a word as it is. -/
theorem wordsFrom_word (words : List String) (held rest : List Char) {s : List Char}
    (h : ∀ c ∈ s, IsBare c) :
    wordsFrom words (.word held) (s ++ rest) = wordsFrom words (.word (s.reverse ++ held)) rest := by
  induction s generalizing held with
  | nil => rfl
  | cons c s ih =>
    obtain ⟨hc, hs⟩ := List.forall_mem_cons.1 h
    have hheld : (c :: s).reverse ++ held = s.reverse ++ c :: held := by simp
    rw [List.cons_append, wordsFrom, hc.1, if_neg Bool.false_ne_true, hc.inWord, ih _ hs, hheld]

/-- A bare word that is no comment begins a word. -/
theorem wordsFrom_bare (words : List String) (rest : List Char) {s : List Char} (hne : s ≠ [])
    (hcomment : ∀ c ∈ s.head?, c ≠ '#') (h : ∀ c ∈ s, IsBare c) :
    wordsFrom words .between (s ++ rest) = wordsFrom words (.word s.reverse) rest := by
  obtain ⟨c, s, rfl⟩ := List.exists_cons_of_ne_nil hne
  obtain ⟨hc, hs⟩ := List.forall_mem_cons.1 h
  rw [List.cons_append, wordsFrom, hc.1, if_neg Bool.false_ne_true, if_neg (hcomment c rfl),
    hc.inWord, wordsFrom_word words [c] rest hs, List.reverse_cons]

theorem words?_quoted (s : List Char) : words? (quoted s) = some [String.ofList s] := by
  have hread := wordsFrom_quoted [] s []
  rw [List.append_nil] at hread
  rw [words?, hread, wordsFrom, List.reverse_reverse]
  rfl

/-- A bare word alone. -/
theorem words?_bare {s : List Char} (hne : s ≠ []) (hcomment : ∀ c ∈ s.head?, c ≠ '#')
    (h : ∀ c ∈ s, IsBare c) : words? s = some [String.ofList s] := by
  have hread := wordsFrom_bare [] [] hne hcomment h
  rw [List.append_nil] at hread
  rw [words?, hread, wordsFrom, List.reverse_reverse]
  rfl

/-- A quoted word and a bare one. -/
theorem words?_quoted_bare (s : List Char) {s' : List Char} (hne : s' ≠ [])
    (hcomment : ∀ c ∈ s'.head?, c ≠ '#') (h : ∀ c ∈ s', IsBare c) :
    words? (quoted s ++ ' ' :: s') = some [String.ofList s, String.ofList s'] := by
  have hread := wordsFrom_bare [String.ofList s] [] hne hcomment h
  rw [List.append_nil] at hread
  rw [words?, wordsFrom_quoted]
  show wordsFrom [String.ofList s.reverse.reverse] .between s' = _
  rw [List.reverse_reverse, hread, wordsFrom, List.reverse_reverse]
  rfl

/-! ### Arguments -/

theorem toNat_of_isDigit {c : Char} (h : c.isDigit = true) : 48 ≤ c.toNat ∧ c.toNat ≤ 57 := by
  simpa [Char.isDigit, UInt32.le_iff_toNat_le] using h

/-- A digit means itself inside a word, and begins no comment. -/
theorem isBare_of_isDigit {c : Char} (h : c.isDigit = true) : IsBare c ∧ c ≠ '#' := by
  have hne (d : Char) (hd : d.isDigit = false) : c ≠ d := by
    rintro rfl
    rw [h] at hd
    cases hd
  refine ⟨⟨?_, hne _ rfl, hne _ rfl, hne _ rfl⟩, hne _ rfl⟩
  simp [partsWords, hne ' ' rfl, hne '\t' rfl, hne '\n' rfl]

/-- What a decimal is written with means itself inside a word, begins no comment and is no blank. -/
theorem isBare_of_mem_toString {i : Int} {c : Char} (h : c ∈ (toString i).toList) :
    IsBare c ∧ c ≠ '#' ∧ Text.isBlank c = false := by
  rcases Number.isDigit_of_mem_toString h with h | rfl
  · obtain ⟨hbare, hcomment⟩ := isBare_of_isDigit h
    obtain ⟨hlow, hhigh⟩ := toNat_of_isDigit h
    refine ⟨hbare, hcomment, ?_⟩
    simp [Text.isBlank, Text.inRanges, Text.blankRanges]
    omega
  · exact ⟨⟨rfl, by decide, by decide, by decide⟩, by decide, rfl⟩

theorem toString_ne_nil (i : Int) : (toString i).toList ≠ [] := by
  cases i with
  | ofNat n =>
    obtain ⟨d, ds, hd, -⟩ := Number.exists_cons_repr n
    have hne : n.repr.toList ≠ [] := by simp [hd]
    exact hne
  | negSucc n =>
    have hne : ("-" ++ (n + 1).repr).toList ≠ [] := by simp
    exact hne

/-- A quoted file and a line in decimal. -/
theorem location_typed (file currentFile : String) {n : Nat} (h : n ≤ Number.maxSize) :
    (argumentWords (quoted file.toList ++ ' ' :: (toString n).toList) >>= location currentFile) =
      .ok ⟨file, n⟩ := by
  have hbare (c : Char) (hc : c ∈ (toString n).toList) : IsBare c ∧ c ≠ '#' :=
    isBare_of_isDigit (Number.isDigit_of_mem_repr hc)
  have hne : (toString n).toList ≠ [] := toString_ne_nil n
  have hwords : words? (quoted file.toList ++ ' ' :: (toString n).toList) =
      some [file, toString n] := by
    rw [words?_quoted_bare file.toList hne
      (fun c hc => (hbare c (List.mem_of_mem_head? hc)).2) (fun c hc => (hbare c hc).1),
      String.ofList_toList, String.ofList_toList]
  have hline : lineNumber (toString n).toList = .ok n := by
    have hread : Number.readNat? (toString n).toList = some n := Number.readNat?_repr h
    rw [lineNumber, hread]
  rw [argumentWords, hwords]
  show (lineNumber (toString n).toList).map _ = _
  rw [hline]
  rfl

/-- A quoted name. -/
theorem argumentWords_quoted (name : String) :
    argumentWords (quoted name.toList) = .ok [name] := by
  rw [argumentWords, words?_quoted, String.ofList_toList]

/-- An exit code in decimal. -/
theorem exitCode_typed {i : Int} (hlow : -2 ^ 31 ≤ i) (hhigh : i < 2 ^ 31) :
    (argumentWords (toString i).toList >>= exitCode) = .ok i := by
  have hwords : words? (toString i).toList = some [toString i] := by
    rw [words?_bare (toString_ne_nil i)
      (fun c hc => (isBare_of_mem_toString (List.mem_of_mem_head? hc)).2.1)
      (fun c hc => (isBare_of_mem_toString hc).1), String.ofList_toList]
  rw [argumentWords, hwords]
  show exitCode [toString i] = _
  rw [exitCode, Number.readInt?_repr hlow hhigh]

/-! ### Lines -/

/-- The whole text is blank. -/
def Blank (s : String) : Prop := ∀ c ∈ s.toList, Text.isBlank c = true

/-- Whatever blanks stand around the line, and whichever file is current, the line is understood as
the command. -/
def Command.ReadFrom (c : Command) (line : String) : Prop :=
  ∀ before after currentFile : String, Blank before → Blank after →
    Command.ofLine (before ++ line ++ after) currentFile = .ok (some c)

/-- No name in the vocabulary is empty or has a blank. -/
theorem plain_of_lookup? {word : String} {entry : Entry} (h : lookup? word = some entry) :
    word.toList ≠ [] ∧ ∀ c ∈ word.toList, Text.isBlank c = false := by
  have hplain : (entries.all fun e => (e.long :: e.short.toList).all fun name =>
      !name.toList.isEmpty && !name.toList.any Text.isBlank) = true := by cbv
  have hname : word ∈ entry.long :: entry.short.toList := by
    have hfound := List.find?_some h
    simp only [Bool.or_eq_true, beq_iff_eq] at hfound
    rcases hfound with rfl | hshort
    · exact List.mem_cons_self
    · exact List.mem_cons_of_mem _ (by simp [hshort])
  have hword := List.all_eq_true.1
    (List.all_eq_true.1 hplain entry (List.mem_of_find?_eq_some h)) word hname
  simp only [Bool.and_eq_true, Bool.not_eq_true', List.isEmpty_eq_false_iff,
    List.any_eq_false] at hword
  exact ⟨hword.1, fun c hc => Bool.eq_false_iff.2 (hword.2 c hc)⟩

/-- A line begins with a word, and its arguments are what is left without the blanks around it. -/
theorem ofLine_of_split {before line after word : String} {gap args : List Char} {entry : Entry}
    (hbefore : Blank before) (hafter : Blank after)
    (hline : line.toList = word.toList ++ gap ++ args)
    (hentry : lookup? word = some entry) (hgap : ∀ c ∈ gap, Text.isBlank c = true)
    (hargs : Text.Trimmed args) (hsep : gap = [] → args = []) (currentFile : String) :
    Command.ofLine (before ++ line ++ after) currentFile =
      (entry.kind.command currentFile args).map some := by
  obtain ⟨hne, hword⟩ := plain_of_lookup? hentry
  -- the gap goes with the blanks at the end if there are no arguments
  obtain ⟨gap', htrim, hgap', hstop⟩ : ∃ gap',
      Text.trim (before.toList ++ (word.toList ++ gap ++ args) ++ after.toList) =
        word.toList ++ (gap' ++ args) ∧
      (∀ c ∈ gap', Text.isBlank c = true) ∧ ∀ d ∈ (gap' ++ args).head?, Text.isBlank d = true := by
    by_cases hnil : args = []
    · subst hnil
      refine ⟨[], ?_, nofun, nofun⟩
      have hsplit : before.toList ++ (word.toList ++ gap ++ []) ++ after.toList =
          before.toList ++ word.toList ++ (gap ++ after.toList) := by
        simp
      rw [hsplit, Text.trim_enclosed hbefore (List.forall_mem_append.2 ⟨hgap, hafter⟩)
        (Text.trimmed_of_all hword)]
      simp
    · obtain ⟨g, gs, rfl⟩ := List.exists_cons_of_ne_nil (mt hsep hnil)
      refine ⟨g :: gs, ?_, hgap, fun d hd => ?_⟩
      · rw [Text.trim_enclosed hbefore hafter ((Text.trimmed_of_all hword).append hargs hne hnil),
          List.append_assoc]
      · obtain rfl := Option.some.inj hd
        exact hgap g List.mem_cons_self
  have hletters : ∀ c ∈ word.toList, (!Text.isBlank c) = true := fun c hc => by
    rw [hword c hc]
    rfl
  obtain ⟨htake, hdrop⟩ := Text.split_before hletters (fun d hd => by rw [hstop d hd]; rfl)
  have hrest : Text.trim (gap' ++ args) = args := by
    have hleft := Text.trim_enclosed hgap' (List.forall_mem_nil _) hargs
    rwa [List.append_nil] at hleft
  have hempty : (word.toList ++ (gap' ++ args)).isEmpty = false := by
    rw [List.isEmpty_eq_false_iff]
    exact List.append_ne_nil_of_left_ne_nil hne _
  unfold Command.ofLine
  dsimp only
  rw [String.toList_append, String.toList_append, hline, htrim, hempty, htake, hdrop, hrest,
    String.ofList_toList, hentry]
  rfl

/-- A line is understood as what its word and its arguments give. -/
theorem readFrom_of_split {c : Command} {line word : String} {gap args : List Char} {entry : Entry}
    (hline : line.toList = word.toList ++ gap ++ args) (hentry : lookup? word = some entry)
    (hgap : ∀ c ∈ gap, Text.isBlank c = true) (hargs : Text.Trimmed args)
    (hsep : gap = [] → args = [])
    (hc : ∀ currentFile, entry.kind.command currentFile args = .ok c) : c.ReadFrom line := by
  intro before after currentFile hbefore hafter
  rw [ofLine_of_split hbefore hafter hline hentry hgap hargs hsep, hc currentFile]
  rfl

/-- The lines to type for a command: names between quotes, numbers in decimal, what is to be executed
as it stands, and either name of a command without arguments. -/
def Command.lines : Command → List String
  | .setBreakpoint b =>
    ["sb " ++ String.ofList (quoted b.filename.toList) ++ " " ++ toString b.line]
  | .clearBreakpoint b =>
    ["cb " ++ String.ofList (quoted b.filename.toList) ++ " " ++ toString b.line]
  | .breakpoints => ["breakpoints"]
  | .debug .next => ["next", "n"]
  | .debug .resume => ["continue", "c"]
  | .debug .stepIn => ["step", "s"]
  | .debug .stepOut => ["out", "o"]
  | .debug (.exec text) => ["exec " ++ text]
  | .debug (.print name) => ["print " ++ String.ofList (quoted name.toList)]
  | .debug .list => ["list", "l"]
  | .help => ["help", "h"]
  | .quit code => ["quit " ++ toString code]

/-- The command can be typed: its numbers are of the sizes that lines and exit codes have, and what
is to be executed has no blanks around it. -/
def Command.Typeable : Command → Prop
  | .setBreakpoint b | .clearBreakpoint b => b.line ≤ Number.maxSize
  | .debug (.exec text) => Text.Trimmed text.toList
  | .quit code => -2 ^ 31 ≤ code ∧ code < 2 ^ 31
  | _ => True

/-- A command word alone. -/
theorem readFrom_word {c : Command} {word : String} {entry : Entry}
    (hentry : lookup? word = some entry)
    (hc : ∀ currentFile, entry.kind.command currentFile [] = .ok c) : c.ReadFrom word := by
  have hsplit : word.toList = word.toList ++ [] ++ [] := by simp
  exact readFrom_of_split hsplit hentry (List.forall_mem_nil _) Text.trimmed_nil (fun _ => rfl) hc

/-- A command word, a space and arguments. -/
theorem readFrom_arguments {c : Command} {line : String} (word : String) {args : List Char}
    {entry : Entry} (hline : line.toList = word.toList ++ [' '] ++ args)
    (hentry : lookup? word = some entry) (hargs : Text.Trimmed args)
    (hc : ∀ currentFile, entry.kind.command currentFile args = .ok c) : c.ReadFrom line :=
  readFrom_of_split hline hentry (List.forall_mem_singleton.2 rfl) hargs (fun h => nomatch h) hc

theorem trimmed_quoted (s : List Char) : Text.Trimmed (quoted s) := by
  refine ⟨fun c hc => ?_, fun c hc => ?_⟩
  · obtain rfl := Option.some.inj hc
    rfl
  · have hsplit : quoted s = ('\'' :: s.flatMap quoteChar) ++ ['\''] := rfl
    rw [hsplit, List.getLast?_concat] at hc
    obtain rfl := Option.some.inj hc
    rfl

theorem trimmed_toString (i : Int) : Text.Trimmed (toString i).toList :=
  Text.trimmed_of_all fun _ hc => (isBare_of_mem_toString hc).2.2

theorem trimmed_location (s : List Char) (n : Nat) :
    Text.Trimmed (quoted s ++ [' '] ++ (toString n).toList) :=
  (trimmed_quoted s).append (trimmed_toString n) (List.cons_ne_nil _ _) (toString_ne_nil n)

/-- A command word, a quoted file and a line. -/
theorem readFrom_location {c : Command} {line : String} (word : String) {b : Breakpoint}
    {entry : Entry} (hline : line.toList =
      word.toList ++ [' '] ++ (quoted b.filename.toList ++ [' '] ++ (toString b.line).toList))
    (hentry : lookup? word = some entry) (hb : b.line ≤ Number.maxSize)
    (hc : ∀ currentFile args, (argumentWords args >>= location currentFile) = .ok b →
      entry.kind.command currentFile args = .ok c) : c.ReadFrom line := by
  refine readFrom_arguments word hline hentry (trimmed_location _ _) fun currentFile => ?_
  refine hc currentFile _ ?_
  rw [List.append_assoc]
  exact location_typed b.filename currentFile hb

end Console

/-- **Every command can be typed.** Whatever its names and texts hold, each of its lines is
understood as the command, in whichever file and with whatever blanks around it. -/
theorem typed_command_understood {c : Console.Command} (hc : c.Typeable) :
    c.lines ≠ [] ∧ ∀ line ∈ c.lines, c.ReadFrom line := by
  cases c with
  | setBreakpoint b =>
    refine ⟨List.cons_ne_nil _ _, List.forall_mem_singleton.2 ?_⟩
    refine Console.readFrom_location "sb" (by simp) rfl hc ?_
    intro currentFile args hargs
    show (Console.argumentWords args >>= fun words => Console.location currentFile words >>= _) = _
    rw [← bind_assoc, hargs]
    rfl
  | clearBreakpoint b =>
    refine ⟨List.cons_ne_nil _ _, List.forall_mem_singleton.2 ?_⟩
    refine Console.readFrom_location "cb" (by simp) rfl hc ?_
    intro currentFile args hargs
    show (Console.argumentWords args >>= fun words => Console.location currentFile words >>= _) = _
    rw [← bind_assoc, hargs]
    rfl
  | breakpoints =>
    refine ⟨List.cons_ne_nil _ _, List.forall_mem_singleton.2 ?_⟩
    exact Console.readFrom_word rfl fun _ => rfl
  | help =>
    refine ⟨List.cons_ne_nil _ _, List.forall_mem_cons.2 ⟨?_, List.forall_mem_singleton.2 ?_⟩⟩ <;>
      exact Console.readFrom_word rfl fun _ => rfl
  | quit code =>
    refine ⟨List.cons_ne_nil _ _, List.forall_mem_singleton.2 ?_⟩
    have hargs := Console.trimmed_toString code
    refine Console.readFrom_arguments "quit" (by simp) rfl hargs fun _ => ?_
    show (Console.argumentWords _ >>= fun words => Console.exitCode words >>= _) = _
    rw [← bind_assoc, Console.exitCode_typed hc.1 hc.2]
    rfl
  | debug c =>
    cases c with
    | exec text =>
      refine ⟨List.cons_ne_nil _ _, List.forall_mem_singleton.2 ?_⟩
      refine Console.readFrom_arguments "exec" (by simp) rfl hc fun _ => ?_
      show Except.ok (Console.Command.debug (.exec (String.ofList text.toList))) = _
      rw [String.ofList_toList]
    | print name =>
      refine ⟨List.cons_ne_nil _ _, List.forall_mem_singleton.2 ?_⟩
      have hargs := Console.trimmed_quoted name.toList
      refine Console.readFrom_arguments "print" (by simp) rfl hargs fun _ => ?_
      show (Console.argumentWords _ >>= _) = _
      rw [Console.argumentWords_quoted]
      rfl
    | next | resume | stepIn | stepOut | list =>
      refine ⟨List.cons_ne_nil _ _, List.forall_mem_cons.2 ⟨?_, List.forall_mem_singleton.2 ?_⟩⟩ <;>
        exact Console.readFrom_word rfl fun _ => rfl

/-- A file's name with a quote, a backslash, a comment, a colon and a line feed, at the largest
line. -/
theorem typed_breakpoint_understood :
    Console.Command.ofLine
        "\t sb 'it'\\''s \\ #3\n:1' 18446744073709551615 \n" "main.js" =
      .ok (some (.setBreakpoint ⟨"it's \\ #3\n:1", 18446744073709551615⟩)) := by
  have hmax : 18446744073709551615 ≤ Number.maxSize := by decide
  have hlines := (typed_command_understood
    (c := .setBreakpoint ⟨"it's \\ #3\n:1", 18446744073709551615⟩) hmax).2
  exact hlines _ (List.mem_singleton.2 rfl) "\t " " \n" "main.js" (List.all_eq_true.1 rfl)
    (List.all_eq_true.1 rfl)

end ScriptDebug
