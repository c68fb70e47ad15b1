/-
# Locations that are written and read

A location is written `FILE:LINE`. The option of the command line and the
console both part it at its last colon (`Text.splitLast?_eq_some`), so a file's
name may have colons of its own; what stands behind the colon is a size in
decimal (`Number.readNat?_eq_some`). The option refuses a location without a
file and line zero (`Breakpoint.ofSpec?_eq_some`). The console takes them
(`Console.location_eq_ok`): on locations without blanks, quotes and backslashes
the readers agree but for these (`readers_agree_on_valid`).

What the debugger shows of a breakpoint is its location, and so it can be typed
to clear that breakpoint and no other (`shown_breakpoint_read_back`).

Key definitions: `Breakpoint.WrittenAs`, `Console.Plain`, `Debugger.RowClears`.
Key theorems: `Breakpoint.ofSpec?_eq_some`, `Breakpoint.writtenAs_text`, `Console.location_eq_ok`,
`shown_breakpoint_read_back`, `readers_agree_on_valid`.
-/
import ScriptDebug.Console.Dispatch
import ScriptDebug.Proofs.Console.Typing
import ScriptDebug.Proofs.Debugger.Registry
import ScriptDebug.Proofs.Lists

namespace ScriptDebug

/-! ### Parting at the last occurrence -/

namespace Text

variable {c : Char} {s a b : List Char}

theorem splitLast?_append_cons (hb : c ∉ b) : splitLast? c (a ++ c :: b) = some (a, b) := by
  have hothers : ∀ d ∈ b.reverse, decide (d ≠ c) = true := fun d hd =>
    decide_eq_true fun h : d = c => hb (h ▸ List.mem_reverse.1 hd)
  have hafter : ((a ++ c :: b).reverse.takeWhile (· ≠ c)).reverse = b := by
    have hsplit : (a ++ c :: b).reverse = b.reverse ++ c :: a.reverse := by simp
    rw [hsplit, (split_before hothers (by simp)).1, List.reverse_reverse]
  have hlength : (a ++ c :: b).length - b.length - 1 = a.length := by
    rw [List.length_append, List.length_cons]
    omega
  unfold splitLast?
  rw [if_pos (by simp), hafter]
  dsimp only
  rw [hlength, List.take_left]

/-- The last occurrence is the one behind which there is no other. -/
theorem splitLast?_eq_some : splitLast? c s = some (a, b) ↔ s = a ++ c :: b ∧ c ∉ b := by
  constructor
  · intro h
    have hmem : c ∈ s := by
      by_contra hnot
      rw [splitLast?, if_neg hnot] at h
      cases h
    obtain ⟨b', a', hs, hb'⟩ := List.eq_append_cons_of_mem (List.mem_reverse.2 hmem)
    have hs' : s = a'.reverse ++ c :: b'.reverse := by
      rw [← List.reverse_reverse s, hs]
      simp
    have hnot : c ∉ b'.reverse := mt List.mem_reverse.1 hb'
    rw [hs', splitLast?_append_cons hnot] at h
    cases h
    exact ⟨hs', hnot⟩
  · rintro ⟨rfl, hb⟩
    exact splitLast?_append_cons hb

end Text

/-! ### Written locations -/

namespace Breakpoint

/-- The file, a colon, and the line in decimal, with blanks around it or not. -/
def WrittenAs (b : Breakpoint) (spec : String) : Prop :=
  ∃ line, spec.toList = b.filename.toList ++ ':' :: line ∧ ':' ∉ line ∧
    Number.Writes (Text.trim line) b.line

theorem toList_text (b : Breakpoint) :
    b.text.toList = b.filename.toList ++ ':' :: b.line.repr.toList := by
  have htext : b.text = b.filename ++ ":" ++ b.line.repr := rfl
  rw [htext, String.toList_append, String.toList_append, List.append_assoc]
  rfl

/-- No character of a decimal is a colon. -/
theorem colon_not_mem_of_writes {cs : List Char} {n : Nat} (h : Number.Writes cs n) : ':' ∉ cs := by
  intro hmem
  rcases h.forall_mem ':' hmem with hdigit | hplus
  · cases hdigit
  · exact absurd hplus (by decide)

/-- What is shown of a breakpoint is its location. -/
theorem writtenAs_text {b : Breakpoint} (h : b.line ≤ Number.maxSize) : b.WrittenAs b.text := by
  have hwrites : Number.Writes b.line.repr.toList b.line :=
    Number.readNat?_eq_some.1 (Number.readNat?_repr h)
  have htrim : Text.trim b.line.repr.toList = b.line.repr.toList :=
    (Console.trimmed_toString b.line).trim_eq
  exact ⟨_, b.toList_text, colon_not_mem_of_writes hwrites, htrim.symm ▸ hwrites⟩

/-- **What the option for a breakpoint takes.** -/
theorem ofSpec?_eq_some {spec : String} {b : Breakpoint} :
    ofSpec? spec = some b ↔ b.filename ≠ "" ∧ 1 ≤ b.line ∧ b.WrittenAs spec := by
  unfold ofSpec?
  refine Option.bind_eq_some_iff.trans ⟨?_, ?_⟩
  · rintro ⟨⟨file, line⟩, hsplit, h⟩
    obtain ⟨n, hread, h⟩ := Option.bind_eq_some_iff.1 h
    obtain ⟨hspec, hline⟩ := Text.splitLast?_eq_some.1 hsplit
    split at h
    · cases h
    · rename_i hvalid
      cases h
      simp only [Bool.or_eq_true, List.isEmpty_iff, decide_eq_true_iff, not_or] at hvalid
      refine ⟨by simpa using hvalid.1, Nat.one_le_iff_ne_zero.2 hvalid.2, line, ?_, hline,
        Number.readNat?_eq_some.1 hread⟩
      rw [hspec, String.toList_ofList]
  · rintro ⟨hfile, hpos, line, hspec, hline, hwrites⟩
    refine ⟨(b.filename.toList, line), Text.splitLast?_eq_some.2 ⟨hspec, hline⟩, ?_⟩
    refine Option.bind_eq_some_iff.2 ⟨b.line, Number.readNat?_eq_some.2 hwrites, ?_⟩
    have hvalid : (b.filename.toList.isEmpty || decide (b.line = 0)) = false := by
      have hne : b.filename.toList ≠ [] := by simpa using hfile
      rw [Bool.or_eq_false_iff]
      exact ⟨List.isEmpty_eq_false_iff.2 hne, decide_eq_false (by omega)⟩
    rw [hvalid, String.ofList_toList]
    rfl

end Breakpoint

/-! ### Locations at the console -/

namespace Console

/-- No character of the text is a blank, a quote or a backslash, and it begins no comment. -/
structure Plain (s : List Char) : Prop where
  bare : ∀ c ∈ s, Text.isBlank c = false ∧ c ≠ '"' ∧ c ≠ '\'' ∧ c ≠ '\\'
  noComment : ∀ c ∈ s.head?, c ≠ '#'

theorem plain_iff {s : List Char} :
    Plain s ↔ (s.all (fun c => !Text.isBlank c && c != '"' && c != '\'' && c != '\\') &&
      s.head? != some '#') = true := by
  have hfirst : (∀ c ∈ s.head?, c ≠ '#') ↔ s.head? ≠ some '#' :=
    ⟨fun h hc => h '#' hc rfl, fun h c hc heq => h (heq ▸ hc)⟩
  simp only [Bool.and_eq_true, List.all_eq_true, Bool.not_eq_true', bne_iff_ne, and_assoc,
    ← hfirst]
  exact ⟨fun h => ⟨h.bare, h.noComment⟩, fun h => ⟨h.1, h.2⟩⟩

instance (s : List Char) : Decidable (Plain s) := decidable_of_iff _ plain_iff.symm

/-- A plain text is one word. -/
theorem Plain.words? {s : List Char} (h : Plain s) (hne : s ≠ []) :
    Console.words? s = some [String.ofList s] := by
  refine words?_bare hne h.noComment fun c hc => ⟨?_, (h.bare c hc).2⟩
  have hblank := (h.bare c hc).1
  have hparts (d : Char) (hd : Text.isBlank d = true) : c ≠ d := by
    rintro rfl
    rw [hblank] at hd
    cases hd
  simp [partsWords, hparts ' ' rfl, hparts '\t' rfl, hparts '\n' rfl]

theorem lineNumber_eq_ok {s : List Char} {n : Nat} : lineNumber s = .ok n ↔ Number.Writes s n := by
  rw [← Number.readNat?_eq_some, lineNumber]
  cases Number.readNat? s <;> simp

/-- A word that is no line of the current file is parted at its last colon. -/
theorem location_word {word : String} (hword : Number.readNat? word.toList = none)
    (currentFile : String) {b : Breakpoint} :
    location currentFile [word] = .ok b ↔
      ∃ line, word.toList = b.filename.toList ++ ':' :: line ∧ ':' ∉ line ∧
        Number.Writes line b.line := by
  rw [location, hword]
  dsimp only
  cases hsplit : Text.splitLast? ':' word.toList with
  | none =>
    refine iff_of_false nofun ?_
    rintro ⟨line, hspec, hline, -⟩
    rw [Text.splitLast?_eq_some.2 ⟨hspec, hline⟩] at hsplit
    cases hsplit
  | some parts =>
    obtain ⟨file, line⟩ := parts
    dsimp only
    constructor
    · intro h
      obtain ⟨hspec, hline⟩ := Text.splitLast?_eq_some.1 hsplit
      cases hn : lineNumber line with
      | error e =>
        rw [hn] at h
        cases h
      | ok n =>
        rw [hn] at h
        cases h
        exact ⟨line, by rw [hspec, String.toList_ofList], hline, lineNumber_eq_ok.1 hn⟩
    · rintro ⟨line', hspec, hline, hwrites⟩
      rw [Text.splitLast?_eq_some.2 ⟨hspec, hline⟩] at hsplit
      cases hsplit
      rw [lineNumber_eq_ok.2 hwrites, String.ofList_toList]
      rfl

/-- **What the console takes as a location in one word with a colon.** -/
theorem location_eq_ok {word : String} (hcolon : ':' ∈ word.toList) (hplain : Plain word.toList)
    (currentFile : String) {b : Breakpoint} :
    location currentFile [word] = .ok b ↔ b.WrittenAs word := by
  have hnone : Number.readNat? word.toList = none := by
    refine Option.eq_none_iff_forall_ne_some.2 fun n hn => ?_
    exact Breakpoint.colon_not_mem_of_writes (Number.readNat?_eq_some.1 hn) hcolon
  refine (location_word hnone currentFile).trans ?_
  refine exists_congr fun line => and_congr_right fun hspec => ?_
  have hblank : ∀ c ∈ line, Text.isBlank c = false := fun c hc =>
    (hplain.bare c (hspec ▸ List.mem_append_right _ (List.mem_cons_of_mem _ hc))).1
  rw [(Text.trimmed_of_all hblank).trim_eq]

/-- **What a line with a location takes.** -/
theorem ofLine_location (word : String) {line spec : String} {entry : Entry}
    {place : Breakpoint → Command} (hplace : place.Injective)
    (hentry : lookup? word = some entry)
    (hkind : ∀ currentFile args, entry.kind.command currentFile args =
      (argumentWords args >>= location currentFile).map place)
    (hline : line.toList = word.toList ++ [' '] ++ spec.toList) (hcolon : ':' ∈ spec.toList)
    (hplain : Plain spec.toList) (currentFile : String) {b : Breakpoint} :
    Command.ofLine line currentFile = .ok (some (place b)) ↔ b.WrittenAs spec := by
  have hread : Command.ofLine line currentFile =
      ((location currentFile [spec]).map place).map some := by
    have hargs : Text.Trimmed spec.toList :=
      Text.trimmed_of_all fun c hc => (hplain.bare c hc).1
    have hblank : Blank "" := by simp [Blank]
    have hsplit := ofLine_of_split hblank hblank hline hentry
      (List.forall_mem_singleton.2 rfl) hargs (fun h => absurd h (List.cons_ne_nil _ _)) currentFile
    rw [String.empty_append, String.append_empty, hkind, argumentWords,
      hplain.words? (List.ne_nil_of_mem hcolon), String.ofList_toList] at hsplit
    exact hsplit
  rw [hread, ← location_eq_ok hcolon hplain currentFile]
  cases location currentFile [spec] with
  | error e => simp [Except.map]
  | ok c =>
    show Except.ok (some (place c)) = .ok (some (place b)) ↔ Except.ok c = .ok b
    rw [Except.ok.injEq, Option.some.injEq, hplace.eq_iff, Except.ok.injEq]

theorem bind_bind_ok {ε α β γ : Type} (x : Except ε α) (f : α → Except ε β) (g : β → γ) :
    (x >>= fun a => f a >>= fun b => Except.ok (g b)) = (x >>= f).map g := by
  cases x with
  | error e => rfl
  | ok a =>
    show (f a >>= fun b => Except.ok (g b)) = (f a).map g
    cases f a <;> rfl

section
variable {spec : String} (hcolon : ':' ∈ spec.toList) (hplain : Plain spec.toList)
  (currentFile : String) {b : Breakpoint}
include hcolon hplain

theorem ofLine_setBreakpoint :
    Command.ofLine ("sb " ++ spec) currentFile = .ok (some (.setBreakpoint b)) ↔
      b.WrittenAs spec :=
  ofLine_location "sb" (fun _ _ => Command.setBreakpoint.inj) rfl
    (fun _ _ => bind_bind_ok _ _ Command.setBreakpoint) (by simp) hcolon hplain currentFile

theorem ofLine_clearBreakpoint :
    Command.ofLine ("cb " ++ spec) currentFile = .ok (some (.clearBreakpoint b)) ↔
      b.WrittenAs spec :=
  ofLine_location "cb" (fun _ _ => Command.clearBreakpoint.inj) rfl
    (fun _ _ => bind_bind_ok _ _ Command.clearBreakpoint) (by simp) hcolon hplain currentFile

end

/-- A plain file's name makes a plain location. -/
theorem plain_text {b : Breakpoint} (h : Plain b.filename.toList) : Plain b.text.toList := by
  rw [b.toList_text]
  refine ⟨List.forall_mem_append.2 ⟨h.bare, List.forall_mem_cons.2 ⟨?_, fun c hc => ?_⟩⟩, ?_⟩
  · exact ⟨rfl, by decide, by decide, by decide⟩
  · obtain ⟨hbare, -, hblank⟩ := isBare_of_mem_toString (i := b.line) hc
    exact ⟨hblank, hbare.2⟩
  · cases hfile : b.filename.toList with
    | nil => exact fun c hc => Option.some.inj hc ▸ by decide
    | cons d ds => exact fun c hc => h.noComment c (hfile ▸ hc)

end Console

/-! ### Rows of the list -/

/-- The breakpoint has a row of its own in the list, and the row typed behind `cb` is understood in
any file and clears this breakpoint, but no other. -/
structure Debugger.RowClears (d : Debugger) (b : Breakpoint) : Prop where
  shown : ∃ text, Console.dispatch d .breakpoints = (d, .report (.text text)) ∧
    b.text.toList ∈ text.toList.splitOn '\n'
  read : ∀ currentFile,
    Console.Command.ofLine ("cb " ++ b.text) currentFile = .ok (some (.clearBreakpoint b))
  cleared : Console.dispatch d (.clearBreakpoint b) =
    ({ d with breakpoints := ⟨d.breakpoints.points.filter (· ≠ b)⟩ }.tell (.breakpointRemoved b),
      .report (.text ("breakpoint cleared at " ++ b.text)))

namespace Debugger

variable {d : Debugger} {b : Breakpoint}

theorem row_shown (hb : b ∈ d.breakpoints.points) (hplain : Console.Plain b.text.toList) :
    ∃ text, Console.dispatch d .breakpoints = (d, .report (.text text)) ∧
      b.text.toList ∈ text.toList.splitOn '\n' := by
  have hlist : d.breakpoints.list = .ok d.breakpoints.points := by
    rw [Breakpoints.list, if_neg (by simpa using List.ne_nil_of_mem hb)]
  refine ⟨"\n".intercalate (d.breakpoints.points.map Breakpoint.text), ?_, ?_⟩
  · rw [Console.dispatch, Console.breakpointList, hlist]
    rfl
  · have hnewline : '\n' ∉ b.text.toList := fun h =>
      Bool.false_ne_true ((hplain.bare _ h).1.symm.trans rfl)
    rw [String.toList_intercalate, List.map_map]
    exact mem_splitOn_intercalate
      (List.mem_map_of_mem (f := String.toList ∘ Breakpoint.text) hb) hnewline

theorem row_cleared (hb : b ∈ d.breakpoints.points) (hnodup : d.breakpoints.points.Nodup) :
    Console.dispatch d (.clearBreakpoint b) =
      ({ d with breakpoints := ⟨d.breakpoints.points.filter (· ≠ b)⟩ }.tell (.breakpointRemoved b),
        .report (.text ("breakpoint cleared at " ++ b.text))) := by
  have hclear : d.breakpoints.clear b = .ok ⟨d.breakpoints.points.filter (· ≠ b)⟩ := by
    have hothers : d.breakpoints.points.erase b = d.breakpoints.points.filter (· ≠ b) := by
      rw [hnodup.erase_eq_filter]
      exact List.filter_congr fun c _ => by rw [Bool.eq_iff_iff, bne_iff_ne, decide_eq_true_iff]
    rw [Breakpoints.clear_eq, if_pos hb, hothers]
  rw [Console.dispatch, clearBreakpoint, hclear]
  rfl

/-- The rows of a registry that requests made clear their breakpoints. -/
theorem rowClears {requests : List Breakpoints.Request}
    (hd : d.breakpoints = Breakpoints.after requests) (hb : b ∈ d.breakpoints.points)
    (hline : b.line ≤ Number.maxSize) (hfile : Console.Plain b.filename.toList) :
    d.RowClears b := by
  have hplain := Console.plain_text hfile
  have hcolon : ':' ∈ b.text.toList := by
    rw [b.toList_text]
    exact List.mem_append_right _ List.mem_cons_self
  have hnodup : d.breakpoints.points.Nodup := hd ▸ (Breakpoints.holds_after requests).nodup
  exact {
    shown := row_shown hb hplain
    read := fun currentFile =>
      (Console.ofLine_clearBreakpoint hcolon hplain currentFile).2 (Breakpoint.writtenAs_text hline)
    cleared := row_cleared hb hnodup }

end Debugger

/-- **What is shown of a breakpoint can be typed back.** The option for a breakpoint reads it, and
reads what is written so and nothing else. Each row of the list of any debugger, typed behind `cb`,
clears its own breakpoint, if the file's name is plain. -/
theorem shown_breakpoint_read_back :
    (∀ b : Breakpoint, b.filename ≠ "" → 1 ≤ b.line → b.line ≤ Number.maxSize →
      Breakpoint.ofSpec? b.text = some b) ∧
    (∀ (spec : String) (b : Breakpoint), Breakpoint.ofSpec? spec = some b ↔
      b.filename ≠ "" ∧ 1 ≤ b.line ∧ b.WrittenAs spec) ∧
    ∀ (d : Debugger) (requests : List Breakpoints.Request),
      d.breakpoints = Breakpoints.after requests → ∀ b ∈ d.breakpoints.points,
        b.line ≤ Number.maxSize → Console.Plain b.filename.toList → d.RowClears b := by
  refine ⟨fun b hfile hpos hmax => ?_, fun spec b => Breakpoint.ofSpec?_eq_some,
    fun d requests hd b hb hmax hplain => Debugger.rowClears hd hb hmax hplain⟩
  exact Breakpoint.ofSpec?_eq_some.2 ⟨hfile, hpos, Breakpoint.writtenAs_text hmax⟩

/-- A file's name with a colon and a digit behind it, at the largest line. -/
theorem drive_letter_read_back :
    Breakpoint.ofSpec? "C:1:18446744073709551615" = some ⟨"C:1", 18446744073709551615⟩ ∧
    ∃ d : Debugger, d.breakpoints.points = [⟨"12", 7⟩, ⟨"C:1", 18446744073709551615⟩] ∧
      d.RowClears ⟨"C:1", 18446744073709551615⟩ := by
  have hmax : 18446744073709551615 ≤ Number.maxSize := by decide
  have hplain : Console.Plain "C:1".toList := by decide
  let b : Breakpoint := ⟨"C:1", 18446744073709551615⟩
  let p := Program.ofTree (Source.ofText "12" "") .script []
  let d : Debugger := { Debugger.start (Machine.start p) .default with
    breakpoints := Breakpoints.after [.set ⟨"12", 7⟩, .set b] }
  obtain ⟨hread, -, hrows⟩ := shown_breakpoint_read_back
  have htext : b.text = "C:1:18446744073709551615" := by cbv
  have hpoints : d.breakpoints.points = [⟨"12", 7⟩, b] := by decide
  have hspec := hread b (by decide) (by decide) hmax
  rw [htext] at hspec
  exact ⟨hspec, d, hpoints, hrows d _ rfl b (by simp [hpoints]) hmax hplain⟩

/-- **The readers of locations agree on those with a file and a line.** The console takes what is
written `FILE:LINE`, and the option takes the same, unless the file's name is empty or the line
zero. -/
theorem readers_agree_on_valid {spec : String} (hcolon : ':' ∈ spec.toList)
    (hplain : Console.Plain spec.toList) (currentFile : String) (b : Breakpoint) :
    (Console.Command.ofLine ("sb " ++ spec) currentFile = .ok (some (.setBreakpoint b)) ↔
      b.WrittenAs spec) ∧
    (Breakpoint.ofSpec? spec = some b ↔
      Console.Command.ofLine ("sb " ++ spec) currentFile = .ok (some (.setBreakpoint b)) ∧
        b.filename ≠ "" ∧ 1 ≤ b.line) := by
  have hconsole := Console.ofLine_setBreakpoint hcolon hplain currentFile (b := b)
  refine ⟨hconsole, ?_⟩
  rw [hconsole, Breakpoint.ofSpec?_eq_some]
  tauto

/-- A line with a plus sign, in a file whose name has a colon. -/
theorem signed_line_read_alike :
    Console.Command.ofLine "sb a:b.js:+3" "main.js" = .ok (some (.setBreakpoint ⟨"a:b.js", 3⟩)) ∧
      Breakpoint.ofSpec? "a:b.js:+3" = some ⟨"a:b.js", 3⟩ := by
  have hplain : Console.Plain "a:b.js:+3".toList := by decide
  have hcolon : ':' ∈ "a:b.js:+3".toList := by decide
  have hagree := (readers_agree_on_valid hcolon hplain "main.js" ⟨"a:b.js", 3⟩).2
  have hspec : Breakpoint.ofSpec? "a:b.js:+3" = some ⟨"a:b.js", 3⟩ := by cbv
  exact ⟨(hagree.1 hspec).1, hspec⟩

/-- The console takes line zero and no file, which the option refuses. -/
theorem line_zero_set_at_console :
    Console.Plain "main.js:0".toList ∧ Console.Plain ":3".toList ∧
    Console.Command.ofLine "sb main.js:0" "main.js" =
      .ok (some (.setBreakpoint ⟨"main.js", 0⟩)) ∧
    Breakpoint.ofSpec? "main.js:0" = none ∧
    Console.Command.ofLine "sb :3" "main.js" = .ok (some (.setBreakpoint ⟨"", 3⟩)) ∧
    Breakpoint.ofSpec? ":3" = none :=
  ⟨by decide, by decide, rfl, by cbv, rfl, by cbv⟩

end ScriptDebug
