/-
# What a listing shows

A window of a listing has a row for each line of the text from the radius above the
cursor to the radius below it, and no other rows (`Listing.render_shows`). What stands
in a row can be read off it again: behind two characters for the cursor the number
goes up to the first blank, and how many blanks follow is told by the number
(`Listing.IsRow.unique`). So a line is shown as it is, with the digits and the blanks
that it begins with.

In a session the cursor is on the line of a byte of the text (`Program.offsetAt_lt`),
also when the program has ended, and that is one of the lines that the text is split
into (`Source.exists_line`): a listing marks it and marks nothing else
(`listing_shows_window`).

Key definitions: `Listing.IsRow`, `Listing.Shows`, `Debugger.MarksCurrentLine`.
Key theorems: `Listing.IsRow.unique`, `Listing.render_shows`, `Debugger.options_actAll`,
`listing_shows_window`.
-/
import Mathlib.Data.List.Forall2
import Mathlib.Data.List.Intervals
import ScriptDebug.Proofs.Debugger.History
import ScriptDebug.Proofs.Number.Integer
import ScriptDebug.Proofs.Program.Marks
import ScriptDebug.Proofs.Source.Places

namespace ScriptDebug
namespace Listing

/-! ### Rows -/

/-- The two characters that a row begins with. -/
def marker (marked : Bool) : List Char := if marked then ['>', ' '] else [' ', ' ']

/-- The blanks behind a number of so many digits: up to six characters, and one at least. -/
def gap (digits : Nat) : List Char := List.replicate (max (6 - digits) 1) ' '

/-- `row` is that of line `n` with the text `t`, with the cursor or without. -/
def IsRow (row : List Char) (marked : Bool) (n : Nat) (t : List Char) : Prop :=
  row = marker marked ++ (n.repr.toList ++ (gap n.repr.length ++ t))

theorem head_gap (digits : Nat) (t : List Char) : (gap digits ++ t).head? = some ' ' := by
  obtain ⟨k, hk⟩ : ∃ k, max (6 - digits) 1 = k + 1 := ⟨max (6 - digits) 1 - 1, by omega⟩
  rw [gap, hk, List.replicate_succ]
  rfl

/-- **A row is that of one line only**, with one text, and the cursor is on it or not. -/
theorem IsRow.unique {row : List Char} {b b' : Bool} {n n' : Nat} {t t' : List Char}
    (h : IsRow row b n t) (h' : IsRow row b' n' t') : b = b' ∧ n = n' ∧ t = t' := by
  have heq := h.symm.trans h'
  have hlength : (marker b).length = (marker b').length := by cases b <;> cases b' <;> rfl
  obtain ⟨hmarker, hrest⟩ := List.append_inj heq hlength
  -- the digits go up to the first blank
  have hsplit (n : Nat) (t : List Char) :
      (n.repr.toList ++ (gap n.repr.length ++ t)).takeWhile Char.isDigit = n.repr.toList := by
    refine (Text.split_before (fun c hc => Number.isDigit_of_mem_repr hc) fun d hd => ?_).1
    rw [head_gap] at hd
    cases hd
    rfl
  have hdigits : n.repr.toList = n'.repr.toList := by
    rw [← hsplit n t, hrest, hsplit n' t']
  have hn : n = n' := by
    have hread := Number.readDigits?_repr n
    rw [hdigits, Number.readDigits?_repr] at hread
    exact (Option.some.inj hread).symm
  refine ⟨?_, hn, ?_⟩
  · cases b <;> cases b' <;> first | rfl | cases hmarker
  · rw [hn] at hrest
    exact List.append_cancel_left (List.append_cancel_left hrest)

theorem isRow_row (c n : Nat) (t : String) : IsRow (row false c n t).toList (n = c) n t.toList := by
  have hnumber : (paddedNumber n ++ t).toList =
      n.repr.toList ++ (gap n.repr.length ++ t.toList) := by
    rw [String.toList_append, paddedNumber, String.toList_append, String.toList_ofList,
      List.append_assoc]
    rfl
  unfold IsRow row
  by_cases h : n = c
  · simp only [h, if_true, Bool.false_eq_true, if_false, decide_true, String.toList_append]
    rw [← h, ← hnumber, String.toList_append, List.append_assoc]
    rfl
  · simp only [h, if_false, Bool.false_eq_true, decide_false]
    rw [String.toList_append, hnumber]
    rfl

/-- A row has no line feed if its line has none. -/
theorem IsRow.feed_not_mem {row : List Char} {b : Bool} {n : Nat} {t : List Char}
    (h : IsRow row b n t) (ht : '\n' ∉ t) : '\n' ∉ row := by
  rw [h, List.mem_append, List.mem_append, List.mem_append]
  rintro (hmem | hmem | hmem | hmem)
  · cases b <;> simp [marker] at hmem
  · exact absurd (Number.isDigit_of_mem_repr hmem) (by decide)
  · exact absurd (List.eq_of_mem_replicate hmem) (by decide)
  · exact ht hmem

/-! ### The window -/

/-- What the rows of a window of the radius `r` around line `c` are: there is one for each line from
`c - r` to `c + r` that the text has, in their order, with that line as it is, and the cursor on line
`c`; and each of them can be read in one way only. -/
structure Shows (lines : Array String) (c r : Nat) (rows : List (List Char)) : Prop where
  numbered : List.Forall₂
    (fun n row => ∃ t, lines[n - 1]? = some t ∧ IsRow row (n = c) n t.toList)
    (List.Ico (max 1 (c - r)) (min lines.size (c + r) + 1)) rows
  decoded : ∀ row ∈ rows, ∃! line : Bool × Nat × List Char, IsRow row line.1 line.2.1 line.2.2

/-- The numbers of a window. -/
theorem map_fst_window (lines : Array String) (c r : Nat) :
    (window lines c r).map Prod.fst = List.Ico (max 1 (c - r)) (min lines.size (c + r) + 1) := by
  have hsnd : (Prod.fst ∘ fun p : String × Nat => (p.2, p.1)) = Prod.snd := rfl
  unfold window
  rw [List.map_map, hsnd, List.zipIdx_map_snd, List.Ico, Array.length_toList, Array.size_extract,
    Nat.max_comm]
  congr 1
  omega

/-- The texts of a window are those lines. -/
theorem getElem?_of_mem_window {lines : Array String} {c r n : Nat} {t : String}
    (h : (n, t) ∈ window lines c r) : lines[n - 1]? = some t := by
  obtain ⟨p, hp, heq⟩ := List.mem_map.1 h
  obtain ⟨hle, hget⟩ := List.mem_zipIdx_iff_le_and_getElem?_sub.1 hp
  cases heq
  rw [Array.getElem?_toList, Array.getElem?_extract] at hget
  split at hget
  · rwa [show max (c - r) 1 - 1 + (p.2 - max (c - r) 1) = p.2 - 1 by omega] at hget
  · cases hget

theorem splitOn_rows {rows : List (List Char)} (h : ∀ row ∈ rows, '\n' ∉ row) :
    (rows.flatMap (· ++ ['\n'])).splitOn '\n' = rows ++ [[]] := by
  induction rows with
  | nil => rfl
  | cons row rows ih =>
    obtain ⟨hrow, hrows⟩ := List.forall_mem_cons.1 h
    rw [List.flatMap_cons, List.append_assoc, List.singleton_append,
      List.splitOn_append_cons_self_of_not_mem hrow, ih hrows, List.cons_append]

/-- **A listing shows the window and nothing else.** -/
theorem render_shows (s : Source) (c r : Nat) : ∃ rows,
    (render s c ⟨.window, r, false⟩).toList.splitOn '\n' = rows ++ [[]] ∧
      Shows s.lines c r rows := by
  have hrow (p : Nat × String) (hp : p ∈ window s.lines c r) :
      ∃ t, s.lines[p.1 - 1]? = some t ∧ IsRow (row false c p.1 p.2).toList (p.1 = c) p.1 t.toList :=
    ⟨p.2, getElem?_of_mem_window hp, isRow_row c p.1 p.2⟩
  refine ⟨(window s.lines c r).map fun p => (row false c p.1 p.2).toList, ?_, ?_, ?_⟩
  · have hjoin : (render s c ⟨.window, r, false⟩).toList =
        ((window s.lines c r).map fun p => (row false c p.1 p.2).toList).flatMap (· ++ ['\n']) := by
      rw [List.flatMap_map]
      simp only [render, String.toList_join, List.flatMap_map, String.toList_append]
      rfl
    rw [hjoin]
    refine splitOn_rows fun row hmem => ?_
    obtain ⟨p, hp, rfl⟩ := List.mem_map.1 hmem
    obtain ⟨t, ht, hrow⟩ := hrow p hp
    rw [s.lines_eq] at ht
    exact hrow.feed_not_mem (Text.feed_not_mem_lines t (Array.mem_of_getElem? ht))
  · rw [← map_fst_window, List.forall₂_map_left_iff, List.forall₂_map_right_iff, List.forall₂_same]
    exact hrow
  · intro row hmem
    obtain ⟨p, hp, rfl⟩ := List.mem_map.1 hmem
    refine ⟨(decide (p.1 = c), p.1, p.2.toList), isRow_row c p.1 p.2, fun line hline => ?_⟩
    obtain ⟨hb, hn, ht⟩ := hline.unique (isRow_row c p.1 p.2)
    exact Prod.ext hb (Prod.ext hn ht)

/-- Rows of other lines than `c` are without the cursor. -/
theorem not_marked_of_ne {lines : Array String} {c : Nat} {rows : List (List Char)} {ns : List Nat}
    (h : List.Forall₂ (fun row n => ∃ t, lines[n - 1]? = some t ∧ IsRow row (n = c) n t.toList) rows ns)
    (hne : c ∉ ns) : ∀ row ∈ rows, ∀ n t, ¬ IsRow row true n t := by
  induction h with
  | nil => exact nofun
  | @cons row n rows ns hrow _ ih =>
    obtain ⟨t, -, hrow⟩ := hrow
    refine List.forall_mem_cons.2 ⟨fun n' t' hmarked => ?_, ih (List.not_mem_of_not_mem_cons hne)⟩
    have hnc : n = c := of_decide_eq_true (hrow.unique hmarked).1
    exact hne (hnc ▸ List.mem_cons_self)

/-- Where line `c` is one of the text, one row has the cursor. -/
theorem Shows.exists_marked {lines : Array String} {c r : Nat} {rows : List (List Char)}
    (h : Shows lines c r rows) (hpos : 0 < c) (hc : c ≤ lines.size) :
    ∃ before row after, rows = before ++ row :: after ∧
      (∃ t, lines[c - 1]? = some t ∧ IsRow row true c t.toList) ∧
      ∀ other ∈ before ++ after, ∀ n t, ¬ IsRow other true n t := by
  have hsplit : List.Ico (max 1 (c - r)) (min lines.size (c + r) + 1) =
      List.Ico (max 1 (c - r)) c ++ c :: List.Ico (c + 1) (min lines.size (c + r) + 1) := by
    rw [← List.Ico.append_consecutive (show max 1 (c - r) ≤ c by omega)
      (show c ≤ min lines.size (c + r) + 1 by omega), List.Ico.eq_cons (n := c) (by omega)]
  have hrows := h.numbered.flip
  rw [hsplit] at hrows
  have hbefore := List.forall₂_take_append _ _ _ hrows
  obtain ⟨row, after, ⟨t, ht, hrow⟩, hafter, hdrop⟩ :=
    List.forall₂_cons_right_iff.1 (List.forall₂_drop_append _ _ _ hrows)
  refine ⟨rows.take (List.Ico (max 1 (c - r)) c).length, row, after, ?_, ⟨t, ht, ?_⟩, ?_⟩
  · rw [← hdrop, List.take_append_drop]
  · rwa [decide_eq_true rfl] at hrow
  · refine List.forall_mem_append.2 ⟨not_marked_of_ne hbefore ?_, not_marked_of_ne hafter ?_⟩
    · exact List.Ico.notMem_top
    · rw [List.Ico.mem]
      omega

end Listing

/-! ### Sessions -/

namespace Debugger

theorem options_next (d : Debugger) : d.next.1.options = d.options := by
  unfold next
  simp only
  split
  · exact (moved_stepToLine _ _ (d.setPhase .running)).options
  · rfl

theorem options_resume (d : Debugger) : d.resume.1.options = d.options := by
  have hoff := (d.setPhase .running).moved_runOff.options
  unfold resume
  rcases ho : (d.setPhase .running).runOff with ⟨after, outcome⟩
  rw [ho] at hoff
  cases outcome with
  | ok reason => exact hoff
  | error e => exact hoff

theorem options_exec (d : Debugger) (text : String) : (d.exec text).1.options = d.options := by
  unfold exec
  split <;> rfl

theorem options_print (d : Debugger) (x : String) : (d.print x).1.options = d.options := by
  unfold print resolve
  split
  · rfl
  · simp only
    split <;> rfl

/-- **Whatever is done to a debugger keeps the options of its listings.** -/
theorem options_act (d : Debugger) (a : Action) : (d.act a).1.options = d.options := by
  cases a with
  | command c =>
    cases c with
    | next => exact options_next (d.tell _)
    | resume => exact options_resume (d.tell _)
    | exec text => exact options_exec (d.tell _) text
    | print x => exact options_print (d.tell _) x
    | stepIn | stepOut | list => rfl
  | setBreakpoint b =>
    show (d.setBreakpoint b).1.options = _
    unfold setBreakpoint
    split <;> rfl
  | clearBreakpoint b =>
    show (d.clearBreakpoint b).1.options = _
    unfold clearBreakpoint
    split <;> rfl
  | reactivate => rfl
  | runToPause => exact d.moved_runUpTo.options

theorem options_actAll (d : Debugger) (actions : List Action) :
    (d.actAll actions).1.options = d.options := by
  induction actions generalizing d with
  | nil => rfl
  | cons a actions ih => exact (ih _).trans (d.options_act a)

/-- `list` answers with a listing in which one row has the cursor: that of the current line, with the
text of that line of the source. -/
def MarksCurrentLine (d : Debugger) (source : Source) : Prop :=
  ∃ listing before row after, (d.run .list).2 = .text listing ∧
    listing.toList.splitOn '\n' = before ++ row :: (after ++ [[]]) ∧
    (∃ t, source.lines[d.session.currentLine - 1]? = some t ∧
      Listing.IsRow row true d.session.currentLine t.toList) ∧
    ∀ other ∈ before ++ after, ∀ n t, ¬ Listing.IsRow other true n t

end Debugger

/-- Every instruction is on one of the lines of a text that is not empty. -/
theorem Program.lineAt_le_size {source : Source} {mode : Mode} {p : Program}
    (h : Program.ofSource source mode = .ok p) (hne : source.text ≠ "") (pc : Nat) :
    p.lineAt pc ≤ source.lines.size := by
  have ho : p.offsetAt pc < source.bytes.length := by
    rw [source.bytes_eq, Text.length_encoding]
    exact offsetAt_lt h hne pc
  obtain ⟨_, _, _, _, _, hline⟩ := source.exists_line ho
  have := (Array.getElem?_eq_some_iff.1 hline).1
  unfold lineAt placeAt
  rw [source_ofSource h]
  omega

/-- **A listing shows the window around its line and nothing else**, and each row tells its number and
its text. In a session whose program is that of a text that is not empty a listing always marks the
current line, and only that one. -/
theorem listing_shows_window :
    (∀ (s : Source) (c r : Nat), ∃ rows,
      (Listing.render s c ⟨.window, r, false⟩).toList.splitOn '\n' = rows ++ [[]] ∧
        Listing.Shows s.lines c r rows) ∧
    ∀ {source : Source} {mode : Mode} {p : Program} {m : Machine},
      Program.ofSource source mode = .ok p → source.text ≠ "" → m.frame.program = p →
      ∀ (r : Nat) (actions : List Action),
        ((Debugger.start m ⟨.window, r, false⟩).actAll actions).1.MarksCurrentLine source := by
  refine ⟨Listing.render_shows, ?_⟩
  intro source mode p m h hne hm r actions
  let first := Debugger.start m ⟨.window, r, false⟩
  generalize hd : (first.actAll actions).1 = d
  have hprogram : d.machine.frame.program = p := by
    rw [← hd, Debugger.program_actAll]
    exact hm
  have hoptions : d.options = ⟨.window, r, false⟩ := by
    rw [← hd, Debugger.options_actAll]
    rfl
  have hcursor : d.session.currentLine = d.line := hd ▸ Debugger.currentLine_actAll rfl actions
  have hline : d.line = p.lineAt d.machine.frame.pc := by
    rw [Debugger.line, Machine.line, hprogram]
  obtain ⟨rows, hsplit, hshows⟩ := Listing.render_shows source d.line r
  obtain ⟨before, row, after, rfl, hrow, hothers⟩ :=
    hshows.exists_marked (hline ▸ p.lineAt_pos _) (hline ▸ Program.lineAt_le_size h hne _)
  refine ⟨Listing.render source d.line ⟨.window, r, false⟩, before, row, after, ?_, ?_, ?_, hothers⟩
  · show Report.text (Listing.render d.machine.frame.program.source d.line d.options) = _
    rw [hprogram, Program.source_ofSource h, hoptions]
  · rw [hsplit, List.append_assoc, List.cons_append]
  · rwa [hcursor]

set_option maxRecDepth 100000 in
/-- A session that has gone on from a marker, with a window of the current line alone, which begins with
blanks. -/
theorem resumed_session_marked :
    let source := Source.ofText "s" "debugger;\n  this;\n"
    ∃ p, Program.ofSource source .script = .ok p ∧ source.text ≠ "" ∧
      ((Debugger.start (.start p) ⟨.window, 0, false⟩).actAll
        [.command .resume]).1.MarksCurrentLine source := by
  intro source
  obtain ⟨p, hp⟩ : ∃ p, Program.ofSource source .script = .ok p := ⟨_, by cbv⟩
  have hne : source.text ≠ "" := by decide
  exact ⟨p, hp, hne, listing_shows_window.2 hp hne rfl 0 [.command .resume]⟩

end ScriptDebug
