/-
# The lines of a program

The marks of statements are written at strictly growing indices, so none of them
takes the place of another (`Program.ofTree_marks`). The marks of a program stand
in the order of its code, and in that order they go down the text
(`Program.Marked`). An instruction inherits the mark before it, so the lines of the
instructions never go back up (`Program.lineAt_mono`), and the first instruction
after the counter whose line is further down is where the next line with code
begins (`Program.nextLine_of_isLeast`).

Key definitions: `Program.Marked`, `Program.further`.
Key theorems: `Program.ofTree_marks`, `Program.marked_ofSource`, `Program.lineAt_mono`,
`Program.nextLine_of_isLeast`, `Program.nextLine_eq_zero_iff`.
-/
import Mathlib.Order.Lattice.Nat
import ScriptDebug.Proofs.Program.Code
import ScriptDebug.Proofs.Script.Order

namespace ScriptDebug

/-! ### Offsets and their lines -/

/-- Lines start one after the other. -/
theorem pairwise_lineStarts {starts : Array Nat} {o : Nat} (cs : List Char)
    (h : starts.toList.Pairwise (· < ·)) (hb : ∀ s ∈ starts.toList, s ≤ o) :
    (lineStarts starts o cs).toList.Pairwise (· < ·) := by
  induction cs generalizing starts o with
  | nil => exact h
  | cons c cs ih =>
    have hc := c.utf8Size_pos
    unfold lineStarts
    dsimp only
    split
    · refine ih ?_ fun s hs => ?_
      · rw [Array.toList_push, List.pairwise_append]
        refine ⟨h, List.pairwise_singleton _ _, fun s hs s' hs' => ?_⟩
        have := hb s hs
        rw [List.mem_singleton] at hs'
        omega
      · rw [Array.toList_push, List.mem_append, List.mem_singleton] at hs
        rcases hs with hs | rfl
        · have := hb s hs
          omega
        · exact Nat.le_refl _
    · refine ih h fun s hs => ?_
      have := hb s hs
      omega

theorem prefix_lineStarts (starts : Array Nat) (o : Nat) (cs : List Char) :
    starts.toList <+: (lineStarts starts o cs).toList := by
  induction cs generalizing starts o with
  | nil => exact List.prefix_refl _
  | cons c cs ih =>
    unfold lineStarts
    dsimp only
    split
    · refine List.IsPrefix.trans ?_ (ih _ _)
      rw [Array.toList_push]
      exact List.prefix_append _ _
    · exact ih _ _

namespace Source

variable (s : Source)

theorem starts_mono {i j : Nat} (hij : i ≤ j) (hj : j < s.starts.size) :
    s.starts.getD i 0 ≤ s.starts.getD j 0 := by
  have hsorted : s.starts.toList.Pairwise (· < ·) := by
    rw [s.starts_eq]
    exact pairwise_lineStarts _ (List.pairwise_singleton _ _) (by simp)
  rcases Nat.lt_or_eq_of_le hij with hlt | rfl
  · have hi : i < s.starts.size := Nat.lt_trans hlt hj
    have := List.pairwise_iff_getElem.1 hsorted i j hi hj hlt
    simp only [Array.getD, hi, hj, dite_true]
    exact Nat.le_of_lt this
  · exact Nat.le_refl _

/-- The first line starts at the first byte. -/
theorem starts_head : ∃ rest, s.starts.toList = 0 :: rest := by
  obtain ⟨rest, hrest⟩ := prefix_lineStarts #[0] 0 s.text.toList
  rw [← s.starts_eq] at hrest
  exact ⟨rest, hrest.symm⟩

theorem line_mono {o o' : Nat} (h : o ≤ o') : (s.lineCol o).line ≤ (s.lineCol o').line :=
  Search.count_mono (fun _ _ hij hj => s.starts_mono hij hj) h

theorem starts_zero : 0 < s.starts.size ∧ s.starts.getD 0 0 = 0 := by
  obtain ⟨rest, hrest⟩ := s.starts_head
  refine ⟨?_, ?_⟩
  · rw [← Array.length_toList, hrest]
    exact Nat.succ_pos _
  · rw [Array.getD_eq_getD_getElem?, ← Array.getElem?_toList, hrest]
    rfl

theorem line_pos (o : Nat) : 0 < (s.lineCol o).line := by
  obtain ⟨hsize, hzero⟩ := s.starts_zero
  refine (Search.lt_count_iff (fun _ _ hij hj => s.starts_mono hij hj) hsize).2 ?_
  rw [hzero]
  exact Nat.zero_le o

end Source

/-! ### The marks of a piece -/

/-- The marks are in the order of the code, each at an index from `lo` on and before `hi`. -/
structure MarksIn (lo hi : Nat) (marks : List Mark) : Prop where
  ascend : (marks.map Mark.pc).Pairwise (· < ·)
  bounds : ∀ m ∈ marks, lo ≤ m.pc ∧ m.pc < hi

namespace MarksIn

variable {lo mid hi : Nat}

theorem nil : MarksIn lo hi [] := ⟨.nil, nofun⟩

theorem single {m : Mark} (hlo : lo ≤ m.pc) (hhi : m.pc < hi) : MarksIn lo hi [m] := by
  refine ⟨List.pairwise_singleton _ _, fun m' hm' => ?_⟩
  rw [List.mem_singleton] at hm'
  exact hm' ▸ ⟨hlo, hhi⟩

theorem append {ms ms' : List Mark} (h : MarksIn lo mid ms) (h' : MarksIn mid hi ms')
    (hlo : lo ≤ mid) (hhi : mid ≤ hi) : MarksIn lo hi (ms ++ ms') := by
  refine ⟨?_, fun m hm => ?_⟩
  · rw [List.map_append, List.pairwise_append]
    refine ⟨h.ascend, h'.ascend, fun a ha b hb => ?_⟩
    obtain ⟨m, hm, rfl⟩ := List.mem_map.1 ha
    obtain ⟨m', hm', rfl⟩ := List.mem_map.1 hb
    exact Nat.lt_of_lt_of_le (h.bounds m hm).2 (h'.bounds m' hm').1
  · rcases List.mem_append.1 hm with hm | hm
    · exact ⟨(h.bounds m hm).1, Nat.lt_of_lt_of_le (h.bounds m hm).2 hhi⟩
    · exact ⟨Nat.le_trans hlo (h'.bounds m hm).1, (h'.bounds m hm).2⟩

end MarksIn

/-- A mark above those of a table is written behind them. -/
theorem Mark.write_of_lt {marks : Array Mark} {m : Mark} (h : ∀ m' ∈ marks, m'.pc < m.pc) :
    Mark.write marks m = marks.push m := by
  unfold Mark.write
  split
  · rename_i last hlast
    exact if_neg (Nat.ne_of_lt (h last (Array.mem_of_back? hlast)))
  · rfl

/-- **No mark is written over** when the marks are at strictly growing indices. -/
theorem Mark.foldl_write {marks : List Mark} {table : Array Mark}
    (h : ((table.toList ++ marks).map Mark.pc).Pairwise (· < ·)) :
    (marks.foldl Mark.write table).toList = table.toList ++ marks := by
  induction marks generalizing table with
  | nil => exact (List.append_nil _).symm
  | cons m marks ih =>
    have hwrite : Mark.write table m = table.push m := by
      refine write_of_lt fun m' hm' => ?_
      rw [List.map_append, List.pairwise_append] at h
      exact h.2.2 _ (List.mem_map_of_mem (Array.mem_toList_iff.2 hm')) _ List.mem_cons_self
    have hpush : table.toList ++ m :: marks = (table.push m).toList ++ marks := by simp
    rw [hpush] at h ⊢
    rw [List.foldl_cons, hwrite, ih h]

/-- Marks that are in the order of the code are the table that is written from them. -/
theorem MarksIn.toList_written {lo hi : Nat} {marks : List Mark} (h : MarksIn lo hi marks) :
    (marks.foldl Mark.write #[]).toList = marks := Mark.foldl_write h.ascend

mutual

theorem Stmt.marksIn_piece (g : Bool) (pc : Nat) (pool : Array Value) :
    (s : Stmt) → MarksIn pc (pc + (s.piece g pc pool).code.length) (s.piece g pc pool).marks
  | .empty _ => .nil
  | .pause _ => .single (Nat.le_refl _) (Nat.lt_succ_self _)
  | .declare _ how x init => by
    refine .single (Nat.le_refl _) ?_
    simp [Stmt.piece]
  | .expr _ e => by
    refine .single (Nat.le_refl _) ?_
    simp [Stmt.piece]
  | .block span body => by
    have hinner := marksIn_bodyPiece g (pc + 1) pool body
    have hlen : pc + (Stmt.piece g pc pool (.block span body)).code.length =
        pc + 1 + (bodyPiece g (pc + 1) pool body).code.length + 1 := by
      simp [Stmt.piece]
      omega
    rw [hlen]
    have henter : MarksIn pc (pc + 1) [⟨pc, span.start⟩] :=
      .single (Nat.le_refl _) (Nat.lt_succ_self _)
    have hleave := MarksIn.single (m := ⟨pc + 1 + (bodyPiece g (pc + 1) pool body).code.length,
      span.stop - 1⟩) (Nat.le_refl _) (Nat.lt_succ_self _)
    refine henter.append (hinner.append hleave ?_ ?_) ?_ ?_
    all_goals omega

/-- The marks of statements are in the order of their code and lie in it. -/
theorem marksIn_bodyPiece (g : Bool) (pc : Nat) (pool : Array Value) :
    (body : List Stmt) →
      MarksIn pc (pc + (bodyPiece g pc pool body).code.length) (bodyPiece g pc pool body).marks
  | [] => .nil
  | s :: body => by
    have hs := s.marksIn_piece g pc pool
    have hrest := marksIn_bodyPiece g (pc + (s.piece g pc pool).code.length)
      (s.piece g pc pool).pool body
    simp only [bodyPiece, List.length_append]
    rw [← Nat.add_assoc]
    exact hs.append hrest (Nat.le_add_right _ _) (Nat.le_add_right _ _)

end

mutual

theorem Stmt.offsets_piece (g : Bool) (pc : Nat) (pool : Array Value) :
    (s : Stmt) → (s.piece g pc pool).marks.map Mark.offset = s.offsets
  | .empty _ | .pause _ | .declare _ _ _ _ | .expr _ _ => rfl
  | .block _ body => by
    simp [Stmt.piece, Stmt.offsets, offsets_bodyPiece g _ _ body]

/-- The marks of statements have the offsets of the tree. -/
theorem offsets_bodyPiece (g : Bool) (pc : Nat) (pool : Array Value) :
    (body : List Stmt) → (bodyPiece g pc pool body).marks.map Mark.offset = bodyOffsets body
  | [] => rfl
  | s :: body => by
    simp [bodyPiece, bodyOffsets, s.offsets_piece g pc pool, offsets_bodyPiece g _ _ body]

end

/-! ### The marks of a program -/

/-- Where the code of the statements of a text begins: the scope of a fragment is opened before. -/
def Mode.opening (mode : Mode) : Nat := if mode.isFragment then 1 else 0

/-- The entry of the scope of a fragment. A script has none. -/
def Mode.front (mode : Mode) : List Mark := if mode.isFragment then [⟨0, 0⟩] else []

namespace Program

theorem ofTree_marksIn (source : Source) (mode : Mode) (body : List Stmt) :
    MarksIn 0 ((ofTree source mode body).code.size - 1)
      (mode.front ++ (bodyPiece mode.globalSelf mode.opening #[] body).marks) := by
  unfold ofTree Mode.front Mode.opening
  split
  · have henter : MarksIn 0 1 [⟨0, 0⟩] := .single (Nat.le_refl _) Nat.one_pos
    have hin := henter.append (marksIn_bodyPiece mode.globalSelf 1 #[] body) (Nat.zero_le _)
      (Nat.le_add_right _ _)
    -- the last instruction but one leaves the scope of the fragment, without a mark
    have hall : MarksIn 0 (1 + (bodyPiece mode.globalSelf 1 #[] body).code.length + 1) _ :=
      hin.append .nil (Nat.zero_le _) (Nat.le_succ _)
    simpa [Nat.add_comm 1, Nat.add_assoc] using hall
  · simpa using marksIn_bodyPiece mode.globalSelf 0 #[] body

/-- **The marks of a program are those of its statements**, each of them: none takes the place of
another when the table is written. Before them a fragment has the mark of its scope. -/
theorem ofTree_marks (source : Source) (mode : Mode) (body : List Stmt) :
    (ofTree source mode body).marks.toList =
      mode.front ++ (bodyPiece mode.globalSelf mode.opening #[] body).marks := by
  rw [← (ofTree_marksIn source mode body).toList_written]
  unfold ofTree Mode.front Mode.opening
  split <;> rfl

/-- The marks are in the order of the code, of which all but the last instruction can have one, and
in that order they do not go back in the text. -/
structure Marked (p : Program) : Prop where
  within : MarksIn 0 (p.code.size - 1) p.marks.toList
  offsets : (p.marks.toList.map Mark.offset).Pairwise (· ≤ ·)

/-- **The marks of a compiled text are in order**, be it a script or a fragment. -/
theorem marked_ofSource {source : Source} {mode : Mode} {p : Program}
    (h : ofSource source mode = .ok p) : p.Marked := by
  obtain ⟨body, hbody, rfl⟩ := ofSource_eq_ok.1 h
  have hoffsets : (bodyOffsets body).Pairwise (· ≤ ·) :=
    (Tree.ofSource_offsets hbody).imp Nat.le_of_lt
  refine ⟨?_, ?_⟩
  · rw [ofTree_marks]
    exact ofTree_marksIn source mode body
  · rw [ofTree_marks, List.map_append, offsets_bodyPiece]
    unfold Mode.front
    split
    · simp [hoffsets]
    · exact hoffsets

variable {p : Program}

theorem getD_mono {f : Mark → Nat} {ms : Array Mark} (h : (ms.toList.map f).Pairwise (· ≤ ·))
    {i j : Nat} (hij : i ≤ j) (hj : j < ms.size) :
    (ms[i]?.map f).getD 0 ≤ (ms[j]?.map f).getD 0 := by
  have hi : i < ms.size := Nat.lt_of_le_of_lt hij hj
  simp only [hi, hj, getElem?_pos, Option.map_some, Option.getD_some]
  rcases Nat.lt_or_eq_of_le hij with hlt | rfl
  · have := List.pairwise_iff_getElem.1 h i j (by simpa using hi) (by simpa using hj) hlt
    simpa using this
  · exact Nat.le_refl _

theorem marks_mono (h : p.Marked) {i j : Nat} (hij : i ≤ j) (hj : j < p.marks.size) :
    (p.marks[i]?.map Mark.pc).getD 0 ≤ (p.marks[j]?.map Mark.pc).getD 0 :=
  getD_mono (h.within.ascend.imp Nat.le_of_lt) hij hj

/-- Later instructions come from later in the text. -/
theorem offsetAt_mono (h : p.Marked) {i j : Nat} (hij : i ≤ j) : p.offsetAt i ≤ p.offsetAt j := by
  have hle := Search.count_mono (fun _ _ => marks_mono h) hij
  have hsize : Search.count (fun i => (p.marks[i]?.map Mark.pc).getD 0) j p.marks.size ≤
      p.marks.size := Search.count_le j
  unfold offsetAt
  split
  · exact Nat.zero_le _
  · rename_i a ha
    split
    · omega
    · exact getD_mono h.offsets (by omega) (by omega)

/-- No mark is at the last instruction or behind it. -/
theorem offsetAt_of_size_le (h : p.Marked) {i j : Nat} (hi : p.code.size ≤ i + 1)
    (hj : p.code.size ≤ j + 1) : p.offsetAt i = p.offsetAt j := by
  have hall {i : Nat} (hi : p.code.size ≤ i + 1) :
      Search.count (fun i => (p.marks[i]?.map Mark.pc).getD 0) i p.marks.size = p.marks.size := by
    refine Nat.le_antisymm (Search.count_le _) (Nat.le_of_not_lt fun hlt => ?_)
    have habove := mt (Search.lt_count_iff (fun _ _ => marks_mono h) (x := i) hlt).2
      (Nat.lt_irrefl _)
    have hmem : p.marks[Search.count (fun i => (p.marks[i]?.map Mark.pc).getD 0) i p.marks.size] ∈
        p.marks.toList := by simp
    have hbound := (h.within.bounds _ hmem).2
    simp only [hlt, getElem?_pos, Option.map_some, Option.getD_some] at habove
    omega
  unfold offsetAt
  rw [hall hi, hall hj]

/-! ### Lines -/

/-- **Later instructions are not on earlier lines.** -/
theorem lineAt_mono (h : p.Marked) {i j : Nat} (hij : i ≤ j) : p.lineAt i ≤ p.lineAt j :=
  p.source.line_mono (offsetAt_mono h hij)

theorem lineAt_pos (p : Program) (i : Nat) : 0 < p.lineAt i := p.source.line_pos _

theorem lineAt_of_size_le (h : p.Marked) {i j : Nat} (hi : p.code.size ≤ i + 1)
    (hj : p.code.size ≤ j + 1) : p.lineAt i = p.lineAt j := by
  unfold lineAt placeAt
  rw [offsetAt_of_size_le h hi hj]

/-- The indices after `pc` whose line is further down the text. -/
def further (p : Program) (pc : Nat) : Set Nat := {i | pc < i ∧ p.lineAt pc < p.lineAt i}

/-- From `pc` on, a line above `line` is found at the first of `n` indices that has one. -/
theorem lineBeyond_of_first {line pc k n : Nat} (hpc : pc ≤ k) (hk : k < pc + n)
    (hline : line < p.lineAt k) (hfirst : ∀ i, pc ≤ i → i < k → p.lineAt i ≤ line) :
    p.lineBeyond line n pc = p.lineAt k := by
  induction n generalizing pc with
  | zero => omega
  | succ n ih =>
    unfold lineBeyond
    rcases Nat.lt_or_eq_of_le hpc with hlt | rfl
    · rw [if_neg (Nat.not_lt_of_le (hfirst pc (Nat.le_refl _) hlt))]
      exact ih hlt (by omega) fun i hi hik => hfirst i (Nat.le_of_lt hi) hik
    · rw [if_pos hline]

theorem lineBeyond_eq_zero {line pc n : Nat} (h : ∀ i, pc ≤ i → i < pc + n → p.lineAt i ≤ line) :
    p.lineBeyond line n pc = 0 := by
  induction n generalizing pc with
  | zero => rfl
  | succ n ih =>
    unfold lineBeyond
    rw [if_neg (Nat.not_lt_of_le (h pc (Nat.le_refl _) (by omega)))]
    exact ih fun i hi hin => h i (Nat.le_of_lt hi) (by omega)

/-- What is further down the text is code. -/
theorem lt_size_of_isLeast (h : p.Marked) {pc k : Nat} (hk : IsLeast (p.further pc) k) :
    k < p.code.size := by
  by_contra hge
  have hlt : pc < k := hk.1.1
  -- from the last instruction on the line stays, so the index before would do as well
  have hsame := lineAt_of_size_le h (i := k) (j := k - 1) (by omega) (by omega)
  have hline : p.lineAt pc < p.lineAt k := hk.1.2
  rw [hsame] at hline
  have hne : pc ≠ k - 1 := fun heq => by
    rw [← heq] at hline
    exact Nat.lt_irrefl _ hline
  have hpred : k - 1 ∈ p.further pc := ⟨by omega, hline⟩
  have := hk.2 hpred
  omega

/-- **The next line is that of the first index further down.** -/
theorem nextLine_of_isLeast (h : p.Marked) {pc k : Nat} (hk : IsLeast (p.further pc) k) :
    p.nextLine pc = p.lineAt k := by
  have hsize := lt_size_of_isLeast h hk
  have hlt : pc < k := hk.1.1
  refine lineBeyond_of_first hlt (by omega) hk.1.2 fun i hi hik => ?_
  by_contra hbeyond
  have := hk.2 ⟨hi, Nat.lt_of_not_le hbeyond⟩
  omega

/-- There is no next line exactly when nothing is further down. -/
theorem nextLine_eq_zero_iff (h : p.Marked) {pc : Nat} : p.nextLine pc = 0 ↔ p.further pc = ∅ := by
  constructor
  · intro hzero
    by_contra hne
    have hne := Set.nonempty_iff_ne_empty.2 hne
    have hleast : IsLeast (p.further pc) (sInf (p.further pc)) := isLeast_csInf hne
    rw [nextLine_of_isLeast h hleast] at hzero
    have := p.lineAt_pos (sInf (p.further pc))
    omega
  · intro hempty
    refine lineBeyond_eq_zero fun i hi _ => Nat.le_of_not_lt fun hlt => ?_
    have : i ∈ p.further pc := ⟨hi, hlt⟩
    rw [hempty] at this
    exact this

/-- A next line is not a line that was passed. -/
theorem lt_nextLine {pc : Nat} (h : p.nextLine pc ≠ 0) : p.lineAt pc < p.nextLine pc := by
  have hbeyond (line n pc : Nat) : p.lineBeyond line n pc ≠ 0 → line < p.lineBeyond line n pc := by
    induction n generalizing pc with
    | zero => exact fun hne => absurd rfl hne
    | succ n ih =>
      unfold lineBeyond
      split
      · exact fun _ => ‹_›
      · exact ih (pc + 1)
  exact hbeyond _ _ _ h

/-- The next line begins with the following instruction exactly if that is further down. -/
theorem lineAt_succ_eq_nextLine_iff {pc : Nat} (hpc : pc + 1 < p.code.size) :
    p.lineAt (pc + 1) = p.nextLine pc ↔ p.lineAt pc < p.lineAt (pc + 1) := by
  constructor
  · intro heq
    have hpos := p.lineAt_pos (pc + 1)
    exact heq ▸ lt_nextLine (by omega)
  · intro hlt
    exact (lineBeyond_of_first (Nat.le_refl _) (by omega) hlt fun i hi hik => by omega).symm

/-- On one line the next line stays the same. -/
theorem nextLine_succ {pc : Nat} (hpc : pc + 1 < p.code.size)
    (hline : p.lineAt (pc + 1) = p.lineAt pc) : p.nextLine (pc + 1) = p.nextLine pc := by
  obtain ⟨n, hn⟩ : ∃ n, p.code.size - (pc + 1) = n + 1 := ⟨p.code.size - (pc + 1) - 1, by omega⟩
  have hn' : p.code.size - (pc + 1 + 1) = n := by omega
  unfold nextLine
  rw [hn, hn', lineBeyond, hline, if_neg (Nat.lt_irrefl _)]

end Program
end ScriptDebug
