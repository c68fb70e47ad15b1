/-
# The table of marks

Every statement that is not empty has a mark where its code begins, and so does
every closing brace where its scope is left; nothing else in a script has one
(`marks_perm`, `Program.ofTree_marks`). The table is in the order of the code, so
the search in it finds the last mark at or before an index
(`Program.offsetAt_cases`). Every offset in it is that of a byte of the text
(`Program.offsetAt_lt`).

Key definitions: `Site.entries`, `Program.Holds`, `Program.WellMarked`.
Key theorems: `marks_perm`, `bodySites_readFrom`, `Program.offsetAt_cases`,
`Program.offsetAt_lt`, `compiled_table_well_formed`.
-/
import ScriptDebug.Proofs.Program.Lines
import ScriptDebug.Proofs.Program.Safety
import ScriptDebug.Proofs.Script.Places

namespace ScriptDebug

/-! ### One entry for a statement, one for a brace -/

/-- The entries of a statement: one with its first byte where its code begins, and for a block one
with its last byte where its code ends. An empty statement has none. -/
def Site.entries (site : Site) : List Mark :=
  match site.stmt with
  | .empty _ => []
  | .block span _ => [⟨site.start, span.start⟩, ⟨site.stop - 1, span.stop - 1⟩]
  | s => [⟨site.start, s.span.start⟩]

mutual

theorem Stmt.marks_perm (g : Bool) (pc : Nat) (pool : Array Value) :
    (s : Stmt) → (s.piece g pc pool).marks.Perm ((s.sites g pc pool).flatMap Site.entries)
  | .empty _ | .pause _ | .declare _ _ _ _ | .expr _ _ => .refl _
  | .block span body => by
    have hinner := marks_perm g (pc + 1) pool body
    have hleave : pc + 1 + (bodyPiece g (pc + 1) pool body).code.length =
        pc + (Stmt.piece g pc pool (.block span body)).code.length - 1 := by
      rw [Stmt.code_block, List.length_cons, List.length_append, List.length_singleton]
      omega
    simp only [Stmt.sites, List.flatMap_cons, Site.entries, Stmt.piece, List.cons_append,
      List.nil_append] at hleave ⊢
    rw [hleave]
    -- the entry of the brace stands behind those of the statements in the block
    exact ((hinner.append_right _).trans List.perm_append_comm).cons _

/-- **The marks of statements are their entries and those of the statements in them.** -/
theorem marks_perm (g : Bool) (pc : Nat) (pool : Array Value) :
    (body : List Stmt) →
      (bodyPiece g pc pool body).marks.Perm ((bodySites g pc pool body).flatMap Site.entries)
  | [] => .refl _
  | s :: body => by
    rw [bodySites, List.flatMap_append]
    exact (s.marks_perm g pc pool).append (marks_perm g _ _ body)

end

/-- Statements have no code, or their first mark is where their code begins. -/
theorem head_marks (g : Bool) (pc : Nat) (pool : Array Value) (body : List Stmt) :
    ∀ m ∈ (bodyPiece g pc pool body).marks.head?, m.pc = pc := by
  induction body generalizing pool with
  | nil => exact nofun
  | cons s body ih =>
    cases s with
    | empty span => exact ih pool
    | pause | declare | expr | block =>
      intro m hm
      cases hm
      rfl

/-! ### Statements of the text -/

mutual

theorem Stmt.sites_readFrom (g : Bool) {ts : List Token} :
    ∀ (s : Stmt) (pc : Nat) (pool : Array Value), s.ReadFrom ts → ∀ site ∈ s.sites g pc pool,
      ∃ us, us <:+: ts ∧ site.stmt.ReadFrom us
  | .empty _, _, _, h | .pause _, _, _, h | .declare _ _ _ _, _, _, h | .expr _ _, _, _, h =>
    List.forall_mem_singleton.2 ⟨ts, List.infix_refl ts, h⟩
  | .block span body, pc, pool, h => by
    rintro site hsite
    rw [Stmt.sites, List.mem_cons] at hsite
    rcases hsite with rfl | hsite
    · exact ⟨ts, List.infix_refl ts, h⟩
    · cases h with
      | simple _ ho => simp [Stmt.offsets] at ho
      | @block opening closing inner _ _ hread _ =>
        obtain ⟨us, hus, h⟩ := bodySites_readFrom g body (pc + 1) pool hread site hsite
        exact ⟨us, hus.trans ⟨[opening], [closing], by simp⟩, h⟩

/-- What stands in statements is read from a part of their tokens. -/
theorem bodySites_readFrom (g : Bool) {ts : List Token} :
    ∀ (body : List Stmt) (pc : Nat) (pool : Array Value), BodyReadFrom ts body →
      ∀ site ∈ bodySites g pc pool body, ∃ us, us <:+: ts ∧ site.stmt.ReadFrom us
  | [], _, _, _ => fun _ hsite => nomatch hsite
  | s :: body, pc, pool, h => by
    cases h with
    | @cons first rest _ _ hs hbody =>
      intro site hsite
      rcases List.mem_append.1 hsite with hsite | hsite
      · obtain ⟨us, hus, h⟩ := s.sites_readFrom g pc pool hs site hsite
        exact ⟨us, hus.trans (List.prefix_append _ _).isInfix, h⟩
      · obtain ⟨us, hus, h⟩ := bodySites_readFrom g body _ _ hbody site hsite
        exact ⟨us, hus.trans (List.suffix_append _ _).isInfix, h⟩

end

/-! ### The table of a program -/

/-- All statements of a text, each with where its code is. -/
def Mode.sites (mode : Mode) (body : List Stmt) : List Site :=
  bodySites mode.globalSelf mode.opening #[] body

namespace Program

/-- The code of the statement is where the site says, and that of a block ends there with the
instruction that leaves its scope. -/
structure Holds (p : Program) (g : Bool) (site : Site) : Prop where
  code : ∃ pool, (site.stmt.piece g site.start pool).code <+: p.code.toList.drop site.start ∧
    site.stop = site.start + (site.stmt.piece g site.start pool).code.length
  leave : ∀ span body, site.stmt = .block span body → p.code[site.stop - 1]? = some .leaveBlock

theorem holds_of_stands {p : Program} {g : Bool} {n pc : Nat} {front code back : List Instruction}
    {site : Site} (hp : p.code.toList = front ++ code ++ back) (hpc : front.length = pc)
    (h : site.Stands g n pc code) : p.Holds g site := by
  obtain ⟨before, after, pool, rfl, hstart, hstop, -, -⟩ := h.split
  have hlen : site.start = (front ++ before).length := by rw [hstart, ← hpc, List.length_append]
  have hsplit : p.code.toList = (front ++ before) ++
      ((site.stmt.piece g site.start pool).code ++ (after ++ back)) := by
    rw [hp]
    simp only [List.append_assoc]
  have hdrop : p.code.toList.drop site.start =
      (site.stmt.piece g site.start pool).code ++ (after ++ back) := by
    rw [hsplit, hlen, List.drop_left]
  refine ⟨⟨pool, hdrop ▸ List.prefix_append _ _, hstop⟩, fun span body hblock => ?_⟩
  -- the last instruction of the block, counted from where its code begins
  rw [hblock, Stmt.code_block] at hdrop hstop
  simp only [List.length_cons, List.length_append, List.length_nil, Nat.zero_add] at hstop
  have hlast : site.stop - 1 =
      site.start + ((bodyPiece g (site.start + 1) pool body).code.length + 1) := by omega
  rw [hlast, ← Array.getElem?_toList, ← List.getElem?_drop, hdrop]
  simp

/-- The code of a program around that of its statements. -/
theorem ofTree_split (source : Source) (mode : Mode) (body : List Stmt) :
    ∃ front back, front.length = mode.opening ∧ (ofTree source mode body).code.toList =
      front ++ (bodyPiece mode.globalSelf mode.opening #[] body).code ++ back := by
  unfold ofTree Mode.opening
  split
  · exact ⟨[.enterBlock], [.leaveBlock, .halt], rfl, by simp⟩
  · exact ⟨[], [.halt], rfl, by simp⟩

variable {p : Program}

/-- **The search finds the last mark** at or before an index. -/
theorem offsetAt_cases (h : p.Marked) (pc : Nat) :
    (∀ m ∈ p.marks, pc < m.pc) ∧ p.offsetAt pc = 0 ∨
      ∃ m ∈ p.marks, m.pc ≤ pc ∧ (∀ m' ∈ p.marks, m'.pc ≤ pc → m'.pc ≤ m.pc) ∧
        p.offsetAt pc = m.offset := by
  have hcount {i : Nat} (hi : i < p.marks.size) :
      i < Search.count (fun i => (p.marks[i]?.map Mark.pc).getD 0) pc p.marks.size ↔
        p.marks[i].pc ≤ pc := by
    have hiff := Search.lt_count_iff (fun _ _ => marks_mono h) (x := pc) hi
    simpa [hi] using hiff
  have hsize : Search.count (fun i => (p.marks[i]?.map Mark.pc).getD 0) pc p.marks.size ≤
      p.marks.size := Search.count_le pc
  unfold offsetAt
  split
  · rename_i hzero
    refine Or.inl ⟨fun m hm => ?_, rfl⟩
    obtain ⟨i, hi, rfl⟩ := Array.mem_iff_getElem.1 hm
    have := hcount hi
    omega
  · rename_i k hk
    have hlt : k < p.marks.size := by omega
    refine Or.inr ⟨p.marks[k], Array.getElem_mem hlt, (hcount hlt).1 (by omega), ?_, by simp [hlt]⟩
    intro m hm hle
    obtain ⟨i, hi, rfl⟩ := Array.mem_iff_getElem.1 hm
    have hik := (hcount hi).2 hle
    have hmono := marks_mono h (i := i) (j := k) (by omega) hlt
    simpa [hi, hlt] using hmono

/-- The table of marks of a program that was compiled from a text. It ascends strictly from the first
instruction on and within the code, and does not go back in the text. Its entries are those of the
statements of the text and of the closing braces, no more and no fewer; each statement stands in the
text and in the code where its entry says. What the table says of an index is what its last entry at or
before it says, so later indices are not earlier in the text, nor on earlier lines. -/
structure WellMarked (p : Program) (source : Source) (mode : Mode) : Prop where
  ascend : (p.marks.toList.map Mark.pc).Pairwise (· < ·)
  within : ∀ m ∈ p.marks, m.pc < p.code.size
  head : ∀ m ∈ p.marks.toList.head?, m.pc = 0
  offsets : (p.marks.toList.map Mark.offset).Pairwise (· ≤ ·)
  entries : ∃ body, Tree.ofSource source = .ok body ∧
    p.marks.toList.Perm (mode.front ++ (mode.sites body).flatMap Site.entries) ∧
    ∀ site ∈ mode.sites body, site.stmt.InText source.text ∧ p.Holds mode.globalSelf site
  last : ∀ pc, (∀ m ∈ p.marks, pc < m.pc) ∧ p.offsetAt pc = 0 ∨
    ∃ m ∈ p.marks, m.pc ≤ pc ∧ (∀ m' ∈ p.marks, m'.pc ≤ pc → m'.pc ≤ m.pc) ∧
      p.offsetAt pc = m.offset
  mono : ∀ pc pc', pc ≤ pc' → p.offsetAt pc ≤ p.offsetAt pc' ∧ p.lineAt pc ≤ p.lineAt pc'

theorem head_ofTree (source : Source) (mode : Mode) (body : List Stmt) :
    ∀ m ∈ (ofTree source mode body).marks.toList.head?, m.pc = 0 := by
  intro m hm
  rw [ofTree_marks] at hm
  unfold Mode.front Mode.opening at hm
  split at hm
  · cases hm
    rfl
  · exact head_marks _ 0 #[] body m hm

/-- The statements of a text stand in it and in its program. -/
theorem sites_ofTree {source : Source} {body : List Stmt} (mode : Mode)
    (h : Tree.ofSource source = .ok body) :
    ∀ site ∈ mode.sites body, site.stmt.InText source.text ∧
      (ofTree source mode body).Holds mode.globalSelf site := by
  intro site hsite
  obtain ⟨ts, hts, hread⟩ := Tree.ofSource_readFrom h
  obtain ⟨us, hus, hstmt⟩ := bodySites_readFrom mode.globalSelf body _ _ hread site hsite
  obtain ⟨front, back, hlen, hcode⟩ := ofTree_split source mode body
  have hstands := bodySites_stands mode.globalSelf mode.opening #[] body (Nat.le_refl _) site hsite
  exact ⟨hstmt.inText hts hus, holds_of_stands hcode hlen hstands⟩

theorem source_ofSource {source : Source} {mode : Mode} (h : ofSource source mode = .ok p) :
    p.source = source := by
  obtain ⟨body, -, rfl⟩ := ofSource_eq_ok.1 h
  unfold ofTree
  split <;> rfl

/-- The entries of a statement that stands in a text are at bytes of the text. -/
theorem offset_lt_of_mem_entries {text : String} {site : Site} (h : site.stmt.InText text) :
    ∀ m ∈ site.entries, m.offset < Text.bytes text.toList := by
  have hbefore {before after : List Char} {c : Char} (hsplit : text.toList = before ++ c :: after) :
      Text.bytes before < Text.bytes text.toList := by
    have := c.utf8Size_pos
    rw [hsplit, Text.bytes_append, Text.bytes_cons]
    omega
  have hfirst : site.stmt.span.start < Text.bytes text.toList := by
    obtain ⟨tokens, t, ts, -, -, -, ⟨before, c, cs, rest, hsplit, hstart, -⟩, hspan⟩ := h.first
    rw [hspan, ← hstart]
    exact hbefore hsplit
  intro m hm
  unfold Site.entries at hm
  split at hm
  · cases hm
  · rename_i span body hblock
    obtain ⟨before, after, hsplit, hstop⟩ := h.brace span body hblock
    rcases List.mem_cons.1 hm with rfl | hm
    · rwa [hblock] at hfirst
    · rw [List.mem_singleton.1 hm, ← hstop]
      exact hbefore hsplit
  · rw [List.mem_singleton.1 hm]
    exact hfirst

/-- **Every instruction of a program comes from a byte of the text**, if the text has any. -/
theorem offsetAt_lt {source : Source} {mode : Mode} (h : ofSource source mode = .ok p)
    (hne : source.text ≠ "") (pc : Nat) : p.offsetAt pc < Text.bytes source.text.toList := by
  have hpos : 0 < Text.bytes source.text.toList := by
    obtain ⟨c, cs, hcs⟩ := List.exists_cons_of_ne_nil (mt String.toList_eq_nil_iff.1 hne)
    have := c.utf8Size_pos
    rw [hcs, Text.bytes_cons]
    omega
  rcases offsetAt_cases (marked_ofSource h) pc with ⟨-, hzero⟩ | ⟨m, hm, -, -, hoffset⟩
  · rwa [hzero]
  · rw [hoffset]
    obtain ⟨body, hbody, rfl⟩ := ofSource_eq_ok.1 h
    have hmem : m ∈ mode.front ++ (mode.sites body).flatMap Site.entries := by
      rw [← Array.mem_toList_iff, ofTree_marks] at hm
      exact ((marks_perm mode.globalSelf mode.opening #[] body).append_left _).mem_iff.1 hm
    rcases List.mem_append.1 hmem with hmem | hmem
    · -- the scope of a fragment begins where the text does
      unfold Mode.front at hmem
      split at hmem
      · rwa [List.mem_singleton.1 hmem]
      · cases hmem
    · obtain ⟨site, hsite, hmem⟩ := List.mem_flatMap.1 hmem
      exact offset_lt_of_mem_entries (sites_ofTree mode hbody site hsite).1 m hmem

end Program

/-- **The table of marks is well formed and monotone**, for every text that compiles, be it a script or
a fragment. -/
theorem compiled_table_well_formed {source : Source} {mode : Mode} {p : Program}
    (h : Program.ofSource source mode = .ok p) : p.WellMarked source mode := by
  have hm : p.Marked := Program.marked_ofSource h
  obtain ⟨body, hbody, rfl⟩ := Program.ofSource_eq_ok.1 h
  exact
    { ascend := hm.within.ascend
      within := fun m hmem => by
        have := (hm.within.bounds m (Array.mem_toList_iff.2 hmem)).2
        omega
      head := Program.head_ofTree source mode body
      offsets := hm.offsets
      entries := by
        refine ⟨body, hbody, ?_, Program.sites_ofTree mode hbody⟩
        rw [Program.ofTree_marks]
        exact (marks_perm mode.globalSelf mode.opening #[] body).append_left _
      last := Program.offsetAt_cases hm
      mono := fun _ _ hle => ⟨Program.offsetAt_mono hm hle, Program.lineAt_mono hm hle⟩ }

set_option maxRecDepth 100000 in
/-- A block with an empty statement in it, which has no entry. -/
theorem nested_block_table :
    let source := Source.ofText "s" "let a;\n\x7b ;\n  a \x7d\n"
    ∃ p, Program.ofSource source .script = .ok p ∧
      p.marks = #[⟨0, 0⟩, ⟨2, 7⟩, ⟨3, 13⟩, ⟨5, 15⟩] ∧ p.WellMarked source .script := by
  intro source
  obtain ⟨p, hp, hmarks⟩ : ∃ p, Program.ofSource source .script = .ok p ∧
      p.marks = #[⟨0, 0⟩, ⟨2, 7⟩, ⟨3, 13⟩, ⟨5, 15⟩] := ⟨_, by cbv, by cbv⟩
  exact ⟨p, hp, hmarks, compiled_table_well_formed hp⟩

end ScriptDebug
