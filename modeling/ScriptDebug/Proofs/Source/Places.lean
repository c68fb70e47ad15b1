/-
# Offsets, places and lines

The place of an offset is found by a search among the offsets at which lines
start; the lines themselves are split off the characters of the text, by another
rule for the end of the text. Here both are compared with the bytes of the text.

A byte is a line feed exactly where the character is one (`Text.mem_encoding_iff`),
so the number of lines that have started by an offset is one more than the number
of line feeds before it (`Source.line_eq`), and the search ends at the byte behind
the last of them (`Source.lineOpens_startOf`). From this follows that places are as
many as offsets and in the same order, and that the line of a byte of the text is
one of the lines of the source, at the index that its place tells
(`places_match_offsets`).

Key definitions: `Text.encoding`, `Text.LineOpens`, `Text.IsLine`, `Text.shown`,
`Source.Indexed`.
Key theorems: `Source.line_eq`, `Source.lineOpens_startOf`, `Text.exists_line`,
`places_match_offsets`.
-/
import Mathlib.Data.List.TakeWhile
import Mathlib.Data.Prod.Lex
import ScriptDebug.Proofs.Program.Lines
import ScriptDebug.Proofs.Text.Runs

namespace ScriptDebug

/-! ### Bytes -/

namespace Text

/-- The bytes of a text in UTF-8. -/
def encoding (s : List Char) : List UInt8 := s.flatMap String.utf8EncodeChar

/-- The byte of a line feed. -/
def feed : UInt8 := 10

theorem encoding_cons (c : Char) (s : List Char) :
    encoding (c :: s) = String.utf8EncodeChar c ++ encoding s := rfl

theorem encoding_append (s s' : List Char) : encoding (s ++ s') = encoding s ++ encoding s' :=
  List.flatMap_append

theorem encoding_feed : String.utf8EncodeChar '\n' = [feed] := rfl

theorem length_encoding (s : List Char) : (encoding s).length = bytes s := by
  induction s with
  | nil => rfl
  | cons c s ih => rw [encoding_cons, List.length_append, String.length_utf8EncodeChar, bytes_cons, ih]

/-- Only a line feed has the byte of a line feed: in the encoding of other characters all bytes are
large, or there is one, which tells the character. -/
theorem eq_of_feed_mem {c : Char} (h : feed ∈ String.utf8EncodeChar c) : c = '\n' := by
  have hlarge {n : Nat} (hn : 128 ≤ n) (hlt : n < 256) : feed ≠ UInt8.ofNat n := by
    intro heq
    have := congrArg UInt8.toNat heq
    rw [UInt8.toNat_ofNat_of_lt' hlt] at this
    have hten : feed.toNat = 10 := rfl
    omega
  unfold String.utf8EncodeChar at h
  dsimp only at h
  split at h
  · have heq := congrArg UInt8.toNat (List.mem_singleton.1 h)
    rw [UInt8.toNat_ofNat_of_lt' (Nat.lt_of_le_of_lt ‹_› (by decide))] at heq
    exact Char.ext (UInt32.toNat_inj.1 heq.symm)
  · exfalso
    split at h
    · rcases List.mem_cons.1 h with h | h
      · exact hlarge (by omega) (by omega) h
      · exact hlarge (by omega) (by omega) (List.mem_singleton.1 h)
    · split at h
      all_goals
        simp only [List.mem_cons, List.not_mem_nil, or_false] at h
      · rcases h with h | h | h <;> exact hlarge (by omega) (by omega) h
      · rcases h with h | h | h | h <;> exact hlarge (by omega) (by omega) h

/-- **Line feeds among the bytes are line feeds among the characters.** -/
theorem mem_encoding_iff {s : List Char} : feed ∈ encoding s ↔ '\n' ∈ s := by
  rw [encoding, List.mem_flatMap]
  constructor
  · rintro ⟨c, hc, hfeed⟩
    exact eq_of_feed_mem hfeed ▸ hc
  · intro h
    exact ⟨'\n', h, List.mem_singleton_self feed⟩

theorem count_encoding (s : List Char) : (encoding s).count feed = s.count '\n' := by
  induction s with
  | nil => rfl
  | cons c s ih =>
    rw [encoding_cons, List.count_append, ih]
    by_cases hc : c = '\n'
    · rw [hc, encoding_feed, List.count_singleton_self, List.count_cons_self, Nat.add_comm]
    · rw [List.count_eq_zero_of_not_mem (mt eq_of_feed_mem hc), List.count_cons_of_ne hc,
        Nat.zero_add]

/-! ### The line of an offset -/

/-- The line of the offset `o` begins at `start`: that is the first byte or the one behind a line
feed, and none is from there up to the offset. -/
structure LineOpens (bytes : List UInt8) (start o : Nat) : Prop where
  le : start ≤ o
  opens : start = 0 ∨ 0 < start ∧ bytes[start - 1]? = some feed
  within : ∀ i, start ≤ i → i < o → bytes[i]? ≠ some feed

theorem LineOpens.unique {bytes : List UInt8} {a b o : Nat} (ha : LineOpens bytes a o)
    (hb : LineOpens bytes b o) : a = b := by
  have hnot {a b : Nat} (ha : LineOpens bytes a o) (hb : LineOpens bytes b o) : ¬ a < b := by
    intro hlt
    rcases hb.opens with rfl | ⟨-, hfeed⟩
    · exact Nat.not_lt_zero a hlt
    · have hle := hb.le
      exact ha.within (b - 1) (by omega) (by omega) hfeed
  exact Nat.le_antisymm (Nat.le_of_not_lt (hnot hb ha)) (Nat.le_of_not_lt (hnot ha hb))

theorem count_take_succ (bytes : List UInt8) (i : Nat) : (bytes.take (i + 1)).count feed =
    (bytes.take i).count feed + if bytes[i]? = some feed then 1 else 0 := by
  rw [List.take_add_one, List.count_append]
  congr 1
  cases bytes[i]? with
  | none => rfl
  | some b => simp [List.count_singleton]

theorem count_take_mono (bytes : List UInt8) {i j : Nat} (h : i ≤ j) :
    (bytes.take i).count feed ≤ (bytes.take j).count feed :=
  (List.take_sublist_take_left h).count_le feed

/-- Where no line feed is counted there is none. -/
theorem getElem?_ne_of_count_take {bytes : List UInt8} {a b i : Nat}
    (h : (bytes.take a).count feed = (bytes.take b).count feed) (ha : a ≤ i) (hb : i < b) :
    bytes[i]? ≠ some feed := by
  intro hfeed
  have hsucc := count_take_succ bytes i
  rw [if_pos hfeed] at hsucc
  have hlow := count_take_mono bytes ha
  have hhigh := count_take_mono bytes (show i + 1 ≤ b from hb)
  omega

end Text

/-! ### The search -/

/-- The search counts the keys up to its argument. -/
theorem Search.count_eq_countP {xs : Array Nat}
    (mono : ∀ i j, i ≤ j → j < xs.size → xs.getD i 0 ≤ xs.getD j 0) (x : Nat) :
    Search.count (fun i => xs.getD i 0) x xs.size = xs.toList.countP (· ≤ x) := by
  have hle : Search.count (fun i => xs.getD i 0) x xs.size ≤ xs.toList.length := Search.count_le x
  have hcounted (i : Nat) (hi : i < xs.toList.length) :
      i < Search.count (fun i => xs.getD i 0) x xs.size ↔ xs.toList[i] ≤ x := by
    have hi' : i < xs.size := hi
    rw [Search.lt_count_iff mono hi', Array.getD, dif_pos hi']
    rfl
  generalize Search.count (fun i => xs.getD i 0) x xs.size = k at hle hcounted
  have hfirst : (xs.toList.take k).countP (· ≤ x) = (xs.toList.take k).length := by
    refine List.countP_eq_length.2 fun y hy => ?_
    obtain ⟨i, hi, rfl⟩ := List.mem_take_iff_getElem.1 hy
    exact decide_eq_true ((hcounted i (by omega)).1 (by omega))
  have hrest : (xs.toList.drop k).countP (· ≤ x) = 0 := by
    refine List.countP_eq_zero.2 fun y hy hle => ?_
    obtain ⟨i, hi, rfl⟩ := List.mem_drop_iff_getElem.1 hy
    have := (hcounted (k + i) (by omega)).2 (of_decide_eq_true hle)
    omega
  rw [← List.take_append_drop k xs.toList, List.countP_append, hfirst, hrest,
    List.length_take_of_le hle, Nat.add_zero]

/-- The lines that have started by an offset: those that had before the text, and one for each line
feed before the offset. -/
theorem countP_lineStarts (starts : Array Nat) (o : Nat) (cs : List Char) (x : Nat) :
    (lineStarts starts o cs).toList.countP (· ≤ x) =
      starts.toList.countP (· ≤ x) + ((Text.encoding cs).take (x - o)).count Text.feed := by
  induction cs generalizing starts o with
  | nil => simp [lineStarts, Text.encoding]
  | cons c cs ih =>
    rw [lineStarts, ih, Text.encoding_cons, List.take_append, String.length_utf8EncodeChar,
      List.count_append, Nat.sub_sub]
    by_cases hc : c = '\n'
    · -- the line behind the line feed has started if the line feed is before the offset
      have hfeed : ([Text.feed].take (x - o)).count Text.feed = if o + 1 ≤ x then 1 else 0 := by
        by_cases hle : o + 1 ≤ x
        · obtain ⟨k, hk⟩ : ∃ k, x - o = k + 1 := ⟨x - o - 1, by omega⟩
          rw [hk, if_pos hle, List.take_succ_cons, List.take_nil, List.count_singleton_self]
        · rw [Nat.sub_eq_zero_of_le (by omega), if_neg hle]
          rfl
      have hsize : '\n'.utf8Size = 1 := rfl
      rw [hc, if_pos rfl, Array.toList_push, List.countP_append, Text.encoding_feed, hfeed, hsize,
        Nat.add_assoc, List.countP_singleton]
      simp only [decide_eq_true_eq]
    · have hnone : Text.feed ∉ (String.utf8EncodeChar c).take (x - o) :=
        fun h => hc (Text.eq_of_feed_mem (List.mem_of_mem_take h))
      rw [if_neg hc, List.count_eq_zero_of_not_mem hnone, Nat.zero_add]

namespace Source

variable (s : Source)

/-- The bytes of the text. -/
def bytes : List UInt8 := s.text.toByteArray.data.toList

theorem bytes_eq : s.bytes = Text.encoding s.text.toList := by
  rw [bytes, ← String.utf8Encode_toList, List.utf8Encode, List.data_toByteArray]
  rfl

/-- **The line of an offset is told by the line feeds before it.** -/
theorem line_eq (o : Nat) : (s.lineCol o).line = 1 + (s.bytes.take o).count Text.feed := by
  have hcount : (s.lineCol o).line = s.starts.toList.countP (· ≤ o) :=
    Search.count_eq_countP (fun _ _ hij hj => s.starts_mono hij hj) o
  rw [hcount, s.starts_eq, countP_lineStarts, bytes_eq, Nat.sub_zero]
  rfl

/-- Where the line of an offset starts. -/
def startOf (o : Nat) : Nat := s.starts.getD ((s.lineCol o).line - 1) 0

theorem column_eq (o : Nat) : (s.lineCol o).column = o - s.startOf o + 1 := rfl

/-- The start of a line is found by the offsets from there on. -/
theorem le_line_iff {o o' : Nat} :
    (s.lineCol o).line ≤ (s.lineCol o').line ↔ s.startOf o ≤ o' := by
  have hsize : (s.lineCol o).line - 1 < s.starts.size := by
    have hle : (s.lineCol o).line ≤ s.starts.size := Search.count_le o
    have hpos := s.line_pos o
    omega
  have hiff : (s.lineCol o).line - 1 < (s.lineCol o').line ↔ s.startOf o ≤ o' :=
    Search.lt_count_iff (fun _ _ hij hj => s.starts_mono hij hj) hsize
  have hpos := s.line_pos o
  rw [← hiff]
  omega

theorem startOf_le (o : Nat) : s.startOf o ≤ o := (s.le_line_iff).1 (Nat.le_refl _)

/-- **The line of an offset starts behind the last line feed before it.** -/
theorem lineOpens_startOf (o : Nat) : Text.LineOpens s.bytes (s.startOf o) o := by
  have hle := s.startOf_le o
  have hline : (s.lineCol (s.startOf o)).line = (s.lineCol o).line :=
    Nat.le_antisymm (s.line_mono hle) ((s.le_line_iff).2 (Nat.le_refl _))
  rw [line_eq, line_eq] at hline
  refine ⟨hle, ?_, fun i hi => Text.getElem?_ne_of_count_take (by omega) hi⟩
  rcases Nat.eq_zero_or_pos (s.startOf o) with hzero | hpos
  · exact Or.inl hzero
  · refine Or.inr ⟨hpos, ?_⟩
    -- the byte before the start is on an earlier line, so it ends that line
    have hbefore : ¬ (s.lineCol o).line ≤ (s.lineCol (s.startOf o - 1)).line := by
      rw [le_line_iff]
      omega
    have hsucc := Text.count_take_succ s.bytes (s.startOf o - 1)
    rw [line_eq, line_eq] at hbefore
    rw [Nat.sub_add_cancel hpos] at hsucc
    by_contra hfeed
    rw [if_neg hfeed] at hsucc
    omega

/-- An offset that is further on is on a later line, or on the same line in a later column. -/
theorem lineCol_lt {o o' : Nat} (h : o < o') :
    (s.lineCol o).line < (s.lineCol o').line ∨
      (s.lineCol o).line = (s.lineCol o').line ∧ (s.lineCol o).column < (s.lineCol o').column := by
  rcases Nat.lt_or_eq_of_le (s.line_mono (Nat.le_of_lt h)) with hlt | heq
  · exact Or.inl hlt
  · have hstart : s.startOf o' = s.startOf o := by rw [startOf, startOf, heq]
    have hle := s.startOf_le o
    rw [column_eq, column_eq, hstart]
    exact Or.inr ⟨heq, by omega⟩

/-- **Places are in the order of their offsets**, by lines and then by columns. -/
theorem strictMono_lineCol :
    StrictMono fun o => toLex ((s.lineCol o).line, (s.lineCol o).column) :=
  fun _ _ h => Prod.Lex.toLex_lt_toLex.2 (s.lineCol_lt h)

/-- Behind the end of the text the last line goes on. -/
theorem lineCol_beyond (k : Nat) :
    s.lineCol (s.bytes.length + k) =
      ⟨(s.lineCol s.bytes.length).line, (s.lineCol s.bytes.length).column + k⟩ := by
  have hline : (s.lineCol (s.bytes.length + k)).line = (s.lineCol s.bytes.length).line := by
    rw [line_eq, line_eq, List.take_of_length_le (Nat.le_add_right _ k), List.take_length]
  have hcolumn : (s.lineCol (s.bytes.length + k)).column = (s.lineCol s.bytes.length).column + k := by
    have hle := s.startOf_le s.bytes.length
    rw [column_eq, column_eq, startOf, hline]
    show s.bytes.length + k - s.startOf s.bytes.length + 1 = _
    omega
  rw [← hline, ← hcolumn]

end Source

/-! ### The lines of a text -/

namespace Text

/-- `line` is a line of a text, with what is before it and what is behind it. It begins the text or
stands behind a line feed, and it goes up to the next one or to the end. -/
structure IsLine (text before line rest : List Char) : Prop where
  split : text = before ++ line ++ rest
  opens : before = [] ∨ before.getLast? = some '\n'
  whole : '\n' ∉ line
  closes : rest = [] ∨ rest.head? = some '\n'

/-- What is shown of a line with `rest` behind it: a carriage return before a line feed belongs to the
end of the line. -/
def shown (line rest : List Char) : List Char :=
  if rest ≠ [] ∧ line.getLast? = some '\r' then line.dropLast else line

theorem closeLine_reverse (line : List Char) :
    closeLine line.reverse =
      String.ofList (if line.getLast? = some '\r' then line.dropLast else line) := by
  rcases List.eq_nil_or_concat line with rfl | ⟨line, c, rfl⟩
  · rfl
  · rw [List.concat_eq_append, List.reverse_append, List.getLast?_concat, List.dropLast_concat]
    by_cases hc : c = '\r'
    · rw [hc, if_pos rfl]
      simp [closeLine]
    · rw [if_neg fun h => hc (Option.some.inj h)]
      unfold closeLine
      split
      · rename_i heq
        exact absurd (List.cons_eq_cons.1 heq).1 hc
      · rw [← List.reverse_append, List.reverse_reverse]

theorem splitLines_feed (done : Array String) (held cs : List Char) :
    splitLines done held ('\n' :: cs) = splitLines (done.push (closeLine held)) [] cs := rfl

theorem splitLines_other {c : Char} (hc : c ≠ '\n') (done : Array String) (held cs : List Char) :
    splitLines done held (c :: cs) = splitLines done (c :: held) cs := by
  rw [splitLines]
  exact hc

/-- The lines before stay in front. -/
theorem splitLines_append (done : Array String) (held cs : List Char) :
    splitLines done held cs = done ++ splitLines #[] held cs := by
  induction cs generalizing done held with
  | nil =>
    rw [splitLines, splitLines]
    split
    · rw [Array.append_empty]
    · rw [Array.append_push, Array.append_empty]
  | cons c cs ih =>
    by_cases hc : c = '\n'
    · rw [hc, splitLines_feed, splitLines_feed, ih, ih (#[].push _), Array.push_eq_append,
        Array.append_assoc]
      rfl
    · rw [splitLines_other hc, splitLines_other hc]
      exact ih done (c :: held)

/-- Characters that end no line are held. -/
theorem splitLines_run {line : List Char} (h : '\n' ∉ line) (done : Array String)
    (held rest : List Char) :
    splitLines done held (line ++ rest) = splitLines done (line.reverse ++ held) rest := by
  induction line generalizing held with
  | nil => rfl
  | cons c line ih =>
    have hc : c ≠ '\n' := (List.ne_of_not_mem_cons h).symm
    rw [List.cons_append, splitLines_other hc, ih (List.not_mem_of_not_mem_cons h),
      List.reverse_cons, List.append_assoc]
    rfl

/-- No line has a line feed in it. -/
theorem feed_not_mem_splitLines {done : Array String} {held cs : List Char}
    (hdone : ∀ t ∈ done, '\n' ∉ t.toList) (hheld : '\n' ∉ held) :
    ∀ t ∈ splitLines done held cs, '\n' ∉ t.toList := by
  induction cs generalizing done held with
  | nil =>
    rw [splitLines]
    split
    · exact hdone
    · intro t ht
      rcases Array.mem_push.1 ht with ht | rfl
      · exact hdone t ht
      · rwa [String.toList_ofList, List.mem_reverse]
  | cons c cs ih =>
    by_cases hc : c = '\n'
    · rw [hc, splitLines_feed]
      refine ih (fun t ht => ?_) List.not_mem_nil
      rcases Array.mem_push.1 ht with ht | rfl
      · exact hdone t ht
      · rw [← List.reverse_reverse held, closeLine_reverse, String.toList_ofList]
        split
        · exact fun h => hheld (List.mem_reverse.1 (List.mem_of_mem_dropLast h))
        · rwa [List.mem_reverse]
    · rw [splitLines_other hc]
      exact ih hdone (List.not_mem_cons_of_ne_of_not_mem (Ne.symm hc) hheld)

theorem feed_not_mem_lines {cs : List Char} : ∀ t ∈ lines cs, '\n' ∉ t.toList :=
  feed_not_mem_splitLines (by simp) List.not_mem_nil

theorem lines_feed {line : List Char} (h : '\n' ∉ line) (rest : List Char) :
    lines (line ++ '\n' :: rest) =
      #[String.ofList (shown line ('\n' :: rest))] ++ lines rest := by
  rw [lines, splitLines_run h, splitLines_feed, splitLines_append, List.append_nil,
    closeLine_reverse, shown]
  simp only [ne_eq, List.cons_ne_nil, not_false_eq_true, true_and]
  rfl

theorem lines_last {line : List Char} (h : '\n' ∉ line) (hne : line ≠ []) :
    lines line = #[String.ofList (shown line [])] := by
  have hrun := splitLines_run h #[] [] []
  rw [List.append_nil, List.append_nil] at hrun
  rw [lines, hrun, splitLines, if_neg (by simpa using hne), List.reverse_reverse, shown,
    if_neg fun hnil => hnil.1 rfl]
  rfl

/-- What is behind a line feed follows a whole line. -/
theorem IsLine.behind {first before line rest cs : List Char} (h : IsLine cs before line rest) :
    IsLine (first ++ '\n' :: cs) (first ++ '\n' :: before) line rest := by
  refine ⟨by rw [h.split]; simp, Or.inr ?_, h.whole, h.closes⟩
  rcases h.opens with rfl | hlast
  · exact List.getLast?_concat
  · rw [List.getLast?_append, List.getLast?_cons, hlast]
    rfl

/-- **Every byte of a text is in one of its lines or ends it**, and that line is shown at the index
that the line feeds before it tell. -/
theorem exists_line {cs : List Char} {o : Nat} (ho : o < bytes cs) :
    ∃ before line rest, IsLine cs before line rest ∧ bytes before ≤ o ∧
      o ≤ bytes before + bytes line ∧
      (lines cs)[before.count '\n']? = some (String.ofList (shown line rest)) := by
  induction hn : cs.length using Nat.strong_induction_on generalizing cs o with
  | _ n ih =>
    by_cases hfeed : '\n' ∈ cs
    · obtain ⟨first, tail, rfl, hfirst⟩ := List.eq_append_cons_of_mem hfeed
      have hbytes : bytes (first ++ '\n' :: tail) = bytes first + (1 + bytes tail) := by
        rw [bytes_append, bytes_cons]
        rfl
      rw [lines_feed hfirst]
      by_cases hin : o ≤ bytes first
      · refine ⟨[], first, '\n' :: tail, ⟨rfl, Or.inl rfl, hfirst, Or.inr rfl⟩, Nat.zero_le o,
          (Nat.zero_add _).symm ▸ hin, ?_⟩
        rw [List.count_nil, Array.getElem?_append_left (Nat.zero_lt_succ _)]
        rfl
      · -- the offset is behind the first line, where the others are split as by themselves
        have hlt : tail.length < n := by
          rw [← hn, List.length_append, List.length_cons]
          omega
        have htail : o - (bytes first + 1) < bytes tail := by omega
        obtain ⟨before, line, rest, hline, hle, hge, hshown⟩ := ih tail.length hlt htail rfl
        have hbefore : bytes (first ++ '\n' :: before) = bytes first + (1 + bytes before) := by
          rw [bytes_append, bytes_cons]
          rfl
        refine ⟨first ++ '\n' :: before, line, rest, hline.behind, by omega, by omega, ?_⟩
        rw [List.count_append, List.count_cons_self, List.count_eq_zero_of_not_mem hfirst,
          Nat.zero_add, Array.getElem?_append_right (Nat.succ_le_succ (Nat.zero_le _))]
        exact hshown
    · have hne : cs ≠ [] := by
        rintro rfl
        exact Nat.not_lt_zero o ho
      refine ⟨[], cs, [], ⟨(List.append_nil cs).symm, Or.inl rfl, hfeed, Or.inl rfl⟩,
        Nat.zero_le o, ?_, ?_⟩
      · rw [show bytes ([] : List Char) = 0 from rfl, Nat.zero_add]
        exact Nat.le_of_lt ho
      · rw [lines_last hfeed hne]
        rfl

/-- The line of an offset, in the bytes of the text. -/
theorem IsLine.lineOpens {cs before line rest : List Char} {o : Nat}
    (h : IsLine cs before line rest) (hle : bytes before ≤ o)
    (hge : o ≤ bytes before + bytes line) :
    LineOpens (encoding cs) (bytes before) o ∧
      ((encoding cs).take o).count feed = before.count '\n' := by
  have hsplit : encoding cs = encoding before ++ (encoding line ++ encoding rest) := by
    rw [h.split, encoding_append, encoding_append, List.append_assoc]
  have hnone (k : Nat) : feed ∉ (encoding line).take k := fun hfeed =>
    h.whole (mem_encoding_iff.1 (List.mem_of_mem_take hfeed))
  have hline : (encoding line).length = bytes line := length_encoding line
  have hbefore : (encoding before).length = bytes before := length_encoding before
  refine ⟨⟨hle, ?_, fun i hi hio hfeed => ?_⟩, ?_⟩
  · rcases List.eq_nil_or_concat before with rfl | ⟨init, c, rfl⟩
    · exact Or.inl rfl
    · have hc : c = '\n' := by
        rcases h.opens with hnil | hlast
        · simp at hnil
        · simpa using hlast
      have hbytes : bytes (init.concat c) = bytes init + 1 := by
        rw [List.concat_eq_append, bytes_append, hc]
        rfl
      have hinit : (encoding init).length = bytes init := length_encoding init
      rw [hsplit, hbytes, List.concat_eq_append, encoding_append, hc]
      refine Or.inr ⟨Nat.succ_pos _, ?_⟩
      rw [Nat.add_sub_cancel, List.append_assoc, List.getElem?_append_right (by omega), hinit,
        Nat.sub_self]
      rfl
  · rw [hsplit, List.getElem?_append_right (by omega), List.getElem?_append_left (by omega)] at hfeed
    exact h.whole (mem_encoding_iff.1 (List.mem_of_getElem? hfeed))
  · rw [hsplit, List.take_append, List.take_of_length_le (by omega), List.take_append_of_le_length
      (by omega), List.count_append, count_encoding, List.count_eq_zero_of_not_mem (hnone _),
      Nat.add_zero]

end Text

/-- The line of a byte of the text is among the lines of the source. -/
theorem Source.exists_line (s : Source) {o : Nat} (ho : o < s.bytes.length) :
    ∃ before line rest, Text.IsLine s.text.toList before line rest ∧
      Text.LineOpens s.bytes (Text.bytes before) o ∧
      s.lines[(s.lineCol o).line - 1]? = some (String.ofList (Text.shown line rest)) := by
  rw [s.bytes_eq, Text.length_encoding] at ho
  obtain ⟨before, line, rest, hline, hle, hge, hshown⟩ := Text.exists_line ho
  obtain ⟨hopens, hcount⟩ := hline.lineOpens hle hge
  refine ⟨before, line, rest, hline, s.bytes_eq ▸ hopens, ?_⟩
  rw [s.line_eq, s.bytes_eq, hcount, Nat.add_sub_cancel_left, s.lines_eq]
  exact hshown

/-- How the places of a source and its lines stand to the bytes of its text. The place of an offset is
told by the line feeds before it; behind the end of the text the last line goes on. Places are in the
order of their offsets, by lines and then by columns, and different for different offsets. The line of
a byte of the text is among the lines of the source: it is what stands from where the line starts up to
its line feed or the end, without a carriage return that belongs to its end. -/
structure Source.Indexed (s : Source) : Prop where
  place : ∀ o, ∃ start, Text.LineOpens s.bytes start o ∧
    s.lineCol o = ⟨1 + (s.bytes.take o).count Text.feed, 1 + (o - start)⟩
  beyond : ∀ k, s.lineCol (s.bytes.length + k) =
    ⟨(s.lineCol s.bytes.length).line, (s.lineCol s.bytes.length).column + k⟩
  ordered : StrictMono fun o => toLex ((s.lineCol o).line, (s.lineCol o).column)
  injective : Function.Injective s.lineCol
  lines : ∀ o < s.bytes.length, ∃ before line rest, Text.IsLine s.text.toList before line rest ∧
    Text.LineOpens s.bytes (Text.bytes before) o ∧
    s.lines[(s.lineCol o).line - 1]? = some (String.ofList (Text.shown line rest))

/-- **Offsets and places correspond exactly**, and the place of a byte leads to its line. -/
theorem places_match_offsets (s : Source) : s.Indexed where
  place o := by
    refine ⟨s.startOf o, s.lineOpens_startOf o, ?_⟩
    rw [← s.line_eq, Nat.add_comm 1 (o - _)]
    rfl
  beyond := s.lineCol_beyond
  ordered := s.strictMono_lineCol
  injective := Function.Injective.of_comp (f := fun p : Source.Place => toLex (p.line, p.column))
    s.strictMono_lineCol.injective
  lines o ho := s.exists_line ho

end ScriptDebug
