/-
# The registry of breakpoints

The registry is a set that remembers in which order its members came. After any
requests it holds, each once, the breakpoints that were set and have not been
cleared since, in the order of the last requests that set them with success
(`Breakpoints.holds_after`). What it answers can be told from that set alone, a
request that fails leaves it as it was, and to clear what was just set undoes the
setting (`Breakpoints.serves`).

A session starts with the breakpoints of the settings file and those of the
options behind them, without the later ones of those that are equal
(`registry_is_ordered_set`).

Key definitions: `Breakpoints.Request`, `Breakpoints.serve`, `Breakpoints.after`,
`Breakpoints.Holds`, `Breakpoints.Serves`.
Key theorems: `Breakpoints.holds_serve`, `Breakpoints.holds_after`, `Breakpoints.serves`,
`registry_is_ordered_set`.
-/
import ScriptDebug.Proofs.Debugger.FirstStop

namespace ScriptDebug
namespace Breakpoints

/-- What can be asked of a registry. -/
inductive Request where
  | set (b : Breakpoint)
  | clear (b : Breakpoint)
  | contains (b : Breakpoint)
  | list
  deriving DecidableEq, Repr

inductive Answer where
  | done
  | known (yes : Bool)
  | points (bs : List Breakpoint)
  deriving DecidableEq, Repr

/-- What a change leaves of the registry, and whether it was made. -/
def change (r : Breakpoints) : Except DebugError Breakpoints → Breakpoints × Except DebugError Answer
  | .ok changed => (changed, .ok .done)
  | .error e => (r, .error e)

/-- The registry after a request, and the answer. -/
def serve (r : Breakpoints) : Request → Breakpoints × Except DebugError Answer
  | .set b => r.change (r.set b)
  | .clear b => r.change (r.clear b)
  | .contains b => (r, .ok (.known (r.contains b)))
  | .list => (r, r.list.map .points)

theorem serve_set (r : Breakpoints) (b : Breakpoint) : r.serve (.set b) = r.change (r.set b) := rfl

theorem serve_clear (r : Breakpoints) (b : Breakpoint) :
    r.serve (.clear b) = r.change (r.clear b) := rfl

/-- The registry after requests, which was empty before them. -/
def after (requests : List Request) : Breakpoints :=
  requests.foldl (fun r q => (r.serve q).1) .empty

theorem after_concat (requests : List Request) (q : Request) :
    after (requests ++ [q]) = ((after requests).serve q).1 := by
  rw [after, List.foldl_append]
  rfl

/-! ### One request -/

theorem contains_iff {r : Breakpoints} {b : Breakpoint} : r.contains b = true ↔ b ∈ r.points :=
  List.contains_iff_mem

theorem set_eq (r : Breakpoints) (b : Breakpoint) :
    r.set b = if b ∈ r.points then .error .duplicate else .ok ⟨r.points ++ [b]⟩ := by
  unfold set set?
  by_cases hb : b ∈ r.points
  · rw [if_pos (contains_iff.2 hb), if_pos hb]
  · rw [if_neg (mt contains_iff.1 hb), if_neg hb]

theorem clear_eq (r : Breakpoints) (b : Breakpoint) :
    r.clear b = if b ∈ r.points then .ok ⟨r.points.erase b⟩
      else .error (.notFound (if r.points = [] then .noneToClear else .notSet b)) := by
  unfold clear clear?
  by_cases hb : b ∈ r.points
  · rw [if_neg (by simpa using List.ne_nil_of_mem hb), if_pos (contains_iff.2 hb), if_pos hb]
  · rw [if_neg (mt contains_iff.1 hb), if_neg hb]
    by_cases hnil : r.points = []
    · simp [hnil]
    · simp [hnil]

/-- A registry changes only where a breakpoint is set that it has not, or one is cleared that it
has. -/
theorem points_serve (r : Breakpoints) (q : Request) :
    (r.serve q).1.points = match q with
      | .set b => if b ∈ r.points then r.points else r.points ++ [b]
      | .clear b => r.points.erase b
      | .contains _ | .list => r.points := by
  cases q with
  | set b =>
    dsimp only
    rw [serve_set, set_eq]
    split <;> rfl
  | clear b =>
    dsimp only
    rw [serve_clear, clear_eq]
    by_cases hb : b ∈ r.points
    · rw [if_pos hb]
      rfl
    · rw [if_neg hb, List.erase_of_not_mem hb]
      rfl
  | contains b => rfl
  | list => rfl

/-- A registry answers from the set of its members. A request that fails leaves it as it was, and
clearing undoes a setting that was made. -/
structure Serves (r : Breakpoints) : Prop where
  contains : ∀ b, (r.serve (.contains b)).2 = .ok (.known (decide (b ∈ r.points)))
  set : ∀ b, (r.serve (.set b)).2 = if b ∈ r.points then .error .duplicate else .ok .done
  clear : ∀ b, (r.serve (.clear b)).2 = if b ∈ r.points then .ok .done
    else .error (.notFound (if r.points = [] then .noneToClear else .notSet b))
  list : (r.serve .list).2 = if r.points = [] then .error (.notFound .noneToList)
    else .ok (.points r.points)
  unchanged : ∀ q e, (r.serve q).2 = .error e → (r.serve q).1 = r
  undone : ∀ b, (r.serve (.set b)).2 = .ok .done →
    (r.serve (.set b)).1.serve (.clear b) = (r, .ok .done)

theorem snd_change (r : Breakpoints) (changed : Except DebugError Breakpoints) :
    (r.change changed).2 = changed.map fun _ => .done := by
  cases changed <;> rfl

theorem serves (r : Breakpoints) : r.Serves where
  contains b := by
    show Except.ok (Answer.known (r.points.contains b)) = _
    rw [List.contains_eq_mem]
  set b := by
    rw [serve_set, snd_change, set_eq]
    split <;> rfl
  clear b := by
    rw [serve_clear, snd_change, clear_eq]
    split <;> rfl
  list := by
    show r.list.map Answer.points = _
    unfold list
    by_cases hnil : r.points = []
    · rw [if_pos hnil, if_pos (by simp [hnil])]
      rfl
    · rw [if_neg hnil, if_neg (by simpa using hnil)]
      rfl
  unchanged q e h := by
    have hkeeps (changed : Except DebugError Breakpoints) (h : (r.change changed).2 = .error e) :
        (r.change changed).1 = r := by
      cases changed with
      | ok => cases h
      | error => rfl
    cases q with
    | set b => exact hkeeps _ h
    | clear b => exact hkeeps _ h
    | contains b => rfl
    | list => rfl
  undone b h := by
    have hb : b ∉ r.points := by
      intro hb
      rw [serve_set, snd_change, set_eq, if_pos hb] at h
      cases h
    have hset : (r.serve (.set b)).1 = ⟨r.points ++ [b]⟩ := by
      rw [serve_set, set_eq, if_neg hb]
      rfl
    -- the registry did not have the breakpoint, so the first one found is the one that was added
    have herase : (r.points ++ [b]).erase b = r.points := by
      rw [List.erase_append_right _ hb, List.erase_cons_head, List.append_nil]
    rw [hset, serve_clear, clear_eq,
      if_pos (List.mem_append_right _ (List.mem_singleton_self b)), herase]
    rfl

/-! ### Any number of requests -/

/-- Request `i` set the breakpoint with success. -/
def SetAt (requests : List Request) (b : Breakpoint) (i : Nat) : Prop :=
  requests[i]? = some (.set b) ∧ ((after (requests.take i)).serve (.set b)).2 = .ok .done

/-- Request `i` is the last one that set the breakpoint with success. -/
def LastSetAt (requests : List Request) (b : Breakpoint) (i : Nat) : Prop :=
  IsGreatest {i | SetAt requests b i} i

/-- The breakpoint was set, and it has not been cleared since. -/
def SetSince (requests : List Request) (b : Breakpoint) : Prop :=
  ∃ i : Nat, requests[i]? = some (.set b) ∧ ∀ j : Nat, i < j → requests[j]? ≠ some (.clear b)

variable {requests : List Request} {q : Request} {b : Breakpoint} {i : Nat}

theorem lt_length_of_request (h : requests[i]? = some q) : i < requests.length :=
  (List.getElem?_eq_some_iff.1 h).1

theorem request_concat {q' : Request} : (requests ++ [q])[i]? = some q' ↔
    requests[i]? = some q' ∨ i = requests.length ∧ q = q' := by
  constructor
  · intro h
    have hlt := lt_length_of_request h
    rw [List.length_append, List.length_singleton] at hlt
    rcases Nat.lt_or_eq_of_le (Nat.le_of_lt_succ hlt) with hi | rfl
    · rw [List.getElem?_append_left hi] at h
      exact Or.inl h
    · rw [List.getElem?_concat_length] at h
      exact Or.inr ⟨rfl, Option.some.inj h⟩
  · rintro (h | ⟨rfl, rfl⟩)
    · rwa [List.getElem?_append_left (lt_length_of_request h)]
    · exact List.getElem?_concat_length

theorem setAt_concat : SetAt (requests ++ [q]) b i ↔ SetAt requests b i ∨
    i = requests.length ∧ q = .set b ∧ ((after requests).serve q).2 = .ok .done := by
  constructor
  · rintro ⟨hi, hdone⟩
    rcases request_concat.1 hi with hi | ⟨rfl, rfl⟩
    · rw [List.take_append_of_le_length (Nat.le_of_lt (lt_length_of_request hi))] at hdone
      exact Or.inl ⟨hi, hdone⟩
    · rw [List.take_left] at hdone
      exact Or.inr ⟨rfl, rfl, hdone⟩
  · rintro (⟨hi, hdone⟩ | ⟨rfl, rfl, hdone⟩)
    · refine ⟨request_concat.2 (Or.inl hi), ?_⟩
      rwa [List.take_append_of_le_length (Nat.le_of_lt (lt_length_of_request hi))]
    · refine ⟨request_concat.2 (Or.inr ⟨rfl, rfl⟩), ?_⟩
      rwa [List.take_left]

/-- A request that sets the breakpoint with success is the last one that does so. -/
theorem lastSetAt_concat_of_done (h : ((after requests).serve (.set b)).2 = .ok .done) :
    LastSetAt (requests ++ [.set b]) b i ↔ i = requests.length := by
  have hlast : LastSetAt (requests ++ [.set b]) b requests.length := by
    refine ⟨setAt_concat.2 (Or.inr ⟨rfl, rfl, h⟩), fun j hj => ?_⟩
    have := lt_length_of_request hj.1
    rw [List.length_append, List.length_singleton] at this
    omega
  exact ⟨fun hi => hi.unique hlast, fun hi => hi ▸ hlast⟩

/-- Any other request leaves the last one as it is. -/
theorem lastSetAt_concat_of_not (h : ¬ (q = .set b ∧ ((after requests).serve q).2 = .ok .done)) :
    LastSetAt (requests ++ [q]) b i ↔ LastSetAt requests b i := by
  have hsame : {i | SetAt (requests ++ [q]) b i} = {i | SetAt requests b i} := by
    ext i
    exact setAt_concat.trans (or_iff_left fun hi => h hi.2)
  rw [LastSetAt, hsame]
  rfl

theorem setSince_concat :
    SetSince (requests ++ [q]) b ↔ q = .set b ∨ SetSince requests b ∧ q ≠ .clear b := by
  constructor
  · rintro ⟨i, hi, hafter⟩
    rcases request_concat.1 hi with hi | ⟨rfl, rfl⟩
    · refine Or.inr ⟨⟨i, hi, fun j hij hj => ?_⟩, fun hq => ?_⟩
      · exact hafter j hij (request_concat.2 (Or.inl hj))
      · exact hafter _ (lt_length_of_request hi) (request_concat.2 (Or.inr ⟨rfl, hq⟩))
    · exact Or.inl rfl
  · rintro (rfl | ⟨⟨i, hi, hafter⟩, hq⟩)
    · refine ⟨requests.length, request_concat.2 (Or.inr ⟨rfl, rfl⟩), fun j hlt hj => ?_⟩
      rcases request_concat.1 hj with hj | ⟨rfl, -⟩
      · exact Nat.lt_asymm hlt (lt_length_of_request hj)
      · exact Nat.lt_irrefl _ hlt
    · refine ⟨i, request_concat.2 (Or.inl hi), fun j hij hj => ?_⟩
      rcases request_concat.1 hj with hj | ⟨-, rfl⟩
      · exact hafter j hij hj
      · exact hq rfl

/-- The registry holds, each once, the breakpoints that were set and have not been cleared since, in
the order of the last requests that set them with success. -/
structure Holds (r : Breakpoints) (requests : List Request) : Prop where
  nodup : r.points.Nodup
  members : ∀ b, b ∈ r.points ↔ SetSince requests b
  dated : ∀ b ∈ r.points, ∃ i, LastSetAt requests b i
  ordered : r.points.Pairwise fun b c =>
    ∀ i j, LastSetAt requests b i → LastSetAt requests c j → i < j

/-- A request that sets nothing with success keeps the order of what is left. -/
theorem Holds.of_sublist {r' : Breakpoints} (h : (after requests).Holds requests)
    (hsub : r'.points.Sublist (after requests).points)
    (hq : ∀ b, ¬ (q = .set b ∧ ((after requests).serve q).2 = .ok .done))
    (hmem : ∀ b, b ∈ r'.points ↔ SetSince (requests ++ [q]) b) : r'.Holds (requests ++ [q]) where
  nodup := h.nodup.sublist hsub
  members := hmem
  dated b hb := by
    obtain ⟨i, hi⟩ := h.dated b (hsub.subset hb)
    exact ⟨i, (lastSetAt_concat_of_not (hq b)).2 hi⟩
  ordered := (h.ordered.sublist hsub).imp fun {b c} hbc i j hi hj =>
    hbc i j ((lastSetAt_concat_of_not (hq b)).1 hi) ((lastSetAt_concat_of_not (hq c)).1 hj)

/-- A breakpoint that is set with success comes last. -/
theorem Holds.of_set (h : (after requests).Holds requests) (hb : b ∉ (after requests).points) :
    Holds ⟨(after requests).points ++ [b]⟩ (requests ++ [.set b]) := by
  have hdone : ((after requests).serve (.set b)).2 = .ok .done := by
    rw [(serves _).set, if_neg hb]
  have hother {c : Breakpoint} (hc : c ∈ (after requests).points) (i : Nat) :
      LastSetAt (requests ++ [.set b]) c i ↔ LastSetAt requests c i := by
    refine lastSetAt_concat_of_not fun hset => hb ?_
    obtain rfl := Request.set.inj hset.1
    exact hc
  refine ⟨?_, fun c => ?_, fun c hc => ?_, ?_⟩
  · rw [List.nodup_append_comm]
    exact List.nodup_cons.2 ⟨hb, h.nodup⟩
  · rw [setSince_concat, List.mem_append, List.mem_singleton, h.members, or_comm, Request.set.injEq,
      eq_comm (a := b), and_iff_left nofun]
  · rcases List.mem_append.1 hc with hc | hc
    · obtain ⟨i, hi⟩ := h.dated c hc
      exact ⟨i, (hother hc i).2 hi⟩
    · obtain rfl := List.mem_singleton.1 hc
      exact ⟨_, (lastSetAt_concat_of_done hdone).2 rfl⟩
  · refine List.pairwise_append.2 ⟨?_, List.pairwise_singleton _ _, fun c hc c' hc' i j hi hj => ?_⟩
    · refine h.ordered.imp_of_mem fun {c c'} hc hc' hlt i j hi hj => ?_
      exact hlt i j ((hother hc i).1 hi) ((hother hc' j).1 hj)
    · obtain rfl := List.mem_singleton.1 hc'
      obtain rfl := (lastSetAt_concat_of_done hdone).1 hj
      exact lt_length_of_request ((hother hc i).1 hi).1.1

/-- **A request keeps what the registry holds.** -/
theorem holds_serve (h : (after requests).Holds requests) (q : Request) :
    ((after requests).serve q).1.Holds (requests ++ [q]) := by
  have hpoints := (after requests).points_serve q
  cases q with
  | set b =>
    by_cases hb : b ∈ (after requests).points
    · dsimp only at hpoints
      rw [if_pos hb] at hpoints
      refine h.of_sublist (hpoints ▸ List.Sublist.refl _) (fun c hc => ?_) fun c => ?_
      · rw [(serves _).set, if_pos hb] at hc
        cases hc.2
      · rw [hpoints, setSince_concat, h.members, and_iff_left nofun]
        refine (or_iff_right_of_imp fun heq => ?_).symm
        obtain rfl := Request.set.inj heq
        exact (h.members b).1 hb
    · dsimp only at hpoints
      rw [if_neg hb] at hpoints
      have hset := h.of_set hb
      rwa [← hpoints] at hset
  | clear b =>
    dsimp only at hpoints
    refine h.of_sublist (hpoints ▸ List.erase_sublist) (fun c hc => ?_) fun c => ?_
    · cases hc.1
    · rw [hpoints, setSince_concat, h.nodup.mem_erase_iff, h.members, or_iff_right nofun, and_comm,
        ne_eq, ne_eq, Request.clear.injEq, eq_comm]
  | contains | list =>
    refine h.of_sublist (hpoints ▸ List.Sublist.refl _) (fun c hc => ?_) fun c => ?_
    · cases hc.1
    · rw [hpoints, setSince_concat, h.members, or_iff_right nofun, and_iff_left nofun]

/-- **What the registry holds after any requests.** -/
theorem holds_after (requests : List Request) : (after requests).Holds requests := by
  induction requests using List.reverseRecOn with
  | nil =>
    refine ⟨.nil, fun b => iff_of_false List.not_mem_nil ?_, nofun, .nil⟩
    rintro ⟨i, hi, -⟩
    cases hi
  | append_singleton requests q ih =>
    rw [after_concat]
    exact holds_serve ih q

end Breakpoints

/-! ### Sessions -/

/-- A debugger serves its registry, and reports what it answers. -/
structure Debugger.ServesRegistry (d : Debugger) : Prop where
  set : ∀ b, (d.setBreakpoint b).1.breakpoints = (d.breakpoints.serve (.set b)).1 ∧
    (d.setBreakpoint b).2 = (d.breakpoints.serve (.set b)).2.map fun _ => ()
  clear : ∀ b, (d.clearBreakpoint b).1.breakpoints = (d.breakpoints.serve (.clear b)).1 ∧
    (d.clearBreakpoint b).2 = (d.breakpoints.serve (.clear b)).2.map fun _ => ()

theorem Debugger.servesRegistry (d : Debugger) : d.ServesRegistry where
  set b := by
    rw [Breakpoints.serve_set]
    unfold setBreakpoint
    cases d.breakpoints.set b <;> exact ⟨rfl, rfl⟩
  clear b := by
    rw [Breakpoints.serve_clear]
    unfold clearBreakpoint
    cases d.breakpoints.clear b <;> exact ⟨rfl, rfl⟩

namespace CommandLine

variable {files : String → Option String} {showsColor : Bool} {args : List String} {d : Debugger}

theorem eq_ok_of_mapError {ε ε' α : Type} {f : ε → ε'} {x : Except ε α} {a : α}
    (h : x.mapError f = .ok a) : x = .ok a := by
  cases x with
  | error => cases h
  | ok => exact congrArg _ (Except.ok.inj h)

/-- A session that starts has been positioned from a prepared one. -/
theorem exists_position_of_start (h : start (m := Id) files showsColor args = Except.ok d) :
    ∃ o settings p, parse? args = some o ∧
      settingsFor (m := Id) files o = Except.ok settings ∧
      position settings (prepare settings showsColor p) = .ok d := by
  cases hargs : parse? args with
  | none =>
    rw [start, hargs] at h
    cases h
  | some o =>
    have hstart : start (m := Id) files showsColor args =
        Except.bind (settingsFor (m := Id) files o) fun settings =>
          (files o.script).elim (.error (.scriptUnreadable o.script))
            (open? settings showsColor o.script) := by
      rw [start, hargs]
      show Id.run (settingsFor (m := Id) files o >>= _) = _
      cases settingsFor (m := Id) files o with
      | error e => rfl
      | ok settings => cases files o.script <;> rfl
    rw [hstart] at h
    obtain ⟨settings, hsettings, h⟩ := Tree.bind_eq_ok.1 h
    cases htext : files o.script with
    | none =>
      rw [htext] at h
      cases h
    | some text =>
      rw [htext] at h
      obtain ⟨p, -, h⟩ := Tree.bind_eq_ok.1 h
      exact ⟨o, settings, p, rfl, hsettings, eq_ok_of_mapError h⟩

theorem breakpoints_position {settings : Settings} {d' : Debugger}
    (h : position settings d = .ok d') : d'.breakpoints = d.breakpoints := by
  unfold position at h
  split at h
  · cases h
    rfl
  · split at h
    · rename_i hrun
      cases h
      rw [← d.breakpoints_runToPause, hrun]
    · cases h

end CommandLine

/-- **The registry is a set that keeps the order of its members**, after any requests, also where the
debugger makes them. A session starts with the breakpoints of the settings file and those of the
options behind them, each where it comes first. -/
theorem registry_is_ordered_set :
    (∀ requests, (Breakpoints.after requests).Holds requests) ∧
    (∀ r : Breakpoints, r.Serves) ∧
    (∀ d : Debugger, d.ServesRegistry) ∧
    ∀ (files : String → Option String) (showsColor : Bool) (args : List String) (d : Debugger),
      CommandLine.start (m := Id) files showsColor args = Except.ok d →
      ∃ o base breaks, CommandLine.parse? args = some o ∧
        CommandLine.baseSettings files o = .ok base ∧
        CommandLine.readBreaks o.breaks = .ok breaks ∧
        d.breakpoints.points = (base.breakpoints ++ breaks).eraseDups := by
  refine ⟨Breakpoints.holds_after, Breakpoints.serves, Debugger.servesRegistry,
    fun files showsColor args d h => ?_⟩
  obtain ⟨o, settings, p, hargs, hsettings, hposition⟩ := CommandLine.exists_position_of_start h
  obtain ⟨base, breaks, hbase, hbreaks, hpoints, -⟩ :=
    CommandLine.configured_of_settingsFor hsettings
  refine ⟨o, base, breaks, hargs, hbase, hbreaks, ?_⟩
  rw [CommandLine.breakpoints_position hposition, CommandLine.points_prepare, hpoints]

set_option maxRecDepth 100000 in
/-- A breakpoint that an option repeats is passed over. -/
theorem repeated_breakpoint_dropped :
    let files := fun path => if path = "m.js" then some "this;\n" else none
    let args := ["m.js", "--break", "m.js:2", "--break", "m.js:1", "--break", "m.js:2"]
    ∃ d, CommandLine.start (m := Id) files false args = Except.ok d ∧
      d.breakpoints.points = [⟨"m.js", 2⟩, ⟨"m.js", 1⟩] := by
  intro files args
  obtain ⟨d, hd⟩ : ∃ d, CommandLine.start (m := Id) files false args = Except.ok d := ⟨_, by cbv⟩
  obtain ⟨o, base, breaks, ho, hbase, hbreaks, hpoints⟩ :=
    registry_is_ordered_set.2.2.2 files false args d hd
  have hargs : CommandLine.parse? args =
      some ⟨"m.js", none, ["m.js:2", "m.js:1", "m.js:2"], false, false, none⟩ := by cbv
  obtain rfl := Option.some.inj (ho.symm.trans hargs)
  cases hbase
  have hread : CommandLine.readBreaks ["m.js:2", "m.js:1", "m.js:2"] =
      .ok [⟨"m.js", 2⟩, ⟨"m.js", 1⟩, ⟨"m.js", 2⟩] := by cbv
  cases hbreaks.symm.trans hread
  exact ⟨d, hd, hpoints⟩

end ScriptDebug
