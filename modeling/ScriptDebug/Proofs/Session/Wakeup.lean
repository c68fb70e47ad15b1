/-
# No wake-up is lost at a gate

However the steps of the threads are mixed, the calls get the answers that they would get one
after another, in the order in which they end (`Gate.sound_of_steps`): the mutex makes a call
one action on the gate. So exactly one release is the first, and who waits goes on only after it.

A thread falls asleep in the step in which it gives the mutex up, with the flag unset
since it looked at it, and whoever sets the flag wakes all who sleep in the same step. So
nobody sleeps while the flag is set, and each call that is under way then can come to its end
(`Gate.Sound.exists_return`).

Key definitions: `Gate.Serial`, `Gate.Point.Agrees`, `Gate.Sound`.
Key theorems: `Gate.Sound.step`, `Gate.sound_of_steps`, `Gate.Sound.exists_return`,
`wakeup_never_lost`.
-/
import Mathlib
import ScriptDebug.Session.Threads

namespace ScriptDebug
namespace Gate

/-! ### One call after another -/

/-- The gates after a call at gate `i`. -/
def Return.after (i : GateId) (g : Gates) : Return → Gates
  | .released _ => g.release i
  | .waited | .asked _ => g

/-- The answer is that of a call at gate `i` which nothing interrupts. -/
def Return.Fits (i : GateId) (g : Gates) : Return → Prop
  | .waited => g.isReleased i = true
  | .released first => first = !g.isReleased i
  | .asked yes => yes = g.isReleased i

/-- The gates after calls at gate `i`. -/
def afterAll (i : GateId) (g : Gates) (rs : List Return) : Gates := rs.foldl (Return.after i) g

/-- The answers are those of calls that are made one after another. -/
def Serial (i : GateId) (g : Gates) : List Return → Prop
  | [] => True
  | r :: rs => r.Fits i g ∧ Serial i (r.after i g) rs

variable {i : GateId} {g : Gates} {r : Return} {rs : List Return}

theorem serial_concat : Serial i g (rs ++ [r]) ↔ Serial i g rs ∧ r.Fits i (afterAll i g rs) := by
  induction rs generalizing g with
  | nil => exact ⟨fun h => ⟨trivial, h.1⟩, fun h => ⟨h.2, trivial⟩⟩
  | cons r' rs ih => exact (and_congr_right fun _ => ih).trans and_assoc.symm

theorem next_after (r : Return) : (r.after i g).next = g.next := by
  cases r with
  | released => exact Gates.next_release g i
  | waited | asked => rfl

theorem next_afterAll (rs : List Return) : (afterAll i g rs).next = g.next := by
  induction rs generalizing g with
  | nil => rfl
  | cons r rs ih => exact ih.trans (next_after r)

/-- Behind a released gate no release is the first. -/
theorem Serial.count_of_isReleased (h : Serial i g rs) (hg : g.isReleased i = true) :
    rs.count (.released true) = 0 := by
  induction rs generalizing g with
  | nil => rfl
  | cons r rs ih =>
    have hne : r ≠ .released true := by
      rintro rfl
      have hfirst : true = !g.isReleased i := h.1
      rw [hg] at hfirst
      cases hfirst
    have hafter : (r.after i g).isReleased i = true := by
      cases r with
      | released => exact Gates.isReleased_release_of hg i
      | waited | asked => exact hg
    rw [List.count_cons_of_ne hne, ih h.2 hafter]

/-- Exactly one of the releases of a gate is the first. -/
theorem Serial.count_of_released (h : Serial i g rs) (hi : i < g.next)
    (hg : g.isReleased i = false) {first : Bool} (hrs : .released first ∈ rs) :
    rs.count (.released true) = 1 := by
  induction rs generalizing g with
  | nil => cases hrs
  | cons r rs ih =>
    have hother (hr : ∀ b, r ≠ .released b) (hsame : r.after i g = g) :
        (r :: rs).count (.released true) = 1 := by
      have hmem : .released first ∈ rs :=
        (List.mem_cons.1 hrs).resolve_left fun heq => hr first heq.symm
      have hrest : Serial i g rs := hsame ▸ h.2
      rw [List.count_cons_of_ne (hr true), ih hrest hi hg hmem]
    cases r with
    | waited => exact hother nofun rfl
    | asked => exact hother nofun rfl
    | released b =>
      have hb : b = true := h.1.trans (by rw [hg]; rfl)
      have hrest : Serial i (g.release i) rs := h.2
      rw [hb, List.count_cons_self,
        hrest.count_of_isReleased (Gates.isReleased_release_self hi)]

theorem Serial.count_le (h : Serial i g rs) (hi : i < g.next) (hg : g.isReleased i = false) :
    rs.count (.released true) ≤ 1 := by
  by_cases hmem : .released true ∈ rs
  · exact Nat.le_of_eq (h.count_of_released hi hg hmem)
  · rw [List.count_eq_zero_of_not_mem hmem]
    exact Nat.zero_le 1

/-! ### One step -/

/-- What a thread at the point has to do with the flag if it has the mutex, where the calls that
have ended leave the gates `g`. A call that is about to return has done its work already. -/
def Point.Agrees (i : GateId) (g : Gates) (flag : Bool) : Point → Prop
  | .testing _ => flag = g.isReleased i
  | .dozing | .setting => flag = false ∧ g.isReleased i = false
  | .leaving r => r.Fits i g ∧ flag = (r.after i g).isReleased i
  | .idle | .locking _ | .asleep => False

theorem Point.Agrees.holds {flag : Bool} {p : Point} (h : p.Agrees i g flag) : p.holds = true := by
  cases p <;> first | rfl | exact h.elim

/-- A look at the flag leaves a call with the work that the flag asks for. -/
theorem Call.agrees_tested {flag : Bool} (h : flag = g.isReleased i) (c : Call) :
    (c.tested flag).Agrees i g flag := by
  cases flag with
  | true =>
    cases c with
    | wait => exact ⟨h.symm, h⟩
    | release => exact ⟨congrArg Bool.not h, (Gates.isReleased_release_of h.symm i).symm⟩
    | isReleased => exact ⟨h, h⟩
  | false =>
    cases c with
    | wait | release => exact ⟨rfl, h.symm⟩
    | isReleased => exact ⟨h, h⟩

variable {Thread : Type}

/-- The gate after calls that leave the gates `g`: only the holder of the mutex is at a point where
it has it, the flag is what that thread takes it to be, or what the calls have left if nobody has the
mutex, and nobody sleeps while it is set. -/
structure Sound (i : GateId) (g : Gates) (s : State Thread) : Prop where
  owner : ∀ t, (s.point t).holds = true → s.holder = some t
  agrees : ∀ t, s.holder = some t → (s.point t).Agrees i g s.flag
  free : s.holder = none → s.flag = g.isReleased i
  unset : ∀ t, s.point t = .asleep → s.flag = false

theorem sound_start (h : g.isReleased i = false) : Sound i g (State.start : State Thread) where
  owner _ ht := nomatch ht
  agrees _ ht := nomatch ht
  free _ := h.symm
  unset _ ht := nomatch ht

variable {s s' : State Thread} {t u : Thread}

/-- The others have not the mutex that a thread has. -/
theorem Sound.not_holds (h : Sound i g s) (ht : s.holder = some t) (hu : u ≠ t) :
    (s.point u).holds = false := by
  by_contra hne
  have hown := h.owner u (Bool.not_eq_false _ ▸ hne)
  exact hu (Option.some.inj (hown.symm.trans ht))

/-- While nobody has the mutex, nobody is at a point where it has it. -/
theorem Sound.not_holds_of_free (h : Sound i g s) (hfree : s.holder = none) (u : Thread) :
    (s.point u).holds = false := by
  by_contra hne
  have hown := h.owner u (Bool.not_eq_false _ ▸ hne)
  rw [hfree] at hown
  cases hown

/-- One thread has the mutex. -/
theorem Sound.of_holder (hholder : s.holder = some t) (hpoint : (s.point t).Agrees i g s.flag)
    (hothers : ∀ u, u ≠ t → (s.point u).holds = false)
    (hunset : ∀ u, s.point u = .asleep → s.flag = false) : Sound i g s where
  owner u hu := by
    by_cases hut : u = t
    · rw [hut, hholder]
    · rw [hothers u hut] at hu
      cases hu
  agrees u hu := by
    obtain rfl := Option.some.inj (hholder.symm.trans hu)
    exact hpoint
  free hfree := by
    rw [hholder] at hfree
    cases hfree
  unset := hunset

/-- Nobody has the mutex. -/
theorem Sound.of_free (hholder : s.holder = none) (hflag : s.flag = g.isReleased i)
    (hothers : ∀ u, (s.point u).holds = false)
    (hunset : ∀ u, s.point u = .asleep → s.flag = false) : Sound i g s where
  owner u hu := by
    rw [hothers u] at hu
    cases hu
  agrees u hu := by
    rw [hholder] at hu
    cases hu
  free _ := hflag
  unset := hunset

/-- Behind a set flag a call that has not the mutex wants it: nobody sleeps. -/
theorem Sound.exists_locking (h : Sound i g s) (hflag : s.flag = true) (ht : s.point t ≠ .idle)
    (hout : (s.point t).holds = false) : ∃ c, s.point t = .locking c := by
  cases hp : s.point t with
  | locking c => exact ⟨c, rfl⟩
  | idle => exact absurd hp ht
  | asleep => exact absurd hflag (by rw [h.unset t hp]; exact Bool.false_ne_true)
  | testing | dozing | setting | leaving =>
    rw [hp] at hout
    cases hout

variable [DecidableEq Thread] {e : Event Thread}

/-- Moving one thread keeps what holds of its new point and of the points of the others. -/
theorem forall_move (P : Thread → Point → Prop) {p : Point} (hp : P t p)
    (h : ∀ u, u ≠ t → P u (s.point u)) (u : Thread) : P u ((s.move t p).point u) := by
  by_cases hut : u = t
  · rw [hut, State.point_move_self]
    exact hp
  · rw [s.point_move_ne p hut]
    exact h u hut

/-- A thread that has not the mutex can move where it has not either and is not asleep. -/
theorem Sound.outside (h : Sound i g s) {p : Point} (ht : (s.point t).holds = false)
    (hp : p.holds = false) (hawake : p ≠ .asleep) : Sound i g (s.move t p) where
  owner := forall_move (fun u q => q.holds = true → s.holder = some u)
    (fun hq => absurd hq (Bool.not_eq_true _ ▸ hp)) fun u _ => h.owner u
  agrees u hu := by
    have hut : u ≠ t := by
      rintro rfl
      exact Bool.false_ne_true (ht.symm.trans (h.agrees u hu).holds)
    rw [s.point_move_ne p hut]
    exact h.agrees u hu
  free := h.free
  unset := forall_move (fun _ q => q = .asleep → s.flag = false)
    (fun hq => absurd hq hawake) fun u _ => h.unset u

/-- The gates after the call that ends with an event, if one does. -/
def Event.after (i : GateId) (g : Gates) (e : Event Thread) : Gates :=
  afterAll i g e.answer?.toList

/-- **A step keeps the gate sound**, and a call that ends with it has its answer. -/
theorem Sound.step (h : Sound i g s) (hi : i < g.next) (he : Step s e s') :
    (∀ r ∈ e.answer?, r.Fits i g) ∧ Sound i (e.after i g) s' := by
  cases he with
  | begins c hp => exact ⟨nofun, h.outside (by rw [hp]; rfl) rfl nofun⟩
  | stirs hp => exact ⟨nofun, h.outside (by rw [hp]; rfl) rfl nofun⟩
  | @locks t c hp free =>
    refine ⟨nofun, Sound.of_holder (t := t) rfl ?_ ?_ ?_⟩
    · show ((s.move t (.testing c)).point t).Agrees i g s.flag
      rw [State.point_move_self]
      exact h.free free
    · exact forall_move (fun u q => u ≠ t → q.holds = false) (absurd rfl ·)
        fun u _ _ => h.not_holds_of_free free u
    · exact forall_move (fun _ q => q = .asleep → s.flag = false) nofun fun u _ => h.unset u
  | @tests t c hp =>
    have ht : s.holder = some t := h.owner t (by rw [hp]; rfl)
    have hflag : s.flag = g.isReleased i := by
      have hagrees := h.agrees t ht
      rwa [hp] at hagrees
    have htested := Call.agrees_tested hflag c
    refine ⟨nofun, Sound.of_holder ht ?_ ?_ ?_⟩
    · rw [State.point_move_self]
      exact htested
    · exact forall_move (fun u q => u ≠ t → q.holds = false) (absurd rfl ·)
        fun u hu _ => h.not_holds ht hu
    · refine forall_move (fun _ q => q = .asleep → s.flag = false) (fun hq => ?_)
        fun u _ => h.unset u
      rw [hq] at htested
      exact htested.elim
  | @sleeps t hp =>
    have ht : s.holder = some t := h.owner t (by rw [hp]; rfl)
    obtain ⟨hunset, hg⟩ : s.flag = false ∧ g.isReleased i = false := by
      have hagrees := h.agrees t ht
      rwa [hp] at hagrees
    refine ⟨nofun, Sound.of_free rfl (hunset.trans hg.symm) ?_ fun _ _ => hunset⟩
    exact forall_move (fun _ q => q.holds = false) rfl fun u hu => h.not_holds ht hu
  | @sets t hp =>
    have ht : s.holder = some t := h.owner t (by rw [hp]; rfl)
    obtain ⟨-, hg⟩ : s.flag = false ∧ g.isReleased i = false := by
      have hagrees := h.agrees t ht
      rwa [hp] at hagrees
    have hwoken (p : Point) : p.woken ≠ .asleep ∧ p.woken.holds = p.holds := by
      cases p <;> exact ⟨nofun, rfl⟩
    refine ⟨nofun, Sound.of_holder (t := t) ht ?_ ?_ ?_⟩
    · show ((s.wakeAll.move t (.leaving (.released true))).point t).Agrees i g true
      rw [State.point_move_self]
      exact ⟨congrArg Bool.not hg.symm, (Gates.isReleased_release_self hi).symm⟩
    · refine forall_move (fun u q => u ≠ t → q.holds = false) (absurd rfl ·) fun u hu _ => ?_
      exact (hwoken _).2.trans (h.not_holds ht hu)
    · exact forall_move (fun _ q => q = .asleep → true = false) nofun
        fun u _ hu => absurd hu (hwoken _).1
  | @returns t r hp =>
    have ht : s.holder = some t := h.owner t (by rw [hp]; rfl)
    obtain ⟨hfits, hflag⟩ : r.Fits i g ∧ s.flag = (r.after i g).isReleased i := by
      have hagrees := h.agrees t ht
      rwa [hp] at hagrees
    refine ⟨fun r' hr' => Option.some.inj hr' ▸ hfits, Sound.of_free rfl hflag ?_ ?_⟩
    · exact forall_move (fun _ q => q.holds = false) rfl fun u hu => h.not_holds ht hu
    · exact forall_move (fun _ q => q = .asleep → s.flag = false) nofun fun u _ => h.unset u

/-! ### Any number of steps -/

theorem Steps.single (he : Step s e s') : Steps s [e] s' := .tail .refl he

theorem Steps.trans {es es' : List (Event Thread)} {s'' : State Thread} (h : Steps s es s')
    (h' : Steps s' es' s'') : Steps s (es ++ es') s'' := by
  induction h' with
  | refl => rwa [List.append_nil]
  | tail _ he ih =>
    rw [← List.append_assoc]
    exact ih.tail he

theorem Steps.head {es : List (Event Thread)} {s'' : State Thread} (he : Step s e s')
    (h : Steps s' es s'') : Steps s (e :: es) s'' :=
  (Steps.single he).trans h

/-- A run has gone through the step of each of its events. -/
theorem Steps.split {before after : List (Event Thread)}
    (h : Steps s (before ++ e :: after) s') :
    ∃ s₁ s₂, Steps s before s₁ ∧ Step s₁ e s₂ ∧ Steps s₂ after s' := by
  generalize hes : before ++ e :: after = es at h
  induction h generalizing after with
  | refl => simp at hes
  | @tail es s₁ e' s₂ h he ih =>
    rcases List.eq_nil_or_concat after with rfl | ⟨after, e'', rfl⟩
    · obtain ⟨rfl, hlast⟩ := List.append_inj' hes rfl
      obtain rfl := List.singleton_inj.1 hlast
      exact ⟨s₁, s₂, h, he, .refl⟩
    · rw [List.concat_eq_append, ← List.cons_append, ← List.append_assoc] at hes
      obtain ⟨hinit, hlast⟩ := List.append_inj' hes rfl
      obtain rfl := List.singleton_inj.1 hlast
      obtain ⟨s₃, s₄, hbefore, hstep, hafter⟩ := ih hinit
      exact ⟨s₃, s₄, hbefore, hstep, by rw [List.concat_eq_append]; exact hafter.tail he⟩

/-- The flag is set in the step that says so, and nothing unsets it. -/
theorem Step.flag_iff (he : Step s e s') :
    s'.flag = true ↔ s.flag = true ∨ ∃ t, e = .sets t := by
  cases he with
  | sets => exact iff_of_true rfl (Or.inr ⟨_, rfl⟩)
  | begins | locks | tests | sleeps | stirs | returns => exact (or_iff_left nofun).symm

theorem Steps.flag_iff {es : List (Event Thread)} (h : Steps s es s') :
    s'.flag = true ↔ s.flag = true ∨ ∃ t, .sets t ∈ es := by
  induction h with
  | refl => exact (or_iff_left nofun).symm
  | tail _ he ih =>
    simp only [he.flag_iff, ih, List.mem_append, List.mem_singleton, exists_or, or_assoc,
      eq_comm (a := Event.sets _)]

/-- **Every run keeps the gate sound**, and its calls get the answers of calls that are made one
after another. -/
theorem sound_of_steps {es : List (Event Thread)} (h : Steps .start es s) (hi : i < g.next)
    (hg : g.isReleased i = false) :
    Serial i g (answers es) ∧ Sound i (afterAll i g (answers es)) s := by
  induction h with
  | refl => exact ⟨trivial, sound_start hg⟩
  | @tail es s₁ e s₂ _ he ih =>
    obtain ⟨hserial, hsound⟩ := ih
    obtain ⟨hfits, hsound⟩ := hsound.step (by rwa [next_afterAll]) he
    rw [answers_concat]
    refine ⟨?_, ?_⟩
    · cases hanswer : e.answer? with
      | none => rwa [Option.toList_none, List.append_nil]
      | some r => exact serial_concat.2 ⟨hserial, hfits r hanswer⟩
    · rwa [afterAll, List.foldl_append]

/-! ### Every call ends once the flag is set -/

theorem Call.exists_tested (c : Call) : ∃ r, c.tested true = .leaving r := by
  cases c <;> exact ⟨_, rfl⟩

/-- A thread that has looked at the set flag, or is about to, can give the mutex up and return. -/
theorem exists_return_of_testing {c : Call} (hflag : s.flag = true) (ht : s.point t = .testing c) :
    ∃ r s', Steps s [.tests t, .returns t r] s' ∧ s'.holder = none ∧ s'.flag = true ∧
      ∀ u, u ≠ t → s'.point u = s.point u := by
  obtain ⟨r, hr⟩ := c.exists_tested
  have hleaving : (s.move t (c.tested s.flag)).point t = .leaving r := by
    rw [State.point_move_self, hflag, hr]
  refine ⟨r, _, (Steps.single (.tests ht)).tail (.returns hleaving), rfl, hflag, fun u hu => ?_⟩
  exact (State.point_move_ne _ _ hu).trans (State.point_move_ne _ _ hu)

/-- The thread that has the mutex can give it up and return, and the others stay where they are. -/
theorem Sound.exists_return_of_holder (h : Sound i g s) (hflag : s.flag = true)
    (hu : s.holder = some u) :
    ∃ es r s', Steps s (es ++ [.returns u r]) s' ∧ s'.holder = none ∧ s'.flag = true ∧
      ∀ t, t ≠ u → s'.point t = s.point t := by
  have hagrees := h.agrees u hu
  rw [hflag] at hagrees
  cases hp : s.point u with
  | testing c =>
    obtain ⟨r, s', hsteps, hrest⟩ := exists_return_of_testing hflag hp
    exact ⟨[.tests u], r, s', hsteps, hrest⟩
  | leaving r =>
    exact ⟨[], r, _, Steps.single (.returns hp), rfl, hflag, fun t ht => s.point_move_ne _ ht⟩
  | dozing | setting =>
    rw [hp] at hagrees
    cases hagrees.1
  | idle | locking | asleep =>
    rw [hp] at hagrees
    exact hagrees.elim

/-- A thread that wants the mutex gets it when nobody has it, and then returns. -/
theorem exists_return_of_locking {c : Call} (hflag : s.flag = true) (hfree : s.holder = none)
    (ht : s.point t = .locking c) : ∃ es r s', Steps s (es ++ [.returns t r]) s' := by
  obtain ⟨r, s', hsteps, -⟩ :=
    exists_return_of_testing (s := { s.move t (.testing c) with holder := some t }) hflag
      (s.point_move_self t _)
  exact ⟨[.locks t, .tests t], r, s', .head (.locks ht hfree) hsteps⟩

/-- **Once the flag is set, every call that is under way can end.** -/
theorem Sound.exists_return (h : Sound i g s) (hflag : s.flag = true) (ht : s.point t ≠ .idle) :
    ∃ es r s', Steps s (es ++ [.returns t r]) s' := by
  cases hholder : s.holder with
  | none =>
    obtain ⟨c, hc⟩ := h.exists_locking hflag ht (h.not_holds_of_free hholder t)
    exact exists_return_of_locking hflag hholder hc
  | some u =>
    obtain ⟨es, r, s', hsteps, hfree, hflag', hothers⟩ := h.exists_return_of_holder hflag hholder
    by_cases htu : t = u
    · exact ⟨es, r, s', htu ▸ hsteps⟩
    · obtain ⟨c, hc⟩ := h.exists_locking hflag ht (h.not_holds hholder htu)
      obtain ⟨es', r', s'', hmore⟩ :=
        exists_return_of_locking hflag' hfree ((hothers t htu).trans hc)
      refine ⟨es ++ [.returns u r] ++ es', r', s'', ?_⟩
      rw [List.append_assoc]
      exact hsteps.trans hmore

/-- What can be told of a run: the flag stays set, one release is the first if any has ended, a
`wait` has returned only after the flag was set, nobody sleeps behind a set flag, the answers are
those of calls at an unreleased gate that are made one after another, and once the flag is set every
call can end. -/
structure KeepsWakeups (es : List (Event Thread)) (s : State Thread) : Prop where
  stays : s.flag = true → ∀ es' s', Steps s es' s' → s'.flag = true
  once : (answers es).count (.released true) ≤ 1
  first : (∃ b, .released b ∈ answers es) → (answers es).count (.released true) = 1
  waited : ∀ before t after, es = before ++ .returns t .waited :: after → ∃ u, .sets u ∈ before
  awake : ¬ (s.flag = true ∧ s.holder = none ∧ ∃ t, s.point t = .asleep)
  serial : ∀ (i : GateId) (g : Gates), i < g.next → g.isReleased i = false →
    Serial i g (answers es)
  ends : s.flag = true → ∀ t, s.point t ≠ .idle → ∃ es' r s', Steps s (es' ++ [.returns t r]) s'

end Gate

/-- **No wake-up is lost**, whatever the threads are and however their steps are mixed. -/
theorem wakeup_never_lost {Thread : Type} [DecidableEq Thread] {es : List (Gate.Event Thread)}
    {s : Gate.State Thread} (h : Gate.Steps .start es s) : Gate.KeepsWakeups es s := by
  have hstart : 0 < Session.start.gates.next := by decide
  have hg : Session.start.gates.isReleased 0 = false := rfl
  obtain ⟨hserial, hsound⟩ := Gate.sound_of_steps h hstart hg
  refine ⟨fun hflag es' s' h' => ?_, hserial.count_le hstart hg, ?_, ?_, ?_, ?_, ?_⟩
  · exact h'.flag_iff.2 (Or.inl hflag)
  · rintro ⟨b, hb⟩
    exact hserial.count_of_released hstart hg hb
  · rintro before t after rfl
    obtain ⟨s₁, s₂, hbefore, hstep, -⟩ := h.split
    obtain ⟨-, hsound⟩ := Gate.sound_of_steps hbefore hstart hg
    have hflag : s₁.flag = true := by
      cases hstep with
      | returns hp =>
        have hagrees := hsound.agrees t (hsound.owner t (by rw [hp]; rfl))
        rw [hp] at hagrees
        exact hagrees.2.trans hagrees.1
    exact (hbefore.flag_iff.1 hflag).resolve_left nofun
  · rintro ⟨hflag, -, t, ht⟩
    rw [hsound.unset t ht] at hflag
    cases hflag
  · exact fun i g hi hg => (Gate.sound_of_steps h hi hg).1
  · exact fun hflag t ht => hsound.exists_return hflag ht

/-- Thread 0 wakes without being woken, and thread 1 has found the flag unset but does not sleep yet
while thread 2 wants to release the gate. Both threads that wait come back. -/
theorem waiting_threads_come_back :
    let es : List (Gate.Event Nat) :=
      [.begins 0 .wait, .locks 0, .tests 0, .sleeps 0, .begins 1 .wait, .locks 1, .tests 1,
        .stirs 0, .begins 2 .release, .sleeps 1, .locks 2, .tests 2, .sets 2,
        .returns 2 (.released true), .locks 1, .tests 1, .returns 1 .waited, .locks 0, .tests 0,
        .returns 0 .waited]
    ∃ s, Gate.Steps .start es s ∧ s.flag = true ∧ Gate.KeepsWakeups es s := by
  intro es
  obtain ⟨s, hrun, hflag⟩ : ∃ s, Gate.Steps .start es s ∧ s.flag = true :=
    ⟨_, .head (.begins _ rfl) <| .head (.locks rfl rfl) <| .head (.tests rfl) <|
      .head (.sleeps rfl) <| .head (.begins _ rfl) <| .head (.locks rfl rfl) <|
      .head (.tests rfl) <| .head (.stirs rfl) <| .head (.begins _ rfl) <|
      .head (.sleeps rfl) <| .head (.locks rfl rfl) <| .head (.tests rfl) <|
      .head (.sets rfl) <| .head (.returns rfl) <| .head (.locks rfl rfl) <|
      .head (.tests rfl) <| .head (.returns rfl) <| .head (.locks rfl rfl) <|
      .head (.tests rfl) <| .head (.returns rfl) .refl, rfl⟩
  exact ⟨s, hrun, hflag, wakeup_never_lost hrun⟩

end ScriptDebug
