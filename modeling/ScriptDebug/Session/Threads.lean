/-
# Threads at a gate

Any number of threads share a gate: a flag that a mutex guards, and a condition on which
threads sleep until the flag is set. A thread makes one call after another. A call takes
several steps, and other threads take theirs between them: it gets the mutex, looks at the
flag, sets the flag and wakes all who sleep, or gives up the mutex and falls asleep at once, and
at its end it gives up the mutex. Who sleeps can wake without being woken.

Key definitions: `Gate.Call`, `Gate.Return`, `Gate.Point`, `Gate.State`, `Gate.Step`,
`Gate.Steps`, `Gate.answers`.
-/
import ScriptDebug.Session

namespace ScriptDebug
namespace Gate

/-- What a thread can ask of a gate. -/
inductive Call where
  | wait
  | release
  | isReleased
  deriving DecidableEq, Repr

/-- What a call answers: a release whether it is the one that released the gate, and a question
whether the gate is released. -/
inductive Return where
  | waited
  | released (first : Bool)
  | asked (yes : Bool)
  deriving DecidableEq, Repr

/-- Where a thread is: between calls, about to get the mutex, about to look at the flag, about to
fall asleep or to set the flag after it was found unset, about to return, or asleep. -/
inductive Point where
  | idle
  | locking (c : Call)
  | testing (c : Call)
  | dozing
  | setting
  | leaving (r : Return)
  | asleep
  deriving DecidableEq, Repr

/-- Whether a thread at the point has the mutex. -/
def Point.holds : Point → Bool
  | .testing _ | .dozing | .setting | .leaving _ => true
  | .idle | .locking _ | .asleep => false

/-- Where a call goes on after its look at the flag. -/
def Call.tested (flag : Bool) : Call → Point
  | .wait => if flag then .leaving .waited else .dozing
  | .release => if flag then .leaving (.released false) else .setting
  | .isReleased => .leaving (.asked flag)

/-- Who is woken wants the mutex again, to look at the flag once more. -/
def Point.woken : Point → Point
  | .asleep => .locking .wait
  | p => p

/-- A gate with its threads: the flag, who has the mutex, and where each thread is. -/
structure State (Thread : Type) where
  flag : Bool
  holder : Option Thread
  point : Thread → Point

/-- What a thread does in one step. A thread that `stirs` wakes without being woken. -/
inductive Event (Thread : Type) where
  | begins (t : Thread) (c : Call)
  | locks (t : Thread)
  | tests (t : Thread)
  | sleeps (t : Thread)
  | sets (t : Thread)
  | stirs (t : Thread)
  | returns (t : Thread) (r : Return)
  deriving DecidableEq, Repr

section

variable {Thread : Type}

/-- A fresh gate. No thread has made a call yet. -/
def State.start : State Thread := ⟨false, none, fun _ => .idle⟩

variable [DecidableEq Thread]

/-- Puts a thread at a point. -/
def State.move (s : State Thread) (t : Thread) (p : Point) : State Thread :=
  { s with point := fun u => if u = t then p else s.point u }

theorem State.point_move_self (s : State Thread) (t : Thread) (p : Point) :
    (s.move t p).point t = p :=
  if_pos rfl

theorem State.point_move_ne {t u : Thread} (s : State Thread) (p : Point) (h : u ≠ t) :
    (s.move t p).point u = s.point u :=
  if_neg h

/-- Wakes all who sleep. -/
def State.wakeAll (s : State Thread) : State Thread :=
  { s with point := fun u => (s.point u).woken }

/-- One step of one thread. The mutex is got only while nobody has it. To fall asleep gives it up in
the same step, and to set the flag wakes all who sleep then. -/
inductive Step : State Thread → Event Thread → State Thread → Prop
  | begins {s t} (c : Call) (h : s.point t = .idle) : Step s (.begins t c) (s.move t (.locking c))
  | locks {s t c} (h : s.point t = .locking c) (free : s.holder = none) :
    Step s (.locks t) { s.move t (.testing c) with holder := some t }
  | tests {s t c} (h : s.point t = .testing c) : Step s (.tests t) (s.move t (c.tested s.flag))
  | sleeps {s t} (h : s.point t = .dozing) :
    Step s (.sleeps t) { s.move t .asleep with holder := none }
  | sets {s t} (h : s.point t = .setting) :
    Step s (.sets t) { s.wakeAll.move t (.leaving (.released true)) with flag := true }
  | stirs {s t} (h : s.point t = .asleep) : Step s (.stirs t) (s.move t (.locking .wait))
  | returns {s t r} (h : s.point t = .leaving r) :
    Step s (.returns t r) { s.move t .idle with holder := none }

/-- Any number of steps, with what was done in them. -/
inductive Steps (s : State Thread) : List (Event Thread) → State Thread → Prop
  | refl : Steps s [] s
  | tail {es s' e s''} (h : Steps s es s') (he : Step s' e s'') : Steps s (es ++ [e]) s''

end

/-- The answer of a call that ends with the event. -/
def Event.answer? {Thread : Type} : Event Thread → Option Return
  | .returns _ r => some r
  | _ => none

/-- The answers of the calls that have ended, in the order of their ends. -/
def answers {Thread : Type} (es : List (Event Thread)) : List Return := es.filterMap Event.answer?

theorem answers_concat {Thread : Type} (es : List (Event Thread)) (e : Event Thread) :
    answers (es ++ [e]) = answers es ++ e.answer?.toList := by
  rw [answers, List.filterMap_append]
  cases e <;> rfl

end Gate
end ScriptDebug
