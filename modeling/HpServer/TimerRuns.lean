import HpServer.Lib.Lts
import HpServer.Lib.DeadlineMap
import HpServer.Timer

/-!
# Runs of the timer

Any sequence of calls of the timer's operations. `tick` and `get_next_timeout_ms` are taken apart into the turns of
their loops, since the callbacks that `tick` calls may call `add`, `adjust` and `remove` themselves; the clock is read
anew wherever the code reads it. The run keeps the history of what was asked of the timer and of what it did.
-/

namespace HpServer

open DeadlineMap

/-- Where the timer is: no call is being served; in `tick`, which `get_next_timeout_ms` may have called, with a
callback running or not; or behind the `tick` of `get_next_timeout_ms`. -/
inductive TimerPc where
  | idle
  | tick (forNext calling : Bool)
  | next
  deriving DecidableEq

/-- `add`, `adjust` and `remove` are called from outside or from a callback. -/
def TimerPc.callable : TimerPc → Bool
  | idle => true
  | tick _ calling => calling
  | next => false

/-- Where `tick` returns to. -/
def TimerPc.back (forNext : Bool) : TimerPc := if forNext then next else idle

structure TimerRun (κ : Type) where
  timer : Timer κ
  pc : TimerPc
  history : List (Event Int Int κ)

inductive TimerAction (κ : Type) where
  | add (now id timeoutMs : Int) (callback : κ)
  | adjust (now id timeoutMs : Int)
  | remove (id : Int)
  | tick
  | getNextTimeoutMs
  /-- A turn of the loop of `tick`, where `n` is the top of the heap. -/
  | top (now : Int) (n : Timer.Node)
  /-- `tick` finds the heap empty. -/
  | empty
  /-- `discard_stale_top` in `get_next_timeout_ms` pops the top. -/
  | discard (n : Timer.Node)
  /-- `get_next_timeout_ms` returns `nextTimeoutMs now n`, where `n` is the top of the heap if there is one. -/
  | timeout (now : Int) (n : Option Timer.Node)

namespace TimerRun

variable {κ : Type}

/-- A negative id is ignored; so is `adjust` of an id without an entry, which changes nothing. -/
def step (s : TimerRun κ) : TimerAction κ → Option (TimerRun κ)
  | .add now id timeoutMs callback =>
    if s.pc.callable then
      some { s with
        timer := s.timer.add now id timeoutMs callback
        history := if id < 0 then s.history else .set id (now + Timer.milliseconds timeoutMs) callback :: s.history }
    else none
  | .adjust now id timeoutMs =>
    if s.pc.callable then
      some { s with
        timer := s.timer.adjust now id timeoutMs
        history := .move id (now + Timer.milliseconds timeoutMs) :: s.history }
    else none
  | .remove id =>
    if s.pc.callable then some { s with timer := s.timer.remove id, history := .clear id :: s.history } else none
  | .tick => if s.pc = .idle then some { s with pc := .tick false false } else none
  | .getNextTimeoutMs => if s.pc = .idle then some { s with pc := .tick true false } else none
  | .top now n =>
    match s.pc with
    | .tick forNext _ =>
      if s.timer.IsTop n then
        match s.timer.tickTop now n with
        | .dropped timer => some { s with timer := timer, pc := .tick forNext false }
        | .stopped => some { s with pc := .back forNext, history := .settle (some now) :: s.history }
        | .fired timer callback =>
          some { s with timer := timer, pc := .tick forNext true,
                        history := .fire n.id n.expiresAt callback now :: s.history }
      else none
    | _ => none
  | .empty =>
    match s.pc with
    | .tick forNext _ =>
      if s.timer.heap = [] then some { s with pc := .back forNext, history := .settle none :: s.history } else none
    | _ => none
  | .discard n =>
    if s.pc = .next ∧ s.timer.IsTop n ∧ s.timer.live n = false then some { s with timer := s.timer.pop n } else none
  | .timeout _ none => if s.pc = .next ∧ s.timer.heap = [] then some { s with pc := .idle } else none
  | .timeout _ (some n) =>
    if s.pc = .next ∧ s.timer.IsTop n ∧ s.timer.live n = true then some { s with pc := .idle } else none

end TimerRun

/-- The runs of a timer from its construction on. -/
def timerRuns (κ : Type) : Lts (TimerRun κ) (TimerAction κ) where
  init s := s = ⟨.empty, .idle, []⟩
  step := TimerRun.step

/-! ## The clock -/

namespace TimerAction

variable {κ : Type}

/-- The clock shows no less than it did, and a timeout is an `int`. -/
def Fits (clock : Int) : TimerAction κ → Prop
  | add now _ timeoutMs _ => clock ≤ now ∧ -2147483648 ≤ timeoutMs ∧ timeoutMs ≤ 2147483647
  | adjust now _ timeoutMs => clock ≤ now ∧ -2147483648 ≤ timeoutMs ∧ timeoutMs ≤ 2147483647
  | top now _ => clock ≤ now
  | timeout now _ => clock ≤ now
  | remove _ | tick | getNextTimeoutMs | empty | discard _ => True

/-- What the clock showed last. -/
def clockAfter (clock : Int) : TimerAction κ → Int
  | add now _ _ _ | adjust now _ _ | top now _ | timeout now _ => now
  | remove _ | tick | getNextTimeoutMs | empty | discard _ => clock

/-- A step of the timer's loops, not a call. -/
def Own : TimerAction κ → Prop
  | top _ _ | empty | discard _ | timeout _ _ => True
  | add _ _ _ _ | adjust _ _ _ | remove _ | tick | getNextTimeoutMs => False

instance (clock : Int) : (a : TimerAction κ) → Decidable (a.Fits clock)
  | add now _ timeoutMs _ => inferInstanceAs (Decidable (clock ≤ now ∧ -2147483648 ≤ timeoutMs ∧ timeoutMs ≤ 2147483647))
  | adjust now _ timeoutMs => inferInstanceAs (Decidable (clock ≤ now ∧ -2147483648 ≤ timeoutMs ∧ timeoutMs ≤ 2147483647))
  | top now _ => inferInstanceAs (Decidable (clock ≤ now))
  | timeout now _ => inferInstanceAs (Decidable (clock ≤ now))
  | remove _ | tick | getNextTimeoutMs | empty | discard _ => .isTrue trivial

end TimerAction

/-- A run, and what the clock showed last. -/
structure ClockedRun (κ : Type) where
  run : TimerRun κ
  clock : Int

/-- The runs of a timer under a clock that never goes back. -/
def clockedRuns (κ : Type) : Lts (ClockedRun κ) (TimerAction κ) where
  init s := s.run = ⟨.empty, .idle, []⟩
  step s a := if a.Fits s.clock then (s.run.step a).map fun run => ⟨run, a.clockAfter s.clock⟩ else none

end HpServer
