import HpServer.RingThreads

/-!
# The logger (`src/logger/logger.h`, `src/logger/logger.cpp`)

Threads that call `write_log` push lines into a ring buffer and notify; one thread, begun by `init`, takes them out
and writes them; the destructor clears `running`, notifies and waits for that thread. The model begins where `init`
has returned. The buffer is that of `RingThreads`, one atomic operation at a time: the writer is its thread `none`,
the threads that log are its threads `some t`. `write_log` pushes and notifies without `mtx`; the writer looks into
the buffer and falls asleep with it.

A line is the text that `write_log` has formatted. Where it is written, a file or the console, makes no difference
here: `written` is what came out, in order. Ghost data: `accepted` are the lines in the order in which the buffer took
them, `acceptedAtStop` what they were when `running` was cleared.
-/

namespace HpServer
namespace Logger

open RingThreads (Pc)

/-- The next operation of the writer's thread. At `loopEmpty`, `predEmpty` and `pop` it is within a call of the buffer. -/
inductive WriterPc (α : Type) where
  -- `while (running || !log_queue->empty())`
  | loadRunning
  | loopEmpty
  -- `cv.wait(lock, …)`: the predicate is `!running || !log_queue->empty()`
  | lock
  | predRunning
  | predEmpty
  | sleep
  | asleep (notified : Bool)
  | pop
  | write (line : α)
  | unlock
  | exited
  deriving DecidableEq

/-- The next operation of the destructor. -/
inductive StopPc where
  | alive
  | lock
  | clear
  | unlock
  | notifyAll
  | join
  | done
  deriving DecidableEq

/-- Where a thread is with `write_log`; at `push` it is within a call of the buffer. -/
inductive LogPc (α : Type) where
  | idle
  | push (line : α)
  | notify
  deriving DecidableEq

/-- The threads that take `mtx`. -/
inductive Role where
  | writer
  | stopper
  deriving DecidableEq

structure State (T α : Type) where
  ring : RingThreads.State (Option T) α
  running : Bool
  mtx : Option Role
  writer : WriterPc α
  stopper : StopPc
  logging : T → LogPc α
  written : List α
  accepted : List α
  acceptedAtStop : Option (List α)

/-- A notification marks the writer if it sleeps. -/
def WriterPc.wake {α : Type} : WriterPc α → WriterPc α
  | .asleep _ => .asleep true
  | pc => pc

variable {T α : Type} [DecidableEq T] [Inhabited α]

/-- The next operation of a call of the buffer, or its first. -/
def callRing (moved : α → α) (ring : RingThreads.State (Option T) α) (t : Option T) (op : RingThreads.Op α) :
    Option (RingThreads.State (Option T) α) :=
  match ring.pc t with
  | .idle => ring.step moved (.call t op)
  | _ => ring.step moved (.step t)

/-- What `empty` answers, if the next operation is its last. -/
def emptyAnswer (b : RingBuffer α) : Pc α → Option Bool
  | .emptyTail head => some (RingThreads.answerEmpty b head)
  | _ => none

/-- What `pop` answers, if the next operation is its last. -/
def popAnswer : Pc α → Option (Option α)
  | .popUnlock item => some item
  | _ => none

/-- What `push` answers, if the next operation is its last. -/
def pushAnswer : Pc α → Option Bool
  | .pushUnlock ok => some ok
  | _ => none

/-- The line that the next operation of a `push` puts into the buffer, if any. -/
def stored : Pc α → List α
  | .pushStore item _ => [item]
  | _ => []

namespace State

/-- The writer's next operation. -/
def stepWriter (moved : α → α) (s : State T α) : Option (State T α) :=
  match s.writer with
  | .loadRunning => some { s with writer := if s.running then .lock else .loopEmpty }
  | .loopEmpty =>
    (callRing moved s.ring none .empty).map fun ring =>
      { s with
        ring := ring
        writer := (emptyAnswer s.ring.shared.ring (s.ring.pc none)).elim .loopEmpty fun empty => if empty then
          .exited else .lock }
  | .lock => if s.mtx = none then some { s with mtx := some .writer, writer := .predRunning } else none
  | .predRunning => some { s with writer := if s.running then .predEmpty else .pop }
  | .predEmpty =>
    (callRing moved s.ring none .empty).map fun ring =>
      { s with
        ring := ring
        writer := (emptyAnswer s.ring.shared.ring (s.ring.pc none)).elim .predEmpty fun empty => if empty then
          .sleep else .pop }
  | .sleep => some { s with mtx := none, writer := .asleep false }
  | .asleep notified =>
    if notified = true ∧ s.mtx = none then some { s with mtx := some .writer, writer := .predRunning } else none
  | .pop =>
    (callRing moved s.ring none .pop).map fun ring =>
      -- nothing there: `continue`
      { s with ring := ring, writer := (popAnswer (s.ring.pc none)).elim .pop fun item => item.elim .unlock .write }
  | .write line => some { s with written := s.written ++ [line], writer := .unlock }
  | .unlock => some { s with mtx := none, writer := .loadRunning }
  | .exited => none

/-- The next operation of a thread that logs. -/
def stepLog (moved : α → α) (s : State T α) (t : T) : Option (State T α) :=
  match s.logging t with
  | .idle => none
  | .push line =>
    (callRing moved s.ring (some t) (.push line)).map fun ring =>
      { s with
        ring := ring
        accepted := s.accepted ++ stored (s.ring.pc (some t))
        -- a line for which there is no room is dropped
        logging := Function.update s.logging t
          ((pushAnswer (s.ring.pc (some t))).elim (.push line) fun ok => if ok then .notify else .idle) }
  | .notify => some { s with writer := s.writer.wake, logging := Function.update s.logging t .idle }

/-- The destructor's next operation. -/
def stepStopper (s : State T α) : Option (State T α) :=
  match s.stopper with
  | .alive => none
  | .lock => if s.mtx = none then some { s with mtx := some .stopper, stopper := .clear } else none
  | .clear => some { s with running := false, acceptedAtStop := some s.accepted, stopper := .unlock }
  | .unlock => some { s with mtx := none, stopper := .notifyAll }
  | .notifyAll => some { s with writer := s.writer.wake, stopper := .join }
  | .join =>
    match s.writer with
    | .exited => some { s with stopper := .done }
    | _ => none
  | .done => none

end State

/-- An action of the system. -/
inductive Act (T α : Type) where
  -- a thread calls `write_log`, or goes on with it
  | log (t : T) (line : α)
  | step (t : T)
  | writer
  -- the writer's wait ends without a notification
  | spurious
  -- the destructor is called, or goes on
  | destroy
  | stopper

/-- One step. When the destructor has returned, the object is gone. -/
def State.step (moved : α → α) (s : State T α) (a : Act T α) : Option (State T α) :=
  if s.stopper = .done then none
  else
    match a with
    | .log t line =>
      match s.logging t with
      | .idle => some { s with logging := Function.update s.logging t (.push line) }
      | _ => none
    | .step t => s.stepLog moved t
    | .writer => s.stepWriter moved
    | .spurious =>
      match s.writer with
      | .asleep false => some { s with writer := .asleep true }
      | _ => none
    | .destroy => if s.stopper = .alive then some { s with stopper := .lock } else none
    | .stopper => s.stepStopper

/-- After `init`, with a buffer for `bufferSize` lines. -/
def initState (bufferSize : Nat) : State T α where
  ring := RingThreads.initState bufferSize
  running := true
  mtx := none
  writer := .loadRunning
  stopper := .alive
  logging := fun _ => .idle
  written := []
  accepted := []
  acceptedAtStop := none

/-- The logger with its threads as a transition system. -/
def system (T : Type) [DecidableEq T] (moved : α → α) (bufferSize : Nat) : Lts (State T α) (Act T α) where
  init := fun s => s = initState bufferSize
  step := State.step moved

end Logger
end HpServer
