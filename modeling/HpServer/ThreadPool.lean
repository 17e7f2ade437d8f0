import Mathlib.Data.Fintype.Basic
import Mathlib.Data.Multiset.Basic
import HpServer.Lib.Lts

/-!
# The thread pool (`src/util/thread_pool.h`)

The pool as a system of threads. A thread's program point (`Pc`) names the next atomic operation it performs: taking or
releasing `mtx`, one load or store of a flag, one operation on `task_queue`, one on `queued_task_count`, one notification.
Workers run the loop of `set_thread`; every other thread is a client, which calls the public operations one after the
other, in any order. `Pc.asleep` points are waits on `cv` (workers) and `cv_not_full` (callers of `push`): the wait has
released `mtx`, and the Boolean says whether a notification marked the thread; a wait may also end without one.

`task_queue.push` and `task_queue.try_pop` are one step each (`threadsafe_queue` has locks of its own), and so is the
`fetch_sub` of `on_task_dequeued`, its conditional store of zero, and its `cv_not_full.notify_one`.

Ghost data: every `push` or `try_push` call makes a task with a fresh number; `accepted`, `executed` and `discarded`
record the tasks that entered the queue, ran, and were dropped by `clear_queue` or handed out by `pop_task`;
`stopCalls` counts the calls of `stop`. `waiting_thread_count` is only ever written and is left out.

Three things of the source are taken for granted here. A task returns: running it is one step. `threads` and
`stop_flags` stand for the workers throughout, since after `threads.clear()` all of them have returned and a later
`stop` has nobody to wait for. And no two calls of `stop` overlap, which would join and destroy the same `std::thread`
twice: the model has such runs, and says nothing about the source there.
-/

namespace HpServer
namespace ThreadPool

/-- The range of `std::size_t`. -/
def sizeRange : Nat := UInt64.size

/-- The pool's constructor arguments: the workers, in the order of `threads`, and the queue bound as passed. -/
structure Config (T : Type) where
  workers : List T
  maxQueueSize : Nat
  inRange : maxQueueSize < sizeRange

/-- `max_queue_size_`: a bound of zero is read as one. -/
def Config.limit {T : Type} (c : Config T) : Nat := if c.maxQueueSize = 0 then 1 else c.maxQueueSize

/-- The public operations a client may call. -/
inductive Op where
  | push
  | tryPush
  | popTask
  | clearQueue
  | stop (waitForTasks : Bool)
  deriving DecidableEq, Repr

/-- Where `clear_queue` was called from: by a client, or by `stop` before it takes `mtx` or after it has joined. -/
inductive ClearFrom where
  | client
  | stopFirst
  | stopLast
  deriving DecidableEq, Repr

/-- Who took a task out of the queue and so runs `on_task_dequeued`. -/
inductive Dequeuer where
  | worker
  | popTask
  | clear (f : ClearFrom)
  deriving DecidableEq, Repr

/-- The next atomic operation of a thread. -/
inductive Pc (T : Type) where
  -- a client between two calls
  | idle
  -- `push`
  | pushLock (k : Nat)
  | pushCount (k : Nat)
  | pushStopped (k : Nat)
  | pushDone (k : Nat)
  | pushSleep (k : Nat)
  | pushAsleep (k : Nat) (notified : Bool)
  | pushCheckStopped (k : Nat)
  | pushCheckDone (k : Nat)
  | pushThrow
  -- `try_push`
  | tryLock (k : Nat)
  | tryCount (k : Nat)
  | tryStopped (k : Nat)
  | tryDone (k : Nat)
  | tryRefuse
  -- The end both share
  | enqueue (k : Nat)
  | fetchAdd
  | notify
  | accept
  -- Taking a task out: `pop_task`, `clear_queue` and `on_task_dequeued`
  | popTask
  | clearPop (f : ClearFrom)
  | fetchSub (d : Dequeuer) (k : Nat)
  | storeZero (d : Dequeuer) (k : Nat)
  | notifyNotFull (d : Dequeuer) (k : Nat)
  -- The worker's loop
  | loopPop
  | runTask (k : Nat)
  | readFlag
  | workerLock
  | predPop
  | predDone
  | predFlag
  | workerSleep
  | workerAsleep (notified : Bool)
  | gotUnlock (k : Nat)
  | exitUnlock
  | exited
  -- `stop`
  | stopLoadDone
  | stopLoadStopped (waitForTasks : Bool)
  | stopStoreDone
  | stopStoreStopped
  | stopStoreFlags (rest : List T)
  | stopLock
  | stopNotifyAll
  | stopNotifyAllNotFull
  | stopUnlock
  | stopJoin (rest : List T)
  deriving DecidableEq, Repr

/-- The state the threads share: the mutex, the queue and its counter, the flags, which workers have returned, whether a
`stop` has joined them all, and the ghost records of the tasks. -/
structure Shared (T : Type) where
  mtx : Option T
  queue : List Nat
  queuedTaskCount : Nat
  isDone : Bool
  isStopped : Bool
  stopFlag : T → Bool
  returned : T → Bool
  joined : Bool
  stopCalls : Nat
  nextTask : Nat
  accepted : List Nat
  executed : List Nat
  discarded : List Nat

/-- A state of the pool: the shared state and every thread's program point. -/
structure State (T : Type) where
  shared : Shared T
  pc : T → Pc T

variable {T : Type} [DecidableEq T]

namespace Shared

/-- Take `mtx`, if it is free. -/
def lock (sh : Shared T) (t : T) (next : Pc T) : Option (Pc T × Shared T) :=
  if sh.mtx = none then some (next, { sh with mtx := some t }) else none

/-- Release `mtx`. -/
def unlock (sh : Shared T) (next : Pc T) : Option (Pc T × Shared T) := some (next, { sh with mtx := none })

/-- A load that only decides where the thread goes on. -/
def branch (sh : Shared T) (b : Prop) [Decidable b] (yes no : Pc T) : Option (Pc T × Shared T) :=
  if b then some (yes, sh) else some (no, sh)

/-- `task_queue.try_pop`: the oldest task goes to `got`, and an empty queue leads to `empty`. -/
def tryPop (sh : Shared T) (got : Nat → Pc T) (empty : Pc T) : Option (Pc T × Shared T) :=
  match sh.queue with
  | [] => some (empty, sh)
  | k :: rest => some (got k, { sh with queue := rest })

/-- Where a dequeuer goes on after `on_task_dequeued`: the worker runs the task, `pop_task` returns it, `clear_queue`
drops it and tries the next. -/
def afterDequeued (sh : Shared T) (k : Nat) : Dequeuer → Pc T × Shared T
  | .worker => (.runTask k, sh)
  | .popTask => (.idle, { sh with discarded := sh.discarded ++ [k] })
  | .clear f => (.clearPop f, { sh with discarded := sh.discarded ++ [k] })

/-- Where `clear_queue` goes on once the queue is empty. -/
def afterClear : ClearFrom → Pc T
  | .client => .idle
  | .stopFirst => .stopLock
  | .stopLast => .idle

/-- One atomic operation of thread `t` that concerns the shared state and its own program point. The two `notify_one`
calls and the two `notify_all` calls of `stop` also mark sleeping threads: `State.step` has them. -/
def step (c : Config T) (t : T) (sh : Shared T) : Pc T → Option (Pc T × Shared T)
  | .idle => none
  -- push: the predicate of cv_not_full.wait, evaluated with mtx held
  | .pushLock k => sh.lock t (.pushCount k)
  | .pushCount k => sh.branch (sh.queuedTaskCount < c.limit) (.pushCheckStopped k) (.pushStopped k)
  | .pushStopped k => sh.branch (sh.isStopped) (.pushCheckStopped k) (.pushDone k)
  | .pushDone k => sh.branch (sh.isDone) (.pushCheckStopped k) (.pushSleep k)
  | .pushSleep k => sh.unlock (.pushAsleep k false)
  | .pushAsleep k notified => if notified then sh.lock t (.pushCount k) else none
  | .pushCheckStopped k => sh.branch (sh.isStopped) .pushThrow (.pushCheckDone k)
  | .pushCheckDone k => sh.branch (sh.isDone) .pushThrow (.enqueue k)
  | .pushThrow => sh.unlock .idle
  -- try_push: the three loads of its admission check
  | .tryLock k => sh.lock t (.tryCount k)
  | .tryCount k => sh.branch (c.limit ≤ sh.queuedTaskCount) .tryRefuse (.tryStopped k)
  | .tryStopped k => sh.branch (sh.isStopped) .tryRefuse (.tryDone k)
  | .tryDone k => sh.branch (sh.isDone) .tryRefuse (.enqueue k)
  | .tryRefuse => sh.unlock .idle
  | .enqueue k => some (.fetchAdd, { sh with queue := sh.queue ++ [k], accepted := sh.accepted ++ [k] })
  | .fetchAdd => some (.notify, { sh with queuedTaskCount := (sh.queuedTaskCount + 1) % sizeRange })
  | .notify => none
  | .accept => sh.unlock .idle
  | .popTask => sh.tryPop (.fetchSub .popTask) .idle
  | .clearPop f => sh.tryPop (.fetchSub (.clear f)) (afterClear f)
  -- on_task_dequeued: fetch_sub answers the value before it
  | .fetchSub d k =>
    let sh' := { sh with queuedTaskCount := (sh.queuedTaskCount + (sizeRange - 1)) % sizeRange }
    sh'.branch (sh.queuedTaskCount = 0) (.storeZero d k) (.notifyNotFull d k)
  | .storeZero d k => some (.notifyNotFull d k, { sh with queuedTaskCount := 0 })
  | .notifyNotFull _ _ => none
  | .loopPop => sh.tryPop (.fetchSub .worker) .workerLock
  | .runTask k => some (.readFlag, { sh with executed := sh.executed ++ [k] })
  | .readFlag =>
    if sh.stopFlag t then some (.exited, { sh with returned := Function.update sh.returned t true })
    else some (.loopPop, sh)
  | .workerLock => sh.lock t .predPop
  -- the predicate of cv.wait pops a task itself, with mtx held
  | .predPop => sh.tryPop .gotUnlock .predDone
  | .predDone => sh.branch (sh.isDone) .exitUnlock .predFlag
  | .predFlag => sh.branch (sh.stopFlag t) .exitUnlock .workerSleep
  | .workerSleep => sh.unlock (.workerAsleep false)
  | .workerAsleep notified => if notified then sh.lock t .predPop else none
  | .gotUnlock k => sh.unlock (.fetchSub .worker k)
  | .exitUnlock => some (.exited, { sh with mtx := none, returned := Function.update sh.returned t true })
  | .exited => none
  | .stopLoadDone => sh.branch (sh.isDone) .idle (.stopLoadStopped true)
  | .stopLoadStopped true => sh.branch (sh.isStopped) .idle .stopStoreDone
  | .stopLoadStopped false => sh.branch (sh.isStopped) .idle .stopStoreStopped
  | .stopStoreDone => some (.stopLock, { sh with isDone := true })
  | .stopStoreStopped => some (.stopStoreFlags c.workers, { sh with isStopped := true })
  | .stopStoreFlags [] => some (.clearPop .stopFirst, sh)
  | .stopStoreFlags (w :: rest) =>
    some (.stopStoreFlags rest, { sh with stopFlag := Function.update sh.stopFlag w true })
  | .stopLock => sh.lock t .stopNotifyAll
  | .stopNotifyAll => none
  | .stopNotifyAllNotFull => none
  | .stopUnlock => sh.unlock (.stopJoin c.workers)
  | .stopJoin [] => some (.clearPop .stopLast, { sh with joined := true })
  | .stopJoin (w :: rest) => if sh.returned w then some (.stopJoin rest, sh) else none

end Shared

namespace Pc

/-- Asleep on `cv` with no notification pending. -/
def sleepsOnCv : Pc T → Bool
  | .workerAsleep false => true
  | _ => false

/-- Asleep on `cv_not_full` with no notification pending. -/
def sleepsOnNotFull : Pc T → Bool
  | .pushAsleep _ false => true
  | _ => false

/-- Mark a sleeping thread as notified. -/
def wake : Pc T → Pc T
  | .workerAsleep _ => .workerAsleep true
  | .pushAsleep k _ => .pushAsleep k true
  | p => p

/-- The first operation of a call; `push` and `try_push` carry the task they make. -/
def start (k : Nat) : Op → Pc T
  | .push => .pushLock k
  | .tryPush => .tryLock k
  | .popTask => .popTask
  | .clearQueue => .clearPop .client
  | .stop true => .stopLoadDone
  | .stop false => .stopLoadStopped false

end Pc

/-- The ghost records at the begin of a call: the next task's number is used up, and a call of `stop` is counted. -/
def Shared.begin (sh : Shared T) (op : Op) : Shared T :=
  { sh with
    nextTask := sh.nextTask + 1
    stopCalls := match op with
      | .stop _ => sh.stopCalls + 1
      | _ => sh.stopCalls }

/-- An action of the system: a client begins a call; a thread performs its next operation; a `notify_one` marks the waiter
named, or nobody when no one waits; a wait ends without a notification. -/
inductive Act (T : Type) where
  | call (t : T) (op : Op)
  | step (t : T)
  | notifyOne (t : T) (waiter : Option T)
  | spurious (t : T)
  deriving DecidableEq, Repr

namespace State

/-- `notify_one`, seen from the waiters: it marks one thread that sleeps unmarked, and nobody only when there is none. -/
def marks [Fintype T] (sleeps : Pc T → Bool) (pc : T → Pc T) : Option T → Option (T → Pc T)
  | some u => if sleeps (pc u) then some (Function.update pc u (pc u).wake) else none
  | none => if ∀ u, sleeps (pc u) = false then some pc else none

/-- `notify_all`: every thread that sleeps is marked. -/
def marksAll (sleeps : Pc T → Bool) (pc : T → Pc T) : T → Pc T :=
  fun u => if sleeps (pc u) then (pc u).wake else pc u

/-- The four notifications: which threads they mark, and where the caller goes on. -/
def notifyOne [Fintype T] (s : State T) (t : T) (waiter : Option T) : Option (State T) :=
  match s.pc t with
  | .notify => (marks Pc.sleepsOnCv s.pc waiter).map fun pc => { s with pc := Function.update pc t .accept }
  | .notifyNotFull d k =>
    (marks Pc.sleepsOnNotFull s.pc waiter).map fun pc =>
      { shared := (s.shared.afterDequeued k d).2, pc := Function.update pc t (s.shared.afterDequeued k d).1 }
  | _ => none

/-- A thread's own next operation. -/
def stepThread (c : Config T) (s : State T) (t : T) : Option (State T) :=
  match s.pc t with
  | .stopNotifyAll =>
    some { s with pc := Function.update (marksAll Pc.sleepsOnCv s.pc) t .stopNotifyAllNotFull }
  | .stopNotifyAllNotFull =>
    some { s with pc := Function.update (marksAll Pc.sleepsOnNotFull s.pc) t .stopUnlock }
  | p => (s.shared.step c t p).map fun r => { shared := r.2, pc := Function.update s.pc t r.1 }

/-- One step of the pool. -/
def step [Fintype T] (c : Config T) (s : State T) : Act T → Option (State T)
  | .call t op =>
    if s.pc t = .idle ∧ t ∉ c.workers then
      some { shared := s.shared.begin op, pc := Function.update s.pc t (.start s.shared.nextTask op) }
    else none
  | .step t => s.stepThread c t
  | .notifyOne t waiter => s.notifyOne t waiter
  | .spurious t => if (s.pc t).sleepsOnCv ∨ (s.pc t).sleepsOnNotFull then
      some { s with pc := Function.update s.pc t (s.pc t).wake } else none

end State

/-- The state the constructor leaves: nothing queued, no flag set, every worker at the first operation of its loop. -/
def initState (c : Config T) : State T where
  shared :=
    { mtx := none, queue := [], queuedTaskCount := 0, isDone := false, isStopped := false, stopFlag := fun _ => false
      returned := fun _ => false, joined := false, stopCalls := 0, nextTask := 0, accepted := [], executed :=
        [], discarded := [] }
  pc := fun t => if t ∈ c.workers then .loopPop else .idle

/-- The pool as a transition system. -/
def system [Fintype T] (c : Config T) : Lts (State T) (Act T) where
  init := fun s => s = initState c
  step := State.step c

end ThreadPool
end HpServer
