import Mathlib.Data.Fintype.Basic
import HpServer.Lib.Lts

/-!
# The queue with two locks (`src/util/threadsafe_queue.h`)

A linked list with a node in reserve at its end: `head` owns the first node, `tail` points to the last, which holds no
value yet. `push` works at the tail under `tail_mtx`, the pops work at the head under `head_mtx`, and each pop asks
for the tail once, under both. As in the model of the pool, a thread's program point names the next atomic operation
it performs, and any thread may call any operation.

Memory is a partial map of addresses, so that a node can be absent, made, moved out of the list and destroyed; an
operation on a node that is not there, or on a pointer that is null, has no successor. `Pc.waitAsleep` is the wait on
`data_cond`: `head_mtx` is released, the Boolean says whether a notification marked the thread, and a wait may also
end without one.

Ghost data: `pushed` are the values in the order in which `tail` moved past them, `popped` those whose node was moved
out, in that order. A thread that has read `tail` keeps the values that were in the queue when it did.
-/

namespace HpServer
namespace ThreadsafeQueue

/-- `node`: either pointer may be null. What `data` points to stays when a pop has moved it from there, and nobody
reads it again. -/
structure Node (α : Type) where
  data : Option α
  next : Option Nat

/-- The calls that compare `head` with the tail. -/
inductive Caller where
  | tryPop
  | waitPop
  | empty
  deriving DecidableEq, Repr

/-- The public operations. -/
inductive Op (α : Type) where
  | push (v : α)
  | look (c : Caller)

/-- The next atomic operation of a thread. -/
inductive Pc (α : Type) where
  -- a thread between two calls
  | idle
  -- `push`, with the value and, once it is made, the new node
  | pushMake (v : α)
  | pushLock (v : α) (a : Nat)
  | pushData (v : α) (a : Nat)
  | pushNext (v : α) (a : Nat)
  | pushTail (v : α) (a : Nat)
  | pushUnlock
  | pushNotify
  -- `head_mtx`, then `get_tail`, and what it answered
  | headLock (c : Caller)
  | tailLock (c : Caller)
  | tailRead (c : Caller)
  | tailUnlock (c : Caller) (seen : Nat) (held : List α)
  -- Taking the first value: it is moved out, its node is moved out, and the node is destroyed when `head_mtx` is released
  | popData (c : Caller)
  | popHead (c : Caller) (v : α)
  | popUnlock (c : Caller) (a : Nat)
  | popFree (c : Caller) (a : Nat)
  -- The queue looked empty, or `empty` has its answer
  | tryRefuse (held : List α)
  | emptyUnlock (answer : Bool)
  | waitSleep
  | waitAsleep (notified : Bool)

/-- The list, and the ghost records. -/
structure Chain (α : Type) where
  mem : Nat → Option (Node α)
  head : Option Nat
  tail : Nat
  pushed : List α
  popped : List α

/-- The values in the queue. -/
def Chain.contents {α : Type} (c : Chain α) : List α := c.pushed.drop c.popped.length

/-- The memory with another node, or none, at an address. -/
def Chain.store {α : Type} (c : Chain α) (a : Nat) (n : Option (Node α)) : Chain α :=
  { c with mem := Function.update c.mem a n }

/-- What the threads share: the list and the two mutexes. -/
structure Shared (T α : Type) extends Chain α where
  headMtx : Option T
  tailMtx : Option T

/-- A state: what is shared, and every thread's program point. -/
structure State (T α : Type) where
  shared : Shared T α
  pc : T → Pc α

variable {T α : Type} [DecidableEq T]

/-- Where a call goes on when `head` is the tail it read. -/
def Caller.onEmpty (held : List α) : Caller → Pc α
  | .tryPop => .tryRefuse held
  | .waitPop => .waitSleep
  | .empty => .emptyUnlock true

/-- Where a call goes on when `head` is not the tail it read. -/
def Caller.onData : Caller → Pc α
  | .tryPop => .popData .tryPop
  | .waitPop => .popData .waitPop
  | .empty => .emptyUnlock false

/-- The first operation of a call. -/
def Pc.start : Op α → Pc α
  | .push v => .pushMake v
  | .look c => .headLock c

namespace Shared

/-- Take `head_mtx`, if it is free. -/
def lockHead (sh : Shared T α) (t : T) (next : Pc α) : Option (Pc α × Shared T α) :=
  if sh.headMtx = none then some (next, { sh with headMtx := some t }) else none

/-- Take `tail_mtx`, if it is free. -/
def lockTail (sh : Shared T α) (t : T) (next : Pc α) : Option (Pc α × Shared T α) :=
  if sh.tailMtx = none then some (next, { sh with tailMtx := some t }) else none

/-- The memory with another node, or none, at an address. -/
def store (sh : Shared T α) (a : Nat) (n : Option (Node α)) : Shared T α := { sh with toChain := sh.toChain.store a n }

/-- One atomic operation of thread `t` that concerns what is shared and its own program point. The making of a node
and `notify_one` need a choice: `State.step` has them. -/
def step (t : T) (sh : Shared T α) : Pc α → Option (Pc α × Shared T α)
  | .idle => none
  | .pushMake _ => none
  | .pushLock v a => sh.lockTail t (.pushData v a)
  | .pushData v a => (sh.mem sh.tail).map fun n => (.pushNext v a, sh.store sh.tail (some { n with data := some v }))
  | .pushNext v a => (sh.mem sh.tail).map fun n => (.pushTail v a, sh.store sh.tail (some { n with next := some a }))
  | .pushTail v a => some (.pushUnlock, { sh with tail := a, pushed := sh.pushed ++ [v] })
  | .pushUnlock => some (.pushNotify, { sh with tailMtx := none })
  | .pushNotify => none
  | .headLock c => sh.lockHead t (.tailLock c)
  | .tailLock c => sh.lockTail t (.tailRead c)
  | .tailRead c => some (.tailUnlock c sh.tail sh.contents, sh)
  | .tailUnlock c seen held =>
    some (if sh.head = some seen then c.onEmpty held else c.onData, { sh with tailMtx := none })
  | .popData c => do
    let n ← sh.mem (← sh.head)
    let v ← n.data
    return (.popHead c v, sh)
  -- pop_head: the node leaves head, and its next becomes the head
  | .popHead c v => do
    let a ← sh.head
    let n ← sh.mem a
    return (.popUnlock c a, { sh.store a (some { n with next := none }) with head := n.next, popped := sh.popped ++ [v] })
  | .popUnlock c a => some (.popFree c a, { sh with headMtx := none })
  | .popFree _ a => some (.idle, sh.store a none)
  | .tryRefuse _ => some (.idle, { sh with headMtx := none })
  | .emptyUnlock _ => some (.idle, { sh with headMtx := none })
  | .waitSleep => some (.waitAsleep false, { sh with headMtx := none })
  | .waitAsleep notified => if notified then sh.lockHead t (.tailLock .waitPop) else none

end Shared

namespace Pc

/-- Asleep on `data_cond` with no notification pending. -/
def asleep : Pc α → Bool
  | .waitAsleep false => true
  | _ => false

end Pc

/-- An action of the system: a thread begins a call; a thread performs its next operation; `make_unique<node>` finds
free memory at an address; `notify_one` marks the waiter named, or nobody when no one waits; a wait ends without a
notification. -/
inductive Act (T α : Type) where
  | call (t : T) (op : Op α)
  | step (t : T)
  | make (t : T) (a : Nat)
  | notifyOne (t : T) (waiter : Option T)
  | spurious (t : T)

namespace State

/-- The move of one thread. -/
def move (s : State T α) (t : T) (r : Pc α × Shared T α) : State T α :=
  { shared := r.2, pc := Function.update s.pc t r.1 }

/-- `notify_one`, seen from the waiters: it marks one thread that sleeps unmarked, and nobody only when there is none. -/
def marks [Fintype T] (pc : T → Pc α) : Option T → Option (T → Pc α)
  | some u => if (pc u).asleep then some (Function.update pc u (.waitAsleep true)) else none
  | none => if ∀ u, (pc u).asleep = false then some pc else none

/-- One step of the queue. -/
def step [Fintype T] (s : State T α) : Act T α → Option (State T α)
  | .call t op =>
    match s.pc t with
    | .idle => some (s.move t (.start op, s.shared))
    | _ => none
  | .step t => (s.shared.step t (s.pc t)).map (s.move t)
  | .make t a =>
    match s.pc t, s.shared.mem a with
    | .pushMake v, none => some (s.move t (.pushLock v a, s.shared.store a (some ⟨none, none⟩)))
    | _, _ => none
  | .notifyOne t waiter =>
    match s.pc t with
    | .pushNotify => (marks s.pc waiter).map fun pc => { s with pc := Function.update pc t .idle }
    | _ => none
  | .spurious t => if (s.pc t).asleep then some (s.move t (.waitAsleep true, s.shared)) else none

end State

/-- The constructor: one node, the reserve, is head and tail; it is at the first address. -/
def initState : State T α where
  shared :=
    { mem := fun a => if a = 0 then some ⟨none, none⟩ else none, head := some 0, tail := 0, headMtx := none,
      tailMtx := none
      pushed := [], popped := [] }
  pc := fun _ => .idle

/-- The queue as a transition system. -/
def system (T α : Type) [DecidableEq T] [Fintype T] : Lts (State T α) (Act T α) where
  init := fun s => s = initState
  step := State.step

end ThreadsafeQueue
end HpServer
