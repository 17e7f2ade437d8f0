import HpServer.Lib.Lts
import HpServer.RingBuffer
import Mathlib.Logic.Function.Basic

/-!
# The ring buffer with its threads (`src/util/ring_buffer.h`)

`RingBuffer` has the calls as functions; here they are what threads do to it one atomic operation at a time. A `push`
holds `tail_mutex_`, a `pop` holds `head_mutex_`, and nobody holds both: each side reads the index of the other while
the other may move it. `empty` and `size` hold neither. A thread's program point names its next operation; the
operands of `==` are read from left to right.

Ghost data: `items` are the elements between the two indices as the calls see them. A `push` adds one when it stores
`tail_`, and a `pop` takes one when it stores `head_`; in between the slot is already written, or already moved from.
-/

namespace HpServer
namespace RingThreads

/-- The public operations. -/
inductive Op (α : Type) where
  | push (item : α)
  | pop
  | empty
  | size

/-- The next atomic operation of a thread. -/
inductive Pc (α : Type) where
  -- a thread between two calls
  | idle
  -- `push`, with the index after `tail_` once it is computed
  | pushLock (item : α)
  | pushIndex (item : α)
  | pushHead (item : α) (nextTail : Nat)
  | pushWrite (item : α) (nextTail : Nat)
  | pushStore (item : α) (nextTail : Nat)
  | pushUnlock (ok : Bool)
  -- `pop`, with what it has loaded of `head_` and the element it has moved out
  | popLock
  | popHead
  | popTail (head : Nat)
  | popIndex
  | popTake (currentHead : Nat)
  | popStore (currentHead : Nat) (item : α)
  | popUnlock (item : Option α)
  -- `empty` and `size`, with `head_` once it is loaded
  | emptyHead
  | emptyTail (head : Nat)
  | sizeHead
  | sizeTail (head : Nat)

/-- What the threads share: the buffer, the ghost record of its elements, and the two mutexes. -/
structure Shared (T α : Type) where
  ring : RingBuffer α
  items : List α
  headMtx : Option T
  tailMtx : Option T

/-- A state: what is shared, and every thread's program point. -/
structure State (T α : Type) where
  shared : Shared T α
  pc : T → Pc α

/-- The first operation of a call. -/
def Pc.start {α : Type} : Op α → Pc α
  | .push item => .pushLock item
  | .pop => .popLock
  | .empty => .emptyHead
  | .size => .sizeHead

/-- What `empty` answers, with the `head_` it has loaded. -/
def answerEmpty {α : Type} (b : RingBuffer α) (head : Nat) : Bool := ({ b with head := head } : RingBuffer α).empty

/-- What `size` answers, with the `head_` it has loaded. -/
def answerSize {α : Type} (b : RingBuffer α) (head : Nat) : Nat := ({ b with head := head } : RingBuffer α).size

variable {T α : Type} [DecidableEq T] [Inhabited α]

/-- One atomic operation of thread `t`; `moved` is what a move leaves of an element. -/
def Shared.step (moved : α → α) (t : T) (sh : Shared T α) : Pc α → Option (Pc α × Shared T α)
  | .idle => none
  | .pushLock item => if sh.tailMtx = none then some (.pushIndex item, { sh with tailMtx := some t }) else none
  | .pushIndex item => some (.pushHead item (sh.ring.next sh.ring.tail), sh)
  | .pushHead item nextTail => some (if nextTail = sh.ring.head then .pushUnlock false else .pushWrite item nextTail, sh)
  | .pushWrite item nextTail =>
    some (.pushStore item nextTail, { sh with ring := { sh.ring with data := sh.ring.data.set sh.ring.tail item } })
  | .pushStore item nextTail =>
    some (.pushUnlock true, { sh with ring := { sh.ring with tail := nextTail }, items := sh.items ++ [item] })
  | .pushUnlock _ => some (.idle, { sh with tailMtx := none })
  | .popLock => if sh.headMtx = none then some (.popHead, { sh with headMtx := some t }) else none
  | .popHead => some (.popTail sh.ring.head, sh)
  | .popTail head => some (if head = sh.ring.tail then .popUnlock none else .popIndex, sh)
  | .popIndex => some (.popTake sh.ring.head, sh)
  | .popTake currentHead =>
    let item := sh.ring.data.getD currentHead default
    some (.popStore currentHead item,
      { sh with ring := { sh.ring with data := sh.ring.data.set currentHead (moved item) } })
  | .popStore currentHead item =>
    some (.popUnlock (some item),
      { sh with ring := { sh.ring with head := sh.ring.next currentHead }, items := sh.items.tail })
  | .popUnlock _ => some (.idle, { sh with headMtx := none })
  | .emptyHead => some (.emptyTail sh.ring.head, sh)
  | .emptyTail _ => some (.idle, sh)
  | .sizeHead => some (.sizeTail sh.ring.head, sh)
  | .sizeTail _ => some (.idle, sh)

/-- An action of the system: a thread begins a call, or performs its next operation. -/
inductive Act (T α : Type) where
  | call (t : T) (op : Op α)
  | step (t : T)

/-- The move of one thread. -/
def State.move (s : State T α) (t : T) (r : Pc α × Shared T α) : State T α :=
  { shared := r.2, pc := Function.update s.pc t r.1 }

/-- One step of the buffer and its threads. -/
def State.step (moved : α → α) (s : State T α) : Act T α → Option (State T α)
  | .call t op =>
    match s.pc t with
    | .idle => some (s.move t (.start op, s.shared))
    | _ => none
  | .step t => (s.shared.step moved t (s.pc t)).map (s.move t)

/-- The constructor. -/
def initState (capacity : Nat) : State T α where
  shared := { ring := .new capacity, items := [], headMtx := none, tailMtx := none }
  pc := fun _ => .idle

/-- The buffer with its threads as a transition system. -/
def system (T : Type) [DecidableEq T] (moved : α → α) (capacity : Nat) : Lts (State T α) (Act T α) where
  init := fun s => s = initState capacity
  step := State.step moved

end RingThreads
end HpServer
