import Mathlib.Data.List.Basic

/-!
# The ring buffer (`src/util/ring_buffer.h`)

The queue of log lines: a vector with one slot more than the capacity, the slot `head_` of the oldest element and the
slot `tail_` that is written next. `size_t` arithmetic is modulo 2^64. The two overloads of `push` do the same to the
buffer. A call holds the mutex of its side and reads each index once, so calls that come one after another are
functions of the buffer.
-/

namespace HpServer

/-- `ring_buffer`. -/
structure RingBuffer (α : Type*) where
  capacity : Nat
  data : List α
  head : Nat
  tail : Nat

namespace RingBuffer

variable {α : Type*}

/-- The constructor. The elements of the vector are value-initialised. -/
def new [Inhabited α] (capacity : Nat) : RingBuffer α :=
  { capacity := capacity, data := List.replicate ((capacity + 1) % UInt64.size) default, head := 0, tail := 0 }

/-- The slot after a slot. -/
def next (b : RingBuffer α) (slot : Nat) : Nat := (slot + 1) % UInt64.size % b.data.length

/-- `push`. -/
def push (b : RingBuffer α) (item : α) : RingBuffer α × Bool :=
  if b.next b.tail = b.head then (b, false)
  else ({ b with data := b.data.set b.tail item, tail := b.next b.tail }, true)

/-- `pop`. The slot keeps what a move leaves of its element. -/
def pop [Inhabited α] (moved : α → α) (b : RingBuffer α) : RingBuffer α × Option α :=
  if b.head = b.tail then (b, none)
  else
    let item := b.data.getD b.head default
    ({ b with data := b.data.set b.head (moved item), head := b.next b.head }, some item)

/-- `empty`. -/
def empty (b : RingBuffer α) : Bool := b.head = b.tail

/-- `size`. -/
def size (b : RingBuffer α) : Nat :=
  if b.head ≤ b.tail then b.tail - b.head
  else (b.data.length + UInt64.size - (b.head - b.tail)) % UInt64.size

end RingBuffer
end HpServer
