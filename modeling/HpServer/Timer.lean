import Mathlib.Data.List.AList
import HpServer.Basic

/-!
# The timer (`src/util/timer.h`)

Deadlines by id, with a heap of nodes that may be stale: `add` and `adjust` push a node with a new version and leave
the old one in the heap. The heap is a list of nodes in no particular order; which of the nodes with the least
deadline `heap_.top()` gives is not fixed (`IsTop`), so the operations that look at the top take it as an argument.
Times are in nanoseconds, as the steady clock counts them; the callback is a parameter.
-/

namespace HpServer

/-- `timer::entry`. -/
structure Timer.Entry (κ : Type) where
  expiresAt : Int
  callback : κ
  version : Nat
  deriving DecidableEq

/-- `timer::node`. -/
structure Timer.Node where
  id : Int
  expiresAt : Int
  version : Nat
  deriving DecidableEq

/-- `entries_` and `heap_`. -/
structure Timer (κ : Type) where
  entries : AList fun _ : Int => Timer.Entry κ
  heap : List Timer.Node

namespace Timer

/-- `kCompactMinHeapSize`. -/
def kCompactMinHeapSize : Nat := 4096

/-- `kCompactRatioThreshold`. -/
def kCompactRatioThreshold : Nat := 4

/-- `std::chrono::milliseconds` in the clock's ticks. -/
def milliseconds (ms : Int) : Int := ms * 1000000

variable {κ : Type}

/-- A timer without entries. -/
def empty : Timer κ := ⟨∅, []⟩

/-- The node an entry would have if it were pushed now. -/
def nodeOf (x : Sigma fun _ : Int => Entry κ) : Node := ⟨x.1, x.2.expiresAt, x.2.version⟩

/-- `maybe_compact_heap`: a heap much larger than the entries is built anew from them. -/
def maybeCompactHeap (t : Timer κ) : Timer κ :=
  if t.heap.length < kCompactMinHeapSize then t
  else if t.entries.entries.length = 0 then { t with heap := [] }
  else if t.heap.length ≤ t.entries.entries.length * kCompactRatioThreshold then t
  else { t with heap := t.entries.entries.map nodeOf }

/-- Give an id a deadline and push its node. -/
def arm (t : Timer κ) (id : Int) (expire : Int) (callback : κ) (version : Nat) : Timer κ :=
  let e : Entry κ := ⟨expire, callback, version⟩
  maybeCompactHeap { entries := t.entries.insert id e, heap := ⟨id, expire, version⟩ :: t.heap }

/-- The version after the one an id has; a new entry begins at zero. -/
def nextVersion (t : Timer κ) (id : Int) : Nat := (((t.entries.lookup id).elim 0 Entry.version) + 1) % UInt64.size

/-- `add`. -/
def add (t : Timer κ) (now : Int) (id : Int) (timeoutMs : Int) (callback : κ) : Timer κ :=
  if id < 0 then t else t.arm id (now + milliseconds timeoutMs) callback (t.nextVersion id)

/-- `adjust`. -/
def adjust (t : Timer κ) (now : Int) (id : Int) (timeoutMs : Int) : Timer κ :=
  match t.entries.lookup id with
  | none => t
  | some e => t.arm id (now + milliseconds timeoutMs) e.callback (t.nextVersion id)

/-- `remove`. -/
def remove (t : Timer κ) (id : Int) : Timer κ := maybeCompactHeap { t with entries := t.entries.erase id }

/-- `contains`. -/
def contains (t : Timer κ) (id : Int) : Bool := (t.entries.lookup id).isSome

/-- `n` is a node that `heap_.top()` may give. -/
def IsTop (t : Timer κ) (n : Node) : Prop := n ∈ t.heap ∧ ∀ m ∈ t.heap, n.expiresAt ≤ m.expiresAt

instance (t : Timer κ) (n : Node) : Decidable (t.IsTop n) := inferInstanceAs (Decidable (_ ∧ _))

/-- `heap_.pop()` when the top is `n`. -/
def pop (t : Timer κ) (n : Node) : Timer κ := { t with heap := t.heap.erase n }

/-- The node stands for its id's present deadline. -/
def live (t : Timer κ) (n : Node) : Bool :=
  match t.entries.lookup n.id with
  | none => false
  | some e => e.version = n.version && e.expiresAt = n.expiresAt

/-- What `tick` does with the top of the heap: a stale node is dropped, a deadline in the future ends the loop, and
one that has passed is taken out, with its callback to be called. -/
inductive TickStep (κ : Type) where
  | dropped (t : Timer κ)
  | stopped
  | fired (t : Timer κ) (callback : κ)

/-- One turn of the loop of `tick`, with `discard_stale_top` in it, for the top `n`. -/
def tickTop (t : Timer κ) (now : Int) (n : Node) : TickStep κ :=
  if t.live n = false then .dropped (t.pop n)
  else if now < n.expiresAt then .stopped
  else
    match t.entries.lookup n.id with
    | none => .dropped (t.pop n)
    | some e => .fired ({ t with entries := t.entries.erase n.id }.pop n) e.callback

/-- `get_next_timeout_ms` once its `tick` and `discard_stale_top` have left the top `n`, or an empty heap. -/
def nextTimeoutMs (now : Int) : Option Node → Int
  | none => -1
  | some n => max 0 ((n.expiresAt - now).tdiv 1000000)

/-! ## What the operations do to the entries -/

@[simp] theorem entries_maybeCompactHeap (t : Timer κ) : t.maybeCompactHeap.entries = t.entries := by
  unfold maybeCompactHeap
  repeat' split
  all_goals rfl

theorem lookup_arm (t : Timer κ) (id expire : Int) (callback : κ) (version : Nat) (i : Int) :
    (t.arm id expire callback version).entries.lookup i =
      if i = id then some ⟨expire, callback, version⟩ else t.entries.lookup i := by
  unfold arm
  rw [entries_maybeCompactHeap]
  by_cases hi : i = id
  · subst hi
    simp
  · simp [hi]

theorem lookup_add {t : Timer κ} {now id : Int} {timeoutMs : Int} {callback : κ} (h : 0 ≤ id) (i : Int) :
    (t.add now id timeoutMs callback).entries.lookup i =
      if i = id then some ⟨now + milliseconds timeoutMs, callback, t.nextVersion id⟩ else t.entries.lookup i := by
  rw [add, if_neg (by omega), lookup_arm]

theorem lookup_remove (t : Timer κ) (id i : Int) :
    (t.remove id).entries.lookup i = if i = id then none else t.entries.lookup i := by
  unfold remove
  rw [entries_maybeCompactHeap]
  by_cases hi : i = id
  · subst hi
    simp
  · simp [hi]

/-- `adjust` keeps the callback of an entry, and changes no other. -/
theorem lookup_adjust {t : Timer κ} {now id timeoutMs : Int} {e : Entry κ} (he : t.entries.lookup id = some e) (i : Int) :
    (t.adjust now id timeoutMs).entries.lookup i =
      if i = id then some ⟨now + milliseconds timeoutMs, e.callback, t.nextVersion id⟩ else t.entries.lookup i := by
  rw [adjust, he]
  exact lookup_arm ..

/-- Dropping a stale node touches no entry. -/
theorem entries_of_dropped {t t' : Timer κ} {now : Int} {n : Node} (h : t.tickTop now n = .dropped t') :
    t'.entries = t.entries := by
  unfold tickTop at h
  repeat' split at h
  all_goals cases h
  all_goals rfl

/-- A callback is called for an entry whose deadline has passed, and the entry is taken out. -/
theorem entries_of_fired {t t' : Timer κ} {now : Int} {n : Node} {callback : κ}
    (h : t.tickTop now n = .fired t' callback) :
    n.expiresAt ≤ now ∧ t'.entries = t.entries.erase n.id ∧ ∃ e, t.entries.lookup n.id = some e ∧
      e.callback = callback := by
  unfold tickTop at h
  repeat' split at h
  all_goals cases h
  rename_i hdue e he
  exact ⟨by omega, rfl, e, he, rfl⟩

end Timer
end HpServer
