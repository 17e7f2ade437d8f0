import HpServer.Lib.Fifo
import HpServer.RingBuffer

/-!
# The ring buffer is a bounded queue

What the buffer holds is the window of its slots from `head_` on, as long as `size()` says (`contents`). One slot
stays free, so that `head_` and `tail_` meet only in an empty buffer; with this `push` and `pop` do to the window what
they do to a list of at most `capacity` elements.
-/

namespace HpServer
namespace RingBuffer

variable {α : Type*}

/-- What the buffer holds, the oldest element first. -/
def contents (b : RingBuffer α) : List α := Fifo.window b.data b.head b.size

/-- A buffer of the capacity: one slot stays free, and the two indices are slots. -/
structure Valid (capacity : Nat) (b : RingBuffer α) : Prop where
  range : capacity + 1 < UInt64.size
  slots : b.data.length = capacity + 1
  head : b.head < capacity + 1
  tail : b.tail < capacity + 1

/-! ## Indices -/

/-- `next` is the successor round the slots. -/
theorem Valid.next_eq {capacity : Nat} {b : RingBuffer α} (h : b.Valid capacity) {slot : Nat}
    (hslot : slot < capacity + 1) :
    b.next slot = (slot + 1) % (capacity + 1) := by
  have hrange := h.range
  rw [next, h.slots, Nat.mod_eq_of_lt (show slot + 1 < UInt64.size by omega)]

/-- `next` is a slot. -/
theorem Valid.next_lt {capacity : Nat} {b : RingBuffer α} (h : b.Valid capacity) (slot : Nat) :
    b.next slot < capacity + 1 := by
  rw [next, h.slots]
  exact Nat.mod_lt _ (Nat.succ_pos capacity)

/-- `size()` without the wrap-around of `size_t`. -/
theorem Valid.size_eq {capacity : Nat} {b : RingBuffer α} (h : b.Valid capacity) :
    b.size = if b.head ≤ b.tail then b.tail - b.head else capacity + 1 - (b.head - b.tail) := by
  have hrange := h.range
  have hhead := h.head
  rw [size, h.slots]
  split
  · rfl
  · have heq : capacity + 1 + UInt64.size - (b.head - b.tail) = capacity + 1 - (b.head - b.tail) + UInt64.size := by omega
    rw [heq, Nat.add_mod_right, Nat.mod_eq_of_lt (by omega)]

/-- One slot is always free. -/
theorem Valid.size_le {capacity : Nat} {b : RingBuffer α} (h : b.Valid capacity) : b.size ≤ capacity := by
  have hhead := h.head
  have htail := h.tail
  rw [h.size_eq]
  split <;> omega

/-- The slot that is written next is the one behind the window. -/
theorem Valid.tail_eq {capacity : Nat} {b : RingBuffer α} (h : b.Valid capacity) : (b.size + b.head) %
    (capacity + 1) = b.tail := by
  have hhead := h.head
  have htail := h.tail
  rw [h.size_eq]
  split
  · rw [Nat.mod_eq_of_lt (by omega)]
    omega
  · have heq : capacity + 1 - (b.head - b.tail) + b.head = b.tail + (capacity + 1) := by omega
    rw [heq, Nat.add_mod_right, Nat.mod_eq_of_lt htail]

/-- Two buffers whose windows end at the same slot hold as many elements if they begin at the same slot. -/
theorem Valid.size_eq_of_mod {capacity : Nat} {b : RingBuffer α} (h : b.Valid capacity) {n : Nat} (hn : n ≤ capacity)
    (htail : (n + b.head) % (capacity + 1) = b.tail) : b.size = n :=
  Fifo.place_inj (Nat.lt_succ_of_le h.size_le) (Nat.lt_succ_of_le hn) (h.tail_eq.trans htail.symm)

/-- `size` is the number of items. -/
theorem Valid.length_contents {capacity : Nat} {b : RingBuffer α} (h : b.Valid capacity) :
    b.contents.length = b.size := by
  have hsize := h.size_le
  have hslots := h.slots
  exact Fifo.length_window (by omega) _

/-- The indices meet only in an empty buffer. -/
theorem Valid.head_eq_tail_iff {capacity : Nat} {b : RingBuffer α} (h : b.Valid capacity) :
    b.head = b.tail ↔ b.contents = [] := by
  rw [← List.length_eq_zero_iff, h.length_contents]
  constructor
  · intro heq
    exact h.size_eq_of_mod (Nat.zero_le _) (by rw [Nat.zero_add, Nat.mod_eq_of_lt h.head, heq])
  · intro hzero
    have htail := h.tail_eq
    rwa [hzero, Nat.zero_add, Nat.mod_eq_of_lt h.head] at htail

/-- The next slot is `head_` only in a full buffer. -/
theorem Valid.next_tail_eq_head_iff {capacity : Nat} {b : RingBuffer α} (h : b.Valid capacity) :
    b.next b.tail = b.head ↔ b.contents.length = capacity := by
  have hnext : b.next b.tail = (b.size + 1 + b.head) % (capacity + 1) := by
    rw [h.next_eq h.tail, ← h.tail_eq, Nat.mod_add_mod, Nat.add_right_comm]
  rw [h.length_contents, hnext]
  constructor
  · intro heq
    by_contra hne
    have hsize := h.size_le
    have hzero : (b.size + 1 + b.head) % (capacity + 1) = (0 + b.head) % (capacity + 1) := by
      rw [heq, Nat.zero_add, Nat.mod_eq_of_lt h.head]
    have := Fifo.place_inj (by omega) (Nat.succ_pos capacity) hzero
    omega
  · intro hfull
    rw [hfull, Nat.add_mod_left, Nat.mod_eq_of_lt h.head]

/-! ## The operations -/

section

variable [Inhabited α]

/-- A new buffer is valid. -/
theorem valid_new {capacity : Nat} (hcapacity : capacity + 1 < UInt64.size) :
    (new capacity : RingBuffer α).Valid capacity where
  range := hcapacity
  slots := by rw [new, List.length_replicate, Nat.mod_eq_of_lt hcapacity]
  head := Nat.succ_pos capacity
  tail := Nat.succ_pos capacity

theorem contents_new (capacity : Nat) : (new capacity : RingBuffer α).contents = [] := rfl

omit [Inhabited α] in
/-- With room, `push` appends the item. -/
theorem Valid.push_of_room {capacity : Nat} {b : RingBuffer α} (h : b.Valid capacity)
    (hroom : b.contents.length < capacity) (item : α) :
    (b.push item).1.Valid capacity ∧ (b.push item).1.contents = b.contents ++ [item] ∧ (b.push item).2 = true := by
  have hne : b.next b.tail ≠ b.head := by
    intro heq
    have := h.next_tail_eq_head_iff.mp heq
    omega
  rw [push, if_neg hne]
  have hvalid : Valid capacity { b with data := b.data.set b.tail item, tail := b.next b.tail } :=
    ⟨h.range, by rw [List.length_set, h.slots], h.head, h.next_lt _⟩
  refine ⟨hvalid, ?_, rfl⟩
  rw [h.length_contents] at hroom
  have hsize : size { b with data := b.data.set b.tail item, tail := b.next b.tail } = b.size + 1 := by
    refine hvalid.size_eq_of_mod hroom ?_
    rw [h.next_eq h.tail, ← h.tail_eq, Nat.mod_add_mod, Nat.add_right_comm]
  have hslots : b.size < b.data.length := by
    rw [h.slots]
    omega
  have htail : b.tail = (b.size + b.head) % b.data.length := by rw [h.slots, h.tail_eq]
  rw [contents, hsize, contents, ← Fifo.window_concat hslots b.head item, ← htail]

omit [Inhabited α] in
/-- Without room, `push` changes nothing. -/
theorem Valid.push_of_full {capacity : Nat} {b : RingBuffer α} (h : b.Valid capacity)
    (hfull : ¬b.contents.length < capacity) (item : α) :
    b.push item = (b, false) := by
  have hle := h.size_le
  rw [← h.length_contents] at hle
  rw [push, if_pos (h.next_tail_eq_head_iff.mpr (by omega))]

/-- If there is nothing, `pop` changes nothing. -/
theorem Valid.pop_of_empty {capacity : Nat} {b : RingBuffer α} (h : b.Valid capacity) (hempty : b.contents = [])
    (moved : α → α) :
    b.pop moved = (b, none) := by
  rw [pop, if_pos (h.head_eq_tail_iff.mpr hempty)]

/-- Otherwise `pop` takes the first item. -/
theorem Valid.pop_of_ne_nil {capacity : Nat} {b : RingBuffer α} (h : b.Valid capacity) (hne : b.contents ≠ [])
    (moved : α → α) :
    (b.pop moved).1.Valid capacity ∧ ∃ item, b.contents = item :: (b.pop moved).1.contents ∧
      (b.pop moved).2 = some item := by
  have hsize := h.size_le
  have hslots := h.slots
  have hhead := h.head
  obtain ⟨n, hn⟩ : ∃ n, b.size = n + 1 := by
    refine Nat.exists_eq_succ_of_ne_zero ?_
    rwa [← h.length_contents, Ne, List.length_eq_zero_iff]
  rw [pop, if_neg (mt h.head_eq_tail_iff.mp hne)]
  generalize hitem : b.data.getD b.head default = item
  have hvalid : Valid capacity { b with data := b.data.set b.head (moved item), head := b.next b.head } :=
    ⟨h.range, by rw [List.length_set, h.slots], h.next_lt _, h.tail⟩
  refine ⟨hvalid, item, ?_, rfl⟩
  have hsize' : size { b with data := b.data.set b.head (moved item), head := b.next b.head } = n := by
    refine hvalid.size_eq_of_mod (by omega) ?_
    have htail := h.tail_eq
    rw [hn] at htail
    simp only [h.next_eq h.head]
    rw [Nat.add_mod_mod, ← htail, Nat.add_right_comm, Nat.add_assoc]
  obtain ⟨first, hfirst, hwindow⟩ := Fifo.window_succ (show n < b.data.length by omega) b.head
  have hfirst' : first = item := by
    rw [← hitem, List.getD_eq_getElem?_getD, ← Nat.mod_eq_of_lt (show b.head < b.data.length by omega), hfirst]
    rfl
  rw [contents, hn, hwindow, hfirst', contents, hsize']
  congr 1
  -- the slot that was emptied lies behind the rest of the window
  have hplace : b.head = (capacity + (b.head + 1)) % b.data.length := by
    rw [hslots, show capacity + (b.head + 1) = b.head + (capacity + 1) by omega, Nat.add_mod_right,
      Nat.mod_eq_of_lt hhead]
  have hnext : b.next b.head = (b.head + 1) % (b.data.set b.head (moved item)).length := by
    rw [h.next_eq h.head, List.length_set, hslots]
  have hrest := Fifo.window_set (b.head + 1) (show n ≤ capacity by omega) (show capacity < b.data.length by omega)
    (moved item)
  rw [← hplace] at hrest
  simp only [hnext, Fifo.window_mod]
  exact hrest.symm

/-! ## Calls one after another -/

/-- A call. -/
def call (moved : α → α) (b : RingBuffer α) : Fifo.Op α → RingBuffer α × Fifo.Answer α
  | .push item => ((b.push item).1, .pushed (b.push item).2)
  | .pop => ((b.pop moved).1, .popped (b.pop moved).2)

/-- Some calls one after another, and what they answer. -/
def callAll (moved : α → α) (b : RingBuffer α) : List (Fifo.Op α) → RingBuffer α × List (Fifo.Answer α)
  | [] => (b, [])
  | op :: ops => (((b.call moved op).1.callAll moved ops).1,
    (b.call moved op).2 :: ((b.call moved op).1.callAll moved ops).2)

/-- A call does to the buffer what it does to the list. -/
theorem Valid.call {capacity : Nat} {b : RingBuffer α} (h : b.Valid capacity) (moved : α → α) (op : Fifo.Op α) :
    (b.call moved op).1.Valid capacity ∧
      ((b.call moved op).1.contents, (b.call moved op).2) = Fifo.call capacity b.contents op := by
  cases op with
  | push item =>
    rw [RingBuffer.call, Fifo.call]
    by_cases hroom : b.contents.length < capacity
    · obtain ⟨hvalid, hcontents, hanswer⟩ := h.push_of_room hroom item
      rw [if_pos hroom]
      exact ⟨hvalid, Prod.ext hcontents (congrArg Fifo.Answer.pushed hanswer)⟩
    · rw [if_neg hroom, h.push_of_full hroom item]
      exact ⟨h, rfl⟩
  | pop =>
    rw [RingBuffer.call, Fifo.call]
    by_cases hempty : b.contents = []
    · rw [h.pop_of_empty hempty moved, hempty]
      exact ⟨h, rfl⟩
    · obtain ⟨hvalid, item, hcontents, hanswer⟩ := h.pop_of_ne_nil hempty moved
      rw [hcontents, hanswer]
      exact ⟨hvalid, rfl⟩

/-- So do some calls one after another. -/
theorem Valid.callAll {capacity : Nat} {b : RingBuffer α} (h : b.Valid capacity) (moved : α → α)
    (ops : List (Fifo.Op α)) :
    (b.callAll moved ops).1.Valid capacity ∧
      ((b.callAll moved ops).1.contents, (b.callAll moved ops).2) = Fifo.callAll capacity b.contents ops := by
  induction ops generalizing b with
  | nil => exact ⟨h, rfl⟩
  | cons op ops ih =>
    obtain ⟨hvalid, hcall⟩ := h.call moved op
    obtain ⟨hcontents, hanswer⟩ := Prod.ext_iff.mp hcall
    obtain ⟨hvalid', hall⟩ := ih hvalid
    simp only at hcontents hanswer
    rw [hcontents] at hall
    obtain ⟨hcontents', hanswers⟩ := Prod.ext_iff.mp hall
    refine ⟨hvalid', Prod.ext hcontents' ?_⟩
    rw [Fifo.callAll, ← hanswer, ← hanswers]
    rfl

/-- After any calls of a new buffer: it holds what a list of at most `capacity` elements holds after the same calls,
and has answered the same; `push` adds an element at the end if the buffer holds fewer than `capacity`, and fails and
changes nothing otherwise; `pop` takes the oldest element, and finds nothing only in an empty buffer; `size()` and
`empty()` are those of the list; and the indices stay below `capacity + 1`. -/
theorem ring_buffer_is_bounded_fifo (moved : α → α) (capacity : Nat) (hcapacity : capacity + 1 < UInt64.size)
    (ops : List (Fifo.Op α))
    (b : RingBuffer α) (answers : List (Fifo.Answer α)) (h : (new capacity).callAll moved ops = (b, answers)) :
    (b.contents, answers) = Fifo.callAll capacity [] ops ∧ b.contents.length ≤ capacity ∧
    (∀ item, ((b.push item).2 = true ↔ b.contents.length < capacity) ∧
      ((b.push item).2 = true → (b.push item).1.contents = b.contents ++ [item]) ∧
        ((b.push item).2 = false → (b.push item).1 = b)) ∧
    ((b.pop moved).2 = b.contents.head? ∧ (b.pop moved).1.contents = b.contents.tail ∧
      ((b.pop moved).2 = none ↔ b.contents = [])) ∧
    b.size = b.contents.length ∧ (b.empty = true ↔ b.contents = []) ∧ b.head < capacity + 1 ∧ b.tail < capacity + 1 := by
  have hcalls := (valid_new (α := α) hcapacity).callAll moved ops
  rw [h, contents_new] at hcalls
  obtain ⟨hvalid, hall⟩ := hcalls
  simp only at hvalid hall
  refine ⟨hall, ?_, ?_, ?_, hvalid.length_contents.symm, ?_, hvalid.head, hvalid.tail⟩
  · rw [hvalid.length_contents]
    exact hvalid.size_le
  · intro item
    by_cases hroom : b.contents.length < capacity
    · obtain ⟨-, hcontents, hanswer⟩ := hvalid.push_of_room hroom item
      refine ⟨⟨fun _ => hroom, fun _ => hanswer⟩, fun _ => hcontents, ?_⟩
      intro hfailed
      rw [hanswer] at hfailed
      cases hfailed
    · rw [hvalid.push_of_full hroom item]
      refine ⟨⟨?_, fun hlt => absurd hlt hroom⟩, ?_, fun _ => rfl⟩
      · intro hpushed
        cases hpushed
      · intro hpushed
        cases hpushed
  · by_cases hempty : b.contents = []
    · rw [hvalid.pop_of_empty hempty moved, hempty]
      exact ⟨rfl, rfl, fun _ => rfl, fun _ => rfl⟩
    · obtain ⟨-, item, hcontents, hanswer⟩ := hvalid.pop_of_ne_nil hempty moved
      rw [hanswer, hcontents]
      refine ⟨rfl, rfl, ?_, ?_⟩
      · intro hnone
        cases hnone
      · intro hnil
        cases hnil
  · rw [empty, decide_eq_true_iff]
    exact hvalid.head_eq_tail_iff

end

/-- Room for two: the third `push` fails, and the indices go round. -/
theorem ring_buffer_is_bounded_fifo_two :
    ∃ b answers, (new 2 : RingBuffer Nat).callAll id [.push 5, .push 6, .push 7, .pop, .push 8, .pop,
      .push 9] = (b, answers) ∧
      answers = [.pushed true, .pushed true, .pushed false, .popped (some 5), .pushed true, .popped (some 6),
        .pushed true] ∧
      b.contents = [8, 9] ∧ b.tail < b.head ∧ b.size = 2 := by
  have hlist : Fifo.callAll 2 [] [.push 5, .push 6, .push 7, .pop, .push 8, .pop, .push 9] =
      ([8, 9], [.pushed true, .pushed true, .pushed false, .popped (some 5), .pushed true, .popped (some 6),
        .pushed true]) := by decide
  obtain ⟨hall, -, -, -, hsize, -⟩ := ring_buffer_is_bounded_fifo id 2 (by decide) _ _ _
    (rfl : (new 2 : RingBuffer Nat).callAll id [.push 5, .push 6, .push 7, .pop, .push 8, .pop, .push 9] = (_, _))
  rw [hlist] at hall
  obtain ⟨hcontents, hanswers⟩ := Prod.ext_iff.mp hall
  exact ⟨_, _, rfl, hanswers, hcontents, by decide, hsize.trans (congrArg List.length hcontents)⟩

end RingBuffer
end HpServer
