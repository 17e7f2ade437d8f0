import HpServer.Lemmas.RingMoves
import HpServer.Lib.Atomic

/-!
# The ring buffer with its threads is an atomic queue

The two sides of the buffer work under two mutexes, and each reads the index of the other without the other's. Still
every `push` and `pop` has its effect at one moment: a `push` when it stores `tail_`, or when it loads a `head_` that
leaves no room; a `pop` when it stores `head_`, or when it loads a `tail_` that is `head_`. No two threads are ever
about to touch the same slot. `empty` and `size` take no mutex; what they answer is right as long as `head_` does not
move between their two loads, and never more than the capacity.
-/

namespace HpServer
namespace RingThreads

variable {T α : Type} [Inhabited α] {moved : α → α} {capacity : Nat}

/-- The operations on a list of at most `capacity` elements; none of them waits. -/
def applyOp (capacity : Nat) (items : List α) (op : Fifo.Op α) : Option (List α × Fifo.Answer α) :=
  some (Fifo.call capacity items op)

/-- Where a thread is with a `push` or a `pop`. -/
def Pc.stage : Pc α → Atomic.Stage (Fifo.Op α) (Fifo.Answer α)
  | .pushLock item | .pushIndex item | .pushHead item _ | .pushWrite item _ | .pushStore item _ => .calling (.push item)
  | .pushUnlock ok => .returning (.pushed ok)
  | .popLock | .popHead | .popTail _ | .popIndex | .popTake _ | .popStore _ _ => .calling .pop
  | .popUnlock item => .returning (.popped item)
  | .idle | .emptyHead | .emptyTail _ | .sizeHead | .sizeTail _ => .idle

/-- The atomic queue that a state stands for. -/
def atomicRing (s : State T α) : Atomic.State T (List α) (Fifo.Op α) (Fifo.Answer α) where
  object := s.shared.items
  stage t := (s.pc t).stage

/-- A move is a step of the atomic queue, or none. -/
theorem Move.progress {t : T} {sh sh' : Shared T α} {p p' : Pc α} {e : Prop} (h : Move moved t sh p sh' p')
    (hk : Kept capacity sh e) (hseen : p.Seen capacity sh) :
    Atomic.Progress (applyOp capacity) sh.items p.stage sh'.items p'.stage := by
  cases h with
  | call op =>
    cases op with
    | push item => exact .call _
    | pop => exact .call _
    | empty | size => exact .stutter _
  | full item hfull =>
    have hlen := hk.valid.next_tail_eq_head_iff.mp ((show _ = sh.ring.next sh.ring.tail from hseen).symm.trans hfull)
    rw [hk.length_contents] at hlen
    refine .effect ?_
    rw [applyOp, Fifo.call, if_neg (by omega)]
  | store item nextTail =>
    refine .effect ?_
    rw [applyOp, Fifo.call, if_pos hseen.2.1]
  | nothing hempty =>
    have hnil := hk.valid.head_eq_tail_iff.mp ((show _ = sh.ring.head from hseen).symm.trans hempty)
    rw [← List.length_eq_zero_iff, hk.length_contents, List.length_eq_zero_iff] at hnil
    refine .effect ?_
    rw [hnil]
    rfl
  | popStore currentHead item =>
    refine .effect ?_
    rw [applyOp, Fifo.call, hseen.2]
  | pushUnlock ok => exact .ret _
  | popUnlock item => exact .ret _
  | _ => exact .stutter _

variable [DecidableEq T]

/-- Threads that use the buffer do what threads do that share a list of at most `capacity` elements. -/
theorem ring_is_atomic (hcapacity : capacity + 1 < UInt64.size) :
    (system T moved capacity).Refines (fun _ _ => True) (Atomic.system (applyOp capacity) T []) atomicRing where
  init := by
    rintro s rfl
    rfl
  step := by
    rintro s s' a hr - hstep
    have hs := reachable_sound hcapacity hr
    obtain ⟨p', sh', hmove, rfl⟩ := step_move hstep
    refine Atomic.step_of_progress a.thread ?_ ?_
    · simpa only [atomicRing, State.move, Function.update_self] using hmove.progress hs.kept (hs.seen a.thread)
    · intro u hu
      simp only [atomicRing, State.move_pc_of_ne s hu]

/-- For the logger's buffer, used by two threads. -/
theorem ring_is_atomic_two :
    (system Bool (fun _ : Nat => 0) 1024).Refines (fun _ _ => True) (Atomic.system (applyOp 1024) Bool []) atomicRing :=
  ring_is_atomic (by decide)

/-! ## Slots and unguarded loads -/

/-- The slot that the next operation of a thread writes or moves from. -/
def Pc.touches (b : RingBuffer α) : Pc α → Option Nat
  | .pushWrite _ _ => some b.tail
  | .popTake currentHead => some currentHead
  | _ => none

omit [Inhabited α] [DecidableEq T] in
/-- The slot is one of the buffer, and the one at `tail_` for a `push` and at `head_`, which is another one, for a
`pop`. -/
theorem Pc.Seen.slot {p : Pc α} {sh : Shared T α} {e : Prop} (h : p.Seen capacity sh) (hk : Kept capacity sh e) {i : Nat}
    (hi : p.touches sh.ring = some i) :
    i < sh.ring.data.length ∧ (p.holdsTail = true ∧ i = sh.ring.tail ∨ p.holdsHead = true ∧ i = sh.ring.head ∧
      i ≠ sh.ring.tail) := by
  have hslots := hk.valid.slots
  have hhead := hk.valid.head
  have htail := hk.valid.tail
  cases p with
  | pushWrite item nextTail =>
    cases hi
    exact ⟨by omega, .inl ⟨rfl, rfl⟩⟩
  | popTake currentHead =>
    cases hi
    obtain ⟨rfl, hne⟩ := h
    exact ⟨by omega, .inr ⟨rfl, rfl, hk.head_ne_tail hne⟩⟩
  | _ => cases hi

/-- The index that `size` has loaded is one of the buffer. -/
def Pc.Loaded (capacity : Nat) : Pc α → Prop
  | .sizeTail head => head < capacity + 1
  | _ => True

theorem reachable_loaded (hcapacity : capacity + 1 < UInt64.size) {s : State T α}
    (h : (system T moved capacity).Reachable s) (t : T) :
    (s.pc t).Loaded capacity := by
  refine h.invariant (I := fun s => ∀ t, (s.pc t).Loaded capacity) ?_ ?_ t
  · rintro s rfl t
    trivial
  · intro s s' a hr hs hstep t
    have hvalid := (reachable_sound hcapacity hr).kept.valid
    obtain ⟨p', sh', hmove, rfl⟩ := step_move hstep
    by_cases ht : t = a.thread
    · rw [ht, State.move_pc_self]
      generalize s.pc a.thread = p at hmove
      cases hmove with
      | call op => cases op <;> trivial
      | sizeHead => exact hvalid.head
      | _ => trivial
    · rw [State.move_pc_of_ne s ht]
      exact hs t

/-- In every state that any threads reach: a slot that a thread is about to write or to move from is one of the
buffer, and no other thread is about to touch it; and the number that `size` is about to answer is at most the
capacity, and with it what `empty` answers the right one if `head_` is where it was at the first load. -/
theorem ring_slots_apart (hcapacity : capacity + 1 < UInt64.size) {s : State T α}
    (h : (system T moved capacity).Reachable s) :
    (∀ t i, (s.pc t).touches s.shared.ring = some i →
      i < s.shared.ring.data.length ∧ ∀ u, (s.pc u).touches s.shared.ring = some i → u = t) ∧
    (∀ t head, s.pc t = .sizeTail head →
      answerSize s.shared.ring head ≤ capacity ∧
        (head = s.shared.ring.head → answerSize s.shared.ring head = s.shared.items.length)) ∧
    ∀ t head, s.pc t = .emptyTail head → head = s.shared.ring.head →
      (answerEmpty s.shared.ring head = true ↔ s.shared.items = []) := by
  have hs := reachable_sound hcapacity h
  have hm := reachable_mutexesHeld h
  refine ⟨?_, ?_, ?_⟩
  · intro t i ht
    obtain ⟨hlt, hslot⟩ := (hs.seen t).slot hs.kept ht
    refine ⟨hlt, fun u hu => ?_⟩
    obtain ⟨-, hslot'⟩ := (hs.seen u).slot hs.kept hu
    rcases hslot with ⟨hin, htail⟩ | ⟨hin, -, hne⟩
    · rcases hslot' with ⟨hin', -⟩ | ⟨-, -, hne'⟩
      · exact hm.tail.unique hin' hin
      · exact absurd htail hne'
    · rcases hslot' with ⟨-, htail'⟩ | ⟨hin', -, -⟩
      · exact absurd htail' hne
      · exact hm.head.unique hin' hin
  · intro t head hpc
    have hloaded := reachable_loaded hcapacity h t
    rw [hpc] at hloaded
    have hvalid : RingBuffer.Valid capacity { s.shared.ring with head := head } :=
      ⟨hs.kept.valid.range, hs.kept.valid.slots, hloaded, hs.kept.valid.tail⟩
    refine ⟨hvalid.size_le, ?_⟩
    rintro rfl
    exact hs.kept.size
  · rintro t head - rfl
    exact hs.kept.answerEmpty_iff

/-- One thread is about to write the second slot, the other to move the first element out. -/
def bothSides : List (Act Bool Nat) :=
  List.flatten
    [[.call true (.push 7)], List.replicate 6 (.step true), [.call true (.push 8)], List.replicate 3 (.step true),
      [.call false .pop], List.replicate 4 (.step false)]

theorem ring_slots_apart_both :
    ∃ s : State Bool Nat, (system Bool (fun _ : Nat => 0) 2).Reachable s ∧ (s.pc true).touches s.shared.ring = some 1 ∧
      (s.pc false).touches s.shared.ring = some 0 ∧ 1 < s.shared.ring.data.length ∧
      ∀ u, (s.pc u).touches s.shared.ring = some 1 → u = true := by
  obtain ⟨s, hs, htest⟩ := Lts.exists_of_exec (M := system Bool (fun _ : Nat => 0) 2) bothSides
    (fun s => (s.pc true).touches s.shared.ring = some 1 ∧ (s.pc false).touches s.shared.ring = some 0) rfl
      (by decide +kernel)
  obtain ⟨htrue, hfalse⟩ := of_decide_eq_true htest
  exact ⟨s, hs, htrue, hfalse, (ring_slots_apart (by decide) hs).1 true 1 htrue⟩

end RingThreads
end HpServer
