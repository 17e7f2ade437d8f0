import HpServer.Lemmas.QueueList

/-!
# The queue is first in, first out

Whatever the threads do, and however their operations interleave: the values come out in the order in which `tail`
passed them, a pop finds a node with a value and a successor although the tail it compared with may be outdated, and
`try_pop` refuses only what was an empty queue when it read `tail`.
-/

namespace HpServer
namespace ThreadsafeQueue

variable {T α : Type} [DecidableEq T] [Fintype T]

/-- The operations of a pop that go through `head`: the one that takes the value and the one that takes the node. -/
def Pc.dereferences : Pc α → Bool
  | .popData _ | .popHead _ _ => true
  | _ => false

omit [DecidableEq T] [Fintype T] in
/-- A thread that goes through `head` has seen that the queue is not empty. -/
theorem Pc.Seen.ne_nil {c : Chain α} {cells : List (Nat × α)} {p : Pc α} (h : p.Seen c cells)
    (hp : p.dereferences = true) :
    cells ≠ [] := by
  cases p with
  | popData caller => exact h
  | popHead caller v =>
    rintro rfl
    cases h
  | _ => cases hp

/-- In every state that any threads reach: the values popped are the first of the values pushed, in the order of the
updates of `tail`; a thread that goes through `head` finds a node with a value and a successor; and a `try_pop` that
refuses has read `tail` when no value was in the queue. -/
theorem queue_is_fifo {s : State T α} (h : (system T α).Reachable s) :
    s.shared.popped <+: s.shared.pushed ∧
    (∀ t, (s.pc t).dereferences = true →
      ∃ a v next, s.shared.head = some a ∧ s.shared.mem a = some ⟨some v, some next⟩) ∧
    ∀ t held, s.pc t = .tryRefuse held → held = [] := by
  obtain ⟨cells, hw, hseen⟩ := reachable_sound h
  refine ⟨?_, ?_, ?_⟩
  · rw [hw.record]
    exact List.prefix_append _ _
  · intro t ht
    obtain ⟨a, v, next, rest, -, hhead, hmem, -⟩ := hw.front ((hseen t).ne_nil ht)
    exact ⟨a, v, next, hhead, hmem⟩
  · intro t held ht
    have hrefuse := hseen t
    rw [ht] at hrefuse
    exact hrefuse

/-- One thread pushes, the other pops; the third value arrives after the second pop has read the tail, in the memory
of the first node. -/
def pushedBetween : List (Act Bool Nat) :=
  List.flatten
    [[.call true (.push 7), .make true 1], List.replicate 5 (.step true), [.notifyOne true none],
      [.call true (.push 8), .make true 2], List.replicate 5 (.step true), [.notifyOne true none],
      [.call false (.look .tryPop)], List.replicate 8 (.step false),
      [.call false (.look .tryPop)], List.replicate 4 (.step false),
      [.call true (.push 9), .make true 0], List.replicate 5 (.step true), [.step false]]

theorem queue_is_fifo_between :
    ∃ s : State Bool Nat, (system Bool Nat).Reachable s ∧ s.shared.pushed = [7, 8, 9] ∧ s.shared.popped = [7] ∧
      (s.pc false).dereferences = true ∧ [7] <+: [7, 8, 9] ∧
      ∃ a v next, s.shared.head = some a ∧ s.shared.mem a = some ⟨some v, some next⟩ := by
  obtain ⟨s, hs, htest⟩ := Lts.exists_of_exec (M := system Bool Nat) pushedBetween
    (fun s => s.shared.pushed = [7, 8, 9] ∧ s.shared.popped = [7] ∧ (s.pc false).dereferences = true) rfl
      (by decide +kernel)
  obtain ⟨hpushed, hpopped, hpop⟩ := of_decide_eq_true htest
  obtain ⟨horder, hnode, -⟩ := queue_is_fifo hs
  rw [hpushed, hpopped] at horder
  exact ⟨s, hs, hpushed, hpopped, hpop, horder, hnode false hpop⟩

end ThreadsafeQueue
end HpServer
