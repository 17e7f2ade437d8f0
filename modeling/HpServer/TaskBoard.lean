import Mathlib.Logic.Function.Basic
import HpServer.Lib.Lts

/-!
# What a pool is for

The contract between those who submit tasks and those who work on them, without threads, queues or counters: a task
that is admitted waits, is begun once, and is settled; a task may also be refused. The pool with its threads
(`ThreadPool`) and the jobs of the server (`System`, which leaves the pool out) both keep to it.
-/

namespace HpServer

/-- How far a task has come: not submitted, admitted and waiting, in somebody's hands, and done with. -/
inductive Phase where
  | absent
  | waiting
  | working
  | settled
  deriving DecidableEq, Repr

namespace Phase

/-- The order in which a task goes through the phases. -/
def rank : Phase → Nat
  | .absent => 0
  | .waiting => 1
  | .working => 2
  | .settled => 3

/-- One for the phases after a task is begun. -/
def past : Phase → Nat
  | .absent | .waiting => 0
  | .working | .settled => 1

end Phase

namespace TaskBoard

/-- What can be done with task `k`. -/
inductive Act where
  | enter (k : Nat)
  | refuse (k : Nat)
  | begin (k : Nat)
  | settle (k : Nat)
  deriving DecidableEq, Repr

/-- Move task `k` from one phase to another. -/
def move (b : Nat → Phase) (k : Nat) (old new : Phase) : Option (Nat → Phase) :=
  if b k = old then some (Function.update b k new) else none

/-- One step of the board. -/
def step (b : Nat → Phase) : Act → Option (Nat → Phase)
  | .enter k => move b k .absent .waiting
  | .refuse k => move b k .absent .settled
  | .begin k => move b k .waiting .working
  | .settle k => move b k .working .settled

/-- The board as a transition system: no task is there at the begin. -/
def system : Lts (Nat → Phase) Act where
  init := fun b => b = fun _ => .absent
  step := step

theorem move_eq_some {b b' : Nat → Phase} {k : Nat} {old new : Phase} (hold : b k = old)
    (hnew : b' = Function.update b k new) :
    move b k old new = some b' := by
  rw [move, if_pos hold, hnew]

/-- A step leaves a task where it is, or moves it on. -/
theorem move_cases {b b' : Nat → Phase} {j : Nat} {old new : Phase} (h : move b j old new = some b') (k : Nat) :
    (j ≠ k ∧ b' k = b k) ∨ (j = k ∧ b k = old ∧ b' k = new) := by
  simp only [move, Option.ite_none_right_eq_some, Option.some.injEq] at h
  obtain ⟨hold, rfl⟩ := h
  by_cases hk : j = k
  · subst hk
    exact .inr ⟨rfl, hold, Function.update_self ..⟩
  · exact .inl ⟨hk, Function.update_of_ne (Ne.symm hk) ..⟩

/-- A step takes no task back, and begins a task only if it was not begun before. -/
theorem step_forward {b b' : Nat → Phase} {a : Act} (h : system.step b a = some b') (k : Nat) :
    (b k).rank ≤ (b' k).rank ∧ [a].count (.begin k) + (b k).past ≤ (b' k).past := by
  cases a with
  | enter j | refuse j | settle j =>
    rcases move_cases h k with ⟨-, hk⟩ | ⟨-, hold, hnew⟩
    · rw [hk]
      exact ⟨Nat.le_refl _, by simp⟩
    · rw [hold, hnew]
      exact ⟨by decide, by simp [Phase.past]⟩
  | begin j =>
    rcases move_cases h k with ⟨hj, hk⟩ | ⟨rfl, hold, hnew⟩
    · rw [hk]
      exact ⟨Nat.le_refl _, by simp [hj]⟩
    · rw [hold, hnew]
      exact ⟨by decide, by simp [Phase.past]⟩

/-- Along a run no task goes back, and each is begun at most once. -/
theorem path_forward {P : (Nat → Phase) → Act → Prop} {b b' : Nat → Phase} {as : List Act}
    (h : system.Path P b as b') (k : Nat) :
    (b k).rank ≤ (b' k).rank ∧ as.count (.begin k) + (b k).past ≤ (b' k).past := by
  induction h with
  | nil => exact ⟨Nat.le_refl _, by simp⟩
  | @cons b₀ b₁ b₂ a as _ hst _ ih =>
    obtain ⟨hrank, hbegin⟩ := step_forward hst k
    obtain ⟨hrank', hbegin'⟩ := ih
    refine ⟨Nat.le_trans hrank hrank', ?_⟩
    rw [← List.singleton_append, List.count_append]
    omega

/-- A task is begun at most once along a run. -/
theorem path_begin_le_one {P : (Nat → Phase) → Act → Prop} {b b' : Nat → Phase} {as : List Act}
    (h : system.Path P b as b') (k : Nat) : as.count (.begin k) ≤ 1 := by
  have hbegin := (path_forward h k).2
  have hpast : (b' k).past ≤ 1 := by cases b' k <;> decide
  omega

end TaskBoard
end HpServer
