import Mathlib.Algebra.BigOperators.Group.Finset.Basic
import Mathlib.Data.Fintype.Basic

/-!
# Sums over the threads of a system

A system of threads keeps one local state for each thread. A quantity summed over the threads (how many are at a point of
their program, which items they hold) changes by the acting thread's share when one thread moves.
-/

namespace HpServer

variable {T P M : Type*} [Fintype T] [AddCommMonoid M]

/-- The sum of `f` over the local states of all threads. -/
def total (f : P → M) (pc : T → P) : M := ∑ t, f (pc t)

/-- A change of local states that keeps every thread's share keeps the sum. -/
theorem total_congr (f : P → M) {pc pc' : T → P} (h : ∀ t, f (pc' t) = f (pc t)) : total f pc' = total f pc :=
  Finset.sum_congr rfl fun t _ => h t

/-- When no thread has a share, the sum is zero. -/
theorem total_eq_zero (f : P → M) (pc : T → P) (h : ∀ t, f (pc t) = 0) : total f pc = 0 :=
  Finset.sum_eq_zero fun t _ => h t

variable [DecidableEq T]

/-- One thread's share, split from the others'. -/
theorem total_eq_add (f : P → M) (pc : T → P) (t : T) :
    total f pc = f (pc t) + ∑ u ∈ Finset.univ.erase t, f (pc u) :=
  (Finset.add_sum_erase Finset.univ (fun u => f (pc u)) (Finset.mem_univ t)).symm

/-- When one thread moves, the sum changes by what that thread's share changes. -/
theorem total_update (f : P → M) (pc : T → P) (t : T) (p : P) :
    total f (Function.update pc t p) + f (pc t) = total f pc + f p := by
  have hrest : ∑ u ∈ Finset.univ.erase t, f (Function.update pc t p u) = ∑ u ∈ Finset.univ.erase t, f (pc u) := by
    refine Finset.sum_congr rfl fun u hu => ?_
    rw [Function.update_of_ne (Finset.ne_of_mem_erase hu)]
  rw [total_eq_add f _ t, total_eq_add f pc t, hrest, Function.update_self]
  ac_rfl

end HpServer
