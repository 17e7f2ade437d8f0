import Mathlib.Logic.Function.Basic
import HpServer.Lib.Lts

/-!
# Atomic objects

An object that threads share, whose operations have all of their effect at one moment between their call and their
return. The sequential meaning of an operation is a partial function from the object to the object afterwards and the
answer; where it has none, the call waits. A system of threads that refines the atomic object is linearizable:
`step_of_progress` is how a step of one thread is seen to be a step of the object, or none.
-/

namespace HpServer
namespace Atomic

/-- Where a thread is with a call: it has made none, it has made one that has had no effect yet, or it is about to
return. -/
inductive Stage (ω ρ : Type*) where
  | idle
  | calling (op : ω)
  | returning (answer : ρ)

/-- The object, and where every thread is. -/
structure State (T σ ω ρ : Type*) where
  object : σ
  stage : T → Stage ω ρ

/-- What happens: a call, its effect, and its return. -/
inductive Act (T ω : Type*) where
  | call (t : T) (op : ω)
  | effect (t : T)
  | ret (t : T)

variable {T σ ω ρ : Type*} [DecidableEq T] (apply : σ → ω → Option (σ × ρ))

/-- One step of the threads and the object. -/
def State.step (s : State T σ ω ρ) : Act T ω → Option (State T σ ω ρ)
  | .call t op =>
    match s.stage t with
    | .idle => some { s with stage := Function.update s.stage t (.calling op) }
    | _ => none
  | .effect t =>
    match s.stage t with
    | .calling op => (apply s.object op).map fun p =>
      { object := p.1, stage := Function.update s.stage t (.returning p.2) }
    | _ => none
  | .ret t =>
    match s.stage t with
    | .returning _ => some { s with stage := Function.update s.stage t .idle }
    | _ => none

/-- The atomic object as a transition system. -/
def system (T : Type*) [DecidableEq T] (x : σ) : Lts (State T σ ω ρ) (Act T ω) where
  init s := s = { object := x, stage := fun _ => .idle }
  step := State.step apply

/-- What a thread can do at once: nothing, or one of the steps of its call. -/
inductive Progress (x : σ) : Stage ω ρ → σ → Stage ω ρ → Prop where
  | stutter (st : Stage ω ρ) : Progress x st x st
  | call (op : ω) : Progress x .idle x (.calling op)
  | effect {op : ω} {x' : σ} {answer : ρ} : apply x op = some (x', answer) →
    Progress x (.calling op) x' (.returning answer)
  | ret (answer : ρ) : Progress x (.returning answer) x .idle

variable {apply}

/-- A step in which one thread makes progress and the others stay where they are is a step of the atomic object, or
none. -/
theorem step_of_progress {s s' : State T σ ω ρ} (t : T) (h : Progress apply s.object (s.stage t) s'.object (s'.stage t))
    (hothers : ∀ u, u ≠ t → s'.stage u = s.stage u) : s' = s ∨ ∃ a, s.step apply a = some s' := by
  obtain ⟨x, stage⟩ := s
  obtain ⟨x', stage'⟩ := s'
  have hstage : stage' = Function.update stage t (stage' t) := Function.eq_update_iff.mpr ⟨rfl, hothers⟩
  simp only at h
  generalize hold : stage t = old at h
  generalize hnew : stage' t = new at h hstage
  cases h with
  | stutter =>
    left
    rw [hstage, ← hold, Function.update_eq_self]
  | call op => exact .inr ⟨.call t op, by simp only [State.step, hold, hstage]⟩
  | effect happly => exact .inr ⟨.effect t, by simp only [State.step, hold, happly, hstage, Option.map_some]⟩
  | ret answer => exact .inr ⟨.ret t, by simp only [State.step, hold, hstage]⟩

end Atomic
end HpServer
