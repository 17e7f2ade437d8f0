import Mathlib.Logic.Basic

/-!
# Mutexes

A mutex is held by at most one thread, and a thread knows from its program point whether it is the one. `Held` says
that the two agree; a system whose threads take and release mutexes shows of each move of a thread what `Held.step`
asks.
-/

namespace HpServer
namespace Mutex

variable {T : Type*}

/-- Only the holder is inside. -/
def Held (holder : Option T) (inside : T → Bool) : Prop := ∀ u, inside u = true → holder = some u

/-- No two threads are inside. -/
theorem Held.unique {holder : Option T} {inside : T → Bool} (h : Held holder inside) {t u : T} (ht : inside t = true)
    (hu : inside u = true) : t = u :=
  Option.some.inj ((h t ht).symm.trans (h u hu))

/-- One thread moves and no other goes inside: the mover is inside because it was and kept the mutex, or because it
took it; and a mover from outside leaves the mutex alone or found it free. -/
theorem Held.step {holder holder' : Option T} {inside inside' : T → Bool} {t : T} (h : Held holder inside)
    (hothers : ∀ u, u ≠ t → inside' u = true → inside u = true)
    (hown : inside' t = true → inside t = true ∧ holder' = holder ∨ holder' = some t)
    (hfree : inside t = false → holder' = holder ∨ holder = none) : Held holder' inside' := by
  intro u hu
  by_cases hut : u = t
  · subst hut
    rcases hown hu with ⟨hin, heq⟩ | heq
    · exact heq.trans (h u hin)
    · exact heq
  · have hin := hothers u hut hu
    have ht : inside t = false := by
      cases hin' : inside t with
      | false => rfl
      | true => exact absurd (h.unique hin hin') hut
    rcases hfree ht with heq | hnone
    · exact heq.trans (h u hin)
    · have hsome := h u hin
      rw [hnone] at hsome
      cases hsome

end Mutex
end HpServer
