import Mathlib.Logic.Basic

/-!
# Labelled transition systems

A system is a set of initial states and a step function on labelled actions: an action that is not enabled has no
successor. `ReachesBy P` is the set of states reached by runs whose every step meets `P`, a condition on the state before
the step and on the action; `Reachable` is the case where `P` asks nothing. The rules below are the inductions every
safety result of the development uses: what one step keeps, a whole run keeps.
-/

namespace HpServer

/-- A transition system: its initial states, and the successor of a state under an action, if the action is enabled. -/
structure Lts (σ ι : Type*) where
  init : σ → Prop
  step : σ → ι → Option σ

namespace Lts

variable {σ ι : Type*} (M : Lts σ ι)

/-- The states reached by a run from an initial state in which every step meets `P`. -/
inductive ReachesBy (P : σ → ι → Prop) : σ → Prop where
  | init {s : σ} : M.init s → ReachesBy P s
  | step {s t : σ} {i : ι} : ReachesBy P s → P s i → M.step s i = some t → ReachesBy P t

/-- The states reached by any run from an initial state. -/
def Reachable : σ → Prop := M.ReachesBy fun _ _ => True

/-- The actions `is`, each of which meets `P`, lead from one state to another. -/
inductive Path (P : σ → ι → Prop) : σ → List ι → σ → Prop where
  | nil (s : σ) : Path P s [] s
  | cons {s t u : σ} {i : ι} {is : List ι} : P s i → M.step s i = some t → Path P t is u → Path P s (i :: is) u

/-- Run a list of actions; it fails at the first action that is not enabled or does not meet `P`. -/
def execBy (P : σ → ι → Prop) [∀ s i, Decidable (P s i)] : σ → List ι → Option σ
  | s, [] => some s
  | s, i :: is => if P s i then (M.step s i).bind fun t => execBy P t is else none

/-- Run a list of actions; it fails at the first action that is not enabled. -/
def exec : σ → List ι → Option σ := M.execBy fun _ _ => True

/-- Run a list of actions up to the first that is not enabled. -/
def drive : σ → List ι → σ
  | s, [] => s
  | s, i :: is =>
    match M.step s i with
    | some t => drive t is
    | none => s

/-- The same steps, begun in one state. -/
def startingAt (s : σ) : Lts σ ι := { M with init := fun t => t = s }

/-- The same steps, with the largest value that `size` has had so far beside the state. -/
def withPeak (size : σ → Nat) : Lts (σ × Nat) ι where
  init p := M.init p.1 ∧ p.2 = size p.1
  step p i := (M.step p.1 i).map fun t => (t, max p.2 (size t))

/-- The same steps, with a record beside the state that every step brings up to date. -/
def withRecord {γ : Type*} (start : γ) (update : σ → ι → γ → γ) : Lts (σ × γ) ι where
  init p := M.init p.1 ∧ p.2 = start
  step p i := (M.step p.1 i).map fun t => (t, update p.1 i p.2)

/-- Seen through `f`, the runs of `M` whose steps meet `P` are runs of `N`: each of their steps is a step of `N`, or
changes nothing `f` sees. -/
structure Refines {τ κ : Type*} (P : σ → ι → Prop) (N : Lts τ κ) (f : σ → τ) : Prop where
  init : ∀ s, M.init s → N.init (f s)
  step : ∀ s t i, M.ReachesBy P s → P s i → M.step s i = some t → f t = f s ∨ ∃ k, N.step (f s) k = some (f t)

variable {M}

/-- A weaker condition on the steps lets more states be reached. -/
theorem ReachesBy.mono {P Q : σ → ι → Prop} (hPQ : ∀ s i, P s i → Q s i) {s : σ} (h : M.ReachesBy P s) :
    M.ReachesBy Q s := by
  induction h with
  | init hi => exact .init hi
  | step _ hp hs ih => exact .step ih (hPQ _ _ hp) hs

/-- A state reached by a constrained run is reachable. -/
theorem ReachesBy.reachable {P : σ → ι → Prop} {s : σ} (h : M.ReachesBy P s) : M.Reachable s :=
  h.mono fun _ _ _ => trivial

/-- The invariant rule: what holds initially and is kept by every step that meets `P` from a state such a run reaches
holds in every state it reaches. -/
theorem ReachesBy.invariant {P : σ → ι → Prop} {I : σ → Prop} (hinit : ∀ s, M.init s → I s)
    (hstep : ∀ s t i, M.ReachesBy P s → I s → P s i → M.step s i = some t → I t) {s : σ} (h : M.ReachesBy P s) :
    I s := by
  induction h with
  | init hi => exact hinit _ hi
  | step hr hp hs ih => exact hstep _ _ _ hr ih hp hs

/-- The invariant rule for all runs. -/
theorem Reachable.invariant {I : σ → Prop} (hinit : ∀ s, M.init s → I s)
    (hstep : ∀ s t i, M.Reachable s → I s → M.step s i = some t → I t) {s : σ} (h : M.Reachable s) : I s :=
  ReachesBy.invariant hinit (fun s t i hr hi _ hs => hstep s t i hr hi hs) h

/-- A number that no step lets grow, unless to a bound by the present size, is bounded by the largest size so far. -/
theorem Reachable.le_of_peak {size f : σ → Nat} (bound : Nat → Nat) (hbound : ∀ m n, m ≤ n → bound m ≤ bound n)
    (hinit : ∀ s, M.init s → f s ≤ bound (size s))
    (hstep : ∀ s t i, M.step s i = some t → f t ≤ f s ∨ f t ≤ bound (size t)) {s : σ} {peak : Nat}
    (h : (M.withPeak size).Reachable (s, peak)) : f s ≤ bound peak := by
  refine h.invariant (I := fun p => f p.1 ≤ bound p.2) ?_ ?_
  · rintro p ⟨hp, hpeak⟩
    rw [hpeak]
    exact hinit p.1 hp
  · intro p q i _ hp hstep'
    obtain ⟨t, ht, rfl⟩ := Option.map_eq_some_iff.mp hstep'
    rcases hstep p.1 t i ht with hle | hle
    · exact Nat.le_trans hle (Nat.le_trans hp (hbound _ _ (Nat.le_max_left _ _)))
    · exact Nat.le_trans hle (hbound _ _ (Nat.le_max_right _ _))

/-- Without the record, a run is a run. -/
theorem Reachable.of_withRecord {γ : Type*} {start : γ} {update : σ → ι → γ → γ} {p : σ × γ}
    (h : (M.withRecord start update).Reachable p) : M.Reachable p.1 := by
  refine h.invariant (I := fun p => M.Reachable p.1) ?_ ?_
  · intro p hp
    exact ReachesBy.init hp.1
  intro p q i _ hp hstep
  obtain ⟨t, ht, rfl⟩ := Option.map_eq_some_iff.mp hstep
  exact ReachesBy.step hp trivial ht

/-- A run that goes on from a state a run reaches is a run. -/
theorem ReachesBy.trans {P : σ → ι → Prop} {s t : σ} (hs : M.ReachesBy P s) (ht : (M.startingAt s).ReachesBy P t) :
    M.ReachesBy P t := by
  induction ht with
  | init hi => exact hi ▸ hs
  | step _ hp hst ih => exact .step ih hp hst

theorem Path.mono {P Q : σ → ι → Prop} (hPQ : ∀ s i, P s i → Q s i) {s t : σ} {is : List ι} (h : M.Path P s is t) :
    M.Path Q s is t := by
  induction h with
  | nil => exact .nil _
  | cons hp hst _ ih => exact .cons (hPQ _ _ hp) hst ih

/-- What every step that meets `P` keeps, a path keeps. -/
theorem Path.invariant {P : σ → ι → Prop} {I : σ → Prop} (hstep : ∀ s t i, I s → P s i → M.step s i = some t → I t)
    {s t : σ} {is : List ι} (h : M.Path P s is t) (hs : I s) : I t := by
  induction h with
  | nil => exact hs
  | cons hp hst _ ih => exact ih (hstep _ _ _ hs hp hst)

/-- A number that every step makes smaller bounds the length of every path. -/
theorem Path.length_le {P : σ → ι → Prop} {I : σ → Prop} (μ : σ → Nat)
    (hstep : ∀ s t i, I s → P s i → M.step s i = some t → I t ∧ μ t < μ s)
    {s t : σ} {is : List ι} (h : M.Path P s is t) (hs : I s) : is.length ≤ μ s := by
  induction h with
  | nil => exact Nat.zero_le _
  | cons hp hst _ ih =>
    obtain ⟨ht, hlt⟩ := hstep _ _ _ hs hp hst
    have hlen := ih ht
    rw [List.length_cons]
    omega

/-- The progress rule: if the action `i` leads every state that meets `I` and not `Q` to one that meets `I` and has a
smaller number, then it leads to `Q` when it is done often enough. -/
theorem exists_exec_replicate {I Q : σ → Prop} (μ : σ → Nat) (i : ι)
    (hstep : ∀ s, I s → ¬Q s → ∃ t, M.step s i = some t ∧ I t ∧ μ t < μ s) {s : σ} (hs : I s) :
    ∃ n t, n ≤ μ s ∧ M.exec s (List.replicate n i) = some t ∧ I t ∧ Q t := by
  induction hμ : μ s using Nat.strongRecOn generalizing s with
  | ind m ih =>
    by_cases hq : Q s
    · exact ⟨0, s, Nat.zero_le _, rfl, hs, hq⟩
    · obtain ⟨t, hst, ht, hlt⟩ := hstep s hs hq
      obtain ⟨n, u, hn, hexec, hu, hqu⟩ := ih (μ t) (hμ ▸ hlt) ht rfl
      refine ⟨n + 1, u, by omega, ?_, hu, hqu⟩
      rw [List.replicate_succ, exec, execBy, if_pos trivial, hst]
      exact hexec

/-- A path from a state a constrained run reaches goes on with that run. -/
theorem ReachesBy.path {P : σ → ι → Prop} {s t : σ} {is : List ι} (hs : M.ReachesBy P s) (h : M.Path P s is t) :
    M.ReachesBy P t := by
  induction h with
  | nil => exact hs
  | cons hp hst _ ih => exact ih (hs.step hp hst)

/-- What a refining system does from a state of its runs, the system it refines does. -/
theorem Refines.path {τ κ : Type*} {P : σ → ι → Prop} {N : Lts τ κ} {f : σ → τ} (hf : M.Refines P N f) {s t : σ}
    {is : List ι} (hs : M.ReachesBy P s) (h : M.Path P s is t) : ∃ ks, N.Path (fun _ _ => True) (f s) ks (f t) := by
  induction h with
  | nil => exact ⟨[], .nil _⟩
  | cons hp hst _ ih =>
    obtain ⟨ks, hks⟩ := ih (hs.step hp hst)
    rcases hf.step _ _ _ hs hp hst with heq | ⟨k, hk⟩
    · rw [heq] at hks
      exact ⟨ks, hks⟩
    · exact ⟨k :: ks, .cons trivial hk hks⟩

/-- Running a list of actions gives a path. -/
theorem path_of_execBy {P : σ → ι → Prop} [∀ s i, Decidable (P s i)] {is : List ι} :
    ∀ {s t : σ}, M.execBy P s is = some t → M.Path P s is t := by
  induction is with
  | nil =>
    intro s t h
    obtain rfl : s = t := Option.some.inj h
    exact .nil s
  | cons i is ih =>
    intro s t h
    simp only [Lts.execBy] at h
    split at h
    · rename_i hp
      obtain ⟨u, hu, ht⟩ := Option.bind_eq_some_iff.mp h
      exact .cons hp hu (ih ht)
    · cases h

theorem drive_cons {s t : σ} {i : ι} (h : M.step s i = some t) (is : List ι) : M.drive s (i :: is) = M.drive t is := by
  rw [drive, h]

/-- Where no action is enabled, nothing more happens. -/
theorem drive_of_stuck {s : σ} (h : ∀ i, M.step s i = none) (is : List ι) : M.drive s is = s := by
  cases is with
  | nil => rfl
  | cons i is => rw [drive, h i]

/-- A run given as a list of actions that meet `P`, whose last state passes a test, is a path to a state that passes
it. -/
theorem exists_path (P : σ → ι → Prop) [∀ s i, Decidable (P s i)] {s : σ} (is : List ι) (p : σ → Bool)
    (h : (M.execBy P s is).map p = some true) : ∃ t, M.Path P s is t ∧ p t = true := by
  obtain ⟨t, ht, hp⟩ := Option.map_eq_some_iff.mp h
  exact ⟨t, path_of_execBy ht, hp⟩

/-- Such a run from an initial state reaches a state that passes the test. -/
theorem exists_of_execBy (P : σ → ι → Prop) [∀ s i, Decidable (P s i)] {s : σ} (is : List ι) (p : σ → Bool)
    (hi : M.init s) (h : (M.execBy P s is).map p = some true) : ∃ t, M.ReachesBy P t ∧ p t = true := by
  obtain ⟨t, ht, hp⟩ := exists_path P is p h
  exact ⟨t, (ReachesBy.init hi).path ht, hp⟩

/-- A run given as a list of actions whose last state passes a test reaches a state that passes it. -/
theorem exists_of_exec {s : σ} (is : List ι) (p : σ → Bool) (hi : M.init s) (h : (M.exec s is).map p = some true) :
    ∃ t, M.Reachable t ∧ p t = true :=
  exists_of_execBy _ is p hi h

end Lts
end HpServer
