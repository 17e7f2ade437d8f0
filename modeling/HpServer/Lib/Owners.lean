import Mathlib.Data.List.Nodup
import Mathlib.Data.List.Perm.Subperm
import Mathlib.Logic.Function.Basic

/-!
# Variables that own resources

Resources are opened and closed, and a variable that owns one closes it when it is reset, goes out of scope or gets
another. `Valid` is that this goes well: what a variable owns is open, no two variables own the same, and what is open
is owned. A program that opens, closes and moves only as `acquire`, `release` and `move` do keeps it, so that it
neither closes twice nor forgets.
-/

namespace HpServer

/-- The variables, and the resources that were opened and not closed. -/
structure Owners (V ρ : Type*) where
  var : V → Option ρ
  opened : List ρ

namespace Owners

variable {V ρ : Type*} [DecidableEq V] [DecidableEq ρ]

/-- Nothing is open. -/
def empty : Owners V ρ := ⟨fun _ => none, []⟩

/-- `v` gets a resource that was just opened. -/
def acquire (o : Owners V ρ) (v : V) (x : ρ) : Owners V ρ := ⟨Function.update o.var v (some x), x :: o.opened⟩

/-- `v` closes what it owns. -/
def release (o : Owners V ρ) (v : V) : Owners V ρ :=
  ⟨Function.update o.var v none, (o.var v).elim o.opened o.opened.erase⟩

/-- `v` closes what it owns and takes over what `w` owns. -/
def move (o : Owners V ρ) (v w : V) : Owners V ρ :=
  ⟨Function.update (Function.update o.var v (o.var w)) w none, (o.release v).opened⟩

omit [DecidableEq ρ] in
/-- A variable owns what it was given. -/
@[simp] theorem var_acquire_self (o : Owners V ρ) (v : V) (x : ρ) : (o.acquire v x).var v = some x :=
  Function.update_self ..

omit [DecidableEq ρ] in
/-- The other variables own what they owned. -/
@[simp] theorem var_acquire_of_ne (o : Owners V ρ) {v w : V} (h : w ≠ v) (x : ρ) : (o.acquire v x).var w = o.var w :=
  Function.update_of_ne h ..

/-- A variable that was reset owns nothing. -/
@[simp] theorem var_release_self (o : Owners V ρ) (v : V) : (o.release v).var v = none := Function.update_self ..

@[simp] theorem var_release_of_ne (o : Owners V ρ) {v w : V} (h : w ≠ v) : (o.release v).var w = o.var w :=
  Function.update_of_ne h ..

@[simp] theorem var_move_right (o : Owners V ρ) (v w : V) : (o.move v w).var w = none := Function.update_self ..

@[simp] theorem var_move_left (o : Owners V ρ) {v w : V} (h : v ≠ w) : (o.move v w).var v = o.var w := by
  change Function.update (Function.update o.var v (o.var w)) w none v = o.var w
  rw [Function.update_of_ne h, Function.update_self]

@[simp] theorem var_move_of_ne (o : Owners V ρ) {u v w : V} (hv : u ≠ v) (hw : u ≠ w) : (o.move v w).var u = o.var u := by
  change Function.update (Function.update o.var v (o.var w)) w none u = o.var u
  rw [Function.update_of_ne hw, Function.update_of_ne hv]

/-- Every variable owns something open, nothing open has two owners, and everything open has one. -/
structure Valid (o : Owners V ρ) : Prop where
  nodup : o.opened.Nodup
  live : ∀ {v x}, o.var v = some x → x ∈ o.opened
  unique : ∀ {v w x}, o.var v = some x → o.var w = some x → v = w
  owned : ∀ {x}, x ∈ o.opened → ∃ v, o.var v = some x

omit [DecidableEq V] [DecidableEq ρ] in
/-- It holds when nothing is open. -/
theorem valid_empty : (empty : Owners V ρ).Valid where
  nodup := List.nodup_nil
  live h := by cases h
  unique h := by cases h
  owned h := by cases h

omit [DecidableEq ρ] in
/-- A resource is opened that is not open already. -/
theorem Valid.acquire {o : Owners V ρ} (h : o.Valid) {v : V} (hv : o.var v = none) {x : ρ} (hx : x ∉ o.opened) :
    (o.acquire v x).Valid := by
  have hcases : ∀ {w y}, (o.acquire v x).var w = some y → w = v ∧ y = x ∨ w ≠ v ∧ o.var w = some y := by
    intro w y hw
    by_cases hwv : w = v
    · rw [hwv, var_acquire_self, Option.some.injEq] at hw
      exact .inl ⟨hwv, hw.symm⟩
    · rw [var_acquire_of_ne o hwv] at hw
      exact .inr ⟨hwv, hw⟩
  refine ⟨List.nodup_cons.mpr ⟨hx, h.nodup⟩, ?_, ?_, ?_⟩
  · intro w y hw
    rcases hcases hw with ⟨-, rfl⟩ | ⟨-, hold⟩
    · exact List.mem_cons_self
    · exact List.mem_cons_of_mem _ (h.live hold)
  · intro w u y hw hu
    rcases hcases hw with ⟨rfl, rfl⟩ | ⟨-, hw'⟩ <;> rcases hcases hu with ⟨rfl, hy⟩ | ⟨-, hu'⟩
    · rfl
    · exact absurd (h.live hu') hx
    · exact absurd (hy ▸ h.live hw') hx
    · exact h.unique hw' hu'
  · intro y hy
    rcases List.mem_cons.mp hy with rfl | hold
    · exact ⟨v, var_acquire_self ..⟩
    · obtain ⟨w, hw⟩ := h.owned hold
      have hne : w ≠ v := by
        rintro rfl
        rw [hv] at hw
        cases hw
      exact ⟨w, by rwa [var_acquire_of_ne o hne]⟩

/-- Only what the variable owned is closed. -/
theorem Valid.mem_release {o : Owners V ρ} (h : o.Valid) (v : V) {x : ρ} :
    x ∈ (o.release v).opened ↔ x ∈ o.opened ∧ o.var v ≠ some x := by
  rw [release]
  cases hv : o.var v with
  | none => simp
  | some y =>
    rw [Option.elim_some, h.nodup.mem_erase_iff, and_comm, ne_comm, Option.some_inj.ne]

/-- Resetting a variable leaves nothing owned that is closed, and nothing open without an owner. -/
theorem Valid.release {o : Owners V ρ} (h : o.Valid) (v : V) : (o.release v).Valid := by
  have hcases : ∀ {w y}, (o.release v).var w = some y → w ≠ v ∧ o.var w = some y := by
    intro w y hw
    by_cases hwv : w = v
    · rw [hwv, var_release_self] at hw
      cases hw
    · rw [var_release_of_ne o hwv] at hw
      exact ⟨hwv, hw⟩
  refine ⟨?_, ?_, ?_, ?_⟩
  · rw [Owners.release]
    cases o.var v with
    | none => exact h.nodup
    | some y => exact h.nodup.erase y
  · intro w y hw
    obtain ⟨hne, hold⟩ := hcases hw
    exact (h.mem_release v).mpr ⟨h.live hold, fun hv => hne (h.unique hold hv)⟩
  · intro w u y hw hu
    exact h.unique (hcases hw).2 (hcases hu).2
  · intro y hy
    obtain ⟨hopen, hv⟩ := (h.mem_release v).mp hy
    obtain ⟨w, hw⟩ := h.owned hopen
    have hne : w ≠ v := by
      rintro rfl
      exact hv hw
    exact ⟨w, by rwa [var_release_of_ne o hne]⟩

/-- Moving changes the owner and opens nothing; what the target owned before is closed. -/
theorem Valid.move {o : Owners V ρ} (h : o.Valid) {v w : V} (hne : v ≠ w) : (o.move v w).Valid := by
  have hcases : ∀ {u y}, (o.move v w).var u = some y → u = v ∧ o.var w = some y ∨ u ≠ v ∧ u ≠ w ∧ o.var u = some y := by
    intro u y hu
    by_cases huw : u = w
    · rw [huw, var_move_right] at hu
      cases hu
    · by_cases huv : u = v
      · rw [huv, var_move_left o hne] at hu
        exact .inl ⟨huv, hu⟩
      · rw [var_move_of_ne o huv huw] at hu
        exact .inr ⟨huv, huw, hu⟩
  have hother : ∀ {u y}, u ≠ v → o.var u = some y → y ∈ (o.move v w).opened := fun hu hy =>
    (h.mem_release v).mpr ⟨h.live hy, fun hv => hu (h.unique hy hv)⟩
  refine ⟨(h.release v).nodup, ?_, ?_, ?_⟩
  · intro u y hu
    rcases hcases hu with ⟨-, hy⟩ | ⟨huv, -, hy⟩
    · exact hother hne.symm hy
    · exact hother huv hy
  · intro u t y hu ht
    rcases hcases hu with ⟨rfl, hy⟩ | ⟨-, huw, hy⟩ <;> rcases hcases ht with ⟨rfl, hy'⟩ | ⟨-, htw, hy'⟩
    · rfl
    · exact absurd (h.unique hy' hy) htw
    · exact absurd (h.unique hy hy') huw
    · exact h.unique hy hy'
  · intro y hy
    obtain ⟨hopen, hv⟩ := (h.mem_release v).mp hy
    obtain ⟨u, hu⟩ := h.owned hopen
    by_cases huw : u = w
    · exact ⟨v, by rw [var_move_left o hne, ← huw, hu]⟩
    · have huv : u ≠ v := by
        rintro rfl
        exact hv hu
      exact ⟨u, by rwa [var_move_of_ne o huv huw]⟩

omit [DecidableEq V] [DecidableEq ρ] in
/-- When no variable owns anything, nothing is open. -/
theorem Valid.opened_eq_nil {o : Owners V ρ} (h : o.Valid) (hnone : ∀ v, o.var v = none) : o.opened = [] := by
  refine List.eq_nil_iff_forall_not_mem.mpr fun x hx => ?_
  obtain ⟨v, hv⟩ := h.owned hx
  rw [hnone v] at hv
  cases hv

omit [DecidableEq V] [DecidableEq ρ] in
/-- There are not more resources than variables that own one. -/
theorem Valid.length_le {o : Owners V ρ} (h : o.Valid) {vs : List V} (hvs : ∀ v, (o.var v).isSome = true → v ∈ vs) :
    o.opened.length ≤ vs.length := by
  have hsub : o.opened ⊆ vs.filterMap o.var := by
    intro x hx
    obtain ⟨v, hv⟩ := h.owned hx
    exact List.mem_filterMap.mpr ⟨v, hvs v (by rw [hv]; rfl), hv⟩
  exact Nat.le_trans (h.nodup.subperm hsub).length_le (List.length_filterMap_le ..)

end Owners
end HpServer
