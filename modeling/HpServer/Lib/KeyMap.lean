import Mathlib.Data.List.Induction
import Mathlib.Logic.Function.Basic

/-!
# Maps under calls

A map from keys to values, as a function, and the calls that change it or ask it. What it has for a key after some
calls is what the last call that wrote the key has put there.
-/

namespace HpServer
namespace KeyMap

/-- What can be asked of a map. -/
inductive Op (κ ν : Type*) where
  | insert (key : κ) (value : ν)
  | remove (key : κ)
  | search (key : κ)

/-- What a map answers: nothing, whether the key was there, or the value it has. -/
inductive Answer (ν : Type*) where
  | done
  | removed (existed : Bool)
  | found (value : Option ν)
  deriving DecidableEq

variable {κ ν : Type*}

/-- A call that puts something under the key or takes it away. -/
def Op.Writes (key : κ) : Op κ ν → Prop
  | insert k _ => k = key
  | remove k => k = key
  | search _ => False

/-- The last call that writes the key inserts the value. -/
def LastInserts (key : κ) (value : ν) (ops : List (Op κ ν)) : Prop :=
  ∃ before after, ops = before ++ .insert key value :: after ∧ ∀ op ∈ after, ¬op.Writes key

/-- Before any call nothing was inserted. -/
theorem not_lastInserts_nil (key : κ) (value : ν) : ¬LastInserts key value ([] : List (Op κ ν)) := by
  rintro ⟨before, after, heq, -⟩
  cases before <;> cases heq

/-- The last call decides, or, if it wrote another key, the calls before it. -/
theorem lastInserts_concat {key : κ} {value : ν} {ops : List (Op κ ν)} {op : Op κ ν} :
    LastInserts key value (ops ++ [op]) ↔ op = .insert key value ∨ (¬op.Writes key ∧ LastInserts key value ops) := by
  constructor
  · rintro ⟨before, after, heq, hafter⟩
    rcases List.eq_nil_or_concat after with rfl | ⟨rest, last, rfl⟩
    · exact .inl (List.singleton_inj.mp (List.append_inj' heq rfl).2)
    · rw [List.concat_eq_append, ← List.cons_append, ← List.append_assoc] at heq
      obtain ⟨rfl, hlast⟩ := List.append_inj' heq rfl
      obtain rfl := List.singleton_inj.mp hlast
      refine .inr ⟨hafter op (by simp), before, rest, rfl, ?_⟩
      intro o ho
      exact hafter o (by simp [ho])
  · rintro (rfl | ⟨hop, before, after, rfl, hafter⟩)
    · exact ⟨ops, [], rfl, fun o ho => by cases ho⟩
    · refine ⟨before, after ++ [op], by simp, ?_⟩
      intro o ho
      rcases List.mem_append.mp ho with ho | ho
      · exact hafter o ho
      · rwa [List.mem_singleton.mp ho]

variable [DecidableEq κ]

/-- What a call leaves, and what it answers. -/
def call (m : κ → Option ν) : Op κ ν → (κ → Option ν) × Answer ν
  | .insert key value => (Function.update m key (some value), .done)
  | .remove key => (Function.update m key none, .removed (m key).isSome)
  | .search key => (m, .found (m key))

/-- Some calls one after another, and what they answer. -/
def callAll (m : κ → Option ν) : List (Op κ ν) → (κ → Option ν) × List (Answer ν)
  | [] => (m, [])
  | op :: ops => ((callAll (call m op).1 ops).1, (call m op).2 :: (callAll (call m op).1 ops).2)

/-- One more call. -/
theorem callAll_concat (m : κ → Option ν) (ops : List (Op κ ν)) (op : Op κ ν) :
    (callAll m (ops ++ [op])).1 = (call (callAll m ops).1 op).1 := by
  induction ops generalizing m with
  | nil => rfl
  | cons o ops ih => exact ih (call m o).1

/-- What a call leaves under a key. -/
theorem call_eq_some {m : κ → Option ν} {op : Op κ ν} {key : κ} {value : ν} :
    (call m op).1 key = some value ↔ op = .insert key value ∨ (¬op.Writes key ∧ m key = some value) := by
  cases op with
  | insert k v =>
    by_cases hk : key = k
    · subst hk
      simp [call, Op.Writes]
    · simp [call, Op.Writes, hk, Ne.symm hk]
  | remove k =>
    by_cases hk : key = k
    · subst hk
      simp [call, Op.Writes]
    · simp [call, Op.Writes, hk, Ne.symm hk]
  | search k => simp [call, Op.Writes]

/-- A map that was empty has for a key the value that was inserted last, if the key was not removed after that. -/
theorem callAll_eq_some {ops : List (Op κ ν)} {key : κ} {value : ν} :
    (callAll (fun _ => none) ops).1 key = some value ↔ LastInserts key value ops := by
  induction ops using List.reverseRecOn with
  | nil =>
    constructor
    · intro h
      cases h
    · intro h
      exact absurd h (not_lastInserts_nil key value)
  | append_singleton ops op ih => rw [callAll_concat, call_eq_some, lastInserts_concat, ih]

end KeyMap
end HpServer
