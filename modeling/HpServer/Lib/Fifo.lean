import Mathlib.Data.List.Rotate
import Mathlib.Data.Nat.ModEq

/-!
# Bounded queues, as lists and in a circle of slots

A queue with a bound is the list of what it holds, the oldest element first. Kept in a list of slots, it is a window
that goes round at the end of the slots (`window`): it grows by writing the slot behind it, and shrinks by moving its
begin.
-/

namespace HpServer
namespace Fifo

/-- What can be asked of a queue. -/
inductive Op (α : Type*) where
  | push (item : α)
  | pop

/-- What a queue answers: whether there was room, or the oldest element. -/
inductive Answer (α : Type*) where
  | pushed (success : Bool)
  | popped (item : Option α)
  deriving DecidableEq

variable {α : Type*}

def call (capacity : Nat) (l : List α) : Op α → List α × Answer α
  | .push item => if l.length < capacity then (l ++ [item], .pushed true) else (l, .pushed false)
  | .pop => (l.tail, .popped l.head?)

/-- Some calls one after another, and what they answer. -/
def callAll (capacity : Nat) (l : List α) : List (Op α) → List α × List (Answer α)
  | [] => (l, [])
  | op :: ops => ((callAll capacity (call capacity l op).1 ops).1,
    (call capacity l op).2 :: (callAll capacity (call capacity l op).1 ops).2)

/-! ## The circle -/

/-- The `n` elements from the slot `start` on, going round at the end. -/
def window (slots : List α) (start n : Nat) : List α := (slots.rotate start).take n

theorem length_window {slots : List α} {n : Nat} (hn : n ≤ slots.length) (start : Nat) :
    (window slots start n).length = n := by
  rw [window, List.length_take, List.length_rotate, Nat.min_eq_left hn]

theorem getElem?_window {slots : List α} {start n i : Nat} (hi : i < n) (hn : n ≤ slots.length) :
    (window slots start n)[i]? = slots[(i + start) % slots.length]? := by
  rw [window, List.getElem?_take_of_lt hi, List.getElem?_rotate (Nat.lt_of_lt_of_le hi hn)]

/-- The begin of a window is the same slot, counted round or not. -/
theorem window_mod (slots : List α) (start n : Nat) : window slots (start % slots.length) n = window slots start n := by
  rw [window, List.rotate_mod, window]

/-- Two places of a circle are the same slot only if they are the same place. -/
theorem place_inj {len start i j : Nat} (hi : i < len) (hj : j < len)
    (h : (i + start) % len = (j + start) % len) : i = j := by
  have hmod : Nat.ModEq len i j := Nat.ModEq.add_right_cancel' start h
  rwa [Nat.ModEq, Nat.mod_eq_of_lt hi, Nat.mod_eq_of_lt hj] at hmod

/-- A slot outside the window may be written. -/
theorem window_set {slots : List α} {n place : Nat} (start : Nat) (hn : n ≤ place) (hplace : place < slots.length)
    (item : α) :
    window (slots.set ((place + start) % slots.length) item) start n = window slots start n := by
  refine List.ext_getElem? fun i => ?_
  by_cases hi : i < n
  · have hne : (place + start) % slots.length ≠ (i + start) % slots.length := by
      intro heq
      have := place_inj hplace (by omega) heq
      omega
    have hlength : (slots.set ((place + start) % slots.length) item).length = slots.length := List.length_set
    rw [getElem?_window hi (by omega), getElem?_window hi (by omega), hlength, List.getElem?_set_ne hne]
  · have hout : ∀ l : List α, l.length = slots.length → (window l start n)[i]? = none := by
      intro l hl
      rw [List.getElem?_eq_none]
      rw [length_window (by omega)]
      omega
    rw [hout _ List.length_set, hout _ rfl]

/-- Writing the slot behind the window adds an element at its end. -/
theorem window_concat {slots : List α} {n : Nat} (hn : n < slots.length) (start : Nat) (item : α) :
    window (slots.set ((n + start) % slots.length) item) start (n + 1) = window slots start n ++ [item] := by
  have hslot : (n + start) % slots.length < slots.length := Nat.mod_lt _ (by omega)
  have hlength : (slots.set ((n + start) % slots.length) item).length = slots.length := List.length_set
  have hlast : (window (slots.set ((n + start) % slots.length) item) start (n + 1))[n]? = some item := by
    rw [getElem?_window (Nat.lt_succ_self n) (by omega), hlength, List.getElem?_set_self hslot]
  have htake : (window (slots.set ((n + start) % slots.length) item) start (n + 1)).take n = window slots start n := by
    rw [window, List.take_take, Nat.min_eq_left (Nat.le_succ n)]
    exact window_set start (Nat.le_refl n) hn item
  have hall := List.take_append_drop n (window (slots.set ((n + start) % slots.length) item) start (n + 1))
  rw [← hall, htake]
  congr 1
  refine List.ext_getElem? fun i => ?_
  rw [List.getElem?_drop]
  cases i with
  | zero => exact hlast
  | succ i =>
    rw [List.getElem?_eq_none]
    · rfl
    · rw [length_window (by omega)]
      omega

/-- The first element of a window, and the window that begins behind it. -/
theorem window_succ {slots : List α} {n : Nat} (hn : n < slots.length) (start : Nat) :
    ∃ item, slots[start % slots.length]? = some item ∧
      window slots start (n + 1) = item :: window slots (start + 1) n := by
  have hslot : start % slots.length < slots.length := Nat.mod_lt _ (by omega)
  refine ⟨slots[start % slots.length], List.getElem?_eq_getElem hslot, List.ext_getElem? fun i => ?_⟩
  cases i with
  | zero =>
    rw [getElem?_window (Nat.succ_pos n) (by omega), Nat.zero_add, List.getElem?_eq_getElem hslot]
    rfl
  | succ i =>
    rw [List.getElem?_cons_succ]
    by_cases hi : i < n
    · rw [getElem?_window (by omega) (by omega), getElem?_window hi (by omega), Nat.add_right_comm, Nat.add_assoc]
    · rw [List.getElem?_eq_none, List.getElem?_eq_none]
      · rw [length_window (by omega)]
        omega
      · rw [length_window (by omega)]
        omega

end Fifo
end HpServer
