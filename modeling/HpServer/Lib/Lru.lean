import Mathlib.Data.List.Induction
import Mathlib.Data.List.Nodup
import Mathlib.Data.Nat.Find
import HpServer.Lib.Assoc

/-!
# Lists in the order of last use

A cache with a limit on its entries and one on their weight, as the list of what it holds, the entry used last in
front. Whatever is used moves to the front, and from the back is dropped what the limits do not leave room for.
-/

namespace HpServer
namespace Lru

/-- The limits of a cache, and what its values weigh. -/
structure Limits (ν : Type*) where
  maxEntries : Nat
  maxBytes : Nat
  weight : ν → Nat

variable {κ ν : Type*}

/-- What some entries weigh together. -/
def totalWeight (weight : ν → Nat) : List (κ × ν) → Nat
  | [] => 0
  | e :: l => weight e.2 + totalWeight weight l

/-- Both limits are kept. -/
def Fits (lim : Limits ν) (l : List (κ × ν)) : Prop := l.length ≤ lim.maxEntries ∧ totalWeight lim.weight l ≤ lim.maxBytes

instance (lim : Limits ν) (l : List (κ × ν)) : Decidable (Fits lim l) := inferInstanceAs (Decidable (_ ∧ _))

/-- The longest prefix that keeps the limits. -/
def trim (lim : Limits ν) (l : List (κ × ν)) : List (κ × ν) :=
  l.take (Nat.findGreatest (fun n => Fits lim (l.take n)) l.length)

/-- What can be asked of a cache. -/
inductive Op (κ ν : Type*) where
  | put (key : κ) (value : ν)
  | get (key : κ)
  | withValue (key : κ)
  | erase (key : κ)
  | clear

/-- What a cache answers: nothing, the value that was found, or whether there was one. -/
inductive Answer (ν : Type*) where
  | done
  | value (found : Option ν)
  | erased (found : Bool)
  deriving DecidableEq

section

variable [DecidableEq κ]

/-- The entries of the other keys. -/
def others (l : List (κ × ν)) (key : κ) : List (κ × ν) := l.filter fun e => e.1 ≠ key

/-- A key is used: its entry comes to the front. -/
def touch (l : List (κ × ν)) (key : κ) : List (κ × ν) :=
  match l.lookup key with
  | none => l
  | some value => (key, value) :: others l key

/-- What a call leaves, and what it answers. -/
def call (lim : Limits ν) (l : List (κ × ν)) : Op κ ν → List (κ × ν) × Answer ν
  | .put key value => (if lim.maxEntries = 0 ∨ lim.maxBytes = 0 then l
    else trim lim ((key, value) :: others l key), .done)
  | .get key | .withValue key => (touch l key, .value (l.lookup key))
  | .erase key => (others l key, .erased (l.lookup key).isSome)
  | .clear => ([], .done)

/-- Some calls one after another, and what they answer. -/
def callAll (lim : Limits ν) (l : List (κ × ν)) : List (Op κ ν) → List (κ × ν) × List (Answer ν)
  | [] => (l, [])
  | op :: ops => ((callAll lim (call lim l op).1 ops).1, (call lim l op).2 :: (callAll lim (call lim l op).1 ops).2)

/-- At each `put`, what is held and the new value weigh less than a bound together. -/
def Below (lim : Limits ν) (bound : Nat) (l : List (κ × ν)) : List (Op κ ν) → Prop
  | [] => True
  | op :: ops =>
    (∀ key value, op = .put key value → totalWeight lim.weight l + lim.weight value < bound) ∧
      Below lim bound (call lim l op).1 ops

end

/-! ## Trimming -/

/-- The empty list fits. -/
theorem fits_nil (lim : Limits ν) : Fits lim ([] : List (κ × ν)) := ⟨Nat.zero_le _, Nat.zero_le _⟩

/-- The weight is additive. -/
theorem totalWeight_append (weight : ν → Nat) (l l' : List (κ × ν)) :
    totalWeight weight (l ++ l') = totalWeight weight l + totalWeight weight l' := by
  induction l with
  | nil => simp [totalWeight]
  | cons e l ih =>
    rw [List.cons_append, totalWeight, totalWeight, ih]
    omega

/-- What fits is left as it is. -/
theorem trim_of_fits {lim : Limits ν} {l : List (κ × ν)} (h : Fits lim l) : trim lim l = l := by
  have hall : Nat.findGreatest (fun n => Fits lim (l.take n)) l.length = l.length := by
    rw [Nat.findGreatest_eq_iff]
    refine ⟨Nat.le_refl _, fun _ => by rwa [List.take_length], ?_⟩
    intro n hlt hle
    omega
  rw [trim, hall, List.take_length]

/-- What does not keep the limits loses its last entry first. -/
theorem trim_concat {lim : Limits ν} {l : List (κ × ν)} {e : κ × ν} (h : ¬Fits lim (l ++ [e])) :
    trim lim (l ++ [e]) = trim lim l := by
  have htake : ∀ n ≤ l.length, (l ++ [e]).take n = l.take n := fun n hn => List.take_append_of_le_length hn
  have hgreatest : Nat.findGreatest (fun n => Fits lim ((l ++ [e]).take n)) (l ++ [e]).length =
      Nat.findGreatest (fun n => Fits lim (l.take n)) l.length := by
    have hle := Nat.findGreatest_le (P := fun n => Fits lim (l.take n)) l.length
    rw [Nat.findGreatest_eq_iff, List.length_append, List.length_singleton]
    refine ⟨by omega, fun _ => ?_, ?_⟩
    · rw [htake _ hle]
      exact Nat.findGreatest_spec (P := fun n => Fits lim (l.take n)) (Nat.zero_le _) (fits_nil lim)
    · intro n hlt hn
      by_cases hlast : n = l.length + 1
      · rwa [List.take_of_length_le (by simp [hlast])]
      · rw [htake n (by omega)]
        exact Nat.findGreatest_is_greatest hlt (by omega)
  rw [trim, trim, hgreatest, htake _ (Nat.findGreatest_le _)]

/-! ## The entries of the other keys -/

section

variable [DecidableEq κ]

/-- The entry of the key goes. -/
theorem others_cons_self (l : List (κ × ν)) (key : κ) (value : ν) : others ((key, value) :: l) key = others l key :=
  List.filter_cons_of_neg (by simp)

/-- An entry of another key stays. -/
theorem others_cons_of_ne {e : κ × ν} {key : κ} (h : e.1 ≠ key) (l : List (κ × ν)) :
    others (e :: l) key = e :: others l key :=
  List.filter_cons_of_pos (by simp [h])

/-- A key that is not there changes nothing. -/
theorem others_of_notMem {l : List (κ × ν)} {key : κ} (h : key ∉ l.map Prod.fst) : others l key = l := by
  refine List.filter_eq_self.mpr fun e he => ?_
  have hne : e.1 ≠ key := by
    rintro rfl
    exact h (List.mem_map.mpr ⟨e, he, rfl⟩)
  simp [hne]

/-- An entry and the others weigh as much as all. -/
theorem totalWeight_others (weight : ν → Nat) {l : List (κ × ν)} (hl : (l.map Prod.fst).Nodup) {key : κ} {value : ν}
    (h : (key, value) ∈ l) : totalWeight weight l = weight value + totalWeight weight (others l key) := by
  induction l with
  | nil => cases h
  | cons e l ih =>
    rw [List.map_cons, List.nodup_cons] at hl
    rcases List.mem_cons.mp h with rfl | h
    · rw [others_cons_self, others_of_notMem hl.1, totalWeight]
    · have hne : e.1 ≠ key := by
        rintro rfl
        exact hl.1 (List.mem_map.mpr ⟨_, h, rfl⟩)
      rw [others_cons_of_ne hne, totalWeight, totalWeight, ih hl.2 h]
      omega

/-- An entry that is put in front has its key to itself. -/
theorem nodup_cons_others {l : List (κ × ν)} (hl : (l.map Prod.fst).Nodup) (key : κ) (value : ν) :
    (((key, value) :: others l key).map Prod.fst).Nodup := by
  rw [List.map_cons, List.nodup_cons]
  refine ⟨?_, hl.sublist (List.filter_sublist.map Prod.fst)⟩
  intro hmem
  obtain ⟨e, he, hkey⟩ := List.mem_map.mp hmem
  have hne := (List.mem_filter.mp he).2
  simp [hkey] at hne

end

/-! ## Caches of two sizes

A limit on the entries alone, and two lists that answer the same calls under two such limits. The entries that only
the larger one has are used and erased without the smaller one, so the smaller is no prefix of the larger; but it is a
sublist, and as long as it has room, the larger one has as much. -/

/-- No limit on the weight. -/
def entryLimit (maxEntries : Nat) : Limits ν := ⟨maxEntries, 1, fun _ => 0⟩

/-- Without weights there is no weight. -/
theorem totalWeight_entryLimit (n : Nat) (l : List (κ × ν)) : totalWeight (entryLimit n : Limits ν).weight l = 0 := by
  induction l with
  | nil => rfl
  | cons e l ih => rw [totalWeight, ih, entryLimit]

/-- Then trimming keeps the first entries. -/
theorem trim_entryLimit (n : Nat) (l : List (κ × ν)) : trim (entryLimit n) l = l.take n := by
  induction l using List.reverseRecOn with
  | nil => rw [trim_of_fits (fits_nil _), List.take_nil]
  | append_singleton l e ih =>
    by_cases hlength : (l ++ [e]).length ≤ n
    · rw [List.take_of_length_le hlength]
      refine trim_of_fits ⟨hlength, ?_⟩
      rw [totalWeight_entryLimit]
      exact Nat.zero_le _
    · rw [trim_concat fun hfits => hlength hfits.1, ih]
      rw [List.length_append, List.length_singleton] at hlength
      exact (List.take_append_of_le_length (by omega)).symm

/-- Of two lists, one a sublist of the other, prefixes are kept; the one of the shorter list is a sublist of the other
if it is not the longer list that loses more. -/
theorem sublist_take {α : Type*} {l m : List α} (h : l.Sublist m) {n k : Nat} (hnk : m.length + n ≤ k + l.length) :
    (l.take n).Sublist (m.take k) := by
  induction h generalizing n k with
  | slnil => simp
  | @cons l m a h ih =>
    have hlength := h.length_le
    rw [List.length_cons] at hnk
    cases k with
    | zero => omega
    | succ k =>
      rw [List.take_succ_cons]
      exact (ih (by omega)).cons a
  | @cons_cons l m a h ih =>
    have hlength := h.length_le
    rw [List.length_cons, List.length_cons] at hnk
    cases n with
    | zero => simp
    | succ n =>
      cases k with
      | zero => omega
      | succ k =>
        rw [List.take_succ_cons, List.take_succ_cons]
        exact (ih (by omega)).cons_cons a

/-- A sublist loses no more to a filter than the list. -/
theorem length_filter_add_le {α : Type*} {l m : List α} (h : l.Sublist m) (p : α → Bool) :
    (m.filter p).length + l.length ≤ m.length + (l.filter p).length := by
  have hout := (h.filter fun a => !p a).length_le
  have hl := l.length_eq_length_filter_add p
  have hm := m.length_eq_length_filter_add p
  omega

/-- The list of a smaller cache beside that of a larger one. -/
structure Within (n N : Nat) (small large : List (κ × ν)) : Prop where
  keys : (large.map Prod.fst).Nodup
  sublist : small.Sublist large
  bound : small.length ≤ n
  room : large.length + n ≤ N + small.length

variable {n N : Nat} {small large : List (κ × ν)}

theorem within_nil (h : n ≤ N) : Within n N ([] : List (κ × ν)) [] :=
  ⟨List.nodup_nil, List.nil_sublist _, Nat.zero_le n, by simpa using h⟩

variable [DecidableEq κ]

/-- What the smaller cache finds, the larger one finds. -/
theorem Within.lookup (h : Within n N small large) {key : κ} {value : ν} (hsmall : small.lookup key = some value) :
    large.lookup key = some value :=
  Assoc.lookup_of_mem h.keys (h.sublist.subset (Assoc.mem_of_lookup hsmall))

/-- Erasing keeps it. -/
theorem Within.others (h : Within n N small large) (key : κ) : Within n N (others small key) (others large key) where
  keys := h.keys.sublist (List.filter_sublist.map Prod.fst)
  sublist := h.sublist.filter _
  bound := Nat.le_trans (List.length_filter_le ..) h.bound
  room := by
    have hlost := length_filter_add_le h.sublist fun e => decide (e.1 ≠ key)
    have hroom := h.room
    simp only [Lru.others]
    omega

theorem length_others_lt {l : List (κ × ν)} {key : κ} {value : ν} (h : l.lookup key = some value) :
    (others l key).length < l.length := by
  refine List.length_filter_lt_length_iff_exists.mpr ⟨(key, value), Assoc.mem_of_lookup h, ?_⟩
  simp

theorem others_of_lookup_eq_none {l : List (κ × ν)} {key : κ} (h : l.lookup key = none) : others l key = l := by
  refine others_of_notMem fun hmem => ?_
  obtain ⟨e, he, rfl⟩ := List.mem_map.mp hmem
  have hne := List.lookup_eq_none_iff.mp h e he
  simp at hne

/-- A key is used: in both, in the larger one alone, or in none. -/
theorem Within.touch (h : Within n N small large) (key : κ) : Within n N (touch small key) (touch large key) := by
  have hothers := h.others key
  have hbound := h.bound
  have hroom := h.room
  have hroom' := hothers.room
  rw [Lru.touch, Lru.touch]
  cases hsmall : small.lookup key with
  | some value =>
    rw [h.lookup hsmall]
    have hlt := length_others_lt hsmall
    refine ⟨nodup_cons_others h.keys key value, hothers.sublist.cons_cons _, ?_, ?_⟩
    · rw [List.length_cons]
      omega
    · rw [List.length_cons, List.length_cons]
      omega
  | none =>
    cases hlarge : large.lookup key with
    | none => exact h
    | some value =>
      have hlt := length_others_lt hlarge
      have hsublist := hothers.sublist
      rw [others_of_lookup_eq_none hsmall] at hsublist
      have hroom'' : ((key, value) :: Lru.others large key).length + n ≤ N + small.length := by
        rw [List.length_cons]
        omega
      exact ⟨nodup_cons_others h.keys key value, hsublist.cons _, hbound, hroom''⟩

/-- `put` under a limit on the entries alone. -/
theorem call_put_entryLimit (n : Nat) (l : List (κ × ν)) (key : κ) (value : ν) :
    (call (entryLimit n) l (.put key value)).1 = if n = 0 then l else ((key, value) :: others l key).take n := by
  rw [call, trim_entryLimit]
  simp [entryLimit]

/-- If the larger cache drops an entry, the smaller one is full and drops one too; if it is the same, it is the last
of both. -/
theorem Within.put (h : Within n N small large) (hnN : n ≤ N) (key : κ) (value : ν) :
    Within n N (call (entryLimit n) small (.put key value)).1 (call (entryLimit N) large (.put key value)).1 := by
  have hothers := h.others key
  have hroom := hothers.room
  rw [call_put_entryLimit, call_put_entryLimit]
  by_cases hN : N = 0
  · rw [if_pos hN, if_pos (by omega)]
    exact h
  · rw [if_neg hN]
    have hkeys : ((((key, value) :: Lru.others large key).take N).map Prod.fst).Nodup :=
      (nodup_cons_others h.keys key value).sublist ((List.take_sublist _ _).map Prod.fst)
    by_cases hn : n = 0
    · rw [if_pos hn]
      have hnil : small = [] := List.eq_nil_of_length_eq_zero (by have := h.bound; omega)
      refine ⟨hkeys, hnil ▸ List.nil_sublist _, h.bound, ?_⟩
      have hle := List.length_take_le N ((key, value) :: Lru.others large key)
      omega
    · rw [if_neg hn]
      have hlonger : ((key, value) :: Lru.others large key).length + n ≤
          N + ((key, value) :: Lru.others small key).length := by
        rw [List.length_cons, List.length_cons]
        omega
      refine ⟨hkeys, sublist_take (hothers.sublist.cons_cons _) hlonger, List.length_take_le _ _, ?_⟩
      rw [List.length_take, List.length_take]
      omega

/-- Two caches stay so after a call. -/
theorem Within.call (h : Within n N small large) (hnN : n ≤ N) (op : Op κ ν) :
    Within n N (call (entryLimit n) small op).1 (call (entryLimit N) large op).1 := by
  cases op with
  | put key value => exact h.put hnN key value
  | get key => exact h.touch key
  | withValue key => exact h.touch key
  | erase key => exact h.others key
  | clear => exact within_nil hnN

/-- A call that finds a value in the smaller cache finds it in the larger one. -/
theorem Within.answer (h : Within n N small large) (op : Op κ ν) {value : ν}
    (hsmall : (Lru.call (entryLimit n) small op).2 = .value (some value)) :
    (Lru.call (entryLimit N) large op).2 = .value (some value) := by
  cases op with
  | get key | withValue key => exact congrArg Answer.value (h.lookup (Answer.value.inj hsmall))
  | put key value | erase key | clear => cases hsmall

end Lru
end HpServer
