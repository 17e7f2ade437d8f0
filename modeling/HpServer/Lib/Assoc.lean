import Mathlib.Data.List.Nodup

/-!
# Association lists

A finite map as the list of its entries. Where no key is there twice, a pair that is an entry is what `List.lookup`
finds, and the only entry of its key.
-/

namespace HpServer
namespace Assoc

variable {κ ν : Type*} [DecidableEq κ]

/-- What is found is an entry. -/
theorem mem_of_lookup {l : List (κ × ν)} {k : κ} {v : ν} (h : l.lookup k = some v) : (k, v) ∈ l := by
  obtain ⟨l₁, l₂, rfl, -⟩ := List.lookup_eq_some_iff.mp h
  simp

/-- An entry is found, if no key is there twice. -/
theorem lookup_of_mem {l : List (κ × ν)} (hl : (l.map Prod.fst).Nodup) {k : κ} {v : ν} (h : (k, v) ∈ l) :
    l.lookup k = some v := by
  induction l with
  | nil => cases h
  | cons p l ih =>
    rw [List.map_cons, List.nodup_cons] at hl
    rcases List.mem_cons.mp h with rfl | h
    · rw [List.lookup_cons_self]
    · have hne : (k == p.1) = false := by
        rw [beq_eq_false_iff_ne]
        rintro rfl
        exact hl.1 (List.mem_map.mpr ⟨_, h, rfl⟩)
      rw [List.lookup_cons, hne]
      exact ih hl.2 h

/-- Where no key is there twice, the entries of a key are the one it stands with. -/
theorem filter_of_mem {l : List (κ × ν)} (hl : (l.map Prod.fst).Nodup) {k : κ} {v : ν} (h : (k, v) ∈ l) :
    l.filter (fun e => e.1 = k) = [(k, v)] := by
  induction l with
  | nil => cases h
  | cons p l ih =>
    rw [List.map_cons, List.nodup_cons] at hl
    rcases List.mem_cons.mp h with rfl | h
    · rw [List.filter_cons_of_pos (by simp), List.filter_eq_nil_iff.mpr]
      intro e he hkey
      exact hl.1 (List.mem_map.mpr ⟨e, he, of_decide_eq_true hkey⟩)
    · have hne : p.1 ≠ k := by
        rintro rfl
        exact hl.1 (List.mem_map.mpr ⟨_, h, rfl⟩)
      rw [List.filter_cons_of_neg (by simp [hne])]
      exact ih hl.2 h

/-- An entry and the entries of the other keys are all entries. -/
theorem perm_cons_filter {l : List (κ × ν)} (hl : (l.map Prod.fst).Nodup) {k : κ} {v : ν} (h : (k, v) ∈ l) :
    ((k, v) :: l.filter fun e => e.1 ≠ k).Perm l := by
  induction l with
  | nil => cases h
  | cons p l ih =>
    rw [List.map_cons, List.nodup_cons] at hl
    rcases List.mem_cons.mp h with rfl | h
    · have hkeep : l.filter (fun e => e.1 ≠ k) = l := by
        refine List.filter_eq_self.mpr fun e he => ?_
        simp only [ne_eq, decide_not, Bool.not_eq_true', decide_eq_false_iff_not]
        rintro rfl
        exact hl.1 (List.mem_map.mpr ⟨e, he, rfl⟩)
      rw [List.filter_cons_of_neg (by simp), hkeep]
    · have hne : p.1 ≠ k := by
        rintro rfl
        exact hl.1 (List.mem_map.mpr ⟨_, h, rfl⟩)
      rw [List.filter_cons_of_pos (by simp [hne])]
      exact (List.Perm.swap ..).trans ((ih hl.2 h).cons p)

omit [DecidableEq κ] in
/-- A key that is not there is not found. -/
theorem lookup_of_notMem [BEq κ] [LawfulBEq κ] {l : List (κ × ν)} {k : κ} (hk : k ∉ l.map Prod.fst) :
    l.lookup k = none := by
  rw [List.lookup_eq_none_iff]
  intro e he
  rw [bne_iff_ne]
  rintro rfl
  exact hk (List.mem_map.mpr ⟨e, he, rfl⟩)

omit [DecidableEq κ] in
/-- Two maps with the same keys in the same order, none of them twice, and the same values are equal. -/
theorem eq_of_lookup_eq [BEq κ] [LawfulBEq κ] {l l' : List (κ × ν)} (hkeys : l.map Prod.fst = l'.map Prod.fst)
    (hl : (l.map Prod.fst).Nodup) (h : ∀ k, l.lookup k = l'.lookup k) : l = l' := by
  induction l generalizing l' with
  | nil => exact (List.map_eq_nil_iff.mp hkeys.symm).symm
  | cons p l ih =>
    cases l' with
    | nil => cases hkeys
    | cons p' l' =>
      obtain ⟨k, v⟩ := p
      obtain ⟨k', v'⟩ := p'
      obtain ⟨rfl, htail⟩ := List.cons.inj hkeys
      rw [List.map_cons, List.nodup_cons] at hl
      have hv : v = v' := by simpa using h k
      subst hv
      congr 1
      refine ih htail hl.2 fun key => ?_
      by_cases hkey : key = k
      · -- neither tail has the key of the first entry
        rw [hkey, lookup_of_notMem hl.1, lookup_of_notMem (htail ▸ hl.1)]
      · have hne : (key == k) = false := by simp [hkey]
        have htails := h key
        rwa [List.lookup_cons, List.lookup_cons, hne] at htails

end Assoc
end HpServer
