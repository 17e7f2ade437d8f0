import Mathlib.Data.List.Basic

/-!
# Lines and blank lines

A text is a list of lines, each with the line end `cr lf` after it; an empty line ends it. `atFirst` splits a list at
the first place where a delimiter begins, and `lines` cuts it at every line end. The rules below say that both read
back what was written line by line, provided no line has a `cr` in it.
-/

namespace HpServer
namespace Lines

variable {α : Type*} [DecidableEq α]

/-- What stands before and after the first place where `sep` begins. -/
def atFirst (sep : List α) : List α → Option (List α × List α)
  | [] => if sep = [] then some ([], []) else none
  | a :: l =>
    if sep <+: a :: l then some ([], (a :: l).drop sep.length)
    else (atFirst sep l).map fun p => (a :: p.1, p.2)

/-- Put an element before the first of some lists. -/
def consFirst (a : α) : List (List α) → List (List α)
  | [] => [[a]]
  | l :: ls => (a :: l) :: ls

/-- The lines of a list, cut at every `cr lf`. -/
def lines (cr lf : α) : List α → List (List α)
  | [] => [[]]
  | [a] => [[a]]
  | a :: b :: l => if a = cr ∧ b = lf then [] :: lines cr lf l else consFirst a (lines cr lf (b :: l))

/-- The delimiter does not begin in a part without its first element. -/
theorem atFirst_append {c : α} {sep p : List α} (hp : c ∉ p) (l : List α) :
    atFirst (c :: sep) (p ++ l) = (atFirst (c :: sep) l).map fun q => (p ++ q.1, q.2) := by
  induction p with
  | nil => simp
  | cons a p ih =>
    simp only [List.mem_cons, not_or] at hp
    rw [List.cons_append, atFirst, if_neg (by simp [hp.1]), ih hp.2, Option.map_map]
    rfl

theorem atFirst_self {sep : List α} (hsep : sep ≠ []) (l : List α) : atFirst sep (sep ++ l) = some ([], l) := by
  cases sep with
  | nil => exact absurd rfl hsep
  | cons c sep =>
    have hpre : c :: sep <+: c :: (sep ++ l) := List.prefix_append (c :: sep) l
    rw [List.cons_append, atFirst, if_pos hpre, List.length_cons, List.drop_succ_cons, List.drop_left]

/-- The two parts are what stands around the delimiter. -/
theorem eq_of_atFirst {sep l a b : List α} (h : atFirst sep l = some (a, b)) : l = a ++ sep ++ b := by
  induction l generalizing a with
  | nil =>
    rw [atFirst] at h
    split at h
    · cases h
      simp_all
    · cases h
  | cons x l ih =>
    rw [atFirst] at h
    split at h
    · next hpre =>
      cases h
      obtain ⟨t, ht⟩ := hpre
      rw [← ht, List.drop_left, List.nil_append]
    · obtain ⟨p, hp, heq⟩ := Option.map_eq_some_iff.mp h
      cases heq
      rw [ih hp, List.cons_append, List.cons_append]

/-- No other place where the delimiter begins comes before the first. -/
theorem length_le_of_atFirst {sep l a b before after : List α} (h : atFirst sep l = some (a, b))
    (heq : l = before ++ sep ++ after) :
    a.length ≤ before.length := by
  induction l generalizing a before with
  | nil =>
    rw [atFirst] at h
    split at h
    · cases h
      exact Nat.zero_le _
    · cases h
  | cons x l ih =>
    rw [atFirst] at h
    split at h
    · cases h
      exact Nat.zero_le _
    · next hpre =>
      obtain ⟨p, hp, hcons⟩ := Option.map_eq_some_iff.mp h
      cases hcons
      cases before with
      | nil => exact absurd ⟨after, heq.symm⟩ hpre
      | cons y before =>
        rw [List.cons_append, List.cons_append, List.cons.injEq] at heq
        exact Nat.succ_le_succ (ih hp heq.2)

/-- Lines without a `cr`, none of them empty but perhaps the first, and an empty line after them: the first empty line
is that one. -/
theorem atFirst_intercalate {cr lf : α} (hne : cr ≠ lf) (body : List α) {l : List α} {ls : List (List α)} (hl : cr ∉ l)
    (hls : ∀ m ∈ ls, cr ∉ m ∧ m ≠ []) :
    atFirst [cr, lf, cr, lf] ([cr, lf].intercalate (l :: ls) ++ [cr, lf, cr, lf] ++ body) =
      some ([cr, lf].intercalate (l :: ls), body) := by
  induction ls generalizing l with
  | nil =>
    rw [List.intercalate_singleton, List.append_assoc, atFirst_append hl, atFirst_self (by simp)]
    simp
  | cons m ls ih =>
    obtain ⟨hm, hne'⟩ := hls m (by simp)
    obtain ⟨x, m, rfl⟩ := List.exists_cons_of_ne_nil hne'
    have hx : x ≠ cr := fun h => hm (by simp [h])
    have hrest := ih hm fun k hk => hls k (List.mem_cons_of_mem _ hk)
    have hcons : [cr, lf].intercalate ((x :: m) :: ls) = x :: ([cr, lf].intercalate (m :: ls)) := by
      cases ls <;> simp [List.intercalate_cons_cons]
    rw [List.intercalate_cons_cons]
    simp only [List.append_assoc] at hrest ⊢
    rw [atFirst_append hl]
    simp only [List.cons_append, List.nil_append, hcons] at hrest ⊢
    -- neither the `cr` nor the `lf` that end the line begin an empty line
    rw [atFirst, if_neg (by simp [Ne.symm hx]), atFirst, if_neg (by simp [hne]), hrest]
    simp

theorem lines_of_not_mem {cr lf : α} {l : List α} (hl : cr ∉ l) : lines cr lf l = [l] := by
  induction l with
  | nil => rfl
  | cons a l ih =>
    simp only [List.mem_cons, not_or] at hl
    cases l with
    | nil => rfl
    | cons b l => rw [lines, if_neg (fun h => hl.1 h.1.symm), ih hl.2, consFirst]

theorem lines_append {cr lf : α} {l : List α} (hl : cr ∉ l) (t : List α) :
    lines cr lf (l ++ [cr, lf] ++ t) = l :: lines cr lf t := by
  induction l with
  | nil => simp [lines]
  | cons a l ih =>
    simp only [List.mem_cons, not_or] at hl
    have hrest := ih hl.2
    cases l with
    | nil =>
      simp only [List.nil_append, List.cons_append] at hrest ⊢
      rw [lines, if_neg (fun h => hl.1 h.1.symm), hrest, consFirst]
    | cons b l =>
      simp only [List.cons_append] at hrest ⊢
      rw [lines, if_neg (fun h => hl.1 h.1.symm), hrest, consFirst]

/-- Cutting what was written line by line gives the lines. -/
theorem lines_intercalate {cr lf : α} {l : List α} {ls : List (List α)} (hl : cr ∉ l) (hls : ∀ m ∈ ls, cr ∉ m) :
    lines cr lf ([cr, lf].intercalate (l :: ls)) = l :: ls := by
  induction ls generalizing l with
  | nil => rw [List.intercalate_singleton, lines_of_not_mem hl]
  | cons m ls ih =>
    rw [List.intercalate_cons_cons, lines_append hl, ih (hls m (by simp)) fun k hk => hls k (List.mem_cons_of_mem _ hk)]

omit [DecidableEq α] in
/-- Lines with a line end after each are lines with a line end between them, and one more. -/
theorem flatMap_eq_intercalate (eol : List α) (l : List α) (ls : List (List α)) :
    (l :: ls).flatMap (· ++ eol) = eol.intercalate (l :: ls) ++ eol := by
  induction ls generalizing l with
  | nil => simp
  | cons m ls ih => rw [List.flatMap_cons, ih, List.intercalate_cons_cons, List.append_assoc (l ++ eol)]

end Lines
end HpServer
