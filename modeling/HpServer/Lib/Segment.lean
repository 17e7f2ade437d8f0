import Mathlib.Data.List.Nodup

/-!
# Linked segments in memory

A memory in which some addresses hold a value and the address of a successor. `Segment link a cells b` says that the
successors lead from `a` to `b` through the addresses of `cells`, which hold the values of `cells`; `b` itself may
hold anything. The rules say what stays of a segment when the memory changes elsewhere, and how it grows at its end
and shrinks at its front.
-/

namespace HpServer
namespace Segment

variable {A α : Type*}

/-- The cells lead from the first address to the second. -/
def Leads (link : A → Option (α × A)) : A → List (A × α) → A → Prop
  | a, [], b => a = b
  | a, (x, v) :: cells, b => x = a ∧ ∃ n, link a = some (v, n) ∧ Leads link n cells b

/-- The addresses of the cells. -/
def addresses (cells : List (A × α)) : List A := cells.map Prod.fst

/-- The values of the cells. -/
def values (cells : List (A × α)) : List α := cells.map Prod.snd

/-- Values, part by part. -/
@[simp] theorem values_append (cells cells' : List (A × α)) : values (cells ++ cells') = values cells ++ values cells' :=
  List.map_append

/-- Addresses, part by part. -/
@[simp] theorem addresses_append (cells cells' : List (A × α)) :
    addresses (cells ++ cells') = addresses cells ++ addresses cells' :=
  List.map_append

@[simp] theorem values_eq_nil {cells : List (A × α)} : values cells = [] ↔ cells = [] := List.map_eq_nil_iff

variable {link link' : A → Option (α × A)}

/-- A change of the memory away from the cells leaves the segment. -/
theorem Leads.congr {cells : List (A × α)} {b : A} (heq : ∀ x ∈ addresses cells, link' x = link x) :
    ∀ {a : A}, Leads link a cells b → Leads link' a cells b := by
  induction cells with
  | nil => exact fun h => h
  | cons cell cells ih =>
    intro a h
    obtain ⟨hx, n, hn, hrest⟩ := h
    refine ⟨hx, n, ?_, ih (fun x hx => heq x (List.mem_cons_of_mem _ hx)) hrest⟩
    rw [← hn, ← hx]
    exact heq cell.1 List.mem_cons_self

/-- The end becomes a cell once it holds a value and a successor. -/
theorem Leads.snoc {cells : List (A × α)} {b c : A} {v : α} (hb : link b = some (v, c)) :
    ∀ {a : A}, Leads link a cells b → Leads link a (cells ++ [(b, v)]) c := by
  induction cells with
  | nil =>
    intro a h
    cases h
    exact ⟨rfl, c, hb, rfl⟩
  | cons cell cells ih =>
    intro a h
    obtain ⟨hx, n, hn, hrest⟩ := h
    exact ⟨hx, n, hn, ih hrest⟩

/-- Every cell holds a value and a successor. -/
theorem Leads.isSome_of_mem {cells : List (A × α)} {b x : A} (hx : x ∈ addresses cells) :
    ∀ {a : A}, Leads link a cells b → (link x).isSome = true := by
  induction cells with
  | nil => cases hx
  | cons cell cells ih =>
    intro a h
    obtain ⟨heq, n, hn, hrest⟩ := h
    rcases List.mem_cons.mp hx with hxa | hmem
    · rw [hxa, heq, hn]
      rfl
    · exact ih hmem hrest

/-- When no address comes twice, the segment is empty just when its end is where it begins. -/
theorem Leads.nil_iff {cells : List (A × α)} {a b : A} (h : Leads link a cells b) (hb : b ∉ addresses cells) :
    cells = [] ↔ a = b := by
  cases cells with
  | nil => exact ⟨fun _ => h, fun _ => rfl⟩
  | cons cell cells =>
    obtain ⟨hx, -⟩ := h
    constructor
    · exact fun hnil => absurd hnil (List.cons_ne_nil _ _)
    · intro hab
      rw [← hab, ← hx] at hb
      exact absurd List.mem_cons_self hb

end Segment
end HpServer
