import Mathlib.Data.List.Basic

/-!
# Reading a text in turns

A reader is a function from a text to what it has read and the text behind it. A message is read by a loop that takes
one record, or several of a repeated field, in a turn, until nothing is left; each turn takes something.
`parse_eq_parse` is the rule by which turns that take several records are turns that take one, and `parse_repeated`
gives what it asks for in the case of a repeated field.
-/

namespace HpServer
namespace Turns

variable {α : Type*}

/-- Read a message in turns; each takes something from the begin of the text. -/
def loop {σ : Type*} (turn : σ → List α → Option (σ × List α)) : Nat → σ → List α → Option σ
  | _, s, [] => some s
  | 0, _, _ :: _ => none
  | fuel + 1, s, b :: bs => (turn s (b :: bs)).bind fun p => loop turn fuel p.1 p.2

/-- Read a whole message into `s`. -/
def parse {σ : Type*} (turn : σ → List α → Option (σ × List α)) (s : σ) (bs : List α) : Option σ :=
  loop turn bs.length s bs

/-- The values of a repeated field one behind the other: after each the same tag, of one symbol, means one more. -/
def repeated {σ : Type*} [DecidableEq α] (tag : α) (one : σ → List α → Option (σ × List α)) :
    Nat → σ → List α → Option (σ × List α)
  | 0, _, _ => none
  | fuel + 1, s, bs =>
    (one s bs).bind fun p =>
      match p.2 with
      | [] => some p
      | b :: rest => if b = tag then repeated tag one fuel p.1 rest else some p

section

variable {σ : Type*} {turn : σ → List α → Option (σ × List α)}

/-- A turn takes at least one byte. -/
def Consumes (turn : σ → List α → Option (σ × List α)) : Prop :=
  ∀ s bs p, turn s bs = some p → p.2.length < bs.length

/-- One turn for each byte is enough. -/
theorem loop_fuel (hturn : Consumes turn) : ∀ (fuel : Nat) (s : σ) (bs : List α), bs.length ≤ fuel →
    loop turn fuel s bs = parse turn s bs := by
  intro fuel
  induction fuel using Nat.strongRecOn with
  | ind fuel ih =>
    intro s bs hle
    rcases Nat.lt_or_ge bs.length fuel with hlt | hge
    · cases bs with
      | nil => simp [loop, parse]
      | cons b bs =>
        cases fuel with
        | zero => simp at hlt
        | succ fuel =>
          rw [parse, List.length_cons, loop, loop]
          cases hp : turn s (b :: bs) with
          | none => rfl
          | some p =>
            have hshort := hturn _ _ _ hp
            rw [List.length_cons] at hshort hlt
            rw [Option.bind_some, Option.bind_some, ih fuel (by omega) _ _ (by omega),
              ih bs.length (by omega) _ _ (by omega)]
    · rw [parse, Nat.le_antisymm hle hge]

/-- The empty message sets nothing. -/
@[simp] theorem parse_nil (s : σ) : parse turn s [] = some s := by simp [parse, loop]

/-- Reading a message that is not empty: one turn, then the rest. -/
theorem parse_cons (hturn : Consumes turn) (s : σ) {bs : List α} (h : bs ≠ []) :
    parse turn s bs = (turn s bs).bind fun p => parse turn p.1 p.2 := by
  cases bs with
  | nil => exact absurd rfl h
  | cons b bs =>
    rw [parse, List.length_cons, loop]
    cases hp : turn s (b :: bs) with
    | none => rfl
    | some p =>
      have hshort := hturn _ _ _ hp
      rw [List.length_cons] at hshort
      exact loop_fuel hturn _ _ _ (by omega)

/-- A record at the begin that one turn takes, or fails at. -/
theorem parse_append (hturn : Consumes turn) {s : σ} {record rest : List α} {next : Option σ} (hne : record ≠ [])
    (h : turn s (record ++ rest) = next.map fun x => (x, rest)) :
    parse turn s (record ++ rest) = next.bind fun x => parse turn x rest := by
  rw [parse_cons hturn s (List.append_ne_nil_of_left_ne_nil hne rest), h, Option.bind_map]
  rfl

/-- Turns that each read as much as some plain turns read, and fail where these fail, read the same messages. -/
theorem parse_eq_parse {plain : σ → List α → Option (σ × List α)} (hturn : Consumes turn)
    (h : ∀ s bs, bs ≠ [] → parse plain s bs = (turn s bs).bind fun p => parse plain p.1 p.2) (s : σ) (bs : List α) :
    parse turn s bs = parse plain s bs := by
  induction hlen : bs.length using Nat.strongRecOn generalizing s bs with
  | ind n ih =>
    by_cases hnil : bs = []
    · rw [hnil, parse_nil, parse_nil]
    · rw [parse_cons hturn s hnil, h s bs hnil]
      cases hp : turn s bs with
      | none => rfl
      | some p => exact ih p.2.length (hlen ▸ hturn _ _ _ hp) p.1 p.2 rfl

/-- Nor do the values of a repeated field make the text longer, if each of them does not. -/
theorem length_le_of_repeated [DecidableEq α] {tag : α} {one : σ → List α → Option (σ × List α)}
    (hone : ∀ s bs p, one s bs = some p → p.2.length ≤ bs.length) :
    ∀ {fuel : Nat} {s : σ} {bs : List α} {p : σ × List α}, repeated tag one fuel s bs = some p → p.2.length ≤ bs.length
  | 0, _, _, _, h => by simp [repeated] at h
  | fuel + 1, s, bs, p, h => by
    rw [repeated] at h
    obtain ⟨⟨s', ptr⟩, hptr, h⟩ := Option.bind_eq_some_iff.mp h
    have hle := hone _ _ _ hptr
    cases ptr with
    | nil =>
      cases h
      exact hle
    | cons b rest =>
      simp only at h
      split at h
      · have := length_le_of_repeated hone h
        rw [List.length_cons] at hle
        omega
      · cases h
        exact hle

/-- The values of a repeated field are read as plain turns read them one by one. -/
theorem parse_repeated [DecidableEq α] {plain : σ → List α → Option (σ × List α)} (hplain : Consumes plain) {tag : α}
    {one : σ → List α → Option (σ × List α)} (hone : ∀ s bs, plain s (tag :: bs) = one s bs) :
    ∀ (fuel : Nat) (s : σ) (bs : List α), bs.length < fuel →
      parse plain s (tag :: bs) = (repeated tag one fuel s bs).bind fun p => parse plain p.1 p.2 := by
  intro fuel
  induction fuel with
  | zero => intro s bs h; omega
  | succ fuel ih =>
    intro s bs h
    rw [parse_cons hplain s (List.cons_ne_nil _ _), hone, repeated, Option.bind_assoc]
    cases hp : one s bs with
    | none => rfl
    | some p =>
      have hshort : p.2.length < bs.length + 1 := by
        have := hplain s (tag :: bs) p (by rw [hone, hp])
        rwa [List.length_cons] at this
      obtain ⟨s', rest⟩ := p
      cases rest with
      | nil => rfl
      | cons b rest =>
        by_cases hb : b = tag
        · simp only [Option.bind_some, hb, if_true]
          rw [List.length_cons] at hshort
          exact ih s' rest (by omega)
        · simp [hb]

end

end Turns
end HpServer
