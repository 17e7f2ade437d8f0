import HpServer.HttpRequestParser
import HpServer.IpFilter
import Mathlib.Data.List.TakeWhile

/-!
# Numbers in texts

`strtoul` and `stoi` read a text the same way: blanks, a sign, and the digits behind it. `leadingNumber` is what these
digits stand for; both functions are equations in it. A numeral, that is digits and nothing else, is read as the
number it stands for.
-/

namespace HpServer

/-- What stands behind the blanks and the sign of a text. -/
def unsigned (text : Bytes) : Bytes :=
  match text.dropWhile isSpace with
  | 45 :: rest => rest
  | 43 :: rest => rest
  | rest => rest

/-- Behind the blanks stands a minus sign. -/
def isNegative (text : Bytes) : Bool := (text.dropWhile isSpace).head? = some 45

/-- The digits a number is read from. -/
def leadingDigits (text : Bytes) : Bytes := (unsigned text).takeWhile isDigit

/-- The number they stand for. -/
def leadingNumber (text : Bytes) : Nat := (leadingDigits text).foldl (fun n c => 10 * n + (c.toNat - 48)) 0

/-- The same with the sign. -/
def signedNumber (text : Bytes) : Int := if isNegative text then -(leadingNumber text : Int) else leadingNumber text

/-- `strtoul` in terms of the number the text begins with: it saturates, and a minus sign negates modulo 2^64. -/
theorem strtoul_eq (text : Bytes) :
    strtoul text =
      if UInt64.size ≤ leadingNumber text then UInt64.size - 1
      else if isNegative text then (UInt64.size - leadingNumber text) % UInt64.size
      else leadingNumber text := by
  unfold strtoul leadingNumber leadingDigits unsigned isNegative
  cases text.dropWhile isSpace with
  | nil => rfl
  | cons c rest =>
    by_cases hminus : c = 45
    · subst hminus
      rfl
    · by_cases hplus : c = 43
      · subst hplus
        rfl
      · simp [hminus, hplus]

/-- `stoi` in terms of the same number: it throws if there is none or if it does not fit. -/
theorem stoi_eq (text : Bytes) :
    stoi text =
      if leadingDigits text = [] ∨ signedNumber text < -2147483648 ∨ 2147483647 < signedNumber text then none
      else some (signedNumber text) := by
  unfold stoi signedNumber leadingNumber leadingDigits unsigned isNegative
  cases text.dropWhile isSpace with
  | nil => rfl
  | cons c rest =>
    by_cases hminus : c = 45
    · subst hminus
      rfl
    · by_cases hplus : c = 43
      · subst hplus
        rfl
      · simp [hminus, hplus]

/-- There are digits, and the number they stand for with the sign is an `int`. -/
def FitsInt (text : Bytes) : Prop := leadingDigits text ≠ [] ∧ -2147483648 ≤ signedNumber text ∧
      signedNumber text ≤ 2147483647

instance (text : Bytes) : Decidable (FitsInt text) :=
  inferInstanceAs (Decidable (leadingDigits text ≠ [] ∧ -2147483648 ≤ signedNumber text ∧ signedNumber text ≤ 2147483647))

/-- A text that fits is read as its number. -/
theorem stoi_of_fitsInt {text : Bytes} (h : FitsInt text) : stoi text = some (signedNumber text) := by
  obtain ⟨hdigits, hlow, hhigh⟩ := h
  rw [stoi_eq, if_neg]
  rintro (h | h | h)
  · exact hdigits h
  · omega
  · omega

/-- `stoi` throws on any other text. -/
theorem stoi_of_not_fitsInt {text : Bytes} (h : ¬ FitsInt text) : stoi text = none := by
  rw [stoi_eq, if_pos]
  by_contra hnot
  simp only [not_or, Int.not_lt] at hnot
  exact h hnot

/-! ## Numerals -/

/-- A digit is no blank. -/
theorem isDigit_not_isSpace {c : UInt8} (h : isDigit c = true) : isSpace c = false := by
  simp only [isDigit, Bool.and_eq_true, decide_eq_true_eq, UInt8.le_iff_toNat_le, UInt8.reduceToNat] at h
  simp only [isSpace, Bool.or_eq_false_iff, Bool.and_eq_false_iff, decide_eq_false_iff_not, UInt8.le_iff_toNat_le,
    UInt8.reduceToNat, ← UInt8.toNat_inj]
  omega

/-- A numeral is digits, at least one, and the number is theirs. -/
theorem readDecimal_eq_some_iff {text : Bytes} {n : Nat} :
    readDecimal text = some n ↔
      text ≠ [] ∧ (∀ c ∈ text, isDigit c = true) ∧ text.foldl (fun n c => 10 * n + (c.toNat - 48)) 0 = n := by
  have hall : (text.all fun c => 48 ≤ c && c ≤ 57) = true ↔ ∀ c ∈ text, isDigit c = true := List.all_eq_true
  rw [readDecimal]
  split
  · next h =>
    rw [Option.some_inj]
    exact ⟨fun heq => ⟨h.1, hall.mp h.2, heq⟩, fun hall => hall.2.2⟩
  · next h =>
    simp only [reduceCtorEq, false_iff, not_and]
    intro hne hdigits
    exact absurd ⟨hne, hall.mpr hdigits⟩ h

section Numeral

variable {text : Bytes} {n : Nat} (h : readDecimal text = some n)

include h

/-- A numeral has neither blanks nor a sign before its digits. -/
theorem dropWhile_isSpace_of_readDecimal : text.dropWhile isSpace = text :=
  dropWhile_of_forall fun c hc => isDigit_not_isSpace ((readDecimal_eq_some_iff.mp h).2.1 c hc)

/-- A numeral does not begin with a sign or a blank. -/
theorem ne_sign_of_readDecimal {c : UInt8} (hc : isDigit c = false) (rest : Bytes) : text ≠ c :: rest := by
  rintro rfl
  have hdigit := (readDecimal_eq_some_iff.mp h).2.1 c (by simp)
  rw [hc] at hdigit
  contradiction

/-- A numeral is not negative. -/
theorem isNegative_of_readDecimal : isNegative text = false := by
  rw [isNegative, dropWhile_isSpace_of_readDecimal h, decide_eq_false_iff_not, List.head?_eq_some_iff]
  rintro ⟨rest, hrest⟩
  exact ne_sign_of_readDecimal h (by decide) rest hrest

/-- All of a numeral is digits. -/
theorem leadingDigits_of_readDecimal : leadingDigits text = text := by
  have hunsigned : unsigned text = text := by
    unfold unsigned
    rw [dropWhile_isSpace_of_readDecimal h]
    split
    · exact absurd rfl (ne_sign_of_readDecimal h (by decide) _)
    · exact absurd rfl (ne_sign_of_readDecimal h (by decide) _)
    · rfl
  rw [leadingDigits, hunsigned, List.takeWhile_eq_self_iff]
  exact (readDecimal_eq_some_iff.mp h).2.1

/-- The number a numeral begins with is the one it stands for. -/
theorem leadingNumber_of_readDecimal : leadingNumber text = n := by
  rw [leadingNumber, leadingDigits_of_readDecimal h]
  exact (readDecimal_eq_some_iff.mp h).2.2

theorem signedNumber_of_readDecimal : signedNumber text = n := by
  rw [signedNumber, isNegative_of_readDecimal h, if_neg Bool.false_ne_true, leadingNumber_of_readDecimal h]

/-- `strtoul` reads a numeral that fits. -/
theorem strtoul_of_readDecimal (hn : n < UInt64.size) : strtoul text = n := by
  rw [strtoul_eq, leadingNumber_of_readDecimal h, isNegative_of_readDecimal h, if_neg (Nat.not_le.mpr hn),
    if_neg Bool.false_ne_true]

/-- A numeral that is not too large fits. -/
theorem fitsInt_of_readDecimal (hn : n ≤ 2147483647) : FitsInt text := by
  rw [FitsInt, leadingDigits_of_readDecimal h, signedNumber_of_readDecimal h]
  exact ⟨(readDecimal_eq_some_iff.mp h).1, by omega, by omega⟩

/-- So does `stoi`. -/
theorem stoi_of_readDecimal (hn : n ≤ 2147483647) : stoi text = some (n : Int) := by
  rw [stoi_of_fitsInt (fitsInt_of_readDecimal h hn), signedNumber_of_readDecimal h]

end Numeral

end HpServer
