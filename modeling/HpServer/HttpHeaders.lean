import HpServer.Basic

/-!
# Header maps

What the two parsers, the message builder and the cache share: the map from header names to values and the names that
are not passed on. An `std::unordered_map` is the list of its entries in the order of iteration, with no key twice.
-/

namespace HpServer

/-- A header map: names and values. -/
abbrev Headers := List (Bytes × Bytes)

/-- `to_lower_ascii` of the parsers, which is `std::tolower` in the C locale, and of `persistent_cache.cpp`. -/
def toLowerAscii (value : Bytes) : Bytes := value.map fun c => if 65 ≤ c ∧ c ≤ 90 then c + 32 else c

/-- `is_hop_by_hop_header`, the same in `http_message_builder.cpp` and `persistent_cache.cpp`. -/
def isHopByHopHeader (key : Bytes) : Bool :=
  key = ascii "connection" || key = ascii "proxy-connection" || key = ascii "keep-alive" || key = ascii "te" ||
    key = ascii "trailer" || key = ascii "transfer-encoding" || key = ascii "upgrade"

/-- A header as the messages have it, without the line end. -/
def headerLine (field : Bytes × Bytes) : Bytes := field.1 ++ ascii ": " ++ field.2

namespace Headers

/-- `headers[key] = value`. -/
def set (headers : Headers) (key value : Bytes) : Headers :=
  if headers.any fun f => f.1 = key then headers.map fun f => if f.1 = key then (key, value) else f
  else headers ++ [(key, value)]

/-- The headers that are passed on. -/
def endToEnd (headers : Headers) : Headers := headers.filter fun f => !isHopByHopHeader f.1

/-- No name is there twice. -/
def Distinct (headers : Headers) : Prop := (headers.map Prod.fst).Nodup

/-- Neither a name nor a value has a line end in it. -/
def Plain (headers : Headers) : Prop := ∀ f ∈ headers, (13 ∉ f.1 ∧ 10 ∉ f.1) ∧ 13 ∉ f.2 ∧ 10 ∉ f.2

end Headers

/-- The header that is being read: `current_header_field_`, `current_header_value_` and `parsing_last_was_value_` of
both parsers. -/
structure HeaderBuffer where
  field : Bytes := []
  value : Bytes := []
  lastWasValue : Bool := false

namespace HeaderBuffer

/-- `finish_pending_header`. -/
def finishPendingHeader (b : HeaderBuffer) (headers : Headers) : Headers :=
  if b.field = [] then headers else headers.set (toLowerAscii b.field) b.value

/-- `on_header_field_cb`: the first part of a name finishes the header before it. -/
def onHeaderField (b : HeaderBuffer) (headers : Headers) (bytes : Bytes) : HeaderBuffer × Headers :=
  if b.lastWasValue then ({ field := bytes }, b.finishPendingHeader headers)
  else ({ b with field := b.field ++ bytes }, headers)

/-- `on_header_value_cb`. -/
def onHeaderValue (b : HeaderBuffer) (bytes : Bytes) : HeaderBuffer :=
  { b with value := b.value ++ bytes, lastWasValue := true }

end HeaderBuffer

/-- How far a parser has come with a message. -/
inductive ParseState where
  | reading
  | messageComplete
  | upgradedTunnel
  | parseError
  deriving DecidableEq

/-! ## Lengths -/

/-- The number a string of decimal digits stands for. -/
def readDecimal (text : Bytes) : Option Nat :=
  if text ≠ [] ∧ (text.all fun c => 48 ≤ c && c ≤ 57) = true then
    some (text.foldl (fun n c => 10 * n + (c.toNat - 48)) 0) else none

/-- A header value without the blanks around it. -/
def stripBlanks (value : Bytes) : Bytes :=
  ((value.dropWhile fun c => c = 32 || c = 9).reverse.dropWhile fun c => c = 32 || c = 9).reverse

/-- The number a `content-length` value stands for. -/
def lengthValue (value : Bytes) : Option Nat := readDecimal (stripBlanks value)

/-- A digit as a character and as a byte. -/
theorem digit_byte {c : Char} (h : c.isDigit) : c.toNat.toUInt8.toNat = c.toNat ∧ 48 ≤ c.toNat ∧ c.toNat ≤ 57 := by
  simp only [Char.isDigit, Bool.and_eq_true, decide_eq_true_eq, ge_iff_le, UInt32.le_iff_toNat_le] at h
  have hc : 48 ≤ c.toNat ∧ c.toNat ≤ 57 := h
  refine ⟨?_, hc⟩
  rw [Nat.toUInt8_eq, UInt8.toNat_ofNat']
  omega

theorem mem_decimal {n : Nat} {b : UInt8} (hb : b ∈ decimal n) : 48 ≤ b ∧ b ≤ 57 := by
  obtain ⟨c, hc, rfl⟩ := List.mem_map.mp hb
  obtain ⟨hbyte, h48, h57⟩ := digit_byte (Nat.isDigit_of_mem_toDigits (by decide) (by decide) hc)
  rw [UInt8.le_iff_toNat_le, UInt8.le_iff_toNat_le, hbyte]
  exact ⟨h48, h57⟩

theorem decimal_ne_nil (n : Nat) : decimal n ≠ [] := by
  simp [decimal]

/-- Reading digits as bytes is reading them as characters. -/
theorem foldl_digits (cs : List Char) (hcs : ∀ c ∈ cs, c.isDigit) (n : Nat) :
    (cs.map fun c => c.toNat.toUInt8).foldl (fun n (b : UInt8) => 10 * n + (b.toNat - 48)) n =
      Nat.ofDigitChars 10 cs n := by
  induction cs generalizing n with
  | nil => rfl
  | cons c cs ih =>
    rw [List.map_cons, List.foldl_cons, Nat.ofDigitChars_cons, (digit_byte (hcs c (by simp))).1]
    exact ih (fun d hd => hcs d (List.mem_cons_of_mem _ hd)) _

theorem readDecimal_decimal (n : Nat) : readDecimal (decimal n) = some n := by
  have hdigits : ((decimal n).all fun c => 48 ≤ c && c ≤ 57) = true := by
    rw [List.all_eq_true]
    intro c hc
    simpa using mem_decimal hc
  rw [readDecimal, if_pos ⟨decimal_ne_nil n, hdigits⟩, decimal, foldl_digits _ ?_, Nat.ofDigitChars_ten_toDigits]
  intro c hc
  exact Nat.isDigit_of_mem_toDigits (by decide) (by decide) hc

/-- A list none of whose elements is dropped. -/
theorem dropWhile_of_forall {α : Type} {p : α → Bool} {l : List α} (h : ∀ a ∈ l, p a = false) : l.dropWhile p = l := by
  cases l with
  | nil => rfl
  | cons a l => rw [List.dropWhile_cons_of_neg (by simp [h a])]

/-- A length that is written is read back. -/
theorem lengthValue_decimal (n : Nat) : lengthValue (decimal n) = some n := by
  have hblank : ∀ b ∈ decimal n, (b = 32 || b = 9) = false := by
    intro b hb
    obtain ⟨h48, -⟩ := mem_decimal hb
    rw [Bool.or_eq_false_iff, decide_eq_false_iff_not, decide_eq_false_iff_not]
    constructor <;> rintro rfl <;> exact absurd h48 (by decide)
  rw [lengthValue, stripBlanks, dropWhile_of_forall hblank, dropWhile_of_forall (by simpa using hblank),
    List.reverse_reverse, readDecimal_decimal]

end HpServer
