import HpServer.Lib.Assoc
import HpServer.Lib.Lines
import HpServer.MessageBuilder

/-!
# Messages as text

How a reader takes a message apart: at the first empty line into a head and a body, and the head into lines. A message
that was written line by line is read back, whatever its body is, if no line has a line end in it. A header map has
each name once, in lower case (`Headers.Normal`), so a field that is passed on is there once too.
-/

namespace HpServer

open MessageBuilder

/-- The lines of a message's head. -/
def headLines (head : Bytes) : List Bytes := Lines.lines 13 10 head

/-- The head and the body of a message, cut at the first empty line. -/
def splitMessage (message : Bytes) : Option (Bytes × Bytes) := Lines.atFirst (crlf ++ crlf) message

/-- The header fields of a name, in whatever case it is written. -/
def fieldsNamed (name : String) (fields : Headers) : Headers := fields.filter fun f => toLowerAscii f.1 = ascii name

/-- The length of the body that the header fields declare. -/
def declaredLength (fields : Headers) : Option Nat :=
  match fieldsNamed "content-length" fields with
  | [] => some 0
  | [f] => lengthValue f.2
  | _ => none

theorem not_mem_append {c : UInt8} {a b : Bytes} (ha : c ∉ a) (hb : c ∉ b) : c ∉ a ++ b := by
  simp [ha, hb]

/-- A decimal numeral has no character below `0`. -/
theorem not_mem_decimal {c : UInt8} (hc : c < 48) (n : Nat) : c ∉ decimal n := by
  intro hmem
  exact absurd (mem_decimal hmem).1 (UInt8.not_le.mpr hc)

/-- A message that was written line by line is read back. -/
theorem splitMessage_lines {line : Bytes} {fields : Headers} (hline : 13 ∉ line)
    (hfields : ∀ f ∈ fields, 13 ∉ headerLine f) (body : Bytes) :
    splitMessage ((line :: fields.map headerLine).flatMap (· ++ crlf) ++ crlf ++ body) =
        some (crlf.intercalate (line :: fields.map headerLine), body) ∧
      headLines (crlf.intercalate (line :: fields.map headerLine)) = line :: fields.map headerLine := by
  have hlines : ∀ l ∈ fields.map headerLine, 13 ∉ l ∧ l ≠ [] := by
    intro l hl
    obtain ⟨f, hf, rfl⟩ := List.mem_map.mp hl
    exact ⟨hfields f hf, by simp [headerLine, ascii]⟩
  constructor
  · rw [Lines.flatMap_eq_intercalate, List.append_assoc (crlf.intercalate _)]
    exact Lines.atFirst_intercalate (by decide) body hline hlines
  · exact Lines.lines_intercalate hline fun l hl => (hlines l hl).1

/-- A header line has no line end in it. -/
theorem not_mem_headerLine {f : Bytes × Bytes} (h1 : 13 ∉ f.1) (h2 : 13 ∉ f.2) : 13 ∉ headerLine f :=
  not_mem_append (not_mem_append h1 (by decide)) h2

/-- The fields of a name, part by part. -/
theorem fieldsNamed_append (name : String) (a b : Headers) :
    fieldsNamed name (a ++ b) = fieldsNamed name a ++ fieldsNamed name b :=
  List.filter_append ..

/-- In a map without a name twice, a name in lower case that is passed on is there once or not at all. -/
theorem fieldsNamed_endToEnd {headers : Headers} (hlower : ∀ f ∈ headers, toLowerAscii f.1 = f.1)
    (hdistinct : Headers.Distinct headers) (name : String) :
    ((Headers.endToEnd headers).any (fun f => f.1 = ascii name) = true ∧
      ∃ v, (ascii name, v) ∈ headers ∧ fieldsNamed name (Headers.endToEnd headers) = [(ascii name, v)]) ∨
    ((Headers.endToEnd headers).any (fun f => f.1 = ascii name) = false ∧
      fieldsNamed name (Headers.endToEnd headers) = []) := by
  have hnodup : ((Headers.endToEnd headers).map Prod.fst).Nodup := hdistinct.sublist (List.filter_sublist.map _)
  have heq : fieldsNamed name (Headers.endToEnd headers) = (Headers.endToEnd headers).filter fun f => f.1 =
      ascii name := by
    refine List.filter_congr fun f hf => ?_
    rw [hlower f (List.mem_filter.mp hf).1]
  cases hany : (Headers.endToEnd headers).any fun f => f.1 = ascii name with
  | false =>
    refine .inr ⟨rfl, ?_⟩
    rw [heq, List.filter_eq_nil_iff]
    exact List.any_eq_false.mp hany
  | true =>
    obtain ⟨f, hf, hname⟩ := List.any_eq_true.mp hany
    have hname := of_decide_eq_true hname
    refine .inl ⟨rfl, f.2, hname ▸ (List.mem_filter.mp hf).1, ?_⟩
    rw [heq]
    exact Assoc.filter_of_mem hnodup (hname ▸ hf)

end HpServer
