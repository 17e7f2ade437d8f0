import HpServer.Lemmas.ParsedResponse
import HpServer.Lib.Assoc
import HpServer.MessageSpans

/-!
# Reading header fields

Both parsers keep the header that is being read in a `HeaderBuffer` and put it into the map when the next one begins,
or at the end of the headers. Where a field may begin (`Ready`), the buffer and the map stand for the map with the
buffered header in it, and reading a field, in whatever parts, adds it to that map (`Ready.readField`). The map itself
is one field behind.
-/

namespace HpServer

open Llhttp

/-! ## Header maps by their lookups -/

namespace Headers

/-- A key that is written has its new value. -/
theorem lookup_assign_self {headers : Headers} {key : Bytes} (value : Bytes) (hkey : key ∈ headers.map Prod.fst) :
    (headers.map fun f => if f.1 = key then (key, value) else f).lookup key = some value := by
  induction headers with
  | nil => cases hkey
  | cons f headers ih =>
    obtain ⟨name, v⟩ := f
    by_cases hname : name = key
    · simp [hname]
    · rw [List.map_cons, List.mem_cons] at hkey
      have hne : (key == name) = false := by simp [Ne.symm hname]
      rw [List.map_cons, if_neg hname, List.lookup_cons, hne]
      exact ih (hkey.resolve_left fun h => hname h.symm)

/-- Every other key keeps its value. -/
theorem lookup_assign_of_ne (headers : Headers) {key k : Bytes} (value : Bytes) (hk : k ≠ key) :
    (headers.map fun f => if f.1 = key then (key, value) else f).lookup k = headers.lookup k := by
  induction headers with
  | nil => rfl
  | cons f headers ih =>
    obtain ⟨name, v⟩ := f
    rw [List.map_cons]
    by_cases hname : name = key
    · have hne : (k == key) = false := by simp [hk]
      rw [if_pos hname, List.lookup_cons, List.lookup_cons, hname, hne]
      exact ih
    · rw [if_neg hname, List.lookup_cons, List.lookup_cons, ih]

theorem lookup_set (headers : Headers) (key value k : Bytes) :
    (headers.set key value).lookup k = if k = key then some value else headers.lookup k := by
  have hany : (headers.any fun f => f.1 = key) = true ↔ key ∈ headers.map Prod.fst := by
    simp only [List.any_eq_true, List.mem_map, decide_eq_true_eq]
  rw [set]
  by_cases hkey : key ∈ headers.map Prod.fst
  · rw [if_pos (hany.mpr hkey)]
    split
    · rename_i heq
      rw [heq, lookup_assign_self value hkey]
    · rename_i hne
      exact lookup_assign_of_ne headers value hne
  · rw [if_neg fun h => hkey (hany.mp h), List.lookup_append]
    split
    · rename_i heq
      rw [heq, Assoc.lookup_of_notMem hkey]
      simp
    · rename_i hne
      have hne' : (k == key) = false := by simp [hne]
      simp [List.lookup_cons, hne']

/-- Writing a value once more. -/
theorem set_set_self (headers : Headers) (key value : Bytes) :
    (headers.set key value).set key value = headers.set key value := by
  have hmem : key ∈ (headers.set key value).map Prod.fst := by
    rw [map_fst_set]
    split
    · assumption
    · simp
  have hvalue : ∀ f ∈ headers.set key value, f.1 = key → f = (key, value) := by
    intro f hf hkey
    rw [set] at hf
    split at hf
    · obtain ⟨g, -, rfl⟩ := List.mem_map.mp hf
      split at hkey <;> simp_all
    · rename_i hany
      rcases List.mem_append.mp hf with hf | hf
      · exact absurd (List.any_eq_true.mpr ⟨f, hf, by simp [hkey]⟩) hany
      · exact List.mem_singleton.mp hf
  generalize headers.set key value = written at hmem hvalue
  rw [set, if_pos]
  · conv_rhs => rw [← List.map_id written]
    refine List.map_congr_left fun f hf => ?_
    split
    · rename_i hkey
      exact (hvalue f hf hkey).symm
    · rfl
  · obtain ⟨f, hf, hkey⟩ := List.mem_map.mp hmem
    exact List.any_eq_true.mpr ⟨f, hf, by simp [hkey]⟩

/-- No name is there twice after a header is added. -/
theorem Distinct.add {headers : Headers} (h : headers.Distinct) (field : Bytes × Bytes) :
    (headers.add field).Distinct := by
  rw [Headers.add, Distinct, map_fst_set]
  split
  · exact h
  · rename_i hnew
    refine List.nodup_append.mpr ⟨h, by simp, ?_⟩
    intro a ha b hb heq
    rw [List.mem_singleton.mp hb] at heq
    exact hnew (heq ▸ ha)

theorem Distinct.foldl_add {headers : Headers} (h : headers.Distinct) (fields : List (Bytes × Bytes)) :
    (fields.foldl Headers.add headers : Headers).Distinct := by
  induction fields generalizing headers with
  | nil => exact h
  | cons f fields ih => exact ih (h.add f)

theorem lastValue_concat (fields : List (Bytes × Bytes)) (f : Bytes × Bytes) (key : Bytes) :
    lastValue (fields ++ [f]) key = if toLowerAscii f.1 = key then some f.2 else lastValue fields key := by
  rw [lastValue, lastValue, List.reverse_append, List.reverse_singleton, List.singleton_append, List.find?_cons]
  by_cases hkey : toLowerAscii f.1 = key <;> simp [hkey]

/-- A key has a last value among some headers when one of them has it for a name. -/
theorem lastValue_isSome {fields : List (Bytes × Bytes)} {f : Bytes × Bytes} (hf : f ∈ fields) :
    (lastValue fields (toLowerAscii f.1)).isSome := by
  rw [lastValue, Option.isSome_map, List.find?_isSome]
  exact ⟨f, List.mem_reverse.mpr hf, by simp⟩

/-- The map after some headers are added: the last value counts, and a name that is not among them keeps what it had. -/
theorem lookup_foldl_add (headers : Headers) (fields : List (Bytes × Bytes)) (key : Bytes) :
    (fields.foldl add headers : Headers).lookup key = (lastValue fields key).or (headers.lookup key) := by
  induction fields using List.reverseRecOn with
  | nil => rfl
  | append_singleton fields f ih =>
    rw [List.foldl_append, List.foldl_cons, List.foldl_nil, add, lookup_set, lastValue_concat]
    by_cases hkey : toLowerAscii f.1 = key
    · rw [if_pos hkey.symm, if_pos hkey]
      rfl
    · rw [if_neg (Ne.symm hkey), if_neg hkey, ih]

theorem lookup_ofFields (fields : List (Bytes × Bytes)) (key : Bytes) :
    (ofFields fields).lookup key = lastValue fields key := by
  rw [ofFields, lookup_foldl_add]
  simp

/-- Headers with names that are there add no name. -/
theorem map_fst_foldl_add {headers : Headers} {fields : List (Bytes × Bytes)}
    (h : ∀ f ∈ fields, toLowerAscii f.1 ∈ headers.map Prod.fst) :
    (fields.foldl add headers : Headers).map Prod.fst = headers.map Prod.fst := by
  induction fields generalizing headers with
  | nil => rfl
  | cons f fields ih =>
    obtain ⟨hf, hfields⟩ := List.forall_mem_cons.mp h
    have hkeys : (headers.add f).map Prod.fst = headers.map Prod.fst := by rw [add, map_fst_set, if_pos hf]
    rw [List.foldl_cons, ih (by rwa [hkeys]), hkeys]

/-- Adding some headers changes nothing exactly when each of their names is there with the last of their values. -/
theorem foldl_add_eq_self {headers : Headers} (hdistinct : headers.Distinct) {fields : List (Bytes × Bytes)} :
    (fields.foldl add headers : Headers) = headers ↔
      ∀ f ∈ fields, headers.lookup (toLowerAscii f.1) = lastValue fields (toLowerAscii f.1) := by
  constructor
  · intro heq f hf
    have hlookup := lookup_foldl_add headers fields (toLowerAscii f.1)
    rw [heq] at hlookup
    rw [hlookup, Option.or_of_isSome (lastValue_isSome hf)]
  · intro hsame
    have hkeys : ∀ f ∈ fields, toLowerAscii f.1 ∈ headers.map Prod.fst := by
      intro f hf
      by_contra hnot
      have hsome := lastValue_isSome hf
      rw [← hsame f hf, Assoc.lookup_of_notMem hnot] at hsome
      cases hsome
    refine Assoc.eq_of_lookup_eq (map_fst_foldl_add hkeys) (hdistinct.foldl_add fields) fun key => ?_
    rw [lookup_foldl_add]
    cases hlast : lastValue fields key with
    | none => rfl
    | some v =>
      -- the key is the name of one of the headers
      obtain ⟨f, hfind, -⟩ := Option.map_eq_some_iff.mp hlast
      have hname : toLowerAscii f.1 = key := by simpa using List.find?_some hfind
      have hf := hsame f (List.mem_reverse.mp (List.mem_of_find?_eq_some hfind))
      rw [hname, hlast] at hf
      rw [hf]
      rfl

end Headers

/-! ## The header that is being read -/

namespace HeaderBuffer

/-- A field may begin: the last text was a value, or there was none. -/
def Ready (b : HeaderBuffer) : Prop := b.lastWasValue = true ∨ b = {}

/-- What a text of a header does to the header that is being read and to the map. -/
def read (s : HeaderBuffer × Headers) : Callback → HeaderBuffer × Headers
  | .text .headerField bytes => s.1.onHeaderField s.2 bytes
  | .text .headerValue bytes => (s.1.onHeaderValue bytes, s.2)
  | _ => s

/-- The beginning of a name puts the header before it into the map. -/
theorem Ready.onHeaderField {b : HeaderBuffer} (h : b.Ready) (headers : Headers) (bytes : Bytes) :
    b.onHeaderField headers bytes = ({ field := bytes }, b.finishPendingHeader headers) := by
  rcases h with h | rfl
  · simp [HeaderBuffer.onHeaderField, h]
  · simp [HeaderBuffer.onHeaderField, HeaderBuffer.finishPendingHeader]

/-- The parts of a name that has begun. -/
theorem foldl_name (b : HeaderBuffer) (hb : b.lastWasValue = false) (headers : Headers) (parts : List Bytes) :
    (parts.map (Callback.text .headerField)).foldl read (b, headers) =
      ({ b with field := b.field ++ parts.flatten }, headers) := by
  induction parts generalizing b with
  | nil => simp
  | cons part parts ih =>
    rw [List.map_cons, List.foldl_cons, List.flatten_cons, ← List.append_assoc]
    have hone : read (b, headers) (.text .headerField part) = ({ b with field := b.field ++ part }, headers) := by
      simp [read, HeaderBuffer.onHeaderField, hb]
    rw [hone]
    exact ih _ hb

/-- The parts of a value. -/
theorem foldl_value (b : HeaderBuffer) (headers : Headers) {parts : List Bytes} (hparts : parts ≠ []) :
    (parts.map (Callback.text .headerValue)).foldl read (b, headers) =
      ({ b with value := b.value ++ parts.flatten, lastWasValue := true }, headers) := by
  induction parts generalizing b with
  | nil => exact absurd rfl hparts
  | cons part parts ih =>
    rw [List.map_cons, List.foldl_cons, List.flatten_cons, ← List.append_assoc]
    cases parts with
    | nil => simp [read, onHeaderValue]
    | cons part' parts => exact ih _ nofun

/-- A field, in whatever parts. -/
theorem Ready.readField {b : HeaderBuffer} (h : b.Ready) (headers : Headers) (f : FieldSpans) :
    f.callbacks.foldl read (b, headers) = (⟨f.name.text, f.value.text, true⟩, b.finishPendingHeader headers) := by
  obtain ⟨part, parts, hparts⟩ := List.exists_cons_of_ne_nil f.name.called
  have hname : (f.name.callbacks (.text .headerField)).foldl read (b, headers) =
      ({ field := f.name.text }, b.finishPendingHeader headers) := by
    rw [Span.callbacks, Span.text, hparts, List.map_cons, List.foldl_cons, read, h.onHeaderField,
      foldl_name { field := part } rfl, List.flatten_cons]
  rw [FieldSpans.callbacks, List.foldl_append, hname, Span.callbacks, foldl_value _ _ f.value.called]
  rfl

/-- The header of a field goes into the map. -/
theorem finishPendingHeader_field (f : FieldSpans) (headers : Headers) :
    (⟨f.name.text, f.value.text, true⟩ : HeaderBuffer).finishPendingHeader headers = headers.add f.field := by
  rw [finishPendingHeader, if_neg f.named]
  rfl

/-- Some fields: with the last of them in it, the map is the old one with all of them added; without it, with all but
the last. -/
theorem Ready.readFields {b : HeaderBuffer} (h : b.Ready) (headers : Headers) (fields : List FieldSpans) :
    ∃ b' headers', (fields.flatMap FieldSpans.callbacks).foldl read (b, headers) = (b', headers') ∧ b'.Ready ∧
      b'.finishPendingHeader headers' = (fields.map FieldSpans.field).foldl Headers.add (b.finishPendingHeader headers) ∧
      (fields ≠ [] →
        headers' = (fields.dropLast.map FieldSpans.field).foldl Headers.add (b.finishPendingHeader headers)) := by
  induction fields generalizing b headers with
  | nil => exact ⟨b, headers, rfl, h, rfl, fun hne => absurd rfl hne⟩
  | cons f fields ih =>
    rw [List.flatMap_cons, List.foldl_append, h.readField]
    obtain ⟨b', headers', hread, hready, hall, hbehind⟩ :=
      ih (b := ⟨f.name.text, f.value.text, true⟩) (.inl rfl) (b.finishPendingHeader headers)
    rw [finishPendingHeader_field] at hall hbehind
    refine ⟨b', headers', hread, hready, hall, fun _ => ?_⟩
    cases fields with
    | nil =>
      obtain ⟨-, rfl⟩ := Prod.mk.inj hread
      rfl
    | cons g fields => exact hbehind nofun

end HeaderBuffer
end HpServer
