import HpServer.CacheEntryFormat
import Mathlib.Algebra.Order.BigOperators.Group.List
import Mathlib.Algebra.Order.Group.Nat

/-!
# Reading a stored entry

What each field of the stored form comes to when it is read: `parse plainTurn` of a field that was written, followed
by anything, goes on behind it with the field set. The generated loop reads a repeated field by a shortcut;
`internalParse_eq_plain` says that it makes no difference.
-/

namespace HpServer
namespace CacheEntryFormat

open Turns

/-! ## Words -/

theorem natCast_wordOfInt64 (i : Int) : (wordOfInt64 i : Int) = i % UInt64.size :=
  Int.toNat_of_nonneg (Int.emod_nonneg _ (by decide))

/-- The word of an `int64_t` stands for it. -/
theorem int64OfWord_wordOfInt64 {i : Int} (h : IsInt64 i) : int64OfWord (wordOfInt64 i) = i := by
  have hword : int64OfWord (wordOfInt64 i) = i.bmod UInt64.size := by
    change (wordOfInt64 i : Int).bmod UInt64.size = _
    simp only [natCast_wordOfInt64, Int.emod_bmod]
  rw [hword]
  exact Int.bmod_eq_of_le (le_trans (by decide) h.1) (lt_of_le_of_lt h.2 (by decide))

section

variable {rt : Runtime} (hrt : rt.Lawful)

include hrt

/-! ## Turns take something -/

/-- An unknown field is gone over forward. -/
theorem length_le_of_handleUnusual {σ : Type} {depth tag : Nat} {s : σ} {ptr : Bytes} {p : σ × Bytes}
    (h : handleUnusual rt depth tag s ptr = some p) : p.2.length ≤ ptr.length := by
  rw [handleUnusual] at h
  split at h
  · cases h
  · obtain ⟨rest, hrest, rfl⟩ := Option.map_eq_some_iff.mp h
    exact hrt.unknownFieldParse_le hrest

/-- So is a text. -/
theorem length_le_of_readText {σ : Type} {set : Bytes → σ} {ptr : Bytes} {p : σ × Bytes}
    (h : readText rt set ptr = some p) :
    p.2.length ≤ ptr.length := by
  obtain ⟨q, hq, h⟩ := Option.bind_eq_some_iff.mp h
  split at h
  · cases h
    exact hrt.readString_le hq
  · cases h

/-- And a header. -/
theorem length_le_of_addHeader (e : CacheEntry) (ptr : Bytes) (p : CacheEntry × Bytes) (h : addHeader rt e ptr = some p) :
    p.2.length ≤ ptr.length := by
  obtain ⟨q, hq, h⟩ := Option.bind_eq_some_iff.mp h
  obtain ⟨_, _, rfl⟩ := Option.map_eq_some_iff.mp h
  exact hrt.readMessage_le hq

/-- A turn takes at least the tag: in the loop for a header, -/
theorem consumes_headerTurn : Consumes (headerTurn rt) := by
  intro h bs p hp
  obtain ⟨⟨tag, ptr⟩, htag, hp⟩ := Option.bind_eq_some_iff.mp hp
  refine lt_of_le_of_lt ?_ (hrt.readTag_lt htag)
  split at hp
  · exact length_le_of_readText hrt hp
  · exact length_le_of_readText hrt hp
  · exact length_le_of_handleUnusual hrt hp

/-- and in the loop for an entry, however repeated fields are read. -/
theorem consumes_entryTurn
    {many : UInt8 → (CacheEntry → Bytes → Option (CacheEntry × Bytes)) → CacheEntry → Bytes → Option (CacheEntry × Bytes)}
    (hmany : ∀ tag one, (∀ e ptr p, one e ptr = some p → p.2.length ≤ ptr.length) →
      ∀ e ptr p, many tag one e ptr = some p → p.2.length ≤ ptr.length) : Consumes (entryTurn rt many) := by
  intro e bs p hp
  obtain ⟨⟨tag, ptr⟩, htag, hp⟩ := Option.bind_eq_some_iff.mp hp
  refine lt_of_le_of_lt ?_ (hrt.readTag_lt htag)
  split at hp
  · obtain ⟨q, hq, rfl⟩ := Option.map_eq_some_iff.mp hp
    exact hrt.readVarint32_le hq
  · exact length_le_of_readText hrt hp
  · exact length_le_of_readText hrt hp
  · exact length_le_of_readText hrt hp
  · obtain ⟨q, hq, rfl⟩ := Option.map_eq_some_iff.mp hp
    exact hrt.readVarint64_le hq
  · obtain ⟨q, hq, rfl⟩ := Option.map_eq_some_iff.mp hp
    exact hrt.readVarint64_le hq
  · exact hmany _ _ (length_le_of_addHeader hrt) _ _ _ hp
  · obtain ⟨q, hq, rfl⟩ := Option.map_eq_some_iff.mp hp
    exact hrt.readString_le hq
  · exact hmany _ _ (fun _ _ _ => length_le_of_readText hrt) _ _ _ hp
  · exact length_le_of_handleUnusual hrt hp

theorem consumes_plainTurn : Consumes (plainTurn rt) := consumes_entryTurn hrt fun _ _ hone => hone

theorem consumes_internalTurn : Consumes (internalTurn rt) :=
  consumes_entryTurn hrt fun _ _ hone _ _ _ => length_le_of_repeated hone

/-! ## The shortcut for repeated fields -/

/-- Behind the tag of `headers` a header is read. -/
theorem plainTurn_header (e : CacheEntry) (bs : Bytes) : plainTurn rt e (58 :: bs) = addHeader rt e bs := by
  simp [plainTurn, entryTurn, hrt.readTag_cons]

/-- Behind the tag of `vary_headers` a text is read. -/
theorem plainTurn_varyHeader (e : CacheEntry) (bs : Bytes) : plainTurn rt e (74 :: bs) = addVaryHeader rt e bs := by
  simp [plainTurn, entryTurn, hrt.readTag_cons]

omit hrt in
/-- Only the tags of the repeated fields are treated by the shortcut. -/
theorem internalTurn_eq_plain {e : CacheEntry} {bs ptr : Bytes} {tag : Nat} (htag : rt.readTag bs = some (tag, ptr))
    (h58 : tag ≠ 58) (h74 : tag ≠ 74) : internalTurn rt e bs = plainTurn rt e bs := by
  rw [internalTurn, plainTurn, entryTurn, entryTurn, htag]
  simp only [Option.bind_some]
  split <;> first | rfl | omega

/-- A turn of the generated loop reads what some plain turns read. -/
theorem parse_plain_eq_turn (e : CacheEntry) (bs : Bytes) (hbs : bs ≠ []) :
    parse (plainTurn rt) e bs = (internalTurn rt e bs).bind fun p => parse (plainTurn rt) p.1 p.2 := by
  have hplain := consumes_plainTurn hrt
  -- a tag may be written with more bytes than it needs; what follows is read as behind the tag of one byte
  have hrepeated : ∀ (tag : UInt8) (one : CacheEntry → Bytes → Option (CacheEntry × Bytes)) (ptr : Bytes),
      (∀ e bs, plainTurn rt e (tag :: bs) = one e bs) → plainTurn rt e bs = one e ptr →
      parse (plainTurn rt) e bs = (repeated tag one (ptr.length + 1) e ptr).bind fun p =>
        parse (plainTurn rt) p.1 p.2 := by
    intro tag one ptr hone hbs'
    rw [← parse_repeated hplain hone _ _ _ (Nat.lt_succ_self _), parse_cons hplain e hbs, hbs',
      parse_cons hplain e (List.cons_ne_nil _ _), hone]
  cases htag : rt.readTag bs with
  | none =>
    rw [parse_cons hplain e hbs, plainTurn, internalTurn, entryTurn, entryTurn, htag]
    rfl
  | some p =>
    obtain ⟨tag, ptr⟩ := p
    by_cases h58 : tag = 58
    · have hturn : plainTurn rt e bs = addHeader rt e ptr := by simp [plainTurn, entryTurn, htag, h58]
      rw [hrepeated 58 (addHeader rt) ptr (plainTurn_header hrt) hturn]
      simp [internalTurn, entryTurn, htag, h58]
    · by_cases h74 : tag = 74
      · have hturn : plainTurn rt e bs = addVaryHeader rt e ptr := by simp [plainTurn, entryTurn, htag, h74]
        rw [hrepeated 74 (addVaryHeader rt) ptr (plainTurn_varyHeader hrt) hturn]
        simp [internalTurn, entryTurn, htag, h74]
      · rw [internalTurn_eq_plain htag h58 h74, parse_cons hplain e hbs]

/-- The shortcut of the generated loop makes no difference. -/
theorem internalParse_eq_plain (e : CacheEntry) (raw : Bytes) : internalParse rt e raw = parse (plainTurn rt) e raw :=
  parse_eq_parse (consumes_internalTurn hrt) (parse_plain_eq_turn hrt) e raw

/-! ## Fields -/

section

variable {σ : Type} {turn : σ → Bytes → Option (σ × Bytes)} (hturn : Consumes turn) (number : Nat) (hnumber : number < 16)

include hturn hnumber

/-- A text that is written, empty or not. -/
theorem parse_writeString {set : σ → Bytes → σ}
    (htag : ∀ x bs, turn x ((8 * number + 2).toUInt8 :: bs) = readText rt (set x) bs) (x : σ)
    {s : Bytes} (hlen : s.length ≤ rt.sizeLimit) (rest : Bytes) :
    parse turn x (rt.writeString number s ++ rest) = if TextOk rt s then parse turn (set x s) rest else none := by
  obtain ⟨text, htext, hread⟩ := hrt.writeString number s hnumber hlen
  have hone : turn x (rt.writeString number s ++ rest) =
      (if TextOk rt s then some (set x s) else none).map fun y => (y, rest) := by
    rw [htext, List.cons_append, htag, readText, hread]
    by_cases hsize : s.length ≤ rt.lengthLimit <;> by_cases hutf : rt.verifyUtf8 s <;> simp [TextOk, hsize, hutf]
  rw [parse_append hturn (by rw [htext]; exact List.cons_ne_nil _ _) hone]
  split <;> rfl

/-- A text field, which is not written when it is empty; then the message keeps the one it has. -/
theorem parse_text {set : σ → Bytes → σ} (get : σ → Bytes) (hget : ∀ x, set x (get x) = x)
    (htag : ∀ x bs, turn x ((8 * number + 2).toUInt8 :: bs) = readText rt (set x) bs) (x : σ) {s : Bytes}
    (hlen : s.length ≤ rt.sizeLimit) (rest : Bytes) :
    parse turn x ((if s = [] then [] else rt.writeString number s) ++ rest) =
      if TextOk rt s then parse turn (set x (if s = [] then get x else s)) rest else none := by
  by_cases hs : s = []
  · have hok : TextOk rt [] := ⟨Nat.zero_le _, hrt.verifyUtf8_nil⟩
    simp only [hs, hok, if_true, List.nil_append, hget]
  · rw [if_neg hs, if_neg hs, parse_writeString hrt hturn number hnumber htag x hlen rest]

/-- A number field, which is not written when it is zero. -/
theorem parse_int64 (set : σ → Int → σ) (get : σ → Int) (hget : ∀ x, set x (get x) = x)
    (htag : ∀ x bs, turn x ((8 * number).toUInt8 :: bs) = (rt.readVarint64 bs).map fun q =>
      (set x (int64OfWord q.1), q.2)) (x : σ)
    {i : Int} (hi : IsInt64 i) (rest : Bytes) :
    parse turn x ((if i = 0 then [] else rt.writeInt64 number i) ++ rest) =
      parse turn (set x (if i = 0 then get x else i)) rest := by
  by_cases hzero : i = 0
  · simp [hzero, hget]
  · obtain ⟨text, htext, hread⟩ := hrt.writeInt64 number i hnumber hi
    have hone : turn x (rt.writeInt64 number i ++ rest) = (some (set x i)).map fun y => (y, rest) := by
      rw [htext, List.cons_append, htag, hread, Option.map_some, Option.map_some, Option.map_some,
        int64OfWord_wordOfInt64 hi]
    rw [if_neg hzero, if_neg hzero, parse_append hturn (by rw [htext]; exact List.cons_ne_nil _ _) hone]
    rfl

end

/-! ## Headers -/

/-- Behind the tag of `key`. -/
theorem headerTurn_key (h : Bytes × Bytes) (bs : Bytes) :
    headerTurn rt h (10 :: bs) = readText rt (fun s => (s, h.2)) bs := by
  simp [headerTurn, hrt.readTag_cons]

/-- Behind the tag of `value`. -/
theorem headerTurn_value (h : Bytes × Bytes) (bs : Bytes) :
    headerTurn rt h (18 :: bs) = readText rt (fun s => (h.1, s)) bs := by
  simp [headerTurn, hrt.readTag_cons]

/-- A header has the size that is computed. -/
theorem length_serializeHeader (h : Bytes × Bytes) : (serializeHeader rt h).length = headerByteSize rt h := by
  rw [serializeHeader, headerByteSize, List.length_append]
  congr 1 <;> split <;> simp [hrt.length_writeString]

/-- A text is no longer than what it counts for in a size. -/
theorem length_le_stringSize (s : Bytes) : s.length ≤ if s = [] then 0 else 1 + rt.stringSize s := by
  have hle := hrt.le_stringSize s
  split
  · simp_all
  · omega

/-- A header that was written is read, if its texts are UTF-8. -/
theorem parse_serializeHeader (h : Bytes × Bytes) (hlen : headerByteSize rt h ≤ rt.sizeLimit)
    (hsize : headerByteSize rt h ≤ rt.lengthLimit) :
    parse (headerTurn rt) ([], []) (serializeHeader rt h) =
      if rt.verifyUtf8 h.1 = true ∧ rt.verifyUtf8 h.2 = true then some h else none := by
  obtain ⟨key, value⟩ := h
  have hsum : headerByteSize rt (key, value) =
      (if key = [] then 0 else 1 + rt.stringSize key) + (if value = [] then 0 else 1 + rt.stringSize value) := rfl
  have hkey := length_le_stringSize hrt key
  have hvalue := length_le_stringSize hrt value
  have hkeyShort : key.length ≤ rt.sizeLimit := by omega
  have hvalueShort : value.length ≤ rt.sizeLimit := by omega
  rw [serializeHeader, ← List.append_nil (if value = [] then [] else rt.writeString 2 value),
    parse_text hrt (consumes_headerTurn hrt) 1 (by decide) Prod.fst (fun _ => rfl) (headerTurn_key hrt) _ hkeyShort,
    parse_text hrt (consumes_headerTurn hrt) 2 (by decide) Prod.snd (fun _ => rfl) (headerTurn_value hrt) _ hvalueShort]
  have hdefault : ∀ s : Bytes, (if s = [] then [] else s) = s := fun s => by split <;> simp_all
  have hkeyOk : key.length ≤ rt.lengthLimit := by omega
  have hvalueOk : value.length ≤ rt.lengthLimit := by omega
  simp only [TextOk, hkeyOk, hvalueOk, true_and, parse_nil, hdefault]
  rw [← ite_and]

/-- A header, one value of a repeated field. -/
theorem parse_writeHeader (h : Bytes × Bytes) (e : CacheEntry) (rest : Bytes)
    (hlen : headerByteSize rt h ≤ rt.sizeLimit) :
    parse (plainTurn rt) e (writeHeader rt h ++ rest) =
      if HeaderOk rt h then parse (plainTurn rt) { e with headers := e.headers ++ [h] } rest else none := by
  have hlength := length_serializeHeader hrt h
  obtain ⟨text, htext, hread⟩ := hrt.writeMessage 7 (serializeHeader rt h) (by decide) (by rwa [hlength])
  rw [hlength] at htext hread
  have hone : plainTurn rt e (writeHeader rt h ++ rest) =
      (if HeaderOk rt h then some { e with headers := e.headers ++ [h] } else none).map fun x => (x, rest) := by
    rw [writeHeader, htext, List.cons_append]
    refine (plainTurn_header hrt e _).trans ?_
    rw [addHeader, hread]
    by_cases hsize : headerByteSize rt h ≤ rt.lengthLimit
    · rw [if_pos hsize, Option.map_some, Option.bind_some, parse_serializeHeader hrt h hlen hsize]
      by_cases hutf : rt.verifyUtf8 h.1 = true ∧ rt.verifyUtf8 h.2 = true
      · rw [if_pos hutf, if_pos ⟨hsize, hutf⟩]
        rfl
      · rw [if_neg hutf, if_neg fun hok => hutf hok.2]
        rfl
    · rw [if_neg hsize, if_neg fun hok => hsize hok.1]
      rfl
  rw [parse_append (consumes_plainTurn hrt) (by rw [writeHeader, htext]; exact List.cons_ne_nil _ _) hone]
  split <;> rfl

/-- The headers of an entry, one after the other. -/
theorem parse_headers (hs : Headers) (e : CacheEntry) (rest : Bytes)
    (hlen : ∀ h ∈ hs, headerByteSize rt h ≤ rt.sizeLimit) :
    parse (plainTurn rt) e (hs.flatMap (writeHeader rt) ++ rest) =
      if ∀ h ∈ hs, HeaderOk rt h then parse (plainTurn rt) { e with headers := e.headers ++ hs } rest else none := by
  induction hs generalizing e with
  | nil => simp
  | cons h hs ih =>
    rw [List.flatMap_cons, List.append_assoc, parse_writeHeader hrt h e _ (hlen h (List.mem_cons_self ..)),
      ih _ fun h' hh' => hlen h' (List.mem_cons_of_mem _ hh')]
    simp only [List.forall_mem_cons, List.append_assoc, List.singleton_append, ite_and]

/-- The names of `vary_headers`, one after the other; an empty one is written as well. -/
theorem parse_varyHeaders (vs : List Bytes) (e : CacheEntry) (rest : Bytes) (hlen : ∀ v ∈ vs, v.length ≤ rt.sizeLimit) :
    parse (plainTurn rt) e (vs.flatMap (rt.writeString 9) ++ rest) =
      if ∀ v ∈ vs, TextOk rt v then parse (plainTurn rt) { e with varyHeaders := e.varyHeaders ++ vs } rest
      else none := by
  induction vs generalizing e with
  | nil => simp
  | cons v vs ih =>
    rw [List.flatMap_cons, List.append_assoc,
      parse_writeString hrt (consumes_plainTurn hrt) 9 (by decide) (plainTurn_varyHeader hrt) e
        (hlen v (List.mem_cons_self ..)),
      ih _ fun v' hv' => hlen v' (List.mem_cons_of_mem _ hv')]
    simp only [List.forall_mem_cons, List.append_assoc, List.singleton_append, ite_and]

/-! ## Entries -/

/-- Behind the tag of `reason_phrase`. -/
theorem plainTurn_reasonPhrase (e : CacheEntry) (bs : Bytes) :
    plainTurn rt e (18 :: bs) = readText rt (fun s => { e with reasonPhrase := s }) bs := by
  simp [plainTurn, entryTurn, hrt.readTag_cons]

/-- Behind the tag of `last_modified`. -/
theorem plainTurn_lastModified (e : CacheEntry) (bs : Bytes) :
    plainTurn rt e (26 :: bs) = readText rt (fun s => { e with lastModified := s }) bs := by
  simp [plainTurn, entryTurn, hrt.readTag_cons]

/-- Behind the tag of `etag`. -/
theorem plainTurn_etag (e : CacheEntry) (bs : Bytes) :
    plainTurn rt e (34 :: bs) = readText rt (fun s => { e with etag := s }) bs := by
  simp [plainTurn, entryTurn, hrt.readTag_cons]

/-- Behind the tag of `stored_at_unix_sec`. -/
theorem plainTurn_storedAt (e : CacheEntry) (bs : Bytes) :
    plainTurn rt e (40 :: bs) = (rt.readVarint64 bs).map fun q =>
      ({ e with storedAtUnixSec := int64OfWord q.1 }, q.2) := by
  simp [plainTurn, entryTurn, hrt.readTag_cons]

/-- Behind the tag of `ttl_sec`. -/
theorem plainTurn_ttl (e : CacheEntry) (bs : Bytes) :
    plainTurn rt e (48 :: bs) = (rt.readVarint64 bs).map fun q => ({ e with ttlSec := int64OfWord q.1 }, q.2) := by
  simp [plainTurn, entryTurn, hrt.readTag_cons]

/-- The status code, which is not written when it is zero. -/
theorem parse_statusCode (e : CacheEntry) {n : Nat} (hn : n < UInt32.size) (rest : Bytes) :
    parse (plainTurn rt) e ((if n = 0 then [] else rt.writeUInt32 1 n) ++ rest) =
      parse (plainTurn rt) { e with statusCode := if n = 0 then e.statusCode else n } rest := by
  by_cases hzero : n = 0
  · simp [hzero]
  · obtain ⟨text, htext, hread⟩ := hrt.writeUInt32 1 n (by decide) hn
    have hone : plainTurn rt e (rt.writeUInt32 1 n ++ rest) =
        (some { e with statusCode := n }).map fun x => (x, rest) := by
      rw [htext, List.cons_append, plainTurn, entryTurn, hrt.readTag_cons _ _ (by decide)]
      simp [hread]
    rw [if_neg hzero, if_neg hzero, parse_append (consumes_plainTurn hrt)
      (by rw [htext]; exact List.cons_ne_nil _ _) hone]
    rfl

/-- The body, of which only the length matters. -/
theorem parse_body (e : CacheEntry) {s : Bytes} (hlen : s.length ≤ rt.sizeLimit) (rest : Bytes) :
    parse (plainTurn rt) e ((if s = [] then [] else rt.writeString 8 s) ++ rest) =
      if s.length ≤ rt.lengthLimit then parse (plainTurn rt) { e with body := if s = [] then e.body else s } rest
      else none := by
  by_cases hs : s = []
  · simp [hs]
  · obtain ⟨text, htext, hread⟩ := hrt.writeString 8 s (by decide) hlen
    have hone : plainTurn rt e (rt.writeString 8 s ++ rest) =
        (if s.length ≤ rt.lengthLimit then some { e with body := s } else none).map fun x => (x, rest) := by
      rw [htext, List.cons_append, plainTurn, entryTurn, hrt.readTag_cons _ _ (by decide)]
      simp only [Option.bind_some]
      by_cases hsize : s.length ≤ rt.lengthLimit <;> simp [hread, hsize]
    rw [if_neg hs, if_neg hs, parse_append (consumes_plainTurn hrt) (by rw [htext]; exact List.cons_ne_nil _ _) hone]
    split <;> rfl

/-- Every text and every header of an entry is shorter than the entry. -/
structure Short (rt : Runtime) (e : CacheEntry) : Prop where
  reasonPhrase : e.reasonPhrase.length ≤ rt.sizeLimit
  lastModified : e.lastModified.length ≤ rt.sizeLimit
  etag : e.etag.length ≤ rt.sizeLimit
  headers : ∀ h ∈ e.headers, headerByteSize rt h ≤ rt.sizeLimit
  body : e.body.length ≤ rt.sizeLimit
  varyHeaders : ∀ v ∈ e.varyHeaders, v.length ≤ rt.sizeLimit

/-- An entry that `SerializeToString` takes has no text that is too long for it. -/
theorem short_of_byteSizeLong {e : CacheEntry} (h : byteSizeLong rt e ≤ rt.sizeLimit) : Short rt e := by
  have h1 := length_le_stringSize hrt e.reasonPhrase
  have h2 := length_le_stringSize hrt e.lastModified
  have h3 := length_le_stringSize hrt e.etag
  have h4 := length_le_stringSize hrt e.body
  rw [byteSizeLong] at h
  refine ⟨by omega, by omega, by omega, ?_, by omega, ?_⟩
  · intro header hmem
    have hle := List.le_sum_of_mem (List.mem_map_of_mem (f := fun h => rt.messageSize (headerByteSize rt h)) hmem)
    have hsize := hrt.le_messageSize (headerByteSize rt header)
    omega
  · intro v hmem
    have hle := List.le_sum_of_mem (List.mem_map_of_mem (f := rt.stringSize) hmem)
    have hsize := hrt.le_stringSize v
    omega

/-- An entry that was written is read: its fields are set on, or added to, the entry there is. -/
theorem parse_internalSerialize {e : CacheEntry} (hrange : InRange e) (hsize : byteSizeLong rt e ≤ rt.sizeLimit)
    (start : CacheEntry) :
    parse (plainTurn rt) start (internalSerialize rt e) = if Readable rt e then some (mergeFrom start e) else none := by
  have hshort := short_of_byteSizeLong hrt hsize
  have hplain := consumes_plainTurn hrt
  rw [internalSerialize, ← List.append_nil (e.varyHeaders.flatMap (rt.writeString 9)),
    parse_statusCode hrt _ hrange.statusCode,
    parse_text hrt hplain 2 (by decide) CacheEntry.reasonPhrase (fun _ => rfl)
      (plainTurn_reasonPhrase hrt) _ hshort.reasonPhrase,
    parse_text hrt hplain 3 (by decide) CacheEntry.lastModified (fun _ => rfl)
      (plainTurn_lastModified hrt) _ hshort.lastModified,
    parse_text hrt hplain 4 (by decide) CacheEntry.etag (fun _ => rfl) (plainTurn_etag hrt) _ hshort.etag,
    parse_int64 hrt hplain 5 (by decide) (fun e i => { e with storedAtUnixSec := i }) CacheEntry.storedAtUnixSec
      (fun _ => rfl)
      (plainTurn_storedAt hrt) _ hrange.storedAt,
    parse_int64 hrt hplain 6 (by decide) (fun e i => { e with ttlSec := i }) CacheEntry.ttlSec (fun _ => rfl)
      (plainTurn_ttl hrt) _
      hrange.ttl,
    parse_headers hrt _ _ _ hshort.headers, parse_body hrt _ hshort.body,
      parse_varyHeaders hrt _ _ _ hshort.varyHeaders, parse_nil]
  -- the first field that cannot be read ends the parse
  simp only [← ite_and]
  refine if_congr ⟨?_, ?_⟩ rfl rfl
  · rintro ⟨hreason, hmodified, hetag, hheaders, hbody, hvary⟩
    exact ⟨hreason, hmodified, hetag, hheaders, hbody, hvary⟩
  · rintro ⟨hreason, hmodified, hetag, hheaders, hbody, hvary⟩
    exact ⟨hreason, hmodified, hetag, hheaders, hbody, hvary⟩

end

end CacheEntryFormat
end HpServer
