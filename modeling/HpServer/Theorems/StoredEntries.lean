import HpServer.Lemmas.EntryReading
import HpServer.Lemmas.ParsedResponse
import HpServer.Theorems.CacheLifetime
import HpServer.Theorems.CacheTransparency

/-!
# Entries in the database

Over any runtime of protocol buffers that keeps its promises, the generated code writes as many bytes as it has
computed before, and reads back what it has written, provided that every text is UTF-8 and nothing is too long:
`SerializeToString` takes any bytes, but `ParseFromString` does not. So the persistent cache is a map from keys to
entries of which those with a text that is not UTF-8 are never found again, though they were stored with the answer
true and have replaced what was there.
-/

namespace HpServer
namespace CacheEntryFormat

open Turns

section

variable {rt : Runtime} (hrt : rt.Lawful)

include hrt

/-! ## Sizes -/

/-- A text field counts for its size, or for nothing. -/
theorem length_ite_writeString {number : Nat} (hnumber : number < 16) (s : Bytes) :
    (if s = [] then [] else rt.writeString number s).length = if s = [] then 0 else 1 + rt.stringSize s := by
  split
  · rfl
  · exact hrt.length_writeString number s hnumber

/-- So does a number. -/
theorem length_ite_writeInt64 {number : Nat} (hnumber : number < 16) {i : Int} (hi : IsInt64 i) :
    (if i = 0 then [] else rt.writeInt64 number i).length = if i = 0 then 0 else rt.int64SizePlusOne i := by
  split
  · rfl
  · exact hrt.length_writeInt64 number i hnumber hi

/-- The headers count for their tags and their sizes as messages. -/
theorem length_headers (hs : Headers) :
    (hs.flatMap (writeHeader rt)).length = hs.length + (hs.map fun h => rt.messageSize (headerByteSize rt h)).sum := by
  induction hs with
  | nil => rfl
  | cons h hs ih =>
    have hone := hrt.length_writeMessage 7 (serializeHeader rt h) (by decide)
    rw [length_serializeHeader hrt] at hone
    rw [List.flatMap_cons, List.length_append, ih, writeHeader, hone, List.length_cons, List.map_cons, List.sum_cons]
    omega

/-- The names of `vary_headers` count for their tags and sizes. -/
theorem length_varyHeaders (vs : List Bytes) :
    (vs.flatMap (rt.writeString 9)).length = vs.length + (vs.map rt.stringSize).sum := by
  induction vs with
  | nil => rfl
  | cons v vs ih =>
    rw [List.flatMap_cons, List.length_append, ih, hrt.length_writeString 9 v (by decide), List.length_cons,
      List.map_cons, List.sum_cons]
    omega

/-- What is written has the size that was computed. -/
theorem length_internalSerialize {e : CacheEntry} (hrange : InRange e) :
    (internalSerialize rt e).length = byteSizeLong rt e := by
  have hstatus : (if e.statusCode = 0 then [] else rt.writeUInt32 1 e.statusCode).length =
      if e.statusCode = 0 then 0 else rt.uint32SizePlusOne e.statusCode := by
    split
    · rfl
    · exact hrt.length_writeUInt32 1 _ (by decide) hrange.statusCode
  simp only [internalSerialize, byteSizeLong, List.length_append, hstatus,
    length_ite_writeString hrt (show 2 < 16 by decide),
    length_ite_writeString hrt (show 3 < 16 by decide), length_ite_writeString hrt (show 4 < 16 by decide),
    length_ite_writeString hrt (show 8 < 16 by decide), length_ite_writeInt64 hrt (show 5 < 16 by decide) hrange.storedAt,
    length_ite_writeInt64 hrt (show 6 < 16 by decide) hrange.ttl, length_headers hrt, length_varyHeaders hrt]
  omega

/-! ## What was written is read -/

omit hrt in
theorem codec_serialize_eq {e : CacheEntry} {raw : Bytes} (h : rt.codec.serialize e = some raw) :
    raw = internalSerialize rt e ∧ byteSizeLong rt e ≤ rt.sizeLimit := by
  simp only [Runtime.codec] at h
  split at h
  · cases h
    exact ⟨rfl, by assumption⟩
  · cases h

/-- What was written is merged into any entry, or fails. -/
theorem internalParse_serialized {e : CacheEntry} {raw : Bytes} (hrange : InRange e) (h : rt.codec.serialize e = some raw)
    (start : CacheEntry) : internalParse rt start raw = if Readable rt e then some (mergeFrom start e) else none := by
  obtain ⟨rfl, hsize⟩ := codec_serialize_eq h
  rw [internalParse_eq_plain hrt, parse_internalSerialize hrt hrange hsize]

omit hrt in
/-- Merged into an entry with nothing set, an entry is itself. -/
theorem mergeFrom_emptyEntry (e : CacheEntry) : mergeFrom emptyEntry e = e := by
  have htext : ∀ s : Bytes, (if s = [] then [] else s) = s := fun s => by split <;> simp_all
  have hint : ∀ i : Int, (if i = 0 then 0 else i) = i := fun i => by split <;> simp_all
  have hnat : ∀ n : Nat, (if n = 0 then 0 else n) = n := fun n => by split <;> simp_all
  simp only [mergeFrom, emptyEntry, htext, hint, hnat, List.nil_append]

/-- What was written is read back from an entry with nothing set, or fails. -/
theorem codec_parse_serialized {e : CacheEntry} {raw : Bytes} (hrange : InRange e) (h : rt.codec.serialize e = some raw) :
    rt.codec.parse raw = if Readable rt e then some e else none := by
  have hparse := internalParse_serialized hrt hrange h emptyEntry
  rwa [mergeFrom_emptyEntry] at hparse

end

/-- A number written as so many ones and a zero. -/
def unary (n : Nat) : Bytes := List.replicate n 1 ++ [0]

/-- The ones are counted. -/
def readUnary (bs : Bytes) : Option (Nat × Bytes) := some ((bs.takeWhile (· = 1)).length, (bs.dropWhile (· = 1)).drop 1)

/-- A length and as many bytes. -/
def readCounted (bs : Bytes) : Option (Bytes × Bytes) := (readUnary bs).map fun p => (p.2.take p.1, p.2.drop p.1)

/-- A runtime that writes numbers in unary, takes every length, and ASCII only for text. -/
def unaryRuntime : Runtime where
  writeUInt32 number n := (8 * number).toUInt8 :: unary n
  writeInt64 number i := (8 * number).toUInt8 :: unary (wordOfInt64 i)
  writeString number s := (8 * number + 2).toUInt8 :: (unary s.length ++ s)
  writeMessage number size s := (8 * number + 2).toUInt8 :: (unary size ++ s)
  uint32SizePlusOne n := n + 2
  int64SizePlusOne i := wordOfInt64 i + 2
  stringSize s := s.length + 1 + s.length
  messageSize n := n + 1 + n
  readTag bs := bs.head?.map fun b => (b.toNat, bs.tail)
  readVarint32 := readUnary
  readVarint64 := readUnary
  readString := readCounted
  readMessage := readCounted
  verifyUtf8 s := s.all (· < 128)
  unknownFieldParse _ _ _ := none
  sizeLimit := 10000
  lengthLimit := 10000

theorem readUnary_append (n : Nat) (rest : Bytes) : readUnary (unary n ++ rest) = some (n, rest) := by
  have hones : ∀ b ∈ List.replicate n (1 : UInt8), decide (b = 1) = true :=
    fun b hb => by simp [List.eq_of_mem_replicate hb]
  rw [unary, readUnary, List.append_assoc, List.takeWhile_append_of_pos hones, List.dropWhile_append_of_pos hones]
  simp

theorem readCounted_append {s : Bytes} (hs : s.length ≤ unaryRuntime.lengthLimit) (rest : Bytes) :
    readCounted (unary s.length ++ s ++ rest) =
      (if s.length ≤ unaryRuntime.lengthLimit then some s else none).map fun v => (v, rest) := by
  rw [readCounted, List.append_assoc, readUnary_append, if_pos hs]
  simp

theorem length_le_of_readUnary {bs : Bytes} {p : Nat × Bytes} (h : readUnary bs = some p) : p.2.length ≤ bs.length := by
  obtain rfl := Option.some.inj h
  rw [List.length_drop]
  exact Nat.le_trans (Nat.sub_le _ _) (List.dropWhile_suffix _).length_le

theorem length_le_of_readCounted {bs : Bytes} {p : Bytes × Bytes} (h : readCounted bs = some p) :
    p.2.length ≤ bs.length := by
  obtain ⟨q, hq, rfl⟩ := Option.map_eq_some_iff.mp h
  rw [List.length_drop]
  exact Nat.le_trans (Nat.sub_le _ _) (length_le_of_readUnary hq)

/-- It keeps the promises. -/
theorem unaryRuntime_lawful : unaryRuntime.Lawful where
  readTag_lt {bs p} h := by
    cases bs with
    | nil => cases h
    | cons b bs =>
      cases h
      exact Nat.lt_succ_self _
  readVarint32_le := length_le_of_readUnary
  readVarint64_le := length_le_of_readUnary
  readString_le := length_le_of_readCounted
  readMessage_le := length_le_of_readCounted
  unknownFieldParse_le h := by cases h
  readTag_cons _ _ _ := rfl
  writeUInt32 _ n _ _ := ⟨unary n, rfl, readUnary_append n⟩
  writeInt64 _ i _ _ := ⟨unary (wordOfInt64 i), rfl, readUnary_append _⟩
  writeString _ s _ hs := ⟨unary s.length ++ s, rfl, readCounted_append hs⟩
  writeMessage _ s _ hs := ⟨unary s.length ++ s, rfl, readCounted_append hs⟩
  length_writeUInt32 _ n _ _ := by simp [unaryRuntime, unary]
  length_writeInt64 _ i _ _ := by simp [unaryRuntime, unary]
  length_writeString _ s _ := by simp [unaryRuntime, unary]; omega
  length_writeMessage _ s _ := by simp [unaryRuntime, unary]; omega
  le_stringSize s := Nat.le_add_left _ _
  le_messageSize n := Nat.le_add_left _ _
  verifyUtf8_nil := rfl

/-- An entry with a text of one byte that is no ASCII. -/
def latin1Entry : CacheEntry := { emptyEntry with statusCode := 200, etag := [233] }

/-- A call that may change the database, with what the clock shows and whether RocksDB succeeds. -/
inductive Call where
  | store (now : Int) (key upstreamResponse : Bytes) (putOk : Bool)
  | erase (key : Bytes) (deleteOk : Bool)

/-- The clock shows an `int64_t` when something is stored. -/
def Call.InTime : Call → Prop
  | .store now _ _ _ => IsInt64 now
  | .erase _ _ => True

section

variable {τ : Type} (env : CacheEnv τ Bytes)

/-- The database after a call. -/
def Call.apply (db : Database Bytes) : Call → Database Bytes
  | .store now key response putOk => (PersistentCache.store env db now key response putOk).1
  | .erase key deleteOk => (PersistentCache.erase db key deleteOk).1

/-- The database after some calls. -/
def applyAll (db : Database Bytes) (calls : List Call) : Database Bytes := calls.foldl (Call.apply env) db

/-- What the database is to hold: under each key the entry that was last stored with the answer true, unless it was
erased. -/
def Call.record (shelf : Bytes → Option CacheEntry) : Call → Bytes → Option CacheEntry
  | .store now key response putOk =>
    match PersistentCache.parseUpstream env response with
    | some resp =>
      let entry := PersistentCache.makeEntry env now resp
      if (env.codec.serialize entry).isSome ∧ putOk then Function.update shelf key (some entry) else shelf
    | none => shelf
  | .erase key deleteOk => if deleteOk then Function.update shelf key none else shelf

/-- What it is to hold after some calls. -/
def recordAll (calls : List Call) : Bytes → Option CacheEntry := calls.foldl (Call.record env) fun _ => none

theorem computeTtl_le (resp : ResponseInfo) : PersistentCache.computeTtl resp ≤ Int64.maxValue.toInt := by
  have hmax : Int64.maxValue.toInt = 9223372036854775807 := by decide
  have hcases : PersistentCache.computeTtl resp = 3600 ∨
      ∃ cc, PersistentCache.computeTtl resp = PersistentCache.parseMaxAge cc := by
    unfold PersistentCache.computeTtl
    split
    · split
      · exact .inr ⟨_, rfl⟩
      · exact .inl rfl
    · exact .inl rfl
  rcases hcases with heq | ⟨cc, heq⟩
  · omega
  · have hnonneg := computeTtl_nonneg resp
    have hage : PersistentCache.parseMaxAge cc = (PersistentCache.parseMaxAge cc).toNat := by omega
    have hle := PersistentCache.parseMaxAge_le hage
    omega

/-- The numbers of an entry that `store` makes are those of their types. -/
theorem inRange_makeEntry {now : Int} (hnow : IsInt64 now) {response : Bytes} {resp : ResponseInfo}
    (hresp : PersistentCache.parseUpstream env response = some resp) :
    InRange (PersistentCache.makeEntry env now resp) where
  statusCode := by
    have hstatus : resp.statusCode / 100 = 2 := (PersistentCache.parseUpstream_complete hresp).1
    have hsize : 300 ≤ UInt32.size := by decide
    exact lt_of_lt_of_le (show resp.statusCode < 300 by omega) hsize
  storedAt := hnow
  ttl := ⟨le_trans (show Int64.minValue.toInt ≤ 0 by decide) (computeTtl_nonneg resp), computeTtl_le resp⟩

variable {env} {rt : Runtime} (hrt : rt.Lawful) (henv : env.codec = rt.codec)

include hrt henv

/-- One call keeps it so that what can be read is what is to be held, as far as it is readable. -/
theorem Call.parse_apply (c : Call) (htime : c.InTime) {db : Database Bytes} {shelf : Bytes → Option CacheEntry}
    (heq : ∀ k, PersistentCache.entryAt env db k = (shelf k).filter fun e => decide (Readable rt e)) (k : Bytes) :
    PersistentCache.entryAt env (c.apply env db) k = (c.record env shelf k).filter fun e => decide (Readable rt e) := by
  cases c with
  | store now key response putOk =>
    cases hresp : PersistentCache.parseUpstream env response with
    | none => simpa only [apply, PersistentCache.store, record, hresp] using heq k
    | some resp =>
      have hrange := inRange_makeEntry env htime hresp
      cases hraw : env.codec.serialize (PersistentCache.makeEntry env now resp) with
      | none => simpa [apply, PersistentCache.store, record, hresp, hraw] using heq k
      | some raw =>
        cases putOk with
        | false => simpa [apply, PersistentCache.store, record, hresp, hraw] using heq k
        | true =>
          simp only [apply, PersistentCache.store, record, hresp, hraw, Option.isSome_some, and_self, if_true]
          by_cases hk : k = key
          · have hparse := codec_parse_serialized hrt hrange (henv ▸ hraw)
            rw [hk, PersistentCache.entryAt_update, henv, hparse, Function.update_self]
            simp [Option.filter]
          · rw [PersistentCache.entryAt_update_of_ne env db hk, Function.update_of_ne hk]
            exact heq k
  | erase key deleteOk =>
    cases deleteOk with
    | false => exact heq k
    | true =>
      simp only [apply, PersistentCache.erase, record, if_true]
      by_cases hk : k = key
      · simp [PersistentCache.entryAt, hk]
      · rw [PersistentCache.entryAt_update_of_ne env db hk, Function.update_of_ne hk]
        exact heq k

/-- And so do any calls, from an empty database on. -/
theorem parse_applyAll {calls : List Call} (hcalls : ∀ c ∈ calls, c.InTime) (key : Bytes) :
    PersistentCache.entryAt env (applyAll env (fun _ => none) calls) key =
      (recordAll env calls key).filter fun e => decide (Readable rt e) := by
  induction calls using List.reverseRecOn generalizing key with
  | nil => rfl
  | append_singleton calls c ih =>
    rw [applyAll, recordAll, List.foldl_append, List.foldl_append]
    exact c.parse_apply hrt henv (hcalls c (by simp)) (fun k => ih (fun c' hc' => hcalls c' (by simp [hc'])) k) key

end

/-- The cache for the page, over the runtime with unary numbers. -/
def unaryEnv : CacheEnv Llhttp.Tables Bytes where
  lexer := Page.lexer
  codec := unaryRuntime.codec
  order := Page.env.order
  order_perm := Page.env.order_perm

end CacheEntryFormat
end HpServer
