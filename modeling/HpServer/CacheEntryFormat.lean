import HpServer.Lib.Turns
import HpServer.PersistentCache
import Mathlib.Algebra.GroupWithZero.Nat

/-!
# The stored form of a cache entry (`src/net/http/http_cache.pb.cc`)

The generated code of `http_cache.proto`: `_InternalSerialize`, `ByteSizeLong`, `_InternalParse` and `MergeImpl` of
`HeaderEntry` and `HttpCacheEntry`. The functions it calls in the runtime of protocol buffers, which is not part of
the source, are a parameter (`Runtime`), and what is assumed of them is `Runtime.Lawful`. An entry is a `CacheEntry`,
whose numbers are those of `uint32` and `int64_t` (`InRange`). Unknown fields are gone over and not kept; no function
of the cache looks at them.
-/

namespace HpServer
namespace CacheEntryFormat

open Turns

/-- The word of an `int64_t`: its two's complement. -/
def wordOfInt64 (i : Int) : Nat := (i % UInt64.size).toNat

/-- The `int64_t` of a word. -/
def int64OfWord (n : Nat) : Int := (n : Int).bmod UInt64.size

/-- An `int64_t`. -/
def IsInt64 (i : Int) : Prop := Int64.minValue.toInt ≤ i ∧ i ≤ Int64.maxValue.toInt

instance (i : Int) : Decidable (IsInt64 i) := inferInstanceAs (Decidable (_ ∧ _))

/-- The functions of the runtime that the generated code calls. A writer gets the number of the field and its value; a
reader gets the text it reads from, and gives what it has read and the text behind it. -/
structure Runtime where
  /-- `WriteUInt32ToArray`. -/
  writeUInt32 : Nat → Nat → Bytes
  /-- `WriteInt64ToArray`. -/
  writeInt64 : Nat → Int → Bytes
  /-- `WriteString`, `WriteStringMaybeAliased`, `WriteBytesMaybeAliased`. -/
  writeString : Nat → Bytes → Bytes
  /-- `InternalWriteMessage`: the size that is cached, and the serialised message. -/
  writeMessage : Nat → Nat → Bytes → Bytes
  /-- `UInt32SizePlusOne`. -/
  uint32SizePlusOne : Nat → Nat
  /-- `Int64SizePlusOne`. -/
  int64SizePlusOne : Int → Nat
  /-- `StringSize`, `BytesSize`. -/
  stringSize : Bytes → Nat
  /-- `MessageSize`, of a message with the given size. -/
  messageSize : Nat → Nat
  /-- `ReadTag`. -/
  readTag : Bytes → Option (Nat × Bytes)
  /-- `ReadVarint32`. -/
  readVarint32 : Bytes → Option (Nat × Bytes)
  /-- `ReadVarint64`. -/
  readVarint64 : Bytes → Option (Nat × Bytes)
  /-- `InlineGreedyStringParser`. -/
  readString : Bytes → Option (Bytes × Bytes)
  /-- The part of `ParseMessage` that finds where the message ends. -/
  readMessage : Bytes → Option (Bytes × Bytes)
  /-- `VerifyUTF8`. -/
  verifyUtf8 : Bytes → Bool
  /-- `UnknownFieldParse`, by how deep the message is nested and the tag: the text behind the field. -/
  unknownFieldParse : Nat → Nat → Bytes → Option Bytes
  /-- The size up to which `SerializeToString` takes a message. -/
  sizeLimit : Nat
  /-- The length up to which a string or a message in a message is read. -/
  lengthLimit : Nat

/-- `field` is a tag and a text from which `read` takes what is given, whatever follows. -/
def ReadBack {β : Type} (tag : UInt8) (read : Bytes → Option (β × Bytes)) (value : Option β) (field : Bytes) : Prop :=
  ∃ text, field = tag :: text ∧ ∀ rest, read (text ++ rest) = value.map fun v => (v, rest)

/-- What is assumed of the runtime: a reader goes forward; a field with a number below 16 is written as a tag of one
byte and a value that is read back, unless it is too long; and the sizes are those of what is written. -/
structure Runtime.Lawful (rt : Runtime) : Prop where
  readTag_lt : ∀ {bs p}, rt.readTag bs = some p → p.2.length < bs.length
  readVarint32_le : ∀ {bs p}, rt.readVarint32 bs = some p → p.2.length ≤ bs.length
  readVarint64_le : ∀ {bs p}, rt.readVarint64 bs = some p → p.2.length ≤ bs.length
  readString_le : ∀ {bs p}, rt.readString bs = some p → p.2.length ≤ bs.length
  readMessage_le : ∀ {bs p}, rt.readMessage bs = some p → p.2.length ≤ bs.length
  unknownFieldParse_le : ∀ {depth tag bs rest}, rt.unknownFieldParse depth tag bs = some rest → rest.length ≤ bs.length
  readTag_cons : ∀ (tag : UInt8) bs, tag.toNat < 128 → rt.readTag (tag :: bs) = some (tag.toNat, bs)
  writeUInt32 : ∀ number n, number < 16 → n < UInt32.size →
    ReadBack (8 * number).toUInt8 rt.readVarint32 (some n) (rt.writeUInt32 number n)
  writeInt64 : ∀ number i, number < 16 → IsInt64 i →
    ReadBack (8 * number).toUInt8 rt.readVarint64 (some (wordOfInt64 i)) (rt.writeInt64 number i)
  writeString : ∀ number s, number < 16 → s.length ≤ rt.sizeLimit →
    ReadBack (8 * number + 2).toUInt8 rt.readString (if s.length ≤ rt.lengthLimit then some s else none)
      (rt.writeString number s)
  writeMessage : ∀ number s, number < 16 → s.length ≤ rt.sizeLimit →
    ReadBack (8 * number + 2).toUInt8 rt.readMessage (if s.length ≤ rt.lengthLimit then some s else none)
      (rt.writeMessage number s.length s)
  length_writeUInt32 : ∀ number n, number < 16 → n < UInt32.size →
    (rt.writeUInt32 number n).length = rt.uint32SizePlusOne n
  length_writeInt64 : ∀ number i, number < 16 → IsInt64 i → (rt.writeInt64 number i).length = rt.int64SizePlusOne i
  length_writeString : ∀ number s, number < 16 → (rt.writeString number s).length = 1 + rt.stringSize s
  length_writeMessage : ∀ number s, number < 16 → (rt.writeMessage number s.length s).length = 1 + rt.messageSize s.length
  le_stringSize : ∀ s : Bytes, s.length ≤ rt.stringSize s
  le_messageSize : ∀ n, n ≤ rt.messageSize n
  verifyUtf8_nil : rt.verifyUtf8 [] = true

section

variable (rt : Runtime)

/-! ## Writing -/

/-- `HeaderEntry::_InternalSerialize`. -/
def serializeHeader (h : Bytes × Bytes) : Bytes :=
  (if h.1 = [] then [] else rt.writeString 1 h.1) ++ (if h.2 = [] then [] else rt.writeString 2 h.2)

/-- `HeaderEntry::ByteSizeLong`. -/
def headerByteSize (h : Bytes × Bytes) : Nat :=
  (if h.1 = [] then 0 else 1 + rt.stringSize h.1) + (if h.2 = [] then 0 else 1 + rt.stringSize h.2)

/-- A header as it is written: its length is the size computed before. -/
def writeHeader (h : Bytes × Bytes) : Bytes := rt.writeMessage 7 (headerByteSize rt h) (serializeHeader rt h)

/-- `HttpCacheEntry::_InternalSerialize`. A text that is not UTF-8 is only complained about. -/
def internalSerialize (e : CacheEntry) : Bytes :=
  (if e.statusCode = 0 then [] else rt.writeUInt32 1 e.statusCode) ++
    ((if e.reasonPhrase = [] then [] else rt.writeString 2 e.reasonPhrase) ++
      ((if e.lastModified = [] then [] else rt.writeString 3 e.lastModified) ++
        ((if e.etag = [] then [] else rt.writeString 4 e.etag) ++
          ((if e.storedAtUnixSec = 0 then [] else rt.writeInt64 5 e.storedAtUnixSec) ++
            ((if e.ttlSec = 0 then [] else rt.writeInt64 6 e.ttlSec) ++
              (e.headers.flatMap (writeHeader rt) ++
                ((if e.body = [] then [] else rt.writeString 8 e.body) ++ e.varyHeaders.flatMap (rt.writeString 9))))))))

/-- `HttpCacheEntry::ByteSizeLong`. -/
def byteSizeLong (e : CacheEntry) : Nat :=
  e.headers.length + (e.headers.map fun h => rt.messageSize (headerByteSize rt h)).sum +
    (e.varyHeaders.length + (e.varyHeaders.map rt.stringSize).sum) +
    (if e.reasonPhrase = [] then 0 else 1 + rt.stringSize e.reasonPhrase) +
    (if e.lastModified = [] then 0 else 1 + rt.stringSize e.lastModified) +
    (if e.etag = [] then 0 else 1 + rt.stringSize e.etag) +
    (if e.body = [] then 0 else 1 + rt.stringSize e.body) +
    (if e.storedAtUnixSec = 0 then 0 else rt.int64SizePlusOne e.storedAtUnixSec) +
    (if e.ttlSec = 0 then 0 else rt.int64SizePlusOne e.ttlSec) +
    (if e.statusCode = 0 then 0 else rt.uint32SizePlusOne e.statusCode)

/-! ## Reading -/

/-- `handle_unusual`: at a tag that ends a message the loop is left, and the runtime then refuses the text; an unknown
field is gone over. -/
def handleUnusual {σ : Type} (depth tag : Nat) (s : σ) (ptr : Bytes) : Option (σ × Bytes) :=
  if tag = 0 ∨ tag % 8 = 4 then none else (rt.unknownFieldParse depth tag ptr).map fun rest => (s, rest)

/-- A text, which is then verified to be UTF-8. -/
def readText {σ : Type} (set : Bytes → σ) (ptr : Bytes) : Option (σ × Bytes) :=
  (rt.readString ptr).bind fun p => if rt.verifyUtf8 p.1 then some (set p.1, p.2) else none

/-- A turn of the loop of `HeaderEntry::_InternalParse`. -/
def headerTurn (h : Bytes × Bytes) (bs : Bytes) : Option ((Bytes × Bytes) × Bytes) :=
  (rt.readTag bs).bind fun p =>
    match p.1 / 8, p.1 % 256 with
    | 1, 10 => readText rt (fun s => (s, h.2)) p.2
    | 2, 18 => readText rt (fun s => (h.1, s)) p.2
    | _, _ => handleUnusual rt 1 p.1 h p.2

/-- `ParseMessage` of a header that is added to the entry. -/
def addHeader (e : CacheEntry) (ptr : Bytes) : Option (CacheEntry × Bytes) :=
  (rt.readMessage ptr).bind fun p => (parse (headerTurn rt) ([], []) p.1).map fun h =>
    ({ e with headers := e.headers ++ [h] }, p.2)

/-- A text added to `vary_headers`. -/
def addVaryHeader (e : CacheEntry) (ptr : Bytes) : Option (CacheEntry × Bytes) :=
  readText rt (fun s => { e with varyHeaders := e.varyHeaders ++ [s] }) ptr

/-- A turn of the loop of `HttpCacheEntry::_InternalParse`; `many` is how the values of a repeated field are read. -/
def entryTurn (many : UInt8 → (CacheEntry → Bytes → Option (CacheEntry × Bytes)) → CacheEntry → Bytes →
    Option (CacheEntry × Bytes)) (e : CacheEntry) (bs : Bytes) : Option (CacheEntry × Bytes) :=
  (rt.readTag bs).bind fun p =>
    match p.1 / 8, p.1 % 256 with
    | 1, 8 => (rt.readVarint32 p.2).map fun q => ({ e with statusCode := q.1 }, q.2)
    | 2, 18 => readText rt (fun s => { e with reasonPhrase := s }) p.2
    | 3, 26 => readText rt (fun s => { e with lastModified := s }) p.2
    | 4, 34 => readText rt (fun s => { e with etag := s }) p.2
    | 5, 40 => (rt.readVarint64 p.2).map fun q => ({ e with storedAtUnixSec := int64OfWord q.1 }, q.2)
    | 6, 48 => (rt.readVarint64 p.2).map fun q => ({ e with ttlSec := int64OfWord q.1 }, q.2)
    | 7, 58 => many 58 (addHeader rt) e p.2
    | 8, 66 => (rt.readString p.2).map fun q => ({ e with body := q.1 }, q.2)
    | 9, 74 => many 74 (addVaryHeader rt) e p.2
    | _, _ => handleUnusual rt 0 p.1 e p.2

/-- The turn as it is generated: a repeated field is read on as long as the next byte is its tag. -/
def internalTurn : CacheEntry → Bytes → Option (CacheEntry × Bytes) :=
  entryTurn rt fun tag one e ptr => repeated tag one (ptr.length + 1) e ptr

/-- The turn without that shortcut: one value of a repeated field in each turn. -/
def plainTurn : CacheEntry → Bytes → Option (CacheEntry × Bytes) := entryTurn rt fun _ one => one

/-- `HttpCacheEntry::_InternalParse` of a whole text: the fields that are read are set on, or added to, an entry. -/
def internalParse (e : CacheEntry) (raw : Bytes) : Option CacheEntry := parse (internalTurn rt) e raw

end

/-- An entry with nothing set, as `Clear` leaves it. -/
def emptyEntry : CacheEntry where
  statusCode := 0
  reasonPhrase := []
  lastModified := []
  etag := []
  storedAtUnixSec := 0
  ttlSec := 0
  headers := []
  body := []
  varyHeaders := []

/-- `MergeImpl`. -/
def mergeFrom (into source : CacheEntry) : CacheEntry where
  headers := into.headers ++ source.headers
  varyHeaders := into.varyHeaders ++ source.varyHeaders
  reasonPhrase := if source.reasonPhrase = [] then into.reasonPhrase else source.reasonPhrase
  lastModified := if source.lastModified = [] then into.lastModified else source.lastModified
  etag := if source.etag = [] then into.etag else source.etag
  body := if source.body = [] then into.body else source.body
  storedAtUnixSec := if source.storedAtUnixSec = 0 then into.storedAtUnixSec else source.storedAtUnixSec
  ttlSec := if source.ttlSec = 0 then into.ttlSec else source.ttlSec
  statusCode := if source.statusCode = 0 then into.statusCode else source.statusCode

/-- The generated code as the cache uses it: `SerializeToString` refuses an entry that is too large, and
`ParseFromString` reads into an entry with nothing set. -/
def Runtime.codec (rt : Runtime) : EntryCodec Bytes where
  serialize e := if byteSizeLong rt e ≤ rt.sizeLimit then some (internalSerialize rt e) else none
  parse := internalParse rt emptyEntry

/-! ## Entries -/

/-- The numbers of an entry are those of their types. -/
structure InRange (e : CacheEntry) : Prop where
  statusCode : e.statusCode < UInt32.size
  storedAt : IsInt64 e.storedAtUnixSec
  ttl : IsInt64 e.ttlSec

instance (e : CacheEntry) : Decidable (InRange e) :=
  decidable_of_iff (e.statusCode < UInt32.size ∧ IsInt64 e.storedAtUnixSec ∧ IsInt64 e.ttlSec)
    ⟨fun ⟨h1, h2, h3⟩ => ⟨h1, h2, h3⟩, fun ⟨h1, h2, h3⟩ => ⟨h1, h2, h3⟩⟩

section

variable (rt : Runtime)

/-- A text field that is read back: UTF-8, and not too long. -/
def TextOk (s : Bytes) : Prop := s.length ≤ rt.lengthLimit ∧ rt.verifyUtf8 s = true

/-- A header that is read back: its texts are, and it is not too long as a whole. -/
def HeaderOk (h : Bytes × Bytes) : Prop :=
  headerByteSize rt h ≤ rt.lengthLimit ∧ rt.verifyUtf8 h.1 = true ∧ rt.verifyUtf8 h.2 = true

instance (s : Bytes) : Decidable (TextOk rt s) := inferInstanceAs (Decidable (_ ∧ _))

instance (h : Bytes × Bytes) : Decidable (HeaderOk rt h) := inferInstanceAs (Decidable (_ ∧ _))

/-- Every field of an entry is one that is read back. The body is not a text: only its length matters. -/
structure Readable (e : CacheEntry) : Prop where
  reasonPhrase : TextOk rt e.reasonPhrase
  lastModified : TextOk rt e.lastModified
  etag : TextOk rt e.etag
  headers : ∀ h ∈ e.headers, HeaderOk rt h
  body : e.body.length ≤ rt.lengthLimit
  varyHeaders : ∀ v ∈ e.varyHeaders, TextOk rt v

instance (e : CacheEntry) : Decidable (Readable rt e) :=
  decidable_of_iff (TextOk rt e.reasonPhrase ∧ TextOk rt e.lastModified ∧ TextOk rt e.etag ∧
    (∀ h ∈ e.headers, HeaderOk rt h) ∧
      e.body.length ≤ rt.lengthLimit ∧ ∀ v ∈ e.varyHeaders, TextOk rt v)
    ⟨fun ⟨h1, h2, h3, h4, h5, h6⟩ => ⟨h1, h2, h3, h4, h5, h6⟩, fun ⟨h1, h2, h3, h4, h5, h6⟩ => ⟨h1, h2, h3, h4, h5, h6⟩⟩

end

end CacheEntryFormat
end HpServer
