import HpServer.HttpConn
import HpServer.HttpResponseParser
import HpServer.MessageBuilder
import Mathlib.Logic.Function.Basic

/-!
# The persistent cache (`src/net/http/persistent_cache.cpp`)

Responses in RocksDB, as protobuf messages. The database is a map from keys to serialised entries of a type `ρ`, and
protobuf is an `EntryCodec`, two functions of which nothing is assumed here; a theorem that needs it has
`EntryCodec.Faithful` or `EntryCodec.RoundTrip` among its hypotheses. Whether a `Put` or a `Delete` succeeds and what
the clock shows are arguments. Seconds are integers here; in the source they are `int64_t`.
-/

namespace HpServer

/-- `HttpCacheEntry`. -/
structure CacheEntry where
  statusCode : Nat
  reasonPhrase : Bytes
  lastModified : Bytes
  etag : Bytes
  storedAtUnixSec : Int
  ttlSec : Int
  headers : Headers
  body : Bytes
  varyHeaders : List Bytes

/-- `SerializeToString` and `ParseFromString`; either may fail. -/
structure EntryCodec (ρ : Type) where
  serialize : CacheEntry → Option ρ
  parse : ρ → Option CacheEntry

namespace EntryCodec

variable {ρ : Type}

/-- A serialised entry is never parsed as another one. It may not be parsed at all: the generated parser refuses
strings that are not UTF-8, which serialising lets pass. -/
def Faithful (codec : EntryCodec ρ) : Prop :=
  ∀ entry raw entry', codec.serialize entry = some raw → codec.parse raw = some entry' → entry' = entry

/-- Every serialised entry is parsed back. -/
def RoundTrip (codec : EntryCodec ρ) : Prop :=
  ∀ entry raw, codec.serialize entry = some raw → codec.parse raw = some entry

end EntryCodec

/-- What the cache takes from outside: how llhttp reads texts, protobuf, and the order in which a header map is gone
through. -/
structure CacheEnv (τ ρ : Type) where
  lexer : Llhttp.Lexer τ
  codec : EntryCodec ρ
  order : Headers → Headers
  order_perm : ∀ headers, (order headers).Perm headers

/-- The database. -/
abbrev Database (ρ : Type) := Bytes → Option ρ

namespace PersistentCache

/-- What may stand before `max-age=`. -/
def validStart (prev : Option UInt8) : Bool := prev = none || prev = some 44 || prev = some 32 || prev = some 59

/-- `parse_max_age` behind a byte `prev`. The text that is searched for does not overlap itself, so going on behind an
unfit place byte by byte finds the next one. A number that does not fit `long long` makes `std::stoll` throw. -/
def parseMaxAgeFrom (prev : Option UInt8) : Bytes → Int
  | [] => -1
  | c :: rest =>
    if ascii "max-age=" <+: c :: rest ∧ validStart prev then
      match readDecimal (((c :: rest).drop 8).takeWhile fun d => 48 ≤ d ∧ d ≤ 57) with
      | none => -1
      | some n => if n < Int64.maxValue.toInt + 1 then n else -1
    else parseMaxAgeFrom (some c) rest

/-- `parse_max_age`. -/
def parseMaxAge (cc : Bytes) : Int := parseMaxAgeFrom none cc

/-- `compute_ttl`: an `expires` header changes nothing. -/
def computeTtl (resp : ResponseInfo) : Int :=
  match resp.headers.lookup (ascii "cache-control") with
  | some cc => if 0 ≤ parseMaxAge cc then parseMaxAge cc else 3600
  | none => 3600

/-- `is_fresh`. -/
def isFresh (now : Int) (entry : CacheEntry) : Bool := now ≤ entry.storedAtUnixSec + entry.ttlSec

/-- `is_fresh` as it is evaluated: the sum is one of `int64_t`, which wraps around where it overflows. -/
def isFreshInt64 (now storedAt ttl : Int64) : Bool := now ≤ storedAt + ttl

/-- `trim_quotes`. -/
def trimQuotes (s : Bytes) : Bytes :=
  let s := if s.head? = some 34 then s.drop 1 else s
  if s.getLast? = some 34 then s.dropLast else s

/-- `check_not_modified`. -/
def checkNotModified (req : RequestInfo) (entry : CacheEntry) : Bool :=
  match req.headers.lookup (ascii "if-none-match") with
  | some inm =>
    if entry.etag ≠ [] then trimQuotes (toLowerAscii inm) = trimQuotes (toLowerAscii entry.etag)
    else byDate
  | none => byDate
where
  /-- The part of `check_not_modified` for `if-modified-since`. -/
  byDate : Bool :=
    match req.headers.lookup (ascii "if-modified-since") with
    | some ims => if entry.lastModified ≠ [] then ims = entry.lastModified else false
    | none => false

/-- `rebuild_response`. -/
def rebuildResponse (entry : CacheEntry) : Bytes :=
  let sent := entry.headers.filter fun f => !isHopByHopHeader (toLowerAscii f.1)
  ascii "HTTP/1.1 " ++ decimal entry.statusCode ++ ascii " " ++ entry.reasonPhrase ++ MessageBuilder.crlf ++
    sent.flatMap (fun f => headerLine f ++ MessageBuilder.crlf) ++
    (if sent.any fun f => toLowerAscii f.1 = ascii "content-length" then []
     else ascii "Content-Length: " ++ decimal entry.body.length ++ MessageBuilder.crlf) ++
    MessageBuilder.crlf ++ entry.body

/-- `build_not_modified_response`. -/
def buildNotModifiedResponse (entry : CacheEntry) : Bytes :=
  let sent := entry.headers.filter fun f =>
    let key := toLowerAscii f.1
    key = ascii "etag" || key = ascii "last-modified" || key = ascii "cache-control" || key = ascii "expires" ||
      key = ascii "vary"
  ascii "HTTP/1.1 304 Not Modified" ++ MessageBuilder.crlf ++ sent.flatMap
    (fun f => headerLine f ++ MessageBuilder.crlf) ++ MessageBuilder.crlf

/-- `parse_vary_headers`. -/
def parseVaryHeaders (varyValue : Bytes) : List Bytes :=
  (varyValue.splitOn 44).filterMap fun part =>
    let name := ((part.dropWhile (· = 32)).reverse.dropWhile (· = 32)).reverse
    if name = [] then none else some (toLowerAscii name)

/-- `lookup_status`. -/
inductive LookupStatus where
  | miss
  | notModified
  | hit
  deriving DecidableEq

/-- `lookup_result`. -/
structure LookupResult where
  status : LookupStatus := .miss
  response : Bytes := []

section

variable {τ ρ : Type} (env : CacheEnv τ ρ)

/-- The entry under a key, if there is one that can be parsed. -/
def entryAt (db : Database ρ) (key : Bytes) : Option CacheEntry := (db key).bind env.codec.parse

/-- `lookup`. -/
def lookup (db : Database ρ) (now : Int) (key : Bytes) (req : RequestInfo) : LookupResult :=
  match entryAt env db key with
  | none => {}
  | some entry =>
    if isFresh now entry = false then {}
    else if checkNotModified req entry then { status := .notModified, response := buildNotModifiedResponse entry }
    else { status := .hit, response := rebuildResponse entry }

/-- The part of `store` that parses the response: a complete one with a status of 2xx. -/
def parseUpstream (upstreamResponse : Bytes) : Option ResponseInfo :=
  let (p, ok) := ({} : HttpResponseParser τ).parse env.lexer upstreamResponse
  if ok = false || p.hasParseError then none
  else
    let p := if p.isMessageComplete then p else p.finish.1
    if p.isMessageComplete = false || p.hasParseError then none
    else if p.response.statusCode < 200 || 300 ≤ p.response.statusCode then none
    else some p.response

/-- The entry `store` makes of a parsed response. -/
def makeEntry (now : Int) (resp : ResponseInfo) : CacheEntry where
  statusCode := resp.statusCode
  reasonPhrase := resp.reasonPhrase
  storedAtUnixSec := now
  ttlSec := computeTtl resp
  headers := env.order resp.headers
  lastModified := (resp.headers.lookup (ascii "last-modified")).getD []
  etag := (resp.headers.lookup (ascii "etag")).getD []
  varyHeaders := (resp.headers.lookup (ascii "vary")).elim [] parseVaryHeaders
  body := resp.body

/-- `store`: the database afterwards, and the answer. -/
def store (db : Database ρ) (now : Int) (key upstreamResponse : Bytes) (putOk : Bool) : Database ρ × Bool :=
  match parseUpstream env upstreamResponse with
  | none => (db, false)
  | some resp =>
    match env.codec.serialize (makeEntry env now resp) with
    | none => (db, false)
    | some raw => if putOk then (Function.update db key (some raw), true) else (db, false)

end

/-- `erase`, which succeeds if the `Delete` does. -/
def erase {ρ : Type} (db : Database ρ) (key : Bytes) (deleteOk : Bool) : Database ρ × Bool :=
  if deleteOk then (Function.update db key none, true) else (db, false)

end PersistentCache
end HpServer
