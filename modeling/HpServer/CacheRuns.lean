import HpServer.HttpCache
import HpServer.HttpRequestParser
import HpServer.Lib.Lts

/-!
# Runs of the cache

An open cache is looked up in and stored to, its L1 is configured anew, and the clock goes on. The calls come in any
order. `stores` is ghost data: the calls of `store` that succeeded, the last one first.
-/

namespace HpServer

/-- A call of `lookup` or of `store`; `putOk` says whether RocksDB takes what is put. -/
inductive CacheCall where
  | lookup (req : RequestInfo)
  | store (req : RequestInfo) (response : Bytes) (putOk : Bool)

/-- What happens to a cache. -/
inductive CacheLabel where
  | call (c : CacheCall)
  | configureL1 (maxEntries maxBytes : Nat)
  | elapse (seconds : Nat)

/-- A `store` that succeeded. -/
structure StoreRecord where
  key : Bytes
  time : Int
  response : Bytes
  deriving DecidableEq

/-- A cache, the clock, and what was stored so far. -/
structure CacheRun (ρ : Type) where
  cache : HttpCache ρ
  now : Int
  stores : List StoreRecord := []

namespace CacheRun

variable {τ ρ : Type}

/-- The last `store` under a key. -/
def lastStore (s : CacheRun ρ) (key : Bytes) : Option StoreRecord := s.stores.find? fun r => r.key = key

/-- A call. -/
def call (env : CacheEnv τ ρ) (s : CacheRun ρ) : CacheCall → CacheRun ρ
  | .lookup req => { s with cache := (s.cache.lookup env s.now req).1 }
  | .store req response putOk =>
    let (cache, ok) := s.cache.store env s.now req response putOk
    { s with
      cache := cache
      stores := if ok then ⟨HttpCache.buildCacheKey req, s.now, response⟩ :: s.stores else s.stores }

def step (env : CacheEnv τ ρ) (s : CacheRun ρ) : CacheLabel → Option (CacheRun ρ)
  | .call c => some (s.call env c)
  | .configureL1 maxEntries maxBytes => some { s with cache := s.cache.configureL1 maxEntries maxBytes }
  | .elapse seconds => some { s with now := s.now + seconds }

/-- The runs of a cache that is opened on the database `db`, with any configuration of L1 and at any time. -/
def lts (env : CacheEnv τ ρ) (db : Database ρ) : Lts (CacheRun ρ) CacheLabel where
  init s := ∃ maxEntries maxBytes now,
    s = { cache := HttpCache.configureL1 { l2 := some db } maxEntries maxBytes, now := now }
  step := step env

end CacheRun

/-! ## A cache for one page -/

namespace Page

open Llhttp

/-- The request for the page. -/
def request : RequestInfo := { RequestInfo.empty with method := ascii "GET", host := ascii "h", port := 80,
                                                      url := ascii "/a" }

/-- The head of a response of two bytes that is good for a minute. -/
def briefHead : Bytes := ascii "HTTP/1.1 200 OK\r\nETag: x\r\nCache-Control: max-age=60\r\nContent-Length: 2\r\n\r\n"

def brief : Bytes := briefHead ++ ascii "hi"

/-- The head of a response that lasts until the end of the stream. -/
def openHead : Bytes := ascii "HTTP/1.1 200 OK\r\n\r\n"

/-- What llhttp finds in the two heads. -/
def lexer : Lexer Tables :=
  tableLexer
    [(briefHead, [(.version, ascii "1.1"), (.status, ascii "OK"), (.headerField, ascii "ETag"), (.headerValue, ascii "x"),
        (.headerField, ascii "Cache-Control"), (.headerValue, ascii "max-age=60"), (.headerField, ascii "Content-Length"),
        (.headerValue, ascii "2")], { statusCode := 200, contentLength := 2, contentLengthField := true }),
      (openHead, [(.version, ascii "1.1"), (.status, ascii "OK")], { statusCode := 200 })]
    []

/-- Entries are kept as they are. -/
def codec : EntryCodec CacheEntry where
  serialize := some
  parse := some

theorem codec_roundTrip : codec.RoundTrip := fun _ _ h => h.symm

theorem codec_faithful : codec.Faithful :=
  fun _ _ _ hserialize hparse => Option.some.inj (hparse.symm.trans hserialize.symm)

/-- Headers are gone through in their order. -/
def env : CacheEnv Tables CacheEntry where
  lexer := lexer
  codec := codec
  order headers := headers
  order_perm headers := .refl headers

/-- A new cache with room for the page in L1. -/
def start : CacheRun CacheEntry := { cache := HttpCache.configureL1 { l2 := some fun _ => none } 10 1000, now := 0 }

theorem start_init : (CacheRun.lts env fun _ => none).init start := ⟨10, 1000, 0, rfl⟩

end Page
end HpServer
