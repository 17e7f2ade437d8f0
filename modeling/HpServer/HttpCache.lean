import HpServer.MemoryCache
import HpServer.PersistentCache

/-!
# The two-level cache (`src/net/http/http_cache.cpp`)

L1 is a memory cache of whole responses, L2 the persistent cache. A lookup asks L1 first; what L2 finds, and what is
stored, goes to L1 as well unless it is large.
-/

namespace HpServer

/-- `kL1MaxBodySize`. -/
def kL1MaxBodySize : Nat := 64 * 1024

/-- `http_cache`; there is no database until `open` has succeeded. -/
structure HttpCache (ρ : Type) where
  l2 : Option (Database ρ) := none
  l1Cache : MemoryCache Bytes Bytes := { maxEntries := 0, maxBytes := 0, weightFn := List.length }

namespace HttpCache

/-- `lookup_status`. -/
inductive LookupStatus where
  | bypass
  | miss
  | notModified
  | hit
  | error
  deriving DecidableEq

/-- `lookup_result`. -/
structure LookupResult where
  status : LookupStatus := .bypass
  cacheKey : Bytes := []
  response : Bytes := []
  detail : Bytes := []

/-- `configure_l1`. -/
def configureL1 {ρ : Type} (c : HttpCache ρ) (maxEntries maxBytes : Nat) : HttpCache ρ :=
  { c with l1Cache := { maxEntries := maxEntries, maxBytes := maxBytes, weightFn := List.length } }

/-- `is_cacheable_request`. -/
def isCacheableRequest (req : RequestInfo) : Bool := !req.isConnect && req.method = ascii "GET"

/-- `build_cache_key`. -/
def buildCacheKey (req : RequestInfo) : Bytes :=
  req.host ++ ascii ":" ++ decimal req.port.toNat ++ ascii "|" ++ req.method ++ ascii "|" ++ req.url ++
    match req.headers.lookup (ascii "accept-encoding") with
    | some value => ascii "|" ++ value
    | none => []

section

variable {τ ρ : Type} (env : CacheEnv τ ρ)

/-- `lookup`. -/
def lookup (c : HttpCache ρ) (now : Int) (req : RequestInfo) : HttpCache ρ × LookupResult :=
  if isCacheableRequest req = false then (c, {})
  else
    let key := buildCacheKey req
    match c.l2 with
    | none => (c, { status := .error, cacheKey := key, detail := ascii "cache module is not initialized" })
    | some db =>
      match c.l1Cache.withValue key with
      | (l1, some cached) => ({ c with l1Cache := l1 }, { status := .hit, cacheKey := key, response := cached })
      | (l1, none) =>
        let c := { c with l1Cache := l1 }
        let result := PersistentCache.lookup env db now key req
        match result.status with
        | .miss => (c, { status := .miss, cacheKey := key })
        | .notModified => (c, { status := .notModified, cacheKey := key, response := result.response })
        | .hit =>
          ({ c with l1Cache := if result.response.length ≤ kL1MaxBodySize then l1.put key result.response else l1 },
            { status := .hit, cacheKey := key, response := result.response })

/-- `store`. -/
def store (c : HttpCache ρ) (now : Int) (req : RequestInfo) (upstreamResponse : Bytes) (putOk : Bool) :
    HttpCache ρ × Bool :=
  if isCacheableRequest req = false then (c, false)
  else
    match c.l2 with
    | none => (c, false)
    | some db =>
      let key := buildCacheKey req
      match PersistentCache.store env db now key upstreamResponse putOk with
      | (db', false) => ({ c with l2 := some db' }, false)
      | (db', true) =>
        ({ l2 := some db'
           l1Cache :=
             if upstreamResponse.length ≤ kL1MaxBodySize then c.l1Cache.put key upstreamResponse else c.l1Cache }, true)

end

end HttpCache
end HpServer
