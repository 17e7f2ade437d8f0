import HpServer.Lemmas.HttpCacheSpec

/-!
# What L1 changes about the status of a lookup

The same calls are made of a cache with L1 and of one without, at one time. Both have the same database throughout
(`Beside`). L1 reads no entry and looks at no validator of the request: it answers a hit where L2 may fail to read
what it wrote, and where L2 says `not modified`. Of protobuf nothing is assumed; if it never parses a serialised entry
as another one, an entry that can be read is fresh (`FreshEntries`), and these two are the only differences.
-/

namespace HpServer

open HttpCache PersistentCache

variable {τ ρ : Type} (env : CacheEnv τ ρ)

/-- The statuses of the lookups among some calls. -/
def statuses (s : CacheRun ρ) : List CacheCall → List HttpCache.LookupStatus
  | [] => []
  | .lookup req :: calls => (s.cache.lookup env s.now req).2.status :: statuses (s.call env (.lookup req)) calls
  | .store req response putOk :: calls => statuses (s.call env (.store req response putOk)) calls

/-- In a lookup of a key that L1 holds, an entry can be read under the key and meets a condition. -/
def meets (p : Int → RequestInfo → CacheEntry → Bool) (s : CacheRun ρ) : CacheCall → Bool
  | .lookup req =>
    !(isCacheableRequest req && (s.cache.held (buildCacheKey req)).isSome) ||
      s.cache.l2.all fun db => (entryAt env db (buildCacheKey req)).any (p s.now req)
  | .store .. => true

/-- So it is in all of some calls, each where it is made. -/
def allMeet (p : Int → RequestInfo → CacheEntry → Bool) (s : CacheRun ρ) : List CacheCall → Bool
  | [] => true
  | c :: calls => meets env p s c && allMeet p (s.call env c) calls

/-- The request has not validated the entry. -/
def unvalidated (_now : Int) (req : RequestInfo) (entry : CacheEntry) : Bool := !checkNotModified req entry

/-- The entry is fresh and the request has not validated it. -/
def freshUnvalidated (now : Int) (req : RequestInfo) (entry : CacheEntry) : Bool :=
  isFresh now entry && unvalidated now req entry

/-- A cache at a time, with L1 configured anew. -/
def CacheRun.configured (c : HttpCache ρ) (now : Int) (maxEntries maxBytes : Nat) : CacheRun ρ :=
  { cache := c.configureL1 maxEntries maxBytes, now := now }

/-- The second cache has L1 switched off; they share the database and the time. -/
structure Beside (s t : CacheRun ρ) : Prop where
  now : s.now = t.now
  l2 : s.cache.l2 = t.cache.l2
  linked : s.cache.l1Cache.Linked
  off : t.cache.l1Cache = { maxEntries := 0, maxBytes := 0, weightFn := List.length }

/-- Under a key that L1 holds, no entry that has expired can be read. -/
structure FreshEntries (s : CacheRun ρ) : Prop where
  linked : s.cache.l1Cache.Linked
  fresh : ∀ key, (s.cache.held key).isSome → ∀ db, s.cache.l2 = some db → ∀ entry, entryAt env db key = some entry →
    isFresh s.now entry = true

theorem computeTtl_nonneg (resp : ResponseInfo) : 0 ≤ computeTtl resp := by
  unfold computeTtl
  split
  · split
    · assumption
    · decide
  · decide

/-- An entry is fresh when it is made. -/
theorem isFresh_makeEntry (now : Int) (resp : ResponseInfo) : isFresh now (makeEntry env now resp) = true := by
  refine decide_eq_true ?_
  show now ≤ now + computeTtl resp
  have httl := computeTtl_nonneg resp
  omega

/-- Without L1, a lookup changes nothing. -/
theorem lookup_off {c : HttpCache ρ} (hoff : c.l1Cache =
    { maxEntries := 0, maxBytes := 0, weightFn := List.length }) (now : Int)
    (req : RequestInfo) : (c.lookup env now req).1 = c := by
  obtain ⟨l2, l1⟩ := c
  subst hoff
  cases hreq : isCacheableRequest req with
  | false => rw [lookup_bypass env hreq]
  | true =>
    cases l2 with
    | none => simp [HttpCache.lookup, hreq]
    | some db =>
      rw [HttpCache.lookup, if_neg (by simp [hreq])]
      -- an empty cache has no value, and a `put` to one with a limit of zero does nothing
      simp only [MemoryCache.withValue, MemoryCache.find, List.lookup_nil, Option.bind_none, MemoryCache.put,
        true_or, if_true, ite_self]
      split <;> rfl

/-- Without L1, a lookup has the status L2 gives. -/
theorem status_off {c : HttpCache ρ} {db : Database ρ} {now : Int} {req : RequestInfo}
    (hoff : c.l1Cache = { maxEntries := 0, maxBytes := 0, weightFn := List.length })
      (hreq : isCacheableRequest req = true)
    (hdb : c.l2 = some db) :
    (c.lookup env now req).2.status = .ofL2 (PersistentCache.lookup env db now (buildCacheKey req) req).status := by
  have hlinked : c.l1Cache.Linked := hoff ▸ MemoryCache.linked_new _ _ _
  have hnone : c.held (buildCacheKey req) = none := by
    rw [held, hoff]
    rfl
  exact (lookup_unheld env now hreq hdb hlinked hnone rfl).1

/-- Where an entry is found under the key, L2 answers a hit exactly if it is fresh and the request has not validated
it. -/
theorem l2_hit_iff (db : Database ρ) (now : Int) (key : Bytes) (req : RequestInfo) :
    HttpCache.LookupStatus.ofL2 (PersistentCache.lookup env db now key req).status = .hit ↔
      (entryAt env db key).any (freshUnvalidated now req) = true := by
  cases hentry : entryAt env db key with
  | none => simp [PersistentCache.lookup, hentry, HttpCache.LookupStatus.ofL2]
  | some entry =>
    cases hfresh : isFresh now entry with
    | false => simp [PersistentCache.lookup, hentry, hfresh, HttpCache.LookupStatus.ofL2, freshUnvalidated]
    | true =>
      rw [lookup_fresh env hentry hfresh]
      cases hcheck : checkNotModified req entry <;>
        simp [hfresh, hcheck, HttpCache.LookupStatus.ofL2, freshUnvalidated, unvalidated]

namespace Beside

variable {env} {s t : CacheRun ρ}

/-- The two caches give a lookup the same status unless L1 answers one that is not a hit of L2. -/
theorem status_eq_iff (h : Beside s t) (req : RequestInfo) :
    (s.cache.lookup env s.now req).2.status = (t.cache.lookup env t.now req).2.status ↔
      meets env freshUnvalidated s (.lookup req) = true := by
  rw [meets]
  cases hreq : isCacheableRequest req with
  | false => simp [lookup_bypass env hreq]
  | true =>
    cases hl2 : s.cache.l2 with
    | none => simp [HttpCache.lookup, hreq, hl2, ← h.l2]
    | some db =>
      rw [status_off env h.off hreq (h.l2 ▸ hl2), ← h.now]
      cases hv : s.cache.held (buildCacheKey req) with
      | none =>
        obtain ⟨hstatus, -⟩ := lookup_unheld env s.now hreq hl2 h.linked hv rfl
        simp [hstatus]
      | some v =>
        obtain ⟨hresult, -⟩ := lookup_held env s.now hreq hl2 h.linked hv
        rw [hresult, eq_comm, l2_hit_iff]
        simp

/-- A call leaves them beside each other. -/
theorem call (h : Beside s t) (c : CacheCall) : Beside (s.call env c) (t.call env c) := by
  cases c with
  | lookup req =>
    have ht : t.call env (.lookup req) = t := by rw [CacheRun.call, lookup_off env h.off]
    rw [ht]
    cases hl2 : s.cache.l2 with
    | none => rwa [CacheRun.call, lookup_unopened env hl2]
    | some db =>
      obtain ⟨hdb, hlinked, -⟩ := lookup_tiers env hl2 h.linked s.now req
      exact ⟨h.now, hdb.trans (hl2.symm.trans h.l2), hlinked, h.off⟩
  | store req response putOk =>
    obtain ⟨hok, hl2⟩ := store_l2 env h.l2 s.now req response putOk
    cases hs : (s.cache.store env s.now req response putOk).2 with
    | false =>
      rw [CacheRun.call_store_false env hs, CacheRun.call_store_false env (by rw [← h.now, ← hok, hs])]
      exact h
    | true =>
      cases hdb : s.cache.l2 with
      | none =>
        rw [store_unopened env hdb] at hs
        cases hs
      | some db =>
        obtain ⟨_, _, -, -, -, -, hlinked, -⟩ := store_true env hdb h.linked hs
        refine ⟨h.now, hl2.trans (by rw [h.now]; rfl), hlinked, ?_⟩
        show (t.cache.store env t.now req response putOk).1.l1Cache = _
        rcases store_l1 env t.cache t.now req response putOk with hput | hsame
        · rw [hput, h.off, MemoryCache.put, if_pos (.inl rfl)]
        · rw [hsame, h.off]

/-- Over a list of calls: the statuses are the same exactly if none of the lookups is one that L1 answers otherwise
than L2. -/
theorem statuses_eq_iff (h : Beside s t) (calls : List CacheCall) :
    statuses env s calls = statuses env t calls ↔ allMeet env freshUnvalidated s calls = true := by
  induction calls generalizing s t with
  | nil => simp [statuses, allMeet]
  | cons c calls ih =>
    rw [allMeet, Bool.and_eq_true, ← ih (h.call c)]
    cases c with
    | lookup req => rw [statuses, statuses, List.cons.injEq, h.status_eq_iff req]
    | store req response putOk =>
      rw [statuses, statuses]
      exact (and_iff_right rfl).symm

end Beside

namespace FreshEntries

variable {env} {s : CacheRun ρ}

/-- A lookup brings to L1 only what L2 found fresh. -/
theorem lookup (h : FreshEntries env s) (req : RequestInfo) : FreshEntries env (s.call env (.lookup req)) := by
  cases hl2 : s.cache.l2 with
  | none => rwa [CacheRun.call, lookup_unopened env hl2]
  | some db =>
    obtain ⟨hdb, hlinked, hheld⟩ := lookup_tiers env hl2 h.linked s.now req
    refine ⟨hlinked, ?_⟩
    intro key hkey db' hdb' entry hentry
    obtain rfl := Option.some.inj (hdb.symm.trans hdb')
    obtain ⟨w, hw⟩ := Option.isSome_iff_exists.mp hkey
    rcases hheld key w hw with hold | ⟨entry', hentry', hfresh, -⟩
    · exact h.fresh key (by rw [hold]; rfl) db hl2 entry hentry
    · obtain rfl := Option.some.inj (hentry.symm.trans hentry')
      exact hfresh

/-- A store writes an entry that is fresh, and if that can be read it is the one that was written. -/
theorem store (hcodec : env.codec.Faithful) (h : FreshEntries env s) (req : RequestInfo) (response : Bytes)
    (putOk : Bool) :
    FreshEntries env (s.call env (.store req response putOk)) := by
  cases hs : (s.cache.store env s.now req response putOk).2 with
  | false => rwa [CacheRun.call_store_false env hs]
  | true =>
    cases hdb : s.cache.l2 with
    | none =>
      rw [store_unopened env hdb] at hs
      cases hs
    | some db =>
      obtain ⟨info, raw, -, -, hraw, hput, hlinked, hheld⟩ := store_true env hdb h.linked hs
      refine ⟨hlinked, ?_⟩
      intro key hkey db' hdb' entry hentry
      obtain rfl := Option.some.inj (hput.symm.trans hdb')
      obtain ⟨w, hw⟩ := Option.isSome_iff_exists.mp hkey
      by_cases hkey' : key = buildCacheKey req
      · -- the entry under the key is the new one, whatever L1 holds there
        rw [hkey', entryAt_update] at hentry
        obtain rfl := hcodec _ raw entry hraw hentry
        exact isFresh_makeEntry env s.now info
      · rw [entryAt_update_of_ne env db hkey'] at hentry
        rcases hheld key w hw with ⟨hnew, -⟩ | ⟨hold, -⟩
        · exact absurd hnew hkey'
        · exact h.fresh key (by rw [hold]; rfl) db hdb entry hentry

/-- A call keeps the entries fresh. -/
theorem call (hcodec : env.codec.Faithful) (h : FreshEntries env s) (c : CacheCall) :
    FreshEntries env (s.call env c) := by
  cases c with
  | lookup req => exact h.lookup req
  | store req response putOk => exact h.store hcodec req response putOk

/-- Where they are fresh, the two conditions are one. -/
theorem meets_eq (h : FreshEntries env s) (c : CacheCall) :
    meets env freshUnvalidated s c = meets env unvalidated s c := by
  cases c with
  | store req response putOk => rfl
  | lookup req =>
    rw [meets, meets]
    cases hheld : (s.cache.held (buildCacheKey req)).isSome with
    | false => simp
    | true =>
      cases hl2 : s.cache.l2 with
      | none => rfl
      | some db =>
        cases hentry : entryAt env db (buildCacheKey req) with
        | none => simp [hentry]
        | some entry => simp [hentry, freshUnvalidated, h.fresh _ hheld db hl2 entry hentry]

/-- And so over a list of calls. -/
theorem allMeet_eq (hcodec : env.codec.Faithful) (h : FreshEntries env s) (calls : List CacheCall) :
    allMeet env freshUnvalidated s calls = allMeet env unvalidated s calls := by
  induction calls generalizing s with
  | nil => rfl
  | cons c calls ih => rw [allMeet, allMeet, h.meets_eq c, ih (h.call hcodec c)]

end FreshEntries

/-- A request for the page that has its entity tag. -/
def Page.validated : RequestInfo := { Page.request with headers := [(ascii "if-none-match", ascii "x")] }

end HpServer
