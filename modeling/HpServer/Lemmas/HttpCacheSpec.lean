import HpServer.CacheRuns
import HpServer.Lemmas.MemoryCacheSpec

/-!
# What the calls of the cache do

One lemma for each way a `lookup` or a `store` can go, in terms of the entry the database has under a key and of what
L1 holds. The theorems about the cache are derived from these; none of them opens the memory cache again.
-/

namespace HpServer

section

variable {τ ρ : Type} (env : CacheEnv τ ρ)

namespace PersistentCache

/-- An answer of the persistent cache is the one of a fresh entry. -/
theorem lookup_eq {db : Database ρ} {now : Int} {key : Bytes} {req : RequestInfo}
    (h : (lookup env db now key req).status ≠ .miss) :
    ∃ entry, entryAt env db key = some entry ∧ isFresh now entry = true ∧
      lookup env db now key req =
        if checkNotModified req entry then { status := .notModified, response := buildNotModifiedResponse entry }
        else { status := .hit, response := rebuildResponse entry } := by
  rw [lookup] at h ⊢
  cases hentry : entryAt env db key with
  | none => simp [hentry] at h
  | some entry =>
    simp only [hentry] at h ⊢
    by_cases hfresh : isFresh now entry = true
    · exact ⟨entry, rfl, hfresh, by simp [hfresh]⟩
    · simp [hfresh] at h

/-- A hit is the response rebuilt of a fresh entry. -/
theorem lookup_hit {db : Database ρ} {now : Int} {key : Bytes} {req : RequestInfo}
    (h : (lookup env db now key req).status = .hit) :
    ∃ entry, entryAt env db key = some entry ∧ isFresh now entry = true ∧
      (lookup env db now key req).response = rebuildResponse entry := by
  obtain ⟨entry, hentry, hfresh, heq⟩ := lookup_eq env (by rw [h]; exact nofun)
  refine ⟨entry, hentry, hfresh, ?_⟩
  rw [heq] at h ⊢
  split at h
  · cases h
  · rw [if_neg ‹_›]

/-- A 304 is made of a fresh entry too. -/
theorem lookup_notModified {db : Database ρ} {now : Int} {key : Bytes} {req : RequestInfo}
    (h : (lookup env db now key req).status = .notModified) :
    ∃ entry, entryAt env db key = some entry ∧ isFresh now entry = true ∧
      (lookup env db now key req).response = buildNotModifiedResponse entry := by
  obtain ⟨entry, hentry, hfresh, heq⟩ := lookup_eq env (by rw [h]; exact nofun)
  refine ⟨entry, hentry, hfresh, ?_⟩
  rw [heq] at h ⊢
  split at h
  · rw [if_pos ‹_›]
  · cases h

/-- A fresh entry is answered, with the status its validators and those of the request give. -/
theorem lookup_fresh {db : Database ρ} {now : Int} {key : Bytes} {req : RequestInfo} {entry : CacheEntry}
    (hentry : entryAt env db key = some entry) (hfresh : isFresh now entry = true) :
    (lookup env db now key req).status = if checkNotModified req entry then .notModified else .hit := by
  simp only [lookup, hentry, hfresh, Bool.true_eq_false, if_false]
  split <;> rfl

/-- A `store` that succeeds puts the serialised entry of the response under the key. -/
theorem store_true {db : Database ρ} {now : Int} {key response : Bytes} {putOk : Bool}
    (h : (store env db now key response putOk).2 = true) :
    ∃ info raw, parseUpstream env response = some info ∧ env.codec.serialize (makeEntry env now info) = some raw ∧
      (store env db now key response putOk).1 = Function.update db key (some raw) := by
  rw [store] at h ⊢
  cases hparse : parseUpstream env response with
  | none => simp [hparse] at h
  | some info =>
    cases hraw : env.codec.serialize (makeEntry env now info) with
    | none => simp [hparse, hraw] at h
    | some raw =>
      cases putOk with
      | false => simp [hparse, hraw] at h
      | true =>
        refine ⟨info, raw, rfl, hraw, ?_⟩
        simp only [hraw, if_true]

/-- What is read under a key after a `Put`. -/
theorem entryAt_update (db : Database ρ) (key : Bytes) (raw : ρ) :
    entryAt env (Function.update db key (some raw)) key = env.codec.parse raw := by
  rw [entryAt, Function.update_self, Option.bind_some]

/-- A `Put` leaves the other keys. -/
theorem entryAt_update_of_ne (db : Database ρ) {key k : Bytes} (hk : k ≠ key) (raw : Option ρ) :
    entryAt env (Function.update db key raw) k = entryAt env db k := by
  rw [entryAt, Function.update_of_ne hk, entryAt]

/-- A store that fails changes nothing. -/
theorem store_false {db : Database ρ} {now : Int} {key response : Bytes} {putOk : Bool}
    (h : (store env db now key response putOk).2 = false) : (store env db now key response putOk).1 = db := by
  unfold store at h ⊢
  split
  · rfl
  · split
    · rfl
    · split
      · simp_all
      · rfl

end PersistentCache

namespace HttpCache

/-- What L1 holds under a key. -/
def held (c : HttpCache ρ) (key : Bytes) : Option Bytes := c.l1Cache.contents key

/-- A new L1 holds nothing. -/
theorem held_configureL1 (c : HttpCache ρ) (maxEntries maxBytes : Nat) (key : Bytes) :
    (c.configureL1 maxEntries maxBytes).held key = none := rfl

/-- What L1 holds after a `put`. -/
theorem put_contents {l1 : MemoryCache Bytes Bytes} (h : l1.Linked) {key value k w : Bytes}
    (hk : (l1.put key value).contents k = some w) : (k = key ∧ w = value) ∨ (k ≠ key ∧ l1.contents k = some w) := by
  obtain ⟨-, hkey, hother⟩ := h.put key value
  by_cases hne : k = key
  · subst hne
    rcases hkey with hv | hnone
    · exact .inl ⟨rfl, Option.some.inj (hk.symm.trans hv)⟩
    · rw [hnone] at hk
      cases hk
  · rcases hother k hne with hv | hnone
    · exact .inr ⟨hne, hv ▸ hk⟩
    · rw [hnone] at hk
      cases hk

/-- The status of an answer of L2. -/
def LookupStatus.ofL2 : PersistentCache.LookupStatus → LookupStatus
  | .miss => .miss
  | .notModified => .notModified
  | .hit => .hit

/-- A request that is not to be cached is passed by. -/
theorem lookup_bypass {c : HttpCache ρ} {now : Int} {req : RequestInfo} (hreq : isCacheableRequest req = false) :
    lookup env c now req = (c, {}) := if_pos hreq

/-- Without a database a lookup changes nothing. -/
theorem lookup_unopened {c : HttpCache ρ} {now : Int} {req : RequestInfo} (hl2 : c.l2 = none) :
    (lookup env c now req).1 = c := by
  rw [lookup]
  split
  · rfl
  · rw [hl2]

/-- A lookup of a key that L1 holds is answered from L1, whatever the database has, and changes nothing that is held. -/
theorem lookup_held {c : HttpCache ρ} {db : Database ρ} (now : Int) {req : RequestInfo} {v : Bytes}
    (hreq : isCacheableRequest req = true) (hdb : c.l2 = some db) (hlinked : c.l1Cache.Linked)
    (hv : c.held (buildCacheKey req) = some v) :
    (lookup env c now req).2 = { status := .hit, cacheKey := buildCacheKey req, response := v } ∧
      (lookup env c now req).1.l2 = some db ∧ (lookup env c now req).1.l1Cache.Linked ∧
        (lookup env c now req).1.held = c.held := by
  obtain ⟨hvalue, hlinked', hsame⟩ := hlinked.withValue (buildCacheKey req)
  have heq : lookup env c now req = ({ c with l1Cache := (c.l1Cache.withValue (buildCacheKey req)).1 },
      { status := .hit, cacheKey := buildCacheKey req, response := v }) := by
    have hfound : c.l1Cache.withValue (buildCacheKey req) = ((c.l1Cache.withValue (buildCacheKey req)).1, some v) :=
      Prod.ext rfl (hvalue.trans hv)
    rw [lookup, if_neg (by simp [hreq]), hdb]
    simp only
    rw [hfound]
  rw [heq]
  exact ⟨rfl, hdb, hlinked', hsame⟩

/-- A lookup of a key that L1 does not hold is answered from L2, and a hit may be held from then on. -/
theorem lookup_unheld {c : HttpCache ρ} {db : Database ρ} (now : Int) {req : RequestInfo}
    {found : PersistentCache.LookupResult}
    (hreq : isCacheableRequest req = true) (hdb : c.l2 = some db) (hlinked : c.l1Cache.Linked)
    (hv : c.held (buildCacheKey req) = none)
    (hfound : PersistentCache.lookup env db now (buildCacheKey req) req = found) :
    (lookup env c now req).2.status = .ofL2 found.status ∧
      (found.status ≠ .miss → (lookup env c now req).2.response = found.response) ∧
      (lookup env c now req).1.l2 = some db ∧ (lookup env c now req).1.l1Cache.Linked ∧
      ∀ k w, (lookup env c now req).1.held k = some w →
        c.held k = some w ∨ (k = buildCacheKey req ∧ found.status = .hit ∧ w = found.response) := by
  obtain ⟨hvalue, hlinked', hsame⟩ := hlinked.withValue (buildCacheKey req)
  have hnone : c.l1Cache.withValue (buildCacheKey req) = ((c.l1Cache.withValue (buildCacheKey req)).1, none) :=
    Prod.ext rfl (hvalue.trans hv)
  rw [lookup, if_neg (by simp [hreq]), hdb]
  simp only
  rw [hnone]
  generalize (c.l1Cache.withValue (buildCacheKey req)).1 = l1 at hlinked' hsame
  simp only [hfound]
  have hold : ∀ k w, l1.contents k = some w → c.held k = some w := by
    intro k w hk
    rwa [hsame] at hk
  cases hstatus : found.status with
  | miss => exact ⟨rfl, fun h => absurd rfl h, rfl, hlinked', fun k w hk => .inl (hold k w hk)⟩
  | notModified => exact ⟨rfl, fun _ => rfl, rfl, hlinked', fun k w hk => .inl (hold k w hk)⟩
  | hit =>
    refine ⟨rfl, fun _ => rfl, rfl, ?_, ?_⟩
    · show MemoryCache.Linked (if _ then _ else _)
      split
      · exact (hlinked'.put _ _).1
      · exact hlinked'
    · intro k w hk
      by_cases hsize : found.response.length ≤ kL1MaxBodySize
      · rw [held, if_pos hsize] at hk
        rcases put_contents hlinked' hk with ⟨rfl, rfl⟩ | ⟨-, hk⟩
        · exact .inr ⟨rfl, rfl, rfl⟩
        · exact .inl (hold k w hk)
      · rw [held, if_neg hsize] at hk
        exact .inl (hold k w hk)

/-- A lookup leaves the database as it is; what L1 holds afterwards it held before, or it is the answer of a fresh
entry. -/
theorem lookup_tiers {c : HttpCache ρ} {db : Database ρ} (hdb : c.l2 = some db) (hlinked : c.l1Cache.Linked) (now : Int)
    (req : RequestInfo) :
    (lookup env c now req).1.l2 = some db ∧ (lookup env c now req).1.l1Cache.Linked ∧
      ∀ k w, (lookup env c now req).1.held k = some w → c.held k = some w ∨
        ∃ entry, PersistentCache.entryAt env db k = some entry ∧ PersistentCache.isFresh now entry = true ∧
          w = PersistentCache.rebuildResponse entry := by
  cases hreq : isCacheableRequest req with
  | false =>
    rw [lookup_bypass env hreq]
    exact ⟨hdb, hlinked, fun k w hk => .inl hk⟩
  | true =>
    cases hv : c.held (buildCacheKey req) with
    | some v =>
      obtain ⟨-, hdb', hlinked', hsame⟩ := lookup_held env now hreq hdb hlinked hv
      exact ⟨hdb', hlinked', fun k w hk => .inl (hsame ▸ hk)⟩
    | none =>
      obtain ⟨-, -, hdb', hlinked', hheld⟩ := lookup_unheld env now hreq hdb hlinked hv rfl
      refine ⟨hdb', hlinked', fun k w hk => ?_⟩
      rcases hheld k w hk with hold | ⟨rfl, hhit, rfl⟩
      · exact .inl hold
      · obtain ⟨entry, hentry, hfresh, hresponse⟩ := PersistentCache.lookup_hit env hhit
        exact .inr ⟨entry, hentry, hfresh, hresponse⟩

/-- A `store` in terms of the one of L2. -/
theorem store_eq {c : HttpCache ρ} {db db' : Database ρ} {now : Int} {req : RequestInfo} {response : Bytes}
    {putOk ok : Bool} (hreq : isCacheableRequest req = true) (hdb : c.l2 = some db)
    (hstore : PersistentCache.store env db now (buildCacheKey req) response putOk = (db', ok)) :
    store env c now req response putOk =
      ({ l2 := some db'
         l1Cache := if ok = true ∧ response.length ≤ kL1MaxBodySize then c.l1Cache.put (buildCacheKey req) response
           else c.l1Cache }, ok) := by
  rw [store, if_neg (by simp [hreq]), hdb]
  simp only
  rw [hstore]
  cases ok <;> simp

/-- Without a database nothing is stored. -/
theorem store_unopened {c : HttpCache ρ} {now : Int} {req : RequestInfo} {response : Bytes} {putOk : Bool}
    (hl2 : c.l2 = none) :
    store env c now req response putOk = (c, false) := by
  rw [store]
  split
  · rfl
  · rw [hl2]

/-- What a `store` does to L2 does not depend on L1. -/
theorem store_l2 {c c' : HttpCache ρ} (hl2 : c.l2 = c'.l2) (now : Int) (req : RequestInfo) (response : Bytes)
    (putOk : Bool) :
    (store env c now req response putOk).2 = (store env c' now req response putOk).2 ∧
      (store env c now req response putOk).1.l2 = (store env c' now req response putOk).1.l2 := by
  cases hreq : isCacheableRequest req with
  | false =>
    rw [store, if_pos hreq, store, if_pos hreq]
    exact ⟨rfl, hl2⟩
  | true =>
    cases hdb : c.l2 with
    | none =>
      rw [store_unopened env hdb, store_unopened env (hl2 ▸ hdb)]
      exact ⟨rfl, hl2⟩
    | some db =>
      have hresult := (Prod.eta (PersistentCache.store env db now (buildCacheKey req) response putOk)).symm
      rw [store_eq env hreq hdb hresult, store_eq env hreq (hl2 ▸ hdb) hresult]
      exact ⟨rfl, rfl⟩

/-- A `store` puts the response to L1, or leaves L1 as it is. -/
theorem store_l1 (c : HttpCache ρ) (now : Int) (req : RequestInfo) (response : Bytes) (putOk : Bool) :
    (store env c now req response putOk).1.l1Cache = c.l1Cache.put (buildCacheKey req) response ∨
      (store env c now req response putOk).1.l1Cache = c.l1Cache := by
  cases hreq : isCacheableRequest req with
  | false =>
    rw [store, if_pos hreq]
    exact .inr rfl
  | true =>
    cases hdb : c.l2 with
    | none =>
      rw [store_unopened env hdb]
      exact .inr rfl
    | some db =>
      rw [store_eq env hreq hdb (Prod.eta (PersistentCache.store env db now _ response putOk)).symm]
      exact ite_eq_or_eq _ _ _

/-- L2 decides whether a `store` succeeds; a response too large for L1 leaves L1 as it is. -/
theorem store_large {c : HttpCache ρ} {db : Database ρ} (now : Int) {req : RequestInfo} {response : Bytes} (putOk : Bool)
    (hreq : isCacheableRequest req = true) (hdb : c.l2 = some db) (hsize : kL1MaxBodySize < response.length) :
    (store env c now req response putOk).2 = (PersistentCache.store env db now (buildCacheKey req) response putOk).2 ∧
      (store env c now req response putOk).1.l1Cache = c.l1Cache := by
  rw [store_eq env hreq hdb (Prod.eta (PersistentCache.store env db now _ response putOk)).symm]
  exact ⟨rfl, if_neg fun hand => Nat.not_le.mpr hsize hand.2⟩

/-- A `store` that fails changes nothing. -/
theorem store_false {c : HttpCache ρ} {now : Int} {req : RequestInfo} {response : Bytes} {putOk : Bool}
    (h : (store env c now req response putOk).2 = false) : (store env c now req response putOk).1 = c := by
  cases hreq : isCacheableRequest req with
  | false => rw [store, if_pos hreq]
  | true =>
    cases hdb : c.l2 with
    | none => rw [store_unopened env hdb]
    | some db =>
      have heq := store_eq env hreq hdb (Prod.eta (PersistentCache.store env db now _ response putOk)).symm
      rw [heq] at h ⊢
      rw [PersistentCache.store_false env h, if_neg fun hand => Bool.false_ne_true (h.symm.trans hand.1), ← hdb]

/-- A `store` that succeeds: the database has the serialised entry of the response under the key; L1 holds the
response, or nothing, under it, unless the response is too large for L1, which then holds what it held. -/
theorem store_true {c : HttpCache ρ} {db : Database ρ} {now : Int} {req : RequestInfo} {response : Bytes} {putOk : Bool}
    (hdb : c.l2 = some db) (hlinked : c.l1Cache.Linked) (h : (store env c now req response putOk).2 = true) :
    ∃ info raw, PersistentCache.parseUpstream env response = some info ∧ isCacheableRequest req = true ∧
      env.codec.serialize (PersistentCache.makeEntry env now info) = some raw ∧
      (store env c now req response putOk).1.l2 = some (Function.update db (buildCacheKey req) (some raw)) ∧
      (store env c now req response putOk).1.l1Cache.Linked ∧
      ∀ k w, (store env c now req response putOk).1.held k = some w →
        (k = buildCacheKey req ∧ w = response) ∨
          (c.held k = some w ∧ (k = buildCacheKey req → kL1MaxBodySize < response.length)) := by
  cases hreq : isCacheableRequest req with
  | false => simp [store, hreq] at h
  | true =>
    have heq := store_eq env hreq hdb (Prod.eta (PersistentCache.store env db now _ response putOk)).symm
    rw [heq] at h
    obtain ⟨info, raw, hinfo, hraw, hput⟩ := PersistentCache.store_true env h
    rw [heq]
    refine ⟨info, raw, hinfo, rfl, hraw, congrArg some hput, ?_⟩
    by_cases hsize : response.length ≤ kL1MaxBodySize
    · rw [if_pos ⟨h, hsize⟩]
      refine ⟨(hlinked.put _ _).1, fun k w hk => ?_⟩
      rcases put_contents hlinked hk with hnew | ⟨hne, hold⟩
      · exact .inl hnew
      · exact .inr ⟨hold, fun heq => absurd heq hne⟩
    · rw [if_neg (fun hand => hsize hand.2)]
      exact ⟨hlinked, fun k w hk => .inr ⟨hk, fun _ => Nat.lt_of_not_le hsize⟩⟩

end HttpCache

/-- Nor does a store that fails change anything in a run. -/
theorem CacheRun.call_store_false {s : CacheRun ρ} {req : RequestInfo} {response : Bytes} {putOk : Bool}
    (h : (s.cache.store env s.now req response putOk).2 = false) : s.call env (.store req response putOk) = s := by
  simp only [CacheRun.call, h, HttpCache.store_false env h, Bool.false_eq_true, if_false]

end

end HpServer
