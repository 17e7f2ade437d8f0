import HpServer.Lemmas.HttpCacheSpec
import HpServer.Lemmas.ParserRuns

/-!
# The two levels of the cache belong together

`store` writes both levels, but a response too large for L1 to L2 only: what L1 held under the key stays. In runs in
which no such response is stored under a key that L1 holds (`keepsTiers`), L1 holds nothing but copies of what was
stored last (`Tiers`); so a hit is always one of the last store. Freshness is checked in L2 only. An answer of L1 is
fresh exactly as long as the response that was stored last lives, by the time of its store and the lifetime in its
header (`LooksUpInTime`).

Of protobuf it is only assumed here that a serialised entry is not parsed as another one; it may not be parsed at all.
-/

namespace HpServer

open HttpCache PersistentCache

variable {τ ρ : Type} (env : CacheEnv τ ρ)

/-- No response that is too large for L1 is stored, with success, under a key that L1 holds. -/
def keepsTiers (s : CacheRun ρ) : CacheLabel → Bool
  | .call (.store req response putOk) =>
    !((s.cache.store env s.now req response putOk).2 && (s.cache.held (buildCacheKey req)).isSome) ||
      response.length ≤ kL1MaxBodySize
  | _ => true

/-- The entry of a response that was stored. -/
def StoreRecord.EntryIs (r : StoreRecord) (entry : CacheEntry) : Prop :=
  ∃ info, parseUpstream env r.response = some info ∧ entry = makeEntry env r.time info

/-- The database has the serialised entries of the last stores, and what it had before under the other keys; and what
L1 holds is the response of the last store, or what L2 makes of the entry. -/
structure Tiers (db₀ : Database ρ) (s : CacheRun ρ) (db : Database ρ) : Prop where
  opened : s.cache.l2 = some db
  linked : s.cache.l1Cache.Linked
  stored : ∀ key r, s.lastStore key = some r →
    ∃ entry raw, r.EntryIs env entry ∧ env.codec.serialize entry = some raw ∧ db key = some raw
  initial : ∀ key, s.lastStore key = none → db key = db₀ key
  copies : ∀ key v, s.cache.held key = some v →
    (∃ entry, entryAt env db key = some entry ∧ v = rebuildResponse entry) ∨ ∃ r, s.lastStore key = some r ∧
      v = r.response

theorem tiers_init (db₀ : Database ρ) {s : CacheRun ρ} (h : (CacheRun.lts env db₀).init s) : Tiers env db₀ s db₀ := by
  obtain ⟨maxEntries, maxBytes, now, rfl⟩ := h
  refine ⟨rfl, MemoryCache.linked_new _ _ _, ?_, fun key _ => rfl, ?_⟩
  · intro key r hr
    cases hr
  · intro key v hv
    rw [held_configureL1] at hv
    cases hv

theorem Tiers.lookup {db₀ db : Database ρ} {s : CacheRun ρ} (h : Tiers env db₀ s db) (req : RequestInfo) :
    Tiers env db₀ (s.call env (.lookup req)) db := by
  obtain ⟨hdb, hlinked, hheld⟩ := lookup_tiers env h.opened h.linked s.now req
  refine ⟨hdb, hlinked, h.stored, h.initial, ?_⟩
  intro key v hv
  rcases hheld key v hv with hold | ⟨entry, hentry, -, rfl⟩
  · exact h.copies key v hold
  · exact .inl ⟨entry, hentry, rfl⟩

theorem Tiers.store {db₀ db : Database ρ} {s : CacheRun ρ} (h : Tiers env db₀ s db) {req : RequestInfo} {response : Bytes}
    {putOk : Bool} (hkeeps : keepsTiers env s (.call (.store req response putOk)) = true) :
    ∃ db', Tiers env db₀ (s.call env (.store req response putOk)) db' := by
  cases hok : (s.cache.store env s.now req response putOk).2 with
  | false =>
    rw [CacheRun.call_store_false env hok]
    exact ⟨db, h⟩
  | true =>
    obtain ⟨info, raw, hinfo, -, hraw, hdb', hlinked, hheld⟩ := store_true env h.opened h.linked hok
    have hlast : ∀ key, (s.call env (.store req response putOk)).lastStore key =
        if key = buildCacheKey req then some ⟨buildCacheKey req, s.now, response⟩ else s.lastStore key := by
      intro key
      simp only [CacheRun.call, CacheRun.lastStore, hok, if_true, List.find?_cons]
      by_cases hkey : key = buildCacheKey req
      · simp [hkey]
      · simp [hkey, Ne.symm hkey]
    refine ⟨_, hdb', hlinked, ?_, ?_, ?_⟩
    · intro key r hr
      rw [hlast] at hr
      split at hr
      · rename_i hkey
        obtain rfl := Option.some.inj hr
        rw [hkey, Function.update_self]
        exact ⟨_, raw, ⟨info, hinfo, rfl⟩, hraw, rfl⟩
      · rename_i hkey
        rw [Function.update_of_ne hkey]
        exact h.stored key r hr
    · intro key hnone
      rw [hlast] at hnone
      split at hnone
      · cases hnone
      · rename_i hkey
        rw [Function.update_of_ne hkey]
        exact h.initial key hnone
    · intro key v hv
      rw [hlast]
      rcases hheld key v hv with ⟨rfl, rfl⟩ | ⟨hold, hlarge⟩
      · exact .inr ⟨_, if_pos rfl, rfl⟩
      · by_cases hkey : key = buildCacheKey req
        · -- a response that L1 does not take; by the condition on the step L1 holds nothing under its key
          have hle : response.length ≤ kL1MaxBodySize := by
            simpa [keepsTiers, hok, ← hkey, hold] using hkeeps
          exact absurd (hlarge hkey) (Nat.not_lt.mpr hle)
        · rw [entryAt_update_of_ne env db hkey, if_neg hkey]
          exact h.copies key v hold

theorem Tiers.step {db₀ db : Database ρ} {s t : CacheRun ρ} {l : CacheLabel} (h : Tiers env db₀ s db)
    (hkeeps : keepsTiers env s l = true) (hst : (CacheRun.lts env db₀).step s l = some t) :
    ∃ db', Tiers env db₀ t db' := by
  cases l with
  | call c =>
    obtain rfl := Option.some.inj hst
    cases c with
    | lookup req => exact ⟨db, h.lookup env req⟩
    | store req response putOk => exact h.store env hkeeps
  | configureL1 maxEntries maxBytes =>
    obtain rfl := Option.some.inj hst
    refine ⟨db, h.opened, MemoryCache.linked_new _ _ _, h.stored, h.initial, ?_⟩
    intro key v hv
    rw [held_configureL1] at hv
    cases hv
  | elapse seconds =>
    obtain rfl := Option.some.inj hst
    exact ⟨db, h.opened, h.linked, h.stored, h.initial, h.copies⟩

theorem reachesBy_tiers {db₀ : Database ρ} {s : CacheRun ρ}
    (h : (CacheRun.lts env db₀).ReachesBy (fun s l => keepsTiers env s l = true) s) : ∃ db, Tiers env db₀ s db := by
  induction h with
  | init hi => exact ⟨db₀, tiers_init env db₀ hi⟩
  | step _ hkeeps hst ih =>
    obtain ⟨db, hdb⟩ := ih
    exact hdb.step env hkeeps hst

/-- The entry was made of the last store under a key; where nothing was stored, it is the one the database had when it
was opened. -/
inductive StoredAs (db₀ : Database ρ) (s : CacheRun ρ) (key : Bytes) (entry : CacheEntry) : Prop
  | inRun (r : StoreRecord) (hlast : s.lastStore key = some r) (hentry : r.EntryIs env entry)
  | before (hnone : s.lastStore key = none) (hentry : entryAt env db₀ key = some entry)

/-- What can be read under a key is what was stored there last. -/
theorem Tiers.storedAs {db₀ db : Database ρ} {s : CacheRun ρ} (h : Tiers env db₀ s db) (hcodec : env.codec.Faithful)
    {key : Bytes} {entry : CacheEntry} (hentry : entryAt env db key = some entry) : StoredAs env db₀ s key entry := by
  cases hlast : s.lastStore key with
  | some r =>
    obtain ⟨entry', raw, hmade, hraw, hdb⟩ := h.stored key r hlast
    rw [entryAt, hdb, Option.bind_some] at hentry
    obtain rfl := hcodec entry' raw entry hraw hentry
    exact .inRun r hlast hmade
  | none =>
    rw [entryAt, h.initial key hlast] at hentry
    exact .before hlast hentry

/-- The answer comes from the entry: it is what L2 makes of it, or the very response that the entry was made of. -/
def AnswersFrom (s : CacheRun ρ) (key : Bytes) (entry : CacheEntry) (result : HttpCache.LookupResult) : Prop :=
  (result.status = .hit ∧
      (result.response = rebuildResponse entry ∨
        ∃ r, s.lastStore key = some r ∧ r.EntryIs env entry ∧ result.response = r.response)) ∨
    (result.status = .notModified ∧ result.response = buildNotModifiedResponse entry)

/-- A lookup that finds something answers from what was stored last; unless L1 holds the key, that is fresh. -/
theorem Tiers.answer {db₀ db : Database ρ} {s : CacheRun ρ} (h : Tiers env db₀ s db) (hcodec : env.codec.Faithful)
    {req : RequestInfo}
    (hfound : (s.cache.lookup env s.now req).2.status = .hit ∨ (s.cache.lookup env s.now req).2.status = .notModified) :
    ∃ entry, StoredAs env db₀ s (buildCacheKey req) entry ∧
      AnswersFrom env s (buildCacheKey req) entry (s.cache.lookup env s.now req).2 ∧
      ((s.cache.held (buildCacheKey req)).isSome ∨ isFresh s.now entry = true) := by
  cases hreq : isCacheableRequest req with
  | false => simp [lookup_bypass env hreq] at hfound
  | true =>
    cases hv : s.cache.held (buildCacheKey req) with
    | some v =>
      obtain ⟨hresult, -⟩ := lookup_held env s.now hreq h.opened h.linked hv
      rw [hresult]
      rcases h.copies _ v hv with ⟨entry, hentry, rfl⟩ | ⟨r, hlast, rfl⟩
      · exact ⟨entry, h.storedAs env hcodec hentry, .inl ⟨rfl, .inl rfl⟩, .inl rfl⟩
      · obtain ⟨entry, -, hmade, -⟩ := h.stored _ r hlast
        exact ⟨entry, .inRun r hlast hmade, .inl ⟨rfl, .inr ⟨r, hlast, hmade, rfl⟩⟩, .inl rfl⟩
    | none =>
      obtain ⟨hstatus, hresponse, -⟩ := lookup_unheld env s.now hreq h.opened h.linked hv rfl
      rw [hstatus] at hfound
      unfold AnswersFrom
      rw [hstatus]
      cases hl2 : (PersistentCache.lookup env db s.now (buildCacheKey req) req).status with
      | miss => simp [hl2, LookupStatus.ofL2] at hfound
      | notModified =>
        obtain ⟨entry, hentry, hfresh, heq⟩ := lookup_notModified env hl2
        have hanswer := (hresponse (by rw [hl2]; exact nofun)).trans heq
        exact ⟨entry, h.storedAs env hcodec hentry, .inr ⟨rfl, hanswer⟩, .inr hfresh⟩
      | hit =>
        obtain ⟨entry, hentry, hfresh, heq⟩ := lookup_hit env hl2
        have hanswer := (hresponse (by rw [hl2]; exact nofun)).trans heq
        exact ⟨entry, h.storedAs env hcodec hentry, .inl ⟨rfl, .inl hanswer⟩, .inr hfresh⟩

/-! ## The last store wins -/

/-- After a store that succeeded, every hit under its key has the bytes that were stored, or what L2 makes of their
entry, until the next store under the key: in every run in which no response too large for L1 is stored under a key
that L1 holds. -/
theorem hit_is_of_last_store (hcodec : env.codec.Faithful) {db₀ : Database ρ} {s : CacheRun ρ}
    (h : (CacheRun.lts env db₀).ReachesBy (fun s l => keepsTiers env s l = true) s) {req : RequestInfo} {r : StoreRecord}
    (hlast : s.lastStore (buildCacheKey req) = some r) (hhit : (s.cache.lookup env s.now req).2.status = .hit) :
    (s.cache.lookup env s.now req).2.response = r.response ∨
      ∃ entry, r.EntryIs env entry ∧ (s.cache.lookup env s.now req).2.response = rebuildResponse entry := by
  obtain ⟨db, htiers⟩ := reachesBy_tiers env h
  obtain ⟨entry, hstored, hanswer, -⟩ := htiers.answer env hcodec (.inl hhit)
  have hmade : r.EntryIs env entry := by
    cases hstored with
    | inRun r' hlast' hmade =>
      obtain rfl := Option.some.inj (hlast.symm.trans hlast')
      exact hmade
    | before hnone _ => cases hlast.symm.trans hnone
  rcases hanswer with ⟨-, hrebuilt | ⟨r', hlast', -, hbytes⟩⟩ | ⟨hnot, -⟩
  · exact .inr ⟨entry, hmade, hrebuilt⟩
  · rw [Option.some.inj (hlast.symm.trans hlast')]
    exact .inl hbytes
  · rw [hhit] at hnot
    cases hnot

/-- The page that was stored is what a lookup gives. -/
theorem hit_is_of_last_store_page :
    ∃ s, (CacheRun.lts Page.env fun _ => none).ReachesBy (fun s l => keepsTiers Page.env s l = true) s ∧
      ∃ r, s.lastStore (buildCacheKey Page.request) = some r ∧
        (s.cache.lookup Page.env s.now Page.request).2.status = .hit ∧
        ((s.cache.lookup Page.env s.now Page.request).2.response = r.response ∨
          ∃ entry, r.EntryIs Page.env entry ∧
            (s.cache.lookup Page.env s.now Page.request).2.response = rebuildResponse entry) := by
  obtain ⟨s, hs, hp⟩ := Lts.exists_of_execBy (fun s l => keepsTiers Page.env s l = true)
    [.call (.store Page.request Page.brief true)]
    (fun s => decide (s.lastStore (buildCacheKey Page.request) = some ⟨buildCacheKey Page.request, 0, Page.brief⟩ ∧
      (s.cache.lookup Page.env s.now Page.request).2.status = .hit)) Page.start_init (by decide +kernel)
  obtain ⟨hlast, hhit⟩ := of_decide_eq_true hp
  exact ⟨s, hs, _, hlast, hhit, hit_is_of_last_store Page.env Page.codec_faithful hs hlast hhit⟩

/-- What is made of a response that lasts until the end of the stream. -/
theorem Page.parseUpstream_open (body : Bytes) :
    parseUpstream Page.env (Page.openHead ++ body) =
      some { statusCode := 200, reasonPhrase := ascii "OK", version := ascii "1.1", body := body } := by
  have hhead : Llhttp.run Page.lexer .response .start Page.openHead = (.untilEof { statusCode := 200 },
      [.messageBegin, .text .version (ascii "1.1"), .text .status (ascii "OK"),
        .headersComplete { statusCode := 200 }]) := rfl
  have hne : Page.openHead ++ body ≠ [] := List.append_ne_nil_of_left_ne_nil (by decide) _
  have hparse : ({} : HttpResponseParser Llhttp.Tables).parse Page.lexer (Page.openHead ++ body) =
      ({ parser := .untilEof { statusCode := 200 }
         response := { statusCode := 200, reasonPhrase := ascii "OK", version := ascii "1.1", body := body } }, true) := by
    rw [HttpResponseParser.parse,
      if_neg (by simp [HttpResponseParser.hasParseError, HttpResponseParser.isMessageComplete, hne])]
    simp only [Llhttp.resumeAfterUpgrade]
    rw [Llhttp.run_append, hhead, Llhttp.run_untilEof]
    simp only [List.foldl_append, HttpResponseParser.foldl_body]
    rfl
  rw [parseUpstream, show Page.env.lexer = Page.lexer from rfl, hparse]
  rfl

/-- A response for the page that is too large for L1. -/
def Page.large : Bytes := Page.openHead ++ List.replicate kL1MaxBodySize 0

theorem Page.length_large : kL1MaxBodySize < Page.large.length := by
  rw [Page.large, List.length_append, List.length_replicate]
  exact Nat.lt_add_of_pos_left (by decide)

/-- The large response is stored after the small one, and a lookup gives the small one, which L1 still holds. -/
theorem hit_is_of_last_store_false :
    ∃ s, (CacheRun.lts Page.env fun _ => none).Reachable s ∧
      ∃ r, s.lastStore (buildCacheKey Page.request) = some r ∧
        (s.cache.lookup Page.env s.now Page.request).2.status = .hit ∧
        ¬((s.cache.lookup Page.env s.now Page.request).2.response = r.response ∨
          ∃ entry, r.EntryIs Page.env entry ∧
            (s.cache.lookup Page.env s.now Page.request).2.response = rebuildResponse entry) := by
  obtain ⟨s, hs, hp⟩ := Lts.exists_of_execBy (fun s l => keepsTiers Page.env s l = true)
    [.call (.store Page.request Page.brief true)]
    (fun s => decide (s.cache.held (buildCacheKey Page.request) = some Page.brief)) Page.start_init (by decide +kernel)
  have hheld := of_decide_eq_true hp
  have hget : isCacheableRequest Page.request = true := by decide
  obtain ⟨db, htiers⟩ := reachesBy_tiers Page.env hs
  have hinfo : parseUpstream Page.env Page.large = _ := Page.parseUpstream_open _
  -- the second store reaches the database, but not L1
  obtain ⟨hok, hl1⟩ := store_large Page.env s.now true hget htiers.opened Page.length_large
  have hok : (s.cache.store Page.env s.now Page.request Page.large true).2 = true := by
    rw [hok, PersistentCache.store, hinfo]
    rfl
  obtain ⟨_, _, -, -, -, hdb', hlinked, -⟩ := store_true Page.env htiers.opened htiers.linked hok
  rw [HttpCache.held, ← hl1] at hheld
  obtain ⟨hlookup, -⟩ := lookup_held Page.env s.now hget hdb' hlinked hheld
  refine ⟨s.call Page.env (.store Page.request Page.large true),
    hs.reachable.step (i := .call (.store Page.request Page.large true)) trivial rfl,
    ⟨buildCacheKey Page.request, s.now, Page.large⟩, by simp [CacheRun.call, CacheRun.lastStore, hok], ?_⟩
  simp only [CacheRun.call, hlookup, true_and]
  have hbrief : Page.brief.length < kL1MaxBodySize := by decide
  rintro (hbytes | ⟨entry, ⟨info, hinfo', rfl⟩, hrebuilt⟩)
  · have hlen := congrArg List.length hbytes
    exact absurd (hlen ▸ hbrief) (Nat.not_lt.mpr (Nat.le_of_lt Page.length_large))
  · -- what L2 makes of the large response has its body in it
    obtain rfl := Option.some.inj (hinfo.symm.trans hinfo')
    have hlen := congrArg List.length hrebuilt
    simp only [rebuildResponse, makeEntry, List.length_append, List.length_replicate] at hlen
    omega

/-! ## Nothing stale is answered -/

/-- The moment up to which a response lives that was stored: by the time of the store and the lifetime its header
gives. -/
def StoreRecord.freshUntil (r : StoreRecord) : Option Int :=
  (parseUpstream env r.response).map fun info => r.time + computeTtl info

/-- The moment up to which what was stored last under a key lives; where nothing was stored, the entry the database
had when it was opened. -/
def freshUntil (db₀ : Database ρ) (s : CacheRun ρ) (key : Bytes) : Option Int :=
  match s.lastStore key with
  | some r => r.freshUntil env
  | none => (entryAt env db₀ key).map fun entry => entry.storedAtUnixSec + entry.ttlSec

/-- L1 does not hold the key, or what was stored last under it still lives. -/
def LooksUpInTime (db₀ : Database ρ) (s : CacheRun ρ) (key : Bytes) : Prop :=
  (s.cache.held key).isSome → ∃ limit, freshUntil env db₀ s key = some limit ∧ s.now ≤ limit

/-- The moment is the one the entry has. -/
theorem StoredAs.freshUntil_eq {db₀ : Database ρ} {s : CacheRun ρ} {key : Bytes} {entry : CacheEntry}
    (h : StoredAs env db₀ s key entry) :
    freshUntil env db₀ s key = some (entry.storedAtUnixSec + entry.ttlSec) := by
  rw [freshUntil]
  cases h with
  | inRun r hlast hmade =>
    obtain ⟨info, hinfo, rfl⟩ := hmade
    simp only [hlast, StoreRecord.freshUntil, hinfo, Option.map_some, makeEntry]
  | before hnone hentry => rw [hnone, hentry, Option.map_some]

/-- Whatever a lookup finds, it answers from the entry of the last store under its key, or from the one the database
had before; and that entry's time has not run out exactly if L1 does not hold the key or the lookup is made within the
lifetime of the response that was stored last: in every run in which no response too large for L1 is stored under a
key that L1 holds. -/
theorem answer_is_fresh (hcodec : env.codec.Faithful) {db₀ : Database ρ} {s : CacheRun ρ}
    (h : (CacheRun.lts env db₀).ReachesBy (fun s l => keepsTiers env s l = true) s) {req : RequestInfo}
    (hfound : (s.cache.lookup env s.now req).2.status = .hit ∨ (s.cache.lookup env s.now req).2.status = .notModified) :
    ∃ entry, StoredAs env db₀ s (buildCacheKey req) entry ∧
      AnswersFrom env s (buildCacheKey req) entry (s.cache.lookup env s.now req).2 ∧
      (s.now ≤ entry.storedAtUnixSec + entry.ttlSec ↔ LooksUpInTime env db₀ s (buildCacheKey req)) := by
  obtain ⟨db, htiers⟩ := reachesBy_tiers env h
  obtain ⟨entry, hstored, hanswer, hfresh⟩ := htiers.answer env hcodec hfound
  refine ⟨entry, hstored, hanswer, ?_⟩
  have huntil := hstored.freshUntil_eq env
  constructor
  · intro hnow _
    exact ⟨_, huntil, hnow⟩
  · intro hintime
    rcases hfresh with hheld | hfresh
    · obtain ⟨limit, hlimit, hnow⟩ := hintime hheld
      obtain rfl := Option.some.inj (huntil.symm.trans hlimit)
      exact hnow
    · simpa [isFresh] using hfresh

/-- The page is answered at the end of its minute, from the response that was stored. -/
theorem answer_is_fresh_page :
    ∃ s, (CacheRun.lts Page.env fun _ => none).ReachesBy (fun s l => keepsTiers Page.env s l = true) s ∧
      s.stores = [⟨buildCacheKey Page.request, 0, Page.brief⟩] ∧ s.now = 60 ∧
      (s.cache.lookup Page.env s.now Page.request).2.status = .hit ∧
      LooksUpInTime Page.env (fun _ => none) s (buildCacheKey Page.request) ∧
      ∃ entry, StoredAs Page.env (fun _ => none) s (buildCacheKey Page.request) entry ∧
        AnswersFrom Page.env s (buildCacheKey Page.request) entry (s.cache.lookup Page.env s.now Page.request).2 ∧
        s.now ≤ entry.storedAtUnixSec + entry.ttlSec := by
  obtain ⟨s, hs, hp⟩ := Lts.exists_of_execBy (fun s l => keepsTiers Page.env s l = true)
    [.call (.store Page.request Page.brief true), .elapse 60]
    (fun s => decide (s.stores = [⟨buildCacheKey Page.request, 0, Page.brief⟩] ∧ s.now = 60 ∧
      (s.cache.lookup Page.env s.now Page.request).2.status = .hit)) Page.start_init (by decide +kernel)
  obtain ⟨hstores, hnow, hhit⟩ := of_decide_eq_true hp
  have hintime : LooksUpInTime Page.env (fun _ => none) s (buildCacheKey Page.request) := by
    intro _
    refine ⟨60, ?_, Int.le_of_eq hnow⟩
    rw [freshUntil, CacheRun.lastStore, hstores]
    decide +kernel
  obtain ⟨entry, hstored, hanswer, hfresh⟩ := answer_is_fresh Page.env Page.codec_faithful hs (.inl hhit)
  exact ⟨s, hs, hstores, hnow, hhit, hintime, entry, hstored, hanswer, hfresh.mpr hintime⟩

/-- The page is answered from L1 after its minute has passed. -/
theorem answer_is_fresh_false :
    ∃ s, (CacheRun.lts Page.env fun _ => none).Reachable s ∧
      (s.cache.lookup Page.env s.now Page.request).2.status = .hit ∧
      ¬∃ entry, ((∃ r ∈ s.stores, r.key = buildCacheKey Page.request ∧ r.EntryIs Page.env entry) ∨
          entryAt Page.env (fun _ => none) (buildCacheKey Page.request) = some entry) ∧
        s.now ≤ entry.storedAtUnixSec + entry.ttlSec := by
  obtain ⟨s, hs, hp⟩ := Lts.exists_of_exec [.call (.store Page.request Page.brief true), .elapse 61]
    (fun s : CacheRun CacheEntry => decide ((s.cache.lookup Page.env s.now Page.request).2.status = .hit ∧ s.now = 61 ∧
      s.stores = [⟨buildCacheKey Page.request, 0, Page.brief⟩])) Page.start_init (by decide +kernel)
  obtain ⟨hhit, hnow, hstores⟩ := of_decide_eq_true hp
  refine ⟨s, hs, hhit, ?_⟩
  rintro ⟨entry, ⟨r, hr, -, info, hinfo, rfl⟩ | hentry, hfresh⟩
  · rw [hstores, List.mem_singleton] at hr
    subst hr
    have httl : (parseUpstream Page.env Page.brief).map computeTtl = some 60 := by decide +kernel
    rw [hinfo, Option.map_some, Option.some.injEq] at httl
    simp only [makeEntry, hnow, httl] at hfresh
    exact absurd hfresh (by decide)
  · cases hentry

end HpServer
