import HpServer.Theorems.LruCache

/-!
# A larger cache never loses a hit

Two memory caches with different entry limits serve the same calls, and the byte limit decides nothing in either. Then
each is the list of `Lru` with a limit on the entries alone, whatever `total_weight_` is, and the list of the smaller
one stays within that of the larger one.
-/

namespace HpServer
namespace MemoryCache

variable {κ ν : Type}

/-- `evict_if_needed` would drop an entry for the weight alone. -/
def OverBytes (c : MemoryCache κ ν) : Prop := c.lruList ≠ [] ∧ c.map.length ≤ c.maxEntries ∧ c.maxBytes < c.totalWeight

variable [DecidableEq κ]

/-- Wherever the loop of `evict_if_needed` looks, the weight alone is no reason to go on. -/
def DropsForEntries : Nat → MemoryCache κ ν → Prop
  | 0, _ => True
  | turns + 1, c => ¬c.OverBytes ∧ (c.maxEntries < c.map.length → DropsForEntries turns c.evictBack)

instance (c : MemoryCache κ ν) : Decidable c.OverBytes := inferInstanceAs (Decidable (_ ∧ _ ∧ _))

instance decidableDropsForEntries : (turns : Nat) → (c : MemoryCache κ ν) → Decidable (DropsForEntries turns c)
  | 0, _ => .isTrue trivial
  | turns + 1, c =>
    have : Decidable (DropsForEntries turns c.evictBack) := decidableDropsForEntries turns c.evictBack
    inferInstanceAs (Decidable (¬c.OverBytes ∧ (c.maxEntries < c.map.length → DropsForEntries turns c.evictBack)))

/-- In some calls one after another, the byte limit never binds: no `put` is ignored for it, and no entry is dropped
for it alone. -/
def BytesNeverBind (c : MemoryCache κ ν) : List (Lru.Op κ ν) → Prop
  | [] => True
  | op :: ops =>
    (∀ key value, op = .put key value → c.maxEntries ≠ 0 →
      c.maxBytes ≠ 0 ∧ DropsForEntries (c.placed key value).lruList.length (c.placed key value)) ∧
    (c.call op).1.BytesNeverBind ops

/-! ## A cache without a byte limit -/

omit [DecidableEq κ] in
/-- `map_` has one entry for each node. -/
theorem Linked.length_map {c : MemoryCache κ ν} (h : c.Linked) : c.map.length = c.entries.length := h.size_eq

/-- `evict_back` drops the entry at the back. -/
theorem entries_evictBack (c : MemoryCache κ ν) : c.evictBack.entries = c.entries.dropLast := by
  rw [evictBack]
  cases hlast : c.lruList.getLast? with
  | none =>
    rw [List.getLast?_eq_none_iff] at hlast
    simp [entries, hlast]
  | some back => exact List.map_dropLast

/-- The loop leaves the entries the limit has room for. -/
theorem Linked.entries_evictLoop {c : MemoryCache κ ν} (h : c.Linked) {turns : Nat} (hturns : c.entries.length ≤ turns)
    (hdrops : DropsForEntries turns c) : (MemoryCache.evictLoop turns c).entries = c.entries.take c.maxEntries := by
  induction turns generalizing c with
  | zero =>
    have hnil : c.entries = [] := List.eq_nil_of_length_eq_zero (by omega)
    rw [MemoryCache.evictLoop, hnil, List.take_nil]
  | succ turns ih =>
    obtain ⟨hweight, hrest⟩ := hdrops
    rw [MemoryCache.evictLoop]
    by_cases hfull : c.maxEntries < c.map.length
    · have hlength : c.maxEntries < c.entries.length := h.length_map ▸ hfull
      have hne : c.lruList ≠ [] := by
        intro hnil
        rw [entries, hnil] at hlength
        exact absurd hlength (Nat.not_lt_zero _)
      have hlimit : c.evictBack.maxEntries = c.maxEntries := congrArg Lru.Limits.maxEntries (limits_evictBack c)
      have hshorter : c.evictBack.entries.length ≤ turns := by
        rw [entries_evictBack, List.length_dropLast]
        omega
      rw [if_pos ⟨hne, .inl hfull⟩, ih h.evictBack hshorter (hrest hfull), hlimit, entries_evictBack,
        List.dropLast_eq_take, List.take_take, Nat.min_eq_left (by omega)]
    · have hlength : c.entries.length ≤ c.maxEntries := by
        rw [← h.length_map]
        omega
      rw [if_neg, List.take_of_length_le hlength]
      rintro ⟨hne, hover | hover⟩
      · exact hfull hover
      · exact hweight ⟨hne, Nat.not_lt.mp hfull, hover⟩

/-- If the bytes never bind, `put` is that of a cache with a limit on the entries alone. -/
theorem Linked.entries_put {c : MemoryCache κ ν} (h : c.Linked) (key : κ) (value : ν)
    (hput : c.maxEntries ≠ 0 → c.maxBytes ≠ 0 ∧
      DropsForEntries (c.placed key value).lruList.length (c.placed key value)) :
    (c.put key value).entries = (Lru.call (Lru.entryLimit c.maxEntries) c.entries (.put key value)).1 := by
  rw [Lru.call_put_entryLimit, MemoryCache.put]
  by_cases hoff : c.maxEntries = 0
  · rw [if_pos (.inl hoff), if_pos hoff]
  · obtain ⟨hbytes, hdrops⟩ := hput hoff
    have hon : ¬(c.maxEntries = 0 ∨ c.maxBytes = 0) := by
      rintro (hzero | hzero)
      · exact hoff hzero
      · exact hbytes hzero
    obtain ⟨hlinked, hentries⟩ := h.placed key value hon
    have hlimit : (c.placed key value).maxEntries = c.maxEntries :=
      congrArg Lru.Limits.maxEntries (limits_placed c key value)
    have hturns : (c.placed key value).entries.length ≤ (c.placed key value).lruList.length := by
      rw [entries, List.length_map]
    rw [if_neg hon, if_neg hoff, doPut_eq, evictIfNeeded, hlinked.entries_evictLoop hturns hdrops, hlimit, hentries]

/-- A call does to the cache what it does to the list with a limit on the entries. -/
theorem Linked.call {c : MemoryCache κ ν} (h : c.Linked) (op : Lru.Op κ ν)
    (hop : ∀ key value, op = .put key value → c.maxEntries ≠ 0 →
      c.maxBytes ≠ 0 ∧ DropsForEntries (c.placed key value).lruList.length (c.placed key value)) :
    (c.call op).1.Linked ∧ ((c.call op).1.entries, (c.call op).2) = Lru.call
    (Lru.entryLimit c.maxEntries) c.entries op := by
  cases op with
  | put key value => exact ⟨(h.put key value).1, Prod.ext (h.entries_put key value (hop key value rfl)) rfl⟩
  | get key | withValue key =>
    obtain ⟨hentries, hfound⟩ := h.entries_withValue key
    exact ⟨(h.withValue key).2.1, Prod.ext hentries (congrArg Lru.Answer.value hfound)⟩
  | erase key =>
    obtain ⟨hlinked, hentries, hfound⟩ := h.erase key
    exact ⟨hlinked, Prod.ext hentries (congrArg Lru.Answer.erased hfound)⟩
  | clear => exact ⟨linked_clear c, rfl⟩

/-! ## Two caches -/

/-- Two caches, of which one has room for fewer entries, and what it holds within what the other holds. -/
structure Nested (small large : MemoryCache κ ν) : Prop where
  limits : small.maxEntries ≤ large.maxEntries
  linked : small.Linked
  linked' : large.Linked
  within : Lru.Within small.maxEntries large.maxEntries small.entries large.entries

/-- What the smaller cache has, the larger one has too. -/
theorem Nested.contents {small large : MemoryCache κ ν} (h : Nested small large) {key : κ} {value : ν}
    (hsmall : small.contents key = some value) : large.contents key = some value := by
  rw [← h.linked'.lookup_entries]
  exact h.within.lookup (h.linked.lookup_entries key ▸ hsmall)

/-- A call of both keeps them nested, and what it finds in the smaller one it finds in the larger one. -/
theorem Nested.call {small large : MemoryCache κ ν} (h : Nested small large) {op : Lru.Op κ ν} {ops : List (Lru.Op κ ν)}
    (hsmall : small.BytesNeverBind (op :: ops)) (hlarge : large.BytesNeverBind (op :: ops)) :
    Nested (small.call op).1 (large.call op).1 ∧
      ∀ value, (small.call op).2 = .value (some value) → (large.call op).2 = .value (some value) := by
  obtain ⟨hlinked, hcall⟩ := h.linked.call op hsmall.1
  obtain ⟨hlinked', hcall'⟩ := h.linked'.call op hlarge.1
  obtain ⟨hentries, hanswer⟩ := Prod.ext_iff.mp hcall
  obtain ⟨hentries', hanswer'⟩ := Prod.ext_iff.mp hcall'
  simp only at hentries hanswer hentries' hanswer'
  have hn : (small.call op).1.maxEntries = small.maxEntries := congrArg Lru.Limits.maxEntries (limits_call small op)
  have hN : (large.call op).1.maxEntries = large.maxEntries := congrArg Lru.Limits.maxEntries (limits_call large op)
  refine ⟨⟨?_, hlinked, hlinked', ?_⟩, ?_⟩
  · rw [hn, hN]
    exact h.limits
  · rw [hn, hN, hentries, hentries']
    exact h.within.call h.limits op
  · intro value hfound
    rw [hanswer] at hfound
    rw [hanswer']
    exact h.within.answer op hfound

/-- So do some calls one after another. -/
theorem Nested.callAll {small large : MemoryCache κ ν} (h : Nested small large) {ops : List (Lru.Op κ ν)}
    (hsmall : small.BytesNeverBind ops) (hlarge : large.BytesNeverBind ops) :
    Nested (small.callAll ops).1 (large.callAll ops).1 ∧
      ∀ (i : Nat) value, (small.callAll ops).2[i]? = some (.value (some value)) →
        (large.callAll ops).2[i]? = some (.value (some value)) := by
  induction ops generalizing small large with
  | nil =>
    refine ⟨h, ?_⟩
    intro i value hfound
    cases hfound
  | cons op ops ih =>
    obtain ⟨hnested, hanswer⟩ := h.call hsmall hlarge
    obtain ⟨hnested', hanswers⟩ := ih hnested hsmall.2 hlarge.2
    refine ⟨hnested', ?_⟩
    intro i value hfound
    cases i with
    | zero => exact congrArg some (hanswer value (Option.some.inj hfound))
    | succ i => exact hanswers i value hfound

/-- Two new caches with entry limits `n ≤ N` and byte limits that never bind serve the same calls. Then every key that
the smaller one holds is held by the larger one with the same value, and each `get` and `with_value` that has found a
value in the smaller one has found the same value in the larger one. -/
theorem larger_cache_keeps_hits {n N : Nat} (hnN : n ≤ N) (bytes bytes' : Nat) (weightFn weightFn' : ν → Nat)
    (ops : List (Lru.Op κ ν))
    (hsmall : BytesNeverBind { maxEntries := n, maxBytes := bytes, weightFn := weightFn } ops)
    (hlarge : BytesNeverBind { maxEntries := N, maxBytes := bytes', weightFn := weightFn' } ops) :
    (∀ key value, (callAll { maxEntries := n, maxBytes := bytes, weightFn := weightFn } ops).1.contents key = some value →
      (callAll { maxEntries := N, maxBytes := bytes', weightFn := weightFn' } ops).1.contents key = some value) ∧
    ∀ (i : Nat) value, (callAll { maxEntries := n, maxBytes := bytes, weightFn := weightFn } ops).2[i]? =
      some (.value (some value)) →
      (callAll { maxEntries := N, maxBytes := bytes', weightFn := weightFn' } ops).2[i]? =
        some (.value (some value)) := by
  have hnew : Nested ({ maxEntries := n, maxBytes := bytes, weightFn := weightFn } : MemoryCache κ ν)
      { maxEntries := N, maxBytes := bytes', weightFn := weightFn' } :=
    ⟨hnN, linked_new n bytes weightFn, linked_new N bytes' weightFn', Lru.within_nil hnN⟩
  obtain ⟨hnested, hanswers⟩ := hnew.callAll hsmall hlarge
  exact ⟨fun key value => hnested.contents, hanswers⟩

/-- The larger cache is asked for a key that the smaller one has dropped, and the order of its entries changes. -/
def touchedTwice : List (Lru.Op Nat Nat) := [.put 1 10, .put 2 20, .get 1, .get 2, .put 3 30, .erase 2, .get 3]

theorem bytesNeverBind_touchedTwice :
    BytesNeverBind { maxEntries := 1, maxBytes := 100, weightFn := id } touchedTwice ∧
      BytesNeverBind { maxEntries := 2, maxBytes := 100, weightFn := id } touchedTwice := by
  refine ⟨⟨?_, ?_, ?_, ?_, ?_, ?_, ?_, trivial⟩, ⟨?_, ?_, ?_, ?_, ?_, ?_, ?_, trivial⟩⟩
  all_goals
    intro key value hput
    cases hput
  all_goals
    intro _
    exact ⟨by decide, by decide +kernel⟩

theorem larger_cache_keeps_hits_two :
    (callAll { maxEntries := 1, maxBytes := 100, weightFn := id } touchedTwice).1.contents 3 = some 30 ∧
    (callAll { maxEntries := 2, maxBytes := 100, weightFn := id } touchedTwice).1.contents 3 = some 30 ∧
    (callAll { maxEntries := 2, maxBytes := 100, weightFn := id } touchedTwice).2[3]? = some (.value (some 20)) := by
  obtain ⟨hsmall, hlarge⟩ := bytesNeverBind_touchedTwice
  obtain ⟨hheld, hfound⟩ := larger_cache_keeps_hits (Nat.le_succ 1) 100 100 id id touchedTwice hsmall hlarge
  have hthree : (callAll { maxEntries := 1, maxBytes := 100, weightFn := id } touchedTwice).1.contents 3 =
    some 30 := by decide +kernel
  exact ⟨hthree, hheld 3 30 hthree, hfound 3 20 (by decide +kernel)⟩

end MemoryCache
end HpServer
