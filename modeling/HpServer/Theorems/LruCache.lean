import HpServer.Lemmas.MemoryCacheSpec
import HpServer.Lib.Lru

/-!
# The memory cache is an LRU list

What a memory cache holds, in the order of `lru_list_`, is the list of `Lru` after the same calls, and the answers are
the same. The invariant behind it (`Exact`): `map_` and `lru_list_` belong together, each node has the weight of its
value, and `total_weight_` is the exact sum. The sum does not wrap as long as what is held and the new value weigh
less than 2^64 together.
-/

namespace HpServer
namespace MemoryCache

variable {κ ν : Type}

/-- What the cache holds, in the order of `lru_list_`. -/
def entries (c : MemoryCache κ ν) : List (κ × ν) := c.lruList.map fun e => (e.2.key, e.2.value)

/-- The limits the cache was made with. -/
def limits (c : MemoryCache κ ν) : Lru.Limits ν := ⟨c.maxEntries, c.maxBytes, c.weightFn⟩

/-- `map_`, `lru_list_` and `total_weight_` belong together. -/
structure Exact (c : MemoryCache κ ν) : Prop where
  linked : c.Linked
  weights : ∀ e ∈ c.lruList, e.2.weight = c.weightFn e.2.value
  total : c.totalWeight = Lru.totalWeight c.weightFn c.entries
  bound : c.totalWeight < UInt64.size

/-- A new cache holds nothing and weighs nothing. -/
theorem exact_new (maxEntries maxBytes : Nat) (weightFn : ν → Nat) :
    Exact ({ maxEntries := maxEntries, maxBytes := maxBytes, weightFn := weightFn } : MemoryCache κ ν) :=
  ⟨linked_new maxEntries maxBytes weightFn, nofun, rfl, show 0 < UInt64.size by decide⟩

/-- No key is there twice. -/
theorem Linked.keys_entries {c : MemoryCache κ ν} (h : c.Linked) : (c.entries.map Prod.fst).Nodup := by
  rw [entries, List.map_map]
  exact h.keys

/-- `size()` is the length of the list. -/
theorem Linked.size_eq {c : MemoryCache κ ν} (h : c.Linked) : c.size = c.entries.length := by
  rw [size, h.linked.length_eq, entries, List.length_map, List.length_map]

section

variable [DecidableEq κ]

/-! ## Finding -/

/-- The list has for a key what the iterator of the key leads to. -/
theorem Linked.lookup_entries {c : MemoryCache κ ν} (h : c.Linked) (key : κ) : c.entries.lookup key = c.contents key := by
  rw [contents]
  cases hfind : c.find key with
  | none =>
    refine Assoc.lookup_of_notMem fun hmem => ?_
    rw [entries, List.map_map] at hmem
    obtain ⟨e, he, hkey⟩ := List.mem_map.mp hmem
    rw [h.find_eq_some.mpr ⟨he, hkey⟩] at hfind
    cases hfind
  | some e =>
    obtain ⟨he, rfl⟩ := h.find_eq_some.mp hfind
    exact Assoc.lookup_of_mem h.keys_entries (List.mem_map.mpr ⟨e, he, rfl⟩)

omit [DecidableEq κ] in
/-- A node is known by its address and by its key. -/
theorem Linked.address_iff {c : MemoryCache κ ν} (h : c.Linked) {a : Nat} {n : CacheNode κ ν} (hmem : (a, n) ∈ c.lruList)
    {e : Nat × CacheNode κ ν} (he : e ∈ c.lruList) : e.1 = a ↔ e.2.key = n.key := by
  constructor
  · intro haddr
    rw [List.inj_on_of_nodup_map h.addresses he hmem haddr]
  · intro hkey
    rw [List.inj_on_of_nodup_map h.keys he hmem hkey]

/-- The nodes at the other addresses are the entries of the other keys. -/
theorem Linked.entries_filter {c : MemoryCache κ ν} (h : c.Linked) {a : Nat} {n : CacheNode κ ν}
    (hmem : (a, n) ∈ c.lruList) :
    (c.lruList.filter fun e => e.1 ≠ a).map (fun e => (e.2.key, e.2.value)) = Lru.others c.entries n.key := by
  rw [Lru.others, entries, List.filter_map]
  congr 1
  refine List.filter_congr fun e he => ?_
  simp [h.address_iff hmem he]

/-- A node is put before the others, with a value of its own. -/
theorem Linked.entries_splice {c : MemoryCache κ ν} (h : c.Linked) {a : Nat} {n : CacheNode κ ν}
    (hmem : (a, n) ∈ c.lruList)
    (n' : CacheNode κ ν) : (c.splice a n').entries = (n'.key, n'.value) :: Lru.others c.entries n.key := by
  rw [entries, MemoryCache.splice, List.map_cons, h.entries_filter hmem]

/-- The weight of all is the weight of one and of the others. -/
theorem Linked.totalWeight_others {c : MemoryCache κ ν} (h : c.Linked) {a : Nat} {n : CacheNode κ ν}
    (hmem : (a, n) ∈ c.lruList)
    (weight : ν → Nat) : Lru.totalWeight weight c.entries = weight n.value + Lru.totalWeight weight
      (Lru.others c.entries n.key) :=
  Lru.totalWeight_others weight h.keys_entries (List.mem_map.mpr ⟨(a, n), hmem, rfl⟩)

/-- Without a node for the key, the list has nothing for it. -/
theorem Linked.lookup_of_find_eq_none {c : MemoryCache κ ν} (h : c.Linked) {key : κ} (hfind : c.find key = none) :
    c.entries.lookup key = none := by
  rw [h.lookup_entries, contents, hfind]
  rfl

/-- What a node holds is found under its key. -/
theorem Linked.lookup_of_mem {c : MemoryCache κ ν} (h : c.Linked) {a : Nat} {n : CacheNode κ ν}
    (hmem : (a, n) ∈ c.lruList) :
    c.entries.lookup n.key = some n.value :=
  Assoc.lookup_of_mem h.keys_entries (List.mem_map.mpr ⟨(a, n), hmem, rfl⟩)

/-- A key that is used comes to the front. -/
theorem Linked.entries_withValue {c : MemoryCache κ ν} (h : c.Linked) (key : κ) :
    (c.withValue key).1.entries = Lru.touch c.entries key ∧ (c.withValue key).2 = c.entries.lookup key := by
  rw [MemoryCache.withValue, Lru.touch]
  cases hfind : c.find key with
  | none =>
    rw [h.lookup_of_find_eq_none hfind]
    exact ⟨rfl, rfl⟩
  | some e =>
    obtain ⟨a, n⟩ := e
    obtain ⟨hmem, rfl⟩ := h.find_eq_some.mp hfind
    rw [h.lookup_of_mem hmem]
    exact ⟨h.entries_splice hmem n, rfl⟩

/-- No call changes the limits; this and the like below say so. -/
theorem limits_withValue (c : MemoryCache κ ν) (key : κ) : (c.withValue key).1.limits = c.limits := by
  rw [MemoryCache.withValue]
  cases c.find key with
  | none => rfl
  | some e => rfl

/-- `with_value` reorders the list and nothing else. -/
theorem Exact.withValue {c : MemoryCache κ ν} (h : c.Exact) (key : κ) : (c.withValue key).1.Exact := by
  rw [MemoryCache.withValue]
  cases hfind : c.find key with
  | none => exact h
  | some e =>
    obtain ⟨a, n⟩ := e
    obtain ⟨hmem, rfl⟩ := h.linked.find_eq_some.mp hfind
    refine ⟨h.linked.splice hmem n rfl, ?_, ?_, h.bound⟩
    · intro e he
      rcases List.mem_cons.mp he with rfl | he
      · exact h.weights (a, n) hmem
      · exact h.weights e (List.mem_filter.mp he).1
    · rw [h.linked.entries_splice hmem n, Lru.totalWeight]
      exact h.total.trans (h.linked.totalWeight_others hmem _)

/-! ## Erasing -/

/-- A node is taken out. -/
theorem Linked.filter {c : MemoryCache κ ν} (h : c.Linked) {a : Nat} {n : CacheNode κ ν} (hmem : (a, n) ∈ c.lruList)
    (weight : Nat) :
    Linked { c with
      totalWeight := weight
      lruList := c.lruList.filter fun e => e.1 ≠ a
      map := c.map.filter fun e => e.1 ≠ n.key } := by
  have hsub : (c.lruList.filter fun e => e.1 ≠ a).Sublist c.lruList := List.filter_sublist
  refine ⟨?_, h.keys.sublist (hsub.map _), h.addresses.sublist (hsub.map _), fun e he => h.fresh e (hsub.subset he), ?_⟩
  · refine (h.linked.filter _).trans ?_
    rw [List.filter_map]
    refine List.Perm.of_eq (congrArg _ (List.filter_congr fun e he => ?_))
    simp [h.address_iff hmem he]
  · intro hoff
    rw [h.off hoff]
    rfl

/-- What is left of a sum when a part of it is taken away, as `size_t` computes it. -/
theorem sub_mod {total part : Nat} (hpart : part ≤ total) (htotal : total < UInt64.size) :
    (total + UInt64.size - part) % UInt64.size = total - part := by
  have heq : total + UInt64.size - part = total - part + UInt64.size := by omega
  rw [heq, Nat.add_mod_right, Nat.mod_eq_of_lt (by omega)]

/-- `erase` drops the entry of the key and says whether there was one. -/
theorem Linked.erase {c : MemoryCache κ ν} (h : c.Linked) (key : κ) :
    (c.erase key).1.Linked ∧ (c.erase key).1.entries = Lru.others c.entries key ∧
      (c.erase key).2 = (c.entries.lookup key).isSome := by
  rw [MemoryCache.erase]
  cases hfind : c.find key with
  | none =>
    rw [h.lookup_of_find_eq_none hfind]
    exact ⟨h, (Lru.others_of_lookup_eq_none (h.lookup_of_find_eq_none hfind)).symm, rfl⟩
  | some e =>
    obtain ⟨a, n⟩ := e
    obtain ⟨hmem, rfl⟩ := h.find_eq_some.mp hfind
    rw [h.lookup_of_mem hmem]
    exact ⟨h.filter hmem _, h.entries_filter hmem, rfl⟩

theorem limits_erase (c : MemoryCache κ ν) (key : κ) : (c.erase key).1.limits = c.limits := by
  rw [MemoryCache.erase]
  cases c.find key with
  | none => rfl
  | some e => rfl

/-- The weight of what is dropped is subtracted. -/
theorem Exact.erase {c : MemoryCache κ ν} (h : c.Exact) (key : κ) : (c.erase key).1.Exact := by
  rw [MemoryCache.erase]
  cases hfind : c.find key with
  | none => exact h
  | some e =>
    obtain ⟨a, n⟩ := e
    obtain ⟨hmem, rfl⟩ := h.linked.find_eq_some.mp hfind
    have htotal := h.total
    have hbound := h.bound
    rw [h.linked.totalWeight_others hmem] at htotal
    have hleft : (c.totalWeight + UInt64.size - n.weight) % UInt64.size =
        Lru.totalWeight c.weightFn (Lru.others c.entries n.key) := by
      have hweight : n.weight = c.weightFn n.value := h.weights (a, n) hmem
      rw [hweight, sub_mod (by omega) hbound]
      omega
    refine ⟨h.linked.filter hmem _, fun e he => h.weights e (List.mem_filter.mp he).1, ?_, ?_⟩
    · exact hleft.trans (congrArg _ (h.linked.entries_filter hmem).symm)
    · exact Nat.mod_lt _ (Nat.zero_lt_of_lt hbound)

omit [DecidableEq κ] in
theorem linked_clear (c : MemoryCache κ ν) : c.clear.Linked :=
  ⟨.refl _, List.nodup_nil, List.nodup_nil, nofun, fun _ => rfl⟩

omit [DecidableEq κ] in
/-- After `clear` nothing is held. -/
theorem Exact.clear {c : MemoryCache κ ν} (h : c.Exact) : c.clear.Exact :=
  ⟨linked_clear c, nofun, rfl, Nat.zero_lt_of_lt h.bound⟩

/-! ## Evicting -/

theorem limits_evictBack (c : MemoryCache κ ν) : c.evictBack.limits = c.limits := by
  rw [MemoryCache.evictBack]
  split <;> rfl

theorem limits_evictLoop (turns : Nat) (c : MemoryCache κ ν) : (evictLoop turns c).limits = c.limits := by
  induction turns generalizing c with
  | zero => rfl
  | succ turns ih =>
    rw [evictLoop]
    split
    · exact (ih c.evictBack).trans (limits_evictBack c)
    · rfl

/-- A turn of the loop drops the last entry. -/
theorem Exact.evictBack {c : MemoryCache κ ν} (h : c.Exact) {front : List (κ × ν)} {last : κ × ν}
    (hlist : c.entries = front ++ [last]) :
    c.evictBack.Exact ∧ c.evictBack.entries = front := by
  rcases List.eq_nil_or_concat c.lruList with hnil | ⟨nodes, ⟨a, back⟩, hnodes⟩
  · simp [entries, hnil] at hlist
  · rw [List.concat_eq_append] at hnodes
    have hsplit : nodes.map (fun e => (e.2.key, e.2.value)) ++ [(back.key, back.value)] = front ++ [last] := by
      rw [← hlist, entries, hnodes, List.map_append]
      rfl
    obtain ⟨hfront, hlast⟩ := List.append_inj' hsplit rfl
    obtain rfl := List.singleton_inj.mp hlast
    have heq : c.evictBack.lruList = nodes ∧ c.evictBack.weightFn = c.weightFn ∧
        c.evictBack.totalWeight = (c.totalWeight + UInt64.size - back.weight) % UInt64.size := by
      simp [MemoryCache.evictBack, hnodes]
    obtain ⟨hlru, hweightFn, hweight⟩ := heq
    have hentries : c.evictBack.entries = front := by rw [entries, hlru, hfront]
    have htotal := h.total
    have hbound := h.bound
    rw [hlist, Lru.totalWeight_append, Lru.totalWeight, Lru.totalWeight] at htotal
    simp only at htotal
    have hleft : c.evictBack.totalWeight = Lru.totalWeight c.weightFn front := by
      have hback : back.weight = c.weightFn back.value := h.weights (a, back) (by simp [hnodes])
      rw [hweight, hback, sub_mod (by omega) hbound]
      omega
    refine ⟨⟨h.linked.evictBack, ?_, ?_, ?_⟩, hentries⟩
    · intro e he
      rw [hweightFn]
      exact h.weights e (mem_evictBack he)
    · rw [hentries, hweightFn, hleft]
    · omega

omit [DecidableEq κ] in
/-- The loop goes on as long as the limits are not kept. -/
theorem Exact.evicts_iff {c : MemoryCache κ ν} (h : c.Exact) :
    (c.lruList ≠ [] ∧ (c.maxEntries < c.map.length ∨ c.maxBytes < c.totalWeight)) ↔ ¬Lru.Fits c.limits c.entries := by
  have hsize : c.map.length = c.entries.length := h.linked.size_eq
  have htotal := h.total
  rw [hsize, htotal, Lru.Fits, limits]
  constructor
  · rintro ⟨-, hover⟩ ⟨hentries, hbytes⟩
    simp only at hentries hbytes
    omega
  · intro hnot
    refine ⟨fun hnil => hnot ?_, ?_⟩
    · simp only [entries, hnil, List.map_nil, Lru.totalWeight, List.length_nil]
      exact ⟨Nat.zero_le _, Nat.zero_le _⟩
    · simp only at hnot
      omega

/-- The loop ends with the longest prefix that keeps the limits. -/
theorem Exact.evictLoop {c : MemoryCache κ ν} (h : c.Exact) {turns : Nat} (hturns : c.entries.length ≤ turns) :
    (MemoryCache.evictLoop turns c).Exact ∧ (MemoryCache.evictLoop turns c).entries = Lru.trim c.limits c.entries := by
  induction turns generalizing c with
  | zero =>
    have hnil : c.entries = [] := List.eq_nil_of_length_eq_zero (by omega)
    rw [MemoryCache.evictLoop, hnil, Lru.trim_of_fits (Lru.fits_nil _)]
    exact ⟨h, rfl⟩
  | succ turns ih =>
    rw [MemoryCache.evictLoop]
    by_cases hfits : Lru.Fits c.limits c.entries
    · rw [if_neg fun hcond => h.evicts_iff.mp hcond hfits, Lru.trim_of_fits hfits]
      exact ⟨h, rfl⟩
    · rw [if_pos (h.evicts_iff.mpr hfits)]
      rcases List.eq_nil_or_concat c.entries with hnil | ⟨front, last, hlist⟩
      · rw [hnil] at hfits
        exact absurd (Lru.fits_nil _) hfits
      · rw [List.concat_eq_append] at hlist
        obtain ⟨hexact, hentries⟩ := h.evictBack hlist
        rw [hlist, List.length_append, List.length_singleton] at hturns
        obtain ⟨hexact', htrim⟩ := ih hexact (by rw [hentries]; omega)
        rw [hlist] at hfits ⊢
        rw [Lru.trim_concat hfits]
        rw [limits_evictBack, hentries] at htrim
        exact ⟨hexact', htrim⟩

/-! ## Putting -/

/-- The node of a key gets a value and comes to the front. -/
def updated (c : MemoryCache κ ν) (a : Nat) (n : CacheNode κ ν) (value : ν) (total : Nat) : MemoryCache κ ν :=
  { c.splice a { n with value := value, weight := c.weightFn value } with totalWeight := total }

/-- A key gets a node in front. -/
def inserted (c : MemoryCache κ ν) (key : κ) (value : ν) (total : Nat) : MemoryCache κ ν :=
  { c with
    lruList := (c.nextAddress, ⟨key, value, c.weightFn value⟩) :: c.lruList
    map := (key, c.nextAddress) :: c.map
    totalWeight := total
    nextAddress := c.nextAddress + 1 }

/-- What `do_put` has made of the cache when it comes to `evict_if_needed`. -/
def placed (c : MemoryCache κ ν) (key : κ) (value : ν) : MemoryCache κ ν :=
  match c.find key with
  | some (a, n) => c.updated a n value ((c.totalWeight + UInt64.size - n.weight + c.weightFn value) % UInt64.size)
  | none => c.inserted key value ((c.totalWeight + c.weightFn value) % UInt64.size)

/-- `do_put` places the entry and then evicts. -/
theorem doPut_eq (c : MemoryCache κ ν) (key : κ) (value : ν) :
    c.doPut key value = (c.placed key value).evictIfNeeded := by
  rw [MemoryCache.doPut, placed]
  cases c.find key with
  | none => rfl
  | some e => rfl

omit [DecidableEq κ] in
theorem limits_updated (c : MemoryCache κ ν) (a : Nat) (n : CacheNode κ ν) (value : ν) (total : Nat) :
    (c.updated a n value total).limits = c.limits := rfl

omit [DecidableEq κ] in
theorem limits_inserted (c : MemoryCache κ ν) (key : κ) (value : ν) (total : Nat) :
    (c.inserted key value total).limits = c.limits := rfl

theorem limits_placed (c : MemoryCache κ ν) (key : κ) (value : ν) : (c.placed key value).limits = c.limits := by
  rw [placed]
  cases c.find key with
  | some found => exact limits_updated ..
  | none => exact limits_inserted ..

/-- A value that is replaced is moved to the front. -/
theorem Linked.updated {c : MemoryCache κ ν} (h : c.Linked) {a : Nat} {n : CacheNode κ ν}
    (hmem : (a, n) ∈ c.lruList) (value : ν) (total : Nat) :
    (c.updated a n value total).Linked ∧
      (c.updated a n value total).entries = (n.key, value) :: Lru.others c.entries n.key :=
  ⟨(h.splice hmem { n with value := value, weight := c.weightFn value } rfl).withWeight total, h.entries_splice hmem _⟩

omit [DecidableEq κ] in
/-- A new key is put in front. -/
theorem Linked.inserted {c : MemoryCache κ ν} (h : c.Linked) {key : κ} (hnew : ∀ e ∈ c.lruList, e.2.key ≠ key)
    (hon : ¬(c.maxEntries = 0 ∨ c.maxBytes = 0)) (value : ν) (total : Nat) :
    (c.inserted key value total).Linked ∧ (c.inserted key value total).entries = (key, value) :: c.entries :=
  ⟨(h.insert hon hnew value (c.weightFn value)).withWeight total, rfl⟩

/-- A key that is not found is no node's. -/
theorem Linked.ne_key_of_find_eq_none {c : MemoryCache κ ν} (h : c.Linked) {key : κ} (hfind : c.find key = none) :
    ∀ e ∈ c.lruList, e.2.key ≠ key := by
  intro e he heq
  rw [h.find_eq_some.mpr ⟨he, heq⟩] at hfind
  cases hfind

/-- The key gets the value and comes to the front. -/
theorem Linked.placed {c : MemoryCache κ ν} (h : c.Linked) (key : κ) (value : ν)
    (hon : ¬(c.maxEntries = 0 ∨ c.maxBytes = 0)) :
    (c.placed key value).Linked ∧ (c.placed key value).entries = (key, value) :: Lru.others c.entries key := by
  rw [MemoryCache.placed]
  cases hfind : c.find key with
  | some found =>
    obtain ⟨hmem, rfl⟩ := h.find_eq_some.mp hfind
    exact h.updated hmem value _
  | none =>
    rw [Lru.others_of_lookup_eq_none (h.lookup_of_find_eq_none hfind)]
    exact h.inserted (h.ne_key_of_find_eq_none hfind) hon value _

/-- Replacing a value keeps the weight that of the entries, if the sum does not wrap. -/
theorem Exact.updated {c : MemoryCache κ ν} (h : c.Exact) {a : Nat} {n : CacheNode κ ν}
    (hmem : (a, n) ∈ c.lruList) (value : ν)
    {total : Nat} (htotal : total = c.weightFn value + Lru.totalWeight c.weightFn (Lru.others c.entries n.key))
    (hbound : total < UInt64.size) : (c.updated a n value total).Exact := by
  obtain ⟨hlinked, hentries⟩ := h.linked.updated hmem value total
  refine ⟨hlinked, ?_, ?_, hbound⟩
  · intro e he
    rcases List.mem_cons.mp he with rfl | he
    · rfl
    · exact h.weights e (List.mem_filter.mp he).1
  · exact htotal.trans (congrArg (Lru.totalWeight c.weightFn) hentries).symm

omit [DecidableEq κ] in
/-- So does a new entry. -/
theorem Exact.inserted {c : MemoryCache κ ν} (h : c.Exact) {key : κ} (hnew : ∀ e ∈ c.lruList, e.2.key ≠ key)
    (hon : ¬(c.maxEntries = 0 ∨ c.maxBytes = 0)) (value : ν) {total : Nat}
    (htotal : total = c.weightFn value + Lru.totalWeight c.weightFn c.entries) (hbound : total < UInt64.size) :
    (c.inserted key value total).Exact := by
  refine ⟨(h.linked.inserted hnew hon value total).1, ?_, htotal, hbound⟩
  intro e he
  rcases List.mem_cons.mp he with rfl | he
  · rfl
  · exact h.weights e he

/-- The sum is exact before the eviction, as long as it is in range. -/
theorem Exact.placed {c : MemoryCache κ ν} (h : c.Exact) (key : κ) (value : ν)
    (hon : ¬(c.maxEntries = 0 ∨ c.maxBytes = 0))
    (hbound : Lru.totalWeight c.weightFn c.entries + c.weightFn value < UInt64.size) : (c.placed key value).Exact := by
  have htotal := h.total
  rw [MemoryCache.placed]
  cases hfind : c.find key with
  | some found =>
    obtain ⟨a, n⟩ := found
    obtain ⟨hmem, rfl⟩ := h.linked.find_eq_some.mp hfind
    have hothers := h.linked.totalWeight_others hmem c.weightFn
    have hweight : n.weight = c.weightFn n.value := h.weights (a, n) hmem
    have hsum : (c.totalWeight + UInt64.size - n.weight + c.weightFn value) % UInt64.size =
        c.weightFn value + Lru.totalWeight c.weightFn (Lru.others c.entries n.key) := by
      have heq : c.totalWeight + UInt64.size - n.weight + c.weightFn value =
          c.weightFn value + Lru.totalWeight c.weightFn (Lru.others c.entries n.key) + UInt64.size := by omega
      rw [heq, Nat.add_mod_right, Nat.mod_eq_of_lt (by omega)]
    exact h.updated hmem value hsum (by omega)
  | none =>
    have hsum : (c.totalWeight + c.weightFn value) % UInt64.size =
        c.weightFn value + Lru.totalWeight c.weightFn c.entries := by
      rw [Nat.mod_eq_of_lt (by omega)]
      omega
    exact h.inserted (h.linked.ne_key_of_find_eq_none hfind) hon value hsum (by omega)

/-- `put` does what the cache of the library does, and the weight remains exact. -/
theorem Exact.put {c : MemoryCache κ ν} (h : c.Exact) (key : κ) (value : ν)
    (hbound : Lru.totalWeight c.weightFn c.entries + c.weightFn value < UInt64.size) :
    (c.put key value).Exact ∧ (c.put key value).entries = (Lru.call c.limits c.entries (.put key value)).1 := by
  rw [MemoryCache.put, Lru.call]
  by_cases hoff : c.maxEntries = 0 ∨ c.maxBytes = 0
  · rw [if_pos hoff, if_pos (show c.limits.maxEntries = 0 ∨ c.limits.maxBytes = 0 from hoff)]
    exact ⟨h, rfl⟩
  · rw [if_neg hoff, if_neg (show ¬(c.limits.maxEntries = 0 ∨ c.limits.maxBytes = 0) from hoff)]
    have hexact := h.placed key value hoff hbound
    have hturns : (c.placed key value).entries.length ≤ (c.placed key value).lruList.length := by
      rw [entries, List.length_map]
    obtain ⟨hexact', htrim⟩ := hexact.evictLoop hturns
    rw [doPut_eq, evictIfNeeded]
    refine ⟨hexact', ?_⟩
    rw [htrim, limits_placed, (h.linked.placed key value hoff).2]

theorem limits_put (c : MemoryCache κ ν) (key : κ) (value : ν) : (c.put key value).limits = c.limits := by
  rw [MemoryCache.put]
  split
  · rfl
  · rw [doPut_eq, evictIfNeeded, limits_evictLoop, limits_placed]

/-! ## Calls one after another -/

/-- A call. -/
def call (c : MemoryCache κ ν) : Lru.Op κ ν → MemoryCache κ ν × Lru.Answer ν
  | .put key value => (c.put key value, .done)
  | .get key => ((c.get key).1, .value (c.get key).2)
  | .withValue key => ((c.withValue key).1, .value (c.withValue key).2)
  | .erase key => ((c.erase key).1, .erased (c.erase key).2)
  | .clear => (c.clear, .done)

/-- Some calls one after another, and what they answer. -/
def callAll (c : MemoryCache κ ν) : List (Lru.Op κ ν) → MemoryCache κ ν × List (Lru.Answer ν)
  | [] => (c, [])
  | op :: ops => (((c.call op).1.callAll ops).1, (c.call op).2 :: ((c.call op).1.callAll ops).2)

/-- No call changes the limits. -/
theorem limits_call (c : MemoryCache κ ν) (op : Lru.Op κ ν) : (c.call op).1.limits = c.limits := by
  cases op with
  | put key value => exact limits_put c key value
  | get key | withValue key => exact limits_withValue c key
  | erase key => exact limits_erase c key
  | clear => rfl

theorem limits_callAll (c : MemoryCache κ ν) (ops : List (Lru.Op κ ν)) : (c.callAll ops).1.limits = c.limits := by
  induction ops generalizing c with
  | nil => rfl
  | cons op ops ih => exact (ih (c.call op).1).trans (limits_call c op)

/-- A call does to the cache what it does to the list. -/
theorem Exact.call {c : MemoryCache κ ν} (h : c.Exact) (op : Lru.Op κ ν)
    (hbound : ∀ key value, op = .put key value → Lru.totalWeight c.weightFn c.entries + c.weightFn value < UInt64.size) :
    (c.call op).1.Exact ∧ ((c.call op).1.entries, (c.call op).2) = Lru.call c.limits c.entries op := by
  cases op with
  | put key value =>
    obtain ⟨hexact, hentries⟩ := h.put key value (hbound key value rfl)
    exact ⟨hexact, Prod.ext hentries rfl⟩
  | get key | withValue key =>
    obtain ⟨hentries, hfound⟩ := h.linked.entries_withValue key
    exact ⟨h.withValue key, Prod.ext hentries (congrArg Lru.Answer.value hfound)⟩
  | erase key =>
    obtain ⟨-, hentries, hfound⟩ := h.linked.erase key
    exact ⟨h.erase key, Prod.ext hentries (congrArg Lru.Answer.erased hfound)⟩
  | clear => exact ⟨h.clear, rfl⟩

/-- So do some calls one after another. -/
theorem Exact.callAll {c : MemoryCache κ ν} (h : c.Exact) (ops : List (Lru.Op κ ν))
    (hbelow : Lru.Below c.limits UInt64.size c.entries ops) :
    (c.callAll ops).1.Exact ∧ ((c.callAll ops).1.entries, (c.callAll ops).2) = Lru.callAll c.limits c.entries ops := by
  induction ops generalizing c with
  | nil => exact ⟨h, rfl⟩
  | cons op ops ih =>
    obtain ⟨hop, hops⟩ := hbelow
    obtain ⟨hexact, hcall⟩ := h.call op hop
    obtain ⟨hentries, hanswer⟩ := Prod.ext_iff.mp hcall
    simp only at hentries hanswer
    obtain ⟨hexact', hall⟩ := ih hexact (by rw [limits_call, hentries]; exact hops)
    rw [limits_call, hentries] at hall
    obtain ⟨hentries', hanswers⟩ := Prod.ext_iff.mp hall
    refine ⟨hexact', Prod.ext hentries' ?_⟩
    rw [Lru.callAll, ← hanswer, ← hanswers]
    rfl

/-- After any calls of a new cache, it holds what the list holds, in the same order, and has answered the same; no key
is there twice; `map_` leads from each key to its node; `size()` is the length of the list, and `total_weight()` what
its values weigh. -/
theorem memory_cache_is_lru_list (maxEntries maxBytes : Nat) (weightFn : ν → Nat) (ops : List (Lru.Op κ ν))
    (hbelow : Lru.Below ⟨maxEntries, maxBytes, weightFn⟩ UInt64.size [] ops) :
    ((callAll { maxEntries := maxEntries, maxBytes := maxBytes, weightFn := weightFn } ops).1.entries,
        (callAll { maxEntries := maxEntries, maxBytes := maxBytes, weightFn := weightFn } ops).2) =
      Lru.callAll ⟨maxEntries, maxBytes, weightFn⟩ [] ops ∧
    ((Lru.callAll ⟨maxEntries, maxBytes, weightFn⟩ [] ops).1.map Prod.fst).Nodup ∧
    (callAll { maxEntries := maxEntries, maxBytes := maxBytes, weightFn := weightFn } ops).1.Linked ∧
    (callAll { maxEntries := maxEntries, maxBytes := maxBytes, weightFn := weightFn } ops).1.size =
      (Lru.callAll ⟨maxEntries, maxBytes, weightFn⟩ [] ops).1.length ∧
    (callAll { maxEntries := maxEntries, maxBytes := maxBytes, weightFn := weightFn } ops).1.totalWeight =
      Lru.totalWeight weightFn (Lru.callAll ⟨maxEntries, maxBytes, weightFn⟩ [] ops).1 := by
  obtain ⟨hexact, hall⟩ := (exact_new (κ := κ) maxEntries maxBytes weightFn).callAll ops hbelow
  have hentries := congrArg Prod.fst hall
  have hweightFn := congrArg Lru.Limits.weight
    (limits_callAll ({ maxEntries := maxEntries, maxBytes := maxBytes, weightFn := weightFn } : MemoryCache κ ν) ops)
  simp only [limits] at hentries hweightFn
  refine ⟨hall, ?_, hexact.linked, ?_, ?_⟩
  · have hkeys := hexact.linked.keys_entries
    rwa [hentries] at hkeys
  · rw [hexact.linked.size_eq, hentries]
    rfl
  · rw [hexact.total, hweightFn, hentries]
    rfl

end

end MemoryCache

/-- Room for two entries: a third one takes the place of the one that was not used. -/
theorem memory_cache_is_lru_list_three :
    Lru.callAll ⟨2, 10, List.length⟩ [] [.put 1 [0], .put 2 [0], .get 1, .put 3 [0, 0]] =
      ([((3 : Nat), [(0 : UInt8), 0]), (1, [0])], [.done, .done, .value (some [0]), .done]) ∧
    (MemoryCache.callAll { maxEntries := 2, maxBytes := 10, weightFn := List.length }
      [.put (1 : Nat) [(0 : UInt8)], .put 2 [0], .get 1, .put 3 [0, 0]]).1.totalWeight = 3 := by
  have hlist : Lru.callAll ⟨2, 10, List.length⟩ [] [.put 1 [0], .put 2 [0], .get 1, .put 3 [0, 0]] =
      ([((3 : Nat), [(0 : UInt8), 0]), (1, [0])], [.done, .done, .value (some [0]), .done]) := by decide +kernel
  have hbelow : Lru.Below ⟨2, 10, List.length⟩ UInt64.size []
      [.put (1 : Nat) [(0 : UInt8)], .put 2 [0], .get 1, .put 3 [0, 0]] := by
    refine ⟨?_, ?_, ?_, ?_, trivial⟩
    all_goals
      intro key value hput
      cases hput
    all_goals decide +kernel
  obtain ⟨-, -, -, -, htotal⟩ := MemoryCache.memory_cache_is_lru_list 2 10 List.length
    [.put (1 : Nat) [(0 : UInt8)], .put 2 [0], .get 1, .put 3 [0, 0]] hbelow
  exact ⟨hlist, by rw [htotal, hlist]; rfl⟩

end HpServer
