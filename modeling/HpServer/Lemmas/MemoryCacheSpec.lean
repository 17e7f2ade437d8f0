import HpServer.Lib.Assoc
import HpServer.MemoryCache

/-!
# What the memory cache holds

Seen from outside, a memory cache is a partial map from keys to values (`contents`). As long as `map_` and `lru_list_`
belong together (`Linked`), looking a key up gives what the map has and changes nothing, and a `put` leaves every key
with what it had or with nothing, and the key of the `put` with the new value or with nothing.
-/

namespace HpServer
namespace MemoryCache

variable {κ ν : Type}

/-- The value a key has. -/
def contents [DecidableEq κ] (c : MemoryCache κ ν) (key : κ) : Option ν := (c.find key).map fun e => e.2.value

/-- `map_` leads from each key to the node of the key; nodes have addresses and keys of their own; and a cache with a
limit of zero is empty. -/
structure Linked (c : MemoryCache κ ν) : Prop where
  linked : c.map.Perm (c.lruList.map fun e => (e.2.key, e.1))
  keys : (c.lruList.map fun e => e.2.key).Nodup
  addresses : (c.lruList.map Prod.fst).Nodup
  fresh : ∀ e ∈ c.lruList, e.1 < c.nextAddress
  off : c.maxEntries = 0 ∨ c.maxBytes = 0 → c.lruList = []

/-- A new cache. -/
theorem linked_new (maxEntries maxBytes : Nat) (weightFn : ν → Nat) :
    Linked ({ maxEntries := maxEntries, maxBytes := maxBytes, weightFn := weightFn } : MemoryCache κ ν) :=
  ⟨.refl _, List.nodup_nil, List.nodup_nil, nofun, fun _ => rfl⟩

/-- No key is twice in `map_`. -/
theorem Linked.map_keys {c : MemoryCache κ ν} (h : c.Linked) : (c.map.map Prod.fst).Nodup := by
  refine (h.linked.map Prod.fst).nodup_iff.mpr ?_
  rw [List.map_map]
  exact h.keys

variable [DecidableEq κ]

/-- The node of a key is the one in the list with the key. -/
theorem Linked.find_eq_some {c : MemoryCache κ ν} (h : c.Linked) {key : κ} {e : Nat × CacheNode κ ν} :
    c.find key = some e ↔ e ∈ c.lruList ∧ e.2.key = key := by
  simp only [find, Option.bind_eq_some_iff, Option.map_eq_some_iff]
  constructor
  · rintro ⟨a, ha, n, hn, rfl⟩
    have hn' := Assoc.mem_of_lookup hn
    obtain ⟨e, he, heq⟩ := List.mem_map.mp (h.linked.mem_iff.mp (Assoc.mem_of_lookup ha))
    obtain ⟨hkey, haddr⟩ := Prod.mk.inj heq
    -- the two nodes at the address are one
    obtain rfl : e = (a, n) := List.inj_on_of_nodup_map h.addresses he hn' haddr
    exact ⟨hn', hkey⟩
  · rintro ⟨he, rfl⟩
    refine ⟨e.1, Assoc.lookup_of_mem h.map_keys (h.linked.mem_iff.mpr (List.mem_map.mpr ⟨e, he, rfl⟩)), e.2, ?_, rfl⟩
    exact Assoc.lookup_of_mem h.addresses he

/-- What is found is what a node with the key holds. -/
theorem Linked.contents_eq_some {c : MemoryCache κ ν} (h : c.Linked) {key : κ} {v : ν} :
    c.contents key = some v ↔ ∃ e ∈ c.lruList, e.2.key = key ∧ e.2.value = v := by
  rw [contents, Option.map_eq_some_iff]
  constructor
  · rintro ⟨e, he, rfl⟩
    obtain ⟨hmem, hkey⟩ := h.find_eq_some.mp he
    exact ⟨e, hmem, hkey, rfl⟩
  · rintro ⟨e, he, hkey, rfl⟩
    exact ⟨e, h.find_eq_some.mpr ⟨he, hkey⟩, rfl⟩

/-- A cache all of whose nodes are nodes of another holds what the other holds, or nothing. -/
theorem contents_of_subset {c c' : MemoryCache κ ν} (h : c.Linked) (h' : c'.Linked) {key : κ}
    (hsub : ∀ e ∈ c'.lruList, e.2.key = key → ∃ e₀ ∈ c.lruList, e₀.2.key = key ∧ e₀.2.value = e.2.value) :
    c'.contents key = c.contents key ∨ c'.contents key = none := by
  cases hc : c'.contents key with
  | none => exact .inr rfl
  | some v =>
    obtain ⟨e, he, hkey, rfl⟩ := h'.contents_eq_some.mp hc
    obtain ⟨e₀, he₀, hkey₀, hval⟩ := hsub e he hkey
    exact .inl (h.contents_eq_some.mpr ⟨e₀, he₀, hkey₀, hval⟩).symm

/-! ## One node put before the others -/

omit [DecidableEq κ] in
/-- Moving a node to the front keeps the two together. -/
theorem Linked.splice {c : MemoryCache κ ν} (h : c.Linked) {a : Nat} {n : CacheNode κ ν} (hmem : (a, n) ∈ c.lruList)
    (n' : CacheNode κ ν) (hkey : n'.key = n.key) : (c.splice a n').Linked := by
  have hperm := Assoc.perm_cons_filter h.addresses hmem
  -- the new node has the address and the key of the old one
  have hmap : ∀ {β : Type} (f : κ → Nat → β), ((c.splice a n').lruList.map fun e => f e.2.key e.1).Perm
      (c.lruList.map fun e => f e.2.key e.1) := by
    intro β f
    refine List.Perm.trans ?_ (hperm.map _)
    rw [MemoryCache.splice, List.map_cons, List.map_cons, hkey]
  refine ⟨h.linked.trans (hmap fun k b => (k, b)).symm, (hmap fun k _ => k).nodup_iff.mpr h.keys,
    (hmap fun _ b => b).nodup_iff.mpr h.addresses, ?_, ?_⟩
  · intro e he
    rcases List.mem_cons.mp he with rfl | he
    · exact h.fresh (a, n) hmem
    · exact h.fresh e (List.mem_filter.mp he).1
  · intro hoff
    rw [h.off hoff] at hmem
    cases hmem

/-- Looking a key up gives what it has and keeps the contents. -/
theorem Linked.withValue {c : MemoryCache κ ν} (h : c.Linked) (key : κ) :
    (c.withValue key).2 = c.contents key ∧ (c.withValue key).1.Linked ∧ (c.withValue key).1.contents = c.contents := by
  rw [MemoryCache.withValue, contents]
  cases hfind : c.find key with
  | none => exact ⟨rfl, h, rfl⟩
  | some e =>
    obtain ⟨a, n⟩ := e
    obtain ⟨hmem, -⟩ := h.find_eq_some.mp hfind
    have hlinked := h.splice hmem n rfl
    refine ⟨rfl, hlinked, ?_⟩
    funext k
    refine Option.ext fun v => ?_
    have hperm : (c.splice a n).lruList.Perm c.lruList := Assoc.perm_cons_filter h.addresses hmem
    rw [hlinked.contents_eq_some, h.contents_eq_some]
    simp only [hperm.mem_iff]

/-! ## Evicting -/

/-- Dropping the last node does too. -/
theorem Linked.evictBack {c : MemoryCache κ ν} (h : c.Linked) : c.evictBack.Linked := by
  rcases List.eq_nil_or_concat c.lruList with hnil | ⟨front, ⟨a, back⟩, hlist⟩
  · simpa [MemoryCache.evictBack, hnil] using h
  · have hsub : front.Sublist c.lruList := by rw [hlist]; simp
    have hlast : c.evictBack.lruList = front ∧ c.evictBack.map = c.map.filter (fun e => e.1 ≠ back.key) ∧
        c.evictBack.nextAddress = c.nextAddress ∧ c.evictBack.maxEntries = c.maxEntries ∧
          c.evictBack.maxBytes = c.maxBytes := by
      simp [MemoryCache.evictBack, hlist]
    obtain ⟨hl, hm, hn, he, hb⟩ := hlast
    have hkeys := h.keys
    rw [hlist, List.map_concat, List.concat_eq_append] at hkeys
    refine ⟨?_, ?_, ?_, ?_, ?_⟩
    · rw [hl, hm]
      refine (h.linked.filter _).trans ?_
      have hfront : ∀ e ∈ front, e.2.key ≠ back.key := by
        intro e he heq
        exact (List.disjoint_of_nodup_append hkeys) (List.mem_map.mpr ⟨e, he, heq⟩) (by simp)
      rw [List.filter_map, hlist, List.concat_eq_append, List.filter_append]
      simp only [Function.comp_def]
      rw [List.filter_eq_self.mpr (by simpa using hfront), List.filter_cons_of_neg (by simp), List.filter_nil,
        List.append_nil]
    · rw [hl]
      exact h.keys.sublist (hsub.map _)
    · rw [hl]
      exact h.addresses.sublist (hsub.map _)
    · rw [hl, hn]
      exact fun e he => h.fresh e (hsub.subset he)
    · rw [hl, he, hb]
      intro hoff
      simpa [h.off hoff] using hsub

/-- Nothing new comes in. -/
theorem mem_evictBack {c : MemoryCache κ ν} {e : Nat × CacheNode κ ν} (he : e ∈ c.evictBack.lruList) : e ∈ c.lruList := by
  unfold MemoryCache.evictBack at he
  split at he
  · exact he
  · exact (List.dropLast_sublist _).subset he

/-- Evicting keeps `map_` and the list together and adds no node. -/
theorem Linked.evictLoop {c : MemoryCache κ ν} (h : c.Linked) (turns : Nat) :
    (MemoryCache.evictLoop turns c).Linked ∧ ∀ e ∈ (MemoryCache.evictLoop turns c).lruList, e ∈ c.lruList := by
  induction turns generalizing c with
  | zero => exact ⟨h, fun e he => he⟩
  | succ turns ih =>
    rw [MemoryCache.evictLoop]
    split
    · obtain ⟨hlinked, hsub⟩ := ih h.evictBack
      exact ⟨hlinked, fun e he => mem_evictBack (hsub e he)⟩
    · exact ⟨h, fun e he => he⟩

omit [DecidableEq κ] in
/-- The weight has no part in it. -/
theorem Linked.withWeight {c : MemoryCache κ ν} (h : c.Linked) (weight : Nat) : Linked { c with totalWeight := weight } :=
  ⟨h.linked, h.keys, h.addresses, h.fresh, h.off⟩

/-! ## Putting -/

omit [DecidableEq κ] in
/-- A node for a new key, at a new address. -/
theorem Linked.insert {c : MemoryCache κ ν} (h : c.Linked) (hon : ¬(c.maxEntries = 0 ∨ c.maxBytes = 0)) {key : κ}
    (hnew : ∀ e ∈ c.lruList, e.2.key ≠ key) (value : ν) (weight : Nat) :
    Linked { c with
      lruList := (c.nextAddress, ⟨key, value, weight⟩) :: c.lruList
      map := (key, c.nextAddress) :: c.map
      nextAddress := c.nextAddress + 1 } := by
  refine ⟨h.linked.cons _, ?_, ?_, ?_, fun hoff => absurd hoff hon⟩
  · rw [List.map_cons, List.nodup_cons]
    refine ⟨fun hmem => ?_, h.keys⟩
    obtain ⟨e, he, heq⟩ := List.mem_map.mp hmem
    exact hnew e he heq
  · rw [List.map_cons, List.nodup_cons]
    refine ⟨fun hmem => ?_, h.addresses⟩
    obtain ⟨e, he, heq⟩ := List.mem_map.mp hmem
    exact absurd (h.fresh e he) (by omega)
  · intro e he
    rcases List.mem_cons.mp he with rfl | he
    · exact Nat.lt_succ_self _
    · exact Nat.lt_succ_of_lt (h.fresh e he)

/-- A `put` keeps `map_` and the list together; the nodes afterwards are old ones and one with the key and the value
of the `put`, and no old one has that key. -/
theorem Linked.put_nodes {c : MemoryCache κ ν} (h : c.Linked) (key : κ) (value : ν) :
    (c.put key value).Linked ∧ ∀ e ∈ (c.put key value).lruList,
      (e.2.key = key ∧ e.2.value = value) ∨ (e.2.key ≠ key ∧ e ∈ c.lruList) := by
  rw [put]
  split
  · rename_i hoff
    refine ⟨h, fun e he => ?_⟩
    rw [h.off hoff] at he
    cases he
  · rename_i hon
    rw [doPut]
    cases hfind : c.find key with
    | some found =>
      obtain ⟨a, n⟩ := found
      obtain ⟨hmem, hkey⟩ := h.find_eq_some.mp hfind
      have hsplice := h.splice hmem { n with value := value, weight := c.weightFn value } rfl
      obtain ⟨hlinked, hsub⟩ := (hsplice.withWeight
        ((c.totalWeight + UInt64.size - n.weight + c.weightFn value) % UInt64.size)).evictLoop _
      refine ⟨hlinked, fun e he => ?_⟩
      rcases List.mem_cons.mp (hsub e he) with rfl | he
      · exact .inl ⟨hkey, rfl⟩
      · obtain ⟨he, haddr⟩ := List.mem_filter.mp he
        refine .inr ⟨fun heq => ?_, he⟩
        -- another node with the key would be the same node
        have hsame : e = (a, n) := List.inj_on_of_nodup_map h.keys he hmem (heq.trans hkey.symm)
        simp [hsame] at haddr
    | none =>
      have hnew : ∀ e ∈ c.lruList, e.2.key ≠ key := by
        intro e he heq
        rw [h.find_eq_some.mpr ⟨he, heq⟩] at hfind
        cases hfind
      obtain ⟨hlinked, hsub⟩ := ((h.insert hon hnew value (c.weightFn value)).withWeight
        ((c.totalWeight + c.weightFn value) % UInt64.size)).evictLoop _
      refine ⟨hlinked, fun e he => ?_⟩
      rcases List.mem_cons.mp (hsub e he) with rfl | he
      · exact .inl ⟨rfl, rfl⟩
      · exact .inr ⟨hnew e he, he⟩

/-- After a `put` its key has the new value or nothing, and every other key what it had or nothing. -/
theorem Linked.put {c : MemoryCache κ ν} (h : c.Linked) (key : κ) (value : ν) :
    (c.put key value).Linked ∧ ((c.put key value).contents key = some value ∨ (c.put key value).contents key = none) ∧
      ∀ k, k ≠ key → (c.put key value).contents k = c.contents k ∨ (c.put key value).contents k = none := by
  obtain ⟨hlinked, hnodes⟩ := h.put_nodes key value
  refine ⟨hlinked, ?_, fun k hk => contents_of_subset h hlinked fun e he heq => ?_⟩
  · cases hc : (c.put key value).contents key with
    | none => exact .inr rfl
    | some v =>
      obtain ⟨e, he, hkey, rfl⟩ := hlinked.contents_eq_some.mp hc
      rcases hnodes e he with ⟨-, hval⟩ | ⟨hne, -⟩
      · exact .inl (by rw [hval])
      · exact absurd hkey hne
  · rcases hnodes e he with ⟨hkey, -⟩ | ⟨-, hmem⟩
    · exact absurd (heq.symm.trans hkey) hk
    · exact ⟨e, hmem, heq, rfl⟩

end MemoryCache
end HpServer
