import HpServer.IpFilter

/-!
# What the trie finds

The trie reads a key bit by bit from the top. Two keys take the same way down as long as their bits agree
(`SameBelow`), so an insertion or a removal changes what is found under its own key, whatever nodes it shares with
other keys, and finds what a search finds.
-/

namespace HpServer
namespace BitwiseTrie

variable {α : Type*}

/-- Two keys that the trie cannot tell apart below a level. -/
def SameBelow (n : Nat) (key key' : IpAddress) : Prop := ∀ i < n, key.getLsbD i = key'.getLsbD i

/-- One more bit. -/
theorem sameBelow_succ {n : Nat} {key key' : IpAddress} :
    SameBelow (n + 1) key key' ↔ key.getLsbD n = key'.getLsbD n ∧ SameBelow n key key' := by
  constructor
  · intro h
    exact ⟨h n (Nat.lt_succ_self n), fun i hi => h i (Nat.lt_succ_of_lt hi)⟩
  · rintro ⟨hn, h⟩ i hi
    rcases Nat.lt_succ_iff_lt_or_eq.mp hi with hi | rfl
    · exact h i hi
    · exact hn

/-- All the bits of an address. -/
theorem sameBelow_32 {key key' : IpAddress} : SameBelow 32 key key' ↔ key = key' := by
  constructor
  · exact fun h => BitVec.eq_of_getLsbD_eq h
  · rintro rfl i -
    rfl

/-- Below no node there is nothing. -/
theorem searchFrom_null (key : IpAddress) (n : Nat) : searchFrom key n (null : BitwiseTrie α) = none := by
  cases n <;> rfl

open Classical in
/-- An insertion changes what is found under its own key, and nothing else. -/
theorem searchFrom_insertFrom (key key' : IpAddress) (value : α) (n : Nat) (trie : BitwiseTrie α) :
    searchFrom key' n (insertFrom key value n trie) =
      if SameBelow n key' key then some value else searchFrom key' n trie := by
  -- The paths of the two keys part at the first bit, from the top, in which they differ.
  induction n generalizing trie with
  | zero =>
    have hsame : SameBelow 0 key' key := fun i hi => absurd hi (Nat.not_lt_zero i)
    rw [if_pos hsame]
    cases trie <;> rfl
  | succ n ih =>
    simp only [sameBelow_succ]
    cases trie with
    | null =>
      cases hk : key.getLsbD n <;> cases hk' : key'.getLsbD n <;>
        simp [insertFrom, searchFrom, searchFrom_null, ih, hk, hk']
    | node v zero one =>
      cases hk : key.getLsbD n <;> cases hk' : key'.getLsbD n <;> simp [insertFrom, searchFrom, ih, hk, hk']

/-- A value that is inserted is found under its own key, and under no other. -/
theorem search_insert (trie : BitwiseTrie α) (key key' : IpAddress) (value : α) :
    (trie.insert key value).search key' = if key' = key then some value else trie.search key' := by
  rw [search, insert, searchFrom_insertFrom]
  simp only [sameBelow_32]
  rfl

open Classical in
/-- A removal takes away what is found under its own key, and nothing else: the nodes it leaves behind have no value. -/
theorem searchFrom_removeFrom (key key' : IpAddress) (n : Nat) (trie : BitwiseTrie α) :
    searchFrom key' n (removeFrom key n trie).1 = if SameBelow n key' key then none else searchFrom key' n trie := by
  induction n generalizing trie with
  | zero =>
    have hsame : SameBelow 0 key' key := fun i hi => absurd hi (Nat.not_lt_zero i)
    rw [if_pos hsame]
    cases trie <;> rfl
  | succ n ih =>
    simp only [sameBelow_succ]
    cases trie with
    | null => simp [removeFrom, searchFrom]
    | node v zero one =>
      cases hk : key.getLsbD n <;> cases hk' : key'.getLsbD n <;> simp [removeFrom, searchFrom, ih, hk, hk']

/-- A removal says whether a search would have found something. -/
theorem removeFrom_snd (key : IpAddress) (n : Nat) (trie : BitwiseTrie α) :
    (removeFrom key n trie).2 = (searchFrom key n trie).isSome := by
  induction n generalizing trie with
  | zero => cases trie <;> rfl
  | succ n ih =>
    cases trie with
    | null => rfl
    | node v zero one => cases hk : key.getLsbD n <;> simp [removeFrom, searchFrom, ih, hk]

/-- What is removed is no longer found; the rest is. -/
theorem search_remove (trie : BitwiseTrie α) (key key' : IpAddress) :
    (trie.remove key).1.search key' = if key' = key then none else trie.search key' := by
  rw [search, remove, searchFrom_removeFrom]
  simp only [sameBelow_32]
  rfl

/-- `remove` answers whether there was a value. -/
theorem remove_snd (trie : BitwiseTrie α) (key : IpAddress) : (trie.remove key).2 = (trie.search key).isSome :=
  removeFrom_snd key 32 trie

/-- In a new trie nothing is found. -/
theorem search_new (key : IpAddress) : (new : BitwiseTrie α).search key = none := by
  simp [search, new, searchFrom, searchFrom_null]

end BitwiseTrie

end HpServer
