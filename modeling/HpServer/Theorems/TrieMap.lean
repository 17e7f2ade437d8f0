import HpServer.Lemmas.TrieSearch
import HpServer.Lib.KeyMap

/-!
# The trie is a map

After any calls of `insert`, `remove` and `search`, a `bitwise_trie` finds under each key what a map has after the
same calls, and has answered the same.
-/

namespace HpServer
namespace BitwiseTrie

variable {α : Type*}

/-- A call. -/
def call (trie : BitwiseTrie α) : KeyMap.Op IpAddress α → BitwiseTrie α × KeyMap.Answer α
  | .insert key value => (trie.insert key value, .done)
  | .remove key => ((trie.remove key).1, .removed (trie.remove key).2)
  | .search key => (trie, .found (trie.search key))

/-- Some calls one after another, and what they answer. -/
def callAll (trie : BitwiseTrie α) : List (KeyMap.Op IpAddress α) → BitwiseTrie α × List (KeyMap.Answer α)
  | [] => (trie, [])
  | op :: ops => (((trie.call op).1.callAll ops).1, (trie.call op).2 :: ((trie.call op).1.callAll ops).2)

/-- The map the trie stands for. -/
def contents (trie : BitwiseTrie α) (key : IpAddress) : Option α := trie.search key

/-- `insert` updates the map. -/
theorem contents_insert (trie : BitwiseTrie α) (key : IpAddress) (value : α) :
    (trie.insert key value).contents = Function.update trie.contents key (some value) := by
  funext key'
  rw [contents, search_insert, Function.update_apply]
  rfl

/-- `remove` updates it too. -/
theorem contents_remove (trie : BitwiseTrie α) (key : IpAddress) :
    (trie.remove key).1.contents = Function.update trie.contents key none := by
  funext key'
  rw [contents, search_remove, Function.update_apply]
  rfl

/-- A call does to the trie what it does to the map. -/
theorem contents_call (trie : BitwiseTrie α) (op : KeyMap.Op IpAddress α) :
    ((trie.call op).1.contents, (trie.call op).2) = KeyMap.call trie.contents op := by
  cases op with
  | insert key value => exact Prod.ext (contents_insert trie key value) rfl
  | remove key => exact Prod.ext (contents_remove trie key) (congrArg KeyMap.Answer.removed (remove_snd trie key))
  | search key => rfl

/-- So do some calls one after another. -/
theorem contents_callAll (trie : BitwiseTrie α) (ops : List (KeyMap.Op IpAddress α)) :
    ((trie.callAll ops).1.contents, (trie.callAll ops).2) = KeyMap.callAll trie.contents ops := by
  induction ops generalizing trie with
  | nil => rfl
  | cons op ops ih =>
    obtain ⟨hcontents, hanswer⟩ := Prod.ext_iff.mp (contents_call trie op)
    obtain ⟨hcontents', hanswers⟩ := Prod.ext_iff.mp (ih (trie.call op).1)
    simp only at hcontents hanswer hcontents' hanswers
    rw [hcontents] at hcontents' hanswers
    refine Prod.ext hcontents' ?_
    rw [KeyMap.callAll, ← hanswer, ← hanswers]
    rfl

/-- After any calls of a new trie: it has answered as a map that was empty; it finds under a key the value that was
inserted there last, if the key was not removed after that, and nothing otherwise; `remove` is true where something is
found; and neither `insert` nor `remove` changes what is found under another key. -/
theorem trie_refines_map (ops : List (KeyMap.Op IpAddress α)) :
    (((new : BitwiseTrie α).callAll ops).1.search, ((new : BitwiseTrie α).callAll ops).2) =
      KeyMap.callAll (fun _ => none) ops ∧
    (∀ key value, ((new : BitwiseTrie α).callAll ops).1.search key = some value ↔ KeyMap.LastInserts key value ops) ∧
    (∀ key, (((new : BitwiseTrie α).callAll ops).1.remove key).2 = true ↔ ∃ value, KeyMap.LastInserts key value ops) ∧
    ∀ (trie : BitwiseTrie α) (key key' : IpAddress), key' ≠ key →
      (∀ value, (trie.insert key value).search key' = trie.search key') ∧
        (trie.remove key).1.search key' = trie.search key' := by
  have hnew : (new : BitwiseTrie α).contents = fun _ => none := funext search_new
  have hall := contents_callAll (new : BitwiseTrie α) ops
  rw [hnew] at hall
  have hsearch : ∀ key value, ((new : BitwiseTrie α).callAll ops).1.search key = some value ↔
      KeyMap.LastInserts key value ops := by
    intro key value
    rw [← KeyMap.callAll_eq_some, ← hall]
    rfl
  refine ⟨hall, hsearch, ?_, ?_⟩
  · intro key
    rw [remove_snd, Option.isSome_iff_exists]
    exact exists_congr (hsearch key)
  · intro trie key key' hne
    refine ⟨?_, ?_⟩
    · intro value
      rw [search_insert, if_neg hne]
    · rw [search_remove, if_neg hne]

/-- Two keys that differ in the last bit only; one of them is removed. -/
def siblingKeys : List (KeyMap.Op IpAddress Nat) := [.insert 2 7, .insert 3 8, .remove 2, .search 3, .search 2]

theorem trie_refines_map_siblings :
    ((new : BitwiseTrie Nat).callAll siblingKeys).2 = [.done, .done, .removed true, .found (some 8), .found none] ∧
    ((((new : BitwiseTrie Nat).callAll siblingKeys).1.remove 2).1).search 3 = some 8 := by
  obtain ⟨hall, hsearch, -, hother⟩ := trie_refines_map siblingKeys
  refine ⟨(congrArg Prod.snd hall).trans (by decide), ?_⟩
  rw [(hother _ 2 3 (by decide)).2, hsearch]
  refine ⟨[.insert 2 7], [.remove 2, .search 3, .search 2], rfl, ?_⟩
  simp [KeyMap.Op.Writes]

end BitwiseTrie
end HpServer
