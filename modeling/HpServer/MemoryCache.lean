import Mathlib.Data.List.Basic

/-!
# The memory cache (`src/util/memory_cache.h`)

An LRU cache with two limits. `lru_list_` is the list of nodes, the one used last at the front, each at an address of
its own; `map_` leads from a key to the address of its node, as the iterators of the source do. `size_t` arithmetic is
modulo 2^64.
-/

namespace HpServer

/-- `memory_cache::node`. -/
structure CacheNode (κ ν : Type) where
  key : κ
  value : ν
  weight : Nat

/-- `memory_cache`. `nextAddress` is ghost data: where the next node is made. -/
structure MemoryCache (κ ν : Type) where
  maxEntries : Nat
  maxBytes : Nat
  weightFn : ν → Nat
  lruList : List (Nat × CacheNode κ ν) := []
  map : List (κ × Nat) := []
  totalWeight : Nat := 0
  nextAddress : Nat := 0

namespace MemoryCache

variable {κ ν : Type} [DecidableEq κ]

/-- `lru_list_.splice`: the node at `a`, which becomes `n`, is put before the others. -/
def splice (c : MemoryCache κ ν) (a : Nat) (n : CacheNode κ ν) : MemoryCache κ ν :=
  { c with lruList := (a, n) :: c.lruList.filter fun e => e.1 ≠ a }

/-- `map_.find`, and the node the iterator leads to. -/
def find (c : MemoryCache κ ν) (key : κ) : Option (Nat × CacheNode κ ν) :=
  (c.map.lookup key).bind fun a => (c.lruList.lookup a).map fun n => (a, n)

/-- `with_value`: the value given to the callback. -/
def withValue (c : MemoryCache κ ν) (key : κ) : MemoryCache κ ν × Option ν :=
  match c.find key with
  | none => (c, none)
  | some (a, n) => (c.splice a n, some n.value)

/-- `get`: the value the pointer leads to. -/
def get (c : MemoryCache κ ν) (key : κ) : MemoryCache κ ν × Option ν :=
  match c.find key with
  | none => (c, none)
  | some (a, n) => (c.splice a n, some n.value)

/-- `erase`. -/
def erase (c : MemoryCache κ ν) (key : κ) : MemoryCache κ ν × Bool :=
  match c.find key with
  | none => (c, false)
  | some (a, n) =>
    ({ c with
       totalWeight := (c.totalWeight + UInt64.size - n.weight) % UInt64.size
       lruList := c.lruList.filter fun e => e.1 ≠ a
       map := c.map.filter fun e => e.1 ≠ key }, true)

/-- `clear`. -/
def clear (c : MemoryCache κ ν) : MemoryCache κ ν := { c with lruList := [], map := [], totalWeight := 0 }

/-- `size`. -/
def size (c : MemoryCache κ ν) : Nat := c.map.length

/-- A turn of the loop of `evict_if_needed`. -/
def evictBack (c : MemoryCache κ ν) : MemoryCache κ ν :=
  match c.lruList.getLast? with
  | none => c
  | some (_, back) =>
    { c with
      totalWeight := (c.totalWeight + UInt64.size - back.weight) % UInt64.size
      map := c.map.filter fun e => e.1 ≠ back.key
      lruList := c.lruList.dropLast }

/-- The loop of `evict_if_needed`. Each turn drops a node, so there are as many turns as nodes at most. -/
def evictLoop : Nat → MemoryCache κ ν → MemoryCache κ ν
  | 0, c => c
  | turns + 1, c =>
    if c.lruList ≠ [] ∧ (c.maxEntries < c.map.length ∨ c.maxBytes < c.totalWeight) then evictLoop turns c.evictBack else c

/-- `evict_if_needed`. -/
def evictIfNeeded (c : MemoryCache κ ν) : MemoryCache κ ν := evictLoop c.lruList.length c

/-- `do_put`. -/
def doPut (c : MemoryCache κ ν) (key : κ) (value : ν) : MemoryCache κ ν :=
  let newWeight := c.weightFn value
  match c.find key with
  | some (a, n) =>
    evictIfNeeded
      { c.splice a { n with value := value, weight := newWeight } with
        totalWeight := (c.totalWeight + UInt64.size - n.weight + newWeight) % UInt64.size }
  | none =>
    evictIfNeeded
      { c with
        lruList := (c.nextAddress, ⟨key, value, newWeight⟩) :: c.lruList
        map := (key, c.nextAddress) :: c.map
        totalWeight := (c.totalWeight + newWeight) % UInt64.size
        nextAddress := c.nextAddress + 1 }

/-- `put`. -/
def put (c : MemoryCache κ ν) (key : κ) (value : ν) : MemoryCache κ ν :=
  if c.maxEntries = 0 ∨ c.maxBytes = 0 then c else c.doPut key value

end MemoryCache
end HpServer
