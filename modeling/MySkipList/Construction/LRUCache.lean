/-
This file models `lru.h`.
-/

import MySkipList.Foundation.Dictionary
import MySkipList.Foundation.HandleList

namespace MySkipList

open Foundation

/-- The cache maps each key to the handle of its entry; the list orders the entries from the
most to the least recently used. -/
structure LRUCache (K V : Type) where
  deleteKeys : List K
  capacity : Int
  cache : Dictionary K Handle
  lru : HandleList (K × V)

namespace LRUCache
variable {K V : Type} [DecidableEq K]

/-- The default constructor uses `DEFUALT_MAXLENGTH`, which is zero and means unbounded. -/
def new : LRUCache K V := ⟨[], 0, ∅, .empty⟩

/-- The constructor takes any `int` as the capacity. -/
def create (capacity : Int) : LRUCache K V := ⟨[], capacity, ∅, .empty⟩

/-- A miss returns `none` where the source returns -1. -/
def get (store : LRUCache K V) (key : K) : Exec (Option V × LRUCache K V) :=
  match store.cache.lookup key with
  | none => pure (none, store)
  | some it => do
      let lru ← store.lru.splice it
      let entry ← lru.read it
      pure (some entry.2, { store with lru := lru })

/-- The eviction of `put` and of `set_capacity`. The source reads the key that it queues through the iterator that it
has just erased, which is undefined. The model queues the key that the erased entry had; in `evictLastLive` this read
is a fault. The running program finds a key of fewer than 16 bytes, which lies inside the released entry, and no longer
one. -/
def evictLast (store : LRUCache K V) : Exec (LRUCache K V) := do
  let it ← store.lru.back
  let entry ← store.lru.read it
  let cache := store.cache.erase entry.1
  let lru ← store.lru.erase it
  let stale ← lru.readErased it
  pure { store with deleteKeys := store.deleteKeys ++ [stale.1], cache := cache, lru := lru }

/-- The eviction test is an equality, and a capacity of zero evicts nothing. -/
def put (store : LRUCache K V) (key : K) (value : V) : Exec (LRUCache K V) :=
  match store.cache.lookup key with
  | some it => do
      let entry ← store.lru.read it
      let lru ← store.lru.write it (entry.1, value)
      let lru ← lru.splice it
      pure { store with lru := lru }
  | none => do
      let room ← if 0 < store.capacity ∧ store.cache.size = store.capacity then store.evictLast else pure store
      pure { room with
        lru := room.lru.pushFront (key, value)
        cache := room.cache.emplace key room.lru.next }

/-- A removal does not queue the key. -/
def remove (store : LRUCache K V) (key : K) : Exec (LRUCache K V) :=
  match store.cache.lookup key with
  | none => pure store
  | some it => do
      let lru ← store.lru.erase it
      pure { store with lru := lru, cache := store.cache.erase key }

/-- The loop of `set_capacity`. Each turn erases one list entry, so the list length bounds it. -/
def trim (capacity : Int) : Nat → LRUCache K V → Exec (LRUCache K V)
  | 0, _ => throw .divergence
  | fuel + 1, store =>
      if 0 < capacity ∧ capacity < store.cache.size then do
        let evicted ← store.evictLast
        trim capacity fuel evicted
      else pure store

/-- A negative capacity is rejected and changes nothing. -/
def setCapacity (store : LRUCache K V) (capacity : Int) : Exec (Int × LRUCache K V) :=
  if capacity < 0 then pure (-1, store)
  else do
    let trimmed ← trim capacity (store.lru.entries.length + 1) { store with capacity := capacity }
    pure (0, trimmed)

/-- A call of the public interface. -/
inductive Action (K V : Type) where
  | get (key : K)
  | put (key : K) (value : V)
  | remove (key : K)
  | setCapacity (capacity : Int)

def act (store : LRUCache K V) : Action K V → Exec (Unit × LRUCache K V)
  | .get key => do
      let (_, store) ← store.get key
      pure ((), store)
  | .put key value => do
      let store ← store.put key value
      pure ((), store)
  | .remove key => do
      let store ← store.remove key
      pure ((), store)
  | .setCapacity capacity => do
      let (_, store) ← store.setCapacity capacity
      pure ((), store)

/-- The keys that a call evicts from the cache before it. Each of them is read through its erased iterator. -/
def evicted (store : LRUCache K V) : Action K V → List K
  | .put key _ =>
      if store.cache.lookup key = none ∧ 0 < store.capacity ∧ store.cache.size = store.capacity then
        (store.lru.entries.getLast?.map fun entry => entry.2.1).toList
      else []
  | .setCapacity wanted =>
      if 0 < wanted then ((store.lru.entries.drop wanted.toNat).map fun entry => entry.2.1).reverse else []
  | _ => []

/-- The eviction with the same steps, where the read through the erased iterator is a fault. -/
def evictLastLive (store : LRUCache K V) : Exec (LRUCache K V) := do
  let it ← store.lru.back
  let entry ← store.lru.read it
  let cache := store.cache.erase entry.1
  let lru ← store.lru.erase it
  let stale ← lru.read it
  pure { store with deleteKeys := store.deleteKeys ++ [stale.1], cache := cache, lru := lru }

/-- `put` with the strict eviction. -/
def putLive (store : LRUCache K V) (key : K) (value : V) : Exec (LRUCache K V) :=
  match store.cache.lookup key with
  | some it => do
      let entry ← store.lru.read it
      let lru ← store.lru.write it (entry.1, value)
      let lru ← lru.splice it
      pure { store with lru := lru }
  | none => do
      let room ← if 0 < store.capacity ∧ store.cache.size = store.capacity then store.evictLastLive else pure store
      pure { room with
        lru := room.lru.pushFront (key, value)
        cache := room.cache.emplace key room.lru.next }

/-- The loop of `set_capacity` with the strict eviction. -/
def trimLive (capacity : Int) : Nat → LRUCache K V → Exec (LRUCache K V)
  | 0, _ => throw .divergence
  | fuel + 1, store =>
      if 0 < capacity ∧ capacity < store.cache.size then do
        let evicted ← store.evictLastLive
        trimLive capacity fuel evicted
      else pure store

def setCapacityLive (store : LRUCache K V) (capacity : Int) : Exec (Int × LRUCache K V) :=
  if capacity < 0 then pure (-1, store)
  else do
    let trimmed ← trimLive capacity (store.lru.entries.length + 1) { store with capacity := capacity }
    pure (0, trimmed)

/-- A call where every read through an erased iterator is a fault. `get` and `remove` check every iterator already. -/
def actLive (store : LRUCache K V) : Action K V → Exec (Unit × LRUCache K V)
  | .get key => do
      let (_, store) ← store.get key
      pure ((), store)
  | .put key value => do
      let store ← store.putLive key value
      pure ((), store)
  | .remove key => do
      let store ← store.remove key
      pure ((), store)
  | .setCapacity capacity => do
      let (_, store) ← store.setCapacityLive capacity
      pure ((), store)

end LRUCache

end MySkipList
