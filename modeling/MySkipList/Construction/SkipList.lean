/-
This file models the skip list of `skiplist.h`. Every loop over pointers carries a turn bound of
one more than the allocations so far. A loop that exceeds it has met a node twice and never ends.
-/

import MySkipList.Construction.LRUCache
import MySkipList.Construction.SkipListNode
import MySkipList.Foundation.Buffer

namespace MySkipList

open Foundation

structure SkipList (K V : Type) where
  heap : Heap (SkipListNode K V)
  header : Ref
  tail : Option Ref
  length : UnsignedInt
  level : Nat
  maxLevel : Nat
  maxCapacity : Int
  nodeMap : Dictionary K Ref
  lruCache : LRUCache K V

namespace SkipList
variable {K V : Type} [LinearOrder K] [LinearOrder V]

/-- The header takes an empty element and the value of an uninitialized variable. -/
def new [Inhabited K] (maxLevel : Nat) (maxCapacity : Int) (uninitialized : V) : Exec (SkipList K V) := do
  let (_, lruCache) ← LRUCache.new.setCapacity maxCapacity
  pure
    { heap := Heap.empty.alloc (SkipListNode.new default uninitialized maxLevel)
      header := (Heap.empty : Heap (SkipListNode K V)).next
      tail := none
      length := 0
      level := 0
      maxLevel := maxLevel
      maxCapacity := maxCapacity
      nodeMap := ∅
      lruCache := lruCache }

/-- The turn bound of the pointer loops. -/
def turns (list : SkipList K V) : Nat := list.heap.next + 1

/-- The draws are the values of `random()` in one call. The level grows by one for each leading
draw whose low sixteen bits are below half of their range. -/
def getRandomLevel (maxLevel : Nat) (draws : List Nat) : Nat :=
  let level := 1 + (draws.takeWhile fun draw => 2 * (draw &&& 0xFFFF) < 0xFFFF).length
  if level < maxLevel then level else maxLevel

/-- The inner search loop of `DeleteElement`. -/
def seek (heap : Heap (SkipListNode K V)) (level : Nat) (ele : K) (score : V) : Nat → Ref → Exec Ref
  | 0, _ => throw .divergence
  | fuel + 1, curr => do
      match ← loadForward heap curr level with
      | none => pure curr
      | some next => do
          let node ← heap.read next
          if node.Precedes ele score then seek heap level ele score fuel next else pure curr

/-- The local variables of the search in `DeleteElement`. A node that is not set yet is null. -/
structure DeletePath where
  curr : Ref
  update : Buffer (Option Ref)
  node : Option Ref
  level : Nat

/-- The outer search loop of `DeleteElement`. -/
def searchDelete (heap : Heap (SkipListNode K V)) (ele : K) (score : V) (maxLevel fuel : Nat) :
    Nat → DeletePath → Exec DeletePath
  | 0, path => pure path
  | curLevel + 1, path => do
      let curr ← seek heap curLevel ele score fuel path.curr
      let update ← path.update.write curLevel (some curr)
      let node ← loadForward heap curr curLevel
      let found ← match node with
        | none => pure false
        | some ref => do
            let stored ← heap.read ref
            pure (decide (stored.ele = ele ∧ stored.score = score ∧ path.level = maxLevel))
      searchDelete heap ele score maxLevel fuel curLevel
        ⟨curr, update, node, if found then curLevel else path.level⟩

/-- The unlink loop of `DeleteElement`, from level `i` on. -/
def unlinkLevels (update : Buffer (Option Ref)) (node : Option Ref) :
    Nat → Nat → Heap (SkipListNode K V) → Option Ref → Exec (Heap (SkipListNode K V) × Option Ref)
  | 0, _, heap, tail => pure (heap, tail)
  | remaining + 1, i, heap, tail => do
      let ref ← deref node
      let next ← loadForward heap ref i
      let pred ← deref (← update.read i)
      match next with
      | none => do
          let heap ← storeSpan heap pred i 0
          let heap ← storeForward heap pred i none
          unlinkLevels update node remaining (i + 1) heap (if i = 0 then some pred else tail)
      | some next => do
          let old ← loadSpan heap pred i
          let span ← loadSpan heap ref i
          let heap ← storeSpan heap pred i (old + (span - 1))
          let heap ← storeForward heap pred i (some next)
          let heap ← if i = 0 then storeBackward heap next (some pred) else pure heap
          unlinkLevels update node remaining (i + 1) heap tail

/-- The body that `DeleteElement` and `DeleteElementInLock` share; only the first takes the mutex. -/
def deleteBody (list : SkipList K V) (ele : K) : Exec (Int × SkipList K V) :=
  match list.nodeMap.lookup ele with
  | none => pure (0, list)
  | some it => do
      let stored ← list.heap.read it
      let path ← searchDelete list.heap ele stored.score list.maxLevel list.turns list.level
        ⟨list.header, .filled list.maxLevel none, none, list.maxLevel⟩
      let (heap, tail) ← unlinkLevels path.update path.node (path.level + 1) 0 list.heap list.tail
      let lruCache ← list.lruCache.remove ele
      let heap ← heap.free (← deref path.node)
      pure (1, { list with
        heap := heap
        tail := tail
        nodeMap := list.nodeMap.erase ele
        lruCache := lruCache
        length := list.length - 1 })

def deleteElementInLock (list : SkipList K V) (ele : K) : Exec (Int × SkipList K V) := list.deleteBody ele

def deleteElement (list : SkipList K V) (ele : K) : Exec (Int × SkipList K V) := list.deleteBody ele

/-- The inner search loop of `InsertElement` also adds the spans that it passes. -/
def advance (heap : Heap (SkipListNode K V)) (level : Nat) (ele : K) (score : V) :
    Nat → Ref → UnsignedInt → Exec (Ref × UnsignedInt)
  | 0, _, _ => throw .divergence
  | fuel + 1, curr, rank => do
      match ← loadForward heap curr level with
      | none => pure (curr, rank)
      | some next => do
          let node ← heap.read next
          if node.Precedes ele score then do
            let span ← loadSpan heap curr level
            advance heap level ele score fuel next (rank + span)
          else pure (curr, rank)

/-- The local variables of the search in `InsertElement`. -/
structure InsertPath where
  curr : Ref
  update : Buffer (Option Ref)
  rank : Buffer UnsignedInt

/-- The outer search loop of `InsertElement`. A level starts its rank at zero and does not
take over the rank of the level above it. -/
def searchInsert (heap : Heap (SkipListNode K V)) (ele : K) (score : V) (fuel : Nat) :
    Nat → InsertPath → Exec InsertPath
  | 0, path => pure path
  | curLevel + 1, path => do
      let start ← path.rank.read curLevel
      let (curr, steps) ← advance heap curLevel ele score fuel path.curr start
      let rank ← path.rank.write curLevel steps
      let update ← path.update.write curLevel (some curr)
      searchInsert heap ele score fuel curLevel ⟨curr, update, rank⟩

/-- The link loop of `InsertElement`, from level `i` on. It leaves in `next` the successor on the
highest level of the new node. -/
def linkLevels (update : Buffer (Option Ref)) (node : Ref) :
    Nat → Nat → Heap (SkipListNode K V) → Option Ref → Exec (Heap (SkipListNode K V) × Option Ref)
  | 0, _, heap, next => pure (heap, next)
  | remaining + 1, i, heap, _ => do
      let pred ← deref (← update.read i)
      let next ← loadForward heap pred i
      let heap ← storeForward heap pred i (some node)
      let heap ← storeForward heap node i next
      linkLevels update node remaining (i + 1) heap next

/-- The span loop of `InsertElement`, from level `i` on. -/
def spanLevels (update : Buffer (Option Ref)) (rank : Buffer UnsignedInt) :
    Nat → Nat → Heap (SkipListNode K V) → Exec (Heap (SkipListNode K V))
  | 0, _, heap => pure heap
  | remaining + 1, i, heap => do
      let pred ← deref (← update.read i)
      let old ← loadSpan heap pred i
      let base ← rank.read 0
      let steps ← rank.read i
      let node ← deref (← loadForward heap pred i)
      let heap ← storeSpan heap node i (old - (base - steps))
      let heap ← storeSpan heap pred i (base - steps + 1)
      spanLevels update rank remaining (i + 1) heap

/-- The new node becomes the tail, or the node that the link loop left in `next` points back to it. -/
def linkNext (node : Ref) (next tail : Option Ref) (heap : Heap (SkipListNode K V)) :
    Exec (Heap (SkipListNode K V) × Option Ref) :=
  match next with
  | some next => do
      let heap ← storeBackward heap next (some node)
      pure (heap, tail)
  | none => pure (heap, some node)

/-- The middle part of `InsertElement` searches the position and links the new node there. -/
def linkNode (list : SkipList K V) (ele : K) (score : V) (draws : List Nat) : Exec (SkipList K V) := do
  let path ← searchInsert list.heap ele score list.turns list.maxLevel
    ⟨list.header, .filled list.maxLevel none, .filled list.maxLevel 0⟩
  let level := getRandomLevel list.maxLevel draws
  let node := list.heap.next
  let heap := list.heap.alloc (SkipListNode.new ele score level)
  let (heap, next) ← linkLevels path.update node level 0 heap none
  let (heap, tail) ← linkNext node next list.tail heap
  let heap ← storeBackward heap node (if path.curr ≠ list.header then some path.curr else none)
  let heap ← spanLevels path.update path.rank level 0 heap
  pure { list with
    heap := heap
    tail := tail
    level := max level list.level
    length := list.length + 1
    nodeMap := list.nodeMap.emplace ele node }

/-- The loop over `delete_keys` at the end of `InsertElement`. -/
def deleteQueued : List K → SkipList K V → Exec (SkipList K V)
  | [], list => pure list
  | key :: rest, list => do
      let (_, list) ← list.deleteElementInLock key
      deleteQueued rest list

/-- The part of `InsertElement` after the test for an existing element. -/
def insertFresh (list : SkipList K V) (ele : K) (score : V) (draws : List Nat) : Exec (SkipList K V) := do
  let list ← list.linkNode ele score draws
  let lruCache ← list.lruCache.put ele score
  let list ← deleteQueued lruCache.deleteKeys { list with lruCache := lruCache }
  pure { list with lruCache := { list.lruCache with deleteKeys := [] } }

/-- An element with an equal score returns early; one with another score is deleted first. -/
def insertElement (list : SkipList K V) (ele : K) (score : V) (draws : List Nat) :
    Exec (Int × SkipList K V) :=
  match list.nodeMap.lookup ele with
  | none => do
      let list ← list.insertFresh ele score draws
      pure (1, list)
  | some it => do
      let stored ← list.heap.read it
      if stored.score = score then do
        let (_, lruCache) ← list.lruCache.get ele
        pure (0, { list with lruCache := lruCache })
      else do
        let (_, list) ← list.deleteElementInLock ele
        let list ← list.insertFresh ele score draws
        pure (0, list)

/-- `SearchElement` converts the score to an `int`. A miss returns -1. -/
def searchElement (toInt : V → Int) (list : SkipList K V) (ele : K) : Exec (Int × SkipList K V) :=
  match list.nodeMap.lookup ele with
  | none => pure (-1, list)
  | some it => do
      let (_, lruCache) ← list.lruCache.get ele
      let stored ← list.heap.read it
      pure (toInt stored.score, { list with lruCache := lruCache })

/-- The loop over the nodes of one level in `DisplayList`, `DumpFile` and `Save`. -/
def walkLevel (heap : Heap (SkipListNode K V)) (level : Nat) : Nat → Option Ref → Exec (List (K × V))
  | 0, _ => throw .divergence
  | _ + 1, none => pure []
  | fuel + 1, some node => do
      let stored ← heap.read node
      let next ← loadForward heap node level
      let rest ← walkLevel heap level fuel next
      pure ((stored.ele, stored.score) :: rest)

/-- The members of the lowest level in their order, as `DumpFile` and `Save` visit them. -/
def members (list : SkipList K V) : Exec (List (K × V)) := do
  let node ← loadForward list.heap list.header 0
  walkLevel list.heap 0 list.turns node

/-- `DisplayList` prints every level. -/
def displayList (list : SkipList K V) : Exec (List (List (K × V))) :=
  (List.range list.maxLevel).mapM fun level => do
    let node ← loadForward list.heap list.header level
    walkLevel list.heap level list.turns node

/-- `SetMaxMemory` reads the configured maximum. -/
def setMaxMemory (list : SkipList K V) (maxMemory : Int) : Exec (Int × SkipList K V) := do
  let (_, lruCache) ← list.lruCache.setCapacity maxMemory
  pure (0, { list with lruCache := lruCache })

/-- `Length` converts the unsigned counter to a signed integer. -/
def lengthOf (list : SkipList K V) : Int := list.length.toInt

/-- A call that changes the list, with its arguments. An insertion has the random draws of its level,
and `SetMaxMemory` the maximum that is configured at this moment. -/
inductive Operation (K V : Type) where
  | insertElement (ele : K) (score : V) (draws : List Nat)
  | deleteElement (ele : K)
  | searchElement (ele : K)
  | setMaxMemory (maxMemory : Int)

def operate (toInt : V → Int) (list : SkipList K V) : Operation K V → Exec (Int × SkipList K V)
  | .insertElement ele score draws => list.insertElement ele score draws
  | .deleteElement ele => list.deleteElement ele
  | .searchElement ele => list.searchElement toInt ele
  | .setMaxMemory maxMemory => list.setMaxMemory maxMemory

/-- A history constructs a list and runs the operations on it. -/
def history [Inhabited K] (toInt : V → Int) (maxLevel : Nat) (maxCapacity : Int) (uninitialized : V)
    (operations : List (Operation K V)) : Exec (List Int × SkipList K V) := do
  let list ← new maxLevel maxCapacity uninitialized
  run (operate toInt) list operations

/-- The loop of the destructor releases the nodes from the tail along the backward pointers. -/
def releaseNodes : Nat → Option Ref → Heap (SkipListNode K V) → Exec (Heap (SkipListNode K V))
  | 0, _, _ => throw .divergence
  | _ + 1, none, heap => pure heap
  | fuel + 1, some curr, heap => do
      let node ← heap.read curr
      let heap ← heap.free curr
      releaseNodes fuel node.backward heap

/-- The destructor releases the header after the nodes. -/
def destroy (list : SkipList K V) : Exec (Heap (SkipListNode K V)) := do
  let heap ← releaseNodes list.turns list.tail list.heap
  heap.free list.header

end SkipList

end MySkipList
