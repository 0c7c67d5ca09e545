/-
This file models `timer.h`. The clock is a parameter of the functions that read it, and the deadlines
are far from the bounds of `time_t`.
-/

import MySkipList.Foundation.Heap

namespace MySkipList

open Foundation

structure UtilTimer (K : Type) where
  key : K
  expire : Int
  prev : Option Ref
  next : Option Ref

structure Timer (K : Type) where
  heap : Heap (UtilTimer K)
  head : Option Ref
  tail : Option Ref

namespace Timer
variable {K : Type} [DecidableEq K]

def new : Timer K := ⟨.empty, none, none⟩

/-- The turn bound of the pointer loops. -/
def turns (timer : Timer K) : Nat := timer.heap.next + 1

/-- `Push` appends a deadline and never looks for an older one of the same key. -/
def push (timer : Timer K) (key : K) (timeout now : Int) : Exec (Int × Timer K) :=
  let temp := timer.heap.next
  let heap := timer.heap.alloc ⟨key, now + timeout, none, none⟩
  match timer.head with
  | none => pure (1, ⟨heap, some temp, some temp⟩)
  | some head => do
      let heap ← heap.assign temp fun cell => { cell with prev := timer.tail }
      let last ← deref timer.tail
      let heap ← heap.assign last fun cell => { cell with next := some temp }
      pure (1, ⟨heap, some head, some temp⟩)

/-- The search loop of `Pop`. -/
def find (heap : Heap (UtilTimer K)) (key : K) : Nat → Option Ref → Exec (Option Ref)
  | 0, _ => throw .divergence
  | _ + 1, none => pure none
  | fuel + 1, some temp => do
      let cell ← heap.read temp
      if cell.key = key then pure (some temp) else find heap key fuel cell.next

/-- A key that the list does not hold reaches the last branch with a null pointer. -/
def pop (timer : Timer K) (key : K) : Exec (Int × Timer K) :=
  match timer.head with
  | none => pure (-1, timer)
  | some head => do
      let temp ← find timer.heap key timer.turns (some head)
      if temp = some head ∧ temp = timer.tail then do
        let heap ← timer.heap.free head
        pure (0, ⟨heap, none, none⟩)
      else if temp = some head then do
        let cell ← timer.heap.read head
        let second ← deref cell.next
        let heap ← timer.heap.assign second fun cell => { cell with prev := none }
        let heap ← heap.free head
        pure (0, ⟨heap, some second, timer.tail⟩)
      else if temp = timer.tail then do
        let last ← deref timer.tail
        let cell ← timer.heap.read last
        let before ← deref cell.prev
        let heap ← timer.heap.assign before fun cell => { cell with next := none }
        let heap ← heap.free last
        pure (0, ⟨heap, some head, some before⟩)
      else do
        let ref ← deref temp
        let cell ← timer.heap.read ref
        let before ← deref cell.prev
        let heap ← timer.heap.assign before fun other => { other with next := cell.next }
        let cell ← heap.read ref
        let after ← deref cell.next
        let heap ← heap.assign after fun other => { other with prev := cell.prev }
        let heap ← heap.free ref
        pure (0, ⟨heap, some head, timer.tail⟩)

/-- The loop of `Tick`. It collects the keys of the leading due deadlines and pops them. -/
def tickLoop (now : Int) : Nat → Timer K → Exec (List K × Timer K)
  | 0, _ => throw .divergence
  | fuel + 1, timer =>
      match timer.head with
      | none => pure ([], timer)
      | some head => do
          let cell ← timer.heap.read head
          if now < cell.expire then pure ([], timer)
          else do
            let (_, timer) ← timer.pop cell.key
            let (keys, timer) ← tickLoop now fuel timer
            pure (cell.key :: keys, timer)

def tick (timer : Timer K) (now : Int) : Exec (List K × Timer K) := tickLoop now timer.turns timer

/-- A call of `Push` or `Tick` with the clock that it reads. -/
inductive Action (K : Type) where
  | push (key : K) (timeout now : Int)
  | tick (now : Int)

/-- The keys that the call hands out. -/
def act (timer : Timer K) : Action K → Exec (List K × Timer K)
  | .push key timeout now => do
      let (_, timer) ← timer.push key timeout now
      pure ([], timer)
  | .tick now => timer.tick now

/-- What a call returns: a number, or the keys that `Tick` collects. -/
inductive Reply (K : Type) where
  | number (value : Int)
  | keys (timeoutFds : List K)
  deriving DecidableEq

/-- A call of any operation with the clock that it reads. -/
inductive Operation (K : Type) where
  | push (key : K) (timeout now : Int)
  | pop (key : K)
  | tick (now : Int)

def operate (timer : Timer K) : Operation K → Exec (Reply K × Timer K)
  | .push key timeout now => do
      let (result, timer) ← timer.push key timeout now
      pure (.number result, timer)
  | .pop key => do
      let (result, timer) ← timer.pop key
      pure (.number result, timer)
  | .tick now => do
      let (keys, timer) ← timer.tick now
      pure (.keys keys, timer)

/-- The loop of the destructor releases the deadlines from the head along the forward pointers. -/
def release : Nat → Option Ref → Heap (UtilTimer K) → Exec (Heap (UtilTimer K))
  | 0, _, _ => throw .divergence
  | _ + 1, none, heap => pure heap
  | fuel + 1, some temp, heap => do
      let cell ← heap.read temp
      let heap ← heap.free temp
      release fuel cell.next heap

def destroy (timer : Timer K) : Exec (Heap (UtilTimer K)) := release timer.turns timer.head timer.heap

end Timer

end MySkipList
