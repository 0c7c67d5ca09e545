/-
This file models the nodes of `skiplist.h` and the accesses to their fields.
-/

import MySkipList.Foundation.Heap

namespace MySkipList

open Foundation

abbrev UnsignedInt := BitVec 32

/-- The arrays `forward_` and `span_` have `level_` cells. -/
@[ext] structure SkipListNode (K V : Type) where
  level : Nat
  backward : Option Ref
  forward : Nat → Option Ref
  span : Nat → UnsignedInt
  ele : K
  score : V

namespace SkipListNode
variable {K V : Type}

/-- The constructor clears both arrays. -/
def new (ele : K) (score : V) (level : Nat) : SkipListNode K V :=
  ⟨level, none, fun _ => none, fun _ => 0, ele, score⟩

/-- The search passes a node that is smaller in its score, or equal in its score and smaller
in its element. -/
def Precedes [LT K] [LT V] (node : SkipListNode K V) (ele : K) (score : V) : Prop :=
  node.score < score ∨ (score = node.score ∧ node.ele < ele)

instance [LinearOrder K] [LinearOrder V] (node : SkipListNode K V) (ele : K) (score : V) :
    Decidable (node.Precedes ele score) := inferInstanceAs (Decidable (_ ∨ _))

end SkipListNode

section Accesses
variable {K V : Type}

/-- An access to an array cell needs a live node and an index below its level. -/
def checked (heap : Heap (SkipListNode K V)) (ref : Ref) (level : Nat) : Exec (SkipListNode K V) := do
  let node ← heap.read ref
  if level < node.level then pure node else throw .outOfBounds

def loadForward (heap : Heap (SkipListNode K V)) (ref : Ref) (level : Nat) : Exec (Option Ref) := do
  let node ← checked heap ref level
  pure (node.forward level)

def loadSpan (heap : Heap (SkipListNode K V)) (ref : Ref) (level : Nat) : Exec UnsignedInt := do
  let node ← checked heap ref level
  pure (node.span level)

def storeForward (heap : Heap (SkipListNode K V)) (ref : Ref) (level : Nat) (target : Option Ref) :
    Exec (Heap (SkipListNode K V)) := do
  let _ ← checked heap ref level
  pure (heap.modify ref fun node => { node with forward := Function.update node.forward level target })

def storeSpan (heap : Heap (SkipListNode K V)) (ref : Ref) (level : Nat) (steps : UnsignedInt) :
    Exec (Heap (SkipListNode K V)) := do
  let _ ← checked heap ref level
  pure (heap.modify ref fun node => { node with span := Function.update node.span level steps })

def storeBackward (heap : Heap (SkipListNode K V)) (ref : Ref) (target : Option Ref) :
    Exec (Heap (SkipListNode K V)) := do
  let _ ← heap.read ref
  pure (heap.modify ref fun node => { node with backward := target })

end Accesses

end MySkipList
