/-
This file states the purpose of a list whose capacity changes: a bounded set that forgets its least recently
used pairs late. A pair that loses its place is still found until the next insertion of a new element.
-/

import MySkipList.Construction.SkipList
import MySkipList.Specification.BoundedSet

namespace MySkipList

open Foundation

/-- The pairs that have a place, from the most to the least recently used, the pairs that lost their place, and the
elements that the next insertion of a new element forgets. -/
structure LazySet (K V : Type) where
  recent : List (K × V)
  stale : List (K × V)
  doomed : List K
  capacity : Int

namespace LazySet
variable {K V : Type}

/-- The set of a new list; a negative capacity is rejected. -/
def empty (capacity : Int) : LazySet K V := ⟨[], [], [], if capacity < 0 then 0 else capacity⟩

def members (set : LazySet K V) : List (K × V) := set.recent ++ set.stale

/-- A new capacity takes the place of the least recently used pairs and dooms their elements. -/
def setMaxMemory (set : LazySet K V) (maxMemory : Int) : LazySet K V :=
  if maxMemory < 0 then set
  else {
    recent := retain maxMemory set.recent
    stale := (if 0 < maxMemory then set.recent.drop maxMemory.toNat else []) ++ set.stale
    doomed := set.doomed ++ dropped maxMemory set.recent
    capacity := maxMemory }

section Operations
variable [LinearOrder K] [LinearOrder V]

def find (set : LazySet K V) (ele : K) : Option V := set.members.lookup ele

def use (set : LazySet K V) (ele : K) : LazySet K V := { set with recent := touch ele set.recent }

def remove (set : LazySet K V) (ele : K) : LazySet K V :=
  { set with recent := forget ele set.recent, stale := forget ele set.stale }

/-- A new element takes a place, and the doomed elements are forgotten. A doomed new element is forgotten too. -/
def accept (set : LazySet K V) (ele : K) (score : V) : LazySet K V where
  recent := (if set.doomed.any fun doomed => doomed = ele then [] else [(ele, score)]) ++ makeRoom set.capacity set.recent
  stale := []
  doomed := []
  capacity := set.capacity

def insertElement (set : LazySet K V) (ele : K) (score : V) : Int × LazySet K V :=
  match set.find ele with
  | none => (1, set.accept ele score)
  | some stored => (0, if stored = score then set.use ele else (set.remove ele).accept ele score)

def deleteElement (set : LazySet K V) (ele : K) : Int × LazySet K V :=
  (if (set.find ele).isSome then 1 else 0, set.remove ele)

def searchElement (toInt : V → Int) (set : LazySet K V) (ele : K) : Int × LazySet K V :=
  match set.find ele with
  | none => (-1, set)
  | some score => (toInt score, set.use ele)

/-- The operations that a user of the list calls. -/
def operate (toInt : V → Int) (set : LazySet K V) : SkipList.Operation K V → Int × LazySet K V
  | .insertElement ele score _ => set.insertElement ele score
  | .deleteElement ele => set.deleteElement ele
  | .searchElement ele => set.searchElement toInt ele
  | .setMaxMemory maxMemory => (0, set.setMaxMemory maxMemory)

end Operations

end LazySet

end MySkipList
