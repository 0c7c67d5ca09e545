/-
This file states the purpose of the list: a bounded set of scored elements that gives up its least
recently used pair. The state is the list of the pairs from the most to the least recently used.
-/

import MySkipList.Construction.Persistence
import MySkipList.Foundation.Recency

namespace MySkipList

open Foundation

/-- A call whose result a client of the list sees. -/
inductive Call where
  | insertElement (ele : Str) (score : CInt) (draws : List Nat)
  | deleteElement (ele : Str)
  | searchElement (ele : Str)
  | length
  | save

inductive Answer where
  | number (value : Int)
  | text (written : Str)
  deriving DecidableEq

namespace BoundedSet

section Operations
variable {K V : Type} [LinearOrder K] [LinearOrder V]

/-- The pairs in increasing order of their score and, for one score, of their element. -/
def sorted (pairs : List (K × V)) : List (K × V) :=
  ((pairs.map fun pair => toLex (pair.2, pair.1)).insertionSort (· ≤ ·)).map fun key => ((ofLex key).2, (ofLex key).1)

def insertElement (capacity : Int) (pairs : List (K × V)) (ele : K) (score : V) : Int × List (K × V) :=
  match pairs.lookup ele with
  | some _ => (0, (ele, score) :: forget ele pairs)
  | none => (1, (ele, score) :: makeRoom capacity pairs)

def deleteElement (pairs : List (K × V)) (ele : K) : Int × List (K × V) :=
  match pairs.lookup ele with
  | some _ => (1, forget ele pairs)
  | none => (0, pairs)

def searchElement (toInt : V → Int) (pairs : List (K × V)) (ele : K) : Int × List (K × V) :=
  match pairs.lookup ele with
  | some score => (toInt score, (ele, score) :: forget ele pairs)
  | none => (-1, pairs)

end Operations

/-- One call. The cardinality is answered through the given conversion. -/
def invoke (convert : Nat → Int) (capacity : Int) (pairs : List (Str × CInt)) : Call → Answer × List (Str × CInt)
  | .insertElement ele score _ =>
      let result := insertElement capacity pairs ele score
      (.number result.1, result.2)
  | .deleteElement ele =>
      let result := deleteElement pairs ele
      (.number result.1, result.2)
  | .searchElement ele =>
      let result := searchElement Subtype.val pairs ele
      (.number result.1, result.2)
  | .length => (.number (convert pairs.length), pairs)
  | .save => (.text ((sorted pairs).flatMap fun pair => SkipList.dumpLine pair.1 pair.2), pairs)

end BoundedSet

end MySkipList
