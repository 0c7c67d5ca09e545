/-
This file states what one element of an unbounded list is for: a register that holds the score of its last insertion
or nothing.
-/

import MySkipList.Construction.SkipList

namespace MySkipList

open Foundation

/-- A call about one element. -/
inductive Access (K V : Type) where
  | insertElement (ele : K) (score : V) (draws : List Nat)
  | deleteElement (ele : K)
  | searchElement (ele : K)

namespace Access
variable {K V : Type}

def ele : Access K V → K
  | .insertElement ele _ _ => ele
  | .deleteElement ele => ele
  | .searchElement ele => ele

def operation : Access K V → SkipList.Operation K V
  | .insertElement ele score draws => .insertElement ele score draws
  | .deleteElement ele => .deleteElement ele
  | .searchElement ele => .searchElement ele

end Access

namespace Register
variable {K V : Type}

/-- One call on the register. -/
def serve (toInt : V → Int) (register : Option V) : Access K V → Int × Option V
  | .insertElement _ score _ => (if register.isSome then 0 else 1, some score)
  | .deleteElement _ => (if register.isSome then 1 else 0, none)
  | .searchElement _ => (register.elim (-1) toInt, register)

/-- A call reaches the register of its element only. -/
def step [DecidableEq K] (toInt : V → Int) : (K → Option V) → Access K V → Int × (K → Option V) :=
  keyedStep Access.ele (serve toInt)

end Register

end MySkipList
