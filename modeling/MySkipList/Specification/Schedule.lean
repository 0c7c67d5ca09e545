/-
This file states the purpose of the timer: a queue of keys with their deadlines, in the order in which the
deadlines were set. The removal of a key that is not pending is undefined unless the queue is empty.
-/

import MySkipList.Construction.Timer

namespace MySkipList.Schedule

open Foundation

variable {K : Type}

/-- An entry is due when its deadline has come. -/
def due (now : Int) (entry : K × Int) : Bool := entry.2 ≤ now

/-- One call on the pending entries. -/
def operate [DecidableEq K] (pending : List (K × Int)) : Timer.Operation K → Exec (Timer.Reply K × List (K × Int))
  | .push key timeout now => pure (.number 1, pending ++ [(key, now + timeout)])
  | .pop key =>
      if pending = [] then pure (.number (-1), pending)
      else if key ∈ pending.map Prod.fst then pure (.number 0, pending.eraseP fun entry => entry.1 = key)
      else throw .nullPointer
  | .tick now => pure (.keys ((pending.takeWhile (due now)).map Prod.fst), pending.dropWhile (due now))

end MySkipList.Schedule
