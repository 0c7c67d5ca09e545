/-
This file models `work_queue.h` and `thread_pool.h`. Every section under a mutex is one step, and the
scheduler chooses who takes the next step. Submitted work is numbered in the order of its submission.
-/

import MySkipList.Foundation.Execution

namespace MySkipList

open Foundation

structure WorkQueue (T : Type) where
  workQueue : List T

namespace WorkQueue
variable {T : Type}

def empty (queue : WorkQueue T) : Bool := queue.workQueue.isEmpty

def pushQueue (queue : WorkQueue T) (t : T) : WorkQueue T := ⟨queue.workQueue ++ [t]⟩

/-- The reference parameter keeps its value when the queue is empty. -/
def popQueue (queue : WorkQueue T) (t : Option T) : Bool × Option T × WorkQueue T :=
  match queue.workQueue with
  | [] => (false, t, queue)
  | front :: rest => (true, some front, ⟨rest⟩)

end WorkQueue

/-- The places in the function of a worker: the loop condition, the lock, the predicate of `wait`, the wait
itself, `PopQueue`, the unlock at the end of the loop body, the code after the loop, and the end. -/
inductive Phase where
  | testing
  | locking
  | checking
  | waiting
  | popping
  | unlocking
  | leaving
  | exited
  deriving DecidableEq

/-- A worker with its local variables. An empty `std::function` is `none`. -/
structure WorkThread where
  phase : Phase
  function : Option Nat
  popQueue : Bool

/-- What a worker does with work, and its end. -/
inductive WorkEvent where
  | popped (work : Nat)
  | called (work : Nat)
  | exited
  deriving DecidableEq

structure ThreadPool (threadNumber : Nat) where
  isShutdown : Bool
  workQueue : WorkQueue Nat
  submitted : Nat
  conditionalMutex : Option (Fin threadNumber)
  workThreads : Fin threadNumber → WorkThread

namespace ThreadPool
variable {threadNumber : Nat}

/-- Every worker starts before its loop with a `pop_queue` that has no initial value. -/
def new (uninitialized : Fin threadNumber → Bool) : ThreadPool threadNumber :=
  ⟨false, ⟨[]⟩, 0, none, fun worker => ⟨.testing, none, uninitialized worker⟩⟩

def submitWork (pool : ThreadPool threadNumber) : ThreadPool threadNumber :=
  { pool with workQueue := pool.workQueue.pushQueue pool.submitted, submitted := pool.submitted + 1 }

/-- `Shutdown` sets the flag before it waits for the workers. -/
def shutdown (pool : ThreadPool threadNumber) : ThreadPool threadNumber := { pool with isShutdown := true }

def place (pool : ThreadPool threadNumber) (worker : Fin threadNumber) (thread : WorkThread) : ThreadPool threadNumber :=
  { pool with workThreads := Function.update pool.workThreads worker thread }

/-- One step of a worker. It calls its function only after the loop, and a wait may end at any time. -/
def workThread (pool : ThreadPool threadNumber) (worker : Fin threadNumber) :
    Exec (List (Fin threadNumber × WorkEvent) × ThreadPool threadNumber) :=
  let thread := pool.workThreads worker
  match thread.phase with
  | .testing => pure ([], pool.place worker { thread with phase := if pool.isShutdown then .leaving else .locking })
  | .locking =>
      if pool.conditionalMutex = none then
        pure ([], { pool.place worker { thread with phase := .checking } with conditionalMutex := some worker })
      else pure ([], pool)
  | .checking =>
      if pool.workQueue.empty then
        pure ([], { pool.place worker { thread with phase := .waiting } with conditionalMutex := none })
      else pure ([], pool.place worker { thread with phase := .popping })
  | .waiting => pure ([], pool.place worker { thread with phase := .locking })
  | .popping =>
      let (popQueue, function, queue) := pool.workQueue.popQueue thread.function
      pure (if popQueue then function.toList.map fun work => (worker, .popped work) else [],
        { pool.place worker ⟨.unlocking, function, popQueue⟩ with workQueue := queue })
  | .unlocking => pure ([], { pool.place worker { thread with phase := .testing } with conditionalMutex := none })
  | .leaving =>
      if thread.popQueue then
        match thread.function with
        | none => throw .uncaughtException
        | some work =>
            pure ([(worker, .called work), (worker, .exited)], pool.place worker { thread with phase := .exited })
      else pure ([(worker, .exited)], pool.place worker { thread with phase := .exited })
  | .exited => pure ([], pool)

/-- The scheduler lets a client submit work, the owner shut the pool down, or a worker take a step. -/
inductive Action (threadNumber : Nat) where
  | submitWork
  | shutdown
  | workThread (worker : Fin threadNumber)

def step (pool : ThreadPool threadNumber) :
    Action threadNumber → Exec (List (Fin threadNumber × WorkEvent) × ThreadPool threadNumber)
  | .submitWork => pure ([], pool.submitWork)
  | .shutdown => pure ([], pool.shutdown)
  | .workThread worker => pool.workThread worker

end ThreadPool

end MySkipList
