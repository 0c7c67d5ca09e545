import MySkipList.Construction.ThreadPool

namespace MySkipList

open Foundation

/-- Each popped work is called once before the worker pops again or exits, and nothing else is called. -/
def WorkEvent.Paired : List WorkEvent → Prop
  | [] => True
  | [.popped _] => True
  | .popped work :: .called other :: rest => work = other ∧ Paired rest
  | .exited :: rest => Paired rest
  | _ => False

namespace ThreadPool
variable {threadNumber : Nat} {pool next : ThreadPool threadNumber}

/-- What one worker has done. -/
def eventsOf (worker : Fin threadNumber) (trace : List (Fin threadNumber × WorkEvent)) : List WorkEvent :=
  (trace.filter fun event => event.1 = worker).map Prod.snd

/-- The work that the workers have popped, in the order of their pops. -/
def poppedWork (trace : List (Fin threadNumber × WorkEvent)) : List Nat :=
  trace.filterMap fun event => match event.2 with
    | .popped work => some work
    | _ => none

/-- Every worker calls what it pops, and no work is popped twice. -/
structure KeepsWork (trace : List (Fin threadNumber × WorkEvent)) : Prop where
  paired : ∀ worker, WorkEvent.Paired (eventsOf worker trace)
  once : (poppedWork trace).Nodup

/-- A worker that has popped work finds the pool shut down when it tests its loop condition. -/
def Final (pool : ThreadPool threadNumber) : Action threadNumber → Prop
  | .workThread worker => (pool.workThreads worker).phase = .testing → (pool.workThreads worker).function ≠ none →
      pool.isShutdown = true
  | _ => True

instance (pool : ThreadPool threadNumber) (action : Action threadNumber) : Decidable (Final pool action) :=
  match action with
  | .submitWork => .isTrue trivial
  | .shutdown => .isTrue trivial
  | .workThread _ => inferInstanceAs (Decidable (_ → _ → _))

/-- The events of a worker that pops at most once. -/
def expected (thread : WorkThread) : List WorkEvent :=
  match thread.function with
  | none => if thread.phase = .exited then [.exited] else []
  | some work => if thread.phase = .exited then [.popped work, .called work, .exited] else [.popped work]

theorem expected_paired (thread : WorkThread) : WorkEvent.Paired (expected thread) := by
  unfold expected
  split <;> split <;> simp [WorkEvent.Paired]

/-- A worker with popped work is past its pop and knows that it popped. -/
def Settled (thread : WorkThread) : Prop :=
  thread.function ≠ none → thread.popQueue = true ∧ (thread.phase = .unlocking ∨ thread.phase = .testing ∨
    thread.phase = .leaving ∨ thread.phase = .exited)

/-- Between its loop condition and its pop a worker holds no work. -/
theorem Settled.empty {thread : WorkThread} (settled : Settled thread)
    (early : thread.phase ∈ [.locking, .checking, .waiting, .popping]) : thread.function = none := by
  by_contra held
  rcases (settled held).2 with later | later | later | later <;> simp [later] at early

/-- The trace tells what the workers hold, and the popped work and the queue are the submitted work in its order. -/
structure Accounts (trace : List (Fin threadNumber × WorkEvent)) (pool : ThreadPool threadNumber) : Prop where
  events : ∀ worker, eventsOf worker trace = expected (pool.workThreads worker)
  settled : ∀ worker, Settled (pool.workThreads worker)
  ordered : poppedWork trace ++ pool.workQueue.workQueue = List.range pool.submitted

theorem Accounts.keepsWork {trace : List (Fin threadNumber × WorkEvent)} (accounts : Accounts trace pool) :
    KeepsWork trace := by
  constructor
  · intro worker
    rw [accounts.events]
    exact expected_paired _
  · have distinct := List.nodup_range (n := pool.submitted)
    rw [← accounts.ordered] at distinct
    exact distinct.sublist (List.sublist_append_left ..)

section Steps
variable {trace : List (Fin threadNumber × WorkEvent)} {worker : Fin threadNumber}

theorem eventsOf_append (worker : Fin threadNumber) (first second : List (Fin threadNumber × WorkEvent)) :
    eventsOf worker (first ++ second) = eventsOf worker first ++ eventsOf worker second := by
  simp [eventsOf]

/-- The events of a step belong to the worker that takes it. -/
theorem eventsOf_own (query worker : Fin threadNumber) (events : List WorkEvent) :
    eventsOf query (events.map (Prod.mk worker)) = if query = worker then events else [] := by
  by_cases same : query = worker
  · subst same
    induction events <;> simp_all [eventsOf]
  · rw [if_neg same]
    simp [eventsOf, Ne.symm same]

theorem poppedWork_append (first second : List (Fin threadNumber × WorkEvent)) :
    poppedWork (first ++ second) = poppedWork first ++ poppedWork second :=
  List.filterMap_append

/-- A step of one worker that extends its expected events keeps the account. -/
theorem Accounts.advance (accounts : Accounts trace pool) {thread : WorkThread} (events : List WorkEvent)
    {queue : WorkQueue Nat} (mutex : Option (Fin threadNumber))
    (told : expected thread = expected (pool.workThreads worker) ++ events) (settled : Settled thread)
    (queued : poppedWork (events.map (Prod.mk worker)) ++ queue.workQueue = pool.workQueue.workQueue) :
    Accounts (trace ++ events.map (Prod.mk worker))
      { pool.place worker thread with workQueue := queue, conditionalMutex := mutex } := by
  refine ⟨?_, ?_, ?_⟩
  · intro query
    rw [eventsOf_append, accounts.events, eventsOf_own]
    by_cases same : query = worker
    · subst same
      simp [place, told]
    · simp [place, same]
  · intro query
    by_cases same : query = worker
    · subst same
      simpa [place] using settled
    · simpa [place, same] using accounts.settled query
  · rw [poppedWork_append, List.append_assoc, queued]
    exact accounts.ordered

/-- A step of a worker without events keeps the account. -/
theorem Accounts.move (accounts : Accounts trace pool) {thread : WorkThread} (mutex : Option (Fin threadNumber))
    (told : expected thread = expected (pool.workThreads worker)) (settled : Settled thread) :
    Accounts (trace ++ []) { pool.place worker thread with conditionalMutex := mutex } :=
  accounts.advance [] mutex (by simpa using told) settled rfl

theorem Accounts.worked (accounts : Accounts trace pool) (final : Final pool (.workThread worker))
    {events : List (Fin threadNumber × WorkEvent)} (stepped : pool.workThread worker = .ok (events, next)) :
    Accounts (trace ++ events) next := by
  have settled := accounts.settled worker
  -- Without popped work a worker may be anywhere.
  have free {thread : WorkThread} (none : thread.function = none) : Settled thread := fun held => absurd none held
  cases phase : (pool.workThreads worker).phase with
  | testing =>
      simp only [workThread, phase] at stepped
      obtain ⟨rfl, rfl⟩ := Prod.mk.inj (Except.ok.inj stepped)
      refine accounts.move pool.conditionalMutex ?_ ?_
      · cases pool.isShutdown <;> simp [expected, phase]
      · intro held
        rw [final phase held]
        exact ⟨(settled held).1, by simp⟩
  | locking =>
      have none := settled.empty (by simp [phase])
      simp only [workThread, phase] at stepped
      split at stepped
      · obtain ⟨rfl, rfl⟩ := Prod.mk.inj (Except.ok.inj stepped)
        exact accounts.move (some worker) (by simp [expected, phase]) (free none)
      · obtain ⟨rfl, rfl⟩ := Prod.mk.inj (Except.ok.inj stepped)
        rwa [List.append_nil]
  | checking =>
      have none := settled.empty (by simp [phase])
      simp only [workThread, phase] at stepped
      split at stepped
      · obtain ⟨rfl, rfl⟩ := Prod.mk.inj (Except.ok.inj stepped)
        exact accounts.move Option.none (by simp [expected, phase]) (free none)
      · obtain ⟨rfl, rfl⟩ := Prod.mk.inj (Except.ok.inj stepped)
        exact accounts.move pool.conditionalMutex (by simp [expected, phase]) (free none)
  | waiting =>
      have none := settled.empty (by simp [phase])
      simp only [workThread, phase] at stepped
      obtain ⟨rfl, rfl⟩ := Prod.mk.inj (Except.ok.inj stepped)
      exact accounts.move pool.conditionalMutex (by simp [expected, phase]) (free none)
  | popping =>
      have none := settled.empty (by simp [phase])
      simp only [workThread, phase, none] at stepped
      cases queue : pool.workQueue.workQueue with
      | nil =>
          simp only [WorkQueue.popQueue, queue] at stepped
          obtain ⟨rfl, rfl⟩ := Prod.mk.inj (Except.ok.inj stepped)
          exact accounts.move pool.conditionalMutex (by simp [expected, phase, none]) (free rfl)
      | cons front rest =>
          simp only [WorkQueue.popQueue, queue] at stepped
          obtain ⟨rfl, rfl⟩ := Prod.mk.inj (Except.ok.inj stepped)
          refine accounts.advance [.popped front] pool.conditionalMutex ?_ (fun _ => ⟨rfl, Or.inl rfl⟩) ?_
          · simp [expected, phase, none]
          · rw [queue]
            rfl
  | unlocking =>
      simp only [workThread, phase] at stepped
      obtain ⟨rfl, rfl⟩ := Prod.mk.inj (Except.ok.inj stepped)
      exact accounts.move Option.none (by simp [expected, phase]) fun held => ⟨(settled held).1, by simp⟩
  | leaving =>
      simp only [workThread, phase] at stepped
      split at stepped
      · split at stepped
        · simp at stepped
        · rename_i work function
          obtain ⟨rfl, rfl⟩ := Prod.mk.inj (Except.ok.inj stepped)
          refine accounts.advance [.called work, .exited] pool.conditionalMutex ?_ ?_ rfl
          · simp [expected, phase, function]
          · exact fun held => ⟨(settled held).1, by simp⟩
      · rename_i unpopped
        have none : (pool.workThreads worker).function = none := by
          by_contra held
          exact unpopped (settled held).1
        obtain ⟨rfl, rfl⟩ := Prod.mk.inj (Except.ok.inj stepped)
        exact accounts.advance [.exited] pool.conditionalMutex (by simp [expected, phase, none]) (free none) rfl
  | exited =>
      simp only [workThread, phase] at stepped
      obtain ⟨rfl, rfl⟩ := Prod.mk.inj (Except.ok.inj stepped)
      rwa [List.append_nil]

theorem Accounts.stepped (accounts : Accounts trace pool) {action : Action threadNumber} (final : Final pool action)
    {events : List (Fin threadNumber × WorkEvent)} (stepped : pool.step action = .ok (events, next)) :
    Accounts (trace ++ events) next := by
  cases action with
  | submitWork =>
      obtain ⟨rfl, rfl⟩ := Prod.mk.inj (Except.ok.inj stepped)
      rw [List.append_nil]
      refine ⟨accounts.events, accounts.settled, ?_⟩
      show poppedWork trace ++ (pool.workQueue.workQueue ++ [pool.submitted]) = List.range (pool.submitted + 1)
      rw [← List.append_assoc, accounts.ordered, List.range_succ]
  | shutdown =>
      obtain ⟨rfl, rfl⟩ := Prod.mk.inj (Except.ok.inj stepped)
      rw [List.append_nil]
      exact ⟨accounts.events, accounts.settled, accounts.ordered⟩
  | workThread worker => exact accounts.worked final stepped

end Steps

/-- In every run in which a worker with popped work finds the pool shut down at its loop condition, each worker calls
what it pops before it pops again or exits, and no work is popped twice. -/
theorem run_keepsWork (uninitialized : Fin threadNumber → Bool) (actions : List (Action threadNumber))
    (outputs : List (List (Fin threadNumber × WorkEvent))) (pool : ThreadPool threadNumber)
    (final : Meets step Final (ThreadPool.new uninitialized) actions)
    (returned : run step (ThreadPool.new uninitialized) actions = .ok (outputs, pool)) : KeepsWork outputs.flatten := by
  have accounts := run_outputs_of_meets step Final (fun outputs pool => Accounts outputs.flatten pool)
    (fun past _ _ _ _ accounts final stepped => by
      rw [List.flatten_append, List.flatten_singleton]
      exact accounts.stepped final stepped)
    [] (ThreadPool.new uninitialized) pool actions outputs
    ⟨fun _ => rfl, fun _ held => absurd rfl held, rfl⟩ final returned
  exact accounts.keepsWork

/-- One worker pops the submitted work, finds the pool shut down, and calls the work. -/
theorem run_keepsWork_shutdown :
    ∃ outputs pool, run step (ThreadPool.new fun _ : Fin 1 => false) (.submitWork :: List.replicate 5 (.workThread 0) ++
        .shutdown :: List.replicate 2 (.workThread 0)) = .ok (outputs, pool) ∧
      outputs.flatten = [(0, .popped 0), (0, .called 0), (0, .exited)] ∧ KeepsWork outputs.flatten :=
  ⟨_, _, rfl, rfl, run_keepsWork (fun _ => false) (.submitWork :: List.replicate 5 (.workThread 0) ++
    .shutdown :: List.replicate 2 (.workThread 0)) _ _ (by unfold Meets; decide) rfl⟩

/-- A worker that finds the pool open pops again and loses the work that it has popped before. -/
theorem run_loses_work :
    ∃ outputs pool, run step (ThreadPool.new fun _ : Fin 1 => false)
        (.submitWork :: .submitWork :: List.replicate 9 (.workThread 0)) = .ok (outputs, pool) ∧
      outputs.flatten = [(0, .popped 0), (0, .popped 1)] ∧ ¬ KeepsWork outputs.flatten := by
  refine ⟨_, _, rfl, rfl, ?_⟩
  intro keeps
  have paired : WorkEvent.Paired [.popped 0, .popped 1] := keeps.paired 0
  exact paired

end ThreadPool

end MySkipList
