import MySkipList.Proof.WorkOrder

namespace MySkipList.ThreadPool

open Foundation

variable {threadNumber : Nat} {pool next : ThreadPool threadNumber}

/-- The phases of a worker that has entered the loop body and has not popped there yet. -/
def Inside (thread : WorkThread) : Prop :=
  thread.phase = .locking ∨ thread.phase = .checking ∨ thread.phase = .waiting ∨ thread.phase = .popping

instance (thread : WorkThread) : Decidable (Inside thread) := inferInstanceAs (Decidable (_ ∨ _))

/-- The number of the workers that are inside the loop body and have not popped there yet. -/
def insiders (pool : ThreadPool threadNumber) : Nat :=
  (Finset.univ.filter fun worker => Inside (pool.workThreads worker)).card

/-- A worker that has never popped and will not pop any more does not find `pop_queue` set. -/
def Clean (thread : WorkThread) : Prop :=
  thread.phase = .testing ∨ thread.phase = .leaving → thread.function = none → thread.popQueue = false

/-- A worker that returns the mutex at the end of the loop body has popped. -/
def Fetched (thread : WorkThread) : Prop := thread.phase = .unlocking → thread.function ≠ none

/-- The steps that a worker of a closed pool needs at most until it ends. -/
def stepsLeft : Phase → Nat
  | .exited => 0
  | .leaving => 1
  | .testing => 2
  | .unlocking => 3
  | .popping => 4
  | .checking => 5
  | .locking => 6
  | .waiting => 7

/-- The pool is shut down, and the queue suffices for the workers that are still to pop. -/
structure Closing (pool : ThreadPool threadNumber) : Prop where
  shut : pool.isShutdown = true
  exclusive : Exclusive pool
  enough : insiders pool ≤ pool.workQueue.workQueue.length
  clean : ∀ worker, Clean (pool.workThreads worker)
  taken : ∀ worker, Fetched (pool.workThreads worker)

section Closing
variable {worker : Fin threadNumber}

/-- A worker stays on its side of the pop. -/
theorem insiders_place_same (pool : ThreadPool threadNumber) {thread : WorkThread}
    (same : Inside thread ↔ Inside (pool.workThreads worker)) :
    insiders (pool.place worker thread) = insiders pool := by
  refine congrArg Finset.card (Finset.filter_congr fun query _ => ?_)
  by_cases equal : query = worker
  · subst equal
    rw [place_self, same]
  · rw [place_other pool equal]

/-- A worker pops. -/
theorem insiders_place_popped (pool : ThreadPool threadNumber) {thread : WorkThread}
    (before : Inside (pool.workThreads worker)) (after : ¬ Inside thread) : insiders (pool.place worker thread) + 1 = insiders pool := by
  have member : worker ∈ Finset.univ.filter fun query => Inside (pool.workThreads query) := by simpa using before
  rw [insiders, insiders, ← Finset.card_erase_add_one member]
  congr 2
  ext query
  by_cases equal : query = worker
  · subst equal
    simp [after]
  · simp [place_other pool equal, equal]

/-- Every step of a worker of a closed pool takes as many workers out of the loop body as items out of the queue. -/
theorem insiders_worked (shut : pool.isShutdown = true) (exclusive : Exclusive pool) {events : List WorkEvent}
    (worked : Worked pool worker events next) :
    insiders pool + next.workQueue.workQueue.length = insiders next + pool.workQueue.workQueue.length := by
  cases worked with
  | tested phase =>
      rw [insiders_place_same pool (by simp [Inside, phase, shut])]
      rfl
  | locked phase =>
      exact congrArg (· + _) (insiders_place_same pool (by simp [Inside, phase])).symm
  | blocked => rfl
  | slept phase =>
      exact congrArg (· + _) (insiders_place_same pool (by simp [Inside, phase])).symm
  | passed phase =>
      rw [insiders_place_same pool (by simp [Inside, phase])]
      rfl
  | woken phase =>
      rw [insiders_place_same pool (by simp [Inside, phase])]
      rfl
  | @popped front rest phase queue =>
      have fewer : insiders (pool.place worker ⟨.unlocking, some front, true⟩) + 1 = insiders pool :=
        insiders_place_popped pool (by simp [Inside, phase]) (by simp [Inside])
      rw [queue, List.length_cons, ← fewer]
      show _ + rest.length = insiders (pool.place worker ⟨.unlocking, some front, true⟩) + _
      omega
  | missed phase empty => exact absurd empty (exclusive.ready worker phase)
  | unlocked phase =>
      exact congrArg (· + _) (insiders_place_same pool (by simp [Inside, phase])).symm
  | called phase =>
      rw [insiders_place_same pool (by simp [Inside, phase])]
      rfl
  | left phase =>
      rw [insiders_place_same pool (by simp [Inside, phase])]
      rfl
  | ended => rfl

theorem isShutdown_worked {events : List WorkEvent} (worked : Worked pool worker events next) :
    next.isShutdown = pool.isShutdown := by
  cases worked <;> rfl

/-- What one worker does leaves the others as they are. -/
theorem forall_place {Good : WorkThread → Prop} {thread : WorkThread} (others : ∀ query, Good (pool.workThreads query))
    (own : Good thread) (query : Fin threadNumber) : Good ((pool.place worker thread).workThreads query) := by
  by_cases same : query = worker
  · subst same
    rwa [place_self]
  · rw [place_other pool same]
    exact others query

theorem Closing.worked (closing : Closing pool) {events : List WorkEvent} (worked : Worked pool worker events next) :
    Closing next := by
  have balance := insiders_worked closing.shut closing.exclusive worked
  have bound := closing.enough
  refine ⟨(isShutdown_worked worked).trans closing.shut, closing.exclusive.worked worked, by omega, ?_, ?_⟩
  · cases worked with
    | tested phase => exact forall_place closing.clean fun _ => closing.clean worker (Or.inl phase)
    | unlocked phase =>
        exact forall_place closing.clean fun _ none => absurd none (closing.taken worker phase)
    | blocked => exact closing.clean
    | ended => exact closing.clean
    | _ => exact forall_place closing.clean fun early => by simp at early
  · cases worked with
    | tested phase =>
        refine forall_place closing.taken fun late => ?_
        rw [closing.shut] at late
        simp at late
    | popped => exact forall_place closing.taken fun _ => by simp
    | missed phase empty => exact absurd empty (closing.exclusive.ready worker phase)
    | blocked => exact closing.taken
    | ended => exact closing.taken
    | _ => exact forall_place closing.taken fun late => by simp at late

/-- The worker that moves next: the holder of the mutex, or any worker when the mutex is free. -/
theorem Exclusive.mover (exclusive : Exclusive pool) {running : Fin threadNumber}
    (unfinished : (pool.workThreads running).phase ≠ .exited) :
    ∃ worker, (pool.workThreads worker).phase ≠ .exited ∧
      ((pool.workThreads worker).phase = .locking → pool.conditionalMutex = none) := by
  cases mutex : pool.conditionalMutex with
  | none => exact ⟨running, unfinished, fun _ => rfl⟩
  | some holder =>
      refine ⟨holder, ?_⟩
      rcases (exclusive.holder holder).mp mutex with phase | phase | phase <;> simp [phase]

/-- A closed pool with an unfinished worker has a step that brings its end nearer. -/
theorem Closing.progress (closing : Closing pool) {running : Fin threadNumber}
    (unfinished : (pool.workThreads running).phase ≠ .exited) :
    ∃ worker thread output next, pool.workThread worker = .ok (output, next) ∧
      next.workThreads = Function.update pool.workThreads worker thread ∧
      stepsLeft thread.phase < stepsLeft (pool.workThreads worker).phase := by
  obtain ⟨worker, alive, free⟩ := closing.exclusive.mover unfinished
  let moved (phase : Phase) : WorkThread := { pool.workThreads worker with phase := phase }
  cases phase : (pool.workThreads worker).phase with
  | testing =>
      refine ⟨worker, moved .leaving, _, _, by simp only [workThread, phase, closing.shut]; rfl, ?_, ?_⟩
      · rfl
      · simp [moved, phase, stepsLeft]
  | locking =>
      refine ⟨worker, moved .checking, _, _, by simp only [workThread, phase, free phase]; rfl, ?_, ?_⟩
      · rfl
      · simp [moved, phase, stepsLeft]
  | checking =>
      have inside : 0 < insiders pool :=
        Finset.card_pos.mpr ⟨worker, Finset.mem_filter.mpr ⟨Finset.mem_univ _, .inr (.inl phase)⟩⟩
      have filled : pool.workQueue.empty = false := by
        have length := closing.enough
        rw [WorkQueue.empty, List.isEmpty_eq_false_iff, ← List.length_pos_iff]
        omega
      refine ⟨worker, moved .popping, _, _, by simp only [workThread, phase, filled]; rfl, ?_, ?_⟩
      · rfl
      · simp [moved, phase, stepsLeft]
  | waiting =>
      refine ⟨worker, moved .locking, _, _, by simp only [workThread, phase]; rfl, ?_, ?_⟩
      · rfl
      · simp [moved, phase, stepsLeft]
  | popping =>
      obtain ⟨work, rest, queue⟩ := List.exists_cons_of_ne_nil (closing.exclusive.ready worker phase)
      refine ⟨worker, ⟨.unlocking, some work, true⟩, _, _,
        by simp only [workThread, phase, WorkQueue.popQueue, queue]; rfl, ?_, ?_⟩
      · rfl
      · simp [phase, stepsLeft]
  | unlocking =>
      refine ⟨worker, moved .testing, _, _, by simp only [workThread, phase]; rfl, ?_, ?_⟩
      · rfl
      · simp [moved, phase, stepsLeft]
  | leaving =>
      have returns : ∃ output thread, pool.workThread worker = .ok (output, pool.place worker thread) ∧
          thread.phase = .exited := by
        cases popQueue : (pool.workThreads worker).popQueue with
        | false => exact ⟨_, _, by simp only [workThread, phase, popQueue]; rfl, rfl⟩
        | true =>
            cases function : (pool.workThreads worker).function with
            | none =>
                have idle := closing.clean worker (Or.inr phase) function
                rw [popQueue] at idle
                cases idle
            | some work => exact ⟨_, _, by simp only [workThread, phase, popQueue, function]; rfl, rfl⟩
      obtain ⟨output, thread, stepped, ended⟩ := returns
      refine ⟨worker, thread, output, _, stepped, rfl, ?_⟩
      simp [phase, ended, stepsLeft]
  | exited => exact absurd phase alive

/-- A closing pool has a run after which every worker has ended. -/
theorem Closing.finishes (closing : Closing pool) :
    ∃ workers outputs final, run workThread pool workers = .ok (outputs, final) ∧
      ∀ worker, (final.workThreads worker).phase = .exited := by
  refine run_reaches workThread Closing _ (fun pool => ∑ worker, stepsLeft (pool.workThreads worker).phase) ?_ pool
    closing
  intro pool closing unfinished
  obtain ⟨running, unfinished⟩ := not_forall.mp unfinished
  obtain ⟨worker, thread, output, next, stepped, moved, lower⟩ := closing.progress unfinished
  obtain ⟨own, rfl, worked⟩ := workThread_worked stepped
  refine ⟨worker, _, next, stepped, closing.worked worked, ?_⟩
  refine Finset.sum_lt_sum (fun query _ => ?_) ⟨worker, Finset.mem_univ _, ?_⟩
  · rw [moved]
    by_cases same : query = worker
    · subst same
      rw [Function.update_self]
      exact lower.le
    · rw [Function.update_of_ne same]
  · rwa [moved, Function.update_self]

/-- A worker that leaves the loop with `pop_queue` set by chance never ends. -/
theorem unclean_stays {events : List WorkEvent} (worked : Worked pool worker events next) (shut : pool.isShutdown = true)
    {lost : Fin threadNumber} (unclean : ¬ Clean (pool.workThreads lost)) : ¬ Clean (next.workThreads lost) := by
  obtain ⟨outside, rest⟩ := Classical.not_imp.mp unclean
  obtain ⟨none, set⟩ := Classical.not_imp.mp rest
  have stays {thread : WorkThread} (own : lost = worker → ¬ Clean thread) :
      ¬ Clean ((pool.place worker thread).workThreads lost) := by
    by_cases same : lost = worker
    · rw [same, place_self]
      exact own same
    · rwa [place_other pool same]
  cases worked with
  | tested phase =>
      refine stays ?_
      rintro rfl clean
      exact set (clean (Or.inr (by simp [shut])) none)
  | called phase held function =>
      refine stays ?_
      rintro rfl
      simp [function] at none
  | left phase idle =>
      refine stays ?_
      rintro rfl
      exact absurd idle set
  | blocked => exact unclean
  | ended => exact unclean
  | locked phase | slept phase | passed phase | woken phase | popped phase | missed phase | unlocked phase =>
      refine stays ?_
      rintro rfl
      simp [phase] at outside

/-- The workers of a closed pool that all end have popped at least as many items as workers were inside. -/
theorem insiders_run {workers : List (Fin threadNumber)} {outputs : List (List (Fin threadNumber × WorkEvent))}
    (shut : pool.isShutdown = true) (exclusive : Exclusive pool)
    (returned : run workThread pool workers = .ok (outputs, next)) :
    insiders pool + next.workQueue.workQueue.length = insiders next + pool.workQueue.workQueue.length := by
  let Balanced (state : ThreadPool threadNumber) : Prop := state.isShutdown = true ∧ Exclusive state ∧
    insiders pool + state.workQueue.workQueue.length = insiders state + pool.workQueue.workQueue.length
  have final := run_invariant workThread Balanced (by
    rintro state worker output later ⟨closed, alone, balance⟩ stepped
    obtain ⟨own, rfl, worked⟩ := workThread_worked stepped
    have step := insiders_worked closed alone worked
    exact ⟨(isShutdown_worked worked).trans closed, alone.worked worked, by omega⟩)
    pool next workers outputs ⟨shut, exclusive, rfl⟩ returned
  exact final.2.2

theorem unclean_run {workers : List (Fin threadNumber)} {outputs : List (List (Fin threadNumber × WorkEvent))}
    (shut : pool.isShutdown = true) {lost : Fin threadNumber} (unclean : ¬ Clean (pool.workThreads lost))
    (returned : run workThread pool workers = .ok (outputs, next)) : ¬ Clean (next.workThreads lost) := by
  have final := run_invariant workThread
    (fun state => state.isShutdown = true ∧ ¬ Clean (state.workThreads lost)) (by
    rintro state worker output later ⟨closed, stuck⟩ stepped
    obtain ⟨own, rfl, worked⟩ := workThread_worked stepped
    exact ⟨(isShutdown_worked worked).trans closed, unclean_stays worked closed stuck⟩)
    pool next workers outputs ⟨shut, unclean⟩ returned
  exact final.2

end Closing

/-- `Shutdown` joins the workers. From every reachable pool, without any more work, they can all end if and only if the
queue holds at least as much work as workers are in the loop body before their pop, and a `pop_queue` that was never
assigned happens to be false in every worker that leaves without a pop. So a worker that waits at an empty queue is
never joined. -/
theorem shutdown_joins_iff (uninitialized : Fin threadNumber → Bool) (actions : List (Action threadNumber))
    (outputs : List (List (Fin threadNumber × WorkEvent))) (pool : ThreadPool threadNumber)
    (returned : run step (new uninitialized) actions = .ok (outputs, pool)) :
    (∃ workers joined final, run workThread pool.shutdown workers = .ok (joined, final) ∧
        ∀ worker, (final.workThreads worker).phase = .exited) ↔
      insiders pool ≤ pool.workQueue.workQueue.length ∧ ∀ worker, Clean (pool.workThreads worker) := by
  obtain ⟨records, exclusive⟩ := run_records uninitialized returned
  constructor
  · rintro ⟨workers, joined, final, continued, ended⟩
    constructor
    · have balance := insiders_run rfl exclusive.shutdown continued
      have empty : insiders final = 0 :=
        Finset.card_eq_zero.mpr (Finset.filter_eq_empty_iff.mpr fun worker _ => by simp [Inside, ended worker])
      have start : insiders pool.shutdown = insiders pool := rfl
      have queue : pool.shutdown.workQueue = pool.workQueue := rfl
      rw [queue] at balance
      omega
    · intro worker
      by_contra unclean
      have shut : pool.shutdown.isShutdown = true := rfl
      refine unclean_run shut unclean continued fun outside => ?_
      simp [ended worker] at outside
  · rintro ⟨enough, clean⟩
    exact Closing.finishes ⟨rfl, exclusive.shutdown, enough, clean, records.taken⟩

/-- One of two workers waits, and `Shutdown` comes when nothing is queued. -/
theorem shutdown_joins_waiting :
    ∃ outputs pool, run step (new fun _ : Fin 2 => false) ([0, 0, 0].map .workThread) = .ok (outputs, pool) ∧
      insiders pool = 1 ∧ pool.workQueue.workQueue = [] ∧
      ((∃ workers joined final, run workThread pool.shutdown workers = .ok (joined, final) ∧
          ∀ worker, (final.workThreads worker).phase = .exited) ↔
        insiders pool ≤ pool.workQueue.workQueue.length ∧ ∀ worker, Clean (pool.workThreads worker)) :=
  ⟨_, _, rfl, by decide, rfl, shutdown_joins_iff (fun _ => false) ([0, 0, 0].map .workThread) _ _ rfl⟩

end MySkipList.ThreadPool
