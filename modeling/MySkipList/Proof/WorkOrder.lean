import MySkipList.Proof.ThreadPool

namespace MySkipList.ThreadPool

open Foundation

variable {threadNumber : Nat} {pool next : ThreadPool threadNumber}

/-- The phases of a worker that holds `conditional_mutex_`. -/
def Holding (thread : WorkThread) : Prop :=
  thread.phase = .checking ∨ thread.phase = .popping ∨ thread.phase = .unlocking

instance (thread : WorkThread) : Decidable (Holding thread) := inferInstanceAs (Decidable (_ ∨ _))

/-- What one step of a worker can do to the pool, with what it finds before. -/
inductive Worked (pool : ThreadPool threadNumber) (worker : Fin threadNumber) :
    List WorkEvent → ThreadPool threadNumber → Prop where
  | tested (phase : (pool.workThreads worker).phase = .testing) :
      Worked pool worker [] (pool.place worker
        { pool.workThreads worker with phase := if pool.isShutdown then .leaving else .locking })
  | locked (phase : (pool.workThreads worker).phase = .locking) (free : pool.conditionalMutex = none) :
      Worked pool worker [] { pool.place worker { pool.workThreads worker with phase := .checking } with
        conditionalMutex := some worker }
  | blocked (phase : (pool.workThreads worker).phase = .locking) (held : pool.conditionalMutex ≠ none) :
      Worked pool worker [] pool
  | slept (phase : (pool.workThreads worker).phase = .checking) (empty : pool.workQueue.workQueue = []) :
      Worked pool worker [] { pool.place worker { pool.workThreads worker with phase := .waiting } with
        conditionalMutex := none }
  | passed (phase : (pool.workThreads worker).phase = .checking) (filled : pool.workQueue.workQueue ≠ []) :
      Worked pool worker [] (pool.place worker { pool.workThreads worker with phase := .popping })
  | woken (phase : (pool.workThreads worker).phase = .waiting) :
      Worked pool worker [] (pool.place worker { pool.workThreads worker with phase := .locking })
  | popped {front rest} (phase : (pool.workThreads worker).phase = .popping)
      (queue : pool.workQueue.workQueue = front :: rest) :
      Worked pool worker [.popped front] { pool.place worker ⟨.unlocking, some front, true⟩ with workQueue := ⟨rest⟩ }
  | missed (phase : (pool.workThreads worker).phase = .popping) (empty : pool.workQueue.workQueue = []) :
      Worked pool worker [] (pool.place worker ⟨.unlocking, (pool.workThreads worker).function, false⟩)
  | unlocked (phase : (pool.workThreads worker).phase = .unlocking) :
      Worked pool worker [] { pool.place worker { pool.workThreads worker with phase := .testing } with
        conditionalMutex := none }
  | called {work} (phase : (pool.workThreads worker).phase = .leaving)
      (held : (pool.workThreads worker).popQueue = true) (function : (pool.workThreads worker).function = some work) :
      Worked pool worker [.called work, .exited]
        (pool.place worker { pool.workThreads worker with phase := .exited })
  | left (phase : (pool.workThreads worker).phase = .leaving) (idle : (pool.workThreads worker).popQueue = false) :
      Worked pool worker [.exited] (pool.place worker { pool.workThreads worker with phase := .exited })
  | ended (phase : (pool.workThreads worker).phase = .exited) : Worked pool worker [] pool

/-- A step of a worker that returns has done one of the things that workers can do. -/
theorem workThread_worked {worker : Fin threadNumber} {events : List (Fin threadNumber × WorkEvent)}
    (returned : pool.workThread worker = .ok (events, next)) :
    ∃ own, events = own.map (Prod.mk worker) ∧ Worked pool worker own next := by
  cases phase : (pool.workThreads worker).phase with
  | testing =>
      simp only [workThread, phase] at returned
      obtain ⟨rfl, rfl⟩ := Prod.mk.inj (Except.ok.inj returned)
      exact ⟨[], rfl, .tested phase⟩
  | locking =>
      simp only [workThread, phase] at returned
      split at returned
      · rename_i free
        obtain ⟨rfl, rfl⟩ := Prod.mk.inj (Except.ok.inj returned)
        exact ⟨[], rfl, .locked phase free⟩
      · rename_i held
        obtain ⟨rfl, rfl⟩ := Prod.mk.inj (Except.ok.inj returned)
        exact ⟨[], rfl, .blocked phase held⟩
  | checking =>
      simp only [workThread, phase] at returned
      split at returned
      · rename_i empty
        obtain ⟨rfl, rfl⟩ := Prod.mk.inj (Except.ok.inj returned)
        exact ⟨[], rfl, .slept phase (List.isEmpty_iff.mp empty)⟩
      · rename_i filled
        obtain ⟨rfl, rfl⟩ := Prod.mk.inj (Except.ok.inj returned)
        exact ⟨[], rfl, .passed phase fun empty => filled (List.isEmpty_iff.mpr empty)⟩
  | waiting =>
      simp only [workThread, phase] at returned
      obtain ⟨rfl, rfl⟩ := Prod.mk.inj (Except.ok.inj returned)
      exact ⟨[], rfl, .woken phase⟩
  | popping =>
      simp only [workThread, phase] at returned
      cases queue : pool.workQueue.workQueue with
      | nil =>
          simp only [WorkQueue.popQueue, queue] at returned
          obtain ⟨rfl, rfl⟩ := Prod.mk.inj (Except.ok.inj returned)
          exact ⟨[], rfl, .missed phase queue⟩
      | cons front rest =>
          simp only [WorkQueue.popQueue, queue] at returned
          obtain ⟨rfl, rfl⟩ := Prod.mk.inj (Except.ok.inj returned)
          exact ⟨[.popped front], rfl, .popped phase queue⟩
  | unlocking =>
      simp only [workThread, phase] at returned
      obtain ⟨rfl, rfl⟩ := Prod.mk.inj (Except.ok.inj returned)
      exact ⟨[], rfl, .unlocked phase⟩
  | leaving =>
      simp only [workThread, phase] at returned
      split at returned
      · rename_i held
        split at returned
        · simp at returned
        · rename_i work function
          obtain ⟨rfl, rfl⟩ := Prod.mk.inj (Except.ok.inj returned)
          exact ⟨[.called work, .exited], rfl, .called phase held function⟩
      · rename_i idle
        obtain ⟨rfl, rfl⟩ := Prod.mk.inj (Except.ok.inj returned)
        exact ⟨[.exited], rfl, .left phase (by simpa using idle)⟩
  | exited =>
      simp only [workThread, phase] at returned
      obtain ⟨rfl, rfl⟩ := Prod.mk.inj (Except.ok.inj returned)
      exact ⟨[], rfl, .ended phase⟩

/-- The mutex names the worker that holds it, and a worker that is about to pop finds work in the queue. -/
structure Exclusive (pool : ThreadPool threadNumber) : Prop where
  holder : ∀ worker, pool.conditionalMutex = some worker ↔ Holding (pool.workThreads worker)
  ready : ∀ worker, (pool.workThreads worker).phase = .popping → pool.workQueue.workQueue ≠ []

section Exclusion
variable {worker : Fin threadNumber}

@[simp] theorem place_self (pool : ThreadPool threadNumber) (worker : Fin threadNumber) (thread : WorkThread) :
    (pool.place worker thread).workThreads worker = thread := by
  simp [place]

theorem place_other (pool : ThreadPool threadNumber) {worker query : Fin threadNumber} (different : query ≠ worker)
    (thread : WorkThread) : (pool.place worker thread).workThreads query = pool.workThreads query := by
  simp [place, different]

theorem new_exclusive (uninitialized : Fin threadNumber → Bool) : Exclusive (new uninitialized) where
  holder worker := by simp [new, Holding]
  ready worker phase := by simp [new] at phase

/-- Two workers in the section of the mutex are one. -/
theorem Exclusive.unique (exclusive : Exclusive pool) {first second : Fin threadNumber}
    (one : Holding (pool.workThreads first)) (other : Holding (pool.workThreads second)) : first = second :=
  Option.some.inj (((exclusive.holder first).mpr one).symm.trans ((exclusive.holder second).mpr other))

/-- A step of a worker that neither takes nor returns the mutex keeps the exclusion. -/
theorem Exclusive.keep (exclusive : Exclusive pool) {thread : WorkThread}
    (holding : Holding thread ↔ Holding (pool.workThreads worker))
    (ready : thread.phase = .popping → pool.workQueue.workQueue ≠ []) : Exclusive (pool.place worker thread) where
  holder query := by
    by_cases same : query = worker
    · subst same
      rw [place_self, holding]
      exact exclusive.holder query
    · rw [place_other pool same]
      exact exclusive.holder query
  ready query phase := by
    by_cases same : query = worker
    · subst same
      exact ready (by simpa using phase)
    · rw [place_other pool same] at phase
      exact exclusive.ready query phase

/-- The holder of the mutex returns it, with any change of the queue. -/
theorem Exclusive.release (exclusive : Exclusive pool) (holds : Holding (pool.workThreads worker))
    {thread : WorkThread} (outside : ¬ Holding thread) :
    Exclusive { pool.place worker thread with conditionalMutex := none } where
  holder query := by
    refine ⟨fun taken => by simp at taken, fun holding => ?_⟩
    by_cases same : query = worker
    · subst same
      exact absurd (by simpa using holding) outside
    · rw [show (pool.place worker thread).workThreads query = _ from place_other pool same thread] at holding
      exact absurd (exclusive.unique holding holds) same
  ready query phase := by
    have pops : ((pool.place worker thread).workThreads query).phase = .popping := phase
    by_cases same : query = worker
    · subst same
      rw [place_self] at pops
      exact absurd (Or.inr (Or.inl pops)) outside
    · rw [place_other pool same] at pops
      exact exclusive.ready query pops

/-- A worker takes the free mutex. -/
theorem Exclusive.acquire (exclusive : Exclusive pool) (free : pool.conditionalMutex = none) {thread : WorkThread}
    (phase : thread.phase = .checking) :
    Exclusive { pool.place worker thread with conditionalMutex := some worker } where
  holder query := by
    by_cases same : query = worker
    · subst same
      simp [Holding, phase]
    · have others : ¬ Holding (pool.workThreads query) := fun holding => by
        simp [(exclusive.holder query).mpr holding] at free
      simp [place_other pool same, others, Ne.symm same]
  ready query pops := by
    have popping : ((pool.place worker thread).workThreads query).phase = .popping := pops
    by_cases same : query = worker
    · subst same
      simp [phase] at popping
    · rw [place_other pool same] at popping
      exact exclusive.ready query popping

/-- The worker that pops is the only one in the section, so a shorter queue disturbs nobody. -/
theorem Exclusive.pop (exclusive : Exclusive pool) (phase : (pool.workThreads worker).phase = .popping)
    {thread : WorkThread} (unlocking : thread.phase = .unlocking) (queue : WorkQueue Nat) :
    Exclusive { pool.place worker thread with workQueue := queue } where
  holder query := by
    by_cases same : query = worker
    · subst same
      have before := (exclusive.holder query).mpr (Or.inr (Or.inl phase))
      have after : Holding thread := Or.inr (Or.inr unlocking)
      simpa [place, after] using before
    · have kept := exclusive.holder query
      simpa [place, same] using kept
  ready query pops := by
    have popping : ((pool.place worker thread).workThreads query).phase = .popping := pops
    by_cases same : query = worker
    · subst same
      simp [unlocking] at popping
    · rw [place_other pool same] at popping
      exact absurd (exclusive.unique (Or.inr (Or.inl popping)) (Or.inr (Or.inl phase))) same

theorem Exclusive.worked (exclusive : Exclusive pool) {events : List WorkEvent}
    (worked : Worked pool worker events next) : Exclusive next := by
  cases worked with
  | tested phase =>
      refine exclusive.keep ?_ ?_ <;> cases pool.isShutdown <;> simp [Holding, phase]
  | locked phase free => exact exclusive.acquire free rfl
  | blocked => exact exclusive
  | slept phase => exact exclusive.release (Or.inl phase) (by simp [Holding])
  | passed phase filled => exact exclusive.keep (by simp [Holding, phase]) fun _ => filled
  | woken phase => exact exclusive.keep (by simp [Holding, phase]) (by simp)
  | popped phase queue => exact exclusive.pop phase rfl _
  | missed phase empty => exact absurd empty (exclusive.ready worker phase)
  | unlocked phase => exact exclusive.release (Or.inr (Or.inr phase)) (by simp [Holding])
  | called phase => exact exclusive.keep (by simp [Holding, phase]) (by simp)
  | left phase => exact exclusive.keep (by simp [Holding, phase]) (by simp)
  | ended => exact exclusive

theorem Exclusive.submitWork (exclusive : Exclusive pool) : Exclusive pool.submitWork where
  holder := exclusive.holder
  ready worker phase := by simp [ThreadPool.submitWork, WorkQueue.pushQueue]

theorem Exclusive.shutdown (exclusive : Exclusive pool) : Exclusive pool.shutdown :=
  ⟨exclusive.holder, exclusive.ready⟩

end Exclusion

/-- The work that one worker has popped, in the order of its pops. -/
def poppedBy (worker : Fin threadNumber) (trace : List (Fin threadNumber × WorkEvent)) : List Nat :=
  (eventsOf worker trace).filterMap fun event => match event with
    | .popped work => some work
    | _ => none

/-- The calls of work, each with the worker that makes it. -/
def calls (trace : List (Fin threadNumber × WorkEvent)) : List (Fin threadNumber × Nat) :=
  trace.filterMap fun event => match event.2 with
    | .called work => some (event.1, work)
    | _ => none

/-- The work that one worker has called. -/
def calledBy (worker : Fin threadNumber) (trace : List (Fin threadNumber × WorkEvent)) : List Nat :=
  (eventsOf worker trace).filterMap fun event => match event with
    | .called work => some work
    | _ => none

/-- The trace tells the order of the pops, which work each worker holds, and what the workers that have ended have
called. -/
structure Records (trace : List (Fin threadNumber × WorkEvent)) (pool : ThreadPool threadNumber) : Prop where
  ordered : poppedWork trace ++ pool.workQueue.workQueue = List.range pool.submitted
  held : ∀ worker, (poppedBy worker trace).getLast? = (pool.workThreads worker).function
  fetched : ∀ worker, (pool.workThreads worker).function ≠ none → (pool.workThreads worker).popQueue = true
  taken : ∀ worker, (pool.workThreads worker).phase = .unlocking → (pool.workThreads worker).function ≠ none
  ran : ∀ worker, calledBy worker trace =
    if (pool.workThreads worker).phase = .exited then (pool.workThreads worker).function.toList else []
  closed : ∀ worker, (pool.workThreads worker).phase = .leaving ∨ (pool.workThreads worker).phase = .exited →
    pool.isShutdown = true

section Records
variable {trace : List (Fin threadNumber × WorkEvent)} {worker : Fin threadNumber}

theorem new_records (uninitialized : Fin threadNumber → Bool) : Records [] (new uninitialized) :=
  ⟨rfl, fun _ => rfl, fun _ held => absurd rfl held, fun _ late => by simp [new] at late, fun _ => rfl,
    fun _ gone => by simp [new] at gone⟩

theorem poppedBy_append (query worker : Fin threadNumber) (trace : List (Fin threadNumber × WorkEvent))
    (events : List WorkEvent) : poppedBy query (trace ++ events.map (Prod.mk worker)) =
      poppedBy query trace ++ if query = worker then poppedBy worker (events.map (Prod.mk worker)) else [] := by
  rw [poppedBy, eventsOf_append, List.filterMap_append]
  by_cases same : query = worker
  · subst same
    rw [if_pos rfl]
    rfl
  · rw [if_neg same, eventsOf_own, if_neg same]
    rfl

theorem calledBy_append (query worker : Fin threadNumber) (trace : List (Fin threadNumber × WorkEvent))
    (events : List WorkEvent) : calledBy query (trace ++ events.map (Prod.mk worker)) =
      calledBy query trace ++ if query = worker then calledBy worker (events.map (Prod.mk worker)) else [] := by
  rw [calledBy, eventsOf_append, List.filterMap_append]
  by_cases same : query = worker
  · subst same
    rw [if_pos rfl]
    rfl
  · rw [if_neg same, eventsOf_own, if_neg same]
    rfl

/-- A step of one worker keeps the records when its own records are right after it. -/
theorem Records.advance (records : Records trace pool) {thread : WorkThread} (events : List WorkEvent)
    {queue : WorkQueue Nat} (mutex : Option (Fin threadNumber))
    (queued : poppedWork (events.map (Prod.mk worker)) ++ queue.workQueue = pool.workQueue.workQueue)
    (held : (poppedBy worker trace ++ poppedBy worker (events.map (Prod.mk worker))).getLast? = thread.function)
    (fetched : thread.function ≠ none → thread.popQueue = true)
    (taken : thread.phase = .unlocking → thread.function ≠ none)
    (ran : calledBy worker trace ++ calledBy worker (events.map (Prod.mk worker)) =
      if thread.phase = .exited then thread.function.toList else [])
    (closed : thread.phase = .leaving ∨ thread.phase = .exited → pool.isShutdown = true) :
    Records (trace ++ events.map (Prod.mk worker))
      { pool.place worker thread with workQueue := queue, conditionalMutex := mutex } where
  ordered := by
    rw [poppedWork_append, List.append_assoc, queued]
    exact records.ordered
  held query := by
    rw [poppedBy_append]
    by_cases same : query = worker
    · subst same
      simpa [place] using held
    · simpa [place, same] using records.held query
  fetched query := by
    by_cases same : query = worker
    · subst same
      simpa [place] using fetched
    · simpa [place, same] using records.fetched query
  taken query := by
    by_cases same : query = worker
    · subst same
      simpa [place] using taken
    · simpa [place, same] using records.taken query
  ran query := by
    rw [calledBy_append]
    by_cases same : query = worker
    · subst same
      simpa [place] using ran
    · simpa [place, same] using records.ran query
  closed query := by
    by_cases same : query = worker
    · subst same
      simpa [place] using closed
    · simpa [place, same] using records.closed query

/-- A step without events that keeps what the worker holds. -/
theorem Records.move (records : Records trace pool) {phase : Phase} (mutex : Option (Fin threadNumber))
    (running : (pool.workThreads worker).phase ≠ .exited) (still : phase ≠ .exited) (early : phase ≠ .unlocking)
    (closed : phase = .leaving → pool.isShutdown = true) :
    Records (trace ++ ([] : List WorkEvent).map (Prod.mk worker))
      { pool.place worker { pool.workThreads worker with phase := phase } with conditionalMutex := mutex } := by
  refine records.advance [] mutex rfl ?_ (records.fetched worker) (fun late => absurd late early) ?_ ?_
  · rw [List.map_nil, show poppedBy worker [] = [] from rfl, List.append_nil]
    exact records.held worker
  · rw [List.map_nil, show calledBy worker [] = [] from rfl, List.append_nil, records.ran, if_neg running, if_neg still]
  · exact fun gone => closed (gone.resolve_right still)

theorem Records.worked (records : Records trace pool) (exclusive : Exclusive pool) {events : List WorkEvent}
    (worked : Worked pool worker events next) : Records (trace ++ events.map (Prod.mk worker)) next := by
  cases worked with
  | tested phase =>
      refine records.move pool.conditionalMutex (by simp [phase]) ?_ ?_ ?_
      all_goals cases shut : pool.isShutdown <;> simp
  | locked phase => exact records.move (some worker) (by simp [phase]) (by simp) (by simp) (by simp)
  | blocked => rwa [List.map_nil, List.append_nil]
  | slept phase => exact records.move none (by simp [phase]) (by simp) (by simp) (by simp)
  | passed phase => exact records.move pool.conditionalMutex (by simp [phase]) (by simp) (by simp) (by simp)
  | woken phase => exact records.move pool.conditionalMutex (by simp [phase]) (by simp) (by simp) (by simp)
  | @popped front rest phase queue =>
      refine records.advance [.popped front] pool.conditionalMutex ?_ ?_ (fun _ => rfl) (by simp) ?_ (by simp)
      · rw [queue]
        rfl
      · rw [show poppedBy worker ([WorkEvent.popped front].map (Prod.mk worker)) = [front] by simp [poppedBy, eventsOf],
          List.getLast?_concat]
      · rw [records.ran, phase]
        simp [calledBy, eventsOf]
  | missed phase empty => exact absurd empty (exclusive.ready worker phase)
  | unlocked phase => exact records.move none (by simp [phase]) (by simp) (by simp) (by simp)
  | @called work phase held function =>
      refine records.advance [.called work, .exited] pool.conditionalMutex rfl ?_ (fun _ => held) (by simp) ?_
        fun _ => records.closed worker (Or.inl phase)
      · rw [show poppedBy worker ([WorkEvent.called work, .exited].map (Prod.mk worker)) = [] by
          simp [poppedBy, eventsOf], List.append_nil]
        exact records.held worker
      · rw [records.ran, phase, function]
        simp [calledBy, eventsOf]
  | left phase idle =>
      have none : (pool.workThreads worker).function = Option.none := by
        by_contra held
        simp [records.fetched worker held] at idle
      refine records.advance [.exited] pool.conditionalMutex rfl ?_ (fun held => absurd none held) (by simp) ?_
        fun _ => records.closed worker (Or.inl phase)
      · rw [show poppedBy worker ([WorkEvent.exited].map (Prod.mk worker)) = [] by simp [poppedBy, eventsOf],
          List.append_nil]
        exact records.held worker
      · rw [records.ran, phase, none]
        simp [calledBy, eventsOf]
  | ended => rwa [List.map_nil, List.append_nil]

theorem Records.stepped (records : Records trace pool) (exclusive : Exclusive pool) {action : Action threadNumber}
    {events : List (Fin threadNumber × WorkEvent)} (stepped : pool.step action = .ok (events, next)) :
    Records (trace ++ events) next ∧ Exclusive next := by
  cases action with
  | submitWork =>
      obtain ⟨rfl, rfl⟩ := Prod.mk.inj (Except.ok.inj stepped)
      rw [List.append_nil]
      refine ⟨⟨?_, records.held, records.fetched, records.taken, records.ran, records.closed⟩, exclusive.submitWork⟩
      show poppedWork trace ++ (pool.workQueue.workQueue ++ [pool.submitted]) = List.range (pool.submitted + 1)
      rw [← List.append_assoc, records.ordered, List.range_succ]
  | shutdown =>
      obtain ⟨rfl, rfl⟩ := Prod.mk.inj (Except.ok.inj stepped)
      rw [List.append_nil]
      exact ⟨⟨records.ordered, records.held, records.fetched, records.taken, records.ran, fun _ _ => rfl⟩,
        exclusive.shutdown⟩
  | workThread worker =>
      obtain ⟨own, rfl, worked⟩ := workThread_worked stepped
      exact ⟨records.worked exclusive worked, exclusive.worked worked⟩

theorem run_records (uninitialized : Fin threadNumber → Bool) {actions : List (Action threadNumber)}
    {outputs : List (List (Fin threadNumber × WorkEvent))}
    (returned : run step (new uninitialized) actions = .ok (outputs, pool)) :
    Records outputs.flatten pool ∧ Exclusive pool :=
  run_outputs_of_meets step (fun _ _ => True)
    (fun outputs (pool : ThreadPool threadNumber) => Records outputs.flatten pool ∧ Exclusive pool)
    (fun past _ _ _ _ known _ stepped => by
      rw [List.flatten_append, List.flatten_singleton]
      exact known.1.stepped known.2 stepped)
    [] (new uninitialized) pool actions outputs ⟨new_records uninitialized, new_exclusive uninitialized⟩
    (fun _ _ => trivial) returned

/-- In every run the work leaves the queue in the order of its submission, at most one worker is in the section of
`conditional_mutex_`, and a worker that has passed its wait pops work. -/
theorem run_first_in_first_out (uninitialized : Fin threadNumber → Bool) (actions : List (Action threadNumber))
    (outputs : List (List (Fin threadNumber × WorkEvent))) (pool : ThreadPool threadNumber)
    (returned : run step (new uninitialized) actions = .ok (outputs, pool)) :
    poppedWork outputs.flatten ++ pool.workQueue.workQueue = List.range pool.submitted ∧
      (∀ first second, Holding (pool.workThreads first) → Holding (pool.workThreads second) → first = second) ∧
      ∀ worker, (pool.workThreads worker).phase = .popping →
        ∃ work next, pool.workThread worker = .ok ([(worker, .popped work)], next) := by
  obtain ⟨records, exclusive⟩ := run_records uninitialized returned
  refine ⟨records.ordered, fun first second one other => exclusive.unique one other, fun worker phase => ?_⟩
  obtain ⟨work, rest, queue⟩ := List.exists_cons_of_ne_nil (exclusive.ready worker phase)
  refine ⟨work, { pool.place worker ⟨.unlocking, some work, true⟩ with workQueue := ⟨rest⟩ }, ?_⟩
  simp [workThread, phase, WorkQueue.popQueue, queue]

/-- Two workers take the two items in turn while the third one waits for the mutex. -/
theorem run_first_in_first_out_contended :
    ∃ outputs pool, run step (new fun _ : Fin 3 => false) ([.submitWork, .submitWork] ++
        [0, 0, 1, 0, 0, 2, 0, 1, 1, 2, 1].map .workThread) = .ok (outputs, pool) ∧
      poppedWork outputs.flatten ++ pool.workQueue.workQueue = List.range pool.submitted ∧
      (∀ first second, Holding (pool.workThreads first) → Holding (pool.workThreads second) → first = second) ∧
      ∀ worker, (pool.workThreads worker).phase = .popping →
        ∃ work next, pool.workThread worker = .ok ([(worker, .popped work)], next) :=
  ⟨_, _, rfl, run_first_in_first_out (fun _ => false) ([.submitWork, .submitWork] ++
    [0, 0, 1, 0, 0, 2, 0, 1, 1, 2, 1].map .workThread) _ _ rfl⟩

/-- The pairs of which each first part occurs once have distinct first parts. -/
theorem nodup_of_single {A B : Type} [DecidableEq A] {pairs : List (A × B)}
    (single : ∀ part, (pairs.filter fun pair => pair.1 = part).length ≤ 1) : (pairs.map Prod.fst).Nodup := by
  rw [List.nodup_iff_count_le_one]
  intro part
  rw [List.count, List.countP_map, List.countP_eq_length_filter]
  exact single part

theorem calls_filter (trace : List (Fin threadNumber × WorkEvent)) (worker : Fin threadNumber) :
    ((calls trace).filter fun call => call.1 = worker).map Prod.snd = calledBy worker trace := by
  induction trace with
  | nil => rfl
  | cons event rest ih =>
      obtain ⟨caller, event⟩ := event
      rw [calls, calledBy, eventsOf] at ih ⊢
      cases event <;> by_cases same : caller = worker <;> simp [same, ih]

/-- Work that was popped once has one worker. -/
theorem popper_unique (once : (poppedWork trace).Nodup) {first second : Fin threadNumber} {work : Nat}
    (one : work ∈ poppedBy first trace) (other : work ∈ poppedBy second trace) : first = second := by
  let named : Fin threadNumber × WorkEvent → Option (Fin threadNumber × Nat) := fun event => match event.2 with
    | .popped work => some (event.1, work)
    | _ => none
  have pairs : poppedWork trace = (trace.filterMap named).map Prod.snd := by
    rw [poppedWork, List.map_filterMap]
    refine List.filterMap_congr fun event _ => ?_
    obtain ⟨_, event⟩ := event
    cases event <;> rfl
  have found {worker : Fin threadNumber} (popped : work ∈ poppedBy worker trace) :
      (worker, work) ∈ trace.filterMap named := by
    obtain ⟨event, member, same⟩ := List.mem_filterMap.mp popped
    obtain ⟨⟨owner, event⟩, present, rfl⟩ := List.mem_map.mp member
    obtain ⟨inside, owned⟩ := List.mem_filter.mp present
    refine List.mem_filterMap.mpr ⟨(owner, event), inside, ?_⟩
    cases event <;> simp_all [named]
  rw [pairs] at once
  exact (Prod.mk.inj (List.inj_on_of_nodup_map once (found one) (found other) rfl)).1

theorem Records.calledBy_getLast (records : Records trace pool) (worker : Fin threadNumber) :
    calledBy worker trace =
      if (pool.workThreads worker).phase = .exited then (poppedBy worker trace).getLast?.toList else [] := by
  rw [records.ran, records.held]

/-- No work is called twice. -/
theorem Records.calls_nodup (records : Records trace pool) :
    ((calls trace).map Prod.fst).Nodup ∧ ((calls trace).map Prod.snd).Nodup := by
  have callers : ((calls trace).map Prod.fst).Nodup := by
    refine nodup_of_single fun worker => ?_
    rw [← List.length_map Prod.snd, calls_filter, records.ran]
    split
    · exact Option.length_toList_le
    · exact Nat.zero_le 1
  have once : (poppedWork trace).Nodup := by
    have distinct := List.nodup_range (n := pool.submitted)
    rw [← records.ordered] at distinct
    exact distinct.sublist (List.sublist_append_left ..)
  have popped {worker : Fin threadNumber} {work : Nat} (called : (worker, work) ∈ calls trace) :
      work ∈ poppedBy worker trace := by
    have own : work ∈ calledBy worker trace := by
      rw [← calls_filter]
      exact List.mem_map.mpr ⟨(worker, work), List.mem_filter.mpr ⟨called, by simp⟩, rfl⟩
    rw [records.calledBy_getLast] at own
    split at own
    · exact List.mem_of_getLast? (Option.mem_toList.mp own)
    · simp at own
  refine ⟨callers, List.Nodup.map_on ?_ (List.Nodup.of_map _ callers)⟩
  rintro ⟨first, work⟩ one ⟨second, _⟩ other rfl
  exact congrArg (fun worker => (worker, work)) (popper_unique once (popped one) (popped other))

/-- In every run a worker calls nothing before it ends, and then only the last work that it has popped. So the pool calls
no work twice, it calls at most as much work as it has workers, and it calls nothing before it is shut down. -/
theorem run_calls (uninitialized : Fin threadNumber → Bool) (actions : List (Action threadNumber))
    (outputs : List (List (Fin threadNumber × WorkEvent))) (pool : ThreadPool threadNumber)
    (returned : run step (new uninitialized) actions = .ok (outputs, pool)) :
    (∀ worker, calledBy worker outputs.flatten = if (pool.workThreads worker).phase = .exited then
        (poppedBy worker outputs.flatten).getLast?.toList else []) ∧
      ((calls outputs.flatten).map Prod.snd).Nodup ∧ (calls outputs.flatten).length ≤ threadNumber ∧
      (calls outputs.flatten ≠ [] → pool.isShutdown = true) := by
  obtain ⟨records, _⟩ := run_records uninitialized returned
  obtain ⟨callers, works⟩ := records.calls_nodup
  refine ⟨records.calledBy_getLast, works, ?_, fun some => ?_⟩
  · have bound := callers.length_le_card
    rwa [List.length_map, Fintype.card_fin] at bound
  · obtain ⟨⟨worker, work⟩, member⟩ := List.exists_mem_of_ne_nil _ some
    refine records.closed worker (Or.inr ?_)
    by_contra running
    have own : work ∈ calledBy worker outputs.flatten := by
      rw [← calls_filter]
      exact List.mem_map.mpr ⟨(worker, work), List.mem_filter.mpr ⟨member, by simp⟩, rfl⟩
    rw [records.ran, if_neg running] at own
    simp at own

/-- A worker pops two items before the pool is shut down and calls the second one only. -/
theorem run_calls_last :
    ∃ outputs pool, run step (new fun _ : Fin 1 => false) ([.submitWork, .submitWork] ++
        List.replicate 10 (.workThread 0) ++ .shutdown :: List.replicate 2 (.workThread 0)) = .ok (outputs, pool) ∧
      calls outputs.flatten = [(0, 1)] ∧
      (∀ worker, calledBy worker outputs.flatten = if (pool.workThreads worker).phase = .exited then
        (poppedBy worker outputs.flatten).getLast?.toList else []) ∧
      ((calls outputs.flatten).map Prod.snd).Nodup ∧ (calls outputs.flatten).length ≤ 1 ∧
      (calls outputs.flatten ≠ [] → pool.isShutdown = true) :=
  ⟨_, _, rfl, rfl, run_calls (fun _ => false) ([.submitWork, .submitWork] ++ List.replicate 10 (.workThread 0) ++
    .shutdown :: List.replicate 2 (.workThread 0)) _ _ rfl⟩

end Records

end MySkipList.ThreadPool
