import MySkipList.Proof.Server.Memory

namespace MySkipList

open Foundation

namespace View
variable {K V : Type} [LinearOrder K] [LinearOrder V]

/-- Only `SetMaxMemory` changes the capacity. -/
theorem insertElement_capacity (view : View K V) (entry : Entry K V) :
    (view.insertElement entry).2.capacity = view.capacity := by
  have fresh (view : View K V) : (view.insertFresh entry).capacity = view.capacity :=
    (unlinkAll_frame (view.receive entry) (view.receive entry).queued).2.1
  unfold insertElement
  split
  · exact fresh view
  · split
    · rfl
    · exact fresh (view.unlink entry.ele)

omit [LinearOrder V] in
theorem searchElement_capacity (toInt : V → Int) (view : View K V) (ele : K) :
    (view.searchElement toInt ele).2.capacity = view.capacity := by
  unfold searchElement
  split <;> rfl

end View

namespace SkipList
variable {K V : Type} [LinearOrder K] [LinearOrder V] {list next : SkipList K V}

/-- The cache of a sound list is within a positive capacity. -/
theorem Sound.fits (sound : list.Sound) (positive : 0 < list.lruCache.capacity) :
    (list.lruCache.cache.size : Int) ≤ list.lruCache.capacity := by
  obtain ⟨head, towers, view, shown, coherent⟩ := sound
  rw [shown.capacity] at positive ⊢
  rw [shown.cached.size_eq]
  exact coherent.fits positive

/-- An operation leaves the capacity of the view after it. -/
theorem Sound.capacity_of_operate (sound : list.Sound) (toInt : V → Int) (operation : Operation K V) {result : Int}
    (returned : list.operate toInt operation = .ok (result, next)) :
    ∃ view : View K V, view.capacity = list.lruCache.capacity ∧
      next.lruCache.capacity = (view.operate toInt list.maxLevel operation).2.capacity := by
  obtain ⟨head, towers, view, shown, coherent⟩ := sound
  obtain ⟨other, rest, operated, still, _⟩ := shown.operate coherent.toTracked toInt operation
  obtain ⟨_, rfl⟩ := Prod.mk.inj (Except.ok.inj (operated.symm.trans returned))
  exact ⟨view, shown.capacity.symm, still.capacity⟩

theorem new_capacity [Inhabited K] {maxLevel : Nat} (positive : 0 < maxLevel) {maxCapacity : Int}
    (accepted : 0 ≤ maxCapacity) {uninitialized : V} (constructed : new maxLevel maxCapacity uninitialized = .ok list) :
    list.lruCache.capacity = maxCapacity := by
  obtain ⟨other, made, _, shown⟩ := new_shows (K := K) positive maxCapacity uninitialized
  obtain rfl : other = list := Except.ok.inj (made.symm.trans constructed)
  rw [shown.capacity]
  exact if_neg (not_lt.mpr accepted)

end SkipList

namespace Server
variable {server next : Server}

theorem Operated.capacity {list final : SkipList Str CInt} (operated : Operated list final) (sound : list.Sound) :
    final.lruCache.capacity = list.lruCache.capacity := by
  cases operated with
  | kept => rfl
  | @inserted ele score draws result _ returned =>
      obtain ⟨view, before, after⟩ := sound.capacity_of_operate Subtype.val (.insertElement ele score draws) returned
      rw [after, View.operate, View.insertElement_capacity, before]
  | @deleted ele result _ returned =>
      obtain ⟨view, before, after⟩ := sound.capacity_of_operate Subtype.val (.deleteElement ele) returned
      rw [after, ← before]
      rfl
  | @searched ele result _ returned =>
      obtain ⟨view, before, after⟩ := sound.capacity_of_operate Subtype.val (.searchElement ele) returned
      rw [after, View.operate, View.searchElement_capacity, before]

/-- Without a pending change every set has the configured capacity. -/
structure Current (server : Server) : Prop extends Sound server where
  capacities : server.updateConfig = false → ∀ key list, server.map.lookup key = some list →
    list.lruCache.capacity = server.configs.maxMemory

theorem new_current : Server.new.Current where
  toSound := new_sound
  capacities _ key list found := by simp [Server.new] at found

theorem Located.capacity {request : Request} {key : Str} {list : SkipList Str CInt}
    (located : Located server request key list) (current : server.Current) (idle : server.updateConfig = false) :
    list.lruCache.capacity = server.configs.maxMemory := by
  cases located with
  | present found => exact current.capacities idle key list found
  | created _ _ constructed => exact SkipList.new_capacity (by decide) current.accepted constructed

theorem Current.stepped {step : Step} (current : server.Current) (stepped : Stepped server step next) :
    next.Current where
  toSound := current.toSound.stepped stepped
  capacities idle key list found := by
    cases stepped.source found with
    | held found calm =>
        rw [(calm idle).2]
        exact current.capacities (calm idle).1 key list found
    | accessed _ _ located operated frame =>
        rw [frame] at idle ⊢
        rw [operated.capacity (located.sound current.toSound)]
        exact located.capacity current idle
    | reconfigured _ found set configs =>
        obtain ⟨view, _, capacity⟩ := (current.sets key _ found).capacity_of_operate Subtype.val
          (.setMaxMemory server.configs.maxMemory) set
        rw [configs, capacity, View.operate, View.setMaxMemory, if_neg (not_lt.mpr current.accepted)]

/-- The maximum that a `CONFIG SET maxmemory` command configures; a negative one is rejected. -/
def Request.maximum (request : Request) : Option Int :=
  match request.args with
  | [action, name, text] =>
      if verb request.cmd = .config ∧ (action = bytes "SET" ∨ action = bytes "set") ∧
          (name = bytes "maxmemory" ∨ name = bytes "MAXMEMORY") then
        match stoi text with
        | some value => if value.val < 0 then none else some value.val
        | none => none
      else none
  | _ => none

/-- The maximum that a step of the loop configures. -/
def Step.maximum (server : Server) : Step → Option Int
  | .event (.receive request) => if server.control = .processing then Request.maximum request else none
  | _ => none

theorem maximum_of_other {request : Request} (other : verb request.cmd ≠ .config) : Request.maximum request = none := by
  unfold Request.maximum
  split
  · rw [if_neg fun facts => other facts.1]
  · rfl

/-- A command leaves the maximum that it configures, if any. -/
theorem Answered.maximum {request : Request} {response : Response} (answered : Answered server request response next) :
    next.configs.maxMemory = (Request.maximum request).getD server.configs.maxMemory := by
  cases answered with
  | misconfigured action count =>
      have none : Request.maximum request = none := by
        unfold Request.maximum
        split
        · rename_i args
          simp [args] at count
        · rfl
      rw [none, Option.getD_none]
  | configured action args sets maximum read =>
      simp only [Request.maximum, args, action, sets, maximum, read, true_and, if_true, Configs.setMaxMemory]
      split <;> rfl
  | unconfigured action args other kept =>
      have none : Request.maximum request = none := by
        simp only [Request.maximum, args]
        rw [if_neg fun facts => other facts.2]
      rcases kept with rfl | rfl <;> rw [none, Option.getD_none]
  | left action => rw [maximum_of_other (by simp [action]), Option.getD_none]
  | saved action => rw [maximum_of_other (by simp [action]), Option.getD_none]
  | mistimed action => rw [maximum_of_other (by simp [action]), Option.getD_none]
  | timed action => rw [maximum_of_other (by simp [action]), Option.getD_none]
  | absent _ _ _ _ setCommand => rw [maximum_of_other setCommand, Option.getD_none]
  | accessed _ _ setCommand => rw [maximum_of_other setCommand, Option.getD_none]

theorem step_maximum {step : Step} {response : Response} (returned : server.step step = .ok (response, next)) :
    next.configs.maxMemory = (Step.maximum server step).getD server.configs.maxMemory := by
  cases step_stepped returned with
  | @skipped event stopped =>
      have none : Step.maximum server (.event event) = none := by
        cases event with
        | receive request => exact if_neg stopped
        | _ => rfl
      rw [none, Option.getD_none]
  | @signalled received =>
      rw [(signalled_frame received server).2.2.1]
      rfl
  | handled running =>
      rw [Server.step, if_pos running] at returned
      rw [Step.maximum, if_pos running]
      exact (handle_answered returned).maximum
  | _ => rfl

/-- At the top of every iteration the maximum is the last one that a processed command configured, every set
has it as its capacity, and a positive one bounds the cache of every set. -/
theorem loop_capacity (iterations : List Iteration) (responses : List Response) (server : Server)
    (returned : loop iterations = .ok (responses, server)) :
    server.configs.maxMemory = ((visits step Server.new (iterations.flatMap Iteration.steps)).filterMap
        fun visit => Step.maximum visit.1 visit.2).getLastD 0 ∧
      ∀ key list, server.map.lookup key = some list → list.lruCache.capacity = server.configs.maxMemory ∧
        (0 < server.configs.maxMemory → (list.lruCache.cache.size : Int) ≤ server.configs.maxMemory) := by
  have current := run_invariant step Current (fun _ _ _ _ current returned => current.stepped (step_stepped returned))
    Server.new server (iterations.flatMap Iteration.steps) responses new_current returned
  have configured := run_invariant_past step
    (fun past server => server.configs.maxMemory =
      (past.filterMap fun visit => Step.maximum visit.1 visit.2).getLastD 0) (by
      intro past state input output next holds stepped
      rw [step_maximum stepped, holds, List.filterMap_append, List.getLastD_eq_getLast?, List.getLastD_eq_getLast?,
        List.getLast?_append]
      cases configured : Step.maximum state input <;> simp [configured])
    [] Server.new server (iterations.flatMap Iteration.steps) responses rfl returned
  refine ⟨configured, ?_⟩
  intro key list found
  have capacity := current.capacities (loop_settled returned) key list found
  refine ⟨capacity, ?_⟩
  rw [← capacity]
  exact (current.sets key list found).fits

theorem loop_capacity_reconfigured :
    ∃ responses server, loop [⟨[.receive (plain "ZADD k 1 a"), .receive (plain "ZADD k 2 b"),
        .receive (plain "CONFIG SET maxmemory 1"), .receive (plain "CONFIG SET maxmemory -2"),
        .receive (plain "ZADD m 3 c")], 0⟩] = .ok (responses, server) ∧ server.configs.maxMemory = 1 ∧
      ∀ key list, server.map.lookup key = some list → list.lruCache.capacity = server.configs.maxMemory ∧
        (0 < server.configs.maxMemory → (list.lruCache.cache.size : Int) ≤ server.configs.maxMemory) :=
  ⟨_, _, rfl, rfl, (loop_capacity [⟨[.receive (plain "ZADD k 1 a"), .receive (plain "ZADD k 2 b"),
    .receive (plain "CONFIG SET maxmemory 1"), .receive (plain "CONFIG SET maxmemory -2"),
    .receive (plain "ZADD m 3 c")], 0⟩] _ _ rfl).2⟩

end Server

end MySkipList
