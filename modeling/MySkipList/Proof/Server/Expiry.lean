import MySkipList.Proof.Server.Totality

namespace MySkipList.Server

open Foundation

section Trace

/-- The step creates the set of the key. -/
def Creates (key : Str) (visit : Server × Step) : Prop :=
  ∃ request, visit.2 = .event (.receive request) ∧ visit.1.control = .processing ∧ verb request.cmd = .zadd ∧
    request.args.head? = some key ∧ visit.1.map.lookup key = none

/-- The step is a command that gives the key this deadline. -/
def SetsDeadline (key : Str) (deadline : Int) (visit : Server × Step) : Prop :=
  ∃ request text seconds, visit.2 = .event (.receive request) ∧ visit.1.control = .processing ∧
    verb request.cmd = .expire ∧ request.args = [key, text] ∧ stoi text = some seconds ∧
    deadline = request.now + seconds.val

/-- The step is a tick that removes the set of the key. -/
def Erases (key : Str) (now : Int) (visit : Server × Step) : Prop :=
  visit.2 = .removeExpired now ∧ visit.1.control ≠ .halted ∧ visit.1.timeout = true ∧
    (∃ keys timer, visit.1.timer.tick now = .ok (keys, timer) ∧ key ∈ keys) ∧
    ∃ list, visit.1.map.lookup key = some list

/-- The latest creation of the set was followed by a command for the key, and the latest such command
gave a deadline that has passed. -/
def Justified (past : List (Server × Step)) (key : Str) (now : Int) : Prop :=
  ∃ before created between command after deadline, past = before ++ created :: (between ++ command :: after) ∧
    Creates key created ∧ (∀ visit ∈ between ++ command :: after, ¬ Creates key visit) ∧
    SetsDeadline key deadline command ∧ (∀ visit ∈ after, ∀ other, ¬ SetsDeadline key other visit) ∧ deadline ≤ now

/-- A set is created only while its key has no pending deadline, and a set gets a deadline only while
its key has no earlier pending one. -/
def Orderly (server : Server) (step : Step) : Prop :=
  (∀ key, Creates key (server, step) → ∀ entry ∈ server.timer.scheduled, entry.1 ≠ key) ∧
    ∀ key deadline, SetsDeadline key deadline (server, step) → (∃ list, server.map.lookup key = some list) →
      ∀ entry ∈ server.timer.scheduled, entry.1 = key → deadline ≤ entry.2

theorem SetsDeadline.unique {key : Str} {first second : Int} {visit : Server × Step}
    (one : SetsDeadline key first visit) (two : SetsDeadline key second visit) : first = second := by
  obtain ⟨request, text, seconds, received, _, _, args, read, rfl⟩ := one
  obtain ⟨other, word, value, same, _, _, words, number, rfl⟩ := two
  obtain rfl : request = other := by simpa using received.symm.trans same
  obtain rfl : text = word := by simpa using args.symm.trans words
  obtain rfl : seconds = value := Option.some.inj (read.symm.trans number)
  rfl

end Trace

section Steps
variable {server next : Server} {step : Step}

/-- A set that is there after a step was there before, or the step created it and kept the timer. -/
theorem Stepped.present (stepped : Stepped server step next) {key : Str} {list : SkipList Str CInt}
    (found : next.map.lookup key = some list) :
    (∃ old, server.map.lookup key = some old) ∨ (Creates key (server, step) ∧ next.timer = server.timer) := by
  cases stepped.source found with
  | held found => exact Or.inl ⟨list, found⟩
  | @accessed request _ running named located _ frame =>
      cases located with
      | present held => exact Or.inl ⟨_, held⟩
      | created action absent _ =>
          refine Or.inr ⟨⟨request, rfl, running, action, named, absent⟩, ?_⟩
          rw [frame]
  | reconfigured _ found => exact Or.inl ⟨_, found⟩

/-- A deadline that is pending after a step was pending before, or the step set it. -/
theorem Stepped.scheduled (stepped : Stepped server step next) (sound : server.Sound) {entry : Str × Int}
    (pending : entry ∈ next.timer.scheduled) :
    entry ∈ server.timer.scheduled ∨ SetsDeadline entry.1 entry.2 (server, step) := by
  obtain ⟨deadlines, rep⟩ := sound.pending
  rcases stepped.timer with same | ⟨request, key, text, seconds, _, received, running, action, args, read, pushed⟩ |
    ⟨now, keys, ticked⟩
  · rw [same] at pending
    exact Or.inl pending
  · obtain ⟨final, returned, still⟩ := rep.push key seconds.val request.now
    obtain ⟨_, rfl⟩ := Prod.mk.inj (Except.ok.inj (returned.symm.trans pushed))
    rw [still.scheduled, List.map_append, ← rep.scheduled] at pending
    rcases List.mem_append.mp pending with old | new
    · exact Or.inl old
    · obtain rfl := List.mem_singleton.mp new
      exact Or.inr ⟨request, text, seconds, received, running, action, args, read, rfl⟩
  · obtain ⟨final, returned, still⟩ := rep.tick now
    obtain ⟨_, rfl⟩ := Prod.mk.inj (Except.ok.inj (returned.symm.trans ticked))
    rw [still.scheduled] at pending
    rw [rep.scheduled]
    exact Or.inl (((List.dropWhile_sublist _).map _).subset pending)

/-- A removed key has a pending deadline that has passed. -/
theorem Erases.due {key : Str} {now : Int} (erases : Erases key now (server, step)) (sound : server.Sound) :
    ∃ expire, (key, expire) ∈ server.timer.scheduled ∧ expire ≤ now := by
  obtain ⟨_, _, _, ⟨keys, timer, ticked, member⟩, _⟩ := erases
  obtain ⟨deadlines, rep⟩ := sound.pending
  obtain ⟨final, returned, _⟩ := rep.tick now
  obtain ⟨rfl, _⟩ := Prod.mk.inj (Except.ok.inj (ticked.symm.trans returned))
  obtain ⟨deadline, due, rfl⟩ := List.mem_map.mp member
  refine ⟨deadline.expire, ?_, by simpa using List.mem_takeWhile_imp due⟩
  rw [rep.scheduled]
  exact List.mem_map.mpr ⟨deadline, (List.takeWhile_sublist _).subset due, rfl⟩

end Steps

section Histories
variable {server next : Server} {step : Step} {past since : List (Server × Step)} {key : Str}

/-- No step has given the key a deadline, and none is pending. -/
def Unlimited (since : List (Server × Step)) (server : Server) (key : Str) : Prop :=
  (∀ visit ∈ since, ∀ deadline, ¬ SetsDeadline key deadline visit) ∧
    ∀ entry ∈ server.timer.scheduled, entry.1 ≠ key

/-- The latest deadline that a step has given the key is the earliest one that is pending. -/
def Limited (since : List (Server × Step)) (server : Server) (key : Str) : Prop :=
  ∃ between command after deadline, since = between ++ command :: after ∧ SetsDeadline key deadline command ∧
    (∀ visit ∈ after, ∀ other, ¬ SetsDeadline key other visit) ∧
    ∀ entry ∈ server.timer.scheduled, entry.1 = key → deadline ≤ entry.2

/-- The past of a set: its creation, and the deadlines since then. -/
def Dated (past : List (Server × Step)) (server : Server) (key : Str) : Prop :=
  ∃ before created since, past = before ++ created :: since ∧ Creates key created ∧
    (∀ visit ∈ since, ¬ Creates key visit) ∧ (Unlimited since server key ∨ Limited since server key)

/-- A step that gives the key no deadline keeps the limits of the key. -/
theorem Stepped.limits (stepped : Stepped server step next) (sound : server.Sound)
    (silent : ∀ deadline, ¬ SetsDeadline key deadline (server, step))
    (limits : Unlimited since server key ∨ Limited since server key) :
    Unlimited (since ++ [(server, step)]) next key ∨ Limited (since ++ [(server, step)]) next key := by
  have old {entry : Str × Int} (pending : entry ∈ next.timer.scheduled) (same : entry.1 = key) :
      entry ∈ server.timer.scheduled := by
    refine (stepped.scheduled sound pending).resolve_right fun sets => ?_
    rw [same] at sets
    exact silent entry.2 sets
  have extended {visits : List (Server × Step)} (quiet : ∀ visit ∈ visits, ∀ deadline, ¬ SetsDeadline key deadline visit) :
      ∀ visit ∈ visits ++ [(server, step)], ∀ deadline, ¬ SetsDeadline key deadline visit := by
    intro visit member
    rcases List.mem_append.mp member with earlier | last
    · exact quiet visit earlier
    · obtain rfl := List.mem_singleton.mp last
      exact silent
  rcases limits with ⟨quiet, none⟩ | ⟨between, command, after, deadline, rfl, sets, quiet, earliest⟩
  · exact Or.inl ⟨extended quiet, fun entry pending same => none entry (old pending same) same⟩
  · refine Or.inr ⟨between, command, after ++ [(server, step)], deadline, by simp, sets, extended quiet, ?_⟩
    exact fun entry pending same => earliest entry (old pending same) same

/-- A deadline for a set that is there becomes the limit of the key. -/
theorem Stepped.limited (stepped : Stepped server step next) (sound : server.Sound) (orderly : Orderly server step)
    {deadline : Int} (sets : SetsDeadline key deadline (server, step))
    (held : ∃ list, server.map.lookup key = some list) : Limited (since ++ [(server, step)]) next key := by
  refine ⟨since, (server, step), [], deadline, rfl, sets, by simp, ?_⟩
  intro entry pending same
  rcases stepped.scheduled sound pending with old | new
  · exact orderly.2 key deadline sets held entry old same
  · rw [same] at new
    exact (sets.unique new).le

/-- The server is sound, and every set has its past. -/
structure Traced (past : List (Server × Step)) (server : Server) : Prop where
  sound : server.Sound
  dated : ∀ key list, server.map.lookup key = some list → Dated past server key

theorem Traced.stepped (traced : Traced past server) (orderly : Orderly server step)
    (stepped : Stepped server step next) : Traced (past ++ [(server, step)]) next where
  sound := traced.sound.stepped stepped
  dated key list found := by
    rcases stepped.present found with ⟨held, lookup⟩ | ⟨creates, timer⟩
    · obtain ⟨before, created, since, rfl, creates, single, limits⟩ := traced.dated key held lookup
      refine ⟨before, created, since ++ [(server, step)], by simp, creates, ?_, ?_⟩
      · intro visit member
        rcases List.mem_append.mp member with earlier | last
        · exact single visit earlier
        · obtain rfl := List.mem_singleton.mp last
          rintro ⟨_, _, _, _, _, absent⟩
          simp [lookup] at absent
      · by_cases sets : ∃ deadline, SetsDeadline key deadline (server, step)
        · obtain ⟨deadline, sets⟩ := sets
          exact Or.inr (stepped.limited traced.sound orderly sets ⟨held, lookup⟩)
        · exact stepped.limits traced.sound (not_exists.mp sets) limits
    · refine ⟨past, (server, step), [], rfl, creates, by simp, Or.inl ⟨by simp, ?_⟩⟩
      rw [timer]
      exact orderly.1 key creates

/-- A set with its past that is removed has an expired latest deadline. -/
theorem Traced.justified (traced : Traced past server) {now : Int} (erases : Erases key now (server, step)) :
    Justified past key now := by
  obtain ⟨expire, pending, due⟩ := erases.due traced.sound
  obtain ⟨_, _, _, _, list, found⟩ := erases
  obtain ⟨before, created, since, rfl, creates, single, limits⟩ := traced.dated key list found
  rcases limits with ⟨_, none⟩ | ⟨between, command, after, deadline, rfl, sets, quiet, earliest⟩
  · exact absurd rfl (none (key, expire) pending)
  · exact ⟨before, created, between, command, after, deadline, rfl, creates, single, sets, quiet,
      (earliest (key, expire) pending rfl).trans due⟩

end Histories

theorem new_traced : Traced [] Server.new := ⟨new_sound, fun key list found => by simp [Server.new] at found⟩

/-- Whenever a tick removes a set, the latest deadline since its creation has passed, as long as no set
is created with a pending deadline and no deadline follows an earlier pending one. -/
theorem erased_on_deadline (iterations : List Iteration)
    (orderly : Meets step Orderly Server.new (iterations.flatMap Iteration.steps))
    (front back : List (Server × Step)) (visit : Server × Step)
    (split : visits step Server.new (iterations.flatMap Iteration.steps) = front ++ visit :: back)
    (key : Str) (now : Int) (erases : Erases key now visit) : Justified front key now := by
  have traced := visits_invariant step Orderly Traced
    (fun _ _ _ _ _ traced orderly returned => traced.stepped orderly (step_stepped returned)) [] Server.new
    (iterations.flatMap Iteration.steps) new_traced orderly split
  exact traced.justified erases

section Examples

theorem orderly_of_unscheduled {server : Server} (empty : server.timer.scheduled = []) (step : Step) :
    Orderly server step := by
  simp [Orderly, empty]

theorem orderly_of_internal {server : Server} {step : Step} (internal : ∀ request, step ≠ .event (.receive request)) :
    Orderly server step := by
  constructor
  · rintro key ⟨request, received, _⟩
    exact absurd received (internal request)
  · rintro key deadline ⟨request, _, _, received, _⟩
    exact absurd received (internal request)

/-- The iteration of a tick at this time. -/
def tickAt (now : Int) : Iteration := ⟨[.signals [.alarm]], now⟩

theorem erased_on_deadline_expired :
    ∃ front visit back, visits step Server.new
        ((commands ["ZADD k 1 a", "EXPIRE k 1"] ++ [tickAt 5]).flatMap Iteration.steps) = front ++ visit :: back ∧
      Erases (bytes "k") 5 visit ∧ Justified front (bytes "k") 5 := by
  have orderly : Meets step Orderly Server.new
      ((commands ["ZADD k 1 a", "EXPIRE k 1"] ++ [tickAt 5]).flatMap Iteration.steps) := by
    refine .cons (orderly_of_unscheduled rfl _) rfl (.cons (orderly_of_internal (by simp)) rfl
      (.cons (orderly_of_internal (by simp)) rfl (.cons (orderly_of_unscheduled rfl _) rfl
      (.cons (orderly_of_internal (by simp)) rfl (.cons (orderly_of_internal (by simp)) rfl ?_)))))
    exact .cons (orderly_of_internal (by simp)) rfl (.cons (orderly_of_internal (by simp)) rfl
      (.cons (orderly_of_internal (by simp)) rfl .nil))
  obtain ⟨front, visit, back, split, erases⟩ : ∃ front visit back, visits step Server.new
      ((commands ["ZADD k 1 a", "EXPIRE k 1"] ++ [tickAt 5]).flatMap Iteration.steps) = front ++ visit :: back ∧
        Erases (bytes "k") 5 visit :=
    ⟨visits step Server.new ((commands ["ZADD k 1 a", "EXPIRE k 1"]).flatMap Iteration.steps ++
      [.event (.signals [.alarm])]), (_, .removeExpired 5), [(_, .reconfigure)], rfl, rfl, by decide, rfl,
      ⟨_, _, rfl, by decide⟩, _, rfl⟩
  exact ⟨front, visit, back, split, erases, erased_on_deadline _ orderly front back visit split _ _ erases⟩

/-- A deadline that was set before the set existed removes the set. -/
theorem stale_deadline_erases :
    ∃ front visit back, visits step Server.new
        ((commands ["EXPIRE k 1", "ZADD k 1 a"] ++ [tickAt 5]).flatMap Iteration.steps) = front ++ visit :: back ∧
      Erases (bytes "k") 5 visit ∧ ¬ Justified front (bytes "k") 5 := by
  refine ⟨visits step Server.new ((commands ["EXPIRE k 1", "ZADD k 1 a"]).flatMap Iteration.steps ++
    [.event (.signals [.alarm])]), (_, .removeExpired 5), [(_, .reconfigure)], rfl,
    ⟨rfl, by decide, rfl, ⟨_, _, rfl, by decide⟩, _, rfl⟩, ?_⟩
  rintro ⟨before, created, between, command, after, deadline, split, _, _, sets, _⟩
  -- The command follows a creation, but only the first step of the run sets a deadline.
  have late : command.2 ∈ ((before ++ created :: (between ++ command :: after)).tail).map Prod.snd := by
    cases before <;> simp
  rw [← split] at late
  have listed : command.2 ∈ [.removeExpired 0, .reconfigure, .event (.receive (plain "ZADD k 1 a")),
      .removeExpired 0, .reconfigure, .event (.signals [.alarm])] := late
  obtain ⟨request, text, seconds, received, _, action, _⟩ := sets
  rw [received] at listed
  obtain rfl : request = plain "ZADD k 1 a" := by simpa using listed
  exact absurd action (by decide)

end Examples

end MySkipList.Server
