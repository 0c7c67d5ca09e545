import MySkipList.Proof.Server.Totality
import MySkipList.Proof.SkipList.Coherence
import MySkipList.Proof.SkipList.Refinement
import MySkipList.Specification.KeyedStore

namespace MySkipList

open Foundation

namespace SkipList
variable {K V : Type} [LinearOrder K] [LinearOrder V] {list : SkipList K V} {capacity : Int} {pairs : List (K × V)}

/-- The elements that an operation evicts from the cache: an insertion calls `put`, and `SetMaxMemory` calls
`set_capacity`. -/
def evicted (list : SkipList K V) : Operation K V → List K
  | .insertElement ele score _ => list.lruCache.evicted (.put ele score)
  | .setMaxMemory maxMemory => list.lruCache.evicted (.setCapacity maxMemory)
  | _ => []

/-- The counter of a refined list is at most its capacity. -/
theorem Refines.bounded (refines : list.Refines capacity pairs) (positive : 0 < capacity) :
    (list.length.toNat : Int) ≤ capacity := by
  obtain ⟨head, towers, view, shown, coherent, idle, rfl, rfl⟩ := refines
  have settled := (shown.settled coherent idle).bounded
  rw [shown.capacity] at settled
  exact settled positive

theorem Refines.cache_size (refines : list.Refines capacity pairs) : list.lruCache.cache.size = pairs.length := by
  obtain ⟨head, towers, view, shown, coherent, idle, rfl, rfl⟩ := refines
  exact shown.cached.size_eq

/-- The insertion of a new element evicts what the full set gives up, and any other one evicts nothing. -/
theorem Refines.evicted_insertElement (refines : list.Refines capacity pairs) (ele : K) (score : V) (draws : List Nat) :
    list.evicted (.insertElement ele score draws) =
      if ele ∈ pairs.map Prod.fst then [] else overflow capacity pairs := by
  obtain ⟨head, towers, view, shown, coherent, idle, rfl, rfl⟩ := refines
  rw [← shown.capacity]
  exact shown.cached.evicted_eq (.put ele score)

/-- A new maximum that the pairs fit evicts nothing. -/
theorem Refines.setMaxMemory (refines : list.Refines capacity pairs) {maxMemory : Int} (accepted : 0 ≤ maxMemory)
    (fits : 0 < maxMemory → (pairs.length : Int) ≤ maxMemory) :
    ∃ final, list.setMaxMemory maxMemory = .ok (0, final) ∧ final.Refines maxMemory pairs := by
  obtain ⟨head, towers, view, shown, coherent, idle, rfl, rfl⟩ := refines
  obtain ⟨final, returned, still, _⟩ := shown.setMaxMemory maxMemory
  obtain ⟨kept, none⟩ := retain_whole fits
  have same := coherent.setMaxMemory maxMemory
  simp only [View.setMaxMemory, if_neg (not_lt.mpr accepted), kept, none, List.append_nil] at returned still same
  exact ⟨final, returned, head, towers, _, still, same, idle, rfl, rfl⟩

end SkipList

namespace Server
variable {server next : Server}

/-- A set of the server and the `ZCARD` of every set are at most a positive configured maximum. -/
def Bounded (server : Server) : Prop :=
  0 < server.configs.maxMemory → ∀ key list, server.map.lookup key = some list →
    (list.length.toNat : Int) ≤ server.configs.maxMemory ∧ list.lengthOf ≤ server.configs.maxMemory

/-- A new positive maximum takes effect only while every set has at most that many members. -/
def Fitting (server : Server) : Step → Prop
  | .reconfigure => server.updateConfig = true → 0 < server.configs.maxMemory →
      ∀ key list, server.map.lookup key = some list → (list.lruCache.cache.size : Int) ≤ server.configs.maxMemory
  | _ => True

/-- The members that a command evicts: `ZADD` of a member without a place in the cache of its set, while this cache is
full, evicts the last entry. -/
def evictedBy (server : Server) (request : Request) : List Str :=
  match request.call with
  | some (key, .insertElement member score draws) =>
      match server.map.lookup key with
      | some list => list.evicted (.insertElement member score draws)
      | none => []
  | _ => []

/-- The members that a step evicts; `UpdateMaxMemory` evicts those beyond the maximum in every set. -/
def evicted (server : Server) : Step → List Str
  | .event (.receive request) => if server.control = .processing then server.evictedBy request else []
  | .reconfigure =>
      if server.control ≠ .halted ∧ server.updateConfig = true then
        server.map.keys.flatMap fun key =>
          match server.map.lookup key with
          | some list => list.evicted (.setMaxMemory server.configs.maxMemory)
          | none => []
      else []
  | _ => []

/-- The step evicts no member of 16 bytes or more. The source reads every evicted key after the erasure of its entry,
and only a shorter key can be found there. -/
def EvictsShort (server : Server) (step : Step) : Prop := ∀ member ∈ server.evicted step, member.length < 16

instance (server : Server) (step : Step) : Decidable (server.EvictsShort step) :=
  inferInstanceAs (Decidable (∀ member ∈ _, _))

/-- No set has a waiting key, and without a pending change every set has the configured capacity. -/
structure Enforced (server : Server) : Prop where
  sets : ∀ key list, server.map.lookup key = some list → ∃ capacity pairs, list.Refines capacity pairs ∧
    (server.updateConfig = false → capacity = server.configs.maxMemory)
  accepted : 0 ≤ server.configs.maxMemory

theorem new_enforced : Server.new.Enforced where
  sets key list found := by simp [Server.new] at found
  accepted := le_rfl

theorem Operated.refines {list final : SkipList Str CInt} {capacity : Int} {pairs : List (Str × CInt)}
    (operated : Operated list final) (refines : list.Refines capacity pairs) :
    ∃ pairs, final.Refines capacity pairs := by
  cases operated with
  | kept => exact ⟨pairs, refines⟩
  | inserted returned =>
      obtain ⟨next, inserted, still⟩ := refines.insertElement _ _ _
      obtain ⟨_, rfl⟩ := Prod.mk.inj (Except.ok.inj (inserted.symm.trans returned))
      exact ⟨_, still⟩
  | deleted returned =>
      obtain ⟨next, deleted, still⟩ := refines.deleteElement _
      obtain ⟨_, rfl⟩ := Prod.mk.inj (Except.ok.inj (deleted.symm.trans returned))
      exact ⟨_, still⟩
  | searched returned =>
      obtain ⟨next, searched, still⟩ := refines.searchElement Subtype.val _
      obtain ⟨_, rfl⟩ := Prod.mk.inj (Except.ok.inj (searched.symm.trans returned))
      exact ⟨_, still⟩

theorem Enforced.located {request : Request} {key : Str} {list : SkipList Str CInt} (enforced : server.Enforced)
    (located : Located server request key list) : ∃ capacity pairs, list.Refines capacity pairs ∧
      (server.updateConfig = false → capacity = server.configs.maxMemory) := by
  cases located with
  | present found => exact enforced.sets key list found
  | created _ _ constructed =>
      obtain ⟨other, made, fresh⟩ := SkipList.new_refines (K := Str) maxLevel (by decide) server.configs.maxMemory
        enforced.accepted request.uninitialized
      obtain rfl : other = list := Except.ok.inj (made.symm.trans constructed)
      exact ⟨_, _, fresh, fun _ => rfl⟩

theorem Enforced.stepped {step : Step} (enforced : server.Enforced) (fitting : Fitting server step)
    (stepped : Stepped server step next) : next.Enforced where
  sets key list found := by
    cases stepped.source found with
    | held found calm =>
        obtain ⟨capacity, pairs, refines, current⟩ := enforced.sets key list found
        refine ⟨capacity, pairs, refines, fun idle => ?_⟩
        rw [(calm idle).2]
        exact current (calm idle).1
    | accessed _ _ located operated frame =>
        obtain ⟨capacity, pairs, refines, current⟩ := enforced.located located
        obtain ⟨later, still⟩ := operated.refines refines
        rw [frame]
        exact ⟨capacity, later, still, current⟩
    | reconfigured pending found set configs =>
        obtain ⟨capacity, pairs, refines, _⟩ := enforced.sets key _ found
        have fits (positive : 0 < server.configs.maxMemory) : (pairs.length : Int) ≤ server.configs.maxMemory := by
          rw [← refines.cache_size]
          exact fitting pending positive key _ found
        obtain ⟨other, returned, still⟩ := refines.setMaxMemory enforced.accepted fits
        obtain ⟨_, rfl⟩ := Prod.mk.inj (Except.ok.inj (returned.symm.trans set))
        rw [configs]
        exact ⟨_, pairs, still, fun _ => rfl⟩
  accepted := stepped.accepts enforced.accepted

theorem Enforced.bounded (enforced : server.Enforced) (idle : server.updateConfig = false) : server.Bounded := by
  intro positive key list found
  obtain ⟨capacity, pairs, refines, current⟩ := enforced.sets key list found
  have bound := refines.bounded (by rwa [current idle])
  rw [current idle] at bound
  refine ⟨bound, le_trans ?_ bound⟩
  rw [SkipList.lengthOf, BitVec.toInt_eq_toNat_cond]
  split <;> omega

/-- After the last iteration no change of the configuration is pending. -/
def Quiet (server : Server) : Prop := server.control = .halted → server.updateConfig = false

theorem Quiet.stepped {step : Step} (quiet : server.Quiet) (stepped : Stepped server step next) : next.Quiet := by
  cases stepped with
  | skipped => exact quiet
  | accepted => exact quiet
  | closed => exact quiet
  | @signalled received =>
      obtain ⟨_, _, _, updateConfig, control⟩ := signalled_frame received server
      rw [Quiet, control, updateConfig]
      exact quiet
  | handled running handled =>
      cases handled with
      | left => simp [Quiet]
      | kept => exact quiet
      | configured => simp [Quiet, running]
      | expiring => exact quiet
      | accessed => exact quiet
  | unexpired => exact quiet
  | expired => exact quiet
  | halted => exact quiet
  | settled idle => exact fun _ => idle
  | reconfigured => exact fun _ => rfl

/-- At the top of every iteration no change of the configuration is pending. -/
theorem loop_settled {iterations : List Iteration} {responses : List Response}
    (returned : loop iterations = .ok (responses, server)) : server.updateConfig = false := by
  rcases List.eq_nil_or_concat' iterations with rfl | ⟨front, last, rfl⟩
  · obtain ⟨_, rfl⟩ := Prod.mk.inj (Except.ok.inj returned)
    rfl
  · have steps : (front ++ [last]).flatMap Iteration.steps = (front.flatMap Iteration.steps ++
        (last.events.map .event ++ [.removeExpired last.now])) ++ [.reconfigure] := by
      simp [Iteration.steps]
    rw [loop, steps] at returned
    obtain ⟨early, middle, late, start, finish, _⟩ := (run_append_eq_ok ..).mp returned
    have quiet := run_invariant step Quiet (fun _ _ _ _ quiet stepped => quiet.stepped (step_stepped stepped))
      Server.new middle _ early (by simp [Quiet, Server.new]) start
    obtain ⟨response, final, rest, stepped, done, _⟩ := (run_cons_eq_ok ..).mp finish
    obtain ⟨_, rfl⟩ := Prod.mk.inj (Except.ok.inj done)
    cases step_stepped stepped with
    | halted stopped => exact quiet stopped
    | settled idle => exact idle
    | reconfigured => rfl

/-- At the top of every iteration every set is within a positive maximum, as long as no maximum took effect below the
size of a set and no member of 16 bytes or more was evicted. A step that evicts such a member reads its key from
released memory and may do anything. -/
theorem loop_bounded (undefined : Server → Step → Exec (Response × Server)) (iterations : List Iteration)
    (responses : List Response) (server : Server)
    (meets : Meets (guarded EvictsShort undefined step)
      (fun server step => server.Fitting step ∧ server.EvictsShort step) Server.new
      (iterations.flatMap Iteration.steps))
    (returned : run (guarded EvictsShort undefined step) Server.new (iterations.flatMap Iteration.steps) =
      .ok (responses, server)) : server.Bounded := by
  obtain ⟨same, fitting⟩ := run_guarded (fun _ _ both => both.2) meets
  rw [same] at returned
  have enforced := run_invariant_of_meets step _ Enforced
    (fun _ _ _ _ enforced both returned => enforced.stepped both.1 (step_stepped returned)) Server.new server
    (iterations.flatMap Iteration.steps) responses new_enforced fitting returned
  exact enforced.bounded (loop_settled returned)

theorem loop_bounded_configured :
    ∃ responses server, run (guarded EvictsShort (fun _ _ => .error .danglingPointer) step) Server.new
        ((commands ["CONFIG SET maxmemory 1", "ZADD k 1 a", "ZADD k 2 b"]).flatMap Iteration.steps) =
      .ok (responses, server) ∧ 0 < server.configs.maxMemory ∧ server.Bounded := by
  refine ⟨_, _, rfl, by decide, loop_bounded (fun _ _ => .error .danglingPointer)
    (commands ["CONFIG SET maxmemory 1", "ZADD k 1 a", "ZADD k 2 b"]) _ _ ?_ rfl⟩
  -- The maximum takes effect while there is no set, and the later iterations change no maximum.
  refine .cons ⟨trivial, by decide⟩ rfl (.cons ⟨trivial, by decide⟩ rfl (.cons ⟨?_, by decide⟩ rfl ?_))
  · intro _ _ key list found
    have empty : (∅ : Dictionary Str (SkipList Str CInt)).lookup key = some list := found
    simp at empty
  · exact .cons ⟨trivial, by decide⟩ rfl (.cons ⟨trivial, by decide⟩ rfl
      (.cons ⟨fun pending => absurd pending Bool.false_ne_true, by decide⟩ rfl
      -- The second member evicts the first one.
      (.cons ⟨trivial, by decide⟩ rfl (.cons ⟨trivial, by decide⟩ rfl
      (.cons ⟨fun pending => absurd pending Bool.false_ne_true, by decide⟩ rfl .nil)))))

/-- A maximum below the size of a set does not shrink the set. -/
theorem shrunk_set_stays :
    ∃ responses server list, loop (commands ["ZADD k 1 a", "ZADD k 2 b", "CONFIG SET maxmemory 1"]) =
      .ok (responses, server) ∧ server.configs.maxMemory = 1 ∧ server.map.lookup (bytes "k") = some list ∧
      list.lengthOf = 2 ∧ ¬ server.Bounded := by
  refine ⟨_, _, _, rfl, rfl, rfl, rfl, ?_⟩
  intro bounded
  have bound : (2 : Int) ≤ 1 := (bounded (by decide) (bytes "k") _ rfl).2
  exact absurd bound (by decide)

end Server

end MySkipList
