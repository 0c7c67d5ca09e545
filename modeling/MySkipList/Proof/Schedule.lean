import MySkipList.Foundation.Agreement
import MySkipList.Proof.Timer
import MySkipList.Specification.Schedule

namespace MySkipList.Timer

open Foundation

variable {K : Type}

/-- The key and the deadline without the cell that holds them. -/
def Deadline.entry (deadline : Deadline K) : K × Int := (deadline.key, deadline.expire)

section Memory
variable {timer final : Timer K} {deadlines front back : List (Deadline K)} {target : Deadline K}

/-- `Push` adds one cell. -/
theorem push_live {key : K} {timeout now result : Int} (returned : timer.push key timeout now = .ok (result, final)) :
    final.heap.live.card = timer.heap.live.card + 1 := by
  have grown (node : UtilTimer K) : (timer.heap.alloc node).live.card = timer.heap.live.card + 1 := by
    rw [Heap.live_alloc, Finset.card_insert_of_notMem timer.heap.next_notMem_live]
  unfold Timer.push at returned
  dsimp only at returned
  split at returned
  · obtain ⟨_, rfl⟩ := Prod.mk.inj (Except.ok.inj returned)
    exact grown _
  · obtain ⟨linked, first, returned⟩ := (Exec.bind_eq_ok _ _ _).mp returned
    obtain ⟨last, _, returned⟩ := (Exec.bind_eq_ok _ _ _).mp returned
    obtain ⟨heap, second, returned⟩ := (Exec.bind_eq_ok _ _ _).mp returned
    obtain ⟨_, rfl⟩ := Prod.mk.inj (Except.ok.inj returned)
    rw [Heap.live_assign second, Heap.live_assign first]
    exact grown _

/-- A release of a cell leaves one cell less. -/
theorem free_card {heap rest : Heap (UtilTimer K)} {ref : Ref} (returned : heap.free ref = .ok rest) :
    rest.live.card + 1 = heap.live.card := by
  obtain ⟨member, live⟩ := Heap.live_free returned
  rw [live, Finset.card_erase_add_one member]

/-- `Pop` releases one cell whenever it returns 0. -/
theorem pop_live [DecidableEq K] {key : K} (returned : timer.pop key = .ok (0, final)) :
    final.heap.live.card + 1 = timer.heap.live.card := by
  unfold Timer.pop at returned
  split at returned
  · cases (Prod.mk.inj (Except.ok.inj returned)).1
  · obtain ⟨temp, _, returned⟩ := (Exec.bind_eq_ok _ _ _).mp returned
    split at returned
    · obtain ⟨heap, freed, returned⟩ := (Exec.bind_eq_ok _ _ _).mp returned
      obtain ⟨_, rfl⟩ := Prod.mk.inj (Except.ok.inj returned)
      exact free_card freed
    · split at returned
      · obtain ⟨cell, _, returned⟩ := (Exec.bind_eq_ok _ _ _).mp returned
        obtain ⟨second, _, returned⟩ := (Exec.bind_eq_ok _ _ _).mp returned
        obtain ⟨middle, assigned, returned⟩ := (Exec.bind_eq_ok _ _ _).mp returned
        obtain ⟨heap, freed, returned⟩ := (Exec.bind_eq_ok _ _ _).mp returned
        obtain ⟨_, rfl⟩ := Prod.mk.inj (Except.ok.inj returned)
        rw [← Heap.live_assign assigned]
        exact free_card freed
      · split at returned
        · obtain ⟨last, _, returned⟩ := (Exec.bind_eq_ok _ _ _).mp returned
          obtain ⟨cell, _, returned⟩ := (Exec.bind_eq_ok _ _ _).mp returned
          obtain ⟨before, _, returned⟩ := (Exec.bind_eq_ok _ _ _).mp returned
          obtain ⟨middle, assigned, returned⟩ := (Exec.bind_eq_ok _ _ _).mp returned
          obtain ⟨heap, freed, returned⟩ := (Exec.bind_eq_ok _ _ _).mp returned
          obtain ⟨_, rfl⟩ := Prod.mk.inj (Except.ok.inj returned)
          rw [← Heap.live_assign assigned]
          exact free_card freed
        · obtain ⟨ref, _, returned⟩ := (Exec.bind_eq_ok _ _ _).mp returned
          obtain ⟨cell, _, returned⟩ := (Exec.bind_eq_ok _ _ _).mp returned
          obtain ⟨before, _, returned⟩ := (Exec.bind_eq_ok _ _ _).mp returned
          obtain ⟨left, first, returned⟩ := (Exec.bind_eq_ok _ _ _).mp returned
          obtain ⟨other, _, returned⟩ := (Exec.bind_eq_ok _ _ _).mp returned
          obtain ⟨after, _, returned⟩ := (Exec.bind_eq_ok _ _ _).mp returned
          obtain ⟨right, second, returned⟩ := (Exec.bind_eq_ok _ _ _).mp returned
          obtain ⟨heap, freed, returned⟩ := (Exec.bind_eq_ok _ _ _).mp returned
          obtain ⟨_, rfl⟩ := Prod.mk.inj (Except.ok.inj returned)
          rw [← Heap.live_assign first, ← Heap.live_assign second]
          exact free_card freed

/-- The linked deadlines are all the live cells. -/
structure Owns (timer : Timer K) (deadlines : List (Deadline K)) : Prop extends Represents timer deadlines where
  counted : timer.heap.live.card = deadlines.length

theorem new_owns : (new : Timer K).Owns [] := ⟨new_represents, rfl⟩

theorem Owns.live (owns : timer.Owns deadlines) : timer.heap.live = (deadlines.map Deadline.ref).toFinset := by
  refine (Finset.eq_of_subset_of_card_le ?_ ?_).symm
  · intro ref member
    obtain ⟨deadline, present, rfl⟩ := List.mem_map.mp (List.mem_toFinset.mp member)
    exact Heap.mem_live.mpr (owns.linked.live present)
  · rw [List.toFinset_card_of_nodup owns.distinct, List.length_map, owns.counted]

theorem Owns.push (owns : timer.Owns deadlines) (key : K) (timeout now : Int) :
    ∃ final, timer.push key timeout now = .ok (1, final) ∧
      final.Owns (deadlines ++ [⟨timer.heap.next, key, now + timeout⟩]) := by
  obtain ⟨final, pushed, rep⟩ := owns.toRepresents.push key timeout now
  refine ⟨final, pushed, rep, ?_⟩
  rw [push_live pushed, owns.counted, List.length_append, List.length_singleton]

theorem Owns.pop [DecidableEq K] (owns : timer.Owns (front ++ target :: back))
    (missing : ∀ deadline ∈ front, deadline.key ≠ target.key) :
    ∃ final, timer.pop target.key = .ok (0, final) ∧ final.Owns (front ++ back) := by
  obtain ⟨final, popped, rep⟩ := owns.toRepresents.pop missing
  refine ⟨final, popped, rep, ?_⟩
  have fewer := pop_live popped
  rw [owns.counted] at fewer
  simp only [List.length_append, List.length_cons] at fewer ⊢
  omega

/-- `Tick` releases the cells of the deadlines that it hands out. -/
theorem Owns.tickLoop [DecidableEq K] (owns : timer.Owns deadlines) (now : Int) {fuel : Nat}
    (enough : deadlines.length < fuel) :
    ∃ final, Timer.tickLoop now fuel timer =
        .ok ((deadlines.takeWhile fun deadline => deadline.expire ≤ now).map Deadline.key, final) ∧
      final.Owns (deadlines.dropWhile fun deadline => deadline.expire ≤ now) := by
  induction deadlines generalizing timer fuel with
  | nil =>
      obtain ⟨fuel, rfl⟩ := Nat.exists_eq_add_one_of_ne_zero (Nat.ne_zero_of_lt enough)
      have head : timer.head = none := owns.head
      exact ⟨timer, by simp [Timer.tickLoop, head], owns⟩
  | cons deadline rest ih =>
      obtain ⟨fuel, rfl⟩ := Nat.exists_eq_add_one_of_ne_zero (Nat.ne_zero_of_lt enough)
      have head : timer.head = some deadline.ref := owns.head
      by_cases due : deadline.expire ≤ now
      · have whole : timer.Owns ([] ++ deadline :: rest) := owns
        obtain ⟨middle, popped, still⟩ := whole.pop (by simp)
        obtain ⟨final, returned, kept⟩ := ih still (Nat.lt_of_succ_lt_succ enough)
        refine ⟨final, ?_, ?_⟩
        · simp [Timer.tickLoop, head, Heap.read_of_live owns.linked.1, not_lt.mpr due, due, popped, returned]
        · simpa [due] using kept
      · refine ⟨timer, ?_, ?_⟩
        · simp [Timer.tickLoop, head, Heap.read_of_live owns.linked.1, not_le.mp due, due]
        · simpa [due] using owns

/-- The walk of the destructor releases every cell of its list once. -/
theorem Segment.release {heap : Heap (UtilTimer K)} {prev : Option Ref} (segment : Segment heap prev deadlines none)
    (distinct : (deadlines.map Deadline.ref).Nodup) {fuel : Nat} (enough : deadlines.length < fuel) :
    ∃ final, Timer.release fuel (first deadlines) heap = .ok final ∧
      final.live = heap.live \ (deadlines.map Deadline.ref).toFinset := by
  induction deadlines generalizing heap prev fuel with
  | nil =>
      obtain ⟨fuel, rfl⟩ := Nat.exists_eq_add_one_of_ne_zero (Nat.ne_zero_of_lt enough)
      exact ⟨heap, rfl, by simp⟩
  | cons deadline rest ih =>
      obtain ⟨fuel, rfl⟩ := Nat.exists_eq_add_one_of_ne_zero (Nat.ne_zero_of_lt enough)
      obtain ⟨outside, apart⟩ := List.nodup_cons.mp distinct
      obtain ⟨final, released, live⟩ := ih (segment.2.discard_outside outside) apart (Nat.lt_of_succ_lt_succ enough)
      refine ⟨final, ?_, ?_⟩
      · simp [Timer.release, Heap.read_of_live segment.1, Heap.free_of_live segment.1, released]
      · rw [live, Heap.live_discard]
        ext ref
        simp only [Finset.mem_sdiff, Finset.mem_erase, List.mem_toFinset, List.map_cons, List.mem_cons, not_or]
        tauto

theorem Owns.destroy (owns : timer.Owns deadlines) : ∃ heap, timer.destroy = .ok heap ∧ heap.live = ∅ := by
  obtain ⟨heap, released, live⟩ := owns.linked.release owns.distinct owns.toRepresents.length_lt_turns
  refine ⟨heap, ?_, ?_⟩
  · rw [Timer.destroy, owns.head]
    exact released
  · rw [live, owns.live, sdiff_self]
    rfl

end Memory

section Operations
variable [DecidableEq K] {timer : Timer K} {deadlines : List (Deadline K)}

/-- The timer owns the cells of the pending entries and of nothing else. -/
def Shows (timer : Timer K) (pending : List (K × Int)) : Prop :=
  ∃ deadlines, timer.Owns deadlines ∧ pending = deadlines.map Deadline.entry

omit [DecidableEq K] in
theorem Owns.shows (owns : timer.Owns deadlines) : timer.Shows (deadlines.map Deadline.entry) := ⟨deadlines, owns, rfl⟩

omit [DecidableEq K] in
theorem Shows.push {pending : List (K × Int)} (shows : timer.Shows pending) (key : K) (timeout now : Int) :
    ∃ final, timer.push key timeout now = .ok (1, final) ∧ final.Shows (pending ++ [(key, now + timeout)]) := by
  obtain ⟨deadlines, owns, rfl⟩ := shows
  obtain ⟨final, pushed, still⟩ := owns.push key timeout now
  exact ⟨final, pushed, _, still, by simp [Deadline.entry]⟩

theorem Shows.tick {pending : List (K × Int)} (shows : timer.Shows pending) (now : Int) :
    ∃ final, timer.tick now = .ok ((pending.takeWhile (Schedule.due now)).map Prod.fst, final) ∧
      final.Shows (pending.dropWhile (Schedule.due now)) := by
  obtain ⟨deadlines, owns, rfl⟩ := shows
  obtain ⟨final, ticked, still⟩ := owns.tickLoop now owns.toRepresents.length_lt_turns
  refine ⟨final, ?_, _, still, ?_⟩
  · rw [List.takeWhile_map, List.map_map]
    exact ticked
  · rw [List.dropWhile_map]
    rfl

/-- `Pop` takes the first entry of its key away, or it follows a null pointer. -/
theorem Owns.operate_pop (owns : timer.Owns deadlines) (key : K) :
    Exec.Agrees (fun result answer => result.1 = answer.1 ∧ Shows result.2 answer.2) (timer.operate (.pop key))
      (Schedule.operate (deadlines.map Deadline.entry) (.pop key)) := by
  have keys : (deadlines.map Deadline.entry).map Prod.fst = deadlines.map Deadline.key := by
    rw [List.map_map]
    rfl
  by_cases empty : deadlines = []
  · subst empty
    have head : timer.head = none := owns.head
    have returned : timer.operate (.pop key) = .ok (.number (-1), timer) := by simp [Timer.operate, Timer.pop, head]
    exact .of_returns returned rfl ⟨rfl, owns.shows⟩
  · by_cases present : key ∈ deadlines.map Deadline.key
    · obtain ⟨front, target, back, rfl, rfl, missing⟩ := first_occurrence present
      obtain ⟨final, popped, still⟩ := owns.pop missing
      have erased : ((front ++ target :: back).map Deadline.entry).eraseP (fun entry => entry.1 = target.key) =
          (front ++ back).map Deadline.entry := by
        rw [List.map_append, List.map_cons, List.eraseP_append_right, List.eraseP_cons_of_pos, List.map_append]
        · simp [Deadline.entry]
        · intro entry member
          obtain ⟨deadline, inside, rfl⟩ := List.mem_map.mp member
          exact fun same => missing deadline inside (of_decide_eq_true same)
      have returned : timer.operate (.pop target.key) = .ok (.number 0, final) := by simp [Timer.operate, popped]
      have answered : Schedule.operate ((front ++ target :: back).map Deadline.entry) (.pop target.key) =
          .ok (.number 0, (front ++ back).map Deadline.entry) := by
        rw [Schedule.operate, if_neg (by simp), keys, if_pos present, erased]
        rfl
      exact .of_returns returned answered ⟨rfl, still.shows⟩
    · have missing : ∀ deadline ∈ deadlines, deadline.key ≠ key := fun deadline member same =>
        present (List.mem_map.mpr ⟨deadline, member, same⟩)
      have fault := owns.toRepresents.pop_absent empty missing
      rw [Timer.operate, fault, Schedule.operate, if_neg (by simpa using empty), keys, if_neg present]
      exact .stopped _

/-- Every call agrees with the call of the queue of deadlines. -/
theorem Owns.operate (owns : timer.Owns deadlines) (operation : Operation K) :
    Exec.Agrees (fun result answer => result.1 = answer.1 ∧ Shows result.2 answer.2) (timer.operate operation)
      (Schedule.operate (deadlines.map Deadline.entry) operation) := by
  cases operation with
  | push key timeout now =>
      obtain ⟨final, pushed, still⟩ := owns.shows.push key timeout now
      have returned : timer.operate (.push key timeout now) = .ok (.number 1, final) := by simp [Timer.operate, pushed]
      exact .of_returns returned rfl ⟨rfl, still⟩
  | pop key => exact owns.operate_pop key
  | tick now =>
      obtain ⟨final, ticked, still⟩ := owns.shows.tick now
      have returned : timer.operate (.tick now) =
          .ok (.keys (((deadlines.map Deadline.entry).takeWhile (Schedule.due now)).map Prod.fst), final) := by
        rw [Timer.operate, ticked]
        rfl
      exact .of_returns returned rfl ⟨rfl, still⟩

/-- Every run of `Push`, `Pop` and `Tick` returns what the queue of deadlines returns, and it stops at a fault exactly
when the queue is asked for a key that is not pending. -/
theorem run_schedules (operations : List (Operation K)) :
    (run operate new operations).map Prod.fst = (run Schedule.operate [] operations).map Prod.fst := by
  have agrees := run_agrees operate Schedule.operate Shows (by
    rintro timer _ operation ⟨deadlines, owns, rfl⟩
    exact owns.operate operation) new [] operations new_owns.shows
  exact agrees.map_eq Prod.fst Prod.fst fun _ _ related => related.1

/-- After every run that returns, the live cells are the cells of the chain, one for each pending entry, and the
destructor releases all of them without a double free. -/
theorem run_destroy (operations : List (Operation K)) (replies : List (Reply K)) (timer : Timer K)
    (returned : run operate new operations = .ok (replies, timer)) :
    (∃ deadlines, timer.Represents deadlines ∧ timer.scheduled = deadlines.map Deadline.entry ∧
      timer.heap.live = (deadlines.map Deadline.ref).toFinset ∧ timer.heap.live.card = timer.scheduled.length) ∧
      ∃ heap, timer.destroy = .ok heap ∧ heap.live = ∅ := by
  have agrees := run_agrees operate Schedule.operate Shows (by
    rintro timer _ operation ⟨deadlines, owns, rfl⟩
    exact owns.operate operation) new [] operations new_owns.shows
  rw [returned] at agrees
  obtain ⟨_, _, _, deadlines, owns, _⟩ := agrees.ok_left
  have listed : timer.scheduled = deadlines.map Deadline.entry := owns.toRepresents.scheduled
  refine ⟨⟨deadlines, owns.toRepresents, listed, owns.live, ?_⟩, owns.destroy⟩
  rw [owns.counted, listed, List.length_map]

/-- Two deadlines of one key, of which `Pop` removes the first. -/
theorem run_destroy_popped :
    ∃ replies timer, run operate new [.push (bytes "a") 10 0, .push (bytes "b") 5 0, .push (bytes "a") 1 0,
        .pop (bytes "a")] = .ok (replies, timer) ∧
      (∃ deadlines, timer.Represents deadlines ∧ timer.scheduled = deadlines.map Deadline.entry ∧
        timer.heap.live = (deadlines.map Deadline.ref).toFinset ∧ timer.heap.live.card = timer.scheduled.length) ∧
      ∃ heap, timer.destroy = .ok heap ∧ heap.live = ∅ :=
  ⟨_, _, rfl, run_destroy [.push (bytes "a") 10 0, .push (bytes "b") 5 0, .push (bytes "a") 1 0, .pop (bytes "a")]
    _ _ rfl⟩

/-- The entry that a call appends. -/
def Action.entry : Action K → Option (K × Int)
  | .push key timeout now => some (key, now + timeout)
  | .tick _ => none

/-- The clock that `Tick` reads. -/
def Action.clock : Action K → Option Int
  | .push _ _ _ => none
  | .tick now => some now

/-- A call hands out leading entries that are due at its clock, and appends the entry that it pushes. -/
theorem Represents.act_entries (rep : timer.Represents deadlines) (action : Action K) :
    ∃ handed final later, Timer.act timer action = .ok (handed.map Prod.fst, final) ∧ final.Represents later ∧
      handed ++ later.map Deadline.entry = deadlines.map Deadline.entry ++ action.entry.toList ∧
      ∀ entry ∈ handed, ∃ clock, action.clock = some clock ∧ entry.2 ≤ clock := by
  cases action with
  | push key timeout now =>
      obtain ⟨final, pushed, still⟩ := rep.push key timeout now
      exact ⟨[], final, _, by simp [Timer.act, pushed], still, by simp [Action.entry, Deadline.entry], by simp⟩
  | tick now =>
      obtain ⟨final, ticked, still⟩ := rep.tick now
      refine ⟨(deadlines.takeWhile fun deadline => deadline.expire ≤ now).map Deadline.entry, final, _, ?_, still, ?_, ?_⟩
      · rw [Timer.act, ticked, List.map_map]
        rfl
      · rw [← List.map_append, List.takeWhile_append_dropWhile, Action.entry, Option.toList_none, List.append_nil]
      · intro entry member
        obtain ⟨deadline, inside, rfl⟩ := List.mem_map.mp member
        exact ⟨now, rfl, by simpa [Deadline.entry] using List.mem_takeWhile_imp inside⟩

/-- A tick at a time that no earlier tick exceeds completes the longest leading part of the pushed entries that is due
then, and it leaves the rest. So a key comes out at the first tick that reaches its own deadline and the deadlines of
all entries that were pushed before it. -/
theorem act_hands_out_prefix (actions : List (Action K)) (now : Int)
    (latest : ∀ clock ∈ actions.filterMap Action.clock, clock ≤ now) :
    ∃ outputs timer, run act new (actions ++ [.tick now]) = .ok (outputs, timer) ∧
      outputs.flatten = ((actions.filterMap Action.entry).takeWhile (Schedule.due now)).map Prod.fst ∧
      timer.scheduled = (actions.filterMap Action.entry).dropWhile (Schedule.due now) := by
  obtain ⟨outputs, timer, returned, deadlines, handed, rep, given, split, early⟩ := run_total_history act
    (fun past outputs timer => ∃ (deadlines : List (Deadline K)) (handed : List (K × Int)), timer.Represents deadlines ∧
      outputs.flatten = handed.map Prod.fst ∧ handed ++ deadlines.map Deadline.entry = past.filterMap Action.entry ∧
      ∀ entry ∈ handed, ∃ clock ∈ past.filterMap Action.clock, entry.2 ≤ clock) (by
      rintro past outputs timer action ⟨deadlines, handed, rep, given, split, early⟩
      obtain ⟨more, final, later, acted, still, moved, due⟩ := rep.act_entries action
      refine ⟨_, final, acted, later, handed ++ more, still, by simp [given], ?_, ?_⟩
      · rw [List.append_assoc, moved, ← List.append_assoc, split, List.filterMap_append]
        cases entry : action.entry <;> simp [entry]
      · intro entry member
        rw [List.filterMap_append]
        rcases List.mem_append.mp member with old | new
        · obtain ⟨clock, present, bound⟩ := early entry old
          exact ⟨clock, List.mem_append_left _ present, bound⟩
        · obtain ⟨clock, present, bound⟩ := due entry new
          exact ⟨clock, List.mem_append_right _ (by simp [present]), bound⟩)
    [] [] new actions ⟨[], [], new_represents, rfl, rfl, by simp⟩
  obtain ⟨final, ticked, still⟩ := rep.tick now
  have due : ∀ entry ∈ handed, Schedule.due now entry = true := by
    intro entry member
    obtain ⟨clock, present, bound⟩ := early entry member
    exact decide_eq_true (bound.trans (latest clock present))
  rw [List.nil_append] at given split
  have whole : run act new (actions ++ [.tick now]) = .ok (outputs ++ [_], final) :=
    (run_append_eq_ok ..).mpr ⟨outputs, timer, _, returned,
      (run_cons_eq_ok ..).mpr ⟨_, final, [], ticked, rfl, rfl⟩, rfl⟩
  refine ⟨_, final, whole, ?_, ?_⟩
  · rw [← split, List.takeWhile_append_of_pos due, List.takeWhile_map, List.map_append, List.map_map,
      List.flatten_append, given, List.flatten_singleton]
    rfl
  · rw [← split, List.dropWhile_append_of_pos due, List.dropWhile_map, still.scheduled]
    rfl

/-- A short deadline waits behind a long one until the long one is due. -/
theorem act_hands_out_prefix_late :
    ∃ outputs timer, run act new ([.push (bytes "a") 10 0, .push (bytes "b") 1 0, .tick 5] ++ [.tick 10]) =
        .ok (outputs, timer) ∧
      outputs.flatten = ((([.push (bytes "a") 10 0, .push (bytes "b") 1 0, .tick 5] : List (Action Str)).filterMap
        Action.entry).takeWhile (Schedule.due 10)).map Prod.fst ∧
      timer.scheduled = (([.push (bytes "a") 10 0, .push (bytes "b") 1 0, .tick 5] : List (Action Str)).filterMap
        Action.entry).dropWhile (Schedule.due 10) :=
  act_hands_out_prefix [.push (bytes "a") 10 0, .push (bytes "b") 1 0, .tick 5] 10 (by decide)

end Operations

end MySkipList.Timer
