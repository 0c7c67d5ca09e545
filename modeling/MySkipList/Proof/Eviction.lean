import MySkipList.Proof.LRUCache
import MySkipList.Foundation.Text

namespace MySkipList.LRUCache

open Foundation

variable {K V : Type} [DecidableEq K]

/-- The caches that the public interface reaches. The owner may rewrite the public list of deleted keys. -/
inductive Reachable : LRUCache K V → Prop where
  | created (capacity : Int) : Reachable (create capacity)
  | called {store next : LRUCache K V} {action : Action K V} (reachable : Reachable store)
      (returned : store.act action = .ok ((), next)) : Reachable next
  | queued {store : LRUCache K V} (reachable : Reachable store) (keys : List K) :
      Reachable { store with deleteKeys := keys }

theorem Reachable.represents {store : LRUCache K V} (reachable : Reachable store) :
    ∃ recency, store.Represents recency := by
  induction reachable with
  | created capacity => exact ⟨[], create_represents capacity⟩
  | @called store next action _ returned ih =>
      obtain ⟨recency, rep⟩ := ih
      obtain ⟨final, acted, result, _⟩ := rep.act action
      obtain rfl : final = next := (Prod.mk.inj (Except.ok.inj (acted.symm.trans returned))).2
      exact ⟨_, result⟩
  | queued _ keys ih =>
      obtain ⟨recency, rep⟩ := ih
      exact ⟨recency, rep.order, rep.keyed, rep.handles⟩

section Trim
variable {store next : LRUCache K V}

/-- An eviction erases the last entry of the list. -/
theorem evictLast_entries (returned : store.evictLast = .ok next) :
    next.lru.entries = store.lru.entries.dropLast := by
  obtain ⟨handle, ends, returned⟩ := (Exec.bind_eq_ok _ _ _).mp returned
  obtain ⟨entry, _, returned⟩ := (Exec.bind_eq_ok _ _ _).mp returned
  obtain ⟨list, erased, returned⟩ := (Exec.bind_eq_ok _ _ _).mp returned
  obtain ⟨stale, _, returned⟩ := (Exec.bind_eq_ok _ _ _).mp returned
  obtain rfl := Except.ok.inj returned
  obtain ⟨value, _, removed⟩ := (Exec.bind_eq_ok _ _ _).mp erased
  obtain rfl := Except.ok.inj removed
  exact HandleList.without_back ends

/-- The loop only erases entries at the end of the list. -/
theorem trim_prefix {capacity : Int} {fuel : Nat} (returned : trim capacity fuel store = .ok next) :
    next.lru.entries.IsPrefix store.lru.entries := by
  induction fuel generalizing store with
  | zero => cases returned
  | succ fuel ih =>
      rw [trim] at returned
      split at returned
      · obtain ⟨evicted, dropped, returned⟩ := (Exec.bind_eq_ok _ _ _).mp returned
        refine (ih returned).trans ?_
        rw [evictLast_entries dropped]
        exact List.dropLast_prefix _
      · obtain rfl := Except.ok.inj returned
        exact List.prefix_rfl

end Trim

/-- The most recent entries stay, with their handles, keys and values. The keys of the other entries are queued, from
the least to the most recent. -/
structure Retains (store : LRUCache K V) (wanted : Int) (next : LRUCache K V) : Prop where
  capacity : next.capacity = wanted
  order : next.lru.entries = if 0 < wanted then store.lru.entries.take wanted.toNat else store.lru.entries
  positions : ∀ key handle, next.cache.lookup key = some handle ↔ ∃ value, (handle, (key, value)) ∈ next.lru.entries
  queued : next.deleteKeys = store.deleteKeys ++
    ((store.lru.entries.drop next.lru.entries.length).map fun entry => entry.2.1).reverse
  once : ((store.lru.entries.drop next.lru.entries.length).map fun entry => entry.2.1).Nodup

theorem Represents.retains {store : LRUCache K V} {recency : List (K × V)} (rep : store.Represents recency)
    {wanted : Int} (accepted : 0 ≤ wanted) :
    ∃ next, store.setCapacity wanted = .ok (0, next) ∧ store.Retains wanted next := by
  obtain ⟨next, returned, result, capacity, queued⟩ := rep.setCapacity wanted accepted
  have kept : next.lru.entries.IsPrefix store.lru.entries := by
    rw [LRUCache.setCapacity, if_neg (not_lt.mpr accepted)] at returned
    obtain ⟨final, loop, returned⟩ := (Exec.bind_eq_ok _ _ _).mp returned
    obtain rfl := (Prod.mk.inj (Except.ok.inj returned)).2
    have trimmed := trim_prefix loop
    exact trimmed
  have length : next.lru.entries.length = (retain wanted recency).length := by rw [← result.order, List.length_map]
  have whole : store.lru.entries.length = recency.length := by rw [← rep.order, List.length_map]
  have keys : recency.map Prod.fst = store.lru.entries.map fun entry => entry.2.1 := by
    rw [← rep.order, List.map_map]
    rfl
  refine ⟨next, returned, capacity, ?_, result.handles, ?_, ?_⟩
  · rw [List.prefix_iff_eq_take.mp kept, length, retain]
    split
    · rw [List.length_take, ← whole, List.take_eq_take_iff]
      omega
    · rw [← whole, List.take_length]
  · rw [queued, length, List.map_drop, ← keys, ← List.map_drop, dropped, retain]
    split
    · rw [List.length_take, List.drop_eq_drop_min]
    · rw [List.drop_length]
      rfl
  · have distinct := rep.keyed
    rw [Keyed, keys] at distinct
    exact distinct.sublist ((List.drop_sublist ..).map _)

/-- A call of `set_capacity` with a negative capacity changes nothing. Any other capacity keeps exactly the most recent
entries, and zero keeps every entry. -/
theorem setCapacity_exact {store : LRUCache K V} (reachable : Reachable store) (wanted : Int) :
    (wanted < 0 → store.setCapacity wanted = .ok (-1, store)) ∧
      (0 ≤ wanted → ∃ next, store.setCapacity wanted = .ok (0, next) ∧ store.Retains wanted next) := by
  constructor
  · intro negative
    rw [LRUCache.setCapacity, if_pos negative]
    rfl
  · intro accepted
    obtain ⟨recency, rep⟩ := reachable.represents
    exact rep.retains accepted

/-- A smaller capacity keeps the two most recent entries and queues the oldest key first. -/
theorem setCapacity_exact_two :
    ∃ store : LRUCache Str Int, Reachable store ∧
      store.lru.entries = [(3, (bytes "d", 4)), (2, (bytes "c", 3)), (1, (bytes "b", 2)), (0, (bytes "a", 1))] ∧
      ∃ next, store.setCapacity 2 = .ok (0, next) ∧ store.Retains 2 next ∧
        next.deleteKeys = [bytes "a", bytes "b"] := by
  have first : Reachable _ := (Reachable.created (K := Str) (V := Int) 5).called
    (show act (create 5) (.put (bytes "a") 1) = .ok ((), _) from rfl)
  have second : Reachable _ := first.called (show act _ (.put (bytes "b") 2) = .ok ((), _) from rfl)
  have third : Reachable _ := second.called (show act _ (.put (bytes "c") 3) = .ok ((), _) from rfl)
  have fourth : Reachable _ := third.called (show act _ (.put (bytes "d") 4) = .ok ((), _) from rfl)
  obtain ⟨next, returned, retains⟩ := (setCapacity_exact fourth 2).2 (by decide)
  refine ⟨_, fourth, rfl, next, returned, retains, ?_⟩
  rw [retains.queued, retains.order]
  rfl

section Live
variable {store : LRUCache K V} {recency : List (K × V)}

/-- An eviction never gets past the read of its erased entry. -/
theorem evictLastLive_faults (store : LRUCache K V) : ∃ fault, store.evictLastLive = .error fault := by
  cases returned : store.evictLastLive with
  | error fault => exact ⟨fault, rfl⟩
  | ok next =>
      obtain ⟨handle, _, returned⟩ := (Exec.bind_eq_ok _ _ _).mp returned
      obtain ⟨entry, _, returned⟩ := (Exec.bind_eq_ok _ _ _).mp returned
      obtain ⟨list, erased, returned⟩ := (Exec.bind_eq_ok _ _ _).mp returned
      obtain ⟨stale, read, _⟩ := (Exec.bind_eq_ok _ _ _).mp returned
      rw [HandleList.read_of_erase erased] at read
      cases read

/-- The call evicts no entry: `put` of a new key finds room, and `set_capacity` fits the entries. -/
def Spares (store : LRUCache K V) : Action K V → Prop
  | .put key _ => store.cache.lookup key = none → ¬ (0 < store.capacity ∧ store.cache.size = store.capacity)
  | .setCapacity wanted => ¬ (0 < wanted ∧ wanted < store.cache.size)
  | _ => True

/-- Without an eviction the strict call is the call. -/
theorem actLive_of_spares {action : Action K V} (spares : store.Spares action) :
    store.actLive action = store.act action := by
  cases action with
  | get key => rfl
  | remove key => rfl
  | put key value =>
      have same : store.putLive key value = store.put key value := by
        cases found : store.cache.lookup key with
        | some handle => simp only [putLive, put, found]
        | none => simp only [putLive, put, found, if_neg (spares found)]
      rw [actLive, act, same]
  | setCapacity wanted =>
      have same : store.setCapacityLive wanted = store.setCapacity wanted := by
        simp only [setCapacityLive, setCapacity, trimLive, trim]
        rw [if_neg spares, if_neg spares]
      rw [actLive, act, same]

/-- A call with an eviction reads the erased entry. -/
theorem actLive_faults {action : Action K V} (evicts : ¬ store.Spares action) :
    ∃ fault, store.actLive action = .error fault := by
  cases action with
  | get key => exact absurd trivial evicts
  | remove key => exact absurd trivial evicts
  | put key value =>
      obtain ⟨missing, full⟩ := Classical.not_imp.mp evicts
      obtain ⟨fault, stopped⟩ := evictLastLive_faults store
      refine ⟨fault, ?_⟩
      simp only [actLive, putLive, missing, if_pos (not_not.mp full), stopped, Exec.error_bind]
  | setCapacity wanted =>
      have more := not_not.mp evicts
      obtain ⟨fault, stopped⟩ := evictLastLive_faults { store with capacity := wanted }
      refine ⟨fault, ?_⟩
      simp only [actLive, setCapacityLive, if_neg (not_lt.mpr more.1.le), trimLive, if_pos more, stopped,
        Exec.error_bind]

/-- A call without an eviction queues no key. -/
theorem Represents.queued_of_spares (rep : store.Represents recency) {action : Action K V}
    (spares : store.Spares action) : action.queued store.capacity recency = [] := by
  rw [← rep.evicted_eq]
  cases action with
  | get key => rfl
  | remove key => rfl
  | put key value => rw [evicted, if_neg fun full => spares full.1 full.2]
  | setCapacity wanted =>
      rw [evicted]
      split
      · rename_i positive
        have fits := not_lt.mp fun more => spares ⟨positive, more⟩
        rw [rep.size_eq, ← rep.order, List.length_map] at fits
        rw [List.drop_eq_nil_of_le (by omega)]
        rfl
      · rfl

/-- A run of the public interface reads live entries only, and queues no key of another one, if and only if none of its
calls evicts an entry. -/
theorem actLive_returns_iff (capacity : Int) (actions : List (Action K V)) :
    (∃ outputs final, run actLive (create capacity) actions = .ok (outputs, final) ∧
      run act (create capacity) actions = .ok (outputs, final) ∧ final.deleteKeys = []) ↔
      Meets act Spares (create capacity) actions := by
  have start : ∃ recency, (create capacity : LRUCache K V).Represents recency := ⟨[], create_represents capacity⟩
  have rule := run_strict_iff_meets actLive act Spares (fun store : LRUCache K V => ∃ recency, store.Represents recency)
    (by
      rintro store action ⟨recency, rep⟩
      obtain ⟨next, returned, result, _⟩ := rep.act action
      exact ⟨(), next, returned, _, result⟩)
    (fun _ _ _ => actLive_of_spares) (fun _ _ _ => actLive_faults) (create capacity) actions start
  constructor
  · rintro ⟨outputs, final, strictly, plainly, _⟩
    exact rule.mp ⟨outputs, final, strictly, plainly⟩
  · intro meets
    obtain ⟨outputs, final, strictly, plainly⟩ := rule.mpr meets
    have kept := run_invariant_of_meets act Spares
      (fun store : LRUCache K V => (∃ recency, store.Represents recency) ∧ store.deleteKeys = []) (by
        rintro store action output next ⟨⟨recency, rep⟩, empty⟩ spares returned
        obtain ⟨later, called, result, _, queued⟩ := rep.act action
        obtain ⟨rfl, rfl⟩ := Prod.mk.inj (Except.ok.inj (called.symm.trans returned))
        rw [empty, rep.queued_of_spares spares] at queued
        exact ⟨⟨_, result⟩, queued⟩)
      (create capacity) final actions outputs ⟨start, rfl⟩ meets plainly
    exact ⟨outputs, final, strictly, plainly, kept.2⟩

/-- The eviction of a full cache reads the entry that it has erased. -/
theorem put_reads_erased :
    run actLive (create 1 : LRUCache Str Int) [.put (bytes "a") 1, .put (bytes "b") 2] = .error .danglingPointer ∧
      ∃ outputs final, run act (create 1 : LRUCache Str Int) [.put (bytes "a") 1, .put (bytes "b") 2] =
        .ok (outputs, final) :=
  ⟨rfl, _, _, rfl⟩

end Live

end MySkipList.LRUCache
