import MySkipList.Construction.LRUCache
import MySkipList.Foundation.Recency

namespace MySkipList.LRUCache

open Foundation

variable {K V : Type} [DecidableEq K]

/-- The cache represents a recency list when its list holds these pairs and its table maps
each key to the handle of its own entry. -/
structure Represents (store : LRUCache K V) (recency : List (K × V)) : Prop where
  order : store.lru.entries.map Prod.snd = recency
  keyed : Keyed recency
  handles : ∀ key handle, store.cache.lookup key = some handle ↔
    ∃ value, (handle, (key, value)) ∈ store.lru.entries

/-- A positive capacity bounds the number of pairs. -/
def Fits (capacity : Int) (recency : List (K × V)) : Prop :=
  0 < capacity → (recency.length : Int) ≤ capacity

omit [DecidableEq K] in
/-- A list that fits still fits once it has made room for a pair and taken it. -/
theorem Fits.makeRoom {capacity : Int} {recency : List (K × V)} (fits : Fits capacity recency)
    (pair : K × V) : Fits capacity (pair :: makeRoom capacity recency) := by
  intro positive
  have bound := fits positive
  rw [List.length_cons, Foundation.makeRoom]
  split
  case isTrue full =>
    have exact := full.2
    rw [List.length_dropLast]
    omega
  case isFalse room =>
    have different : (recency.length : Int) ≠ capacity := fun same => room ⟨positive, same⟩
    omega

section Represented
variable {store : LRUCache K V} {recency : List (K × V)}

theorem Represents.mem_iff (rep : store.Represents recency) {entry : K × V} :
    entry ∈ recency ↔ ∃ handle, (handle, entry) ∈ store.lru.entries := by
  rw [← rep.order]
  simp

/-- An entry of the list belongs to its key alone. -/
theorem Represents.handle_iff (rep : store.Represents recency) {handle : Handle} {key : K} {value : V}
    (member : (handle, (key, value)) ∈ store.lru.entries) (entry : Handle × (K × V))
    (present : entry ∈ store.lru.entries) : entry.1 = handle ↔ entry.2.1 = key := by
  have keyed : (store.lru.entries.map fun entry => entry.2.1).Nodup := by
    simpa [Keyed, ← rep.order, List.map_map, Function.comp_def] using rep.keyed
  constructor
  · intro same
    rw [List.inj_on_of_nodup_map store.lru.distinct present member same]
  · intro same
    rw [List.inj_on_of_nodup_map keyed present member same]

/-- The table misses exactly the keys outside the recency list. -/
theorem Represents.lookup_none (rep : store.Represents recency) {key : K} :
    store.cache.lookup key = none ↔ key ∉ recency.map Prod.fst := by
  rw [Option.eq_none_iff_forall_ne_some]
  constructor
  · intro missing present
    obtain ⟨value, member⟩ : ∃ value, (key, value) ∈ recency := by simpa using present
    obtain ⟨handle, stored⟩ := rep.mem_iff.mp member
    exact missing handle ((rep.handles key handle).mpr ⟨value, stored⟩)
  · intro absent handle found
    obtain ⟨value, stored⟩ := (rep.handles key handle).mp found
    exact absent (List.mem_map_of_mem (rep.mem_iff.mpr ⟨handle, stored⟩))

/-- The table has one entry for each pair. -/
theorem Represents.size_eq (rep : store.Represents recency) : store.cache.size = recency.length := by
  have counted := Dictionary.size_eq store.cache (recency.map Prod.fst) rep.keyed (by
    intro key
    rw [← not_iff_not, ← rep.lookup_none, Option.eq_none_iff_forall_ne_some, not_exists])
  simpa using counted

/-- The list without one handle holds the pairs without its key. -/
theorem Represents.without (rep : store.Represents recency) {handle : Handle} {key : K} {value : V}
    (member : (handle, (key, value)) ∈ store.lru.entries) :
    (store.lru.without handle).map Prod.snd = forget key recency := by
  rw [← rep.order, forget, List.filter_map, HandleList.without]
  apply congrArg (List.map Prod.snd)
  apply List.filter_congr
  intro entry present
  simp [rep.handle_iff member entry present]

theorem create_represents (capacity : Int) : (create capacity : LRUCache K V).Represents [] :=
  ⟨rfl, List.nodup_nil, fun key handle => by simp [create, HandleList.empty]⟩

theorem new_represents : (new : LRUCache K V).Represents [] := create_represents 0

/-- An erased handle leaves the pairs without its key. -/
theorem Represents.erased (rep : store.Represents recency) {handle : Handle} {key : K} {value : V}
    (member : (handle, (key, value)) ∈ store.lru.entries) {list : HandleList (K × V)}
    (entries : list.entries = store.lru.without handle) (queued : List K) :
    ({ store with deleteKeys := queued, cache := store.cache.erase key, lru := list }
      : LRUCache K V).Represents (forget key recency) := by
  refine ⟨?_, rep.keyed.forget key, ?_⟩
  · rw [← rep.without member, ← entries]
  · intro query other
    simp only [Dictionary.lookup_erase, entries, HandleList.without, List.mem_filter, decide_eq_true_eq]
    by_cases same : query = key
    · subst query
      simp only [if_true, reduceCtorEq, false_iff, not_exists, not_and, not_not]
      intro stored present
      exact (rep.handle_iff member _ present).mpr rfl
    · rw [if_neg same, rep.handles]
      apply exists_congr
      intro stored
      constructor
      · intro present
        exact ⟨present, fun equal => same ((rep.handle_iff member _ present).mp equal)⟩
      · exact And.left

/-- An entry that moves to the front of the list, with any value, makes its key the most recent. -/
theorem Represents.moved (rep : store.Represents recency) {handle : Handle} {key : K} {old : V}
    (stored : (handle, (key, old)) ∈ store.lru.entries) (value : V) {list : HandleList (K × V)}
    (entries : list.entries = (handle, (key, value)) :: store.lru.without handle) :
    ({ store with lru := list } : LRUCache K V).Represents ((key, value) :: forget key recency) := by
  refine ⟨?_, (rep.keyed.forget key).cons value (forget_fresh key recency), ?_⟩
  · rw [entries, List.map_cons, rep.without stored]
  · intro query other
    rw [rep.handles query other]
    simp only [entries, HandleList.without, List.mem_cons, List.mem_filter, decide_eq_true_eq, Prod.mk.injEq]
    constructor
    · rintro ⟨kept, present⟩
      by_cases same : other = handle
      · have key_eq := (rep.handle_iff stored _ present).mp same
        exact ⟨value, Or.inl ⟨same, key_eq, rfl⟩⟩
      · exact ⟨kept, Or.inr ⟨present, same⟩⟩
    · rintro ⟨kept, ⟨rfl, rfl, _⟩ | ⟨present, _⟩⟩
      · exact ⟨old, stored⟩
      · exact ⟨kept, present⟩

/-- A lookup that hits moves the pair to the front, and a miss changes nothing. -/
theorem Represents.get (rep : store.Represents recency) (key : K) :
    ∃ next, store.get key = .ok (recency.lookup key, next) ∧ next.Represents (touch key recency) ∧
      next.capacity = store.capacity ∧ next.deleteKeys = store.deleteKeys := by
  cases found : store.cache.lookup key with
  | none =>
      have absent := rep.lookup_none.mp found
      refine ⟨store, ?_, ?_, rfl, rfl⟩
      · simp [LRUCache.get, found, lookup_eq_none.mpr absent]
      · rwa [touch_absent absent]
  | some handle =>
      obtain ⟨value, stored⟩ := (rep.handles key handle).mp found
      have member := rep.mem_iff.mpr ⟨handle, stored⟩
      obtain ⟨moved, spliced, entries⟩ := HandleList.splice_of_mem stored
      have front : (handle, (key, value)) ∈ moved.entries := by simp [entries]
      refine ⟨{ store with lru := moved }, ?_, ?_, rfl, rfl⟩
      · simp [LRUCache.get, found, spliced, HandleList.read_of_mem front,
          (lookup_eq_some rep.keyed).mpr member]
      · rw [touch_present rep.keyed member]
        exact rep.moved stored value entries

/-- An eviction drops the last pair and queues its key. -/
theorem Represents.evictLast {last : K × V} (rep : store.Represents (recency ++ [last])) :
    ∃ next, store.evictLast = .ok next ∧ next.Represents recency ∧
      next.capacity = store.capacity ∧ next.deleteKeys = store.deleteKeys ++ [last.1] := by
  rcases last with ⟨key, value⟩
  obtain ⟨handle, final⟩ : ∃ handle, store.lru.entries.getLast? = some (handle, (key, value)) := by
    have ends := congrArg List.getLast? rep.order
    rw [List.getLast?_map, List.getLast?_concat, Option.map_eq_some_iff] at ends
    obtain ⟨⟨handle, entry⟩, ends, rfl⟩ := ends
    exact ⟨handle, ends⟩
  have stored := List.mem_of_getLast? final
  obtain ⟨list, erased, entries, stale⟩ := HandleList.erase_of_mem stored
  refine ⟨{ store with deleteKeys := store.deleteKeys ++ [key], cache := store.cache.erase key, lru := list },
    ?_, ?_, rfl, rfl⟩
  · simp [LRUCache.evictLast, HandleList.back, final, HandleList.read_of_mem stored, erased, stale]
  · have shorter : forget key (recency ++ [(key, value)]) = recency := by
      have fresh : key ∉ recency.map Prod.fst := by
        have keyed := rep.keyed
        rw [Keyed, List.map_append, List.nodup_append'] at keyed
        exact fun present => keyed.2.2 present (by simp)
      simpa [forget] using forget_absent fresh
    have result := rep.erased stored entries (store.deleteKeys ++ [key])
    rwa [shorter] at result

/-- A removal forgets the key. -/
theorem Represents.remove (rep : store.Represents recency) (key : K) :
    ∃ next, store.remove key = .ok next ∧ next.Represents (forget key recency) ∧
      next.capacity = store.capacity ∧ next.deleteKeys = store.deleteKeys := by
  cases found : store.cache.lookup key with
  | none =>
      refine ⟨store, by simp [LRUCache.remove, found], ?_, rfl, rfl⟩
      rwa [forget_absent (rep.lookup_none.mp found)]
  | some handle =>
      obtain ⟨value, stored⟩ := (rep.handles key handle).mp found
      obtain ⟨list, erased, entries, _⟩ := HandleList.erase_of_mem stored
      exact ⟨_, by simp [LRUCache.remove, found, erased],
        rep.erased stored entries store.deleteKeys, rfl, rfl⟩

/-- A pushed pair of a fresh key becomes the most recent pair. -/
theorem Represents.pushed (rep : store.Represents recency) {key : K} (value : V)
    (absent : key ∉ recency.map Prod.fst) :
    ({ store with
      lru := store.lru.pushFront (key, value)
      cache := store.cache.emplace key store.lru.next } : LRUCache K V).Represents ((key, value) :: recency) := by
  have missing := rep.lookup_none.mpr absent
  refine ⟨by simp [HandleList.pushFront, rep.order], rep.keyed.cons value absent, ?_⟩
  intro query handle
  simp only [Dictionary.lookup_emplace missing, HandleList.pushFront, List.mem_cons, Prod.mk.injEq]
  by_cases same : query = key
  · subst query
    rw [if_pos rfl, Option.some.injEq]
    constructor
    · intro equal
      exact ⟨value, Or.inl ⟨equal.symm, rfl, rfl⟩⟩
    · rintro ⟨stored, ⟨equal, _⟩ | present⟩
      · exact equal.symm
      · exact absurd (List.mem_map_of_mem (rep.mem_iff.mpr ⟨handle, present⟩)) absent
  · rw [if_neg same, rep.handles]
    simp [same]

/-- A fresh key evicts the last pair of a full cache and becomes the most recent pair. -/
theorem Represents.put_absent (rep : store.Represents recency) {key : K} (value : V)
    (absent : key ∉ recency.map Prod.fst) :
    ∃ next, store.put key value = .ok next ∧
      next.Represents ((key, value) :: makeRoom store.capacity recency) ∧
      next.capacity = store.capacity ∧
      next.deleteKeys = store.deleteKeys ++ overflow store.capacity recency := by
  have missing := rep.lookup_none.mpr absent
  have fresh : key ∉ (makeRoom store.capacity recency).map Prod.fst :=
    fun present => absent (((makeRoom_sublist _ recency).map _).subset present)
  by_cases full : Full store.capacity recency
  · have nonempty : recency ≠ [] := by
      rintro rfl
      have facts := full
      simp only [Full, List.length_nil] at facts
      omega
    obtain ⟨front, last, rfl⟩ := (List.eq_nil_or_concat recency).resolve_left nonempty
    rw [List.concat_eq_append] at rep full fresh ⊢
    obtain ⟨room, evicted, kept, capacity, queued⟩ := rep.evictLast
    have rest : makeRoom store.capacity (front ++ [last]) = front := by simp [makeRoom, full]
    rw [rest] at fresh ⊢
    refine ⟨_, ?_, kept.pushed value fresh, capacity, ?_⟩
    · have facts : 0 < store.capacity ∧ (store.cache.size : Int) = store.capacity := by
        rw [rep.size_eq]
        exact full
      simp only [LRUCache.put, missing, if_pos facts, evicted, Exec.ok_bind, Exec.pure_eq]
    · simp [queued, overflow, full]
  · have rest : makeRoom store.capacity recency = recency := by simp [makeRoom, full]
    rw [rest]
    refine ⟨_, ?_, rep.pushed value absent, rfl, ?_⟩
    · have facts : ¬ (0 < store.capacity ∧ (store.cache.size : Int) = store.capacity) := by
        rw [rep.size_eq]
        exact full
      simp only [LRUCache.put, missing, if_neg facts, Exec.ok_bind, Exec.pure_eq]
    · simp [overflow, full]

/-- The loop drops the pairs beyond the capacity, from the least recent one. -/
theorem Represents.trim (rep : store.Represents recency) (capacity : Int) (fuel : Nat)
    (enough : recency.length < fuel) :
    ∃ next, LRUCache.trim capacity fuel store = .ok next ∧ next.Represents (retain capacity recency) ∧
      next.capacity = store.capacity ∧
      next.deleteKeys = store.deleteKeys ++ dropped capacity recency := by
  induction recency using List.reverseRecOn generalizing store fuel with
  | nil =>
      obtain ⟨fuel, rfl⟩ : ∃ rest, fuel = rest + 1 := ⟨fuel - 1, by simp at enough; omega⟩
      refine ⟨store, ?_, by simpa [retain] using rep, rfl, by simp [dropped]⟩
      have stop : ¬ (0 < capacity ∧ capacity < (store.cache.size : Int)) := by
        rw [rep.size_eq, List.length_nil]
        omega
      rw [LRUCache.trim, if_neg stop, Exec.pure_eq]
  | append_singleton front last ih =>
      rw [List.length_append, List.length_singleton] at enough
      obtain ⟨fuel, rfl⟩ : ∃ rest, fuel = rest + 1 := ⟨fuel - 1, by omega⟩
      have size : store.cache.size = front.length + 1 := by simpa using rep.size_eq
      by_cases more : 0 < capacity ∧ capacity < (store.cache.size : Int)
      · obtain ⟨room, evicted, kept, same, queued⟩ := rep.evictLast
        obtain ⟨next, rest, result, capacities, keys⟩ := ih kept fuel (by omega)
        have short : capacity.toNat ≤ front.length := by omega
        refine ⟨next, ?_, ?_, capacities.trans same, ?_⟩
        · rw [LRUCache.trim, if_pos more, evicted, Exec.ok_bind, rest]
        · simpa [retain, more.1, List.take_append_of_le_length short] using result
        · simp [keys, queued, dropped, more.1, List.drop_append_of_le_length short]
      · refine ⟨store, by rw [LRUCache.trim, if_neg more, Exec.pure_eq], ?_, rfl, ?_⟩
        · by_cases positive : 0 < capacity
          · have long : (front ++ [last]).length ≤ capacity.toNat := by
              rw [List.length_append, List.length_singleton]
              omega
            simpa [retain, positive, List.take_of_length_le long] using rep
          · simpa [retain, positive] using rep
        · by_cases positive : 0 < capacity
          · have long : (front ++ [last]).length ≤ capacity.toNat := by
              rw [List.length_append, List.length_singleton]
              omega
            simp [dropped, positive, List.drop_of_length_le long]
          · simp [dropped, positive]

/-- A negative capacity is rejected; any other capacity keeps the most recent pairs. -/
theorem Represents.setCapacity (rep : store.Represents recency) (capacity : Int) (accepted : 0 ≤ capacity) :
    ∃ next, store.setCapacity capacity = .ok (0, next) ∧ next.Represents (retain capacity recency) ∧
      next.capacity = capacity ∧
      next.deleteKeys = store.deleteKeys ++ dropped capacity recency := by
  have changed : ({ store with capacity := capacity } : LRUCache K V).Represents recency :=
    ⟨rep.order, rep.keyed, rep.handles⟩
  obtain ⟨next, trimmed, result⟩ := changed.trim capacity (store.lru.entries.length + 1) (by
    rw [← rep.order, List.length_map]
    exact Nat.lt_succ_self _)
  refine ⟨next, ?_, result⟩
  rw [LRUCache.setCapacity, if_neg (not_lt.mpr accepted), trimmed]
  rfl

/-- A present key takes the value and becomes the most recent pair. -/
theorem Represents.put_present (rep : store.Represents recency) {key : K} (value : V)
    (present : key ∈ recency.map Prod.fst) :
    ∃ next, store.put key value = .ok next ∧ next.Represents ((key, value) :: forget key recency) ∧
      next.capacity = store.capacity ∧ next.deleteKeys = store.deleteKeys := by
  cases found : store.cache.lookup key with
  | none => exact absurd present (rep.lookup_none.mp found)
  | some handle =>
      obtain ⟨old, stored⟩ := (rep.handles key handle).mp found
      obtain ⟨changed, written, here, others⟩ := HandleList.write_of_mem (key, value) stored
      obtain ⟨moved, spliced, order⟩ := HandleList.splice_of_mem here
      rw [others] at order
      refine ⟨{ store with lru := moved }, ?_, rep.moved stored value order, rfl, rfl⟩
      simp [LRUCache.put, found, HandleList.read_of_mem stored, written, spliced]

/-- Without an eviction a call of `put` queues no key. -/
theorem Represents.put_returns (rep : store.Represents recency) (key : K) (value : V)
    (room : ¬ Full store.capacity recency) :
    ∃ next after, store.put key value = .ok next ∧ next.Represents after ∧ next.capacity = store.capacity ∧
      next.deleteKeys = store.deleteKeys := by
  by_cases present : key ∈ recency.map Prod.fst
  · obtain ⟨next, returned, result, capacity, queued⟩ := rep.put_present value present
    exact ⟨next, _, returned, result, capacity, queued⟩
  · obtain ⟨next, returned, result, capacity, queued⟩ := rep.put_absent value present
    rw [overflow, if_neg room, List.append_nil] at queued
    exact ⟨next, _, returned, result, capacity, queued⟩

/-- The recency list that a call leaves. -/
def Action.after (capacity : Int) (recency : List (K × V)) : Action K V → List (K × V)
  | .get key => touch key recency
  | .put key value =>
      (key, value) :: if key ∈ recency.map Prod.fst then forget key recency else makeRoom capacity recency
  | .remove key => forget key recency
  | .setCapacity wanted => if wanted < 0 then recency else retain wanted recency

/-- The capacity that a call leaves; a negative one is rejected. -/
def Action.capacity (capacity : Int) : Action K V → Int
  | .setCapacity wanted => if wanted < 0 then capacity else wanted
  | _ => capacity

/-- The keys that a call queues. -/
def Action.queued (capacity : Int) (recency : List (K × V)) : Action K V → List K
  | .get _ => []
  | .put key _ => if key ∈ recency.map Prod.fst then [] else overflow capacity recency
  | .remove _ => []
  | .setCapacity wanted => if wanted < 0 then [] else dropped wanted recency

/-- Every call returns and changes the recency list as told. -/
theorem Represents.act (rep : store.Represents recency) (action : Action K V) :
    ∃ next, store.act action = .ok ((), next) ∧ next.Represents (action.after store.capacity recency) ∧
      next.capacity = action.capacity store.capacity ∧
      next.deleteKeys = store.deleteKeys ++ action.queued store.capacity recency := by
  cases action with
  | get key =>
      obtain ⟨next, returned, result, capacity, queued⟩ := rep.get key
      exact ⟨next, by simp [LRUCache.act, returned], result, capacity, by rw [queued, Action.queued, List.append_nil]⟩
  | put key value =>
      by_cases present : key ∈ recency.map Prod.fst
      · obtain ⟨next, returned, result, capacity, queued⟩ := rep.put_present value present
        exact ⟨next, by simp [LRUCache.act, returned], by rwa [Action.after, if_pos present], capacity,
          by rw [queued, Action.queued, if_pos present, List.append_nil]⟩
      · obtain ⟨next, returned, result, capacity, queued⟩ := rep.put_absent value present
        exact ⟨next, by simp [LRUCache.act, returned], by rwa [Action.after, if_neg present], capacity,
          by rw [queued, Action.queued, if_neg present]⟩
  | remove key =>
      obtain ⟨next, returned, result, capacity, queued⟩ := rep.remove key
      exact ⟨next, by simp [LRUCache.act, returned], result, capacity, by rw [queued, Action.queued, List.append_nil]⟩
  | setCapacity wanted =>
      by_cases negative : wanted < 0
      · refine ⟨store, ?_, ?_, ?_, ?_⟩
        · simp [LRUCache.act, LRUCache.setCapacity, negative]
        · rwa [Action.after, if_pos negative]
        · rw [Action.capacity, if_pos negative]
        · rw [Action.queued, if_pos negative, List.append_nil]
      · obtain ⟨next, returned, result, capacity, queued⟩ := rep.setCapacity wanted (not_lt.mp negative)
        refine ⟨next, by simp [LRUCache.act, returned], ?_, ?_, ?_⟩
        · rwa [Action.after, if_neg negative]
        · rw [Action.capacity, if_neg negative, capacity]
        · rw [queued, Action.queued, if_neg negative]

/-- The keys that a call evicts are the keys that it queues. -/
theorem Represents.evicted_eq (rep : store.Represents recency) (action : Action K V) :
    store.evicted action = action.queued store.capacity recency := by
  cases action with
  | get key => rfl
  | remove key => rfl
  | put key value =>
      rw [evicted, Action.queued]
      by_cases present : key ∈ recency.map Prod.fst
      · rw [if_neg fun full => rep.lookup_none.mp full.1 present, if_pos present]
      · have missing := rep.lookup_none.mpr present
        rw [if_neg present, overflow, rep.size_eq]
        by_cases full : Full store.capacity recency
        · rw [if_pos full, if_pos ⟨missing, full⟩, ← rep.order, List.getLast?_map, Option.map_map]
          rfl
        · rw [if_neg full, if_neg fun facts => full facts.2]
  | setCapacity wanted =>
      rw [evicted, Action.queued, dropped, ← rep.order]
      by_cases positive : 0 < wanted
      · rw [if_pos positive, if_neg (by omega), if_pos positive, ← List.map_drop, List.map_map]
        rfl
      · rw [if_neg positive, if_neg positive, ite_self]

/-- Every call keeps the bound of the capacity. -/
theorem Fits.after {capacity : Int} (fits : Fits capacity recency) (keyed : Keyed recency) (action : Action K V) :
    Fits (action.capacity capacity) (action.after capacity recency) := by
  cases action with
  | get key =>
      intro positive
      rw [Action.after, touch_length keyed key]
      exact fits positive
  | put key value =>
      rw [Action.after]
      split
      · rename_i present
        intro positive
        have bound := fits positive
        rw [List.length_cons, keyed.forget_length present]
        exact bound
      · exact fits.makeRoom (key, value)
  | remove key =>
      intro positive
      have shorter : (forget key recency).length ≤ recency.length := List.length_filter_le ..
      exact (Int.ofNat_le.mpr shorter).trans (fits positive)
  | setCapacity wanted =>
      intro positive
      rw [Action.capacity] at positive ⊢
      rw [Action.after]
      split
      · rename_i negative
        rw [if_pos negative] at positive
        exact fits positive
      · rename_i accepted
        rw [if_neg accepted] at positive
        rw [retain, if_pos positive, List.length_take]
        omega

/-- The value that a call puts under a key. -/
def Action.assigned (key : K) : Action K V → Option V
  | .put other value => if other = key then some value else none
  | _ => none

/-- The value of the last `put` of the key. -/
def lastPut (key : K) (actions : List (Action K V)) : Option V :=
  (actions.filterMap (Action.assigned key)).getLast?

theorem lastPut_append (key : K) (past : List (Action K V)) (action : Action K V) :
    lastPut key (past ++ [action]) = (action.assigned key).or (lastPut key past) := by
  rw [lastPut, List.filterMap_append, List.getLast?_append]
  cases assigned : action.assigned key <;> simp [assigned, lastPut]

/-- A pair that a call leaves was put by it, or it was there before. -/
theorem Action.mem_after {capacity : Int} (keyed : Keyed recency) (action : Action K V) {pair : K × V}
    (present : pair ∈ action.after capacity recency) :
    action.assigned pair.1 = some pair.2 ∨ action.assigned pair.1 = none ∧ pair ∈ recency := by
  cases action with
  | get key => exact Or.inr ⟨rfl, (mem_touch keyed key).mp present⟩
  | put key value =>
      rw [Action.after] at present
      rcases List.mem_cons.mp present with rfl | older
      · exact Or.inl (if_pos rfl)
      · by_cases known : key ∈ recency.map Prod.fst
        · rw [if_pos known, mem_forget] at older
          exact Or.inr ⟨if_neg (Ne.symm older.2), older.1⟩
        · rw [if_neg known] at older
          have old := (makeRoom_sublist capacity recency).subset older
          have different : key ≠ pair.1 := fun same => known (same ▸ List.mem_map_of_mem old)
          exact Or.inr ⟨if_neg different, old⟩
  | remove key => exact Or.inr ⟨rfl, (mem_forget.mp present).1⟩
  | setCapacity wanted =>
      rw [Action.after] at present
      split at present
      · exact Or.inr ⟨rfl, present⟩
      · exact Or.inr ⟨rfl, (retain_sublist wanted recency).subset present⟩

/-- The list holds each key once, the table maps exactly these keys to their entries, and a
positive capacity bounds them. -/
structure Consistent (store : LRUCache K V) : Prop where
  distinct : (store.lru.entries.map fun entry => entry.2.1).Nodup
  positions : ∀ key handle, store.cache.lookup key = some handle ↔
    ∃ value, (handle, (key, value)) ∈ store.lru.entries
  size : store.cache.size = store.lru.entries.length
  bound : 0 < store.capacity → (store.cache.size : Int) ≤ store.capacity

theorem Represents.consistent (rep : store.Represents recency) (fits : Fits store.capacity recency) :
    store.Consistent := by
  have length : store.lru.entries.length = recency.length := by rw [← rep.order, List.length_map]
  refine ⟨?_, rep.handles, by rw [rep.size_eq, length], ?_⟩
  · have keyed := rep.keyed
    rwa [Keyed, ← rep.order, List.map_map] at keyed
  · rw [rep.size_eq]
    exact fits

end Represented

/-- Every run of the public interface returns, and it leaves a consistent cache that holds the
last value put under each of its keys. -/
theorem act_consistent (capacity : Int) (actions : List (Action K V)) :
    ∃ outputs final, run act (create capacity) actions = .ok (outputs, final) ∧ final.Consistent ∧
      ∀ entry ∈ final.lru.entries, lastPut entry.2.1 actions = some entry.2.2 := by
  have start : (create capacity : LRUCache K V).Represents [] := create_represents capacity
  obtain ⟨outputs, final, returned, recency, rep, fits, last⟩ := run_total_past act
    (fun past (store : LRUCache K V) => ∃ recency, store.Represents recency ∧ Fits store.capacity recency ∧
      ∀ pair ∈ recency, lastPut pair.1 past = some pair.2)
    (by
      rintro past store action ⟨recency, rep, fits, last⟩
      obtain ⟨next, returned, result, capacity, _⟩ := rep.act action
      refine ⟨(), next, returned, _, result, ?_, ?_⟩
      · rw [capacity]
        exact fits.after rep.keyed action
      · intro pair present
        rw [lastPut_append]
        obtain put | ⟨other, old⟩ := action.mem_after rep.keyed present
        · rw [put, Option.some_or]
        · rw [other, Option.none_or, last pair old])
    [] (create capacity) actions ⟨[], start, fun positive => positive.le, by simp⟩
  refine ⟨outputs, final, returned, rep.consistent fits, ?_⟩
  intro entry present
  exact last entry.2 (rep.mem_iff.mpr ⟨entry.1, present⟩)

end MySkipList.LRUCache
