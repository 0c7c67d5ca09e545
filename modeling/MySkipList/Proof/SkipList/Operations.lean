import MySkipList.Proof.SkipList.View

namespace MySkipList.SkipList

open Foundation

variable {K V : Type} [LinearOrder K] [LinearOrder V]

/-- The list represents the towers and shows the view. -/
structure Shows (list : SkipList K V) (head : Tower K V) (towers : List (Tower K V)) (view : View K V) : Prop where
  represents : list.Represents head towers
  entries : towers.map Tower.entry = view.entries
  cached : list.lruCache.Represents view.recency
  queued : list.lruCache.deleteKeys = view.queued
  capacity : list.lruCache.capacity = view.capacity

/-- The view of a new list. A negative capacity is rejected and leaves the list unbounded. -/
def newView (maxCapacity : Int) : View K V := ⟨[], [], [], if maxCapacity < 0 then 0 else maxCapacity⟩

/-- The constructor returns an empty list. -/
theorem new_shows [Inhabited K] {maxLevel : Nat} (positive : 0 < maxLevel) (maxCapacity : Int)
    (uninitialized : V) :
    ∃ list : SkipList K V, new maxLevel maxCapacity uninitialized = .ok list ∧ list.maxLevel = maxLevel ∧
      list.Shows ⟨0, maxLevel, default, uninitialized⟩ [] (newView maxCapacity) := by
  obtain ⟨result, lruCache, accepted, cached, capacity, queued⟩ :
      ∃ result lruCache, (LRUCache.new : LRUCache K V).setCapacity maxCapacity = .ok (result, lruCache) ∧
        lruCache.Represents [] ∧ lruCache.capacity = (newView maxCapacity : View K V).capacity ∧
        lruCache.deleteKeys = [] := by
    by_cases negative : maxCapacity < 0
    · refine ⟨-1, LRUCache.new, ?_, LRUCache.new_represents, ?_, rfl⟩
      · rw [LRUCache.setCapacity, if_pos negative, Exec.pure_eq]
      · rw [newView, if_pos negative]
        rfl
    · obtain ⟨lruCache, returned, rep, capacity, queued⟩ :=
        (LRUCache.new_represents (K := K) (V := V)).setCapacity maxCapacity (not_lt.mp negative)
      refine ⟨0, lruCache, returned, ?_, ?_, ?_⟩
      · simpa [retain] using rep
      · rw [capacity, newView, if_neg negative]
      · simpa [dropped, LRUCache.new] using queued
  refine ⟨_, by rw [new, accepted]; rfl, rfl, ?_, rfl, cached, queued, capacity⟩
  refine ⟨rfl, rfl, ?_, by simp, List.Pairwise.nil, by simp, Nat.zero_le _, positive, List.nodup_nil, by simp, rfl⟩
  intro front tower rest position
  obtain ⟨rfl, rfl, rfl⟩ : front = [] ∧ tower = ⟨0, maxLevel, default, uninitialized⟩ ∧ rest = [] := by
    cases front with
    | nil => simpa [eq_comm] using position
    | cons first front => simp at position
  exact ⟨_, ⟨Heap.alloc_self .., rfl, rfl, rfl⟩, fun _ _ => rfl⟩

section Shown
variable {list : SkipList K V} {head : Tower K V} {towers : List (Tower K V)} {view : View K V}

theorem Shows.elements (shown : list.Shows head towers view) :
    view.entries.map Entry.ele = towers.map Tower.ele := by
  rw [← shown.entries, List.map_map]
  rfl

theorem Shows.distinct (shown : list.Shows head towers view) : (view.entries.map Entry.ele).Nodup := by
  rw [shown.elements]
  exact shown.represents.distinct

/-- The map finds an element where the view has its entry. -/
theorem Shows.lookup (shown : list.Shows head towers view) (ele : K) :
    (list.nodeMap.lookup ele = none ∧ view.find ele = none ∧ ele ∉ towers.map Tower.ele) ∨
      ∃ tower node, tower ∈ towers ∧ list.nodeMap.lookup ele = some tower.ref ∧
        Stores list.heap tower node ∧ view.find ele = some tower.entry ∧ tower.ele = ele := by
  cases found : view.find ele with
  | none =>
      have absent := View.find_none.mp found
      rw [shown.elements] at absent
      exact Or.inl ⟨shown.represents.lookup_none.mpr absent, rfl, absent⟩
  | some entry =>
      obtain ⟨member, same⟩ := View.find_some found
      rw [← shown.entries] at member
      obtain ⟨tower, present, rfl⟩ := List.mem_map.mp member
      obtain ⟨node, stored⟩ := shown.represents.linked.stores (List.mem_cons_of_mem head present)
      exact Or.inr ⟨tower, node, present, (shown.represents.mapped ele tower.ref).mpr ⟨tower, present, same, rfl⟩,
        stored, rfl, same⟩

/-- A deletion returns whether the element was present and unlinks it. -/
theorem Shows.deleteBody (shown : list.Shows head towers view) (tracked : view.Tracked) (ele : K) :
    ∃ final rest, list.deleteBody ele = .ok ((view.deleteElement ele).1, final) ∧
      final.Shows head rest (view.unlink ele) ∧ EditStep head list towers (.unlink ele) final rest := by
  by_cases present : ele ∈ towers.map Tower.ele
  · obtain ⟨target, member, rfl⟩ := List.mem_map.mp present
    obtain ⟨front, back, rfl⟩ := List.append_of_mem member
    obtain ⟨node, stored, links⟩ := shown.represents.target_node
    obtain ⟨lruCache, removed, cached, capacity, queued⟩ := shown.cached.remove target.ele
    have step : EditStep head list (front ++ target :: back) (.unlink target.ele)
        (list.unlinked head front target node lruCache) (front ++ back) := .unlink shown.represents stored links
    refine ⟨_, _, ?_, ⟨step.represents, ?_, cached, ?_, ?_⟩, step⟩
    · rw [shown.represents.deleteBody_present removed stored links, View.deleteElement, shown.elements, if_pos present]
    · rw [step.entries, shown.entries]
      rfl
    · exact queued.trans shown.queued
    · exact capacity.trans shown.capacity
  · have missing : ele ∉ view.entries.map Entry.ele := shown.elements ▸ present
    refine ⟨list, towers, ?_, ?_, .absent shown.represents present⟩
    · rw [shown.represents.deleteBody_absent present, View.deleteElement, if_neg missing]
    · rwa [tracked.unlink_absent missing]

/-- The loop over the waiting keys deletes them in their order. -/
theorem Shows.deleteQueued (shown : list.Shows head towers view) (tracked : view.Tracked) (keys : List K) :
    ∃ final rest, SkipList.deleteQueued keys list = .ok final ∧
      final.Shows head rest (keys.foldl View.unlink view) ∧
      Edited head list towers (keys.map .unlink) final rest := by
  induction keys generalizing list towers view with
  | nil => exact ⟨list, towers, rfl, shown, .done list.lruCache⟩
  | cons key keys ih =>
      obtain ⟨middle, between, deleted, still, step⟩ := shown.deleteBody tracked key
      obtain ⟨final, rest, returned, last, edited⟩ := ih still (tracked.unlink key)
      refine ⟨final, rest, ?_, last, step.edited.append edited⟩
      rw [SkipList.deleteQueued, deleteElementInLock, deleted, Exec.ok_bind]
      exact returned

/-- The link phase of an insertion of an absent element. -/
theorem Shows.linkNode (shown : list.Shows head towers view) {ele : K} (score : V) (draws : List Nat)
    (absent : ele ∉ towers.map Tower.ele) :
    ∃ final rest, list.linkNode ele score draws = .ok final ∧ final.lruCache = list.lruCache ∧
      EditStep head list towers (.link ⟨ele, score, getRandomLevel list.maxLevel draws⟩) final rest := by
  obtain ⟨front, back, rfl, smaller, larger⟩ := shown.represents.partition ele score
  obtain ⟨positive, bounded⟩ := getRandomLevel_bounds list.maxLevel draws shown.represents.positive
  obtain ⟨rank, ranks, linked⟩ := shown.represents.linkNode smaller larger draws
  exact ⟨_, _, linked, rfl, .link shown.represents smaller larger absent positive bounded ranks⟩

/-- The insertion of an absent element links it and stores its pair. The keys that then wait are not deleted yet. -/
theorem Shows.receive (shown : list.Shows head towers view) (tracked : view.Tracked) {ele : K} (score : V)
    (draws : List Nat) (absent : ele ∉ towers.map Tower.ele) :
    ∃ middle lruCache between, list.linkNode ele score draws = .ok middle ∧
      middle.lruCache.put ele score = .ok lruCache ∧
      ({ middle with lruCache := lruCache } : SkipList K V).Shows head between
        (view.receive ⟨ele, score, getRandomLevel list.maxLevel draws⟩) ∧
      EditStep head list towers (.link ⟨ele, score, getRandomLevel list.maxLevel draws⟩) middle between := by
  obtain ⟨middle, between, linked, same, step⟩ := shown.linkNode score draws absent
  have uncached : ele ∉ view.recency.map Prod.fst := fun cached =>
    absent (shown.elements ▸ tracked.cached_mem cached)
  obtain ⟨lruCache, stored, cached, capacity, queued⟩ := shown.cached.put_absent score uncached
  refine ⟨middle, lruCache, between, linked, same ▸ stored, ⟨step.represents.withCache lruCache, ?_, ?_, ?_, ?_⟩, step⟩
  · rw [step.entries, shown.entries]
    rfl
  · rw [shown.capacity] at cached
    exact cached
  · rw [shown.capacity, shown.queued] at queued
    exact queued
  · exact capacity.trans shown.capacity

/-- The insertion of an absent element links it and deletes the waiting keys. -/
theorem Shows.insertFresh (shown : list.Shows head towers view) (tracked : view.Tracked) {ele : K} (score : V)
    (draws : List Nat) (absent : ele ∉ towers.map Tower.ele) :
    ∃ final rest, list.insertFresh ele score draws = .ok final ∧
      final.Shows head rest (view.insertFresh ⟨ele, score, getRandomLevel list.maxLevel draws⟩) ∧
      Edited head list towers (view.freshEdits ⟨ele, score, getRandomLevel list.maxLevel draws⟩) final rest := by
  obtain ⟨middle, lruCache, between, linked, stored, received, step⟩ := shown.receive tracked score draws absent
  generalize (⟨ele, score, getRandomLevel list.maxLevel draws⟩ : Entry K V) = entry at received step ⊢
  obtain ⟨final, rest, deleted, last, edited⟩ :=
    received.deleteQueued (tracked.receive entry) (view.receive entry).queued
  refine ⟨{ final with lruCache := { final.lruCache with deleteKeys := [] } }, rest, ?_, ?_, ?_⟩
  · rw [SkipList.insertFresh, linked, Exec.ok_bind, stored, Exec.ok_bind]
    dsimp only
    rw [show lruCache.deleteKeys = (view.receive entry).queued from received.queued, deleted]
    rfl
  · exact ⟨last.represents.withCache _, last.entries,
      ⟨last.cached.order, last.cached.keyed, last.cached.handles⟩, rfl, last.capacity⟩
  · have closed := (step.edited.append edited.ofCache).append (.done { final.lruCache with deleteKeys := [] })
    simpa [View.freshEdits] using closed

theorem Shows.insertElement (shown : list.Shows head towers view) (tracked : view.Tracked) (ele : K) (score : V)
    (draws : List Nat) :
    ∃ final rest, list.insertElement ele score draws =
        .ok ((view.insertElement ⟨ele, score, getRandomLevel list.maxLevel draws⟩).1, final) ∧
      final.Shows head rest (view.insertElement ⟨ele, score, getRandomLevel list.maxLevel draws⟩).2 ∧
      Edited head list towers (view.edits list.maxLevel (.insertElement ele score draws)) final rest := by
  rcases shown.lookup ele with ⟨missing, notFound, absent⟩ | ⟨tower, node, member, mapped, stored, found, same⟩
  · obtain ⟨final, rest, returned, last, edited⟩ := shown.insertFresh tracked score draws absent
    refine ⟨final, rest, ?_, ?_, ?_⟩
    · simp [SkipList.insertElement, View.insertElement, missing, notFound, returned]
    · simpa [View.insertElement, notFound] using last
    · simpa [View.edits, notFound] using edited
  · by_cases equal : tower.score = score
    · obtain ⟨lruCache, read, cached, capacity, queued⟩ := shown.cached.get ele
      have early : tower.entry.score = score := equal
      refine ⟨{ list with lruCache := lruCache }, towers, ?_, ?_, ?_⟩
      · simp [SkipList.insertElement, View.insertElement, mapped, found, Heap.read_of_live stored.live, stored.score,
          equal, early, read]
      · simp only [View.insertElement, found, early, if_true]
        exact ⟨shown.represents.withCache lruCache, shown.entries, cached, queued.trans shown.queued,
          capacity.trans shown.capacity⟩
      · simp only [View.edits, found, early, if_true]
        exact .done lruCache
    · have late : ¬ tower.entry.score = score := equal
      obtain ⟨middle, between, deleted, still, step⟩ := shown.deleteBody tracked ele
      have gone : ele ∉ between.map Tower.ele := by
        rw [← still.elements]
        intro member
        obtain ⟨entry, present, equal⟩ := List.mem_map.mp member
        exact (View.mem_unlink.mp present).2 equal
      obtain ⟨final, rest, returned, last, edited⟩ := still.insertFresh (tracked.unlink ele) score draws gone
      rw [step.maxLevel] at last edited
      refine ⟨final, rest, ?_, ?_, ?_⟩
      · simp [SkipList.insertElement, View.insertElement, mapped, found, Heap.read_of_live stored.live, stored.score,
          equal, late, deleteElementInLock, deleted, returned]
      · simpa only [View.insertElement, found, late, if_false] using last
      · simp only [View.edits, found, late, if_false]
        exact step.edited.append edited

theorem Shows.searchElement (shown : list.Shows head towers view) (toInt : V → Int) (ele : K) :
    ∃ final, list.searchElement toInt ele = .ok ((view.searchElement toInt ele).1, final) ∧
      final.Shows head towers (view.searchElement toInt ele).2 ∧ Edited head list towers [] final towers := by
  rcases shown.lookup ele with ⟨missing, notFound, absent⟩ | ⟨tower, node, member, mapped, stored, found, same⟩
  · refine ⟨list, ?_, ?_, .done list.lruCache⟩
    · simp [SkipList.searchElement, View.searchElement, missing, notFound]
    · simpa [View.searchElement, notFound] using shown
  · obtain ⟨lruCache, read, cached, capacity, queued⟩ := shown.cached.get ele
    refine ⟨{ list with lruCache := lruCache }, ?_, ?_, .done lruCache⟩
    · simp [SkipList.searchElement, View.searchElement, mapped, found, read, Heap.read_of_live stored.live,
        stored.score, Tower.entry]
    · simp only [View.searchElement, found]
      exact ⟨shown.represents.withCache lruCache, shown.entries, cached, queued.trans shown.queued,
        capacity.trans shown.capacity⟩

theorem Shows.setMaxMemory (shown : list.Shows head towers view) (maxMemory : Int) :
    ∃ final, list.setMaxMemory maxMemory = .ok ((view.setMaxMemory maxMemory).1, final) ∧
      final.Shows head towers (view.setMaxMemory maxMemory).2 ∧ Edited head list towers [] final towers := by
  by_cases negative : maxMemory < 0
  · refine ⟨list, ?_, ?_, .done list.lruCache⟩
    · simp [SkipList.setMaxMemory, LRUCache.setCapacity, View.setMaxMemory, negative]
    · simpa [View.setMaxMemory, negative] using shown
  · obtain ⟨lruCache, trimmed, cached, capacity, queued⟩ := shown.cached.setCapacity maxMemory (not_lt.mp negative)
    refine ⟨{ list with lruCache := lruCache }, ?_, ?_, .done lruCache⟩
    · simp [SkipList.setMaxMemory, trimmed, View.setMaxMemory, negative]
    · simp only [View.setMaxMemory, negative, if_false]
      exact ⟨shown.represents.withCache lruCache, shown.entries, cached, by rw [queued, shown.queued], capacity⟩

/-- Every operation returns what the view answers, and it edits the list as the view says. -/
theorem Shows.operate (shown : list.Shows head towers view) (tracked : view.Tracked) (toInt : V → Int)
    (operation : Operation K V) :
    ∃ final rest, list.operate toInt operation = .ok ((view.operate toInt list.maxLevel operation).1, final) ∧
      final.Shows head rest (view.operate toInt list.maxLevel operation).2 ∧
      Edited head list towers (view.edits list.maxLevel operation) final rest := by
  cases operation with
  | insertElement ele score draws => exact shown.insertElement tracked ele score draws
  | deleteElement ele =>
      obtain ⟨final, rest, deleted, last, step⟩ := shown.deleteBody tracked ele
      exact ⟨final, rest, deleted, last, step.edited⟩
  | searchElement ele =>
      obtain ⟨final, returned, last, edited⟩ := shown.searchElement toInt ele
      exact ⟨final, towers, returned, last, edited⟩
  | setMaxMemory maxMemory =>
      obtain ⟨final, returned, last, edited⟩ := shown.setMaxMemory maxMemory
      exact ⟨final, towers, returned, last, edited⟩

/-- A run of operations returns what the view answers. -/
theorem Shows.run (shown : list.Shows head towers view) (coherent : view.Coherent) (toInt : V → Int)
    (operations : List (Operation K V)) :
    ∃ final rest, Foundation.run (SkipList.operate toInt) list operations =
        .ok ((abstractRun (View.operate toInt list.maxLevel) view operations).1, final) ∧
      final.maxLevel = list.maxLevel ∧
      final.Shows head rest (abstractRun (View.operate toInt list.maxLevel) view operations).2 ∧
      (abstractRun (View.operate toInt list.maxLevel) view operations).2.Coherent := by
  obtain ⟨final, returned, maxLevel, ⟨rest, last⟩, kept⟩ := run_simulation (SkipList.operate toInt)
    (View.operate toInt list.maxLevel)
    (fun state model => state.maxLevel = list.maxLevel ∧ (∃ rest, state.Shows head rest model) ∧ model.Coherent)
    (by
      rintro state model operation ⟨maxLevel, ⟨rest, still⟩, kept⟩
      obtain ⟨next, later, returned, nextShown, edited⟩ := still.operate kept.toTracked toInt operation
      rw [maxLevel] at returned nextShown
      exact ⟨next, returned, edited.maxLevel.trans maxLevel, ⟨later, nextShown⟩, kept.operate toInt _ operation⟩)
    list view operations ⟨rfl, ⟨towers, shown⟩, coherent⟩
  exact ⟨final, rest, returned, maxLevel, last, kept⟩

end Shown

omit [LinearOrder K] [LinearOrder V] in
theorem newView_coherent (maxCapacity : Int) : (newView maxCapacity : View K V).Coherent := by
  refine ⟨⟨by simp [newView], by simp [newView]⟩, List.nodup_nil, by simp [newView], ?_, ?_⟩
  · intro positive
    simpa [newView] using positive.le
  · unfold newView
    dsimp only
    split <;> omega

/-- The view after a history of operations. -/
def historyView (toInt : V → Int) (maxLevel : Nat) (maxCapacity : Int) (operations : List (Operation K V)) : View K V :=
  (abstractRun (View.operate toInt maxLevel) (newView maxCapacity) operations).2

/-- Every history returns and reaches a list that shows a coherent view. -/
theorem history_shows [Inhabited K] (toInt : V → Int) (maxLevel : Nat) (positive : 0 < maxLevel)
    (maxCapacity : Int) (uninitialized : V) (operations : List (Operation K V)) :
    ∃ outputs final head rest, history toInt maxLevel maxCapacity uninitialized operations = .ok (outputs, final) ∧
      final.maxLevel = maxLevel ∧ final.Shows head rest (historyView toInt maxLevel maxCapacity operations) ∧
      (historyView toInt maxLevel maxCapacity operations : View K V).Coherent := by
  obtain ⟨list, constructed, maxLevelEq, shown⟩ := new_shows (K := K) positive maxCapacity uninitialized
  obtain ⟨final, rest, returned, kept, last, coherent⟩ := shown.run (newView_coherent maxCapacity) toInt operations
  rw [maxLevelEq] at returned kept last coherent
  have whole : history toInt maxLevel maxCapacity uninitialized operations =
      .ok ((abstractRun (View.operate toInt maxLevel) (newView maxCapacity) operations).1, final) := by
    rw [history, constructed, Exec.ok_bind, returned]
  exact ⟨_, final, _, rest, whole, kept, last, coherent⟩

end MySkipList.SkipList
