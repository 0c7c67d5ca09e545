import MySkipList.Proof.SkipList.Structure

namespace MySkipList

open Foundation

namespace View
variable {K V : Type} [LinearOrder K] [LinearOrder V] {view : View K V}

theorem mem_insertFresh {entry other : Entry K V} :
    other ∈ (view.insertFresh entry).entries ↔
      (other = entry ∨ other ∈ view.entries) ∧ other.ele ∉ (view.receive entry).queued :=
  (mem_unlinkAll (view.receive entry).queued).trans (and_congr_left' mem_receive)

/-- A fresh element survives its insertion exactly when it does not wait for its deletion. -/
theorem Tracked.mem_insertFresh_self (tracked : view.Tracked) {entry : Entry K V}
    (absent : entry.ele ∉ view.entries.map Entry.ele) :
    (∃ height, ⟨entry.ele, entry.score, height⟩ ∈ (view.insertFresh entry).entries) ↔ entry.ele ∉ view.queued := by
  have uncached : entry.ele ∉ overflow view.capacity view.recency := by
    intro given
    refine absent (tracked.cached_mem ?_)
    rw [makeRoom_overflow view.capacity]
    exact List.mem_append_right _ given
  have queued : entry.ele ∉ (view.receive entry).queued ↔ entry.ele ∉ view.queued := by
    rw [View.receive, List.mem_append, not_or]
    exact and_iff_left uncached
  constructor
  · rintro ⟨height, member⟩
    exact queued.mp (mem_insertFresh.mp member).2
  · intro idle
    exact ⟨entry.height, mem_insertFresh.mpr ⟨Or.inl rfl, queued.mpr idle⟩⟩

/-- An inserted element is an entry with its score exactly when it was one before or did not wait
for its deletion. -/
theorem Tracked.mem_insertElement_self (tracked : view.Tracked) (distinct : (view.entries.map Entry.ele).Nodup)
    (entry : Entry K V) :
    (∃ height, ⟨entry.ele, entry.score, height⟩ ∈ (view.insertElement entry).2.entries) ↔
      (∃ height, ⟨entry.ele, entry.score, height⟩ ∈ view.entries) ∨ entry.ele ∉ view.queued := by
  cases found : view.find entry.ele with
  | none =>
      have absent := find_none.mp found
      have unstored : ¬ ∃ height, ⟨entry.ele, entry.score, height⟩ ∈ view.entries := by
        rintro ⟨height, member⟩
        exact absent (List.mem_map.mpr ⟨_, member, rfl⟩)
      simp only [View.insertElement, found]
      rw [tracked.mem_insertFresh_self absent, or_iff_right unstored]
  | some stored =>
      obtain ⟨member, same⟩ := find_some found
      by_cases equal : stored.score = entry.score
      · have present : ⟨entry.ele, entry.score, stored.height⟩ ∈ view.entries := by
          rw [← same, ← equal]
          exact member
        simp only [View.insertElement, found, equal, if_true]
        exact ⟨Or.inl, fun _ => ⟨stored.height, present⟩⟩
      · have unstored : ¬ ∃ height, ⟨entry.ele, entry.score, height⟩ ∈ view.entries := by
          rintro ⟨height, other⟩
          have whole := List.inj_on_of_nodup_map distinct member other same
          exact equal (by rw [whole])
        have absent : entry.ele ∉ (view.unlink entry.ele).entries.map Entry.ele := by
          intro member
          obtain ⟨other, present, same⟩ := List.mem_map.mp member
          exact (mem_unlink.mp present).2 same
        simp only [View.insertElement, found, equal, if_false]
        rw [(tracked.unlink entry.ele).mem_insertFresh_self absent, or_iff_right unstored]
        rfl

/-- An insertion that does not return early leaves no waiting key. -/
theorem insertElement_idle (entry : Entry K V)
    (changed : ¬ ∃ height, ⟨entry.ele, entry.score, height⟩ ∈ view.entries) :
    (view.insertElement entry).2.queued = [] := by
  unfold View.insertElement
  split
  · rfl
  · rename_i stored found
    obtain ⟨member, same⟩ := View.find_some found
    split
    · rename_i equal
      refine absurd ⟨stored.height, ?_⟩ changed
      rw [← same, ← equal]
      exact member
    · rfl

end View

namespace SkipList
variable {K V : Type} [LinearOrder K] [LinearOrder V]

/-- The element is a member with this score: the map finds its node, the node is on the bottom
chain, and the search returns the score. -/
def Holds (toInt : V → Int) (list : SkipList K V) (ele : K) (score : V) : Prop :=
  (∃ header nodes ref node, list.heap.cells list.header = some header ∧
    ForwardChain list.heap 0 (header.forward 0) nodes ∧ (ref, node) ∈ nodes ∧
    list.nodeMap.lookup ele = some ref ∧ node.ele = ele ∧ node.score = score) ∧
  ∃ final, list.searchElement toInt ele = .ok (toInt score, final)

/-- The test of `InsertElement` for an element with an equal score. -/
def EqualScore (list : SkipList K V) (ele : K) (score : V) : Prop :=
  ∃ ref node, list.nodeMap.lookup ele = some ref ∧ list.heap.cells ref = some node ∧ node.score = score

section Shown
variable {list : SkipList K V} {head : Tower K V} {towers : List (Tower K V)} {view : View K V}

omit [LinearOrder K] [LinearOrder V] in
theorem ForwardChain.live {heap : Heap (SkipListNode K V)} {level : Nat} {start : Option Ref}
    {nodes : List (Ref × SkipListNode K V)} (chain : ForwardChain heap level start nodes)
    {ref : Ref} {node : SkipListNode K V} (member : (ref, node) ∈ nodes) : heap.cells ref = some node := by
  induction chain with
  | nil => simp at member
  | cons live reaches next ih =>
      rcases List.mem_cons.mp member with same | later
      · obtain ⟨rfl, rfl⟩ := Prod.mk.inj same
        exact live
      · exact ih later

theorem Shows.equalScore_iff (shown : list.Shows head towers view) (ele : K) (score : V) :
    list.EqualScore ele score ↔ ∃ height, ⟨ele, score, height⟩ ∈ view.entries := by
  rw [← shown.entries]
  constructor
  · rintro ⟨ref, node, mapped, live, rfl⟩
    obtain ⟨tower, member, rfl, rfl⟩ := (shown.represents.mapped ele ref).mp mapped
    obtain ⟨other, stored⟩ := shown.represents.linked.stores (List.mem_cons_of_mem head member)
    obtain rfl : other = node := Option.some.inj (stored.live.symm.trans live)
    exact ⟨tower.height, List.mem_map.mpr ⟨tower, member, by rw [stored.score]; rfl⟩⟩
  · rintro ⟨height, member⟩
    obtain ⟨tower, present, same⟩ := List.mem_map.mp member
    obtain ⟨node, stored⟩ := shown.represents.linked.stores (List.mem_cons_of_mem head present)
    obtain ⟨rfl, rfl, rfl⟩ : tower.ele = ele ∧ tower.score = score ∧ tower.height = height := by
      simpa [Tower.entry] using same
    exact ⟨tower.ref, node, (shown.represents.mapped _ _).mpr ⟨tower, present, rfl, rfl⟩, stored.live, stored.score⟩

theorem Shows.holds_iff (shown : list.Shows head towers view) (toInt : V → Int) (ele : K) (score : V) :
    list.Holds toInt ele score ↔ ∃ height, ⟨ele, score, height⟩ ∈ view.entries := by
  rw [← shown.equalScore_iff]
  constructor
  · rintro ⟨⟨header, nodes, ref, node, _, chain, member, mapped, _, equal⟩, _⟩
    exact ⟨ref, node, mapped, ForwardChain.live chain member, equal⟩
  · rintro ⟨ref, node, mapped, live, equal⟩
    obtain ⟨header, nodes, formed, _⟩ := shown.represents.wellFormed
    obtain ⟨other, member, same⟩ := (formed.mapped ele ref).mp mapped
    obtain rfl : other = node := Option.some.inj ((ForwardChain.live formed.bottom member).symm.trans live)
    refine ⟨⟨header, nodes, ref, other, formed.headerLive, formed.bottom, member, mapped, same, equal⟩, ?_⟩
    obtain ⟨lruCache, read, _⟩ := shown.cached.get ele
    refine ⟨{ list with lruCache := lruCache }, ?_⟩
    simp [SkipList.searchElement, mapped, read, Heap.read_of_live live, equal]

/-- An insertion returns, and its element is a member exactly when the equal-score test succeeded or
the element did not wait for its deletion. -/
theorem Shows.insertElement_holds (shown : list.Shows head towers view) (coherent : view.Coherent)
    (toInt : V → Int) (ele : K) (score : V) (draws : List Nat) :
    ∃ result after, list.insertElement ele score draws = .ok (result, after) ∧
      (after.Holds toInt ele score ↔ list.EqualScore ele score ∨ ele ∉ list.lruCache.deleteKeys) := by
  obtain ⟨after, rest, returned, last, _⟩ := shown.insertElement coherent.toTracked ele score draws
  refine ⟨_, after, returned, ?_⟩
  rw [last.holds_iff, shown.equalScore_iff, shown.queued]
  exact coherent.mem_insertElement_self shown.distinct ⟨ele, score, getRandomLevel list.maxLevel draws⟩

end Shown

/-- After every history an inserted element is a member with its score exactly when it was one
before or its key did not wait for its deletion. -/
theorem insertElement_holds_iff [Inhabited K] (toInt : V → Int) (maxLevel : Nat) (positive : 0 < maxLevel)
    (maxCapacity : Int) (uninitialized : V) (operations : List (Operation K V)) (ele : K) (score : V)
    (draws : List Nat) :
    ∃ outputs list result after,
      history toInt maxLevel maxCapacity uninitialized operations = .ok (outputs, list) ∧
        list.insertElement ele score draws = .ok (result, after) ∧
        (after.Holds toInt ele score ↔ list.EqualScore ele score ∨ ele ∉ list.lruCache.deleteKeys) := by
  obtain ⟨outputs, list, head, towers, reached, _, shown, coherent⟩ :=
    history_shows (K := K) toInt maxLevel positive maxCapacity uninitialized operations
  obtain ⟨result, after, returned, holds⟩ := shown.insertElement_holds coherent toInt ele score draws
  exact ⟨outputs, list, result, after, reached, returned, holds⟩

theorem insertElement_holds_iff_shrunk :
    ∃ outputs list result after,
      history (K := Str) (V := CInt) Subtype.val 6 0 ⟨0, by decide⟩
          [.insertElement (bytes "a") ⟨1, by decide⟩ [], .insertElement (bytes "b") ⟨2, by decide⟩ [],
            .setMaxMemory 1] = .ok (outputs, list) ∧
        list.insertElement (bytes "c") ⟨5, by decide⟩ [] = .ok (result, after) ∧
        (after.Holds Subtype.val (bytes "c") ⟨5, by decide⟩ ↔
          list.EqualScore (bytes "c") ⟨5, by decide⟩ ∨ bytes "c" ∉ list.lruCache.deleteKeys) :=
  insertElement_holds_iff Subtype.val 6 (by decide) 0 _ _ _ _ _

/-- The update of an element that waits for its deletion loses the element. -/
theorem update_of_queued_lost :
    ∃ outputs list result after,
      history (K := Str) (V := CInt) Subtype.val 6 0 ⟨0, by decide⟩
          [.insertElement (bytes "a") ⟨1, by decide⟩ [], .insertElement (bytes "b") ⟨2, by decide⟩ [],
            .setMaxMemory 1] = .ok (outputs, list) ∧
        list.insertElement (bytes "a") ⟨5, by decide⟩ [] = .ok (result, after) ∧
        ¬ after.Holds Subtype.val (bytes "a") ⟨5, by decide⟩ := by
  obtain ⟨outputs, list, head, towers, reached, _, shown, coherent⟩ :=
    history_shows (K := Str) (V := CInt) Subtype.val 6 (by decide) 0 ⟨0, by decide⟩
      [.insertElement (bytes "a") ⟨1, by decide⟩ [], .insertElement (bytes "b") ⟨2, by decide⟩ [], .setMaxMemory 1]
  obtain ⟨result, after, returned, holds⟩ :=
    shown.insertElement_holds coherent Subtype.val (bytes "a") ⟨5, by decide⟩ []
  refine ⟨outputs, list, result, after, reached, returned, ?_⟩
  rw [holds, shown.equalScore_iff, shown.queued, not_or, not_not]
  constructor
  · rintro ⟨height, member⟩
    have entries : (historyView (K := Str) (V := CInt) Subtype.val 6 0
        [.insertElement (bytes "a") ⟨1, by decide⟩ [], .insertElement (bytes "b") ⟨2, by decide⟩ [],
          .setMaxMemory 1]).entries = [⟨bytes "a", ⟨1, by decide⟩, 1⟩, ⟨bytes "b", ⟨2, by decide⟩, 1⟩] := by decide
    rw [entries] at member
    simp at member
  · decide

/-- The cache, the map and the waiting keys of a list agree. -/
structure Agrees (list : SkipList K V) : Prop where
  cached : ∀ key handle, list.lruCache.cache.lookup key = some handle →
    ∃ value ref node, list.lruCache.lru.read handle = .ok (key, value) ∧ list.nodeMap.lookup key = some ref ∧
      list.heap.cells ref = some node ∧ node.ele = key ∧ node.score = value
  uncached : ∀ key ref, list.nodeMap.lookup key = some ref → list.lruCache.cache.lookup key = none →
    key ∈ list.lruCache.deleteKeys
  queued : ∀ key ∈ list.lruCache.deleteKeys, list.lruCache.cache.lookup key = none

/-- No key waits, the map and the cache have the same keys, and the capacity bounds the counter. -/
structure Settled (list : SkipList K V) : Prop where
  idle : list.lruCache.deleteKeys = []
  keys : ∀ key, (list.nodeMap.lookup key).isSome ↔ (list.lruCache.cache.lookup key).isSome
  bounded : 0 < list.lruCache.capacity → (list.length.toNat : Int) ≤ list.lruCache.capacity

section Agreement
variable {list : SkipList K V} {head : Tower K V} {towers : List (Tower K V)} {view : View K V}

theorem Shows.mapped_iff (shown : list.Shows head towers view) (key : K) :
    (list.nodeMap.lookup key).isSome ↔ key ∈ view.entries.map Entry.ele := by
  rw [shown.elements, ← not_iff_not, Option.not_isSome_iff_eq_none, shown.represents.lookup_none]

theorem Shows.cached_iff (shown : list.Shows head towers view) (key : K) :
    (list.lruCache.cache.lookup key).isSome ↔ key ∈ view.recency.map Prod.fst := by
  rw [← not_iff_not, Option.not_isSome_iff_eq_none, shown.cached.lookup_none]

theorem Shows.agrees (shown : list.Shows head towers view) (coherent : view.Coherent) : list.Agrees where
  cached key handle found := by
    obtain ⟨value, member⟩ := (shown.cached.handles key handle).mp found
    obtain ⟨height, present⟩ := coherent.recorded key value (shown.cached.mem_iff.mpr ⟨handle, member⟩)
    obtain ⟨ref, node, mapped, live, equal⟩ := (shown.equalScore_iff key value).mpr ⟨height, present⟩
    obtain ⟨tower, inside, rfl, rfl⟩ := (shown.represents.mapped key ref).mp mapped
    obtain ⟨other, stored⟩ := shown.represents.linked.stores (List.mem_cons_of_mem head inside)
    obtain rfl : other = node := Option.some.inj (stored.live.symm.trans live)
    exact ⟨value, tower.ref, other, HandleList.read_of_mem member, mapped, live, stored.ele, equal⟩
  uncached key ref mapped missing := by
    have member := (shown.mapped_iff key).mp (by rw [mapped]; rfl)
    obtain ⟨entry, present, rfl⟩ := List.mem_map.mp member
    rw [shown.queued]
    exact (coherent.pending entry present).resolve_left (shown.cached.lookup_none.mp missing)
  queued key waiting := by
    rw [shown.queued] at waiting
    exact shown.cached.lookup_none.mpr (coherent.apart key waiting)

/-- A coherent view without waiting keys has at most as many entries as cached pairs. -/
theorem Shows.settled (shown : list.Shows head towers view) (coherent : view.Coherent) (idle : view.queued = []) :
    list.Settled where
  idle := shown.queued.trans idle
  keys key := by
    rw [shown.mapped_iff, shown.cached_iff]
    constructor
    · intro member
      obtain ⟨entry, present, rfl⟩ := List.mem_map.mp member
      refine (coherent.pending entry present).resolve_right ?_
      simp [idle]
    · exact coherent.cached_mem
  bounded positive := by
    rw [shown.capacity] at positive ⊢
    have covered : view.entries.map Entry.ele ⊆ view.recency.map Prod.fst := by
      intro key member
      obtain ⟨entry, present, rfl⟩ := List.mem_map.mp member
      refine (coherent.pending entry present).resolve_right ?_
      simp [idle]
    have fewer := (shown.distinct.subperm covered).length_le
    have length : list.length.toNat ≤ towers.length := by
      rw [shown.represents.counted, BitVec.toNat_ofNat]
      exact Nat.mod_le ..
    have total : view.entries.length = towers.length := by rw [← shown.entries, List.length_map]
    have bound := coherent.fits positive
    rw [List.length_map, List.length_map, total] at fewer
    omega

end Agreement

/-- After every history the cache, the map and the waiting keys agree, and after an insertion that
does not return early they are settled. -/
theorem history_agrees [Inhabited K] (toInt : V → Int) (maxLevel : Nat) (positive : 0 < maxLevel)
    (maxCapacity : Int) (uninitialized : V) (operations : List (Operation K V)) :
    ∃ outputs list, history toInt maxLevel maxCapacity uninitialized operations = .ok (outputs, list) ∧
      list.Agrees ∧ ∀ ele score draws, ∃ result after, list.insertElement ele score draws = .ok (result, after) ∧
        (¬ list.EqualScore ele score → after.Settled) := by
  obtain ⟨outputs, list, head, towers, reached, _, shown, coherent⟩ :=
    history_shows (K := K) toInt maxLevel positive maxCapacity uninitialized operations
  refine ⟨outputs, list, reached, shown.agrees coherent, ?_⟩
  intro ele score draws
  obtain ⟨after, rest, returned, last, _⟩ := shown.insertElement coherent.toTracked ele score draws
  refine ⟨_, after, returned, ?_⟩
  intro changed
  rw [shown.equalScore_iff] at changed
  exact last.settled (coherent.operate toInt list.maxLevel (.insertElement ele score draws))
    (View.insertElement_idle ⟨ele, score, getRandomLevel list.maxLevel draws⟩ changed)

theorem history_agrees_shrunk :
    ∃ outputs list, history (K := Str) (V := CInt) Subtype.val 6 0 ⟨0, by decide⟩
        [.insertElement (bytes "a") ⟨1, by decide⟩ [], .insertElement (bytes "b") ⟨2, by decide⟩ [],
          .setMaxMemory 1] = .ok (outputs, list) ∧
      list.Agrees ∧ ∀ ele score draws, ∃ result after, list.insertElement ele score draws = .ok (result, after) ∧
        (¬ list.EqualScore ele score → after.Settled) :=
  history_agrees Subtype.val 6 (by decide) 0 _ _

end SkipList

end MySkipList
