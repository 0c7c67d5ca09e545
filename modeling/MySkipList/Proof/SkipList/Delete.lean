import MySkipList.Proof.SkipList.Invariant

namespace MySkipList.SkipList

open Foundation

variable {K V : Type} [LinearOrder K] [LinearOrder V]

/-- The state after the deletion of a tower behind these towers. -/
def unlinked (list : SkipList K V) (head : Tower K V) (front : List (Tower K V)) (target : Tower K V)
    (node : SkipListNode K V) (lruCache : LRUCache K V) : SkipList K V :=
  { list with
    heap := (list.heap.mapCells
      (unlinkCell node (fun level => (stop head front level).ref) target.height)).discard target.ref
    tail := if node.forward 0 = none then some (stop head front 0).ref else list.tail
    nodeMap := list.nodeMap.erase target.ele
    lruCache := lruCache
    length := list.length - 1 }

section Deleted
variable {list : SkipList K V} {head : Tower K V} {front back : List (Tower K V)} {target : Tower K V}

theorem Represents.deleteBody_absent {towers : List (Tower K V)} (rep : list.Represents head towers) {ele : K}
    (absent : ele ∉ towers.map Tower.ele) : list.deleteBody ele = .ok (0, list) := by
  simp [deleteBody, rep.lookup_none.mpr absent]

/-- The node of a tower links to the towers behind it. -/
theorem Represents.target_node (rep : list.Represents head (front ++ target :: back)) :
    ∃ node, Stores list.heap target node ∧ ∀ level < target.height,
      node.forward level = (firstAbove Tower.height level back).map Tower.ref :=
  rep.linked (head :: front) target back rfl

/-- The other towers live elsewhere. -/
theorem Represents.other_apart (rep : list.Represents head (front ++ target :: back)) {tower : Tower K V}
    (member : tower ∈ head :: (front ++ back)) : tower.ref ≠ target.ref := by
  have distinct : ((head :: front).map Tower.ref ++ target.ref :: back.map Tower.ref).Nodup := by
    simpa using rep.refs_nodup
  rw [List.nodup_middle, List.nodup_cons, ← List.map_append] at distinct
  intro same
  exact distinct.1 (same ▸ List.mem_map_of_mem member)

theorem Represents.unlinkable (rep : list.Represents head (front ++ target :: back)) {node : SkipListNode K V}
    (stored : Stores list.heap target node)
    (links : ∀ level < target.height, node.forward level = (firstAbove Tower.height level back).map Tower.ref)
    (update : Buffer (Option Ref)) (size : update.size = list.maxLevel)
    (stops : ∀ level < list.level, update.cells level = some (stop head front level).ref) :
    Unlinkable list.heap target.ref node (fun level => (stop head front level).ref) update where
  live := stored.live
  room := by
    rw [stored.level, size]
    exact (rep.heights target (by simp)).2.trans rep.levels
  stops level inside := stops level (by
    rw [stored.level] at inside
    exact lt_of_lt_of_le inside (rep.heights target (by simp)).2)
  apart level _ := (rep.stop_apart (List.mem_cons_self ..) level).symm
  writable level inside := by
    have low : level < head.height := by
      rw [stored.level] at inside
      rw [rep.headHeight]
      exact lt_of_lt_of_le inside ((rep.heights target (by simp)).2.trans rep.levels)
    obtain ⟨other, present⟩ := rep.linked.stores (rep.stop_mem level)
    refine ⟨other, present.live, ?_⟩
    rw [present.level]
    exact stop_height head front level low
  successor next found := by
    rw [links 0 (rep.heights target (by simp)).1, Option.map_eq_some_iff] at found
    obtain ⟨tower, first, rfl⟩ := found
    obtain ⟨other, present⟩ := rep.linked.stores
      (List.mem_cons_of_mem head (List.mem_append_right front (List.mem_cons_of_mem target (firstAbove_mem _ first))))
    exact ⟨other, present.live⟩

/-- The search of a deletion stores the stop of every level and ends at the member's node, on its highest level. -/
theorem Represents.searchDelete (rep : list.Represents head (front ++ target :: back)) :
    ∃ path, SkipList.searchDelete list.heap target.ele target.score list.maxLevel list.turns list.level
        ⟨list.header, .filled list.maxLevel none, none, list.maxLevel⟩ = .ok path ∧
      path.update.size = list.maxLevel ∧
      (∀ level < list.level, path.update.cells level = some (stop head front level).ref) ∧
      path.level = target.height - 1 ∧ path.node = some target.ref := by
  obtain ⟨positive, bounded⟩ := rep.heights target (by simp)
  have corridor := rep.corridor rep.smaller_of_split rep.larger_of_split
  obtain ⟨path, searched, size, stops, _, levelEq, nodeEq⟩ := corridor.searchDelete
    (fun tower member => rep.unique_of_split tower (List.mem_append_right front member)) positive list.maxLevel
    (bounded.trans rep.levels) list.level (by rw [rep.headHeight]; exact rep.levels)
    ⟨list.header, .filled list.maxLevel none, none, list.maxLevel⟩
    (by rw [rep.stop_start list.level le_rfl, rep.headRef]) rep.levels (by rw [if_neg (by omega)])
  rw [if_neg (by omega)] at nodeEq
  exact ⟨path, searched, size, stops, levelEq, nodeEq⟩

/-- The deletion of a member returns one and reaches the state without its tower. -/
theorem Represents.deleteBody_present (rep : list.Represents head (front ++ target :: back))
    {lruCache : LRUCache K V} (removed : list.lruCache.remove target.ele = .ok lruCache)
    {node : SkipListNode K V} (stored : Stores list.heap target node)
    (links : ∀ level < target.height, node.forward level = (firstAbove Tower.height level back).map Tower.ref) :
    list.deleteBody target.ele = .ok (1, list.unlinked head front target node lruCache) := by
  have positive := (rep.heights target (by simp)).1
  have found : list.nodeMap.lookup target.ele = some target.ref :=
    (rep.mapped _ _).mpr ⟨target, by simp, rfl, rfl⟩
  obtain ⟨path, searched, size, stops, levelEq, nodeEq⟩ := rep.searchDelete
  have ready := rep.unlinkable stored links path.update size stops
  have unlinkRun := ready.run target.height 0 (by rw [stored.level, Nat.zero_add]) list.tail
  have start : list.heap.mapCells (unlinkCell node (fun level => (stop head front level).ref) 0) = list.heap :=
    Heap.mapCells_eq_self list.heap fun ref stored => by simp [unlinkCell]
  rw [start] at unlinkRun
  have targetLive := mapCells_live stored.live
    (unlinkCell node (fun level => (stop head front level).ref) node.level)
  rw [deleteBody, found]
  simp only [Heap.read_of_live stored.live, Exec.ok_bind, stored.score, searched, nodeEq, levelEq,
    Nat.sub_add_cancel positive, unlinkRun, removed, deref, Exec.pure_eq, Heap.free_of_live targetLive]
  rw [stored.level]
  simp [unlinked, positive]

/-- What a deletion leaves in the cell of another tower. -/
theorem Represents.unlinked_other (rep : list.Represents head (front ++ target :: back)) (node : SkipListNode K V)
    (lruCache : LRUCache K V) {tower : Tower K V} {old : SkipListNode K V} (member : tower ∈ head :: (front ++ back))
    (stored : Stores list.heap tower old) :
    Stores (list.unlinked head front target node lruCache).heap tower
      (unlinkCell node (fun level => (stop head front level).ref) target.height tower.ref old) := by
  refine ⟨?_, stored.level, stored.ele, stored.score⟩
  rw [SkipList.unlinked, Heap.discard_of_ne _ (rep.other_apart member)]
  exact mapCells_live stored.live _

/-- The pointers after a deletion lead through the remaining towers. -/
theorem Represents.linked_unlinked (rep : list.Represents head (front ++ target :: back)) {node : SkipListNode K V}
    (links : ∀ level < target.height, node.forward level = (firstAbove Tower.height level back).map Tower.ref)
    (lruCache : LRUCache K V) :
    Linked (list.unlinked head front target node lruCache).heap (head :: (front ++ back)) := by
  have whole : head :: (front ++ target :: back) = (head :: front) ++ target :: back := rfl
  intro before tower after position
  have member : tower ∈ head :: (front ++ back) := by
    rw [position]
    simp
  rw [← List.cons_append] at position
  rcases split_append position with ⟨rest, inFront, rfl⟩ | ⟨rest, inBack, beforeEq⟩
  · -- A tower before the target loses its link to the target and gets the target's link.
    obtain ⟨old, present, oldLinks⟩ := rep.linked before tower (rest ++ target :: back) (by
      rw [whole, inFront, List.append_assoc, List.cons_append])
    refine ⟨_, rep.unlinked_other node lruCache member present, fun level inside => ?_⟩
    simp only [unlinkCell]
    by_cases isStop : level < target.height ∧ tower.ref = (stop head front level).ref
    · have same : tower = stop head front level :=
        rep.tower_eq (by rw [whole, inFront]; simp) (rep.stop_mem level) isStop.2
      rw [if_pos isStop, links level isStop.1,
        firstAbove_behind_last Tower.height level rep.front_nodup inFront inside same]
    · rw [if_neg isStop, oldLinks level inside]
      refine congrArg (Option.map Tower.ref)
        (firstAbove_unseen Tower.height level rep.front_nodup inFront inside ?_ back)
      exact fun facts => isStop ⟨facts.1, congrArg Tower.ref facts.2⟩
  · -- A tower behind the target keeps its links.
    obtain ⟨old, present, oldLinks⟩ := rep.linked ((head :: front) ++ target :: rest) tower after (by
      rw [inBack]
      simp)
    refine ⟨_, rep.unlinked_other node lruCache member present, fun level inside => ?_⟩
    rw [← oldLinks level inside]
    apply if_neg
    rintro ⟨_, same⟩
    exact rep.stop_apart (by rw [inBack]; simp) level same

/-- The map after a deletion misses the deleted element only. -/
theorem Represents.mapped_unlinked (rep : list.Represents head (front ++ target :: back)) (ele : K) (ref : Ref) :
    (list.nodeMap.erase target.ele).lookup ele = some ref ↔
      ∃ tower ∈ front ++ back, tower.ele = ele ∧ tower.ref = ref := by
  rw [Dictionary.lookup_erase]
  by_cases same : ele = target.ele
  · rw [if_pos same]
    simp only [reduceCtorEq, false_iff]
    rintro ⟨tower, member, equal, _⟩
    exact rep.unique_of_split tower member (equal.trans same)
  · rw [if_neg same, rep.mapped]
    constructor
    · rintro ⟨tower, member, equal, stored⟩
      refine ⟨tower, ?_, equal, stored⟩
      rcases List.mem_append.mp member with inFront | later
      · exact List.mem_append_left back inFront
      · rcases List.mem_cons.mp later with rfl | inBack
        · exact absurd equal.symm same
        · exact List.mem_append_right front inBack
    · rintro ⟨tower, member, rest⟩
      exact ⟨tower, (List.sublist_cons_self target back).append_left front |>.subset member, rest⟩

/-- The state after a deletion represents the remaining towers. -/
theorem Represents.unlinked (rep : list.Represents head (front ++ target :: back)) {node : SkipListNode K V}
    (links : ∀ level < target.height, node.forward level = (firstAbove Tower.height level back).map Tower.ref)
    (lruCache : LRUCache K V) :
    (list.unlinked head front target node lruCache).Represents head (front ++ back) := by
  have sub : (front ++ back).Sublist (front ++ target :: back) :=
    (List.Sublist.refl front).append (List.sublist_cons_self target back)
  refine ⟨rep.headRef, rep.headHeight, rep.linked_unlinked links lruCache,
    fun tower member => rep.apart tower (sub.subset member), rep.sorted.sublist sub,
    fun tower member => rep.heights tower (sub.subset member), rep.levels, rep.positive,
    rep.distinct.sublist (sub.map _), rep.mapped_unlinked, ?_⟩
  show list.length - 1 = _
  rw [rep.counted, List.length_append, List.length_cons, List.length_append, ← Nat.add_assoc, BitVec.ofNat_add]
  simp

end Deleted

end MySkipList.SkipList
