import MySkipList.Proof.SkipList.Invariant

namespace MySkipList.SkipList

open Foundation

variable {K V : Type} [LinearOrder K] [LinearOrder V]

/-- The drawn level lies between one and the maximum. -/
theorem getRandomLevel_bounds (maxLevel : Nat) (draws : List Nat) (positive : 0 < maxLevel) :
    0 < getRandomLevel maxLevel draws ∧ getRandomLevel maxLevel draws ≤ maxLevel := by
  unfold getRandomLevel
  dsimp only
  split <;> omega

/-- Every level between one and the maximum can be drawn. -/
theorem getRandomLevel_replicate (maxLevel level : Nat) (positive : 0 < level) (bounded : level ≤ maxLevel) :
    getRandomLevel maxLevel (List.replicate (level - 1) 0) = level := by
  have leading : ((List.replicate (level - 1) 0).takeWhile
      fun draw => 2 * (draw &&& 0xFFFF) < 0xFFFF).length = level - 1 := by
    rw [List.takeWhile_eq_self_iff.mpr, List.length_replicate]
    intro draw member
    rw [List.eq_of_mem_replicate member]
    decide
  unfold getRandomLevel
  rw [leading]
  dsimp only
  split <;> omega

/-- The tower of a node that is about to be allocated. -/
def freshTower (list : SkipList K V) (ele : K) (score : V) (height : Nat) : Tower K V :=
  ⟨list.heap.next, height, ele, score⟩

/-- The effect of the link phase of an insertion on one cell. -/
def insertCell (fresh : Ref) (pred : Nat → Ref) (succ : Nat → Option Ref) (rank old : Nat → UnsignedInt)
    (height : Nat) (before : Option Ref) (ref : Ref) (node : SkipListNode K V) : SkipListNode K V :=
  spanCell fresh pred rank old height ref
    (putBackward fresh before ref (backwardCell fresh (succ (height - 1)) ref
      (linkCell fresh pred succ height ref node)))

/-- The state after the link phase of an insertion between these towers. -/
def linkedNode (list : SkipList K V) (head : Tower K V) (front back : List (Tower K V)) (ele : K) (score : V)
    (height : Nat) (rank : Nat → UnsignedInt) : SkipList K V :=
  { list with
    heap := (list.heap.alloc (SkipListNode.new ele score height)).mapCells
      (insertCell list.heap.next (fun level => (stop head front level).ref)
        (fun level => (firstAbove Tower.height level back).map Tower.ref) rank
        (fun level => spanAt list.heap (stop head front level).ref level) height
        (if (stop head front 0).ref ≠ list.header then some (stop head front 0).ref else none))
    tail := if firstAbove Tower.height (height - 1) back = none then some list.heap.next else list.tail
    level := max height list.level
    length := list.length + 1
    nodeMap := list.nodeMap.emplace ele list.heap.next }

section Inserted
variable {list : SkipList K V} {head : Tower K V} {front back : List (Tower K V)} {ele : K} {score : V}

/-- A tower of the list is older than the next allocation. -/
theorem Represents.ref_lt (rep : list.Represents head (front ++ back)) {tower : Tower K V}
    (member : tower ∈ head :: (front ++ back)) : tower.ref ≠ list.heap.next := by
  obtain ⟨node, stored⟩ := rep.linked.stores member
  exact Nat.ne_of_lt (Heap.live_lt stored.live)

theorem Represents.linkable (rep : list.Represents head (front ++ back)) (ele : K) (score : V) (height : Nat)
    (bounded : height ≤ list.maxLevel) (update : Buffer (Option Ref)) (size : update.size = list.maxLevel)
    (stops : ∀ level < list.maxLevel, update.cells level = some (stop head front level).ref) :
    Linkable (list.heap.alloc (SkipListNode.new ele score height)) list.heap.next height
      (fun level => (stop head front level).ref) update where
  live := ⟨_, Heap.alloc_self .., le_rfl⟩
  room := size ▸ bounded
  stops level inside := stops level (lt_of_lt_of_le inside bounded)
  apart level _ := rep.ref_lt (rep.stop_mem level)
  writable level inside := by
    obtain ⟨node, stored⟩ := rep.linked.stores (rep.stop_mem level)
    refine ⟨node, Heap.alloc_old _ stored.live, ?_⟩
    rw [stored.level]
    exact stop_height head front level (by rw [rep.headHeight]; omega)

/-- The stop of a level still has its old pointer and span after the allocation. -/
theorem Represents.stop_node (rep : list.Represents head (front ++ back))
    (smaller : ∀ tower ∈ front, tower.Precedes ele score)
    (larger : ∀ tower ∈ back, ¬ tower.Precedes ele score) {fresh : SkipListNode K V} {level : Nat}
    (inside : level < list.maxLevel) {node : SkipListNode K V}
    (live : (list.heap.alloc fresh).cells (stop head front level).ref = some node) :
    node.forward level = (firstAbove Tower.height level back).map Tower.ref ∧
      node.span level = spanAt list.heap (stop head front level).ref level := by
  obtain ⟨other, stored, link⟩ := (rep.corridor smaller larger).forward_stop level (by rw [rep.headHeight]; exact inside)
  obtain rfl : other = node := Option.some.inj ((Heap.alloc_old _ stored.live).symm.trans live)
  exact ⟨link, by simp only [spanAt, stored.live]⟩

/-- The link phase returns, with the ranks that its search collects. -/
theorem Represents.linkNode (rep : list.Represents head (front ++ back))
    (smaller : ∀ tower ∈ front, tower.Precedes ele score)
    (larger : ∀ tower ∈ back, ¬ tower.Precedes ele score) (draws : List Nat) :
    ∃ rank : Nat → UnsignedInt,
      (∀ level < list.maxLevel, ∃ before after, head :: front = before ++ stop head front (level + 1) :: after ∧
        rank level = passedSpan list.heap level (stop head front (level + 1)) after) ∧
      list.linkNode ele score draws =
        .ok (list.linkedNode head front back ele score (getRandomLevel list.maxLevel draws) rank) := by
  obtain ⟨positive, bounded⟩ := getRandomLevel_bounds list.maxLevel draws rep.positive
  generalize heightEq : getRandomLevel list.maxLevel draws = height at positive bounded
  have corridor := rep.corridor smaller larger
  obtain ⟨path, searched, curr, size, rankSize, stops, _, ranks, _⟩ :=
    corridor.searchInsert list.maxLevel rep.headHeight.ge
      ⟨list.header, .filled list.maxLevel none, .filled list.maxLevel 0⟩
      (by rw [rep.stop_start list.maxLevel rep.levels, rep.headRef]) le_rfl le_rfl
  refine ⟨path.rank.cells, ?_, ?_⟩
  · intro level inside
    obtain ⟨before, after, split, value⟩ := ranks level inside
    exact ⟨before, after, split, value.trans (by simp [Buffer.filled])⟩
  let start := list.heap.alloc (SkipListNode.new ele score height)
  let pred := fun level => (stop head front level).ref
  let succ := fun level => (firstAbove Tower.height level back).map Tower.ref
  let fresh := list.heap.next
  let before := if pred 0 ≠ list.header then some (pred 0) else none
  let old := fun level => spanAt list.heap (pred level) level
  have ready : Linkable start fresh height pred path.update :=
    rep.linkable ele score height bounded path.update size stops
  have stopNode (level : Nat) (inside : level < height) (node : SkipListNode K V)
      (live : start.cells (pred level) = some node) : node.forward level = succ level ∧ node.span level = old level :=
    rep.stop_node smaller larger (lt_of_lt_of_le inside bounded) live
  have linked := ready.run (fun level inside node live => (stopNode level inside node live).1) height 0
    (Nat.zero_add height) none
  have untouched : start.mapCells (linkCell fresh pred succ 0) = start :=
    Heap.mapCells_eq_self start fun ref node => by simp [linkCell]
  rw [untouched, if_neg (by omega)] at linked
  have backward : linkNext fresh (succ (height - 1)) list.tail (start.mapCells (linkCell fresh pred succ height)) =
      .ok ((start.mapCells (linkCell fresh pred succ height)).mapCells (backwardCell fresh (succ (height - 1))),
        if firstAbove Tower.height (height - 1) back = none then some fresh else list.tail) := by
    rw [linkNext_of_live]
    · simp [succ]
    · intro target found
      obtain ⟨tower, first, rfl⟩ := Option.map_eq_some_iff.mp found
      obtain ⟨node, stored⟩ := rep.linked.stores
        (List.mem_cons_of_mem head (List.mem_append_right front (firstAbove_mem _ first)))
      exact ⟨_, mapCells_live (Heap.alloc_old (SkipListNode.new ele score height) stored.live) _⟩
  obtain ⟨node, live, _⟩ := ready.live
  have freshLive := mapCells_live (mapCells_live live (linkCell fresh pred succ height))
    (backwardCell fresh (succ (height - 1)))
  have spanReady := ((ready.mapCells (linkCell fresh pred succ height) fun _ _ => rfl).mapCells
    (backwardCell fresh (succ (height - 1))) fun _ _ => rfl).mapCells (putBackward fresh before) fun _ _ => rfl
  have linkedSpans (level : Nat) (inside : level < height) (node : SkipListNode K V)
      (live : (((start.mapCells (linkCell fresh pred succ height)).mapCells
        (backwardCell fresh (succ (height - 1)))).mapCells (putBackward fresh before)).cells (pred level) =
          some node) : node.forward level = some fresh ∧ node.span level = old level := by
    obtain ⟨source, sourceLive, _⟩ := ready.writable level inside
    have facts := stopNode level inside source sourceLive
    have chain := mapCells_live (mapCells_live (mapCells_live sourceLive (linkCell fresh pred succ height))
      (backwardCell fresh (succ (height - 1)))) (putBackward fresh before)
    obtain rfl := Option.some.inj (chain.symm.trans live)
    simp only [putBackward, backwardCell]
    exact ⟨by simp [linkCell, inside], facts.2⟩
  have spans := spanReady.spanRun (by rw [rankSize]; exact bounded) linkedSpans height 0 (Nat.zero_add height)
  have unspanned (heap : Heap (SkipListNode K V)) :
      heap.mapCells (spanCell fresh pred path.rank.cells old 0) = heap :=
    Heap.mapCells_eq_self heap fun ref node => by simp [spanCell]
  rw [unspanned] at spans
  rw [SkipList.linkNode, searched, Exec.ok_bind]
  dsimp only
  rw [heightEq, linked, Exec.ok_bind]
  dsimp only
  rw [backward, Exec.ok_bind]
  dsimp only
  rw [curr, storeBackward_of_live freshLive, Exec.ok_bind, spans, Exec.ok_bind, Heap.mapCells_mapCells,
    Heap.mapCells_mapCells, Heap.mapCells_mapCells]
  rfl

/-- The new tower keeps the order between the smaller and the larger towers. -/
theorem Represents.sorted_fresh (rep : list.Represents head (front ++ back))
    (smaller : ∀ tower ∈ front, tower.Precedes ele score)
    (larger : ∀ tower ∈ back, ¬ tower.Precedes ele score)
    (absent : ele ∉ (front ++ back).map Tower.ele) (height : Nat) :
    (front ++ list.freshTower ele score height :: back).Pairwise Tower.Before := by
  have parts := List.pairwise_append.mp rep.sorted
  have after (tower : Tower K V) (member : tower ∈ back) : (list.freshTower ele score height).Before tower := by
    have different : (list.freshTower ele score height).ele ≠ tower.ele := fun same =>
      absent (List.mem_map.mpr ⟨tower, List.mem_append_right front member, same.symm⟩)
    refine (Tower.before_or_before different).resolve_right fun before => larger tower member ?_
    exact Tower.before_iff_precedes.mp before
  rw [List.pairwise_append, List.pairwise_cons]
  refine ⟨parts.1, ⟨after, parts.2.1⟩, ?_⟩
  intro first inFront second later
  rcases List.mem_cons.mp later with rfl | inBack
  · exact Tower.before_iff_precedes.mpr (smaller first inFront)
  · exact parts.2.2 first inFront second inBack

/-- What the link phase leaves in the cell of an older tower. -/
theorem Represents.linkedNode_older (rep : list.Represents head (front ++ back)) (ele : K) (score : V) (height : Nat)
    (rank : Nat → UnsignedInt) {tower : Tower K V} {node : SkipListNode K V} (member : tower ∈ head :: (front ++ back))
    (stored : Stores list.heap tower node) :
    ∃ after, Stores (list.linkedNode head front back ele score height rank).heap tower after ∧
      (∀ level, after.forward level =
        if level < height ∧ tower.ref = (stop head front level).ref then some list.heap.next else node.forward level) ∧
      (∀ level, after.span level =
        if level < height ∧ tower.ref = (stop head front level).ref then rank 0 - rank level + 1 else node.span level) ∧
      after.backward = if (firstAbove Tower.height (height - 1) back).map Tower.ref = some tower.ref then
        some list.heap.next else node.backward := by
  have elsewhere := rep.ref_lt member
  refine ⟨_, ⟨mapCells_live (Heap.alloc_old _ stored.live) _, stored.level, stored.ele, stored.score⟩, ?_, ?_, ?_⟩
  · intro level
    simp only [insertCell, spanCell, putBackward, backwardCell, linkCell, elsewhere, and_false, if_false]
  · intro level
    simp only [insertCell, spanCell, putBackward, backwardCell, linkCell, elsewhere, and_false, if_false]
  · simp only [insertCell, spanCell, putBackward, backwardCell, linkCell, elsewhere, if_false]

/-- What the link phase leaves in the cell of the new node. -/
theorem Represents.linkedNode_fresh (rep : list.Represents head (front ++ back)) (ele : K) (score : V) (height : Nat)
    (rank : Nat → UnsignedInt) :
    ∃ after, Stores (list.linkedNode head front back ele score height rank).heap (list.freshTower ele score height)
        after ∧
      (∀ level < height, after.forward level = (firstAbove Tower.height level back).map Tower.ref) ∧
      (∀ level < height, after.span level =
        spanAt list.heap (stop head front level).ref level - (rank 0 - rank level)) ∧
      after.backward = if (stop head front 0).ref ≠ list.header then some (stop head front 0).ref else none := by
  have elsewhere (level : Nat) : list.heap.next ≠ (stop head front level).ref := (rep.ref_lt (rep.stop_mem level)).symm
  refine ⟨_, ⟨mapCells_live (Heap.alloc_self ..) _, rfl, rfl, rfl⟩, ?_, ?_, ?_⟩
  · intro level inside
    simp only [insertCell, spanCell, putBackward, backwardCell, linkCell]
    rw [if_neg fun facts => elsewhere level facts.2, if_pos ⟨inside, trivial⟩]
  · intro level inside
    simp only [insertCell, spanCell, putBackward, backwardCell, linkCell]
    rw [if_neg fun facts => elsewhere level facts.2, if_pos ⟨inside, trivial⟩]
  · simp only [insertCell, spanCell, putBackward, if_true]

/-- The pointers after the link phase lead through the towers with the new one at its place. -/
theorem Represents.linked_linkedNode (rep : list.Represents head (front ++ back)) (ele : K) (score : V) (height : Nat)
    (rank : Nat → UnsignedInt) :
    Linked (list.linkedNode head front back ele score height rank).heap
      (head :: (front ++ list.freshTower ele score height :: back)) := by
  intro before tower after position
  rw [← List.cons_append] at position
  rcases split_append position with ⟨rest, inFront, rfl⟩ | ⟨rest, inBack, beforeEq⟩
  · -- A tower before the new one links to it where it was the stop of the search.
    have member : tower ∈ head :: (front ++ back) := by
      rw [← List.cons_append, inFront]
      simp
    obtain ⟨node, present, links⟩ := rep.linked before tower (rest ++ back) (by
      rw [← List.cons_append, inFront, List.append_assoc, List.cons_append])
    obtain ⟨next, stored, forward, _⟩ := rep.linkedNode_older ele score height rank member present
    refine ⟨next, stored, fun level inside => ?_⟩
    rw [forward level]
    by_cases isStop : level < height ∧ tower.ref = (stop head front level).ref
    · have same : tower = stop head front level := rep.tower_eq member (rep.stop_mem level) isStop.2
      have reaches : level < (list.freshTower ele score height).height := isStop.1
      rw [if_pos isStop, firstAbove_behind_last Tower.height level rep.front_nodup inFront inside same,
        firstAbove_cons, if_pos reaches]
      rfl
    · rw [if_neg isStop, links level inside]
      refine congrArg (Option.map Tower.ref)
        (firstAbove_unseen Tower.height level rep.front_nodup inFront inside ?_ back).symm
      exact fun facts => isStop ⟨facts.1, congrArg Tower.ref facts.2⟩
  · cases rest with
    | nil =>
        -- The new node takes over the links of the stops.
        obtain ⟨rfl, rfl⟩ := List.cons.inj inBack
        obtain ⟨next, stored, forward, _⟩ := rep.linkedNode_fresh ele score height rank
        exact ⟨next, stored, forward⟩
    | cons first rest =>
        have inBack : back = rest ++ tower :: after := (List.cons.inj inBack).2
        have behind : tower ∈ back := by
          rw [inBack]
          simp
        obtain ⟨node, present, links⟩ := rep.linked (head :: (front ++ rest)) tower after (by
          rw [inBack]
          simp)
        obtain ⟨next, stored, forward, _⟩ := rep.linkedNode_older ele score height rank (by simp [behind]) present
        refine ⟨next, stored, fun level inside => ?_⟩
        rw [forward level, if_neg fun facts => rep.stop_apart behind level facts.2, links level inside]

omit [LinearOrder K] [LinearOrder V] in
theorem mem_fresh {fresh tower : Tower K V} :
    tower ∈ front ++ fresh :: back ↔ tower = fresh ∨ tower ∈ front ++ back := by
  simp only [List.mem_append, List.mem_cons]
  exact or_left_comm

/-- The map after the link phase also finds the new node. -/
theorem Represents.mapped_linkedNode (rep : list.Represents head (front ++ back))
    (absent : ele ∉ (front ++ back).map Tower.ele) (height : Nat) (query : K) (ref : Ref) :
    (list.nodeMap.emplace ele list.heap.next).lookup query = some ref ↔
      ∃ tower ∈ front ++ list.freshTower ele score height :: back, tower.ele = query ∧ tower.ref = ref := by
  rw [Dictionary.lookup_emplace (rep.lookup_none.mpr absent)]
  by_cases same : query = ele
  · rw [if_pos same, Option.some.injEq]
    constructor
    · intro equal
      exact ⟨list.freshTower ele score height, by simp, same.symm, equal⟩
    · rintro ⟨tower, member, equal, stored⟩
      rcases mem_fresh.mp member with rfl | member
      · exact stored
      · exact absurd (List.mem_map.mpr ⟨tower, member, equal.trans same⟩) absent
  · rw [if_neg same, rep.mapped]
    constructor
    · rintro ⟨tower, member, rest⟩
      exact ⟨tower, mem_fresh.mpr (Or.inr member), rest⟩
    · rintro ⟨tower, member, equal, stored⟩
      rcases mem_fresh.mp member with rfl | member
      · exact absurd equal.symm same
      · exact ⟨tower, member, equal, stored⟩

/-- The state after the link phase represents the towers with the new one at its place. -/
theorem Represents.linkedNode (rep : list.Represents head (front ++ back))
    (smaller : ∀ tower ∈ front, tower.Precedes ele score)
    (larger : ∀ tower ∈ back, ¬ tower.Precedes ele score)
    (absent : ele ∉ (front ++ back).map Tower.ele) {height : Nat} (positive : 0 < height)
    (bounded : height ≤ list.maxLevel) (rank : Nat → UnsignedInt) :
    (list.linkedNode head front back ele score height rank).Represents head
      (front ++ list.freshTower ele score height :: back) where
  headRef := rep.headRef
  headHeight := rep.headHeight
  linked := rep.linked_linkedNode ele score height rank
  apart tower member := by
    rcases mem_fresh.mp member with rfl | member
    · exact (rep.ref_lt (List.mem_cons_self ..)).symm
    · exact rep.apart tower member
  sorted := rep.sorted_fresh smaller larger absent height
  heights tower member := by
    rcases mem_fresh.mp member with rfl | member
    · exact ⟨positive, le_max_left ..⟩
    · exact ⟨(rep.heights tower member).1, (rep.heights tower member).2.trans (le_max_right ..)⟩
  levels := max_le bounded rep.levels
  positive := rep.positive
  distinct := by
    rw [List.map_append, List.map_cons, List.nodup_middle, List.nodup_cons, ← List.map_append]
    exact ⟨absent, rep.distinct⟩
  mapped := rep.mapped_linkedNode absent height
  counted := by
    show list.length + 1 = _
    have longer : (front ++ list.freshTower ele score height :: back).length = (front ++ back).length + 1 := by
      rw [List.length_append, List.length_append, List.length_cons, ← Nat.add_assoc]
    rw [rep.counted, longer, BitVec.ofNat_add]
    rfl

end Inserted

end MySkipList.SkipList
