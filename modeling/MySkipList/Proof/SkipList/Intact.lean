import MySkipList.Foundation.Text
import MySkipList.Proof.SkipList.Backward

namespace MySkipList.SkipList

open Foundation

variable {K V : Type} [LinearOrder K] [LinearOrder V]

section Effects
variable {list : SkipList K V} {head : Tower K V} {towers : List (Tower K V)} {recency : List (K × V)}

/-- The insertion of a new element without an eviction links it at its place. -/
theorem Backward.insertElement (backward : list.Backward towers) (rep : list.Represents head towers)
    (cached : list.lruCache.Represents recency) (room : ¬ Full list.lruCache.capacity recency)
    (idle : list.lruCache.deleteKeys = []) {ele : K} (score : V) (draws : List Nat)
    (absent : ele ∉ towers.map Tower.ele) :
    ∃ final front back, towers = front ++ back ∧ (∀ tower ∈ front, tower.Precedes ele score) ∧
      (∀ tower ∈ back, ¬ tower.Precedes ele score) ∧ list.insertElement ele score draws = .ok (1, final) ∧
      final.Represents head (front ++ list.freshTower ele score (getRandomLevel list.maxLevel draws) :: back) ∧
      (∃ recency, final.lruCache.Represents recency) ∧ final.lruCache.capacity = list.lruCache.capacity ∧
      final.lruCache.deleteKeys = [] ∧
      (final.Backward (front ++ list.freshTower ele score (getRandomLevel list.maxLevel draws) :: back) ↔
        ∀ next, back.head? = some next → getRandomLevel list.maxLevel draws ≤ next.height) := by
  obtain ⟨front, back, rfl, smaller, larger⟩ := rep.partition ele score
  obtain ⟨positive, bounded⟩ := getRandomLevel_bounds list.maxLevel draws rep.positive
  obtain ⟨rank, _, linked⟩ := rep.linkNode smaller larger draws
  have still := rep.linkedNode smaller larger absent positive bounded rank
  obtain ⟨lruCache, after, stored, order, capacity, queued⟩ := cached.put_returns ele score room
  have inserted : list.insertElement ele score draws = .ok (1, { list.linkedNode head front back ele score
      (getRandomLevel list.maxLevel draws) rank with lruCache := { lruCache with deleteKeys := [] } }) := by
    have same : (list.linkedNode head front back ele score (getRandomLevel list.maxLevel draws) rank).lruCache =
        list.lruCache := rfl
    rw [SkipList.insertElement, rep.lookup_none.mpr absent]
    simp only [SkipList.insertFresh, linked, Exec.ok_bind, same, stored, queued, idle, SkipList.deleteQueued, Exec.pure_eq]
  refine ⟨_, front, back, rfl, smaller, larger, inserted, still.withCache _,
    ⟨after, order.order, order.keyed, order.handles⟩, capacity, rfl, ?_⟩
  rw [← backward.linkedNode_iff rep ele score positive rank]
  exact ⟨fun result => ⟨result.tail, result.backed⟩, fun result => ⟨result.tail, result.backed⟩⟩

/-- A list without a limit, without waiting keys and with intact backward pointers. -/
structure Intact (list : SkipList K V) (head : Tower K V) (towers : List (Tower K V)) (recency : List (K × V)) :
    Prop where
  represents : list.Represents head towers
  cached : list.lruCache.Represents recency
  backward : list.Backward towers
  unlimited : list.lruCache.capacity = 0
  idle : list.lruCache.deleteKeys = []

theorem Intact.room (intact : list.Intact head towers recency) : ¬ Full list.lruCache.capacity recency := by
  rw [intact.unlimited]
  exact fun full => absurd full.1 (lt_irrefl 0)

/-- The insertion of a new element on the lowest level keeps the list intact. -/
theorem Intact.insertElement (intact : list.Intact head towers recency) {ele : K} (score : V)
    (absent : ele ∉ towers.map Tower.ele) :
    ∃ final rest recency, list.insertElement ele score [] = .ok (1, final) ∧ final.Intact head rest recency ∧
      ∀ other, other ∈ rest.map Tower.ele ↔ other = ele ∨ other ∈ towers.map Tower.ele := by
  obtain ⟨final, front, back, rfl, _, _, inserted, rep, ⟨order, cached⟩, capacity, idle, iff⟩ :=
    intact.backward.insertElement intact.represents intact.cached intact.room intact.idle score [] absent
  have low : getRandomLevel list.maxLevel [] ≤ 1 := by
    unfold getRandomLevel
    dsimp only [List.takeWhile_nil, List.length_nil]
    split <;> omega
  have backward := iff.mpr (by
    intro next first
    have member : next ∈ back := List.mem_of_mem_head? first
    exact low.trans (intact.represents.heights next (List.mem_append_right front member)).1)
  refine ⟨final, _, order, inserted, ⟨rep, cached, backward, capacity.trans intact.unlimited, idle⟩, ?_⟩
  intro other
  simp only [List.map_append, List.map_cons, List.mem_append, List.mem_cons, freshTower]
  exact or_left_comm

/-- Insertions that all draw the lowest level. -/
def lowInsertions (pairs : List (K × V)) : List (Operation K V) :=
  pairs.map fun pair => .insertElement pair.1 pair.2 []

/-- Insertions that all draw the lowest level keep the list intact. -/
theorem Intact.insertAll (intact : list.Intact head towers recency) (toInt : V → Int) {pairs : List (K × V)}
    (keyed : Keyed pairs) (absent : ∀ pair ∈ pairs, pair.1 ∉ towers.map Tower.ele) :
    ∃ outputs final rest recency, run (operate toInt) list (lowInsertions pairs) =
        .ok (outputs, final) ∧ final.Intact head rest recency ∧
      ∀ ele, ele ∈ rest.map Tower.ele ↔ ele ∈ pairs.map Prod.fst ∨ ele ∈ towers.map Tower.ele := by
  induction pairs generalizing list towers recency with
  | nil => exact ⟨[], list, towers, recency, rfl, intact, by simp⟩
  | cons pair pairs ih =>
      obtain ⟨fresh, keyed⟩ := List.nodup_cons.mp keyed
      obtain ⟨middle, between, order, inserted, still, elements⟩ :=
        intact.insertElement pair.2 (absent pair (List.mem_cons_self ..))
      obtain ⟨outputs, final, rest, recency, returned, result, later⟩ := ih still keyed (by
        intro other member inside
        rcases (elements other.1).mp inside with same | old
        · exact fresh (same ▸ List.mem_map_of_mem member)
        · exact absent other (List.mem_cons_of_mem pair member) old)
      refine ⟨1 :: outputs, final, rest, recency, ?_, result, ?_⟩
      · exact (run_cons_eq_ok ..).mpr ⟨1, middle, outputs, inserted, returned, rfl⟩
      · intro ele
        rw [later, elements, List.map_cons, List.mem_cons, or_left_comm, or_assoc]

/-- A new list without a limit is intact. -/
theorem new_intact [Inhabited K] (maxLevel : Nat) (positive : 0 < maxLevel) (uninitialized : V) :
    ∃ list : SkipList K V, new maxLevel 0 uninitialized = .ok list ∧ ∃ head, list.Intact head [] [] := by
  obtain ⟨list, constructed, _, shown⟩ := new_shows (K := K) positive 0 uninitialized
  have empty : list.tail = none := by
    obtain ⟨_, _, made⟩ := (Exec.bind_eq_ok _ _ _).mp constructed
    rw [← Except.ok.inj made]
  exact ⟨list, constructed, _, shown.represents, shown.cached, ⟨empty, trivial⟩, shown.capacity, shown.queued⟩

theorem history_intact [Inhabited K] (toInt : V → Int) (maxLevel : Nat) (positive : 0 < maxLevel) (uninitialized : V)
    (pairs : List (K × V)) (keyed : Keyed pairs) :
    ∃ outputs list head towers recency, history toInt maxLevel 0 uninitialized (lowInsertions pairs) =
        .ok (outputs, list) ∧ list.Intact head towers recency ∧
      ∀ ele, ele ∈ towers.map Tower.ele ↔ ele ∈ pairs.map Prod.fst := by
  obtain ⟨list, constructed, head, intact⟩ := new_intact (K := K) maxLevel positive uninitialized
  obtain ⟨outputs, final, rest, recency, returned, result, elements⟩ := intact.insertAll toInt keyed (by simp)
  exact ⟨outputs, final, head, rest, recency, by rw [history, constructed, Exec.ok_bind, returned], result,
    by simpa using elements⟩

/-- The destructor returns and has released every node of these towers. -/
def Releases (list : SkipList K V) (towers : List (Tower K V)) : Prop :=
  ∃ heap, list.destroy = .ok heap ∧ ∀ tower ∈ towers, heap.cells tower.ref = none

/-- The destructor of a list with intact backward pointers releases each node once and the header after them. -/
theorem Backward.releases (backward : list.Backward towers) (rep : list.Represents head towers) :
    list.Releases towers := by
  have chain : BackwardChain list.heap list.tail (towers.map Tower.ref).reverse :=
    (backwardChain_reverse_iff _).mpr ⟨backward.tail, backward.backed⟩
  obtain ⟨outside, distinct⟩ := List.nodup_cons.mp rep.refs_nodup
  rw [← List.nodup_reverse] at distinct
  rw [← List.mem_reverse, rep.headRef] at outside
  obtain ⟨node, stored⟩ := rep.linked.stores (List.mem_cons_self ..)
  have live := stored.live
  rw [rep.headRef] at live
  have bound := list.heap.live_length_le _ distinct fun ref member => chain.live member
  obtain ⟨middle, released, kept, dead⟩ := chain.releaseNodes distinct (Nat.lt_succ_of_le bound)
  refine ⟨middle.discard list.header, ?_, ?_⟩
  · rw [destroy, SkipList.turns, released, Exec.ok_bind, Heap.free_of_live ((kept list.header outside).trans live)]
  · intro tower member
    have reached : tower.ref ∈ (towers.map Tower.ref).reverse := List.mem_reverse.mpr (List.mem_map_of_mem member)
    have apart : tower.ref ≠ list.header := fun same => outside (same ▸ reached)
    rw [Heap.discard_of_ne _ apart, dead tower.ref reached]

end Effects

/-- The deletion of a member keeps the backward pointers, and with them the destructor, exactly when the member
is not the first one. -/
theorem deleteElement_backward_iff (list : SkipList K V) (head : Tower K V) (towers : List (Tower K V))
    (recency : List (K × V)) (rep : list.Represents head towers) (cached : list.lruCache.Represents recency)
    (backward : list.Backward towers) (ele : K) (member : ele ∈ towers.map Tower.ele) :
    ∃ final rest, list.deleteElement ele = .ok (1, final) ∧ list.deleteElementInLock ele = .ok (1, final) ∧
      final.Represents head rest ∧ rest.Sublist towers ∧
      (∀ tower, tower ∈ rest ↔ tower ∈ towers ∧ tower.ele ≠ ele) ∧
      (final.Backward rest ∧ final.Releases rest ↔ (towers.map Tower.ele).head? ≠ some ele) := by
  obtain ⟨target, present, rfl⟩ := List.mem_map.mp member
  obtain ⟨front, back, rfl⟩ := List.append_of_mem present
  obtain ⟨node, stored, links⟩ := rep.target_node
  obtain ⟨lruCache, removed, _⟩ := cached.remove target.ele
  have deleted := rep.deleteBody_present removed stored links
  have still := rep.unlinked links lruCache
  have first : ((front ++ target :: back).map Tower.ele).head? ≠ some target.ele ↔ front ≠ [] := by
    cases front with
    | nil => simp
    | cons tower rest => simpa using rep.unique_of_split tower (by simp)
  refine ⟨_, front ++ back, deleted, deleted, still, ?_, ?_, ?_⟩
  · exact (List.Sublist.refl front).append (List.sublist_cons_self target back)
  · intro tower
    constructor
    · intro inside
      refine ⟨?_, rep.unique_of_split tower inside⟩
      simp only [List.mem_append, List.mem_cons] at inside ⊢
      exact inside.imp_right Or.inr
    · rintro ⟨inside, other⟩
      simp only [List.mem_append, List.mem_cons] at inside ⊢
      exact inside.imp_right fun later => later.resolve_left fun same => other (congrArg Tower.ele same)
  · rw [first, ← backward.unlinked_iff rep links lruCache]
    exact ⟨And.left, fun result => ⟨result, result.releases still⟩⟩

theorem deleteElement_backward_iff_second :
    ∃ outputs list head towers recency, history Subtype.val 6 0 ⟨0, by decide⟩
        (lowInsertions [(bytes "a", (⟨1, by decide⟩ : CInt)), (bytes "b", ⟨2, by decide⟩)]) = .ok (outputs, list) ∧
      list.Intact head towers recency ∧ ∃ final rest, list.deleteElement (bytes "b") = .ok (1, final) ∧
        list.deleteElementInLock (bytes "b") = .ok (1, final) ∧ final.Represents head rest ∧ rest.Sublist towers ∧
        (∀ tower, tower ∈ rest ↔ tower ∈ towers ∧ tower.ele ≠ bytes "b") ∧
        (final.Backward rest ∧ final.Releases rest ↔ (towers.map Tower.ele).head? ≠ some (bytes "b")) := by
  obtain ⟨outputs, list, head, towers, recency, returned, intact, elements⟩ := history_intact (K := Str) (V := CInt)
    Subtype.val 6 (by decide) ⟨0, by decide⟩ [(bytes "a", ⟨1, by decide⟩), (bytes "b", ⟨2, by decide⟩)] (by unfold Keyed; decide)
  exact ⟨outputs, list, head, towers, recency, returned, intact,
    deleteElement_backward_iff list head towers recency intact.represents intact.cached intact.backward (bytes "b")
      ((elements _).mpr (by decide))⟩

/-- A tail that is the header is not the last node. -/
theorem not_backward_of_tail {list : SkipList K V} {head : Tower K V} {rest : List (Tower K V)}
    (tail : list.tail = some list.header) (rep : list.Represents head rest) : ¬ list.Backward rest := by
  intro backward
  have last : (rest.map Tower.ref).getLast? = some head.ref := by rw [← backward.tail, tail, rep.headRef]
  exact (List.nodup_cons.mp rep.refs_nodup).1 (List.mem_of_getLast? last)

/-- The deletion of the only member leaves the header as the tail, and the destructor releases the header twice. -/
theorem deleteElement_of_first_breaks :
    ∃ outputs list head towers recency final, history Subtype.val 6 0 ⟨0, by decide⟩
        (lowInsertions [(bytes "a", (⟨1, by decide⟩ : CInt))]) = .ok (outputs, list) ∧
      list.Intact head towers recency ∧ bytes "a" ∈ towers.map Tower.ele ∧
      list.deleteElement (bytes "a") = .ok (1, final) ∧ (∀ rest, final.Represents head rest → ¬ final.Backward rest) ∧
      final.destroy.toBool = false := by
  obtain ⟨outputs, list, head, towers, recency, returned, intact, elements⟩ := history_intact (K := Str) (V := CInt)
    Subtype.val 6 (by decide) ⟨0, by decide⟩ [(bytes "a", ⟨1, by decide⟩)] (by unfold Keyed; decide)
  have traced : (do
      let built ← history (K := Str) (V := CInt) Subtype.val 6 0 ⟨0, by decide⟩
        (lowInsertions [(bytes "a", ⟨1, by decide⟩)])
      let deletion ← built.2.deleteElement (bytes "a")
      pure (deletion.1, deletion.2.tail, deletion.2.header, deletion.2.destroy.toBool)) = .ok (1, some 0, 0, false) := rfl
  rw [returned, Exec.ok_bind] at traced
  obtain ⟨⟨result, final⟩, deleted, traced⟩ := (Exec.bind_eq_ok _ _ _).mp traced
  obtain ⟨rfl, tail, header, failed⟩ : result = 1 ∧ final.tail = some 0 ∧ final.header = 0 ∧
      final.destroy.toBool = false := by
    simpa using traced
  exact ⟨outputs, list, head, towers, recency, final, returned, intact, (elements _).mpr (by decide), deleted,
    fun rest rep => not_backward_of_tail (by rw [tail, header]) rep, failed⟩

/-- The insertion of a new element without an eviction leaves backward pointers that lead from the tail through
all nodes exactly when the node behind the new one is at least as tall as it. -/
theorem insertElement_backward_iff (list : SkipList K V) (head : Tower K V) (towers : List (Tower K V))
    (recency : List (K × V)) (rep : list.Represents head towers) (cached : list.lruCache.Represents recency)
    (backward : list.Backward towers) (room : ¬ Full list.lruCache.capacity recency)
    (idle : list.lruCache.deleteKeys = []) (ele : K) (score : V) (draws : List Nat)
    (absent : ele ∉ towers.map Tower.ele) :
    ∃ final rest, list.insertElement ele score draws = .ok (1, final) ∧ final.Represents head rest ∧
      towers.Sublist rest ∧ rest.length = towers.length + 1 ∧
      (final.tail = (rest.map Tower.ref).getLast? ∧
          BackwardChain final.heap final.tail (rest.map Tower.ref).reverse ↔
        ∀ front next back, towers = front ++ next :: back → (∀ tower ∈ front, tower.Precedes ele score) →
          ¬ next.Precedes ele score → getRandomLevel list.maxLevel draws ≤ next.height) := by
  obtain ⟨final, front, back, rfl, smaller, larger, inserted, still, _, _, _, iff⟩ :=
    backward.insertElement rep cached room idle score draws absent
  refine ⟨final, _, inserted, still, ?_, by simp [Nat.add_assoc], ?_⟩
  · exact (List.Sublist.refl front).append (List.sublist_cons_self _ back)
  · rw [backwardChain_reverse_iff]
    constructor
    · rintro ⟨tail, _, backed⟩
      have reaches := iff.mp ⟨tail, backed⟩
      intro before next after split passed stopped
      rcases split_append split with ⟨rest, inFront, _⟩ | ⟨rest, inBack, beforeEq⟩
      · exact absurd (smaller next (by rw [inFront]; simp)) stopped
      · cases rest with
        | nil => exact reaches next (by rw [inBack]; rfl)
        | cons first rest =>
            exact absurd (passed first (by rw [beforeEq]; simp)) (larger first (by rw [inBack]; simp))
    · intro reaches
      have result := iff.mpr (by
        intro next first
        obtain ⟨after, rfl⟩ := List.head?_eq_some_iff.mp first
        exact reaches front next after rfl smaller (larger next (by simp)))
      exact ⟨result.tail, result.tail, result.backed⟩

/-- The new node stands in front of a node of the same height, in front of a shorter one, or at the end. -/
theorem insertElement_backward_iff_places :
    ∃ outputs list head towers recency, history Subtype.val 6 0 ⟨0, by decide⟩
        (lowInsertions [(bytes "a", (⟨1, by decide⟩ : CInt)), (bytes "c", ⟨3, by decide⟩)]) = .ok (outputs, list) ∧
      list.Intact head towers recency ∧
      ∀ ele score draws, (ele, score, draws) ∈ [(bytes "b", (⟨2, by decide⟩ : CInt), []),
          (bytes "b", ⟨2, by decide⟩, [0]), (bytes "d", ⟨4, by decide⟩, [0])] →
        ∃ final rest, list.insertElement ele score draws = .ok (1, final) ∧ final.Represents head rest ∧
          towers.Sublist rest ∧ rest.length = towers.length + 1 ∧
          (final.tail = (rest.map Tower.ref).getLast? ∧
              BackwardChain final.heap final.tail (rest.map Tower.ref).reverse ↔
            ∀ front next back, towers = front ++ next :: back → (∀ tower ∈ front, tower.Precedes ele score) →
              ¬ next.Precedes ele score → getRandomLevel list.maxLevel draws ≤ next.height) := by
  obtain ⟨outputs, list, head, towers, recency, returned, intact, elements⟩ := history_intact (K := Str) (V := CInt)
    Subtype.val 6 (by decide) ⟨0, by decide⟩ [(bytes "a", ⟨1, by decide⟩), (bytes "c", ⟨3, by decide⟩)]
    (by unfold Keyed; decide)
  refine ⟨outputs, list, head, towers, recency, returned, intact, fun ele score draws chosen => ?_⟩
  have absent : ele ∉ towers.map Tower.ele := by
    rw [elements]
    simp only [List.mem_cons, Prod.mk.injEq, List.not_mem_nil, or_false] at chosen
    rcases chosen with ⟨rfl, _⟩ | ⟨rfl, _⟩ | ⟨rfl, _⟩ <;> decide
  exact insertElement_backward_iff list head towers recency intact.represents intact.cached intact.backward intact.room
    intact.idle ele score draws absent

/-- A new node in front of a shorter one becomes the tail, and the walk from the tail misses the shorter node. -/
theorem insertElement_of_taller_breaks :
    ∃ outputs list head towers recency final, history Subtype.val 6 0 ⟨0, by decide⟩
        (lowInsertions [(bytes "b", (⟨2, by decide⟩ : CInt))]) = .ok (outputs, list) ∧
      list.Intact head towers recency ∧ bytes "a" ∉ towers.map Tower.ele ∧
      list.insertElement (bytes "a") ⟨1, by decide⟩ [0] = .ok (1, final) ∧
      ∀ rest, final.Represents head rest → ¬ BackwardChain final.heap final.tail (rest.map Tower.ref).reverse := by
  obtain ⟨outputs, list, head, towers, recency, returned, intact, elements⟩ := history_intact (K := Str) (V := CInt)
    Subtype.val 6 (by decide) ⟨0, by decide⟩ [(bytes "b", ⟨2, by decide⟩)] (by unfold Keyed; decide)
  have traced : (do
      let built ← history (K := Str) (V := CInt) Subtype.val 6 0 ⟨0, by decide⟩
        (lowInsertions [(bytes "b", ⟨2, by decide⟩)])
      let insertion ← built.2.insertElement (bytes "a") ⟨1, by decide⟩ [0]
      pure (insertion.1, insertion.2.tail, (insertion.2.heap.cells 2).map SkipListNode.backward, insertion.2.length)) =
        .ok (1, some 2, some none, 2) := rfl
  rw [returned, Exec.ok_bind] at traced
  obtain ⟨⟨result, final⟩, inserted, traced⟩ := (Exec.bind_eq_ok _ _ _).mp traced
  obtain ⟨rfl, tail, backward, length⟩ : result = 1 ∧ final.tail = some 2 ∧
      (final.heap.cells 2).map SkipListNode.backward = some none ∧ final.length = 2 := by
    simpa using traced
  refine ⟨outputs, list, head, towers, recency, final, returned, intact,
    fun member => absurd ((elements _).mp member) (by decide), inserted, ?_⟩
  intro rest rep chain
  obtain ⟨node, live, ends⟩ := Option.map_eq_some_iff.mp backward
  have single : BackwardChain final.heap final.tail [2] := ⟨tail, node, live, ends⟩
  have one : rest.length = 1 := by simpa using congrArg List.length (chain.unique single)
  have two := rep.counted
  rw [length, one] at two
  exact absurd two (by decide)

end MySkipList.SkipList
