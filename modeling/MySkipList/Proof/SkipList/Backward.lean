import MySkipList.Proof.SkipList.Delete
import MySkipList.Proof.SkipList.Insert
import MySkipList.Proof.SkipList.Release

namespace MySkipList.SkipList

open Foundation

section Backed
variable {K V : Type} {heap other : Heap (SkipListNode K V)} {prev : Option Ref} {refs : List Ref}

/-- The backward pointer of each node leads to the node before it, and the first one to the outer neighbour. -/
def Backed (heap : Heap (SkipListNode K V)) : Option Ref → List Ref → Prop
  | _, [] => True
  | prev, ref :: rest => (∃ node, heap.cells ref = some node ∧ node.backward = prev) ∧ Backed heap (some ref) rest

/-- Two backed parts that meet are backed as one. -/
theorem Backed.append (front back : List Ref) (prev : Option Ref) :
    Backed heap prev (front ++ back) ↔ Backed heap prev front ∧ Backed heap (front.getLast?.or prev) back := by
  induction front generalizing prev with
  | nil => simp [Backed]
  | cons ref rest ih =>
      rw [List.cons_append, Backed, Backed, ih (some ref), and_assoc, List.getLast?_cons]
      cases rest.getLast? <;> rfl

/-- A heap with the same backward pointers backs the same nodes. -/
theorem Backed.congr (backed : Backed heap prev refs)
    (same : ∀ ref ∈ refs, ∀ node, heap.cells ref = some node →
      ∃ after, other.cells ref = some after ∧ after.backward = node.backward) : Backed other prev refs := by
  induction refs generalizing prev with
  | nil => trivial
  | cons ref rest ih =>
      obtain ⟨⟨node, live, link⟩, later⟩ := backed
      obtain ⟨after, alive, kept⟩ := same ref (List.mem_cons_self ..) node live
      exact ⟨⟨after, alive, kept.trans link⟩, ih later fun ref member => same ref (List.mem_cons_of_mem _ member)⟩

/-- The backward pointers lead from the last node through all of them exactly when they are backed. -/
theorem backwardChain_reverse_iff {start : Option Ref} (refs : List Ref) :
    BackwardChain heap start refs.reverse ↔ start = refs.getLast? ∧ Backed heap none refs := by
  induction refs using List.reverseRecOn generalizing start with
  | nil => simp [BackwardChain, Backed]
  | append_singleton front last ih =>
      rw [List.reverse_append, List.reverse_singleton, List.singleton_append, BackwardChain, Backed.append,
        List.getLast?_concat, Option.or_none]
      constructor
      · rintro ⟨starts, node, live, chain⟩
        obtain ⟨link, backed⟩ := ih.mp chain
        exact ⟨starts, backed, ⟨node, live, link⟩, trivial⟩
      · rintro ⟨starts, backed, ⟨node, live, link⟩, _⟩
        exact ⟨starts, node, live, ih.mpr ⟨link, backed⟩⟩

end Backed

variable {K V : Type} [LinearOrder K] [LinearOrder V]

/-- The tail is the last node, and the backward pointers lead from every node to the one before it. -/
structure Backward (list : SkipList K V) (towers : List (Tower K V)) : Prop where
  tail : list.tail = (towers.map Tower.ref).getLast?
  backed : Backed list.heap none (towers.map Tower.ref)

omit [LinearOrder K] [LinearOrder V] in
theorem Backward.iff_backed {list : SkipList K V} {towers : List (Tower K V)}
    (last : list.tail = (towers.map Tower.ref).getLast?) :
    list.Backward towers ↔ Backed list.heap none (towers.map Tower.ref) :=
  ⟨fun backward => backward.backed, fun backed => ⟨last, backed⟩⟩

omit [LinearOrder K] [LinearOrder V] in
/-- The stop of a search on the lowest level is the last tower before the key, or else the header. -/
theorem stop_zero (head : Tower K V) {front : List (Tower K V)} (tall : ∀ tower ∈ front, 0 < tower.height) :
    (stop head front 0).ref = ((front.map Tower.ref).getLast?).getD head.ref := by
  rcases List.eq_nil_or_concat' front with rfl | ⟨before, last, rfl⟩
  · rfl
  · rw [stop, lastAbove_append]
    simp [lastAbove, tall last (by simp)]

omit [LinearOrder K] [LinearOrder V] in
/-- The last tower of a nonempty list is not replaced by the header. -/
theorem last_getD_iff (head : Tower K V) (front : List (Tower K V)) :
    some (((front.map Tower.ref).getLast?).getD head.ref) = (front.map Tower.ref).getLast? ↔ front ≠ [] := by
  rcases List.eq_nil_or_concat' front with rfl | ⟨before, last, rfl⟩ <;> simp

section Deleted
variable {list : SkipList K V} {head : Tower K V} {towers front back : List (Tower K V)} {target : Tower K V}

theorem Represents.next_zero (rep : list.Represents head (front ++ target :: back)) {node : SkipListNode K V}
    (links : ∀ level < target.height, node.forward level = (firstAbove Tower.height level back).map Tower.ref) :
    node.forward 0 = (back.map Tower.ref).head? := by
  rw [links 0 (rep.heights target (by simp)).1]
  cases back with
  | nil => rfl
  | cons first rest =>
      rw [firstAbove_cons, if_pos (rep.heights first (by simp)).1]
      rfl

/-- A deletion changes the backward pointer of the next node only. -/
theorem Represents.backward_unlinked (rep : list.Represents head (front ++ target :: back)) {node : SkipListNode K V}
    (links : ∀ level < target.height, node.forward level = (firstAbove Tower.height level back).map Tower.ref)
    (lruCache : LRUCache K V) {tower : Tower K V} (member : tower ∈ front ++ back) {old : SkipListNode K V}
    (live : list.heap.cells tower.ref = some old) :
    ∃ after, (list.unlinked head front target node lruCache).heap.cells tower.ref = some after ∧
      after.backward = if (back.map Tower.ref).head? = some tower.ref then
        some (((front.map Tower.ref).getLast?).getD head.ref) else old.backward := by
  have positive := (rep.heights target (by simp)).1
  have whole : tower ∈ head :: (front ++ target :: back) :=
    List.mem_cons_of_mem head (((List.sublist_cons_self target back).append_left front).subset member)
  obtain ⟨other, stored⟩ := rep.linked.stores whole
  obtain rfl := Option.some.inj (stored.live.symm.trans live)
  refine ⟨_, (rep.unlinked_other node lruCache (List.mem_cons_of_mem head member) stored).live, ?_⟩
  have stops := stop_zero head fun tower member => (rep.heights tower (List.mem_append_left _ member)).1
  simp only [unlinkCell, rep.next_zero links, positive, true_and, stops]

/-- A deletion keeps the backward pointers of the towers other than the next one. -/
theorem Represents.backed_unlinked (rep : list.Represents head (front ++ target :: back)) {node : SkipListNode K V}
    (links : ∀ level < target.height, node.forward level = (firstAbove Tower.height level back).map Tower.ref)
    (lruCache : LRUCache K V) {start : Option Ref} {part : List (Tower K V)}
    (inside : ∀ tower ∈ part, tower ∈ front ++ back)
    (other : ∀ ref ∈ part.map Tower.ref, (back.map Tower.ref).head? ≠ some ref)
    (backed : Backed list.heap start (part.map Tower.ref)) :
    Backed (list.unlinked head front target node lruCache).heap start (part.map Tower.ref) := by
  apply backed.congr
  intro ref member old live
  obtain ⟨tower, present, rfl⟩ := List.mem_map.mp member
  obtain ⟨after, alive, link⟩ := rep.backward_unlinked links lruCache (inside tower present) live
  exact ⟨after, alive, link.trans (if_neg (other tower.ref member))⟩

/-- A deletion keeps the backward pointers exactly when the deleted node is not the first one. -/
theorem Backward.unlinked_iff (backward : list.Backward (front ++ target :: back))
    (rep : list.Represents head (front ++ target :: back)) {node : SkipListNode K V}
    (links : ∀ level < target.height, node.forward level = (firstAbove Tower.height level back).map Tower.ref)
    (lruCache : LRUCache K V) :
    (list.unlinked head front target node lruCache).Backward (front ++ back) ↔ front ≠ [] := by
  have backed := backward.backed
  rw [List.map_append, List.map_cons, Backed.append, Option.or_none] at backed
  obtain ⟨before, _, behind⟩ := backed
  have distinct := (rep.refs_nodup).of_cons
  rw [List.map_append, List.map_cons] at distinct
  have apart := (List.nodup_middle.mp distinct).of_cons
  have kept : Backed (list.unlinked head front target node lruCache).heap none (front.map Tower.ref) := by
    refine rep.backed_unlinked links lruCache (fun tower member => List.mem_append_left back member) ?_ before
    intro ref inFront next
    exact (List.nodup_append'.mp apart).2.2 inFront (List.mem_of_mem_head? next)
  rw [← last_getD_iff head front]
  cases back with
  | nil =>
      have last : (list.unlinked head front target node lruCache).tail =
          some (((front.map Tower.ref).getLast?).getD head.ref) := by
        rw [← stop_zero head fun tower member => (rep.heights tower (List.mem_append_left _ member)).1]
        exact if_pos (rep.next_zero links)
      constructor
      · intro result
        rw [← last, result.tail, List.append_nil]
      · intro same
        exact ⟨by rw [last, List.append_nil, same], by rwa [List.append_nil]⟩
  | cons next rest =>
      obtain ⟨⟨old, live, _⟩, later⟩ := behind
      obtain ⟨after, alive, link⟩ := rep.backward_unlinked links lruCache (List.mem_append_right front (by simp)) live
      rw [List.map_cons, List.head?_cons, if_pos rfl] at link
      have unchanged : Backed (list.unlinked head front target node lruCache).heap (some next.ref)
          (rest.map Tower.ref) := by
        refine rep.backed_unlinked links lruCache
          (fun tower member => List.mem_append_right front (List.mem_cons_of_mem next member)) ?_ later
        intro ref inRest first
        have fresh := (List.nodup_cons.mp (List.nodup_append'.mp apart).2.1).1
        exact fresh (Option.some.inj first ▸ inRest)
      have last : (list.unlinked head front target node lruCache).tail =
          ((front ++ next :: rest).map Tower.ref).getLast? := by
        have linked : node.forward 0 ≠ none := by
          rw [rep.next_zero links]
          exact Option.some_ne_none _
        refine (if_neg linked).trans (backward.tail.trans ?_)
        simp [List.getLast?_append, List.getLast?_cons]
      rw [Backward.iff_backed last, List.map_append, Backed.append, Option.or_none]
      constructor
      · rintro ⟨_, ⟨other, otherLive, otherLink⟩, _⟩
        obtain rfl : after = other := Option.some.inj (alive.symm.trans otherLive)
        rw [← link, otherLink]
      · intro same
        exact ⟨kept, ⟨after, alive, link.trans same⟩, unchanged⟩

end Deleted

section Inserted
variable {list : SkipList K V} {head : Tower K V} {front back : List (Tower K V)}

/-- An insertion changes the backward pointer of the node that its link loop left in `next` only. -/
theorem Represents.backward_linked (rep : list.Represents head (front ++ back)) (ele : K) (score : V) (height : Nat)
    (rank : Nat → UnsignedInt) {tower : Tower K V} (member : tower ∈ front ++ back) {old : SkipListNode K V}
    (live : list.heap.cells tower.ref = some old) :
    ∃ after, (list.linkedNode head front back ele score height rank).heap.cells tower.ref = some after ∧
      after.backward = if (firstAbove Tower.height (height - 1) back).map Tower.ref = some tower.ref then
        some list.heap.next else old.backward := by
  obtain ⟨node, stored⟩ := rep.linked.stores (List.mem_cons_of_mem head member)
  obtain rfl := Option.some.inj (stored.live.symm.trans live)
  obtain ⟨after, present, _, _, link⟩ :=
    rep.linkedNode_older ele score height rank (List.mem_cons_of_mem head member) stored
  exact ⟨after, present.live, link⟩

/-- An insertion keeps the backward pointers of the towers other than the node left in `next`. -/
theorem Represents.backed_linked (rep : list.Represents head (front ++ back)) (ele : K) (score : V) (height : Nat)
    (rank : Nat → UnsignedInt) {start : Option Ref} {part : List (Tower K V)}
    (inside : ∀ tower ∈ part, tower ∈ front ++ back)
    (other : ∀ ref ∈ part.map Tower.ref, (firstAbove Tower.height (height - 1) back).map Tower.ref ≠ some ref)
    (backed : Backed list.heap start (part.map Tower.ref)) :
    Backed (list.linkedNode head front back ele score height rank).heap start (part.map Tower.ref) := by
  apply backed.congr
  intro ref member old live
  obtain ⟨tower, present, rfl⟩ := List.mem_map.mp member
  obtain ⟨after, alive, link⟩ := rep.backward_linked ele score height rank (inside tower present) live
  exact ⟨after, alive, link.trans (if_neg (other tower.ref member))⟩

/-- The new node points back to the last node before it, or to null. -/
theorem Represents.backward_fresh (rep : list.Represents head (front ++ back)) (ele : K) (score : V) (height : Nat)
    (rank : Nat → UnsignedInt) :
    ∃ after, (list.linkedNode head front back ele score height rank).heap.cells list.heap.next = some after ∧
      after.backward = (front.map Tower.ref).getLast? := by
  obtain ⟨after, present, _, _, link⟩ := rep.linkedNode_fresh ele score height rank
  refine ⟨after, present.live, link.trans ?_⟩
  rw [stop_zero head fun tower member => (rep.heights tower (List.mem_append_left _ member)).1]
  rcases List.eq_nil_or_concat' front with rfl | ⟨before, last, rfl⟩
  · simp [rep.headRef]
  · have apart := rep.apart last (by simp)
    rw [rep.headRef] at apart
    simp [apart]

/-- An insertion keeps the backward pointers exactly when the node behind the new one is at least as tall as it. -/
theorem Backward.linkedNode_iff (backward : list.Backward (front ++ back)) (rep : list.Represents head (front ++ back))
    (ele : K) (score : V) {height : Nat} (positive : 0 < height) (rank : Nat → UnsignedInt) :
    (list.linkedNode head front back ele score height rank).Backward
        (front ++ list.freshTower ele score height :: back) ↔ ∀ next, back.head? = some next → height ≤ next.height := by
  have backed := backward.backed
  rw [List.map_append, Backed.append, Option.or_none] at backed
  obtain ⟨before, behind⟩ := backed
  have distinct := rep.refs_nodup.of_cons
  rw [List.map_append] at distinct
  have kept : Backed (list.linkedNode head front back ele score height rank).heap none (front.map Tower.ref) := by
    refine rep.backed_linked ele score height rank (fun tower member => List.mem_append_left back member) ?_ before
    intro ref inFront next
    obtain ⟨other, found, same⟩ := Option.map_eq_some_iff.mp next
    exact (List.nodup_append'.mp distinct).2.2 inFront (same ▸ List.mem_map_of_mem (firstAbove_mem _ found))
  obtain ⟨node, fresh, points⟩ := rep.backward_fresh ele score height rank
  cases back with
  | nil =>
      refine ⟨fun _ _ found => absurd found (Option.some_ne_none _).symm, fun _ => ⟨?_, ?_⟩⟩
      · rw [List.map_append, List.map_singleton, List.getLast?_concat]
        simp [SkipList.linkedNode, freshTower]
      · rw [List.map_append, Backed.append, Option.or_none]
        exact ⟨kept, ⟨node, fresh, points⟩, trivial⟩
  | cons next rest =>
      obtain ⟨⟨old, live, link⟩, later⟩ := behind
      obtain ⟨after, alive, changed⟩ := rep.backward_linked ele score height rank
        (List.mem_append_right front (by simp)) live
      have apart := (List.nodup_cons.mp (List.nodup_append'.mp distinct).2.1).1
      by_cases tall : height ≤ next.height
      · have first : firstAbove Tower.height (height - 1) (next :: rest) = some next := by
          rw [firstAbove_cons, if_pos (by omega)]
        rw [first, Option.map_some, if_pos rfl] at changed
        have unchanged : Backed (list.linkedNode head front (next :: rest) ele score height rank).heap (some next.ref)
            (rest.map Tower.ref) := by
          refine rep.backed_linked ele score height rank
            (fun tower member => List.mem_append_right front (List.mem_cons_of_mem next member)) ?_ later
          intro ref inRest same
          rw [first, Option.map_some] at same
          exact apart (Option.some.inj same ▸ inRest)
        refine ⟨fun _ other found => Option.some.inj found ▸ tall, fun _ => ⟨?_, ?_⟩⟩
        · have linked : firstAbove Tower.height (height - 1) (next :: rest) ≠ none := by
            rw [first]
            exact Option.some_ne_none _
          refine (if_neg linked).trans (backward.tail.trans ?_)
          simp [List.getLast?_append, List.getLast?_cons]
        · rw [List.map_append, Backed.append, Option.or_none]
          exact ⟨kept, ⟨node, fresh, points⟩, ⟨after, alive, changed⟩, unchanged⟩
      · refine ⟨fun result => absurd result ?_, fun facts => absurd (facts next rfl) tall⟩
        -- A shorter next node keeps its backward pointer, which cannot lead to the new node.
        have skipped : (firstAbove Tower.height (height - 1) (next :: rest)).map Tower.ref ≠ some next.ref := by
          rw [firstAbove_cons, if_neg (by omega)]
          intro found
          obtain ⟨other, above, same⟩ := Option.map_eq_some_iff.mp found
          exact apart (same ▸ List.mem_map_of_mem (firstAbove_mem _ above))
        rw [if_neg skipped, link] at changed
        rintro ⟨_, result⟩
        rw [List.map_append, Backed.append, Option.or_none] at result
        obtain ⟨_, _, ⟨other, otherLive, otherLink⟩, _⟩ := result
        obtain rfl : after = other := Option.some.inj (alive.symm.trans otherLive)
        obtain ⟨tower, member, same⟩ := List.mem_map.mp (List.mem_of_getLast? (changed.symm.trans otherLink))
        exact rep.ref_lt (List.mem_cons_of_mem head (List.mem_append_left _ member)) same

end Inserted

end MySkipList.SkipList
