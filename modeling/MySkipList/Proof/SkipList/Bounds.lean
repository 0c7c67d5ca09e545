import MySkipList.Foundation.Text
import MySkipList.Proof.SkipList.Operations

namespace MySkipList.SkipList

open Foundation

variable {K V : Type} [LinearOrder K] [LinearOrder V]

/-- The lists that a call starts from or deletes a queued key from: those after a history of operations, after the
deletion of any element, and between the link phase of an insertion and the deletions of its queued keys. -/
inductive Encountered [Inhabited K] (toInt : V → Int) : SkipList K V → Prop where
  | reached {maxLevel : Nat} {maxCapacity : Int} {uninitialized : V} {operations : List (Operation K V)}
      {outputs : List Int} {list : SkipList K V} (positive : 1 ≤ maxLevel)
      (returned : history toInt maxLevel maxCapacity uninitialized operations = .ok (outputs, list)) :
      Encountered toInt list
  | deleted {list next : SkipList K V} {ele : K} {result : Int} (before : Encountered toInt list)
      (returned : list.deleteElementInLock ele = .ok (result, next)) : Encountered toInt next
  | linked {list middle : SkipList K V} {ele : K} {score : V} {draws : List Nat} {lruCache : LRUCache K V}
      (before : Encountered toInt list) (absent : list.nodeMap.lookup ele = none)
      (linked : list.linkNode ele score draws = .ok middle) (put : middle.lruCache.put ele score = .ok lruCache) :
      Encountered toInt { middle with lruCache := lruCache }

/-- The delete search of an element ends at the node of the map, on the highest level of the node. Every level up to
this one has its predecessor, and the level is not the one that stands for a missing element. -/
structure FindsTarget (list : SkipList K V) (ele : K) (it : Ref) (node : SkipListNode K V) (path : DeletePath) :
    Prop where
  stored : list.heap.read it = .ok node
  searched : searchDelete list.heap ele node.score list.maxLevel list.turns list.level
    ⟨list.header, .filled list.maxLevel none, none, list.maxLevel⟩ = .ok path
  target : path.node = some it
  highest : path.level + 1 = node.level
  update : ∀ level ≤ path.level, ∃ pred, path.update.read level = .ok (some pred)
  found : path.level ≠ list.maxLevel

section Safety
variable {list : SkipList K V} {head : Tower K V} {towers : List (Tower K V)} {view : View K V}

/-- The search finds every element that the map holds. -/
theorem Represents.findsTarget (rep : list.Represents head towers) {ele : K} {it : Ref}
    (mapped : list.nodeMap.lookup ele = some it) : ∃ node path, list.FindsTarget ele it node path := by
  obtain ⟨target, member, rfl, rfl⟩ := (rep.mapped ele it).mp mapped
  obtain ⟨front, back, rfl⟩ := List.append_of_mem member
  obtain ⟨positive, bounded⟩ := rep.heights target member
  obtain ⟨node, stored, _⟩ := rep.target_node
  obtain ⟨path, searched, size, stops, levelEq, nodeEq⟩ := rep.searchDelete
  have levels := rep.levels
  refine ⟨node, path, Heap.read_of_live stored.live, stored.score ▸ searched, nodeEq, ?_, ?_, ?_⟩
  · rw [levelEq, stored.level]
    omega
  · intro level inside
    have low : level < list.level := by omega
    exact ⟨_, by rw [Buffer.read_inside (by omega), stops level low]⟩
  · omega

/-- Every list that is met shows a tracked view. -/
theorem Encountered.shows [Inhabited K] {toInt : V → Int} (met : Encountered toInt list) :
    ∃ head towers view, list.Shows head towers view ∧ view.Tracked := by
  induction met with
  | reached positive returned =>
      rename_i maxLevel maxCapacity uninitialized operations outputs list
      obtain ⟨_, final, head, towers, reached, _, shown, coherent⟩ :=
        history_shows (K := K) toInt maxLevel positive maxCapacity uninitialized operations
      obtain rfl := (Prod.mk.inj (Except.ok.inj (reached.symm.trans returned))).2
      exact ⟨head, towers, _, shown, coherent.toTracked⟩
  | deleted _ returned ih =>
      rename_i list next ele result _
      obtain ⟨head, towers, view, shown, tracked⟩ := ih
      obtain ⟨final, rest, reached, last, _⟩ := shown.deleteBody tracked ele
      obtain rfl := (Prod.mk.inj (Except.ok.inj (reached.symm.trans returned))).2
      exact ⟨head, rest, _, last, tracked.unlink ele⟩
  | linked _ absent linked put ih =>
      rename_i list middle ele score draws lruCache _
      obtain ⟨head, towers, view, shown, tracked⟩ := ih
      obtain ⟨final, stored, between, reached, cached, received, _⟩ :=
        shown.receive tracked score draws (shown.represents.lookup_none.mp absent)
      obtain rfl := Except.ok.inj (reached.symm.trans linked)
      obtain rfl := Except.ok.inj (cached.symm.trans put)
      exact ⟨head, between, _, received, tracked.receive _⟩

/-- Every insertion and deletion on a list that is met returns, so all its array accesses hit live nodes below their
levels, all its used predecessors are set, and all its search loops end. The delete search finds every element of the
map, and every level up to the maximum can be drawn. -/
theorem walks_in_bounds [Inhabited K] {toInt : V → Int} (met : Encountered toInt list) :
    (∀ ele score draws, ∃ result next, list.insertElement ele score draws = .ok (result, next)) ∧
      (∀ level, 1 ≤ level → level ≤ list.maxLevel → ∃ draws, getRandomLevel list.maxLevel draws = level) ∧
      (∀ ele, ∃ result next, list.deleteElement ele = .ok (result, next) ∧
        list.deleteElementInLock ele = .ok (result, next)) ∧
      ∀ ele it, list.nodeMap.lookup ele = some it → ∃ node path, list.FindsTarget ele it node path := by
  obtain ⟨head, towers, view, shown, tracked⟩ := met.shows
  refine ⟨?_, ?_, ?_, fun ele it => shown.represents.findsTarget⟩
  · intro ele score draws
    obtain ⟨next, _, returned, _⟩ := shown.insertElement tracked ele score draws
    exact ⟨_, next, returned⟩
  · intro level positive bounded
    exact ⟨_, getRandomLevel_replicate list.maxLevel level positive bounded⟩
  · intro ele
    obtain ⟨next, _, returned, _⟩ := shown.deleteBody tracked ele
    exact ⟨_, next, returned, returned⟩

/-- The second insertion evicts the element of the first one. -/
theorem walks_in_bounds_evicting :
    ∃ outputs list, history Subtype.val 6 1 ⟨0, by decide⟩ [.insertElement (bytes "a") (⟨1, by decide⟩ : CInt) [0],
        .insertElement (bytes "b") ⟨2, by decide⟩ [0, 0]] = .ok (outputs, list) ∧
      (∀ ele score draws, ∃ result next, list.insertElement ele score draws = .ok (result, next)) ∧
      (∀ level, 1 ≤ level → level ≤ list.maxLevel → ∃ draws, getRandomLevel list.maxLevel draws = level) ∧
      (∀ ele, ∃ result next, list.deleteElement ele = .ok (result, next) ∧
        list.deleteElementInLock ele = .ok (result, next)) ∧
      ∃ it node path, list.FindsTarget (bytes "b") it node path := by
  have returned : history Subtype.val 6 1 ⟨0, by decide⟩ [.insertElement (bytes "a") (⟨1, by decide⟩ : CInt) [0],
      .insertElement (bytes "b") ⟨2, by decide⟩ [0, 0]] = .ok (_, _) := rfl
  obtain ⟨inserts, levels, deletes, finds⟩ := walks_in_bounds (.reached (by decide) returned)
  exact ⟨_, _, returned, inserts, levels, deletes, _, finds _ _ rfl⟩

end Safety

end MySkipList.SkipList
