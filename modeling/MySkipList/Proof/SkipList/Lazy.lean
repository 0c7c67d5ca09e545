import MySkipList.Proof.SkipList.Refinement
import MySkipList.Specification.LazySet

namespace MySkipList

open Foundation

namespace View
variable {K V : Type} [LinearOrder K] [LinearOrder V] {view : View K V} {set : LazySet K V}

/-- The view is one of the set: the places, the doomed elements and the members are the same. -/
structure Abstracts (view : View K V) (set : LazySet K V) : Prop where
  recency : view.recency = set.recent
  queued : view.queued = set.doomed
  capacity : view.capacity = set.capacity
  members : ∀ pair, pair ∈ view.entries.map Entry.pair ↔ pair ∈ set.members
  keyed : Keyed set.members

theorem recency_unlinkAll (view : View K V) (keys : List K) :
    (keys.foldl View.unlink view).recency = view.recency.filter fun pair => pair.1 ∉ keys := by
  induction keys generalizing view with
  | nil => simp
  | cons key rest ih =>
      rw [List.foldl_cons, ih, View.unlink, forget, List.filter_filter]
      refine List.filter_congr fun pair _ => ?_
      simp [Bool.and_comm]

omit [LinearOrder V] in
/-- The set finds the score of the entry. -/
theorem Abstracts.find (abstracts : view.Abstracts set) (ele : K) :
    set.find ele = (view.find ele).map Entry.score := by
  cases found : view.find ele with
  | none =>
      refine lookup_eq_none.mpr fun member => ?_
      obtain ⟨pair, present, rfl⟩ := List.mem_map.mp member
      obtain ⟨entry, stored, rfl⟩ := List.mem_map.mp ((abstracts.members pair).mpr present)
      exact find_none.mp found (List.mem_map_of_mem stored)
  | some entry =>
      obtain ⟨stored, rfl⟩ := find_some found
      exact (lookup_eq_some abstracts.keyed).mpr ((abstracts.members entry.pair).mp (List.mem_map_of_mem stored))

theorem Abstracts.unlink (abstracts : view.Abstracts set) (ele : K) : (view.unlink ele).Abstracts (set.remove ele) where
  recency := congrArg (forget ele) abstracts.recency
  queued := abstracts.queued
  capacity := abstracts.capacity
  members pair := by
    rw [LazySet.members, LazySet.remove, List.mem_append, mem_forget, mem_forget, ← or_and_right, ← List.mem_append]
    rw [show set.recent ++ set.stale = set.members from rfl, ← abstracts.members, List.mem_map, List.mem_map]
    constructor
    · rintro ⟨entry, member, rfl⟩
      obtain ⟨present, different⟩ := mem_unlink.mp member
      exact ⟨⟨entry, present, rfl⟩, different⟩
    · rintro ⟨⟨entry, present, rfl⟩, different⟩
      exact ⟨entry, mem_unlink.mpr ⟨present, different⟩, rfl⟩
  keyed := by
    have whole : (set.remove ele).members = forget ele set.members := (List.filter_append ..).symm
    rw [whole]
    exact abstracts.keyed.forget ele

omit [LinearOrder V] in
theorem Abstracts.touch (abstracts : view.Abstracts set) (coherent : view.Coherent) (ele : K) :
    ({ view with recency := Foundation.touch ele view.recency } : View K V).Abstracts (set.use ele) := by
  have permuted : (set.use ele).members.Perm set.members := by
    refine List.Perm.append_right set.stale (touch_perm ?_ ele)
    rw [← abstracts.recency]
    exact coherent.keyed
  refine ⟨congrArg (Foundation.touch ele) abstracts.recency, abstracts.queued, abstracts.capacity, fun pair => ?_, ?_⟩
  · rw [permuted.mem_iff]
    exact abstracts.members pair
  · exact ((permuted.map Prod.fst).nodup_iff).mpr abstracts.keyed

/-- The insertion of an absent element gives it a place in the set. -/
theorem Abstracts.insertFresh (abstracts : view.Abstracts set) (coherent : view.Coherent) {entry : Entry K V}
    (absent : entry.ele ∉ view.entries.map Entry.ele)
    (distinct : ((view.insertFresh entry).entries.map Entry.ele).Nodup) :
    (view.insertFresh entry).Abstracts (set.accept entry.ele entry.score) := by
  have keyed : Keyed set.recent := abstracts.recency ▸ coherent.keyed
  have unplaced : entry.ele ∉ set.recent.map Prod.fst := by
    rw [← abstracts.recency]
    exact fun cached => absent (coherent.cached_mem cached)
  have free : entry.ele ∉ overflow set.capacity set.recent := by
    intro given
    rw [makeRoom_overflow set.capacity] at unplaced
    exact unplaced (List.mem_append_right _ given)
  have places : (view.receive entry).recency = entry.pair :: makeRoom set.capacity set.recent := by
    rw [receive, abstracts.recency, abstracts.capacity]
    rfl
  have waiting : (view.receive entry).queued = set.doomed ++ overflow set.capacity set.recent := by
    rw [receive, abstracts.recency, abstracts.capacity, abstracts.queued]
  have undoomed : ∀ pair ∈ set.recent, pair.1 ∉ set.doomed := by
    intro pair member doomed
    rw [← abstracts.recency] at member
    rw [← abstracts.queued] at doomed
    exact coherent.apart pair.1 doomed (List.mem_map_of_mem member)
  have kept : (makeRoom set.capacity set.recent).filter
      (fun pair => pair.1 ∉ set.doomed ++ overflow set.capacity set.recent) = makeRoom set.capacity set.recent := by
    rw [List.filter_eq_self]
    intro pair member
    obtain ⟨present, placed⟩ := (keyed.mem_makeRoom set.capacity).mp member
    simp [undoomed pair present, placed]
  have recency : (view.insertFresh entry).recency = (set.accept entry.ele entry.score).recent := by
    rw [View.insertFresh, flush, recency_unlinkAll, places, waiting, List.filter_cons, kept, LazySet.accept]
    by_cases doomed : entry.ele ∈ set.doomed <;> simp [Entry.pair, doomed, free]
  have members : (set.accept entry.ele entry.score).members = (view.insertFresh entry).recency := by
    rw [recency, LazySet.members]
    exact List.append_nil _
  have fresh := coherent.insertFresh absent
  refine ⟨recency, rfl, ((unlinkAll_frame (view.receive entry) _).2.1).trans abstracts.capacity, fun pair => ?_, ?_⟩
  · rw [members]
    exact fresh.mem_pairs rfl distinct pair
  · rw [members]
    exact fresh.keyed

omit [LinearOrder K] [LinearOrder V] in
/-- A new capacity keeps the members. -/
theorem Abstracts.setMaxMemory (abstracts : view.Abstracts set) (maxMemory : Int) :
    (view.setMaxMemory maxMemory).2.Abstracts (set.setMaxMemory maxMemory) := by
  unfold View.setMaxMemory LazySet.setMaxMemory
  split
  · exact abstracts
  · have kept : retain maxMemory set.recent ++
        ((if 0 < maxMemory then set.recent.drop maxMemory.toNat else []) ++ set.stale) = set.members := by
      rw [← List.append_assoc, retain_append_drop]
      rfl
    refine ⟨congrArg (retain maxMemory) abstracts.recency, ?_, rfl, fun pair => ?_, ?_⟩
    · exact congrArg₂ (fun queued recency => queued ++ dropped maxMemory recency) abstracts.queued abstracts.recency
    · exact (abstracts.members pair).trans (iff_of_eq (congrArg (pair ∈ ·) kept.symm))
    · exact (congrArg Keyed kept).mpr abstracts.keyed

/-- Every operation acts on the view as it acts on the set. -/
theorem Abstracts.operate (abstracts : view.Abstracts set) (coherent : view.Coherent) (toInt : V → Int) (maxLevel : Nat)
    (operation : SkipList.Operation K V)
    (distinct : ((view.operate toInt maxLevel operation).2.entries.map Entry.ele).Nodup) :
    (view.operate toInt maxLevel operation).1 = (set.operate toInt operation).1 ∧
      (view.operate toInt maxLevel operation).2.Abstracts (set.operate toInt operation).2 := by
  cases operation with
  | insertElement ele score draws =>
      have known := abstracts.find ele
      cases found : view.find ele with
      | none =>
          rw [found, Option.map_none] at known
          simp only [View.operate, View.insertElement, found] at distinct ⊢
          simp only [LazySet.operate, LazySet.insertElement, known]
          exact ⟨trivial, abstracts.insertFresh coherent (find_none.mp found) distinct⟩
      | some stored =>
          rw [found, Option.map_some] at known
          simp only [LazySet.operate, LazySet.insertElement, known]
          by_cases equal : stored.score = score
          · simp only [View.operate, View.insertElement, found, if_pos equal]
            exact ⟨trivial, abstracts.touch coherent ele⟩
          · simp only [View.operate, View.insertElement, found, if_neg equal] at distinct ⊢
            have gone : ele ∉ (view.unlink ele).entries.map Entry.ele := by
              intro member
              obtain ⟨other, inside, same⟩ := List.mem_map.mp member
              exact (mem_unlink.mp inside).2 same
            exact ⟨trivial, (abstracts.unlink ele).insertFresh (coherent.unlink ele) gone distinct⟩
  | deleteElement ele =>
      refine ⟨?_, abstracts.unlink ele⟩
      rw [View.operate, View.deleteElement, LazySet.operate, LazySet.deleteElement, abstracts.find ele]
      cases found : view.find ele with
      | none => rw [if_neg (find_none.mp found)]; rfl
      | some stored =>
          obtain ⟨present, rfl⟩ := find_some found
          rw [if_pos (List.mem_map_of_mem present)]
          rfl
  | searchElement ele =>
      have known := abstracts.find ele
      cases found : view.find ele with
      | none =>
          rw [found, Option.map_none] at known
          simp only [View.operate, View.searchElement, LazySet.operate, LazySet.searchElement, found, known]
          exact ⟨trivial, abstracts⟩
      | some stored =>
          rw [found, Option.map_some] at known
          simp only [View.operate, View.searchElement, LazySet.operate, LazySet.searchElement, found, known]
          exact ⟨trivial, abstracts.touch coherent ele⟩
  | setMaxMemory maxMemory =>
      refine ⟨?_, abstracts.setMaxMemory maxMemory⟩
      rw [View.operate, View.setMaxMemory, LazySet.operate]
      split <;> rfl

end View

namespace SkipList
variable {K V : Type} [LinearOrder K] [LinearOrder V] {list : SkipList K V} {set : LazySet K V}

/-- The list behaves like the set. -/
def Realizes (list : SkipList K V) (set : LazySet K V) : Prop :=
  ∃ head towers view, list.Shows head towers view ∧ view.Coherent ∧ view.Abstracts set

theorem new_realizes [Inhabited K] (maxLevel : Nat) (positive : 0 < maxLevel) (capacity : Int) (uninitialized : V) :
    ∃ list : SkipList K V, new maxLevel capacity uninitialized = .ok list ∧ list.Realizes (.empty capacity) := by
  obtain ⟨list, constructed, _, shown⟩ := new_shows (K := K) positive capacity uninitialized
  exact ⟨list, constructed, _, _, _, shown, newView_coherent capacity, rfl, rfl, rfl, fun _ => Iff.rfl, List.nodup_nil⟩

/-- Every operation returns what the set answers. -/
theorem Realizes.operate (realizes : list.Realizes set) (toInt : V → Int) (operation : Operation K V) :
    ∃ next, list.operate toInt operation = .ok ((set.operate toInt operation).1, next) ∧
      next.Realizes (set.operate toInt operation).2 := by
  obtain ⟨head, towers, view, shown, coherent, abstracts⟩ := realizes
  obtain ⟨next, rest, returned, still, _⟩ := shown.operate coherent.toTracked toInt operation
  obtain ⟨answer, abstracted⟩ := abstracts.operate coherent toInt list.maxLevel operation still.distinct
  exact ⟨next, by rw [returned, answer], head, rest, _, still, coherent.operate toInt list.maxLevel operation, abstracted⟩

/-- The only increasing order of the pairs is the sorted one. -/
theorem eq_sorted {members pairs : List (K × V)} (increasing : members.Pairwise MemberBefore)
    (permuted : members.Perm pairs) : members = BoundedSet.sorted pairs := by
  let swap : K × V → Lex (V × K) := fun pair => toLex (pair.2, pair.1)
  have ordered : (members.map swap).Pairwise (· ≤ ·) := by
    rw [List.pairwise_map]
    exact increasing.imp le_of_lt
  have same : members.map swap = (pairs.map swap).insertionSort (· ≤ ·) := by
    refine List.Perm.eq_of_pairwise' ordered (List.pairwise_insertionSort _ _) ?_
    exact (permuted.map swap).trans (List.perm_insertionSort _ _).symm
  rw [BoundedSet.sorted, ← same, List.map_map]
  exact (List.map_id _).symm

theorem Shows.perm_members {head : Tower K V} {towers : List (Tower K V)} {view : View K V}
    (shown : list.Shows head towers view) (abstracts : view.Abstracts set) :
    (view.entries.map Entry.pair).Perm set.members := by
  have distinct : (view.entries.map Entry.pair).Nodup := by
    refine List.Nodup.of_map Prod.fst ?_
    rw [List.map_map]
    exact shown.distinct
  rw [List.perm_ext_iff_of_nodup distinct abstracts.keyed.of_map]
  exact abstracts.members

/-- The members of the list are the sorted members of the set. -/
theorem Realizes.members (realizes : list.Realizes set) : list.members = .ok (BoundedSet.sorted set.members) := by
  obtain ⟨head, towers, view, shown, _, abstracts⟩ := realizes
  rw [shown.members, eq_sorted shown.sorted (shown.perm_members abstracts)]

/-- The counter of the list is the number of the members as a signed 32-bit integer. -/
theorem Realizes.lengthOf (realizes : list.Realizes set) :
    list.lengthOf = (set.members.length : Int).bmod (2 ^ 32) := by
  obtain ⟨head, towers, view, shown, _, abstracts⟩ := realizes
  have total : towers.length = set.members.length := by
    rw [← (shown.perm_members abstracts).length_eq, ← shown.entries, List.length_map, List.length_map]
  rw [SkipList.lengthOf, shown.represents.counted, total, BitVec.toInt_ofNat']

/-- Every history on a new list answers as the lazy set does, and it leaves the members of the set, sorted and counted.
The capacity changes at any time. -/
theorem history_realizes [Inhabited K] (toInt : V → Int) (maxLevel : Nat) (positive : 0 < maxLevel) (maxCapacity : Int)
    (uninitialized : V) (operations : List (Operation K V)) :
    ∃ final, history toInt maxLevel maxCapacity uninitialized operations =
        .ok ((abstractRun (LazySet.operate toInt) (.empty maxCapacity) operations).1, final) ∧
      final.members =
        .ok (BoundedSet.sorted (abstractRun (LazySet.operate toInt) (.empty maxCapacity) operations).2.members) ∧
      final.lengthOf =
        ((abstractRun (LazySet.operate toInt) (.empty maxCapacity) operations).2.members.length : Int).bmod (2 ^ 32) := by
  obtain ⟨list, constructed, realizes⟩ := new_realizes (K := K) maxLevel positive maxCapacity uninitialized
  obtain ⟨final, returned, last⟩ := run_simulation (SkipList.operate toInt) (LazySet.operate toInt) Realizes
    (fun state model operation related => related.operate toInt operation) list _ operations realizes
  exact ⟨final, by rw [history, constructed, Exec.ok_bind, returned], last.members, last.lengthOf⟩

/-- The list shrinks to one place, and the update of its stale element 1 is forgotten. -/
theorem history_realizes_shrunk :
    ∃ final, history (K := Nat) (V := Nat) Int.ofNat 6 0 0
        [.insertElement 1 5 [], .insertElement 2 6 [0], .setMaxMemory 1, .searchElement 1, .insertElement 1 7 []] =
        .ok ((abstractRun (LazySet.operate Int.ofNat) (.empty 0)
          [.insertElement 1 5 [], .insertElement 2 6 [0], .setMaxMemory 1, .searchElement 1, .insertElement 1 7 []]).1,
          final) ∧
      final.members = .ok (BoundedSet.sorted (abstractRun (LazySet.operate Int.ofNat) (.empty 0)
        [.insertElement 1 5 [], .insertElement 2 6 [0], .setMaxMemory 1, .searchElement 1,
          .insertElement 1 7 []]).2.members) ∧
      final.lengthOf = ((abstractRun (LazySet.operate Int.ofNat) (.empty 0)
        [.insertElement 1 5 [], .insertElement 2 6 [0], .setMaxMemory 1, .searchElement 1,
          .insertElement 1 7 []]).2.members.length : Int).bmod (2 ^ 32) :=
  history_realizes Int.ofNat 6 (by decide) 0 0 _

end SkipList

end MySkipList
