import MySkipList.Proof.SkipList.Refinement

namespace MySkipList

open Foundation

namespace BoundedSet
variable {K V : Type} [LinearOrder K]

/-- The pairs of the smaller set are pairs of the larger set in the same order. The larger set exceeds
the smaller one by at most the difference of the capacities, so it is never full alone. -/
structure Included (small large : Int) (fewer more : List (K × V)) : Prop where
  keyed : Keyed more
  sublist : fewer.Sublist more
  fits : LRUCache.Fits small fewer
  bounded : LRUCache.Fits large more
  gap : 0 < large → (more.length : Int) - fewer.length ≤ large - small

section Steps
variable {small large : Int} {fewer more : List (K × V)}

omit [LinearOrder K] in
theorem Included.keyed_fewer (included : Included small large fewer more) : Keyed fewer :=
  included.keyed.sublist included.sublist

/-- The smaller set holds a key with the value of the larger set, if at all. -/
theorem Included.cases (included : Included small large fewer more) (ele : K) :
    (fewer.lookup ele = none ∧ more.lookup ele = none ∧ forget ele fewer = fewer ∧ forget ele more = more) ∨
      (∃ value, fewer.lookup ele = none ∧ more.lookup ele = some value ∧ forget ele fewer = fewer ∧
        (forget ele more).length + 1 = more.length) ∨
      ∃ value, fewer.lookup ele = some value ∧ more.lookup ele = some value ∧
        (forget ele fewer).length + 1 = fewer.length ∧ (forget ele more).length + 1 = more.length := by
  cases first : fewer.lookup ele with
  | none =>
      have absent := lookup_eq_none.mp first
      cases second : more.lookup ele with
      | none => exact Or.inl ⟨rfl, rfl, forget_absent absent, forget_absent (lookup_eq_none.mp second)⟩
      | some value =>
          have present := List.mem_map_of_mem (f := Prod.fst) (mem_of_lookup second)
          exact Or.inr (Or.inl ⟨value, rfl, rfl, forget_absent absent, included.keyed.forget_length present⟩)
  | some value =>
      have member := mem_of_lookup first
      have inside := included.sublist.subset member
      refine Or.inr (Or.inr ⟨value, rfl, (lookup_eq_some included.keyed).mpr inside, ?_, ?_⟩)
      · exact included.keyed_fewer.forget_length (List.mem_map_of_mem member)
      · exact included.keyed.forget_length (List.mem_map_of_mem inside)

theorem Included.forget_sublist (included : Included small large fewer more) (ele : K) :
    (forget ele fewer).Sublist (forget ele more) :=
  included.sublist.filter _

/-- A deletion keeps the inclusion. -/
theorem Included.forget (included : Included small large fewer more) (ele : K) :
    Included small large (Foundation.forget ele fewer) (Foundation.forget ele more) := by
  have shorter : (Foundation.forget ele fewer).length ≤ fewer.length := List.length_filter_le ..
  have shorter' : (Foundation.forget ele more).length ≤ more.length := List.length_filter_le ..
  refine ⟨included.keyed.forget ele, included.forget_sublist ele, ?_, ?_, ?_⟩
  · intro positive
    have bound := included.fits positive
    omega
  · intro positive
    have bound := included.bounded positive
    omega
  · intro positive
    have gap := included.gap positive
    rcases included.cases ele with ⟨_, _, same, same'⟩ | ⟨_, _, _, same, less⟩ | ⟨_, _, _, less, less'⟩
    · rw [same, same']
      exact gap
    · rw [same]
      omega
    · omega

omit [LinearOrder K] in
/-- A pair in front of both sets keeps the inclusion while both have room for it. -/
theorem Included.cons (included : Included small large fewer more) {ele : K} (value : V)
    (absent : ele ∉ more.map Prod.fst) (room : LRUCache.Fits small ((ele, value) :: fewer))
    (room' : LRUCache.Fits large ((ele, value) :: more)) :
    Included small large ((ele, value) :: fewer) ((ele, value) :: more) := by
  refine ⟨included.keyed.cons value absent, included.sublist.cons_cons _, room, room', ?_⟩
  intro positive
  have gap := included.gap positive
  simp only [List.length_cons]
  omega

/-- A present element of the larger set moves to its front with the same effect on the smaller set or none. -/
theorem Included.searchElement (included : Included small large fewer more) (toInt : V → Int) (ele : K) :
    Included small large (searchElement toInt fewer ele).2 (searchElement toInt more ele).2 := by
  have fresh := forget_fresh ele more
  unfold BoundedSet.searchElement
  rcases included.cases ele with ⟨first, second, _⟩ | ⟨value, first, second, same, less⟩ |
    ⟨value, first, second, less, less'⟩
  · rw [first, second]
    exact included
  · rw [first, second]
    have kept := included.forget ele
    rw [same] at kept
    refine ⟨kept.keyed.cons value fresh, kept.sublist.cons _, included.fits, ?_, ?_⟩
    · rw [LRUCache.Fits, List.length_cons, less]
      exact included.bounded
    · rw [List.length_cons, less]
      exact included.gap
  · rw [first, second]
    refine (included.forget ele).cons value fresh ?_ ?_
    · rw [LRUCache.Fits, List.length_cons, less]
      exact included.fits
    · rw [LRUCache.Fits, List.length_cons, less']
      exact included.bounded

/-- A deletion keeps the inclusion, whichever of the sets holds the element. -/
theorem Included.deleteElement (included : Included small large fewer more) (ele : K) :
    Included small large (deleteElement fewer ele).2 (deleteElement more ele).2 := by
  have kept := included.forget ele
  unfold BoundedSet.deleteElement
  rcases included.cases ele with ⟨first, second, _⟩ | ⟨value, first, second, same, _⟩ | ⟨value, first, second, _⟩
  · rw [first, second]
    exact included
  · rw [first, second]
    rwa [same] at kept
  · rw [first, second]
    exact kept

omit [LinearOrder K] in
theorem Included.full (included : Included small large fewer more) (positive : 0 < small) (full : Full large more) :
    Full small fewer := by
  have gap := included.gap full.1
  have bound := included.fits positive
  have length := full.2
  exact ⟨positive, by omega⟩

omit [LinearOrder K] in
/-- Where the larger set gives up its last pair the smaller set gives up its own. -/
theorem Included.makeRoom_sublist (included : Included small large fewer more) (positive : 0 < small) :
    (makeRoom small fewer).Sublist (makeRoom large more) := by
  by_cases full : Full large more
  · have both : Full small fewer := included.full positive full
    rw [makeRoom, makeRoom, if_pos full, if_pos both]
    exact dropLast_sublist_dropLast included.sublist
  · have kept : makeRoom large more = more := if_neg full
    rw [kept]
    exact (Foundation.makeRoom_sublist small fewer).trans included.sublist

/-- An insertion keeps the inclusion: an update of both sets, an update of one and an insertion into the
other, or an insertion into both. -/
theorem Included.insertElement (included : Included small large fewer more) (positive : 0 < small) (ele : K)
    (score : V) :
    Included small large (insertElement small fewer ele score).2 (insertElement large more ele score).2 := by
  have fresh := forget_fresh ele more
  unfold BoundedSet.insertElement
  have growth := makeRoom_length small fewer
  rcases included.cases ele with ⟨first, second, _⟩ | ⟨value, first, second, same, less⟩ |
    ⟨value, first, second, less, less'⟩
  · rw [first, second]
    have absent : ele ∉ (makeRoom large more).map Prod.fst := fun present =>
      lookup_eq_none.mp second (((Foundation.makeRoom_sublist large more).map _).subset present)
    refine ⟨(included.keyed.sublist (Foundation.makeRoom_sublist large more)).cons score absent,
      (included.makeRoom_sublist positive).cons_cons _, included.fits.makeRoom _, included.bounded.makeRoom _, ?_⟩
    intro limited
    have gap := included.gap limited
    have bound := included.bounded limited
    have growth' := makeRoom_length large more
    simp only [List.length_cons]
    by_cases full : Full large more
    · have both := included.full positive full
      rw [if_pos full] at growth'
      rw [if_pos both] at growth
      have length := full.2
      have length' := both.2
      omega
    · have free : (more.length : Int) ≠ large := fun same => full ⟨limited, same⟩
      rw [if_neg full] at growth'
      split at growth
      · rename_i both
        have length := both.2
        omega
      · omega
  · rw [first, second]
    have kept := (included.forget ele).sublist
    rw [same] at kept
    refine ⟨(included.keyed.forget ele).cons score fresh,
      ((Foundation.makeRoom_sublist small fewer).trans kept).cons_cons _, included.fits.makeRoom _, ?_, ?_⟩
    · rw [LRUCache.Fits, List.length_cons, less]
      exact included.bounded
    · intro limited
      have gap := included.gap limited
      simp only [List.length_cons, less]
      split at growth
      · rename_i full
        have length := full.2
        omega
      · omega
  · rw [first, second]
    refine (included.forget ele).cons score fresh ?_ ?_
    · rw [LRUCache.Fits, List.length_cons, less]
      exact included.fits
    · rw [LRUCache.Fits, List.length_cons, less']
      exact included.bounded

end Steps

theorem mem_sorted [LinearOrder V] {pairs : List (K × V)} {pair : K × V} : pair ∈ sorted pairs ↔ pair ∈ pairs := by
  rcases pair with ⟨ele, score⟩
  simp [sorted]

end BoundedSet

namespace SkipList
variable {K V : Type} [LinearOrder K] [LinearOrder V]

/-- Two lists receive the same call when only the random draws of their levels differ. -/
inductive SameCall : Operation K V → Operation K V → Prop where
  | insertElement (ele : K) (score : V) (draws draws' : List Nat) :
      SameCall (.insertElement ele score draws) (.insertElement ele score draws')
  | deleteElement (ele : K) : SameCall (.deleteElement ele) (.deleteElement ele)
  | searchElement (ele : K) : SameCall (.searchElement ele) (.searchElement ele)

/-- The smaller list refines a set that is included in the set of the larger list. -/
def Contains (small large : Int) (list list' : SkipList K V) : Prop :=
  ∃ fewer more, list.Refines small fewer ∧ list'.Refines large more ∧ BoundedSet.Included small large fewer more

/-- The same call keeps the inclusion of two lists. -/
theorem Contains.operate {small large : Int} {list list' : SkipList K V} (contains : Contains small large list list')
    (positive : 0 < small) (toInt : V → Int) {operation operation' : Operation K V}
    (same : SameCall operation operation') :
    ∃ output next output' next', list.operate toInt operation = .ok (output, next) ∧
      list'.operate toInt operation' = .ok (output', next') ∧ Contains small large next next' := by
  obtain ⟨fewer, more, refines, refines', included⟩ := contains
  cases same with
  | insertElement ele score draws draws' =>
      obtain ⟨next, returned, still⟩ := refines.insertElement ele score draws
      obtain ⟨next', returned', still'⟩ := refines'.insertElement ele score draws'
      exact ⟨_, next, _, next', returned, returned', _, _, still, still', included.insertElement positive ele score⟩
  | deleteElement ele =>
      obtain ⟨next, returned, still⟩ := refines.deleteElement ele
      obtain ⟨next', returned', still'⟩ := refines'.deleteElement ele
      exact ⟨_, next, _, next', returned, returned', _, _, still, still', included.deleteElement ele⟩
  | searchElement ele =>
      obtain ⟨next, returned, still⟩ := refines.searchElement toInt ele
      obtain ⟨next', returned', still'⟩ := refines'.searchElement toInt ele
      exact ⟨_, next, _, next', returned, returned', _, _, still, still', included.searchElement toInt ele⟩

theorem Refines.recency {list : SkipList K V} {capacity : Int} {pairs : List (K × V)}
    (refines : list.Refines capacity pairs) : list.lruCache.lru.entries.map Prod.snd = pairs := by
  obtain ⟨head, towers, view, shown, coherent, idle, rfl, rfl⟩ := refines
  exact shown.cached.order

/-- A larger capacity keeps every member that a smaller one keeps, with its score and in the same
recency order. -/
theorem history_inclusion [Inhabited K] (toInt : V → Int) (maxLevel maxLevel' : Nat) (levels : 0 < maxLevel)
    (levels' : 0 < maxLevel') (small large : Int) (positive : 1 ≤ small) (ordered : small ≤ large ∨ large = 0)
    (uninitialized uninitialized' : V)
    (operations operations' : List (Operation K V)) (same : List.Forall₂ SameCall operations operations') :
    ∃ outputs final outputs' final' members members',
      history toInt maxLevel small uninitialized operations = .ok (outputs, final) ∧
      history toInt maxLevel' large uninitialized' operations' = .ok (outputs', final') ∧
      final.members = .ok members ∧ final'.members = .ok members' ∧ (∀ pair ∈ members, pair ∈ members') ∧
      (final.lruCache.lru.entries.map Prod.snd).Sublist (final'.lruCache.lru.entries.map Prod.snd) := by
  obtain ⟨list, constructed, refines⟩ := new_refines (K := K) maxLevel levels small (by omega) uninitialized
  obtain ⟨list', constructed', refines'⟩ := new_refines (K := K) maxLevel' levels' large (by omega) uninitialized'
  have start : Contains small large list list' := by
    refine ⟨[], [], refines, refines', List.nodup_nil, List.Sublist.refl _, ?_, ?_, ?_⟩
    · exact fun limited => limited.le
    · exact fun limited => limited.le
    · intro limited
      simp only [List.length_nil]
      omega
  obtain ⟨outputs, final, outputs', final', returned, returned', fewer, more, result, result', included⟩ :=
    run_related (operate toInt) (operate toInt) SameCall (Contains small large)
      (fun _ _ _ _ contains same => contains.operate (by omega) toInt same) list list' same start
  refine ⟨outputs, final, outputs', final', _, _, ?_, ?_, result.members, result'.members, ?_, ?_⟩
  · rw [history, constructed, Exec.ok_bind, returned]
  · rw [history, constructed', Exec.ok_bind, returned']
  · intro pair member
    exact BoundedSet.mem_sorted.mpr (included.sublist.subset (BoundedSet.mem_sorted.mp member))
  · rw [result.recency, result'.recency]
    exact included.sublist

theorem history_inclusion_evicting :
    ∃ outputs final outputs' final' members members',
      history Subtype.val 6 1 ⟨0, by decide⟩ [.insertElement (bytes "a") (⟨1, by decide⟩ : CInt) [],
        .insertElement (bytes "b") ⟨2, by decide⟩ [], .searchElement (bytes "a"), .deleteElement (bytes "b")] =
          .ok (outputs, final) ∧
      history Subtype.val 6 2 ⟨0, by decide⟩ [.insertElement (bytes "a") (⟨1, by decide⟩ : CInt) [0],
        .insertElement (bytes "b") ⟨2, by decide⟩ [], .searchElement (bytes "a"), .deleteElement (bytes "b")] =
          .ok (outputs', final') ∧
      final.members = .ok members ∧ final'.members = .ok members' ∧ (∀ pair ∈ members, pair ∈ members') ∧
      (final.lruCache.lru.entries.map Prod.snd).Sublist (final'.lruCache.lru.entries.map Prod.snd) :=
  history_inclusion Subtype.val 6 6 (by decide) (by decide) 1 2 (by decide) (Or.inl (by decide)) _ _ _ _
    (.cons (.insertElement ..) (.cons (.insertElement ..)
      (.cons (.searchElement _) (.cons (.deleteElement _) .nil))))

end SkipList

end MySkipList
