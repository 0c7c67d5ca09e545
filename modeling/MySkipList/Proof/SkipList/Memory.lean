import MySkipList.Proof.SkipList.Release

namespace MySkipList.SkipList

open Foundation

variable {K V : Type} [LinearOrder K] [LinearOrder V]

/-- The live cells are the header and the nodes of the towers. -/
def Sealed (list : SkipList K V) (head : Tower K V) (towers : List (Tower K V)) : Prop :=
  list.heap.live = ((head :: towers).map Tower.ref).toFinset

section Edits
variable {list final : SkipList K V} {head : Tower K V} {towers rest : List (Tower K V)} {view : View K V}
  {edit : Edit K V} {edits : List (Edit K V)}

/-- A link takes one new cell, and an unlink returns one. -/
theorem EditStep.keepsSealed (step : EditStep head list towers edit final rest) (whole : list.Sealed head towers) :
    final.Sealed head rest := by
  cases step with
  | link rep =>
      rw [Sealed] at whole ⊢
      simp only [linkedNode, Heap.live_mapCells, Heap.live_alloc, whole]
      ext ref
      simp only [Finset.mem_insert, List.mem_toFinset, List.mem_map, List.mem_cons, List.mem_append]
      constructor
      · rintro (rfl | ⟨tower, member, rfl⟩)
        · exact ⟨_, .inr (.inr (.inl rfl)), rfl⟩
        · exact ⟨tower, by tauto, rfl⟩
      · rintro ⟨tower, rfl | inFront | rfl | inBack, rfl⟩
        · exact .inr ⟨_, .inl rfl, rfl⟩
        · exact .inr ⟨tower, .inr (.inl inFront), rfl⟩
        · exact .inl rfl
        · exact .inr ⟨tower, .inr (.inr inBack), rfl⟩
  | @unlink front back target node lruCache rep =>
      have distinct := rep.refs_nodup
      rw [List.map_cons, List.map_append, List.map_cons, ← List.cons_append, List.nodup_middle, List.nodup_cons] at distinct
      rw [Sealed] at whole ⊢
      simp only [unlinked, Heap.live_discard, Heap.live_mapCells, whole]
      ext ref
      have own : ref = target.ref → ref ∉ ((head :: (front ++ back)).map Tower.ref) := by
        rintro rfl
        simpa using distinct.1
      simp only [Finset.mem_erase, List.mem_toFinset, List.map_cons, List.map_append, List.mem_cons, List.mem_append,
        not_or] at own ⊢
      tauto
  | absent => exact whole

theorem Edited.keepsSealed (edited : Edited head list towers edits final rest) (whole : list.Sealed head towers) :
    final.Sealed head rest := by
  induction edited with
  | done lruCache => exact whole
  | step lruCache first later ih => exact ih (first.keepsSealed whole)

end Edits

section Destruction
variable {list : SkipList K V} {head : Tower K V} {towers : List (Tower K V)} {view : View K V} {refs : List Ref}

/-- The references of the members are the references of the towers. -/
theorem Represents.mem_refs (rep : list.Represents head towers) (ref : Ref) :
    ref ∈ towers.map Tower.ref ↔ ∃ ele, list.nodeMap.lookup ele = some ref := by
  rw [List.mem_map]
  constructor
  · rintro ⟨tower, member, rfl⟩
    exact ⟨tower.ele, (rep.mapped tower.ele tower.ref).mpr ⟨tower, member, rfl, rfl⟩⟩
  · rintro ⟨ele, found⟩
    obtain ⟨tower, member, _, same⟩ := (rep.mapped ele ref).mp found
    exact ⟨tower, member, same⟩

theorem Sealed.mem_live (rep : list.Represents head towers) (whole : list.Sealed head towers) (ref : Ref) :
    ref ∈ list.heap.live ↔ ref = list.header ∨ ∃ ele, list.nodeMap.lookup ele = some ref := by
  rw [← rep.mem_refs, whole, List.mem_toFinset, List.map_cons, List.mem_cons, rep.headRef]

omit [LinearOrder K] [LinearOrder V] in
/-- The destructor releases the cells of its walk and the header. -/
theorem destroy_live {header : SkipListNode K V} (live : list.heap.cells list.header = some header)
    (chain : BackwardChain list.heap list.tail refs) (distinct : refs.Nodup) (outside : list.header ∉ refs) :
    ∃ heap, list.destroy = .ok heap ∧ ∀ ref, ref ∈ heap.live ↔ ref ∈ list.heap.live ∧ ref ≠ list.header ∧ ref ∉ refs := by
  have bound := list.heap.live_length_le refs distinct fun ref member => chain.live member
  obtain ⟨middle, released, kept, dead⟩ := chain.releaseNodes distinct (Nat.lt_succ_of_le bound)
  refine ⟨middle.discard list.header, ?_, fun ref => ?_⟩
  · rw [destroy, SkipList.turns, released, Exec.ok_bind, Heap.free_of_live ((kept list.header outside).trans live)]
  · rw [Heap.live_discard, Finset.mem_erase, Heap.mem_live, Heap.mem_live]
    by_cases walked : ref ∈ refs
    · simp [dead ref walked, walked]
    · simp [kept ref walked, walked, and_comm]

/-- The destructor leaves nothing behind exactly when its walk visits every node once. -/
theorem Sealed.destroy_iff (rep : list.Represents head towers) (whole : list.Sealed head towers) :
    (∃ heap, list.destroy = .ok heap ∧ heap.live = ∅) ↔
      ∃ refs, BackwardChain list.heap list.tail refs ∧ refs.Nodup ∧
        ∀ ref, ref ∈ refs ↔ ∃ ele, list.nodeMap.lookup ele = some ref := by
  obtain ⟨node, stored⟩ := rep.linked.stores (List.mem_cons_self ..)
  have live := stored.live
  rw [rep.headRef] at live
  have headless : ¬ ∃ ele, list.nodeMap.lookup ele = some list.header := by
    rw [← rep.mem_refs, ← rep.headRef]
    exact (List.nodup_cons.mp rep.refs_nodup).1
  constructor
  · rintro ⟨heap, destroyed, nothing⟩
    obtain ⟨refs, chain, distinct, outside⟩ := (destroy_returns_iff live).mp ⟨heap, destroyed⟩
    obtain ⟨other, again, left⟩ := destroy_live live chain distinct outside
    obtain rfl : heap = other := Except.ok.inj (destroyed.symm.trans again)
    refine ⟨refs, chain, distinct, fun ref => ⟨fun walked => ?_, fun found => ?_⟩⟩
    · have alive := (whole.mem_live rep ref).mp (Heap.mem_live.mpr (chain.live walked))
      exact alive.resolve_left fun same => outside (same ▸ walked)
    · by_contra missed
      have stays : ref ∈ heap.live := (left ref).mpr ⟨(whole.mem_live rep ref).mpr (.inr found), ?_, missed⟩
      · simp [nothing] at stays
      · rintro rfl
        exact headless found
  · rintro ⟨refs, chain, distinct, all⟩
    obtain ⟨heap, destroyed, left⟩ := destroy_live live chain distinct fun member => headless ((all _).mp member)
    refine ⟨heap, destroyed, Finset.eq_empty_of_forall_notMem fun ref member => ?_⟩
    obtain ⟨alive, different, missed⟩ := (left ref).mp member
    exact missed ((all ref).mpr (((whole.mem_live rep ref).mp alive).resolve_left different))

end Destruction

/-- After every history the live cells are the header and the nodes of `node_map_`, so no operation leaks. The destructor
then leaves no cell behind if and only if its walk from `tail_` along the backward pointers visits each of these nodes
exactly once. -/
theorem history_memory [Inhabited K] (toInt : V → Int) (maxLevel : Nat) (positive : 0 < maxLevel) (maxCapacity : Int)
    (uninitialized : V) (operations : List (Operation K V)) :
    ∃ outputs final, history toInt maxLevel maxCapacity uninitialized operations = .ok (outputs, final) ∧
      (∀ ref, ref ∈ final.heap.live ↔ ref = final.header ∨ ∃ ele, final.nodeMap.lookup ele = some ref) ∧
      ((∃ heap, final.destroy = .ok heap ∧ heap.live = ∅) ↔
        ∃ refs, BackwardChain final.heap final.tail refs ∧ refs.Nodup ∧
          ∀ ref, ref ∈ refs ↔ ∃ ele, final.nodeMap.lookup ele = some ref) := by
  obtain ⟨list, constructed, _, shown⟩ := new_shows (K := K) positive maxCapacity uninitialized
  have fresh : list.Sealed ⟨0, maxLevel, default, uninitialized⟩ [] := by
    obtain ⟨⟨_, lruCache⟩, _, built⟩ := (Exec.bind_eq_ok _ _ _).mp constructed
    rw [Sealed, ← Except.ok.inj built]
    rfl
  obtain ⟨outputs, final, returned, rest, view, last, _, whole⟩ := run_total (operate toInt)
    (fun list => ∃ (towers : List (Tower K V)) (view : View K V),
      list.Shows ⟨0, maxLevel, default, uninitialized⟩ towers view ∧ view.Coherent ∧
        list.Sealed ⟨0, maxLevel, default, uninitialized⟩ towers) (by
      rintro list operation ⟨towers, view, shown, coherent, whole⟩
      obtain ⟨final, rest, operated, still, edited⟩ := shown.operate coherent.toTracked toInt operation
      exact ⟨_, final, operated, rest, _, still, coherent.operate toInt _ operation, edited.keepsSealed whole⟩)
    list operations ⟨[], newView maxCapacity, shown, newView_coherent maxCapacity, fresh⟩
  refine ⟨outputs, final, ?_, whole.mem_live last.represents, whole.destroy_iff last.represents⟩
  rw [history, constructed, Exec.ok_bind, returned]

/-- An eviction and a change of a score release their nodes. -/
theorem history_memory_evicting :
    ∃ outputs final, history (K := Nat) (V := Nat) Int.ofNat 6 2 0 [.insertElement 1 10 [], .insertElement 2 20 [0],
        .insertElement 3 30 [], .insertElement 2 5 []] = .ok (outputs, final) ∧
      (∀ ref, ref ∈ final.heap.live ↔ ref = final.header ∨ ∃ ele, final.nodeMap.lookup ele = some ref) ∧
      ((∃ heap, final.destroy = .ok heap ∧ heap.live = ∅) ↔
        ∃ refs, BackwardChain final.heap final.tail refs ∧ refs.Nodup ∧
          ∀ ref, ref ∈ refs ↔ ∃ ele, final.nodeMap.lookup ele = some ref) :=
  history_memory Int.ofNat 6 (by decide) 2 0 [.insertElement 1 10 [], .insertElement 2 20 [0],
    .insertElement 3 30 [], .insertElement 2 5 []]

end MySkipList.SkipList
