import MySkipList.Proof.SkipList.Persistence
import MySkipList.Specification.BoundedSet

namespace MySkipList

open Foundation

def SkipList.invoke (list : SkipList Str CInt) : Call → Exec (Answer × SkipList Str CInt)
  | .insertElement ele score draws => do
      let (result, list) ← list.insertElement ele score draws
      pure (.number result, list)
  | .deleteElement ele => do
      let (result, list) ← list.deleteElement ele
      pure (.number result, list)
  | .searchElement ele => do
      let (result, list) ← list.searchElement Subtype.val ele
      pure (.number result, list)
  | .length => pure (.number list.lengthOf, list)
  | .save => do
      let written ← list.save
      pure (.text written, list)

/-- The conversion of a number of nodes to the counter and then to a signed integer. -/
def signedCount (count : Nat) : Int := (BitVec.ofNat 32 count).toInt

theorem signedCount_small {count : Nat} (small : count < 2 ^ 31) : signedCount count = count := by
  have exact : (BitVec.ofNat 32 count).toNat = count := by
    rw [BitVec.toNat_ofNat, Nat.mod_eq_of_lt (by omega)]
  rw [signedCount, BitVec.toInt_eq_toNat_of_lt (by omega), exact]

namespace View
variable {K V : Type} [LinearOrder K] [LinearOrder V] {view : View K V}

omit [LinearOrder K] [LinearOrder V] in
/-- Without waiting keys the entries are exactly the cached pairs. -/
theorem Coherent.mem_pairs (coherent : view.Coherent) (idle : view.queued = [])
    (distinct : (view.entries.map Entry.ele).Nodup) (pair : K × V) :
    pair ∈ view.entries.map Entry.pair ↔ pair ∈ view.recency := by
  constructor
  · intro member
    obtain ⟨entry, present, rfl⟩ := List.mem_map.mp member
    have cached := (coherent.pending entry present).resolve_right (by simp [idle])
    obtain ⟨⟨key, value⟩, inside, same⟩ := List.mem_map.mp cached
    obtain rfl : key = entry.ele := same
    obtain ⟨height, other⟩ := coherent.recorded entry.ele value inside
    have equal := List.inj_on_of_nodup_map distinct present other rfl
    rw [show value = entry.score by rw [equal]] at inside
    exact inside
  · intro inside
    obtain ⟨height, present⟩ := coherent.recorded pair.1 pair.2 inside
    exact List.mem_map.mpr ⟨_, present, rfl⟩

/-- Deletions of keys outside the cache keep it. -/
theorem recency_unlinkAll_absent (view : View K V) (keys : List K) (absent : ∀ key ∈ keys, key ∉ view.recency.map Prod.fst) :
    (keys.foldl View.unlink view).recency = view.recency := by
  induction keys generalizing view with
  | nil => rfl
  | cons key rest ih =>
      have kept : (view.unlink key).recency = view.recency := forget_absent (absent key (by simp))
      rw [List.foldl_cons, ih (view.unlink key), kept]
      intro other member
      rw [kept]
      exact absent other (List.mem_cons_of_mem key member)

/-- An insertion of an absent element pushes its pair in front and gives up the last pair of a full cache. -/
theorem Coherent.recency_insertFresh (coherent : view.Coherent) (idle : view.queued = []) {entry : Entry K V}
    (absent : entry.ele ∉ view.entries.map Entry.ele) :
    (view.insertFresh entry).recency = entry.pair :: makeRoom view.capacity view.recency := by
  refine recency_unlinkAll_absent (view.receive entry) _ ?_
  intro key waiting cached
  have given : key ∈ overflow view.capacity view.recency := by simpa [receive, idle] using waiting
  have distinct := coherent.keyed
  rw [Keyed, makeRoom_overflow view.capacity, List.nodup_append'] at distinct
  rcases List.mem_cons.mp cached with same | kept
  · refine absent (coherent.cached_mem ?_)
    rw [makeRoom_overflow view.capacity]
    exact List.mem_append_right _ ((show key = entry.ele from same) ▸ given)
  · exact distinct.2.2 kept given

end View

namespace SkipList
variable {K V : Type} [LinearOrder K] [LinearOrder V] {list : SkipList K V} {head : Tower K V}
  {towers : List (Tower K V)} {view : View K V}

/-- The list behaves like a bounded set with these pairs. -/
def Refines (capacity : Int) (list : SkipList K V) (pairs : List (K × V)) : Prop :=
  ∃ head towers view, list.Shows head towers view ∧ view.Coherent ∧ view.queued = [] ∧
    view.capacity = capacity ∧ view.recency = pairs

theorem Shows.find_pairs (shown : list.Shows head towers view) (coherent : view.Coherent) (idle : view.queued = [])
    (ele : K) :
    (view.find ele = none ∧ ele ∉ view.recency.map Prod.fst ∧ ele ∉ view.entries.map Entry.ele) ∨
      ∃ entry, view.find ele = some entry ∧ entry.ele = ele ∧ (ele, entry.score) ∈ view.recency := by
  cases found : view.find ele with
  | none =>
      have absent := View.find_none.mp found
      exact Or.inl ⟨rfl, fun cached => absent (coherent.cached_mem cached), absent⟩
  | some entry =>
      obtain ⟨member, rfl⟩ := View.find_some found
      exact Or.inr ⟨entry, rfl, rfl,
        (coherent.mem_pairs idle shown.distinct entry.pair).mp (List.mem_map_of_mem member)⟩

/-- Without waiting keys an insertion acts on the pairs as the bounded set does. -/
theorem Shows.insertElement_pairs (shown : list.Shows head towers view) (coherent : view.Coherent)
    (idle : view.queued = []) (entry : Entry K V) :
    (view.insertElement entry).1 = (BoundedSet.insertElement view.capacity view.recency entry.ele entry.score).1 ∧
      (view.insertElement entry).2.recency =
        (BoundedSet.insertElement view.capacity view.recency entry.ele entry.score).2 ∧
      (view.insertElement entry).2.queued = [] ∧ (view.insertElement entry).2.capacity = view.capacity := by
  have frame (view : View K V) : (view.insertFresh entry).capacity = view.capacity :=
    (View.unlinkAll_frame (view.receive entry) (view.receive entry).queued).2.1
  rcases shown.find_pairs coherent idle entry.ele with ⟨missing, uncached, absent⟩ | ⟨stored, found, same, cached⟩
  · simp only [View.insertElement, missing, BoundedSet.insertElement, lookup_eq_none.mpr uncached]
    exact ⟨trivial, coherent.recency_insertFresh idle absent, rfl, frame view⟩
  · simp only [BoundedSet.insertElement, (lookup_eq_some coherent.keyed).mpr cached]
    by_cases equal : stored.score = entry.score
    · simp only [View.insertElement, found, if_pos equal]
      rw [equal] at cached
      exact ⟨trivial, touch_present coherent.keyed cached, idle, trivial⟩
    · simp only [View.insertElement, found, if_neg equal]
      have gone : entry.ele ∉ (view.unlink entry.ele).entries.map Entry.ele := by
        intro member
        obtain ⟨other, inside, same⟩ := List.mem_map.mp member
        exact (View.mem_unlink.mp inside).2 same
      refine ⟨trivial, ?_, rfl, frame (view.unlink entry.ele)⟩
      rw [(coherent.unlink entry.ele).recency_insertFresh idle gone]
      -- The removed pair leaves room, so the insertion evicts nothing.
      have shorter : (forget entry.ele view.recency).length < view.recency.length :=
        List.length_filter_lt_length_iff_exists.mpr ⟨_, cached, by simp⟩
      have room : ¬ Full view.capacity (forget entry.ele view.recency) := by
        rintro ⟨positive, full⟩
        have bound := coherent.fits positive
        omega
      exact congrArg (entry.pair :: ·) (if_neg room)

theorem Refines.insertElement {capacity : Int} {pairs : List (K × V)} (refines : list.Refines capacity pairs)
    (ele : K) (score : V) (draws : List Nat) :
    ∃ next, list.insertElement ele score draws =
        .ok ((BoundedSet.insertElement capacity pairs ele score).1, next) ∧
      next.Refines capacity (BoundedSet.insertElement capacity pairs ele score).2 := by
  obtain ⟨head, towers, view, shown, coherent, idle, rfl, rfl⟩ := refines
  obtain ⟨next, rest, returned, still, _⟩ := shown.insertElement coherent.toTracked ele score draws
  obtain ⟨result, recency, stillIdle, capacity⟩ :=
    shown.insertElement_pairs coherent idle ⟨ele, score, getRandomLevel list.maxLevel draws⟩
  have kept := coherent.operate (fun _ => 0) list.maxLevel (.insertElement ele score draws)
  exact ⟨next, by rw [returned, result], head, rest, _, still, kept, stillIdle, capacity, recency⟩

theorem Refines.deleteElement {capacity : Int} {pairs : List (K × V)} (refines : list.Refines capacity pairs)
    (ele : K) :
    ∃ next, list.deleteElement ele = .ok ((BoundedSet.deleteElement pairs ele).1, next) ∧
      next.Refines capacity (BoundedSet.deleteElement pairs ele).2 := by
  obtain ⟨head, towers, view, shown, coherent, idle, rfl, rfl⟩ := refines
  obtain ⟨next, rest, returned, still, _⟩ := shown.deleteBody coherent.toTracked ele
  refine ⟨next, ?_, head, rest, _, still, coherent.unlink ele, idle, rfl, ?_⟩
  · rw [SkipList.deleteElement, returned, View.deleteElement, BoundedSet.deleteElement]
    rcases shown.find_pairs coherent idle ele with ⟨_, uncached, absent⟩ | ⟨stored, found, same, cached⟩
    · rw [if_neg absent, lookup_eq_none.mpr uncached]
    · rw [if_pos (List.mem_map.mpr ⟨stored, (View.find_some found).1, same⟩),
        (lookup_eq_some coherent.keyed).mpr cached]
  · rw [BoundedSet.deleteElement]
    cases found : view.recency.lookup ele with
    | some value => rfl
    | none => exact forget_absent (lookup_eq_none.mp found)

theorem Refines.searchElement {capacity : Int} {pairs : List (K × V)} (refines : list.Refines capacity pairs)
    (toInt : V → Int) (ele : K) :
    ∃ next, list.searchElement toInt ele = .ok ((BoundedSet.searchElement toInt pairs ele).1, next) ∧
      next.Refines capacity (BoundedSet.searchElement toInt pairs ele).2 := by
  obtain ⟨head, towers, view, shown, coherent, idle, rfl, rfl⟩ := refines
  obtain ⟨next, returned, still, _⟩ := shown.searchElement toInt ele
  have kept := coherent.operate toInt list.maxLevel (.searchElement ele)
  rcases shown.find_pairs coherent idle ele with ⟨missing, uncached, _⟩ | ⟨stored, found, same, cached⟩
  · simp only [View.searchElement, missing] at returned still
    rw [BoundedSet.searchElement, lookup_eq_none.mpr uncached]
    exact ⟨next, returned, head, towers, view, still, coherent, idle, rfl, rfl⟩
  · simp only [View.operate, View.searchElement, found] at returned still kept
    rw [BoundedSet.searchElement, (lookup_eq_some coherent.keyed).mpr cached]
    exact ⟨next, returned, head, towers, _, still, kept, idle, rfl, touch_present coherent.keyed cached⟩

/-- The members of the list are the sorted pairs. -/
theorem Shows.members_sorted (shown : list.Shows head towers view) (coherent : view.Coherent)
    (idle : view.queued = []) : view.entries.map Entry.pair = BoundedSet.sorted view.recency := by
  let swap : K × V → Lex (V × K) := fun pair => toLex (pair.2, pair.1)
  have permuted : (view.entries.map Entry.pair).Perm view.recency := by
    have distinct : (view.entries.map Entry.pair).Nodup := by
      refine List.Nodup.of_map Prod.fst ?_
      rw [List.map_map]
      exact shown.distinct
    rw [List.perm_ext_iff_of_nodup distinct coherent.keyed.of_map]
    exact coherent.mem_pairs idle shown.distinct
  have increasing : ((view.entries.map Entry.pair).map swap).Pairwise (· ≤ ·) := by
    rw [List.pairwise_map]
    exact shown.sorted.imp le_of_lt
  have same : (view.entries.map Entry.pair).map swap = (view.recency.map swap).insertionSort (· ≤ ·) := by
    refine List.Perm.eq_of_pairwise' increasing (List.pairwise_insertionSort _ _) ?_
    exact (permuted.map swap).trans (List.perm_insertionSort _ _).symm
  rw [BoundedSet.sorted, ← same, List.map_map]
  exact (List.map_id _).symm

theorem Refines.lengthOf {capacity : Int} {pairs : List (K × V)} (refines : list.Refines capacity pairs) :
    list.lengthOf = signedCount pairs.length := by
  obtain ⟨head, towers, view, shown, coherent, idle, rfl, rfl⟩ := refines
  have lengths := congrArg List.length (shown.members_sorted coherent idle)
  have total : towers.length = view.recency.length := by
    rw [← shown.entries] at lengths
    simpa [BoundedSet.sorted] using lengths
  rw [SkipList.lengthOf, shown.represents.counted, total, signedCount]

theorem Refines.members {capacity : Int} {pairs : List (K × V)} (refines : list.Refines capacity pairs) :
    list.members = .ok (BoundedSet.sorted pairs) := by
  obtain ⟨head, towers, view, shown, coherent, idle, rfl, rfl⟩ := refines
  rw [shown.members, shown.members_sorted coherent idle]

/-- Every call of a list that refines a bounded set returns what the set answers. -/
theorem Refines.invoke {list : SkipList Str CInt} {capacity : Int} {pairs : List (Str × CInt)}
    (refines : list.Refines capacity pairs) (call : Call) :
    ∃ next, list.invoke call = .ok ((BoundedSet.invoke signedCount capacity pairs call).1, next) ∧
      next.Refines capacity (BoundedSet.invoke signedCount capacity pairs call).2 := by
  cases call with
  | insertElement ele score draws =>
      obtain ⟨next, returned, still⟩ := refines.insertElement ele score draws
      exact ⟨next, by rw [SkipList.invoke, returned]; rfl, still⟩
  | deleteElement ele =>
      obtain ⟨next, returned, still⟩ := refines.deleteElement ele
      exact ⟨next, by rw [SkipList.invoke, returned]; rfl, still⟩
  | searchElement ele =>
      obtain ⟨next, returned, still⟩ := refines.searchElement Subtype.val ele
      exact ⟨next, by rw [SkipList.invoke, returned]; rfl, still⟩
  | length => exact ⟨list, by rw [SkipList.invoke, refines.lengthOf]; rfl, refines⟩
  | save => exact ⟨list, by rw [SkipList.invoke, SkipList.save, refines.members]; rfl, refines⟩

/-- A new list refines the empty set. -/
theorem new_refines [Inhabited K] (maxLevel : Nat) (positive : 0 < maxLevel) (capacity : Int)
    (accepted : 0 ≤ capacity) (uninitialized : V) :
    ∃ list : SkipList K V, new maxLevel capacity uninitialized = .ok list ∧ list.Refines capacity [] := by
  obtain ⟨list, constructed, _, shown⟩ := new_shows (K := K) positive capacity uninitialized
  exact ⟨list, constructed, _, _, _, shown, newView_coherent capacity, rfl, if_neg (not_lt.mpr accepted), rfl⟩

/-- Every run of calls answers as the bounded set does, with the cardinality as a signed 32-bit integer. -/
theorem invoke_refines (maxLevel : Nat) (positive : 0 < maxLevel) (capacity : Int) (accepted : 0 ≤ capacity)
    (uninitialized : CInt) (calls : List Call) :
    ∃ final, (do
        let list ← new maxLevel capacity uninitialized
        run SkipList.invoke list calls) =
      .ok ((abstractRun (BoundedSet.invoke signedCount capacity) [] calls).1, final) := by
  obtain ⟨list, constructed, refines⟩ := new_refines (K := Str) maxLevel positive capacity accepted uninitialized
  obtain ⟨final, returned, _⟩ := run_simulation SkipList.invoke (BoundedSet.invoke signedCount capacity)
    (Refines capacity) (fun state model call related => related.invoke call) list [] calls refines
  exact ⟨final, by rw [constructed, Exec.ok_bind, returned]⟩

theorem invoke_refines_evicting :
    ∃ final, (do
        let list ← new (K := Str) (V := CInt) 6 1 ⟨0, by decide⟩
        run SkipList.invoke list [.insertElement (bytes "a") ⟨1, by decide⟩ [0],
          .insertElement (bytes "b") ⟨2, by decide⟩ [], .searchElement (bytes "a"), .length, .save]) =
      .ok ((abstractRun (BoundedSet.invoke signedCount 1) []
        [.insertElement (bytes "a") ⟨1, by decide⟩ [0], .insertElement (bytes "b") ⟨2, by decide⟩ [],
          .searchElement (bytes "a"), .length, .save]).1, final) :=
  invoke_refines 6 (by decide) 1 (by decide) ⟨0, by decide⟩ _

omit [LinearOrder V] in
theorem insertElement_absent {pairs : List (K × V)} {ele : K} (absent : ele ∉ pairs.map Prod.fst) (capacity : Int)
    (score : V) : BoundedSet.insertElement capacity pairs ele score =
      (1, (ele, score) :: makeRoom capacity pairs) := by
  rw [BoundedSet.insertElement, lookup_eq_none.mpr absent]

/-- The insertion of numbered elements, as calls. -/
def numberedCalls (score : CInt) (count : Nat) : List Call :=
  (List.range count).map fun index => .insertElement (digitsText index) score []

theorem numberedCalls_pairs (convert : Nat → Int) (score : CInt) (count : Nat) :
    (abstractRun (BoundedSet.invoke convert 0) [] (numberedCalls score count)).2.length = count ∧
      ∀ pair ∈ (abstractRun (BoundedSet.invoke convert 0) [] (numberedCalls score count)).2,
        ∃ index < count, pair.1 = digitsText index := by
  induction count with
  | zero => exact ⟨rfl, by simp [numberedCalls, abstractRun]⟩
  | succ count ih =>
      obtain ⟨length, named⟩ := ih
      generalize pairsEq : (abstractRun (BoundedSet.invoke convert 0) [] (numberedCalls score count)).2 = pairs at *
      have absent : digitsText count ∉ pairs.map Prod.fst := by
        intro member
        obtain ⟨pair, present, same⟩ := List.mem_map.mp member
        obtain ⟨index, inside, equal⟩ := named pair present
        exact absurd (digitsText_injective (equal.symm.trans same)) (Nat.ne_of_lt inside)
      have last : (abstractRun (BoundedSet.invoke convert 0) [] (numberedCalls score (count + 1))).2 =
          (digitsText count, score) :: pairs := by
        rw [numberedCalls, List.range_succ, List.map_append, abstractRun_append]
        have inserted : BoundedSet.insertElement 0 pairs (digitsText count) score =
            (1, (digitsText count, score) :: pairs) := by
          rw [insertElement_absent absent, makeRoom, if_neg (by simp [Full])]
        exact (congrArg (fun pairs => (BoundedSet.insertElement 0 pairs (digitsText count) score).2) pairsEq).trans
          (congrArg Prod.snd inserted)
      rw [last]
      refine ⟨by rw [List.length_cons, length], ?_⟩
      intro pair member
      rcases List.mem_cons.mp member with rfl | old
      · exact ⟨count, Nat.lt_succ_self count, rfl⟩
      · obtain ⟨index, inside, same⟩ := named pair old
        exact ⟨index, Nat.lt_succ_of_lt inside, same⟩

/-- The answer of `Length` for 2 ^ 31 members is not their number. -/
theorem length_of_many_negative :
    ∃ outputs final, (do
        let list ← new (K := Str) (V := CInt) 1 0 ⟨0, by decide⟩
        run SkipList.invoke list (numberedCalls ⟨0, by decide⟩ (2 ^ 31) ++ [Call.length])) = .ok (outputs, final) ∧
      outputs ≠ (abstractRun (BoundedSet.invoke Int.ofNat 0) []
        (numberedCalls ⟨0, by decide⟩ (2 ^ 31) ++ [Call.length])).1 := by
  obtain ⟨list, constructed, refines⟩ := new_refines (K := Str) 1 (by decide) 0 le_rfl
    (⟨0, by decide⟩ : CInt)
  obtain ⟨final, returned, _⟩ := run_simulation SkipList.invoke (BoundedSet.invoke signedCount 0) (Refines 0)
    (fun state model call related => related.invoke call) list []
    (numberedCalls ⟨0, by decide⟩ (2 ^ 31) ++ [Call.length]) refines
  refine ⟨_, final, by rw [constructed, Exec.ok_bind, returned], ?_⟩
  intro same
  have last := congrArg List.getLast? same
  rw [abstractRun_last, abstractRun_last, Option.some.injEq, BoundedSet.invoke, BoundedSet.invoke,
    (numberedCalls_pairs signedCount _ _).1, (numberedCalls_pairs Int.ofNat _ _).1, Answer.number.injEq] at last
  exact absurd last (by decide)

end SkipList

end MySkipList
