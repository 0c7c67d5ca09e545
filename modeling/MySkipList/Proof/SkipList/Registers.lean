import MySkipList.Proof.SkipList.Loading
import MySkipList.Specification.Register

namespace MySkipList

open Foundation

namespace BoundedSet
variable {K V : Type} [LinearOrder K]

/-- The score that the pairs hold for an element. -/
def stored (pairs : List (K × V)) (ele : K) : Option V := pairs.lookup ele

theorem stored_concat (pairs : List (K × V)) (pair : K × V) (ele : K) :
    stored (pairs ++ [pair]) ele = (stored pairs ele).or (if ele = pair.1 then some pair.2 else none) := by
  rw [stored, List.lookup_append, stored, List.lookup_cons]
  by_cases same : ele = pair.1
  · simp [same]
  · rw [beq_false_of_ne same, if_neg same]
    rfl

theorem lookup_forget (key query : K) (pairs : List (K × V)) :
    (forget key pairs).lookup query = if query = key then none else pairs.lookup query := by
  induction pairs with
  | nil => simp [forget]
  | cons pair rest ih =>
      rw [forget] at ih ⊢
      by_cases own : pair.1 = key
      · rw [List.filter_cons_of_neg (by simp [own]), ih, List.lookup_cons]
        by_cases same : query = key
        · rw [if_pos same, if_pos same]
        · rw [if_neg same, if_neg same, beq_false_of_ne (own ▸ same)]
      · rw [List.filter_cons_of_pos (by simp [own]), List.lookup_cons, List.lookup_cons, ih]
        by_cases same : query = pair.1
        · simp [same, own]
        · rw [beq_false_of_ne same]

/-- Without a bound an insertion writes one register. -/
theorem insertElement_lookup (pairs : List (K × V)) (ele query : K) (score : V) :
    (insertElement 0 pairs ele score).2.lookup query = Function.update (stored pairs) ele (some score) query := by
  have room : makeRoom 0 pairs = pairs := if_neg (by simp [Full])
  have written : (insertElement 0 pairs ele score).2.lookup query =
      if query = ele then some score else pairs.lookup query := by
    rw [insertElement]
    cases pairs.lookup ele with
    | some old =>
        dsimp only
        rw [List.lookup_cons, lookup_forget]
        by_cases same : query = ele
        · simp [same]
        · rw [beq_false_of_ne same, if_neg same, if_neg same]
    | none =>
        dsimp only
        rw [room, List.lookup_cons]
        by_cases same : query = ele
        · simp [same]
        · rw [beq_false_of_ne same, if_neg same]
  rw [written, Function.update_apply]
  rfl

theorem deleteElement_lookup (pairs : List (K × V)) (ele query : K) :
    (deleteElement pairs ele).2.lookup query = Function.update (stored pairs) ele none query := by
  rw [deleteElement, Function.update_apply]
  cases found : pairs.lookup ele with
  | some old => exact lookup_forget ele query pairs
  | none =>
      dsimp only
      by_cases same : query = ele
      · rw [if_pos same, same, found]
      · rw [if_neg same]
        rfl

theorem searchElement_lookup (toInt : V → Int) (pairs : List (K × V)) (ele query : K) :
    (searchElement toInt pairs ele).2.lookup query = pairs.lookup query := by
  rw [searchElement]
  cases found : pairs.lookup ele with
  | some score =>
      dsimp only
      rw [List.lookup_cons, lookup_forget]
      by_cases same : query = ele
      · simp [same, found]
      · rw [beq_false_of_ne same, if_neg same]
  | none => rfl

end BoundedSet

namespace SkipList
variable {K V : Type} [LinearOrder K] [LinearOrder V] {list : SkipList K V} {registers : K → Option V}

/-- A call about one element on the list. -/
def access (toInt : V → Int) (list : SkipList K V) (call : Access K V) : Exec (Int × SkipList K V) :=
  list.operate toInt call.operation

/-- The unbounded list holds the registers. -/
def Remembers (list : SkipList K V) (registers : K → Option V) : Prop :=
  ∃ pairs, list.Refines 0 pairs ∧ BoundedSet.stored pairs = registers

/-- Every call returns what the register of its element answers, and it changes no other register. -/
theorem Remembers.access (holds : list.Remembers registers) (toInt : V → Int) (call : Access K V) :
    ∃ next, SkipList.access toInt list call = .ok ((Register.step toInt registers call).1, next) ∧
      next.Remembers (Register.step toInt registers call).2 := by
  obtain ⟨pairs, refines, rfl⟩ := holds
  cases call with
  | insertElement ele score draws =>
      obtain ⟨next, returned, still⟩ := refines.insertElement ele score draws
      refine ⟨next, ?_, _, still, funext fun query => BoundedSet.insertElement_lookup pairs ele query score⟩
      rw [SkipList.access, Access.operation, operate, returned, BoundedSet.insertElement]
      cases found : pairs.lookup ele <;>
        simp [Register.step, keyedStep, Register.serve, Access.ele, BoundedSet.stored, found]
  | deleteElement ele =>
      obtain ⟨next, returned, still⟩ := refines.deleteElement ele
      refine ⟨next, ?_, _, still, funext fun query => BoundedSet.deleteElement_lookup pairs ele query⟩
      rw [SkipList.access, Access.operation, operate, returned, BoundedSet.deleteElement]
      cases found : pairs.lookup ele <;>
        simp [Register.step, keyedStep, Register.serve, Access.ele, BoundedSet.stored, found]
  | searchElement ele =>
      obtain ⟨next, returned, still⟩ := refines.searchElement toInt ele
      refine ⟨next, ?_, _, still, funext fun query => ?_⟩
      · rw [SkipList.access, Access.operation, operate, returned, BoundedSet.searchElement]
        cases found : pairs.lookup ele <;>
          simp [Register.step, keyedStep, Register.serve, Access.ele, BoundedSet.stored, found]
      · rw [BoundedSet.stored, BoundedSet.searchElement_lookup]
        exact congrFun (Function.update_eq_self ele (BoundedSet.stored pairs)).symm query

/-- A run of calls on a new unbounded list returns what the registers answer. -/
theorem run_holds [Inhabited K] (toInt : V → Int) (maxLevel : Nat) (positive : 0 < maxLevel) (uninitialized : V)
    (calls : List (Access K V)) :
    ∃ list final, new maxLevel 0 uninitialized = .ok list ∧
      run (access toInt) list calls = .ok ((abstractRun (Register.step toInt) (fun _ => none) calls).1, final) ∧
      final.Remembers (abstractRun (Register.step toInt) (fun _ => none) calls).2 := by
  obtain ⟨list, constructed, refines⟩ := new_refines (K := K) maxLevel positive 0 le_rfl uninitialized
  obtain ⟨final, returned, holds⟩ := run_simulation (access toInt) (Register.step toInt) Remembers
    (fun state registers call holds => holds.access toInt call) list (fun _ => none) calls ⟨[], refines, rfl⟩
  exact ⟨list, final, constructed, returned, holds⟩

/-- In an unbounded list every element is a register of its own: under every sequence of calls and for all heights of
the nodes, the results of the calls about one element are those of one register under these calls alone. -/
theorem run_registers [Inhabited K] (toInt : V → Int) (maxLevel : Nat) (positive : 0 < maxLevel) (uninitialized : V)
    (calls : List (Access K V)) :
    ∃ results final, (do
        let list ← new maxLevel 0 uninitialized
        run (access toInt) list calls) = .ok (results, final) ∧
      ∀ ele, outputsAt Access.ele ele calls results =
        (abstractRun (Register.serve toInt) none (calls.filter fun call => call.ele = ele)).1 := by
  obtain ⟨list, final, constructed, returned, _⟩ := run_holds toInt maxLevel positive uninitialized calls
  refine ⟨_, final, by rw [constructed, Exec.ok_bind, returned], fun ele => ?_⟩
  exact outputsAt_keyedStep Access.ele (Register.serve toInt) _ ele calls

/-- Two elements of different heights, one of them with a changed score. -/
theorem run_registers_interleaved :
    ∃ results final, (do
        let list ← new (K := Nat) (V := Nat) 6 0 0
        run (access Int.ofNat) list [.insertElement 1 10 [], .insertElement 2 5 [0], .insertElement 1 3 [0, 0],
          .searchElement 2, .deleteElement 2, .searchElement 1]) = .ok (results, final) ∧
      ∀ ele, outputsAt Access.ele ele [.insertElement 1 10 [], .insertElement 2 5 [0], .insertElement 1 3 [0, 0],
          .searchElement 2, .deleteElement 2, .searchElement 1] results =
        (abstractRun (Register.serve Int.ofNat) none (([.insertElement 1 10 [], .insertElement 2 5 [0],
          .insertElement 1 3 [0, 0], .searchElement 2, .deleteElement 2, .searchElement 1] :
            List (Access Nat Nat)).filter fun call => call.ele = ele)).1 :=
  run_registers Int.ofNat 6 (by decide) 0 [.insertElement 1 10 [], .insertElement 2 5 [0], .insertElement 1 3 [0, 0],
    .searchElement 2, .deleteElement 2, .searchElement 1]

/-- The search in an unbounded list finds the register. -/
theorem Remembers.search (holds : list.Remembers registers) (toInt : V → Int) (ele : K) :
    (list.searchElement toInt ele).map Prod.fst = .ok ((registers ele).elim (-1) toInt) := by
  obtain ⟨next, returned, _⟩ := holds.access toInt (.searchElement ele)
  have searched : list.searchElement toInt ele = .ok ((registers ele).elim (-1) toInt, next) := returned
  rw [searched]
  rfl

theorem Remembers.insert (holds : list.Remembers registers) (ele : K) (score : V) (draws : List Nat) :
    ∃ result next, list.insertElement ele score draws = .ok (result, next) ∧
      next.Remembers fun query => (if query = ele then some score else none).or (registers query) := by
  obtain ⟨next, returned, still⟩ := holds.access (fun _ => 0) (.insertElement ele score draws)
  refine ⟨_, next, returned, (congrArg next.Remembers (funext fun query => ?_)).mp still⟩
  by_cases same : query = ele
  · simp [Register.step, keyedStep, Register.serve, Access.ele, same]
  · simp [Register.step, keyedStep, Register.serve, Access.ele, same]

/-- The insertions of pairs one after the other leave the last score of each element. -/
theorem Remembers.insertAll {list inserted : SkipList Str CInt} {registers : Str → Option CInt}
    (holds : list.Remembers registers) (draws : Nat → List Nat) {pairs : List (Str × CInt)}
    (returned : SkipList.insertAll draws pairs list = .ok inserted) :
    inserted.Remembers fun ele => (BoundedSet.stored pairs.reverse ele).or (registers ele) := by
  induction pairs generalizing list registers with
  | nil =>
      obtain rfl : list = inserted := Except.ok.inj returned
      exact holds
  | cons pair rest ih =>
      obtain ⟨result, next, first, still⟩ := holds.insert pair.1 pair.2 (draws rest.length)
      rw [SkipList.insertAll, first, Exec.ok_bind] at returned
      refine (congrArg inserted.Remembers (funext fun ele => ?_)).mp (ih still returned)
      rw [List.reverse_cons, BoundedSet.stored_concat, Option.or_assoc]

/-- A load into an unbounded list in use merges the file into it: an element of the file gets the score of its last
well-formed line, and every other element keeps what it had. -/
theorem loadFile_merges (maxLevel : Nat) (positive : 0 < maxLevel) (uninitialized : CInt)
    (calls : List (Access Str CInt)) (draws : Nat → List Nat) (file : Str) :
    ∃ results list loaded, (do
        let list ← new maxLevel 0 uninitialized
        run (access Subtype.val) list calls) = .ok (results, list) ∧
      list.loadFile draws file = .ok loaded ∧
      ∀ ele, (loaded.searchElement Subtype.val ele).map Prod.fst =
        match BoundedSet.stored ((lines file).filterMap parsed).reverse ele with
        | some score => .ok score.val
        | none => (list.searchElement Subtype.val ele).map Prod.fst := by
  obtain ⟨fresh, list, constructed, returned, pairs, refines, _⟩ :=
    run_holds (K := Str) Subtype.val maxLevel positive uninitialized calls
  obtain ⟨loaded, inserted, final, read, folded, result, result'⟩ :=
    refines.loadLines refines draws draws (lines file) [] [] (by simp [requested])
  refine ⟨_, list, loaded, by rw [constructed, Exec.ok_bind, returned], read, fun ele => ?_⟩
  have before : list.Remembers (BoundedSet.stored pairs) := ⟨pairs, refines, rfl⟩
  have merged : loaded.Remembers (BoundedSet.stored final) := ⟨final, result, rfl⟩
  obtain ⟨others, same, registers⟩ := before.insertAll draws folded
  obtain rfl : others = final := same.recency.symm.trans result'.recency
  rw [merged.search, before.search, registers]
  dsimp only
  cases BoundedSet.stored ((lines file).filterMap parsed).reverse ele <;> rfl

/-- The second line of `a` wins over the first one and over the list, and `b` keeps its score. -/
theorem loadFile_merges_twice :
    ∃ results list loaded, (do
        let list ← new (K := Str) (V := CInt) 6 0 ⟨0, by decide⟩
        run (access Subtype.val) list [.insertElement (bytes "a") ⟨1, by decide⟩ [],
          .insertElement (bytes "b") ⟨2, by decide⟩ [0]]) = .ok (results, list) ∧
      list.loadFile (fun _ => []) (bytes "a:5\n:9\nc:3\na:7\n") = .ok loaded ∧
      ∀ ele, (loaded.searchElement Subtype.val ele).map Prod.fst =
        match BoundedSet.stored ((lines (bytes "a:5\n:9\nc:3\na:7\n")).filterMap parsed).reverse ele with
        | some score => .ok score.val
        | none => (list.searchElement Subtype.val ele).map Prod.fst :=
  loadFile_merges 6 (by decide) ⟨0, by decide⟩ [.insertElement (bytes "a") ⟨1, by decide⟩ [],
    .insertElement (bytes "b") ⟨2, by decide⟩ [0]] (fun _ => []) (bytes "a:5\n:9\nc:3\na:7\n")

end SkipList

end MySkipList
