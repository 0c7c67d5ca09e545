import MySkipList.Proof.SkipList.Inclusion

namespace MySkipList

open Foundation

namespace BoundedSet
variable {K V : Type} [LinearOrder K]

/-- The inserted pair becomes the most recent one. -/
theorem insertElement_head (capacity : Int) (pairs : List (K × V)) (ele : K) (score : V) :
    (insertElement capacity pairs ele score).2.head? = some (ele, score) := by
  rw [insertElement]
  split <;> rfl

/-- An insertion of the most recent pair changes nothing. -/
theorem insertElement_again {pairs : List (K × V)} (keyed : Keyed pairs) {ele : K} {score : V}
    (recent : pairs.head? = some (ele, score)) (capacity : Int) :
    (insertElement capacity pairs ele score).2 = pairs := by
  obtain ⟨rest, rfl⟩ := List.head?_eq_some_iff.mp recent
  have absent : ele ∉ rest.map Prod.fst := (List.nodup_cons.mp keyed).1
  have found : ((ele, score) :: rest).lookup ele = some score := by simp
  simp only [insertElement, found]
  rw [forget, List.filter_cons_of_neg (by simp)]
  exact congrArg _ (forget_absent absent)

end BoundedSet

namespace SkipList
variable {list folded : SkipList Str CInt} {capacity : Int} {pairs : List (Str × CInt)}

/-- The insertion that a line asks for. Its key is the nonempty part before the first delimiter, and its value is the
part after it, which `std::stoi` accepts. -/
def parsed (line : Str) : Option (Str × CInt) :=
  let key := line.takeWhile fun byte => byte ≠ delimiter
  let val := (line.dropWhile fun byte => byte ≠ delimiter).drop 1
  if delimiter ∈ line ∧ key ≠ [] then (stoi val).map fun value => (key, value) else none

/-- The insertions of the pairs one after the other, each with its own draws. -/
def insertAll (draws : Nat → List Nat) : List (Str × CInt) → SkipList Str CInt → Exec (SkipList Str CInt)
  | [], list => pure list
  | pair :: rest, list => do
      let (_, list) ← list.insertElement pair.1 pair.2 (draws rest.length)
      insertAll draws rest list

/-- The insertion that `LoadFile` makes from its two buffers. -/
def requested (buffers : Str × Str) : Option (Str × CInt) :=
  if buffers.1 = [] ∨ buffers.2 = [] then none else (stoi buffers.2).map fun value => (buffers.1, value)

theorem loadLines_skip {draws : Nat → List Nat} {line key val : Str} {rest : List Str}
    (nothing : requested (getObjectFromString line key val) = none) :
    loadLines draws (line :: rest) key val list =
      loadLines draws rest (getObjectFromString line key val).1 (getObjectFromString line key val).2 list := by
  rw [loadLines]
  dsimp only
  generalize getObjectFromString line key val = buffers at nothing
  rw [requested] at nothing
  split
  · rfl
  · rename_i filled
    rw [if_neg filled, Option.map_eq_none_iff] at nothing
    rw [nothing]

theorem loadLines_insert {draws : Nat → List Nat} {line key val : Str} {rest : List Str} {pair : Str × CInt}
    (something : requested (getObjectFromString line key val) = some pair) {result : Int} {next : SkipList Str CInt}
    (inserted : list.insertElement pair.1 pair.2 (draws rest.length) = .ok (result, next)) :
    loadLines draws (line :: rest) key val list =
      loadLines draws rest (getObjectFromString line key val).1 (getObjectFromString line key val).2 next := by
  rw [loadLines]
  dsimp only
  generalize getObjectFromString line key val = buffers at something
  rw [requested] at something
  split
  · rename_i empty
    rw [if_pos empty] at something
    cases something
  · rename_i filled
    rw [if_neg filled] at something
    obtain ⟨value, accepted, rfl⟩ := Option.map_eq_some_iff.mp something
    rw [accepted]
    dsimp only
    rw [inserted, Exec.ok_bind]

theorem isValidString_iff (line : Str) : isValidString line = true ↔ delimiter ∈ line := by
  cases line <;> simp [isValidString]

/-- A line with the delimiter asks for what it holds. -/
theorem requested_of_delimited {line : Str} (delimited : delimiter ∈ line) (key val : Str) :
    requested (getObjectFromString line key val) = parsed line := by
  rw [getObjectFromString, if_pos ((isValidString_iff line).mpr delimited), requested, parsed]
  dsimp only
  generalize (line.dropWhile fun byte => byte ≠ delimiter).drop 1 = after
  by_cases named : (line.takeWhile fun byte => byte ≠ delimiter) = []
  · rw [if_pos (Or.inl named), if_neg fun both => both.2 named]
  · rw [if_pos (And.intro delimited named)]
    by_cases empty : after = []
    · rw [if_pos (Or.inr empty), empty]
      rfl
    · rw [if_neg (not_or.mpr ⟨named, empty⟩)]

/-- A line without the delimiter asks again for what the buffers hold, and it is no insertion of its own. -/
theorem requested_of_plain {line : Str} (plain : delimiter ∉ line) (key val : Str) :
    getObjectFromString line key val = (key, val) ∧ parsed line = none := by
  refine ⟨?_, ?_⟩
  · rw [getObjectFromString, if_neg fun valid => plain ((isValidString_iff line).mp valid)]
  · rw [parsed]
    exact if_neg fun both => plain both.1

theorem Refines.keyed (refines : list.Refines capacity pairs) : Keyed pairs := by
  obtain ⟨head, towers, view, shown, coherent, idle, rfl, rfl⟩ := refines
  exact coherent.keyed

/-- The load of the lines and the insertions of the well-formed ones lead to the same pairs. What the buffers ask for
is the most recent pair, so a line without the delimiter repeats an insertion that changes nothing. -/
theorem Refines.loadLines (refines : list.Refines capacity pairs) (refines' : folded.Refines capacity pairs)
    (draws draws' : Nat → List Nat) (read : List Str) (key val : Str)
    (settled : ∀ pair, requested (key, val) = some pair → pairs.head? = some pair) :
    ∃ loaded inserted final, SkipList.loadLines draws read key val list = .ok loaded ∧
      insertAll draws' (read.filterMap parsed) folded = .ok inserted ∧
      loaded.Refines capacity final ∧ inserted.Refines capacity final := by
  induction read generalizing list folded pairs key val with
  | nil => exact ⟨list, folded, pairs, rfl, rfl, refines, refines'⟩
  | cons line rest ih =>
      by_cases delimited : delimiter ∈ line
      · have same := requested_of_delimited delimited key val
        cases asks : parsed line with
        | none =>
            rw [asks] at same
            rw [List.filterMap_cons_none asks, loadLines_skip same]
            refine ih refines refines' _ _ fun pair again => ?_
            rw [same] at again
            cases again
        | some pair =>
            rw [asks] at same
            obtain ⟨next, inserted, still⟩ := refines.insertElement pair.1 pair.2 (draws rest.length)
            obtain ⟨next', inserted', still'⟩ :=
              refines'.insertElement pair.1 pair.2 (draws' (rest.filterMap parsed).length)
            rw [List.filterMap_cons_some asks, loadLines_insert same inserted, insertAll, inserted', Exec.ok_bind]
            refine ih still still' _ _ fun other again => ?_
            rw [same] at again
            rw [← Option.some.inj again, BoundedSet.insertElement_head]
      · obtain ⟨kept, nothing⟩ := requested_of_plain delimited key val
        rw [List.filterMap_cons_none nothing]
        cases asks : requested (key, val) with
        | none =>
            rw [loadLines_skip (kept ▸ asks), kept]
            exact ih refines refines' key val settled
        | some pair =>
            obtain ⟨next, inserted, still⟩ := refines.insertElement pair.1 pair.2 (draws rest.length)
            rw [BoundedSet.insertElement_again refines.keyed (settled pair asks)] at still
            rw [loadLines_insert (kept ▸ asks) inserted, kept]
            exact ih still refines' key val settled

/-- The load of a file into a new list inserts what its well-formed lines hold, in the order of the file. The other
lines have no effect. -/
theorem loadFile_eq_insertAll (maxLevel : Nat) (positive : 0 < maxLevel) (maxCapacity : Int) (uninitialized : CInt)
    (file : Str) (draws draws' : Nat → List Nat) :
    ∃ fresh loaded inserted members, new maxLevel maxCapacity uninitialized = .ok fresh ∧
      fresh.loadFile draws file = .ok loaded ∧
      insertAll draws' ((lines file).filterMap parsed) fresh = .ok inserted ∧
      loaded.members = .ok members ∧ inserted.members = .ok members ∧
      loaded.lruCache.lru.entries.map Prod.snd = inserted.lruCache.lru.entries.map Prod.snd := by
  obtain ⟨fresh, constructed, _, shown⟩ := new_shows (K := Str) positive maxCapacity uninitialized
  have refines : fresh.Refines _ [] := ⟨_, _, _, shown, newView_coherent maxCapacity, rfl, rfl, rfl⟩
  obtain ⟨loaded, inserted, final, returned, folded, result, result'⟩ :=
    refines.loadLines refines draws draws' (lines file) [] [] (by simp [requested])
  refine ⟨fresh, loaded, inserted, BoundedSet.sorted final, constructed, returned, folded, result.members,
    result'.members, ?_⟩
  rw [result.recency, result'.recency]

/-- Five of the seven lines have no effect. -/
theorem loadFile_eq_insertAll_malformed :
    (lines (bytes "a:1\nnoise\n:2\nb:x\n\nb:7:8\nb:99999999999\n")).filterMap parsed =
        [(bytes "a", ⟨1, by decide⟩), (bytes "b", ⟨7, by decide⟩)] ∧
      ∃ fresh loaded inserted members, new (K := Str) (V := CInt) 6 2 ⟨0, by decide⟩ = .ok fresh ∧
        fresh.loadFile (fun _ => [0]) (bytes "a:1\nnoise\n:2\nb:x\n\nb:7:8\nb:99999999999\n") = .ok loaded ∧
        insertAll (fun _ => []) ((lines (bytes "a:1\nnoise\n:2\nb:x\n\nb:7:8\nb:99999999999\n")).filterMap parsed)
          fresh = .ok inserted ∧
        loaded.members = .ok members ∧ inserted.members = .ok members ∧
        loaded.lruCache.lru.entries.map Prod.snd = inserted.lruCache.lru.entries.map Prod.snd :=
  ⟨by decide, loadFile_eq_insertAll 6 (by decide) 2 ⟨0, by decide⟩ _ _ _⟩

end SkipList

end MySkipList
