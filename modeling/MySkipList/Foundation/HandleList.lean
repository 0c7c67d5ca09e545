import MySkipList.Foundation.Execution

namespace MySkipList.Foundation

/-- A handle is a stable iterator: it names one entry wherever the entry moves. -/
abbrev Handle := Nat

/-- A linked list with stable handles. The erased entries keep the contents that a read
through a stale handle still sees. -/
structure HandleList (A : Type) where
  entries : List (Handle × A)
  erased : List (Handle × A)
  next : Nat
  below : ∀ entry ∈ entries, entry.1 < next
  distinct : (entries.map Prod.fst).Nodup

namespace HandleList
variable {A : Type}

def empty : HandleList A := ⟨[], [], 0, by simp, by simp⟩

/-- The list without one handle. -/
def without (list : HandleList A) (handle : Handle) : List (Handle × A) :=
  list.entries.filter fun entry => entry.1 ≠ handle

theorem without_sublist (list : HandleList A) (handle : Handle) :
    (list.without handle).Sublist list.entries := List.filter_sublist

theorem without_fresh (list : HandleList A) (handle : Handle) :
    handle ∉ (list.without handle).map Prod.fst := by
  simp [without]

/-- A read of a handle that is not in the list is a fault. -/
def read (list : HandleList A) (handle : Handle) : Exec A :=
  match list.entries.lookup handle with
  | some value => pure value
  | none => throw .danglingPointer

/-- A read through a stale handle sees the contents that the entry had when it was erased. -/
def readErased (list : HandleList A) (handle : Handle) : Exec A :=
  match list.erased.lookup handle with
  | some value => pure value
  | none => throw .danglingPointer

/-- The insertion at the front gives the entry a new handle. -/
def pushFront (list : HandleList A) (value : A) : HandleList A where
  entries := (list.next, value) :: list.entries
  erased := list.erased
  next := list.next + 1
  below entry member := by
    rcases List.mem_cons.mp member with same | later
    · simp [same]
    · exact Nat.lt_succ_of_lt (list.below entry later)
  distinct := by
    rw [List.map_cons, List.nodup_cons]
    refine ⟨?_, list.distinct⟩
    intro member
    obtain ⟨entry, present, same⟩ := List.mem_map.mp member
    exact Nat.ne_of_lt (list.below entry present) same

/-- The handle before the end; an empty list has none. -/
def back (list : HandleList A) : Exec Handle :=
  match list.entries.getLast? with
  | some entry => pure entry.1
  | none => throw .outOfBounds

/-- The removal keeps the other entries in their order. -/
def erase (list : HandleList A) (handle : Handle) : Exec (HandleList A) := do
  let value ← list.read handle
  pure
    { entries := list.without handle
      erased := (handle, value) :: list.erased
      next := list.next
      below := fun entry member => list.below entry ((list.without_sublist handle).subset member)
      distinct := list.distinct.sublist ((list.without_sublist handle).map _) }

theorem mem_of_lookup {list : HandleList A} {handle : Handle} {value : A}
    (found : list.entries.lookup handle = some value) : (handle, value) ∈ list.entries := by
  obtain ⟨before, after, split, _⟩ := List.lookup_eq_some_iff.mp found
  simp [split]

/-- The entry moves to the front and keeps its handle. -/
def splice (list : HandleList A) (handle : Handle) : Exec (HandleList A) :=
  match found : list.entries.lookup handle with
  | some value => pure
      { entries := (handle, value) :: list.without handle
        erased := list.erased
        next := list.next
        below := fun entry member => by
          rcases List.mem_cons.mp member with same | later
          · rw [same]
            exact list.below _ (mem_of_lookup found)
          · exact list.below entry ((list.without_sublist handle).subset later)
        distinct := by
          rw [List.map_cons, List.nodup_cons]
          exact ⟨list.without_fresh handle,
            list.distinct.sublist ((list.without_sublist handle).map _)⟩ }
  | none => throw .danglingPointer

/-- The entry takes a new value in its place. -/
def write (list : HandleList A) (handle : Handle) (value : A) : Exec (HandleList A) := do
  let _ ← list.read handle
  pure
    { entries := list.entries.map fun entry => (entry.1, if entry.1 = handle then value else entry.2)
      erased := list.erased
      next := list.next
      below := fun entry member => by
        obtain ⟨old, present, same⟩ := List.mem_map.mp member
        rw [← same]
        exact list.below old present
      distinct := by
        rw [List.map_map]
        exact list.distinct }

/-- Two entries with one handle are the same entry. -/
theorem entry_unique (list : HandleList A) {handle : Handle} {first second : A}
    (one : (handle, first) ∈ list.entries) (two : (handle, second) ∈ list.entries) : first = second :=
  congrArg Prod.snd (List.inj_on_of_nodup_map list.distinct one two rfl)

theorem lookup_of_mem {list : HandleList A} {handle : Handle} {value : A}
    (member : (handle, value) ∈ list.entries) : list.entries.lookup handle = some value := by
  cases found : list.entries.lookup handle with
  | none =>
      have missing := List.lookup_eq_none_iff.mp found (handle, value) member
      simp at missing
  | some other => rw [list.entry_unique (mem_of_lookup found) member]

theorem read_of_mem {list : HandleList A} {handle : Handle} {value : A}
    (member : (handle, value) ∈ list.entries) : list.read handle = .ok value := by
  simp [read, lookup_of_mem member]

/-- The erasure of a live handle removes its entry and keeps its last contents readable. -/
theorem erase_of_mem {list : HandleList A} {handle : Handle} {value : A}
    (member : (handle, value) ∈ list.entries) :
    ∃ rest, list.erase handle = .ok rest ∧ rest.entries = list.without handle ∧
      rest.readErased handle = .ok value := by
  rw [erase, read_of_mem member]
  refine ⟨_, rfl, rfl, ?_⟩
  simp [readErased]

/-- The erased handle is not in the list any more. -/
theorem read_of_erase {list rest : HandleList A} {handle : Handle} (erased : list.erase handle = .ok rest) :
    rest.read handle = .error .danglingPointer := by
  obtain ⟨value, _, removed⟩ := (Exec.bind_eq_ok _ _ _).mp erased
  obtain rfl := Except.ok.inj removed
  have missing : (list.without handle).lookup handle = none := by
    rw [List.lookup_eq_none_iff]
    intro entry member
    have other : entry.1 ≠ handle := by simpa using (List.mem_filter.mp member).2
    simpa using other.symm
  simp [read, missing]

/-- The handle before the end belongs to the last entry. -/
theorem without_back {list : HandleList A} {handle : Handle} (ends : list.back = .ok handle) :
    list.without handle = list.entries.dropLast := by
  rw [back] at ends
  split at ends
  · rename_i entry final
    obtain rfl := Except.ok.inj ends
    obtain ⟨front, split⟩ := List.getLast?_eq_some_iff.mp final
    have distinct := list.distinct
    rw [split, List.map_append, List.nodup_append'] at distinct
    have others : ∀ other ∈ front, other.1 ≠ entry.1 := fun other member same =>
      distinct.2.2 (List.mem_map_of_mem member) (by simp [same])
    rw [without, split, List.dropLast_concat, List.filter_append, List.filter_eq_self.mpr (by simpa using others)]
    simp
  · cases ends

/-- The splice of a live handle moves its entry to the front. -/
theorem splice_of_mem {list : HandleList A} {handle : Handle} {value : A}
    (member : (handle, value) ∈ list.entries) :
    ∃ moved, list.splice handle = .ok moved ∧ moved.entries = (handle, value) :: list.without handle := by
  have found := lookup_of_mem member
  unfold splice
  split
  · rename_i other present
    obtain rfl : other = value := Option.some.inj (present.symm.trans found)
    exact ⟨_, rfl, rfl⟩
  · rename_i missing
    simp [missing] at found

/-- The write through a live handle changes the value of its entry only. -/
theorem write_of_mem {list : HandleList A} {handle : Handle} {old : A} (value : A)
    (member : (handle, old) ∈ list.entries) :
    ∃ changed, list.write handle value = .ok changed ∧ (handle, value) ∈ changed.entries ∧
      changed.without handle = list.without handle := by
  rw [write, read_of_mem member]
  refine ⟨_, rfl, ?_, ?_⟩
  · exact List.mem_map.mpr ⟨_, member, by simp⟩
  · simp only [without, List.filter_map, Function.comp_def]
    conv_rhs => rw [← List.map_id (List.filter _ list.entries)]
    apply List.map_congr_left
    intro entry present
    have other : entry.1 ≠ handle := by simpa using (List.mem_filter.mp present).2
    simp [other]

end HandleList

end MySkipList.Foundation
