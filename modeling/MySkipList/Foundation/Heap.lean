import MySkipList.Foundation.Execution

namespace MySkipList.Foundation

/-- A reference names one allocation for ever. -/
abbrev Ref := Nat

/-- The dereference of a null pointer is a fault. -/
def deref : Option Ref → Exec Ref
  | some ref => pure ref
  | none => throw .nullPointer

/-- The heap holds the live cells, and no reference beyond the frontier is live. -/
structure Heap (A : Type) where
  cells : Ref → Option A
  next : Ref
  fresh : ∀ ref, next ≤ ref → cells ref = none

namespace Heap
variable {A : Type}

@[ext] theorem ext {first second : Heap A} (cells : first.cells = second.cells)
    (next : first.next = second.next) : first = second := by
  cases first
  cases second
  subst cells next
  rfl

def empty : Heap A := ⟨fun _ => none, 0, fun _ _ => rfl⟩

/-- A read of a reference that is not live is a fault. -/
def read (heap : Heap A) (ref : Ref) : Exec A :=
  match heap.cells ref with
  | some value => pure value
  | none => throw .danglingPointer

/-- An allocation takes the reference at the frontier. -/
def alloc (heap : Heap A) (value : A) : Heap A where
  cells := Function.update heap.cells heap.next (some value)
  next := heap.next + 1
  fresh ref beyond := by
    rw [Function.update_of_ne (Nat.ne_of_gt beyond)]
    exact heap.fresh ref (Nat.le_of_succ_le beyond)

/-- An update applies a function to one live cell. -/
def modify (heap : Heap A) (ref : Ref) (change : A → A) : Heap A where
  cells := Function.update heap.cells ref ((heap.cells ref).map change)
  next := heap.next
  fresh other beyond := by
    by_cases same : other = ref
    · subst other
      simp [heap.fresh ref beyond]
    · rw [Function.update_of_ne same]
      exact heap.fresh other beyond

/-- An assignment through a pointer needs a live cell. -/
def assign (heap : Heap A) (ref : Ref) (change : A → A) : Exec (Heap A) :=
  match heap.cells ref with
  | some _ => pure (heap.modify ref change)
  | none => throw .danglingPointer

/-- This transformation ends the life of one cell. -/
def discard (heap : Heap A) (ref : Ref) : Heap A where
  cells := Function.update heap.cells ref none
  next := heap.next
  fresh other beyond := by
    by_cases same : other = ref
    · simp [same]
    · rw [Function.update_of_ne same]
      exact heap.fresh other beyond

/-- A release of a reference that is not live is a double free. -/
def free (heap : Heap A) (ref : Ref) : Exec (Heap A) :=
  match heap.cells ref with
  | some _ => pure (heap.discard ref)
  | none => throw .doubleFree

/-- This transformation applies a function of the reference to every live cell. -/
def mapCells (heap : Heap A) (change : Ref → A → A) : Heap A where
  cells ref := (heap.cells ref).map (change ref)
  next := heap.next
  fresh ref beyond := by simp [heap.fresh ref beyond]

theorem read_of_live {heap : Heap A} {ref : Ref} {value : A} (live : heap.cells ref = some value) :
    heap.read ref = .ok value := by
  simp [read, live]

theorem read_eq_ok {heap : Heap A} {ref : Ref} {value : A} :
    heap.read ref = .ok value ↔ heap.cells ref = some value := by
  unfold read
  cases heap.cells ref <;> simp

/-- A live reference lies below the frontier. -/
theorem live_lt {heap : Heap A} {ref : Ref} {value : A} (live : heap.cells ref = some value) :
    ref < heap.next := by
  by_contra beyond
  simp [heap.fresh ref (Nat.not_lt.mp beyond)] at live

@[simp] theorem alloc_self (heap : Heap A) (value : A) :
    (heap.alloc value).cells heap.next = some value := by
  simp [alloc]

theorem alloc_old {heap : Heap A} {ref : Ref} {old : A} (value : A) (live : heap.cells ref = some old) :
    (heap.alloc value).cells ref = some old := by
  have below := live_lt live
  simp only [alloc]
  rw [Function.update_of_ne (Nat.ne_of_lt below)]
  exact live

@[simp] theorem mapCells_cells (heap : Heap A) (change : Ref → A → A) (ref : Ref) :
    (heap.mapCells change).cells ref = (heap.cells ref).map (change ref) := rfl

/-- Two transformations compose cell by cell. -/
theorem mapCells_mapCells (heap : Heap A) (first second : Ref → A → A) :
    (heap.mapCells first).mapCells second = heap.mapCells fun ref => second ref ∘ first ref := by
  ext1
  · funext ref
    simp
  · rfl

/-- Transformations that agree on the live cells give the same heap. -/
theorem mapCells_congr {heap : Heap A} {first second : Ref → A → A}
    (agree : ∀ ref value, heap.cells ref = some value → first ref value = second ref value) :
    heap.mapCells first = heap.mapCells second := by
  ext1
  · funext ref
    cases live : heap.cells ref with
    | none => simp [live]
    | some value => simp [live, agree ref value live]
  · rfl

/-- A transformation that keeps every value keeps the heap. -/
theorem mapCells_eq_self (heap : Heap A) {change : Ref → A → A} (keeps : ∀ ref value, change ref value = value) :
    heap.mapCells change = heap := by
  ext1
  · funext ref
    cases live : heap.cells ref with
    | none => simp [live]
    | some value => simp [live, keeps]
  · rfl

/-- An update of one cell is a transformation that spares the other cells. -/
theorem modify_eq_mapCells (heap : Heap A) (ref : Ref) (change : A → A) :
    heap.modify ref change = heap.mapCells fun other value => if other = ref then change value else value := by
  ext1
  · funext other
    by_cases same : other = ref
    · subst other
      simp [modify]
    · simp [modify, same]
  · rfl

theorem assign_of_live {heap : Heap A} {ref : Ref} {value : A} (live : heap.cells ref = some value)
    (change : A → A) : heap.assign ref change = .ok (heap.modify ref change) := by
  simp [assign, live]

theorem modify_self {heap : Heap A} {ref : Ref} {value : A} (live : heap.cells ref = some value) (change : A → A) :
    (heap.modify ref change).cells ref = some (change value) := by
  simp [modify, live]

theorem modify_of_ne (heap : Heap A) {ref other : Ref} (different : other ≠ ref) (change : A → A) :
    (heap.modify ref change).cells other = heap.cells other := by
  simp [modify, different]

@[simp] theorem discard_self (heap : Heap A) (ref : Ref) : (heap.discard ref).cells ref = none := by
  simp [discard]

theorem discard_of_ne (heap : Heap A) {ref other : Ref} (different : other ≠ ref) :
    (heap.discard ref).cells other = heap.cells other := by
  simp [discard, different]

/-- A release succeeds on a live cell. -/
theorem free_of_live {heap : Heap A} {ref : Ref} {value : A} (live : heap.cells ref = some value) :
    heap.free ref = .ok (heap.discard ref) := by
  simp [free, live]

/-- The references of the live cells. -/
def live (heap : Heap A) : Finset Ref := (Finset.range heap.next).filter fun ref => (heap.cells ref).isSome

theorem mem_live {heap : Heap A} {ref : Ref} : ref ∈ heap.live ↔ ∃ value, heap.cells ref = some value := by
  rw [live, Finset.mem_filter, Finset.mem_range, Option.isSome_iff_exists, and_iff_right_iff_imp]
  rintro ⟨value, found⟩
  exact live_lt found

@[simp] theorem live_empty : (empty : Heap A).live = ∅ := rfl

@[simp] theorem live_alloc (heap : Heap A) (value : A) : (heap.alloc value).live = insert heap.next heap.live := by
  ext ref
  rw [Finset.mem_insert, mem_live, mem_live, alloc]
  by_cases same : ref = heap.next
  · simp [same]
  · simp [same]

theorem next_notMem_live (heap : Heap A) : heap.next ∉ heap.live := by
  intro member
  obtain ⟨value, found⟩ := mem_live.mp member
  exact Nat.lt_irrefl _ (live_lt found)

@[simp] theorem live_modify (heap : Heap A) (ref : Ref) (change : A → A) : (heap.modify ref change).live = heap.live := by
  ext other
  rw [mem_live, mem_live]
  by_cases same : other = ref
  · subst same
    simp [modify]
  · rw [modify_of_ne heap same]

@[simp] theorem live_discard (heap : Heap A) (ref : Ref) : (heap.discard ref).live = heap.live.erase ref := by
  ext other
  rw [Finset.mem_erase, mem_live, mem_live]
  by_cases same : other = ref
  · simp [same]
  · simp [same, discard_of_ne heap same]

@[simp] theorem live_mapCells (heap : Heap A) (change : Ref → A → A) : (heap.mapCells change).live = heap.live := by
  ext ref
  simp [mem_live]

/-- An assignment keeps the live cells. -/
theorem live_assign {heap final : Heap A} {ref : Ref} {change : A → A} (returned : heap.assign ref change = .ok final) :
    final.live = heap.live := by
  unfold assign at returned
  split at returned
  · rw [← Except.ok.inj returned, live_modify]
  · cases returned

/-- A release takes one live cell away. -/
theorem live_free {heap final : Heap A} {ref : Ref} (returned : heap.free ref = .ok final) :
    ref ∈ heap.live ∧ final.live = heap.live.erase ref := by
  unfold free at returned
  split at returned
  · rename_i value found
    exact ⟨mem_live.mpr ⟨value, found⟩, by rw [← Except.ok.inj returned, live_discard]⟩
  · cases returned

/-- The live cells are at most as many as the allocations. -/
theorem live_length_le (heap : Heap A) (refs : List Ref) (distinct : refs.Nodup)
    (live : ∀ ref ∈ refs, ∃ value, heap.cells ref = some value) : refs.length ≤ heap.next := by
  have inside : refs ⊆ List.range heap.next := by
    intro ref member
    obtain ⟨value, found⟩ := live ref member
    exact List.mem_range.mpr (live_lt found)
  simpa using (distinct.subperm inside).length_le

end Heap

end MySkipList.Foundation
