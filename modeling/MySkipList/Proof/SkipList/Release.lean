import MySkipList.Proof.SkipList.Operations

namespace MySkipList.SkipList

open Foundation

variable {K V : Type}

/-- The backward pointers lead from the start through these nodes to null. -/
def BackwardChain (heap : Heap (SkipListNode K V)) : Option Ref → List Ref → Prop
  | start, [] => start = none
  | start, ref :: rest => start = some ref ∧ ∃ node, heap.cells ref = some node ∧ BackwardChain heap node.backward rest

/-- The backward pointers lead from the tail to null, through each node once and past the header. -/
def Releasable (list : SkipList K V) : Prop :=
  ∃ refs, BackwardChain list.heap list.tail refs ∧ refs.Nodup ∧ list.header ∉ refs

section Chains
variable {heap other : Heap (SkipListNode K V)} {start : Option Ref} {refs : List Ref}

theorem BackwardChain.congr (chain : BackwardChain heap start refs)
    (same : ∀ ref ∈ refs, other.cells ref = heap.cells ref) : BackwardChain other start refs := by
  induction refs generalizing start with
  | nil => exact chain
  | cons ref rest ih =>
      obtain ⟨starts, node, live, next⟩ := chain
      refine ⟨starts, node, ?_, ih next fun later member => same later (List.mem_cons_of_mem ref member)⟩
      rw [same ref (List.mem_cons_self ..), live]

theorem BackwardChain.live (chain : BackwardChain heap start refs) {ref : Ref} (member : ref ∈ refs) :
    ∃ node, heap.cells ref = some node := by
  induction refs generalizing start with
  | nil => simp at member
  | cons first rest ih =>
      obtain ⟨_, node, live, next⟩ := chain
      rcases List.mem_cons.mp member with rfl | later
      · exact ⟨node, live⟩
      · exact ih next later

/-- The backward pointers lead one way only. -/
theorem BackwardChain.unique {others : List Ref} (chain : BackwardChain heap start refs)
    (other : BackwardChain heap start others) : refs = others := by
  induction refs generalizing start others with
  | nil =>
      obtain rfl : start = none := chain
      cases others with
      | nil => rfl
      | cons second rest => exact absurd other.1 (Option.some_ne_none _).symm
  | cons ref rest ih =>
      obtain ⟨rfl, node, live, next⟩ := chain
      cases others with
      | nil => exact absurd other (Option.some_ne_none _)
      | cons second others =>
          obtain ⟨same, node', live', next'⟩ := other
          obtain rfl : ref = second := Option.some.inj same
          obtain rfl : node = node' := Option.some.inj (live.symm.trans live')
          rw [ih next next']

/-- The loop of the destructor releases the nodes of the chain and no other node. -/
theorem BackwardChain.releaseNodes (chain : BackwardChain heap start refs) (distinct : refs.Nodup) {fuel : Nat}
    (enough : refs.length < fuel) :
    ∃ final, SkipList.releaseNodes fuel start heap = .ok final ∧
      (∀ ref, ref ∉ refs → final.cells ref = heap.cells ref) ∧ ∀ ref ∈ refs, final.cells ref = none := by
  induction refs generalizing heap start fuel with
  | nil =>
      obtain ⟨fuel, rfl⟩ := Nat.exists_eq_add_one_of_ne_zero (Nat.ne_zero_of_lt enough)
      obtain rfl : start = none := chain
      exact ⟨heap, rfl, fun _ _ => rfl, by simp⟩
  | cons ref rest ih =>
      obtain ⟨fuel, rfl⟩ := Nat.exists_eq_add_one_of_ne_zero (Nat.ne_zero_of_lt enough)
      obtain ⟨fresh, distinct⟩ := List.nodup_cons.mp distinct
      obtain ⟨rfl, node, live, next⟩ := chain
      have shorter : BackwardChain (heap.discard ref) node.backward rest :=
        next.congr fun later member => heap.discard_of_ne fun same => fresh (same ▸ member)
      obtain ⟨final, released, kept, dead⟩ := ih shorter distinct (Nat.lt_of_succ_lt_succ enough)
      refine ⟨final, ?_, ?_, List.forall_mem_cons.mpr ⟨?_, dead⟩⟩
      · rw [SkipList.releaseNodes, Heap.read_of_live live, Exec.ok_bind, Heap.free_of_live live, Exec.ok_bind, released]
      · intro query outside
        obtain ⟨different, later⟩ := not_or.mp fun member => outside (List.mem_cons.mpr member)
        rw [kept query later, heap.discard_of_ne different]
      · rw [kept ref fresh, heap.discard_self]

/-- A loop that returns has followed a chain without repetitions, and it revives no node. -/
theorem chain_of_releaseNodes {fuel : Nat} {final : Heap (SkipListNode K V)}
    (released : SkipList.releaseNodes fuel start heap = .ok final) :
    (∃ refs, BackwardChain heap start refs ∧ refs.Nodup ∧ ∀ ref ∈ refs, final.cells ref = none) ∧
      ∀ ref, heap.cells ref = none → final.cells ref = none := by
  induction fuel generalizing heap start with
  | zero => simp [SkipList.releaseNodes] at released
  | succ fuel ih =>
      cases start with
      | none =>
          obtain rfl : heap = final := Except.ok.inj released
          exact ⟨⟨[], rfl, List.nodup_nil, by simp⟩, fun _ dead => dead⟩
      | some curr =>
          obtain ⟨node, read, freed⟩ := (Exec.bind_eq_ok _ _ _).mp released
          have live := Heap.read_eq_ok.mp read
          rw [Heap.free_of_live live, Exec.ok_bind] at freed
          obtain ⟨⟨refs, chain, distinct, dead⟩, stays⟩ := ih freed
          have fresh : curr ∉ refs := by
            intro member
            obtain ⟨other, alive⟩ := chain.live member
            simp at alive
          refine ⟨⟨curr :: refs, ⟨rfl, node, live, ?_⟩, List.nodup_cons.mpr ⟨fresh, distinct⟩, ?_⟩, ?_⟩
          · refine chain.congr fun ref member => (heap.discard_of_ne ?_).symm
            rintro rfl
            exact fresh member
          · intro ref member
            rcases List.mem_cons.mp member with rfl | later
            · exact stays ref (heap.discard_self ref)
            · exact dead ref later
          · intro ref gone
            apply stays
            by_cases same : ref = curr
            · rw [same, heap.discard_self]
            · rw [heap.discard_of_ne same, gone]

end Chains

/-- The destructor of a list with a live header returns exactly when the list is releasable. -/
theorem destroy_returns_iff {list : SkipList K V} {header : SkipListNode K V}
    (live : list.heap.cells list.header = some header) :
    (∃ heap, list.destroy = .ok heap) ↔ list.Releasable := by
  constructor
  · rintro ⟨heap, destroyed⟩
    obtain ⟨middle, released, freed⟩ := (Exec.bind_eq_ok _ _ _).mp destroyed
    obtain ⟨⟨refs, chain, distinct, dead⟩, _⟩ := chain_of_releaseNodes released
    refine ⟨refs, chain, distinct, ?_⟩
    intro member
    simp [Heap.free, dead list.header member] at freed
  · rintro ⟨refs, chain, distinct, outside⟩
    have bound := list.heap.live_length_le refs distinct fun ref member => chain.live member
    obtain ⟨middle, released, kept, _⟩ := chain.releaseNodes distinct (Nat.lt_succ_of_le bound)
    refine ⟨middle.discard list.header, ?_⟩
    rw [destroy, SkipList.turns, released, Exec.ok_bind, Heap.free_of_live ((kept list.header outside).trans live)]

theorem Shows.destroy_returns_iff [LinearOrder K] [LinearOrder V] {list : SkipList K V} {head : Tower K V}
    {towers : List (Tower K V)} {view : View K V} (shown : list.Shows head towers view) :
    (∃ heap, list.destroy = .ok heap) ↔ list.Releasable := by
  obtain ⟨node, stored⟩ := shown.represents.linked.stores (List.mem_cons_self ..)
  have live := stored.live
  rw [shown.represents.headRef] at live
  exact SkipList.destroy_returns_iff live

end MySkipList.SkipList
