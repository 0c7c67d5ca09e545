import MySkipList.Proof.LRUCache
import MySkipList.Proof.SkipList.Relink

namespace MySkipList

open Foundation

section Order
variable {K V : Type} [LinearOrder K] [LinearOrder V]

/-- The list order compares the score first and the element second. -/
def Tower.Before (first second : Tower K V) : Prop :=
  first.score < second.score ∨ (first.score = second.score ∧ first.ele < second.ele)

theorem Tower.before_iff_precedes {first second : Tower K V} :
    first.Before second ↔ first.Precedes second.ele second.score := by
  rw [Before, Precedes, eq_comm (a := second.score)]

theorem Tower.Before.irrefl (tower : Tower K V) : ¬ tower.Before tower := by
  simp [Before]

theorem Tower.Before.asymm {first second : Tower K V} (before : first.Before second) : ¬ second.Before first := by
  rintro back
  rcases before with less | ⟨same, less⟩
  · rcases back with other | ⟨other, _⟩
    · exact lt_asymm less other
    · exact absurd less (by simp [other])
  · rcases back with other | ⟨_, other⟩
    · exact absurd other (by simp [same])
    · exact lt_asymm less other

theorem Tower.Before.trans {first second third : Tower K V} (one : first.Before second)
    (two : second.Before third) : first.Before third := by
  rcases one with less | ⟨same, less⟩
  · rcases two with other | ⟨other, _⟩
    · exact Or.inl (lt_trans less other)
    · exact Or.inl (other ▸ less)
  · rcases two with other | ⟨equal, other⟩
    · exact Or.inl (same ▸ other)
    · exact Or.inr ⟨same.trans equal, lt_trans less other⟩

/-- Towers of two elements are comparable. -/
theorem Tower.before_or_before {first second : Tower K V} (different : first.ele ≠ second.ele) :
    first.Before second ∨ second.Before first := by
  rcases lt_trichotomy first.score second.score with less | same | more
  · exact Or.inl (Or.inl less)
  · rcases lt_or_gt_of_ne different with less | more
    · exact Or.inl (Or.inr ⟨same, less⟩)
    · exact Or.inr (Or.inr ⟨same.symm, more⟩)
  · exact Or.inr (Or.inl more)

end Order

namespace SkipList
variable {K V : Type} [LinearOrder K] [LinearOrder V]

/-- The list represents these towers: the heap links them in their order after the header, and the
map and the counter agree with them. -/
structure Represents (list : SkipList K V) (head : Tower K V) (towers : List (Tower K V)) : Prop where
  headRef : head.ref = list.header
  headHeight : head.height = list.maxLevel
  linked : Linked list.heap (head :: towers)
  apart : ∀ tower ∈ towers, tower.ref ≠ head.ref
  sorted : towers.Pairwise Tower.Before
  heights : ∀ tower ∈ towers, 0 < tower.height ∧ tower.height ≤ list.level
  levels : list.level ≤ list.maxLevel
  positive : 0 < list.maxLevel
  distinct : (towers.map Tower.ele).Nodup
  mapped : ∀ ele ref, list.nodeMap.lookup ele = some ref ↔ ∃ tower ∈ towers, tower.ele = ele ∧ tower.ref = ref
  counted : list.length = BitVec.ofNat 32 towers.length

section Represented
variable {list : SkipList K V} {head : Tower K V} {towers front back : List (Tower K V)} {target : Tower K V}

/-- The nodes of the list are pairwise distinct, and none of them is the header. -/
theorem Represents.refs_nodup (rep : list.Represents head towers) :
    ((head :: towers).map Tower.ref).Nodup := by
  rw [List.map_cons, List.nodup_cons]
  constructor
  · intro member
    obtain ⟨tower, present, same⟩ := List.mem_map.mp member
    exact rep.apart tower present same
  · rw [List.Nodup, List.pairwise_map]
    refine rep.sorted.imp_of_mem ?_
    intro first second one two before same
    obtain ⟨node, stored⟩ := rep.linked.stores (List.mem_cons_of_mem head one)
    obtain ⟨other, present⟩ := rep.linked.stores (List.mem_cons_of_mem head two)
    have equal := stored.tower_eq present same
    exact Tower.Before.irrefl second (equal ▸ before)

theorem Represents.nodup (rep : list.Represents head towers) : (head :: towers).Nodup := rep.refs_nodup.of_map

theorem Represents.front_nodup (rep : list.Represents head (front ++ back)) : (head :: front).Nodup :=
  rep.nodup.sublist (by
    rw [← List.cons_append]
    exact List.sublist_append_left ..)

/-- Two towers at one reference are the same tower. -/
theorem Represents.tower_eq (rep : list.Represents head towers) {first second : Tower K V}
    (one : first ∈ head :: towers) (two : second ∈ head :: towers) (same : first.ref = second.ref) :
    first = second := List.inj_on_of_nodup_map rep.refs_nodup one two same

/-- The turn bound exceeds the length of every search. -/
theorem Represents.length_lt_turns (rep : list.Represents head towers) : towers.length < list.turns := by
  have bound := list.heap.live_length_le _ rep.refs_nodup (by
    intro ref member
    obtain ⟨tower, present, rfl⟩ := List.mem_map.mp member
    obtain ⟨node, stored⟩ := rep.linked.stores present
    exact ⟨node, stored.live⟩)
  simp only [List.length_map, List.length_cons] at bound
  exact Nat.lt_succ_of_lt bound

/-- The map misses exactly the elements outside the list. -/
theorem Represents.lookup_none (rep : list.Represents head towers) {ele : K} :
    list.nodeMap.lookup ele = none ↔ ele ∉ towers.map Tower.ele := by
  rw [Option.eq_none_iff_forall_ne_some]
  constructor
  · intro missing member
    obtain ⟨tower, present, same⟩ := List.mem_map.mp member
    exact missing tower.ref ((rep.mapped ele tower.ref).mpr ⟨tower, present, same, rfl⟩)
  · intro absent ref found
    obtain ⟨tower, present, same, _⟩ := (rep.mapped ele ref).mp found
    exact absent (List.mem_map.mpr ⟨tower, present, same⟩)

/-- Every key splits the list into smaller and larger towers. -/
theorem Represents.partition (rep : list.Represents head towers) (ele : K) (score : V) :
    ∃ front back, towers = front ++ back ∧ (∀ tower ∈ front, tower.Precedes ele score) ∧
      ∀ tower ∈ back, ¬ tower.Precedes ele score := by
  have sorted := rep.sorted
  clear rep
  induction towers with
  | nil => exact ⟨[], [], rfl, by simp, by simp⟩
  | cons first rest ih =>
      obtain ⟨earlier, sorted⟩ := List.pairwise_cons.mp sorted
      by_cases passes : first.Precedes ele score
      · obtain ⟨front, back, rfl, smaller, larger⟩ := ih sorted
        exact ⟨first :: front, back, rfl, List.forall_mem_cons.mpr ⟨passes, smaller⟩, larger⟩
      · refine ⟨[], first :: rest, rfl, by simp, List.forall_mem_cons.mpr ⟨passes, ?_⟩⟩
        intro tower member before
        have order : tower.Before ⟨0, 0, ele, score⟩ := Tower.before_iff_precedes.mpr before
        exact passes (Tower.before_iff_precedes.mp ((earlier tower member).trans order))

/-- The list opens a corridor for any key that splits it. -/
theorem Represents.corridor (rep : list.Represents head (front ++ back)) {ele : K} {score : V}
    (smaller : ∀ tower ∈ front, tower.Precedes ele score)
    (larger : ∀ tower ∈ back, ¬ tower.Precedes ele score) :
    Corridor list.heap head front back ele score list.turns where
  linked := rep.linked
  smaller := smaller
  larger := larger
  highest tower member := by
    rw [rep.headHeight]
    exact (rep.heights tower (List.mem_append_left back member)).2.trans rep.levels
  enough := by
    have bound := rep.length_lt_turns
    rw [List.length_append] at bound
    omega

/-- The search may start at the header on the level of the list or above it. -/
theorem Represents.stop_start (rep : list.Represents head (front ++ back)) (level : Nat)
    (high : list.level ≤ level) : stop head front level = head := by
  apply lastAbove_of_short
  intro tower member
  exact (rep.heights tower (List.mem_append_left back member)).2.trans high

theorem Represents.stop_mem (_rep : list.Represents head (front ++ back)) (level : Nat) :
    stop head front level ∈ head :: (front ++ back) :=
  List.mem_append_left back (MySkipList.stop_mem head front level)

/-- A tower behind the key is not a stop of the search. -/
theorem Represents.stop_apart (rep : list.Represents head (front ++ back)) {tower : Tower K V}
    (behind : tower ∈ back) (level : Nat) : tower.ref ≠ (stop head front level).ref := by
  intro same
  have equal := rep.tower_eq (List.mem_cons_of_mem head (List.mem_append_right front behind)) (rep.stop_mem level) same
  have distinct := rep.nodup
  rw [← List.cons_append, List.nodup_append'] at distinct
  exact distinct.2.2 (MySkipList.stop_mem head front level) (equal ▸ behind)

theorem Represents.smaller_of_split (rep : list.Represents head (front ++ target :: back)) :
    ∀ tower ∈ front, tower.Precedes target.ele target.score := by
  intro tower member
  have parts := List.pairwise_append.mp rep.sorted
  exact Tower.before_iff_precedes.mp (parts.2.2 tower member target (by simp))

theorem Represents.larger_of_split (rep : list.Represents head (front ++ target :: back)) :
    ∀ tower ∈ target :: back, ¬ tower.Precedes target.ele target.score := by
  intro tower member
  rw [← Tower.before_iff_precedes]
  have parts := List.pairwise_append.mp rep.sorted
  rcases List.mem_cons.mp member with rfl | later
  · exact Tower.Before.irrefl tower
  · exact ((List.pairwise_cons.mp parts.2.1).1 tower later).asymm

theorem Represents.unique_of_split (rep : list.Represents head (front ++ target :: back)) :
    ∀ tower ∈ front ++ back, tower.ele ≠ target.ele := by
  have distinct := rep.distinct
  rw [List.map_append, List.map_cons, List.nodup_middle, List.nodup_cons, ← List.map_append] at distinct
  intro tower member same
  exact distinct.1 (List.mem_map.mpr ⟨tower, member, same⟩)

end Represented

end SkipList

end MySkipList
