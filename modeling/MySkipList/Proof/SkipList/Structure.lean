import MySkipList.Foundation.Text
import MySkipList.Proof.SkipList.Operations

namespace MySkipList

open Foundation

/-- The forward pointers of one level lead through these nodes to the null pointer. -/
inductive ForwardChain {K V : Type} (heap : Heap (SkipListNode K V)) (level : Nat) :
    Option Ref → List (Ref × SkipListNode K V) → Prop
  | nil : ForwardChain heap level none []
  | cons {ref : Ref} {node : SkipListNode K V} {rest : List (Ref × SkipListNode K V)}
      (live : heap.cells ref = some node) (reaches : level < node.level)
      (next : ForwardChain heap level (node.forward level) rest) :
      ForwardChain heap level (some ref) ((ref, node) :: rest)

section Chains
variable {K V : Type} {towers : List (Tower K V)}

/-- The node of each tower with its reference. -/
def Houses (heap : Heap (SkipListNode K V)) : List (Tower K V) → List (Ref × SkipListNode K V) → Prop :=
  List.Forall₂ fun tower entry => tower.ref = entry.1 ∧ Stores heap tower entry.2

theorem Linked.houses {heap : Heap (SkipListNode K V)} (linked : Linked heap towers) :
    ∃ nodes, Houses heap towers nodes := by
  induction towers with
  | nil => exact ⟨[], List.Forall₂.nil⟩
  | cons tower rest ih =>
      obtain ⟨nodes, housed⟩ := ih (linked.tail [tower] rest)
      obtain ⟨node, stored⟩ := linked.stores (List.mem_cons_self ..)
      exact ⟨(tower.ref, node) :: nodes, List.Forall₂.cons ⟨rfl, stored⟩ housed⟩

/-- Each level chains exactly the nodes that reach above it. -/
theorem Linked.chain {heap : Heap (SkipListNode K V)} {nodes : List (Ref × SkipListNode K V)}
    (linked : Linked heap towers) (housed : Houses heap towers nodes) (level : Nat) :
    ForwardChain heap level ((firstAbove Tower.height level towers).map Tower.ref)
      (nodes.filter fun entry => level < entry.2.level) := by
  induction housed with
  | nil => exact .nil
  | @cons tower entry towers nodes here housed ih =>
      have later := ih (linked.tail [tower] towers)
      rcases entry with ⟨ref, node⟩
      obtain ⟨same, stored⟩ := here
      obtain rfl : tower.ref = ref := same
      rw [firstAbove_cons]
      by_cases tall : level < tower.height
      · have reaches : level < node.level := stored.level ▸ tall
        rw [if_pos tall, List.filter_cons_of_pos (by simpa using reaches)]
        obtain ⟨other, present, links⟩ := linked [] tower towers rfl
        obtain rfl : other = node := Option.some.inj (present.live.symm.trans stored.live)
        refine .cons stored.live reaches ?_
        rw [links level tall]
        exact later
      · have short : ¬ level < node.level := stored.level ▸ tall
        rw [if_neg tall, List.filter_cons_of_neg (by simpa using short)]
        exact later

theorem Houses.map {heap : Heap (SkipListNode K V)} {nodes : List (Ref × SkipListNode K V)}
    (housed : Houses heap towers nodes) :
    nodes.map (fun entry => entry.2.ele) = towers.map Tower.ele ∧
      nodes.map (fun entry => (entry.2.score, entry.2.ele)) = towers.map (fun tower => (tower.score, tower.ele)) ∧
      nodes.length = towers.length := by
  induction housed with
  | nil => exact ⟨rfl, rfl, rfl⟩
  | cons here _ ih => simp [here.2.ele, here.2.score, ih.1, ih.2.1, ih.2.2]

theorem Houses.tower_of_mem {heap : Heap (SkipListNode K V)} {nodes : List (Ref × SkipListNode K V)}
    (housed : Houses heap towers nodes) {ref : Ref} {node : SkipListNode K V} (member : (ref, node) ∈ nodes) :
    ∃ tower ∈ towers, tower.ref = ref ∧ Stores heap tower node := by
  induction housed with
  | nil => simp at member
  | @cons tower entry towers nodes here _ ih =>
      rcases List.mem_cons.mp member with rfl | later
      · exact ⟨tower, List.mem_cons_self .., here⟩
      · obtain ⟨other, present, facts⟩ := ih later
        exact ⟨other, List.mem_cons_of_mem tower present, facts⟩

theorem Houses.node_of_mem {heap : Heap (SkipListNode K V)} {nodes : List (Ref × SkipListNode K V)}
    (housed : Houses heap towers nodes) {tower : Tower K V} (member : tower ∈ towers) :
    ∃ node, (tower.ref, node) ∈ nodes ∧ Stores heap tower node := by
  induction housed with
  | nil => simp at member
  | @cons first entry towers nodes here _ ih =>
      rcases List.mem_cons.mp member with rfl | later
      · obtain ⟨same, stored⟩ := here
        exact ⟨entry.2, by rw [same]; exact List.mem_cons_self .., stored⟩
      · obtain ⟨node, present, stored⟩ := ih later
        exact ⟨node, List.mem_cons_of_mem entry present, stored⟩

end Chains

namespace SkipList
variable {K V : Type} [LinearOrder K] [LinearOrder V]

/-- The structure of a list with this header node and these nodes behind it. -/
structure WellFormed (list : SkipList K V) (header : SkipListNode K V) (nodes : List (Ref × SkipListNode K V)) :
    Prop where
  headerLive : list.heap.cells list.header = some header
  headerLevel : header.level = list.maxLevel
  bottom : ForwardChain list.heap 0 (header.forward 0) nodes
  increasing : nodes.Pairwise fun first second =>
    toLex (first.2.score, first.2.ele) < toLex (second.2.score, second.2.ele)
  chains : ∀ level < list.maxLevel,
    ForwardChain list.heap level (header.forward level) (nodes.filter fun entry => level < entry.2.level)
  unused : ∀ level < list.maxLevel, list.level ≤ level → header.forward level = none
  distinct : (nodes.map fun entry => entry.2.ele).Nodup
  mapped : ∀ ele ref, list.nodeMap.lookup ele = some ref ↔ ∃ node, (ref, node) ∈ nodes ∧ node.ele = ele

variable {list : SkipList K V} {head : Tower K V} {towers : List (Tower K V)}

/-- A list that represents towers has the structure of their nodes. -/
theorem Represents.wellFormed (rep : list.Represents head towers) :
    ∃ header nodes, list.WellFormed header nodes ∧ nodes.length = towers.length ∧ Houses list.heap towers nodes := by
  have linked : Linked list.heap towers := rep.linked.tail [head] towers
  obtain ⟨header, stored, links⟩ := rep.linked [] head towers rfl
  obtain ⟨nodes, housed⟩ := linked.houses
  obtain ⟨elements, order, length⟩ := housed.map
  have chains (level : Nat) (inside : level < list.maxLevel) :
      ForwardChain list.heap level (header.forward level) (nodes.filter fun entry => level < entry.2.level) := by
    rw [links level (by rw [rep.headHeight]; exact inside)]
    exact linked.chain housed level
  have tall : ∀ entry ∈ nodes, 0 < entry.2.level := by
    intro entry member
    obtain ⟨tower, present, _, stored⟩ := housed.tower_of_mem member
    rw [stored.level]
    exact (rep.heights tower present).1
  refine ⟨header, nodes, ⟨?_, ?_, ?_, ?_, chains, ?_, ?_, ?_⟩, length, housed⟩
  · rw [← rep.headRef]
    exact stored.live
  · rw [stored.level, rep.headHeight]
  · have bottom := chains 0 rep.positive
    rwa [List.filter_eq_self.mpr fun entry member => by simpa using tall entry member] at bottom
  · have sorted : (nodes.map fun entry => (entry.2.score, entry.2.ele)).Pairwise
        fun first second => toLex first < toLex second := by
      rw [order, List.pairwise_map]
      refine rep.sorted.imp ?_
      intro first second before
      rw [Prod.Lex.toLex_lt_toLex]
      exact before
    exact List.pairwise_map.mp sorted
  · intro level inside high
    rw [links level (by rw [rep.headHeight]; exact inside), (firstAbove_eq_none Tower.height).mpr]
    · rfl
    · exact fun tower member => (rep.heights tower member).2.trans high
  · rw [elements]
    exact rep.distinct
  · intro ele ref
    rw [rep.mapped]
    constructor
    · rintro ⟨tower, present, rfl, rfl⟩
      obtain ⟨node, member, stored⟩ := housed.node_of_mem present
      exact ⟨node, member, stored.ele⟩
    · rintro ⟨node, member, rfl⟩
      obtain ⟨tower, present, same, stored⟩ := housed.tower_of_mem member
      exact ⟨tower, present, stored.ele.symm, same⟩

/-- After every history the list has its structure, and the counter is the number of nodes
reduced to 32 bits. -/
theorem history_structure [Inhabited K] (toInt : V → Int) (maxLevel : Nat) (positive : 0 < maxLevel)
    (maxCapacity : Int) (uninitialized : V) (operations : List (Operation K V)) :
    ∃ outputs final header nodes,
      history toInt maxLevel maxCapacity uninitialized operations = .ok (outputs, final) ∧
        final.WellFormed header nodes ∧ final.length.toNat = nodes.length % 2 ^ 32 := by
  obtain ⟨outputs, final, head, towers, returned, _, shown, _⟩ :=
    history_shows (K := K) toInt maxLevel positive maxCapacity uninitialized operations
  obtain ⟨header, nodes, formed, length, _⟩ := shown.represents.wellFormed
  refine ⟨outputs, final, header, nodes, returned, formed, ?_⟩
  rw [shown.represents.counted, BitVec.toNat_ofNat, length]

theorem history_structure_rescored :
    ∃ outputs final header nodes,
      history (K := Str) (V := CInt) Subtype.val 6 1 ⟨0, by decide⟩
        [.insertElement (bytes "a") ⟨1, by decide⟩ [0], .insertElement (bytes "a") ⟨2, by decide⟩ [0, 0],
          .setMaxMemory 0, .insertElement (bytes "b") ⟨-3, by decide⟩ [], .deleteElement (bytes "a")] =
          .ok (outputs, final) ∧
        final.WellFormed header nodes ∧ final.length.toNat = nodes.length % 2 ^ 32 :=
  history_structure Subtype.val 6 (by decide) 1 _ _

section Growth

/-- The insertion of numbered elements with one score. -/
def insertNumbered (name : Nat → K) (score : V) (count : Nat) : List (Operation K V) :=
  (List.range count).map fun index => .insertElement (name index) score []

/-- An unbounded view without waiting keys only links the new entry. -/
theorem insertFresh_unbounded {view : View K V} (unbounded : view.capacity = 0)
    (idle : view.queued = []) (entry : Entry K V) :
    (view.insertFresh entry).entries = Edit.apply view.entries (.link entry) ∧
      (view.insertFresh entry).queued = [] ∧ (view.insertFresh entry).capacity = 0 := by
  have waiting : (view.receive entry).queued = [] := by
    simp [View.receive, idle, overflow, Full, unbounded]
  rw [View.insertFresh, View.flush, waiting]
  exact ⟨rfl, rfl, unbounded⟩

/-- Numbered elements with distinct names all become entries of an unbounded list. -/
theorem historyView_numbered (toInt : V → Int) (maxLevel : Nat) (name : Nat → K)
    (injective : Function.Injective name) (score : V) (count : Nat) :
    (historyView toInt maxLevel 0 (insertNumbered name score count)).entries.length = count ∧
      (historyView toInt maxLevel 0 (insertNumbered name score count)).queued = [] ∧
      (historyView toInt maxLevel 0 (insertNumbered name score count)).capacity = 0 ∧
      ∀ entry ∈ (historyView toInt maxLevel 0 (insertNumbered name score count)).entries,
        ∃ index < count, entry.ele = name index := by
  induction count with
  | zero => exact ⟨rfl, rfl, rfl, by simp [insertNumbered, historyView, abstractRun, newView]⟩
  | succ count ih =>
      obtain ⟨length, idle, unbounded, named⟩ := ih
      generalize viewEq : historyView toInt maxLevel 0 (insertNumbered name score count) = view at *
      have last : historyView toInt maxLevel 0 (insertNumbered name score (count + 1)) =
          (view.operate toInt maxLevel (.insertElement (name count) score [])).2 := by
        rw [historyView, insertNumbered, List.range_succ, List.map_append, abstractRun_append]
        exact congrArg (fun view => (View.operate toInt maxLevel view _).2) viewEq
      have missing : view.find (name count) = none := by
        rw [View.find_none]
        intro member
        obtain ⟨entry, present, same⟩ := List.mem_map.mp member
        obtain ⟨index, inside, equal⟩ := named entry present
        exact absurd (injective (equal.symm.trans same)) (Nat.ne_of_lt inside)
      have fresh : (view.operate toInt maxLevel (.insertElement (name count) score [])).2 =
          view.insertFresh ⟨name count, score, getRandomLevel maxLevel []⟩ := by
        simp [View.operate, View.insertElement, missing]
      obtain ⟨entries, stillIdle, stillUnbounded⟩ :=
        insertFresh_unbounded unbounded idle ⟨name count, score, getRandomLevel maxLevel []⟩
      rw [last, fresh, entries]
      refine ⟨?_, stillIdle, stillUnbounded, ?_⟩
      · have whole := congrArg List.length (List.takeWhile_append_dropWhile
          (p := fun other : Entry K V => decide (other.Precedes (name count) score)) (l := view.entries))
        rw [List.length_append] at whole
        simp only [Edit.apply, entriesBefore, entriesAfter, List.length_append, List.length_cons]
        omega
      · intro entry member
        rcases View.mem_link.mp member with rfl | old
        · exact ⟨count, Nat.lt_succ_self count, rfl⟩
        · obtain ⟨index, inside, same⟩ := named entry old
          exact ⟨index, Nat.lt_succ_of_lt inside, same⟩

/-- A list of numbered elements has as many nodes as elements. -/
theorem history_numbered [Inhabited K] (toInt : V → Int) (maxLevel : Nat) (positive : 0 < maxLevel)
    (uninitialized score : V) (name : Nat → K) (injective : Function.Injective name) (count : Nat) :
    ∃ outputs final header nodes,
      history toInt maxLevel 0 uninitialized (insertNumbered name score count) = .ok (outputs, final) ∧
        final.WellFormed header nodes ∧ nodes.length = count ∧ final.length = BitVec.ofNat 32 count := by
  obtain ⟨outputs, final, head, towers, returned, _, shown, _⟩ :=
    history_shows (K := K) toInt maxLevel positive 0 uninitialized (insertNumbered name score count)
  obtain ⟨header, nodes, formed, length, _⟩ := shown.represents.wellFormed
  have total : towers.length = count := by
    rw [← (historyView_numbered toInt maxLevel name injective score count).1, ← shown.entries, List.length_map]
  exact ⟨outputs, final, header, nodes, returned, formed, by rw [length, total], by
    rw [shown.represents.counted, total]⟩

/-- The counter of 2 ^ 32 nodes is zero. -/
theorem length_wraps :
    ∃ outputs final header nodes,
      history (K := Str) (V := CInt) Subtype.val 1 0 ⟨0, by decide⟩
        (insertNumbered digitsText ⟨0, by decide⟩ (2 ^ 32)) = .ok (outputs, final) ∧
        final.WellFormed header nodes ∧ final.length.toNat ≠ nodes.length := by
  obtain ⟨outputs, final, header, nodes, returned, formed, length, counter⟩ :=
    history_numbered (K := Str) (V := CInt) Subtype.val 1 (by decide) ⟨0, by decide⟩ ⟨0, by decide⟩
      digitsText digitsText_injective (2 ^ 32)
  refine ⟨outputs, final, header, nodes, returned, formed, ?_⟩
  rw [counter, length]
  decide

end Growth

end SkipList

end MySkipList
