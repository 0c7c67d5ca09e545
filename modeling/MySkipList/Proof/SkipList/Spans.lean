import MySkipList.Proof.SkipList.Structure

namespace MySkipList

open Foundation

section Measured
variable {K V : Type}

/-- Every span below a forward pointer is the number of steps to the next tower that reaches its level. -/
def Measured (heap : Heap (SkipListNode K V)) (towers : List (Tower K V)) : Prop :=
  ∀ front tower rest node, towers = front ++ tower :: rest → heap.cells tower.ref = some node →
    ∀ level < tower.height, (∃ other ∈ rest, level < other.height) →
      (node.span level).toNat = leading Tower.height level rest + 1

variable {heap : Heap (SkipListNode K V)}

theorem Measured.spanAt {front rest : List (Tower K V)} {tower : Tower K V} {node : SkipListNode K V}
    (measured : Measured heap (front ++ tower :: rest)) (live : heap.cells tower.ref = some node) {level : Nat}
    (inside : level < tower.height) (more : ∃ other ∈ rest, level < other.height) :
    node.span level = BitVec.ofNat 32 (leading Tower.height level rest + 1) := by
  rw [← measured front tower rest node rfl live level inside more, BitVec.ofNat_toNat, BitVec.setWidth_eq]

/-- The spans that a search passes add up to its steps. -/
theorem Measured.passedSpan (front : List (Tower K V)) (current : Tower K V)
    (short ahead behind : List (Tower K V)) (measured : Measured heap (front ++ current :: (short ++ (ahead ++ behind))))
    (stored : ∀ tower ∈ current :: ahead, ∃ node, heap.cells tower.ref = some node) {level : Nat}
    (inside : level < current.height) (low : ∀ tower ∈ short, tower.height ≤ level) :
    passedSpan heap level current ahead = BitVec.ofNat 32
      (if reach Tower.height level ahead = 0 then 0 else short.length + reach Tower.height level ahead) := by
  induction ahead generalizing front current short with
  | nil => rfl
  | cons tower ahead ih =>
      rw [MySkipList.passedSpan, reach]
      by_cases tall : level < tower.height
      · obtain ⟨node, live⟩ := stored current (by simp)
        have span := measured.spanAt live inside ⟨tower, by simp, tall⟩
        rw [leading_append_short Tower.height level short _ low, List.cons_append,
          leading_cons_tall Tower.height level tower _ tall] at span
        have later := ih (front ++ current :: short) tower []
          (by simpa using measured) (fun other member => stored other (List.mem_cons_of_mem current member)) tall
          (by simp)
        rw [if_pos tall, later, MySkipList.spanAt, live]
        dsimp only
        rw [span, if_pos (Or.inl tall), if_neg (Nat.succ_ne_zero _), ← BitVec.ofNat_add]
        congr 1
        split
        · simp [*]
        · simp only [Nat.add_zero, List.length_nil, Nat.zero_add]
          omega
      · have later := ih front current (short ++ [tower]) (by simpa using measured)
          (by
            intro other member
            rcases List.mem_cons.mp member with rfl | member
            · exact stored other (by simp)
            · exact stored other (by simp [member])) inside
          (by
            intro other member
            rcases List.mem_append.mp member with old | new
            · exact low other old
            · rw [List.mem_singleton.mp new]
              exact Nat.not_lt.mp tall)
        rw [if_neg tall, later]
        congr 1
        by_cases none : reach Tower.height level ahead = 0
        · simp [none, tall]
        · simp only [none, tall, if_false, List.length_append, List.length_singleton, ne_eq, not_false_eq_true,
            or_true, if_true, Nat.succ_ne_zero]
          omega

end Measured

namespace SkipList
variable {K V : Type} [LinearOrder K] [LinearOrder V]

section Edited
variable {list : SkipList K V} {head : Tower K V} {front back : List (Tower K V)}

/-- The rank of a level is the number of steps between the stop of the level above and its own stop. -/
theorem Represents.rank_eq (rep : list.Represents head (front ++ back))
    (measured : Measured list.heap (head :: (front ++ back))) {rank : Nat → UnsignedInt}
    (ranks : Ranks list.heap head front list.maxLevel rank) {level : Nat} (inside : level < list.maxLevel) :
    rank level + BitVec.ofNat 32 (reach Tower.height (level + 1) front) =
      BitVec.ofNat 32 (reach Tower.height level front) := by
  obtain ⟨before, after, split, value⟩ := ranks level inside
  have tall := stop_succ_height head front level (by rw [rep.headHeight]; exact inside)
  have above := reach_lastAbove Tower.height (level + 1) head front before after rep.front_nodup split
  have position : head :: (front ++ back) = before ++ stop head front (level + 1) :: ([] ++ (after ++ back)) := by
    rw [← List.cons_append, split, List.append_assoc, List.cons_append, List.nil_append]
  have passed := Measured.passedSpan before _ [] after back (position ▸ measured)
    (by
      intro tower member
      have present : tower ∈ head :: (front ++ back) := by
        rw [← List.cons_append, split]
        exact List.mem_append_left back (List.mem_append_right before member)
      obtain ⟨node, stored⟩ := rep.linked.stores present
      exact ⟨node, stored.live⟩) tall (by simp)
  have here : reach Tower.height level front = before.length + reach Tower.height level after := by
    cases before with
    | nil => rw [(List.cons.inj split).2, List.length_nil, Nat.zero_add]
    | cons first before =>
        rw [List.cons_append, List.cons.injEq] at split
        conv_lhs => rw [split.2]
        rw [reach_split Tower.height level before _ after tall, List.length_cons]
  have total : (if reach Tower.height level after = 0 then 0 else ([] : List (Tower K V)).length +
      reach Tower.height level after) = reach Tower.height level after := by
    split <;> simp_all
  rw [value, passed, total, above, here, Nat.add_comm, BitVec.ofNat_add]

/-- With the ranks of the upper levels aligned, the code's difference of two ranks is the number of steps from
the stop of a level to the position of the new node. -/
theorem Represents.rank_difference (rep : list.Represents head (front ++ back))
    (measured : Measured list.heap (head :: (front ++ back))) {rank : Nat → UnsignedInt}
    (ranks : Ranks list.heap head front list.maxLevel rank) {height : Nat} (bounded : height ≤ list.maxLevel)
    (aligned : ∀ level, 0 < level → level < height →
      reach Tower.height (level + 1) front = reach Tower.height 1 front) {level : Nat} (inside : level < height) :
    rank 0 - rank level = BitVec.ofNat 32 (front.length - reach Tower.height level front) := by
  have full : reach Tower.height 0 front = front.length :=
    reach_full Tower.height 0 front fun tower member => (rep.heights tower (List.mem_append_left back member)).1
  have bottom := rep.rank_eq measured ranks rep.positive
  have here := rep.rank_eq measured ranks (lt_of_lt_of_le inside bounded)
  have fits := reach_le_length Tower.height level front
  rw [full] at bottom
  by_cases zero : level = 0
  · subst zero
    rw [full, Nat.sub_self]
    simp
  · rw [aligned level (Nat.pos_of_ne_zero zero) inside] at here
    have parts : BitVec.ofNat 32 front.length =
        BitVec.ofNat 32 (front.length - reach Tower.height level front) +
          BitVec.ofNat 32 (reach Tower.height level front) := by
      rw [← BitVec.ofNat_add, Nat.sub_add_cancel fits]
    rw [parts, ← here] at bottom
    rw [sub_eq_iff_eq_add]
    have cancelled : rank 0 + BitVec.ofNat 32 (reach Tower.height (0 + 1) front) =
        BitVec.ofNat 32 (front.length - reach Tower.height level front) + rank level +
          BitVec.ofNat 32 (reach Tower.height (0 + 1) front) := by
      rw [bottom, BitVec.add_assoc]
    exact add_right_cancel cancelled

/-- The span of a stop after the link phase counts the steps to the new node. -/
theorem Represents.stop_span (rep : list.Represents head (front ++ back))
    (measured : Measured list.heap (head :: (front ++ back))) {rank : Nat → UnsignedInt}
    (ranks : Ranks list.heap head front list.maxLevel rank) {height : Nat} (bounded : height ≤ list.maxLevel)
    (aligned : ∀ level, 0 < level → level < height →
      reach Tower.height (level + 1) front = reach Tower.height 1 front)
    (narrow : front.length - reach Tower.height (height - 1) front + 1 < 2 ^ 32) {level : Nat} (inside : level < height) :
    (rank 0 - rank level + 1).toNat = front.length - reach Tower.height level front + 1 := by
  have further := reach_antitone Tower.height (Nat.le_sub_one_of_lt inside) front
  rw [rep.rank_difference measured ranks bounded aligned inside, show (1 : UnsignedInt) = BitVec.ofNat 32 1 from rfl,
    ← BitVec.ofNat_add, BitVec.toNat_ofNat, Nat.mod_eq_of_lt (by omega)]

/-- The span of the new node is the rest of the span of the stop. -/
theorem Represents.fresh_span (rep : list.Represents head (front ++ back))
    (measured : Measured list.heap (head :: (front ++ back))) {rank : Nat → UnsignedInt}
    (ranks : Ranks list.heap head front list.maxLevel rank) {height : Nat} (bounded : height ≤ list.maxLevel)
    (aligned : ∀ level, 0 < level → level < height →
      reach Tower.height (level + 1) front = reach Tower.height 1 front)
    {level : Nat} (inside : level < height) (more : ∃ other ∈ back, level < other.height) :
    (spanAt list.heap (stop head front level).ref level - (rank 0 - rank level)).toNat =
      leading Tower.height level back + 1 := by
  obtain ⟨prior, after, split, low⟩ := lastAbove_split Tower.height level head front
  have count := length_sub_reach Tower.height level rep.front_nodup split rfl
  obtain ⟨stored, present⟩ := rep.linked.stores (rep.stop_mem level)
  have old := measured prior _ (after ++ back) stored (by
    rw [← List.cons_append, split, List.append_assoc, List.cons_append]) present.live level
    (stop_height head front level (by rw [rep.headHeight]; omega)) (by
      obtain ⟨other, present, high⟩ := more
      exact ⟨other, List.mem_append_right after present, high⟩)
  rw [leading_append_short Tower.height level after _ low] at old
  have width := (stored.span level).isLt
  rw [rep.rank_difference measured ranks bounded aligned inside, spanAt, present.live, count]
  dsimp only
  rw [BitVec.toNat_sub_of_le (by
    rw [BitVec.le_def, BitVec.toNat_ofNat, Nat.mod_eq_of_lt (by omega)]
    omega), BitVec.toNat_ofNat, Nat.mod_eq_of_lt (by omega)]
  omega

/-- An aligned link of a node that is as tall as every later node keeps the spans exact. -/
theorem Represents.measured_link (rep : list.Represents head (front ++ back))
    (measured : Measured list.heap (head :: (front ++ back))) {rank : Nat → UnsignedInt}
    (ranks : Ranks list.heap head front list.maxLevel rank) {ele : K} {score : V} {height : Nat}
    (bounded : height ≤ list.maxLevel) (later : ∀ tower ∈ back, tower.height ≤ height)
    (aligned : ∀ level, 0 < level → level < height →
      reach Tower.height (level + 1) front = reach Tower.height 1 front)
    (narrow : front.length - reach Tower.height (height - 1) front + 1 < 2 ^ 32) :
    Measured (list.linkedNode head front back ele score height rank).heap
      (head :: (front ++ list.freshTower ele score height :: back)) := by
  have survivor {tower : Tower K V} {node : SkipListNode K V} (member : tower ∈ head :: (front ++ back))
      (live : (list.linkedNode head front back ele score height rank).heap.cells tower.ref = some node) :
      ∃ old, list.heap.cells tower.ref = some old ∧ ∀ level, node.span level =
        if level < height ∧ tower.ref = (stop head front level).ref then rank 0 - rank level + 1
        else old.span level := by
    obtain ⟨old, present⟩ := rep.linked.stores member
    obtain ⟨after, stored, _, span, _⟩ := rep.linkedNode_older ele score height rank member present
    obtain rfl := Option.some.inj (stored.live.symm.trans live)
    exact ⟨old, present.live, span⟩
  intro before tower rest node position live level inside more
  rw [← List.cons_append] at position
  rcases split_append position with ⟨middle, inFront, rfl⟩ | ⟨middle, inBack, _⟩
  · have member : tower ∈ head :: (front ++ back) := by
      rw [← List.cons_append, inFront]
      simp
    obtain ⟨old, present, span⟩ := survivor member live
    have last := lastAbove_eq_iff Tower.height level head tower front before middle rep.front_nodup inFront inside
    rw [span level]
    by_cases isStop : level < height ∧ tower.ref = (stop head front level).ref
    · -- The stop of a level below the new height now points to the new node.
      have same : tower = stop head front level := rep.tower_eq member (rep.stop_mem level) isStop.2
      rw [if_pos isStop, rep.stop_span measured ranks bounded aligned narrow isStop.1,
        length_sub_reach Tower.height level rep.front_nodup inFront same,
        leading_append_short Tower.height level middle _ (last.mp same.symm),
        leading_cons_tall Tower.height level _ back isStop.1, Nat.add_zero]
    · rw [if_neg isStop]
      by_cases tall : ∃ other ∈ middle, level < other.height
      · -- The next tower stands before the new node.
        have old := measured before tower (middle ++ back) old (by
          rw [← List.cons_append, inFront, List.append_assoc, List.cons_append]) present level inside (by
            obtain ⟨other, present, high⟩ := tall
            exact ⟨other, List.mem_append_left back present, high⟩)
        rw [old, leading_append_tall Tower.height level middle _ tall,
          leading_append_tall Tower.height level middle _ tall]
      · push Not at tall
        have short : height ≤ level := Nat.not_lt.mp fun short =>
          isStop ⟨short, congrArg Tower.ref (last.mpr tall).symm⟩
        obtain ⟨other, present, high⟩ := more
        rcases List.mem_append.mp present with early | late
        · exact absurd high (Nat.not_lt.mpr (tall other early))
        · rcases List.mem_cons.mp late with rfl | late
          · exact absurd high (Nat.not_lt.mpr short)
          · exact absurd high (Nat.not_lt.mpr ((later other late).trans short))
  · cases middle with
    | nil =>
        -- The new node takes over the rest of the span of the stop.
        obtain ⟨rfl, rfl⟩ := List.cons.inj inBack
        obtain ⟨fresh, stored, _, span, _⟩ := rep.linkedNode_fresh ele score height rank
        obtain rfl := Option.some.inj (stored.live.symm.trans live)
        rw [span level inside]
        exact rep.fresh_span measured ranks bounded aligned inside more
    | cons first middle =>
        have inBack : back = middle ++ tower :: rest := (List.cons.inj inBack).2
        have behind : tower ∈ back := by
          rw [inBack]
          simp
        obtain ⟨old, present, span⟩ := survivor (List.mem_cons_of_mem head (List.mem_append_right front behind)) live
        rw [span level, if_neg fun facts => rep.stop_apart behind level facts.2]
        exact measured (head :: (front ++ middle)) tower rest old (by
          rw [inBack]
          simp) present level inside more

/-- The stop of a level counts on to the successor of the target once it has taken over the span of the target. -/
theorem Represents.absorbed_span {target tower : Tower K V} {before middle : List (Tower K V)}
    (rep : list.Represents head (front ++ target :: back))
    (measured : Measured list.heap (head :: (front ++ target :: back))) {node old : SkipListNode K V}
    (stored : Stores list.heap target node) (present : list.heap.cells tower.ref = some old)
    (inFront : head :: front = before ++ tower :: middle) {level : Nat} (inside : level < tower.height)
    (same : tower = stop head front level) (reaches : level < target.height)
    (behind : ∃ other ∈ back, level < other.height)
    (narrow : front.length - reach Tower.height level front + leading Tower.height level back + 1 < 2 ^ 32) :
    (old.span level + (node.span level - 1)).toNat = leading Tower.height level (middle ++ back) + 1 := by
  have position : head :: (front ++ target :: back) = before ++ tower :: (middle ++ target :: back) := by
    rw [← List.cons_append, inFront, List.append_assoc, List.cons_append]
  have last := lastAbove_eq_iff Tower.height level head tower front before middle rep.front_nodup inFront inside
  have low := last.mp same.symm
  have steps := length_sub_reach Tower.height level rep.front_nodup inFront same
  have first := Measured.spanAt (position ▸ measured) present inside ⟨target, by simp, reaches⟩
  have whole : Measured list.heap ((head :: front) ++ target :: back) := measured
  have second := whole.spanAt stored.live reaches behind
  rw [leading_append_short Tower.height level middle _ low,
    leading_cons_tall Tower.height level target back reaches, Nat.add_zero] at first
  rw [first, second, BitVec.ofNat_add (leading Tower.height level back) 1,
    show BitVec.ofNat 32 1 = (1 : UnsignedInt) from rfl, add_sub_cancel_right, ← BitVec.ofNat_add,
    BitVec.toNat_ofNat, leading_append_short Tower.height level middle _ low, Nat.mod_eq_of_lt (by omega)]
  omega

/-- The unlink of a node that is as tall as every later node keeps the spans exact. -/
theorem Represents.measured_unlink {target : Tower K V} (rep : list.Represents head (front ++ target :: back))
    (measured : Measured list.heap (head :: (front ++ target :: back))) {node : SkipListNode K V}
    (stored : Stores list.heap target node)
    (links : ∀ level < target.height, node.forward level = (firstAbove Tower.height level back).map Tower.ref)
    (later : ∀ tower ∈ back, tower.height ≤ target.height)
    (narrow : ∀ level < target.height, (∃ other ∈ back, level < other.height) →
      front.length - reach Tower.height level front + leading Tower.height level back + 1 < 2 ^ 32)
    (lruCache : LRUCache K V) :
    Measured (list.unlinked head front target node lruCache).heap (head :: (front ++ back)) := by
  have survivor {tower : Tower K V} {found : SkipListNode K V} (member : tower ∈ head :: (front ++ back))
      (live : (list.unlinked head front target node lruCache).heap.cells tower.ref = some found) :
      ∃ old, list.heap.cells tower.ref = some old ∧ ∀ level, found.span level =
        if level < target.height ∧ tower.ref = (stop head front level).ref then
          if node.forward level = none then 0 else old.span level + (node.span level - 1)
        else old.span level := by
    have whole : tower ∈ head :: (front ++ target :: back) := by
      simp only [List.mem_cons, List.mem_append] at member ⊢
      tauto
    obtain ⟨old, present⟩ := rep.linked.stores whole
    obtain rfl := Option.some.inj ((rep.unlinked_other node lruCache member present).live.symm.trans live)
    exact ⟨old, present.live, fun level => rfl⟩
  intro before tower rest found position live level inside more
  have member : tower ∈ head :: (front ++ back) := by
    rw [position]
    simp
  obtain ⟨old, present, span⟩ := survivor member live
  rw [← List.cons_append] at position
  rw [span level]
  rcases split_append position with ⟨middle, inFront, rfl⟩ | ⟨middle, inBack, _⟩
  · have oldPosition : head :: (front ++ target :: back) = before ++ tower :: (middle ++ target :: back) := by
      rw [← List.cons_append, inFront, List.append_assoc, List.cons_append]
    have last := lastAbove_eq_iff Tower.height level head tower front before middle rep.front_nodup inFront inside
    by_cases isStop : level < target.height ∧ tower.ref = (stop head front level).ref
    · -- The stop takes over the span of the target.
      have same : tower = stop head front level := rep.tower_eq (by rw [oldPosition]; simp) (rep.stop_mem level) isStop.2
      have behind : ∃ other ∈ back, level < other.height := by
        obtain ⟨other, present, high⟩ := more
        rcases List.mem_append.mp present with early | late
        · exact absurd high (Nat.not_lt.mpr (last.mp same.symm other early))
        · exact ⟨other, late, high⟩
      have continues : node.forward level ≠ none := by
        rw [links level isStop.1, ne_eq, Option.map_eq_none_iff, firstAbove_eq_none]
        push Not
        exact behind
      rw [if_pos isStop, if_neg continues]
      exact rep.absorbed_span measured stored present inFront inside same isStop.1 behind (narrow level isStop.1 behind)
    · rw [if_neg isStop]
      by_cases tall : ∃ other ∈ middle, level < other.height
      · have oldSpan := measured before tower (middle ++ target :: back) old oldPosition present level inside (by
          obtain ⟨other, present, high⟩ := tall
          exact ⟨other, List.mem_append_left _ present, high⟩)
        rw [oldSpan, leading_append_tall Tower.height level middle _ tall,
          leading_append_tall Tower.height level middle _ tall]
      · push Not at tall
        have short : target.height ≤ level := Nat.not_lt.mp fun short =>
          isStop ⟨short, congrArg Tower.ref (last.mpr tall).symm⟩
        obtain ⟨other, present, high⟩ := more
        rcases List.mem_append.mp present with early | late
        · exact absurd high (Nat.not_lt.mpr (tall other early))
        · exact absurd high (Nat.not_lt.mpr ((later other late).trans short))
  · rw [if_neg fun facts => rep.stop_apart (List.mem_cons_of_mem target (by rw [inBack]; simp)) level facts.2]
    exact measured ((head :: front) ++ target :: middle) tower rest old (by
      rw [inBack]
      simp) present level inside more

end Edited

end SkipList

section Safety
variable {K V : Type} [LinearOrder K] [LinearOrder V]

/-- A link is safe when no later entry is taller, when the nearest earlier entry above the lowest level exceeds
a new entry above it, and when the new gap fits in 32 bits. -/
def SafeLink (entries : List (Entry K V)) (entry : Entry K V) : Prop :=
  (∀ other ∈ entriesAfter entry entries, other.height ≤ entry.height) ∧
  (1 < entry.height → ∀ other ∈ (entriesBefore entry entries).reverse.find? (fun other => 1 < other.height),
    entry.height < other.height) ∧
  (entriesBefore entry entries).length - reach Entry.height (entry.height - 1) (entriesBefore entry entries) + 1 <
    2 ^ 32

instance (entries : List (Entry K V)) (entry : Entry K V) : Decidable (SafeLink entries entry) :=
  inferInstanceAs (Decidable (_ ∧ _ ∧ _))

/-- The removal of an entry between two parts is safe when no later entry is taller and when the joined gaps fit
in 32 bits. -/
def SafeRemoval (before : List (Entry K V)) (target : Entry K V) (after : List (Entry K V)) : Prop :=
  (∀ other ∈ after, other.height ≤ target.height) ∧
  ∀ level < target.height, (∃ other ∈ after, level < other.height) →
    before.length - reach Entry.height level before + leading Entry.height level after + 1 < 2 ^ 32

instance (before : List (Entry K V)) (target : Entry K V) (after : List (Entry K V)) :
    Decidable (SafeRemoval before target after) := inferInstanceAs (Decidable (_ ∧ _))

/-- The unlink of an absent element is safe. -/
def SafeUnlink (entries : List (Entry K V)) (ele : K) : Prop :=
  match entries.dropWhile fun entry => entry.ele ≠ ele with
  | [] => True
  | target :: after => SafeRemoval (entries.takeWhile fun entry => entry.ele ≠ ele) target after

instance (entries : List (Entry K V)) (ele : K) : Decidable (SafeUnlink entries ele) :=
  match found : entries.dropWhile fun entry => entry.ele ≠ ele with
  | [] => isTrue (by simp only [SafeUnlink, found])
  | target :: after =>
      decidable_of_iff (SafeRemoval (entries.takeWhile fun entry => entry.ele ≠ ele) target after)
        (by simp only [SafeUnlink, found])

omit [LinearOrder V] in
theorem safeUnlink_split {before after : List (Entry K V)} {target : Entry K V}
    (different : ∀ entry ∈ before, entry.ele ≠ target.ele) :
    SafeUnlink (before ++ target :: after) target.ele ↔ SafeRemoval before target after := by
  have differs : ∀ entry ∈ before, decide (entry.ele ≠ target.ele) = true :=
    fun entry member => decide_eq_true (different entry member)
  have dropped : (before ++ target :: after).dropWhile (fun entry => decide (entry.ele ≠ target.ele)) =
      target :: after := by
    rw [List.dropWhile_append_of_pos differs, List.dropWhile_cons_of_neg (by simp)]
  have taken : (before ++ target :: after).takeWhile (fun entry => decide (entry.ele ≠ target.ele)) = before := by
    rw [List.takeWhile_append_of_pos differs, List.takeWhile_cons_of_neg (by simp), List.append_nil]
  rw [SafeUnlink, dropped, taken]

def SafeEdit (entries : List (Entry K V)) : Edit K V → Prop
  | .link entry => SafeLink entries entry
  | .unlink ele => SafeUnlink entries ele

instance (entries : List (Entry K V)) : (edit : Edit K V) → Decidable (SafeEdit entries edit)
  | .link entry => inferInstanceAs (Decidable (SafeLink entries entry))
  | .unlink ele => inferInstanceAs (Decidable (SafeUnlink entries ele))

/-- Every edit is safe among the entries that the edits before it leave. -/
def SafeEdits : List (Edit K V) → List (Entry K V) → Prop
  | [], _ => True
  | edit :: rest, entries => SafeEdit entries edit ∧ SafeEdits rest (edit.apply entries)

instance decidableSafeEdits : (edits : List (Edit K V)) → (entries : List (Entry K V)) →
    Decidable (SafeEdits edits entries)
  | [], _ => isTrue trivial
  | edit :: rest, entries =>
      have := decidableSafeEdits rest (edit.apply entries)
      inferInstanceAs (Decidable (SafeEdit entries edit ∧ SafeEdits rest (edit.apply entries)))

/-- Every edit of every operation of a run is safe. -/
def SafeRun (toInt : V → Int) (maxLevel : Nat) : View K V → List (SkipList.Operation K V) → Prop
  | _, [] => True
  | view, operation :: rest => SafeEdits (view.edits maxLevel operation) view.entries ∧
      SafeRun toInt maxLevel (view.operate toInt maxLevel operation).2 rest

instance decidableSafeRun (toInt : V → Int) (maxLevel : Nat) : (view : View K V) →
    (operations : List (SkipList.Operation K V)) → Decidable (SafeRun toInt maxLevel view operations)
  | _, [] => isTrue trivial
  | view, operation :: rest =>
      have := decidableSafeRun toInt maxLevel (view.operate toInt maxLevel operation).2 rest
      inferInstanceAs (Decidable (SafeEdits (view.edits maxLevel operation) view.entries ∧
        SafeRun toInt maxLevel (view.operate toInt maxLevel operation).2 rest))

theorem SafeRun.take {toInt : V → Int} {maxLevel : Nat} {view : View K V}
    {operations : List (SkipList.Operation K V)} (safe : SafeRun toInt maxLevel view operations) (count : Nat) :
    SafeRun toInt maxLevel view (operations.take count) := by
  induction operations generalizing view count with
  | nil => simpa using safe
  | cons operation operations ih =>
      cases count with
      | zero => trivial
      | succ count => exact ⟨safe.1, ih safe.2 count⟩

end Safety

namespace SkipList
variable {K V : Type} [LinearOrder K] [LinearOrder V]
  {list final : SkipList K V} {head : Tower K V} {towers rest : List (Tower K V)}

/-- A safe edit keeps the spans exact. -/
theorem EditStep.measured {edit : Edit K V} (step : EditStep head list towers edit final rest)
    (measured : Measured list.heap (head :: towers)) (safe : SafeEdit (towers.map Tower.entry) edit) :
    Measured final.heap (head :: rest) := by
  have heights (tower : Tower K V) : tower.entry.height = tower.height := rfl
  cases step with
  | @link front back ele score height rank rep smaller larger absent positive bounded ranks =>
      obtain ⟨before, after⟩ := entries_split ⟨ele, score, height⟩ smaller larger
      obtain ⟨later, nearest, narrow⟩ := safe
      rw [before, reach_map heights, List.length_map] at narrow
      rw [after] at later
      rw [before] at nearest
      refine rep.measured_link measured ranks bounded ?_ ?_ narrow
      · exact fun tower member => later tower.entry (List.mem_map_of_mem member)
      · intro level low inside
        have here := reach_aligned Entry.height (nearest (by simp only; omega)) (Nat.succ_pos level) inside
        rwa [reach_map heights, reach_map heights] at here
  | @unlink front back target node lruCache rep stored links =>
      have different : ∀ entry ∈ front.map Tower.entry, entry.ele ≠ target.entry.ele := by
        intro entry member
        obtain ⟨tower, present, rfl⟩ := List.mem_map.mp member
        exact rep.unique_of_split tower (List.mem_append_left back present)
      have split : (front ++ target :: back).map Tower.entry =
          front.map Tower.entry ++ target.entry :: back.map Tower.entry := by simp
      rw [split] at safe
      obtain ⟨later, narrow⟩ := (safeUnlink_split different).mp safe
      refine rep.measured_unlink measured stored links ?_ ?_ lruCache
      · exact fun tower member => later tower.entry (List.mem_map_of_mem member)
      · intro level inside more
        have bound := narrow level inside (by
          obtain ⟨other, present, high⟩ := more
          exact ⟨other.entry, List.mem_map_of_mem present, high⟩)
        rwa [reach_map heights, leading_map heights, List.length_map] at bound
  | absent rep missing => exact measured

theorem Edited.measured {edits : List (Edit K V)} (edited : Edited head list towers edits final rest)
    (measured : Measured list.heap (head :: towers)) (safe : SafeEdits edits (towers.map Tower.entry)) :
    Measured final.heap (head :: rest) := by
  induction edited with
  | done lruCache => exact measured
  | step lruCache first later ih =>
      refine ih (first.measured measured safe.1) ?_
      rw [first.entries]
      exact safe.2

/-- A safe run keeps the spans exact. -/
theorem Shows.run_measured {view : View K V} (shown : list.Shows head towers view) (coherent : view.Coherent)
    (measured : Measured list.heap (head :: towers)) (toInt : V → Int) (operations : List (Operation K V))
    (safe : SafeRun toInt list.maxLevel view operations) :
    ∃ outputs final rest view, Foundation.run (SkipList.operate toInt) list operations = .ok (outputs, final) ∧
      final.Shows head rest view ∧ Measured final.heap (head :: rest) := by
  induction operations generalizing list towers view with
  | nil => exact ⟨[], list, towers, view, rfl, shown, measured⟩
  | cons operation operations ih =>
      obtain ⟨next, between, stepped, still, edited⟩ := shown.operate coherent.toTracked toInt operation
      have kept := edited.measured measured (by
        rw [shown.entries]
        exact safe.1)
      obtain ⟨outputs, final, rest, last, returned, result⟩ := ih still (coherent.operate toInt _ operation) kept (by
        rw [edited.maxLevel]
        exact safe.2)
      exact ⟨_, final, rest, last, (run_cons_eq_ok ..).mpr ⟨_, next, outputs, stepped, returned, rfl⟩, result⟩

/-- The bottom pointers lead from one node to another in this many steps. -/
inductive Steps (heap : Heap (SkipListNode K V)) : Ref → Ref → Nat → Prop
  | one {ref target : Ref} {node : SkipListNode K V} (live : heap.cells ref = some node)
      (link : node.forward 0 = some target) : Steps heap ref target 1
  | more {ref middle target : Ref} {node : SkipListNode K V} {count : Nat} (live : heap.cells ref = some node)
      (link : node.forward 0 = some middle) (rest : Steps heap middle target count) :
      Steps heap ref target (count + 1)

/-- Every span of the header and of every node below a forward pointer counts the steps to its target. -/
def SpansExact (list : SkipList K V) : Prop :=
  ∃ header nodes, list.WellFormed header nodes ∧ ∀ entry ∈ (list.header, header) :: nodes,
    ∀ level < entry.2.level, ∀ target, entry.2.forward level = some target →
      Steps list.heap entry.1 target (entry.2.span level).toNat

omit [LinearOrder K] [LinearOrder V] in
/-- A tower behind another one is as many steps away as its position says. -/
theorem Linked.steps {heap : Heap (SkipListNode K V)} {tower target : Tower K V} {rest : List (Tower K V)}
    (linked : Linked heap (tower :: rest)) (tall : ∀ other ∈ tower :: rest, 0 < other.height) (index : Nat)
    (found : rest[index]? = some target) : Steps heap tower.ref target.ref (index + 1) := by
  induction index generalizing tower rest with
  | zero =>
      cases rest with
      | nil => simp at found
      | cons first rest =>
          obtain rfl : first = target := by simpa using found
          obtain ⟨node, stored, links⟩ := linked [] tower (first :: rest) rfl
          refine .one stored.live ?_
          rw [links 0 (tall tower (by simp)), firstAbove_cons, if_pos (tall first (by simp))]
          rfl
  | succ index ih =>
      cases rest with
      | nil => simp at found
      | cons first rest =>
          obtain ⟨node, stored, links⟩ := linked [] tower (first :: rest) rfl
          refine .more stored.live ?_ (ih (linked.tail [tower] (first :: rest))
            (fun other member => tall other (List.mem_cons_of_mem tower member)) (by simpa using found))
          rw [links 0 (tall tower (by simp)), firstAbove_cons, if_pos (tall first (by simp))]
          rfl

theorem Represents.spansExact (rep : list.Represents head towers) (measured : Measured list.heap (head :: towers)) :
    list.SpansExact := by
  obtain ⟨header, nodes, formed, _, housed⟩ := rep.wellFormed
  refine ⟨header, nodes, formed, ?_⟩
  rintro ⟨ref, node⟩ member level inside target link
  obtain ⟨tower, present, rfl, stored⟩ :
      ∃ tower ∈ head :: towers, tower.ref = ref ∧ Stores list.heap tower node := by
    rcases List.mem_cons.mp member with same | later
    · obtain ⟨rfl, rfl⟩ := Prod.mk.inj same
      obtain ⟨other, stored⟩ := rep.linked.stores (List.mem_cons_self ..)
      have equal : other = node := Option.some.inj (stored.live.symm.trans (rep.headRef ▸ formed.headerLive))
      exact ⟨head, List.mem_cons_self .., rep.headRef, equal ▸ stored⟩
    · obtain ⟨tower, present, facts⟩ := housed.tower_of_mem later
      exact ⟨tower, List.mem_cons_of_mem head present, facts⟩
  obtain ⟨front, rest, position⟩ := List.append_of_mem present
  have short : level < tower.height := stored.level ▸ inside
  obtain ⟨other, again, links⟩ := rep.linked front tower rest position
  obtain rfl : other = node := Option.some.inj (again.live.symm.trans stored.live)
  rw [links level short, Option.map_eq_some_iff] at link
  obtain ⟨next, first, rfl⟩ := link
  have more : ∃ other ∈ rest, level < other.height := by
    by_contra none
    push Not at none
    rw [(firstAbove_eq_none Tower.height).mpr none] at first
    exact absurd first (by simp)
  rw [measured front tower rest other position stored.live level short more]
  refine Linked.steps (Linked.tail front (tower :: rest) (position ▸ rep.linked)) ?_ _
    (firstAbove_eq_getElem Tower.height level rest ▸ first)
  intro other inside
  have whole : other ∈ head :: towers := by
    rw [position]
    exact List.mem_append_right front inside
  rcases List.mem_cons.mp whole with rfl | behind
  · rw [rep.headHeight]
    exact rep.positive
  · exact (rep.heights other behind).1

/-- In a run with only safe edits every reached list has exact spans. -/
theorem history_spansExact [Inhabited K] (toInt : V → Int) (maxLevel : Nat) (positive : 0 < maxLevel)
    (maxCapacity : Int) (uninitialized : V) (operations : List (Operation K V))
    (safe : SafeRun toInt maxLevel (newView maxCapacity) operations) (count : Nat) :
    ∃ outputs list, history toInt maxLevel maxCapacity uninitialized (operations.take count) = .ok (outputs, list) ∧
      list.SpansExact := by
  obtain ⟨list, constructed, maxLevelEq, shown⟩ := new_shows (K := K) positive maxCapacity uninitialized
  have measured : Measured list.heap [⟨0, maxLevel, default, uninitialized⟩] := by
    intro front tower rest node position live level inside more
    obtain ⟨rfl, rfl, rfl⟩ : front = [] ∧ tower = ⟨0, maxLevel, default, uninitialized⟩ ∧ rest = [] := by
      cases front with
      | nil => simpa [eq_comm] using position
      | cons first front => simp at position
    simp at more
  obtain ⟨outputs, final, rest, view, returned, last, kept⟩ :=
    shown.run_measured (newView_coherent maxCapacity) measured toInt (operations.take count) (by
      rw [maxLevelEq]
      exact safe.take count)
  refine ⟨outputs, final, ?_, last.represents.spansExact kept⟩
  rw [history, constructed, Exec.ok_bind, returned]

theorem history_spansExact_descending :
    ∃ outputs list, history (K := Str) (V := CInt) Subtype.val 6 0 ⟨0, by decide⟩
        ([.insertElement (bytes "a") ⟨1, by decide⟩ [0, 0], .insertElement (bytes "b") ⟨2, by decide⟩ [0],
          .insertElement (bytes "c") ⟨3, by decide⟩ [], .deleteElement (bytes "b")].take 4) = .ok (outputs, list) ∧
      list.SpansExact :=
  history_spansExact Subtype.val 6 (by decide) 0 _ _ (by decide) 4

/-- The pointers of the two lowest levels and the upper span of one node. -/
def links (list : SkipList K V) (ref : Ref) : Option (Option Ref × Option Ref × UnsignedInt) :=
  (list.heap.cells ref).map fun node => (node.forward 0, node.forward 1, node.span 1)

omit [LinearOrder K] [LinearOrder V] in
theorem Steps.two {heap : Heap (SkipListNode K V)} {ref middle target : Ref} {node : SkipListNode K V}
    (live : heap.cells ref = some node) (link : node.forward 0 = some middle) (steps : Steps heap ref target 2) :
    ∃ other, heap.cells middle = some other ∧ other.forward 0 = some target := by
  cases steps with
  | more other first rest =>
      obtain rfl := Option.some.inj (live.symm.trans other)
      obtain rfl := Option.some.inj (link.symm.trans first)
      cases rest with
      | one live link => exact ⟨_, live, link⟩
      | more _ _ none => cases none

/-- The insertion of a low node does not lengthen the span that passes over it. -/
theorem span_over_low_node :
    ∃ outputs list, history (K := Str) (V := CInt) Subtype.val 6 0 ⟨0, by decide⟩
        [.insertElement (bytes "a") ⟨1, by decide⟩ [], .insertElement (bytes "c") ⟨3, by decide⟩ [0],
          .insertElement (bytes "b") ⟨2, by decide⟩ []] = .ok (outputs, list) ∧ ¬ list.SpansExact := by
  obtain ⟨outputs, list, _, _, reached, levels, _⟩ :=
    history_shows (K := Str) (V := CInt) Subtype.val 6 (by decide) 0 ⟨0, by decide⟩
      [.insertElement (bytes "a") ⟨1, by decide⟩ [], .insertElement (bytes "c") ⟨3, by decide⟩ [0],
        .insertElement (bytes "b") ⟨2, by decide⟩ []]
  refine ⟨outputs, list, reached, ?_⟩
  have evaluated : (history (K := Str) (V := CInt) Subtype.val 6 0 ⟨0, by decide⟩
      [.insertElement (bytes "a") ⟨1, by decide⟩ [], .insertElement (bytes "c") ⟨3, by decide⟩ [0],
        .insertElement (bytes "b") ⟨2, by decide⟩ []]).map (fun result =>
          (result.2.header, result.2.links 0, result.2.links 1)) =
      .ok (0, some (some 1, some 2, 2), some (some 3, none, 0)) := rfl
  rw [reached] at evaluated
  simp only [Except.map, Except.ok.injEq, Prod.mk.injEq, links, Option.map_eq_some_iff] at evaluated
  obtain ⟨headerRef, ⟨header, live, bottom, upper, span⟩, ⟨first, firstLive, firstLink, _⟩⟩ := evaluated
  rintro ⟨other, nodes, formed, exact⟩
  obtain rfl : other = header := Option.some.inj (formed.headerLive.symm.trans (headerRef ▸ live))
  have steps := exact (list.header, other) (by simp) 1 (by rw [formed.headerLevel, levels]; decide) 2 upper
  rw [span, headerRef] at steps
  obtain ⟨second, secondLive, link⟩ := Steps.two live bottom steps
  obtain rfl := Option.some.inj (firstLive.symm.trans secondLive)
  rw [firstLink] at link
  exact absurd link (by decide)

end SkipList

end MySkipList
