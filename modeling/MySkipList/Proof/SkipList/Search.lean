import MySkipList.Construction.SkipList
import MySkipList.Foundation.Towers

namespace MySkipList

open Foundation

/-- A tower records where a node lives and what the list order reads from it. -/
structure Tower (K V : Type) where
  ref : Ref
  height : Nat
  ele : K
  score : V

section Linked
variable {K V : Type}

/-- The heap stores the node of this tower. -/
structure Stores (heap : Heap (SkipListNode K V)) (tower : Tower K V) (node : SkipListNode K V) : Prop where
  live : heap.cells tower.ref = some node
  level : node.level = tower.height
  ele : node.ele = tower.ele
  score : node.score = tower.score

/-- Every forward pointer of the node leads to the next tower of the rest that reaches its level. -/
def LinkedAt (heap : Heap (SkipListNode K V)) (tower : Tower K V) (rest : List (Tower K V)) : Prop :=
  ∃ node, Stores heap tower node ∧
    ∀ level < tower.height, node.forward level = (firstAbove Tower.height level rest).map Tower.ref

/-- Every tower of the list is linked to the towers after it. -/
def Linked (heap : Heap (SkipListNode K V)) (towers : List (Tower K V)) : Prop :=
  ∀ front tower rest, towers = front ++ tower :: rest → LinkedAt heap tower rest

theorem Linked.tail {heap : Heap (SkipListNode K V)} (front back : List (Tower K V))
    (linked : Linked heap (front ++ back)) : Linked heap back := by
  intro before tower rest position
  exact linked (front ++ before) tower rest (by rw [position, List.append_assoc])

theorem Linked.stores {heap : Heap (SkipListNode K V)} {towers : List (Tower K V)}
    (linked : Linked heap towers) {tower : Tower K V} (member : tower ∈ towers) :
    ∃ node, Stores heap tower node := by
  obtain ⟨front, rest, position⟩ := List.append_of_mem member
  obtain ⟨node, stored, _⟩ := linked front tower rest position
  exact ⟨node, stored⟩

/-- Two stored towers at one reference agree in everything that the order reads. -/
theorem Stores.tower_eq {heap : Heap (SkipListNode K V)} {first second : Tower K V}
    {node other : SkipListNode K V} (one : Stores heap first node) (two : Stores heap second other)
    (same : first.ref = second.ref) : first = second := by
  have equal : node = other := Option.some.inj (one.live.symm.trans (same ▸ two.live))
  subst equal
  rcases first with ⟨ref, height, ele, score⟩
  rcases second with ⟨ref', height', ele', score'⟩
  obtain rfl : ref = ref' := same
  obtain rfl : height = height' := one.level.symm.trans two.level
  obtain rfl : ele = ele' := one.ele.symm.trans two.ele
  obtain rfl : score = score' := one.score.symm.trans two.score
  rfl

theorem checked_of_stores {heap : Heap (SkipListNode K V)} {tower : Tower K V} {node : SkipListNode K V}
    (stored : Stores heap tower node) {level : Nat} (inside : level < tower.height) :
    checked heap tower.ref level = .ok node := by
  simp [checked, Heap.read_of_live stored.live, stored.level, inside]

theorem loadForward_of_stores {heap : Heap (SkipListNode K V)} {tower : Tower K V} {node : SkipListNode K V}
    (stored : Stores heap tower node) {level : Nat} (inside : level < tower.height) :
    loadForward heap tower.ref level = .ok (node.forward level) := by
  simp [loadForward, checked_of_stores stored inside]

theorem loadSpan_of_stores {heap : Heap (SkipListNode K V)} {tower : Tower K V} {node : SkipListNode K V}
    (stored : Stores heap tower node) {level : Nat} (inside : level < tower.height) :
    loadSpan heap tower.ref level = .ok (node.span level) := by
  simp [loadSpan, checked_of_stores stored inside]

/-- The span that the heap stores in a cell; a dead cell has none. -/
def spanAt (heap : Heap (SkipListNode K V)) (ref : Ref) (level : Nat) : UnsignedInt :=
  match heap.cells ref with
  | some node => node.span level
  | none => 0

/-- The spans that a search on one level passes. -/
def passedSpan (heap : Heap (SkipListNode K V)) (level : Nat) : Tower K V → List (Tower K V) → UnsignedInt
  | _, [] => 0
  | current, tower :: rest =>
      if level < tower.height then spanAt heap current.ref level + passedSpan heap level tower rest
      else passedSpan heap level current rest

/-- The search on one level stops at the last tower ahead that reaches the level. -/
abbrev stop (head : Tower K V) (ahead : List (Tower K V)) (level : Nat) : Tower K V :=
  lastAbove Tower.height level head ahead

theorem stop_mem (head : Tower K V) (ahead : List (Tower K V)) (level : Nat) :
    stop head ahead level ∈ head :: ahead := lastAbove_mem Tower.height level head ahead

theorem stop_height (head : Tower K V) (ahead : List (Tower K V)) (level : Nat) (inside : level < head.height) :
    level < (stop head ahead level).height := lastAbove_height Tower.height level head ahead inside

/-- The stop of the level above reaches this level. -/
theorem stop_succ_height (head : Tower K V) (ahead : List (Tower K V)) (level : Nat)
    (inside : level < head.height) : level < (stop head ahead (level + 1)).height := by
  rcases lastAbove_start_or_tall Tower.height (level + 1) head ahead with same | tall
  · rw [stop, same]
    exact inside
  · exact Nat.lt_of_succ_lt tall

end Linked

section Search
variable {K V : Type} [LinearOrder K] [LinearOrder V]

/-- The search passes this tower. -/
def Tower.Precedes (tower : Tower K V) (ele : K) (score : V) : Prop :=
  tower.score < score ∨ (score = tower.score ∧ tower.ele < ele)

theorem Stores.precedes_iff {heap : Heap (SkipListNode K V)} {tower : Tower K V} {node : SkipListNode K V}
    (stored : Stores heap tower node) (ele : K) (score : V) :
    node.Precedes ele score ↔ tower.Precedes ele score := by
  rw [SkipListNode.Precedes, Tower.Precedes, stored.ele, stored.score]

/-- One search loop ends at the last tall tower before the key. -/
theorem advance_run {heap : Heap (SkipListNode K V)} {level : Nat} {ele : K} {score : V}
    (ahead behind : List (Tower K V)) (current : Tower K V) (node : SkipListNode K V)
    (fuel : Nat) (rank : UnsignedInt) (stored : Stores heap current node) (tall : level < current.height)
    (link : node.forward level = (firstAbove Tower.height level (ahead ++ behind)).map Tower.ref)
    (linked : Linked heap (ahead ++ behind))
    (smaller : ∀ tower ∈ ahead, tower.Precedes ele score)
    (larger : ∀ tower ∈ behind, ¬ tower.Precedes ele score) (enough : ahead.length < fuel) :
    SkipList.advance heap level ele score fuel current.ref rank =
      .ok ((lastAbove Tower.height level current ahead).ref, rank + passedSpan heap level current ahead) := by
  induction ahead generalizing current node fuel rank with
  | nil =>
      obtain ⟨fuel, rfl⟩ : ∃ rest, fuel = rest + 1 := ⟨fuel - 1, by simp at enough; omega⟩
      rw [List.nil_append] at link linked
      rw [SkipList.advance, loadForward_of_stores stored tall, link, Exec.ok_bind]
      cases found : firstAbove Tower.height level behind with
      | none => simp [lastAbove, passedSpan]
      | some next =>
          have member := firstAbove_mem _ found
          obtain ⟨other, present⟩ := linked.stores member
          have stop : ¬ other.Precedes ele score := by
            rw [present.precedes_iff]
            exact larger next member
          simp [Heap.read_of_live present.live, stop, lastAbove, passedSpan]
  | cons tower ahead ih =>
      by_cases high : level < tower.height
      · obtain ⟨fuel, rfl⟩ : ∃ rest, fuel = rest + 1 := ⟨fuel - 1, by simp at enough; omega⟩
        obtain ⟨other, present, links⟩ := linked [] tower (ahead ++ behind) rfl
        have pass : other.Precedes ele score := by
          rw [present.precedes_iff]
          exact smaller tower (by simp)
        rw [List.cons_append, firstAbove_cons, if_pos high] at link
        have continued := ih tower other fuel (rank + node.span level) present high (links level high)
          (Linked.tail [tower] _ linked) (fun other member => smaller other (by simp [member]))
          (by simpa using enough)
        rw [SkipList.advance, loadForward_of_stores stored tall, link]
        simp only [Exec.ok_bind, Option.map_some, Heap.read_of_live present.live, if_pos pass,
          loadSpan_of_stores stored tall, continued]
        simp [lastAbove, passedSpan, high, spanAt, stored.live, BitVec.add_assoc]
      · -- A short tower is not on this level, so the pointer already leads past it.
        rw [List.cons_append, firstAbove_cons, if_neg high] at link
        have continued := ih current node fuel rank stored tall link (Linked.tail [tower] _ linked)
          (fun other member => smaller other (by simp [member])) (by simp at enough; omega)
        simpa [lastAbove, passedSpan, high] using continued

/-- The search loop of the deletion ends where the search loop of the insertion ends. -/
theorem seek_of_advance {heap : Heap (SkipListNode K V)} {level : Nat} {ele : K} {score : V}
    (fuel : Nat) (start final : Ref) (rank total : UnsignedInt)
    (returned : SkipList.advance heap level ele score fuel start rank = .ok (final, total)) :
    SkipList.seek heap level ele score fuel start = .ok final := by
  induction fuel generalizing start rank with
  | zero => simp [SkipList.advance] at returned
  | succ fuel ih =>
      rw [SkipList.advance] at returned
      rw [SkipList.seek]
      obtain ⟨next, loaded, returned⟩ := (Exec.bind_eq_ok _ _ _).mp returned
      rw [loaded, Exec.ok_bind]
      cases next with
      | none =>
          simp only [Exec.pure_eq, Except.ok.injEq, Prod.mk.injEq] at returned ⊢
          exact returned.1
      | some next =>
          obtain ⟨node, present, returned⟩ := (Exec.bind_eq_ok _ _ _).mp returned
          simp only [present, Exec.ok_bind]
          split at returned
          · rename_i pass
            obtain ⟨span, _, returned⟩ := (Exec.bind_eq_ok _ _ _).mp returned
            rw [if_pos pass]
            exact ih next _ returned
          · rename_i stop
            rw [if_neg stop]
            simp only [Exec.pure_eq, Except.ok.injEq, Prod.mk.injEq] at returned ⊢
            exact returned.1

/-- The towers ahead of the key and the towers behind it form one linked list after the head. -/
structure Corridor (heap : Heap (SkipListNode K V)) (head : Tower K V) (ahead behind : List (Tower K V))
    (ele : K) (score : V) (fuel : Nat) : Prop where
  linked : Linked heap (head :: (ahead ++ behind))
  smaller : ∀ tower ∈ ahead, tower.Precedes ele score
  larger : ∀ tower ∈ behind, ¬ tower.Precedes ele score
  highest : ∀ tower ∈ ahead, tower.height ≤ head.height
  enough : ahead.length < fuel

section Corridor
variable {heap : Heap (SkipListNode K V)} {head : Tower K V} {ahead behind : List (Tower K V)}
  {ele : K} {score : V} {fuel : Nat}

/-- A tower up to the key links to the towers after it. -/
theorem Corridor.linkedAt_of_split (corridor : Corridor heap head ahead behind ele score fuel)
    {front back : List (Tower K V)} {tower : Tower K V} (split : head :: ahead = front ++ tower :: back) :
    LinkedAt heap tower (back ++ behind) := by
  apply corridor.linked front tower (back ++ behind)
  rw [← List.cons_append, split, List.append_assoc, List.cons_append]

/-- The search on one level goes from the stop of the level above to its own stop. -/
theorem Corridor.advance (corridor : Corridor heap head ahead behind ele score fuel)
    (level : Nat) (inside : level < head.height) (rank : UnsignedInt) :
    ∃ front back, head :: ahead = front ++ stop head ahead (level + 1) :: back ∧
      SkipList.advance heap level ele score fuel (stop head ahead (level + 1)).ref rank =
        .ok ((stop head ahead level).ref,
          rank + passedSpan heap level (stop head ahead (level + 1)) back) := by
  obtain ⟨front, back, split, _⟩ := lastAbove_split Tower.height (level + 1) head ahead
  have tall := stop_succ_height head ahead level inside
  obtain ⟨node, stored, links⟩ := corridor.linkedAt_of_split split
  have whole : head :: (ahead ++ behind) = (front ++ [stop head ahead (level + 1)]) ++ (back ++ behind) := by
    rw [← List.cons_append, split]
    simp
  have later : ∀ tower ∈ back, tower ∈ ahead := by
    intro tower member
    cases front with
    | nil => exact (List.cons.inj split).2 ▸ member
    | cons first front =>
        have tail : ahead = front ++ stop head ahead (level + 1) :: back := (List.cons.inj split).2
        rw [tail]
        simp [member]
  have short : back.length ≤ ahead.length := by
    have counted := congrArg List.length split
    simp only [List.length_cons, List.length_append] at counted
    omega
  refine ⟨front, back, split, ?_⟩
  rw [advance_run back behind _ node fuel rank stored tall (links level tall)
    (Linked.tail _ _ (whole ▸ corridor.linked)) (fun tower member => corridor.smaller tower (later tower member))
    corridor.larger (lt_of_le_of_lt short corridor.enough),
    ← lastAbove_restart Tower.height level head _ ahead front back split tall]

/-- The whole search of an insertion stores the stop of every level and the spans passed there. -/
theorem Corridor.searchInsert (corridor : Corridor heap head ahead behind ele score fuel)
    (levels : Nat) (inside : levels ≤ head.height) (path : SkipList.InsertPath)
    (start : path.curr = (stop head ahead levels).ref)
    (room : levels ≤ path.update.size) (rankRoom : levels ≤ path.rank.size) :
    ∃ final, SkipList.searchInsert heap ele score fuel levels path = .ok final ∧
      final.curr = (stop head ahead 0).ref ∧
      final.update.size = path.update.size ∧ final.rank.size = path.rank.size ∧
      (∀ level < levels, final.update.cells level = some (stop head ahead level).ref) ∧
      (∀ level, levels ≤ level → final.rank.cells level = path.rank.cells level) ∧
      (∀ level < levels, ∃ front back, head :: ahead = front ++ stop head ahead (level + 1) :: back ∧
        final.rank.cells level =
          path.rank.cells level + passedSpan heap level (stop head ahead (level + 1)) back) ∧
      (∀ level, levels ≤ level → final.update.cells level = path.update.cells level) := by
  induction levels generalizing path with
  | zero => exact ⟨path, rfl, start, rfl, rfl, by simp, fun _ _ => rfl, by simp, fun _ _ => rfl⟩
  | succ level ih =>
      obtain ⟨front, back, split, advanced⟩ := corridor.advance level inside (path.rank.cells level)
      obtain ⟨final, searched, curr, size, rankSize, updates, oldRanks, ranks, oldUpdates⟩ :=
        ih (by omega)
          ⟨(stop head ahead level).ref,
            ⟨path.update.size, Function.update path.update.cells level (some (stop head ahead level).ref)⟩,
            ⟨path.rank.size, Function.update path.rank.cells level
              (path.rank.cells level + passedSpan heap level (stop head ahead (level + 1)) back)⟩⟩
          rfl (by show level ≤ path.update.size; omega) (by show level ≤ path.rank.size; omega)
      refine ⟨final, ?_, curr, size, rankSize, ?_, ?_, ?_, ?_⟩
      · rw [SkipList.searchInsert, Buffer.read_inside (by omega), Exec.ok_bind, start, advanced, Exec.ok_bind]
        dsimp only
        rw [Buffer.write_inside (by omega), Exec.ok_bind, Buffer.write_inside (by omega), Exec.ok_bind, searched]
      · intro other below
        by_cases same : other = level
        · subst other
          rw [oldUpdates level le_rfl]
          simp
        · exact updates other (by omega)
      · intro other above
        rw [oldRanks other (by omega)]
        exact Function.update_of_ne (by omega) _ _
      · intro other below
        by_cases same : other = level
        · subst other
          refine ⟨front, back, split, ?_⟩
          rw [oldRanks level le_rfl]
          simp
        · obtain ⟨first, second, position, value⟩ := ranks other (by omega)
          refine ⟨first, second, position, value.trans ?_⟩
          dsimp only
          rw [Function.update_of_ne same]
      · intro other above
        rw [oldUpdates other (by omega)]
        exact Function.update_of_ne (by omega) _ _

/-- The stop of a level points to the first tower behind the key that reaches the level. -/
theorem Corridor.forward_stop (corridor : Corridor heap head ahead behind ele score fuel)
    (level : Nat) (inside : level < head.height) :
    ∃ node, Stores heap (stop head ahead level) node ∧
      node.forward level = (firstAbove Tower.height level behind).map Tower.ref := by
  obtain ⟨front, back, split, low⟩ := lastAbove_split Tower.height level head ahead
  obtain ⟨node, stored, links⟩ := corridor.linkedAt_of_split split
  refine ⟨node, stored, ?_⟩
  rw [links level (stop_height head ahead level inside), firstAbove_append_short Tower.height level back behind low]

/-- The whole search of a deletion stores the stop of every level and finds the target's node
and its highest level. -/
theorem Corridor.searchDelete {target : Tower K V} {post : List (Tower K V)}
    (corridor : Corridor heap head ahead (target :: post) target.ele target.score fuel)
    (unique : ∀ tower ∈ post, tower.ele ≠ target.ele) (positive : 0 < target.height) (maxLevel : Nat)
    (bounded : target.height ≤ maxLevel) (levels : Nat) (inside : levels ≤ head.height)
    (path : SkipList.DeletePath) (start : path.curr = (stop head ahead levels).ref)
    (room : levels ≤ path.update.size)
    (flag : path.level = if levels < target.height then target.height - 1 else maxLevel) :
    ∃ final, SkipList.searchDelete heap target.ele target.score maxLevel fuel levels path = .ok final ∧
      final.update.size = path.update.size ∧
      (∀ level < levels, final.update.cells level = some (stop head ahead level).ref) ∧
      (∀ level, levels ≤ level → final.update.cells level = path.update.cells level) ∧
      final.level = target.height - 1 ∧
      final.node = if levels = 0 then path.node else some target.ref := by
  induction levels generalizing path with
  | zero => exact ⟨path, rfl, rfl, by simp, fun _ _ => rfl, by simp [flag, positive], by simp⟩
  | succ level ih =>
      obtain ⟨_, back, _, advanced⟩ := corridor.advance level inside 0
      have sought := seek_of_advance fuel _ _ _ _ advanced
      obtain ⟨node, stored, link⟩ := corridor.forward_stop level inside
      have loaded : loadForward heap (stop head ahead level).ref level =
          .ok ((firstAbove Tower.height level (target :: post)).map Tower.ref) := by
        rw [loadForward_of_stores stored (stop_height head ahead level inside), link]
      have linked : Linked heap (target :: post) := Linked.tail (head :: ahead) _ corridor.linked
      obtain ⟨final, searched, size, updates, oldUpdates, levelEq, nodeEq⟩ :=
        ih (by omega)
          ⟨(stop head ahead level).ref,
            ⟨path.update.size, Function.update path.update.cells level (some (stop head ahead level).ref)⟩,
            (firstAbove Tower.height level (target :: post)).map Tower.ref,
            if level < target.height then target.height - 1 else maxLevel⟩
          rfl (by show level ≤ path.update.size; omega) rfl
      refine ⟨final, ?_, size, ?_, ?_, ?_, ?_⟩
      · rw [SkipList.searchDelete, start, sought, Exec.ok_bind, Buffer.write_inside (by omega), Exec.ok_bind,
          loaded, Exec.ok_bind]
        by_cases high : level < target.height
        · -- On the levels of the target the pointer leads to it.
          obtain ⟨node, present⟩ := linked.stores (List.mem_cons_self ..)
          have finds : firstAbove Tower.height level (target :: post) = some target := by
            rw [firstAbove_cons, if_pos high]
          simp only [finds, high, if_true, Option.map_some] at searched ⊢
          simp only [Heap.read_of_live present.live, Exec.ok_bind, present.ele, present.score, true_and,
            Exec.pure_eq, decide_eq_true_eq]
          by_cases top : level + 1 < target.height
          · have old : path.level ≠ maxLevel := by rw [flag, if_pos top]; omega
            rw [if_neg old, flag, if_pos top, searched]
          · have old : path.level = maxLevel := by rw [flag, if_neg top]
            have topmost : target.height - 1 = level := by omega
            rw [if_pos old, ← searched, topmost]
        · -- Above them it leads past the target, to another element.
          have old : path.level = maxLevel := by rw [flag, if_neg (by omega)]
          have passes : firstAbove Tower.height level (target :: post) = firstAbove Tower.height level post := by
            rw [firstAbove_cons, if_neg high]
          simp only [passes, high, if_false] at searched ⊢
          cases found : firstAbove Tower.height level post with
          | none => simpa [found, old] using searched
          | some other =>
              have member := firstAbove_mem _ found
              obtain ⟨node, present⟩ := linked.stores (List.mem_cons_of_mem _ member)
              have different : node.ele ≠ target.ele := by
                rw [present.ele]
                exact unique other member
              simpa [found, old, Heap.read_of_live present.live, different] using searched
      · intro other below
        by_cases same : other = level
        · subst other
          rw [oldUpdates level le_rfl]
          simp
        · exact updates other (by omega)
      · intro other above
        rw [oldUpdates other (by omega)]
        exact Function.update_of_ne (by omega) _ _
      · exact levelEq
      · rw [nodeEq, if_neg (Nat.succ_ne_zero level)]
        split
        · rename_i bottom
          rw [bottom, firstAbove_cons, if_pos positive]
          rfl
        · rfl

end Corridor

end Search

end MySkipList
