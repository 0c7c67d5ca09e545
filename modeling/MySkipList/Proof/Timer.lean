import MySkipList.Construction.Timer
import MySkipList.Foundation.Text

namespace MySkipList.Timer

open Foundation

variable {K : Type}

/-- A pending deadline and the cell that holds it. -/
structure Deadline (K : Type) where
  ref : Ref
  key : K
  expire : Int

/-- The first and the last cell of a list of deadlines. -/
def first (deadlines : List (Deadline K)) : Option Ref := deadlines.head?.map Deadline.ref

def last (deadlines : List (Deadline K)) : Option Ref := deadlines.getLast?.map Deadline.ref

/-- The cells of the deadlines are linked in both directions between two outer neighbours. -/
def Segment (heap : Heap (UtilTimer K)) : Option Ref → List (Deadline K) → Option Ref → Prop
  | _, [], _ => True
  | prev, deadline :: rest, next =>
      heap.cells deadline.ref = some ⟨deadline.key, deadline.expire, prev, (first rest).or next⟩ ∧
        Segment heap (some deadline.ref) rest next

/-- The deadlines in their order, each in its own cell. -/
structure Represents (timer : Timer K) (deadlines : List (Deadline K)) : Prop where
  head : timer.head = first deadlines
  tail : timer.tail = last deadlines
  linked : Segment timer.heap none deadlines none
  distinct : (deadlines.map Deadline.ref).Nodup

/-- The keys and deadlines that the forward pointers reach. -/
def scheduledFrom (heap : Heap (UtilTimer K)) : Nat → Option Ref → List (K × Int)
  | 0, _ => []
  | _ + 1, none => []
  | fuel + 1, some ref =>
      match heap.cells ref with
      | none => []
      | some cell => (cell.key, cell.expire) :: scheduledFrom heap fuel cell.next

/-- The key that a call pushes. -/
def Action.pushed : Action K → Option K
  | .push key _ _ => some key
  | .tick _ => none

/-- The pending keys and deadlines in their order. -/
def scheduled (timer : Timer K) : List (K × Int) := scheduledFrom timer.heap timer.turns timer.head

section Segments
variable {heap other : Heap (UtilTimer K)} {front back deadlines : List (Deadline K)} {target : Deadline K}
  {prev next : Option Ref}

@[simp] theorem first_cons (deadline : Deadline K) (rest : List (Deadline K)) :
    first (deadline :: rest) = some deadline.ref := rfl

@[simp] theorem last_concat (deadlines : List (Deadline K)) (deadline : Deadline K) :
    last (deadlines ++ [deadline]) = some deadline.ref := by
  simp [last]

theorem last_append (front : List (Deadline K)) (filled : back ≠ []) : last (front ++ back) = last back := by
  rw [last, List.getLast?_append_of_ne_nil front filled, last]

theorem last_mem {ref : Ref} (found : last deadlines = some ref) : ref ∈ deadlines.map Deadline.ref := by
  obtain ⟨deadline, ends, rfl⟩ := Option.map_eq_some_iff.mp found
  exact List.mem_map_of_mem (List.mem_of_getLast? ends)

/-- Two segments that meet are one segment. -/
theorem Segment.append (front back : List (Deadline K)) (prev next : Option Ref) :
    Segment heap prev (front ++ back) next ↔
      Segment heap prev front ((first back).or next) ∧ Segment heap ((last front).or prev) back next := by
  induction front generalizing prev with
  | nil => simp [Segment, last]
  | cons deadline rest ih =>
      rw [List.cons_append, Segment, ih (some deadline.ref), Segment, and_assoc]
      have start : (first (rest ++ back)).or next = (first rest).or ((first back).or next) := by
        cases rest <;> simp [first]
      have finish : (last rest).or (some deadline.ref) = (last (deadline :: rest)).or prev := by
        cases rest <;> simp [last, List.getLast?_cons]
      rw [start, finish]

/-- A segment depends on its own cells only. -/
theorem Segment.congr (segment : Segment heap prev deadlines next)
    (same : ∀ deadline ∈ deadlines, other.cells deadline.ref = heap.cells deadline.ref) :
    Segment other prev deadlines next := by
  induction deadlines generalizing prev with
  | nil => trivial
  | cons deadline rest ih =>
      refine ⟨?_, ih segment.2 fun later member => same later (List.mem_cons_of_mem deadline member)⟩
      rw [same deadline (List.mem_cons_self ..)]
      exact segment.1

theorem Segment.live (segment : Segment heap prev deadlines next) {deadline : Deadline K}
    (member : deadline ∈ deadlines) : ∃ cell, heap.cells deadline.ref = some cell := by
  induction deadlines generalizing prev with
  | nil => simp at member
  | cons head rest ih =>
      rcases List.mem_cons.mp member with rfl | later
      · exact ⟨_, segment.1⟩
      · exact ih segment.2 later

theorem Segment.modify_outside (segment : Segment heap prev deadlines next) {ref : Ref}
    (outside : ref ∉ deadlines.map Deadline.ref) (change : UtilTimer K → UtilTimer K) :
    Segment (heap.modify ref change) prev deadlines next := by
  refine segment.congr fun deadline member => heap.modify_of_ne ?_ change
  rintro rfl
  exact outside (List.mem_map_of_mem member)

theorem Segment.discard_outside (segment : Segment heap prev deadlines next) {ref : Ref}
    (outside : ref ∉ deadlines.map Deadline.ref) : Segment (heap.discard ref) prev deadlines next := by
  refine segment.congr fun deadline member => heap.discard_of_ne ?_
  rintro rfl
  exact outside (List.mem_map_of_mem member)

/-- An assignment to the last cell replaces the right neighbour. -/
theorem Segment.setNext (segment : Segment heap prev (front ++ [target]) next)
    (distinct : ((front ++ [target]).map Deadline.ref).Nodup) (link : Option Ref) :
    Segment (heap.modify target.ref fun cell => { cell with next := link }) prev (front ++ [target]) link := by
  obtain ⟨before, live, _⟩ := (Segment.append ..).mp segment
  rw [List.map_append, List.nodup_append'] at distinct
  have outside : target.ref ∉ front.map Deadline.ref := fun member => distinct.2.2 member (by simp)
  refine (Segment.append ..).mpr ⟨before.modify_outside outside _, ?_, trivial⟩
  exact Heap.modify_self live _

/-- An assignment to the first cell replaces the left neighbour. -/
theorem Segment.setPrev (segment : Segment heap prev (target :: back) next)
    (distinct : ((target :: back).map Deadline.ref).Nodup) (link : Option Ref) :
    Segment (heap.modify target.ref fun cell => { cell with prev := link }) link (target :: back) next :=
  ⟨Heap.modify_self segment.1 _, segment.2.modify_outside (List.nodup_cons.mp distinct).1 _⟩

end Segments

section Lists
variable {timer : Timer K} {front back deadlines : List (Deadline K)} {target : Deadline K}

theorem new_represents : (new : Timer K).Represents [] := ⟨rfl, rfl, trivial, List.nodup_nil⟩

theorem Represents.length_lt_turns (rep : timer.Represents deadlines) : deadlines.length < timer.turns := by
  have bound := timer.heap.live_length_le (deadlines.map Deadline.ref) rep.distinct (by
    intro ref member
    obtain ⟨deadline, present, rfl⟩ := List.mem_map.mp member
    exact rep.linked.live present)
  rw [List.length_map] at bound
  exact Nat.lt_succ_of_le bound

theorem Segment.scheduledFrom {heap : Heap (UtilTimer K)} {prev : Option Ref} (segment : Segment heap prev deadlines none)
    {fuel : Nat} (enough : deadlines.length < fuel) :
    Timer.scheduledFrom heap fuel (first deadlines) = deadlines.map fun deadline => (deadline.key, deadline.expire) := by
  induction deadlines generalizing prev fuel with
  | nil =>
      obtain ⟨fuel, rfl⟩ := Nat.exists_eq_add_one_of_ne_zero (Nat.ne_zero_of_lt enough)
      rfl
  | cons deadline rest ih =>
      obtain ⟨fuel, rfl⟩ := Nat.exists_eq_add_one_of_ne_zero (Nat.ne_zero_of_lt enough)
      have later := ih segment.2 (Nat.lt_of_succ_lt_succ enough)
      simp [Timer.scheduledFrom, segment.1, later]

theorem Represents.scheduled (rep : timer.Represents deadlines) :
    timer.scheduled = deadlines.map fun deadline => (deadline.key, deadline.expire) := by
  rw [Timer.scheduled, rep.head]
  exact rep.linked.scheduledFrom rep.length_lt_turns

/-- The deadlines before and after one deadline, with its cell between them. -/
theorem Represents.split (rep : timer.Represents (front ++ target :: back)) :
    Segment timer.heap none front (some target.ref) ∧
      timer.heap.cells target.ref = some ⟨target.key, target.expire, last front, first back⟩ ∧
      Segment timer.heap (some target.ref) back none := by
  obtain ⟨before, live, after⟩ := (Segment.append front (target :: back) none none).mp rep.linked
  rw [Option.or_none, Option.or_none] at live
  exact ⟨before, live, after⟩

theorem Represents.apart (rep : timer.Represents (front ++ target :: back)) :
    target.ref ∉ (front ++ back).map Deadline.ref ∧ ((front ++ back).map Deadline.ref).Nodup := by
  have distinct := rep.distinct
  rw [List.map_append, List.map_cons, List.nodup_middle, List.nodup_cons, ← List.map_append] at distinct
  exact distinct

theorem Represents.headed {neighbour : Deadline K} (rep : timer.Represents ((front ++ [neighbour]) ++ back)) :
    ∃ head, head ∈ (front ++ [neighbour]).map Deadline.ref ∧ timer.head = some head ∧
      some head = first (front ++ [neighbour]) := by
  rw [rep.head]
  cases front with
  | nil => exact ⟨neighbour.ref, by simp, rfl, rfl⟩
  | cons deadline rest => exact ⟨deadline.ref, by simp, rfl, rfl⟩

end Lists

section Operations
variable [DecidableEq K] {timer : Timer K} {front back deadlines : List (Deadline K)} {target : Deadline K}

omit [DecidableEq K] in
/-- `Push` appends the new deadline. -/
theorem Represents.push (rep : timer.Represents deadlines) (key : K) (timeout now : Int) :
    ∃ final, timer.push key timeout now = .ok (1, final) ∧
      final.Represents (deadlines ++ [⟨timer.heap.next, key, now + timeout⟩]) := by
  have fresh : ∀ deadline ∈ deadlines, deadline.ref ≠ timer.heap.next := by
    intro deadline member same
    obtain ⟨cell, live⟩ := rep.linked.live member
    rw [same] at live
    exact absurd (Heap.live_lt live) (Nat.lt_irrefl _)
  have distinct : ((deadlines ++ [(⟨timer.heap.next, key, now + timeout⟩ : Deadline K)]).map Deadline.ref).Nodup := by
    rw [List.map_append, List.map_singleton, List.nodup_append']
    refine ⟨rep.distinct, List.nodup_singleton _, ?_⟩
    intro ref member equal
    obtain ⟨deadline, present, rfl⟩ := List.mem_map.mp member
    exact fresh deadline present (List.mem_singleton.mp equal)
  let node : UtilTimer K := ⟨key, now + timeout, none, none⟩
  rcases List.eq_nil_or_concat' deadlines with rfl | ⟨front, final, rfl⟩
  · have head : timer.head = none := rep.head
    refine ⟨⟨timer.heap.alloc node, some timer.heap.next, some timer.heap.next⟩, ?_, rfl, rfl, ?_, distinct⟩
    · rw [Timer.push, head]
      rfl
    · exact ⟨Heap.alloc_self .., trivial⟩
  · obtain ⟨head, headed⟩ : ∃ head, timer.head = some head := by
      rw [rep.head]
      cases front <;> exact ⟨_, rfl⟩
    have tailed : timer.tail = some final.ref := by rw [rep.tail, last_concat]
    have different := fresh final (by simp)
    let linked := (timer.heap.alloc node).modify timer.heap.next fun cell => { cell with prev := timer.tail }
    have grown : Segment linked none (front ++ [final]) none := by
      refine rep.linked.congr fun deadline member => ?_
      obtain ⟨cell, live⟩ := rep.linked.live member
      rw [Heap.modify_of_ne _ (fresh deadline member), Heap.alloc_old node live, live]
    obtain ⟨cell, live⟩ := grown.live (show final ∈ front ++ [final] by simp)
    refine ⟨⟨linked.modify final.ref fun cell => { cell with next := some timer.heap.next }, some head,
      some timer.heap.next⟩, ?_, ?_, ?_, ?_, distinct⟩
    · rw [Timer.push, headed]
      dsimp only
      rw [Heap.assign_of_live (Heap.alloc_self timer.heap node), Exec.ok_bind, tailed]
      simp only [deref, Exec.pure_eq, Exec.ok_bind]
      rw [← tailed, Heap.assign_of_live live]
      rfl
    · rw [← headed, rep.head]
      cases front <;> rfl
    · rw [last_concat]
    · refine (Segment.append ..).mpr ⟨grown.setNext rep.distinct _, ?_, trivial⟩
      rw [Heap.modify_of_ne _ different.symm, Heap.modify_self (Heap.alloc_self timer.heap node), last_concat, tailed]
      rfl

theorem Segment.find {heap : Heap (UtilTimer K)} {prev next : Option Ref} {key : K}
    (segment : Segment heap prev (front ++ target :: back) next)
    (missing : ∀ deadline ∈ front, deadline.key ≠ key) (found : target.key = key) {fuel : Nat}
    (enough : front.length < fuel) :
    Timer.find heap key fuel (first (front ++ target :: back)) = .ok (some target.ref) := by
  induction front generalizing prev fuel with
  | nil =>
      obtain ⟨fuel, rfl⟩ := Nat.exists_eq_add_one_of_ne_zero (Nat.ne_of_gt enough)
      simp [Timer.find, Heap.read_of_live segment.1, found]
  | cons deadline rest ih =>
      obtain ⟨fuel, rfl⟩ := Nat.exists_eq_add_one_of_ne_zero (Nat.ne_zero_of_lt enough)
      have later := ih segment.2 (fun other member => missing other (List.mem_cons_of_mem deadline member))
        (Nat.lt_of_succ_lt_succ enough)
      have link : (first (rest ++ target :: back)).or next = first (rest ++ target :: back) := by
        cases rest <;> rfl
      simp [Timer.find, Heap.read_of_live segment.1, missing deadline (by simp), link, later]

omit [DecidableEq K] in
/-- A key of the list has a first deadline. -/
theorem first_occurrence {key : K} (present : key ∈ deadlines.map Deadline.key) :
    ∃ front target back, deadlines = front ++ target :: back ∧ target.key = key ∧
      ∀ deadline ∈ front, deadline.key ≠ key := by
  obtain ⟨keys, others, split, absent⟩ := List.eq_append_cons_of_mem present
  obtain ⟨front, rest, rfl, rfl, remaining⟩ := List.map_eq_append_iff.mp split
  obtain ⟨target, back, rfl, found, _⟩ := List.map_eq_cons_iff.mp remaining
  exact ⟨front, target, back, rfl, found, fun deadline member same => absent (List.mem_map.mpr ⟨deadline, member, same⟩)⟩

theorem Segment.find_absent {heap : Heap (UtilTimer K)} {prev : Option Ref} {key : K}
    (segment : Segment heap prev deadlines none) (missing : ∀ deadline ∈ deadlines, deadline.key ≠ key) {fuel : Nat}
    (enough : deadlines.length < fuel) : Timer.find heap key fuel (first deadlines) = .ok none := by
  induction deadlines generalizing prev fuel with
  | nil =>
      obtain ⟨fuel, rfl⟩ := Nat.exists_eq_add_one_of_ne_zero (Nat.ne_zero_of_lt enough)
      rfl
  | cons deadline rest ih =>
      obtain ⟨fuel, rfl⟩ := Nat.exists_eq_add_one_of_ne_zero (Nat.ne_zero_of_lt enough)
      have later := ih segment.2 (fun other member => missing other (List.mem_cons_of_mem deadline member))
        (Nat.lt_of_succ_lt_succ enough)
      simp [Timer.find, Heap.read_of_live segment.1, missing deadline (by simp), later]

/-- The search of `Pop` stops at the first deadline of its key. -/
theorem Represents.find (rep : timer.Represents (front ++ target :: back))
    (missing : ∀ deadline ∈ front, deadline.key ≠ target.key) :
    Timer.find timer.heap target.key timer.turns timer.head = .ok (some target.ref) := by
  rw [rep.head]
  refine rep.linked.find missing rfl ?_
  have bound := rep.length_lt_turns
  simp only [List.length_append, List.length_cons] at bound
  omega

theorem Represents.pop_only (rep : timer.Represents [target]) :
    ∃ final, timer.pop target.key = .ok (0, final) ∧ final.Represents [] := by
  have whole : timer.Represents ([] ++ [target]) := rep
  have reached := whole.find (by simp)
  have head : timer.head = some target.ref := rep.head
  have tail : timer.tail = some target.ref := rep.tail
  refine ⟨⟨timer.heap.discard target.ref, none, none⟩, ?_, rfl, rfl, trivial, List.nodup_nil⟩
  rw [head] at reached
  rw [Timer.pop, head]
  dsimp only
  rw [reached, Exec.ok_bind, if_pos ⟨rfl, tail.symm⟩, Heap.free_of_live rep.linked.1]
  rfl

theorem Represents.pop_first {second : Deadline K} (rep : timer.Represents (target :: second :: back)) :
    ∃ final, timer.pop target.key = .ok (0, final) ∧ final.Represents (second :: back) := by
  have whole : timer.Represents ([] ++ target :: second :: back) := rep
  have reached := whole.find (by simp)
  obtain ⟨_, live, after⟩ := whole.split
  obtain ⟨apart, distinct⟩ := whole.apart
  rw [List.nil_append] at apart distinct
  have head : timer.head = some target.ref := rep.head
  have tail : timer.tail = last (second :: back) := rep.tail.trans (last_append [target] (List.cons_ne_nil second back))
  have longer : some target.ref ≠ timer.tail := fun same => apart (last_mem (same.trans tail).symm)
  have other : target.ref ≠ second.ref := fun same => apart (by simp [same])
  let moved := timer.heap.modify second.ref fun cell => { cell with prev := none }
  refine ⟨⟨moved.discard target.ref, some second.ref, timer.tail⟩, ?_, rfl, tail, ?_, distinct⟩
  · rw [head] at reached
    rw [Timer.pop, head]
    dsimp only
    rw [reached, Exec.ok_bind, if_neg fun both => longer both.2, if_pos rfl, Heap.read_of_live live, Exec.ok_bind]
    simp only [first_cons, deref, Exec.pure_eq, Exec.ok_bind]
    rw [Heap.assign_of_live after.1, Exec.ok_bind, Heap.free_of_live ((Heap.modify_of_ne _ other _).trans live)]
    rfl
  · exact (after.setPrev distinct none).discard_outside apart

theorem Represents.pop_last {neighbour : Deadline K} (rep : timer.Represents ((front ++ [neighbour]) ++ [target]))
    (missing : ∀ deadline ∈ front ++ [neighbour], deadline.key ≠ target.key) :
    ∃ final, timer.pop target.key = .ok (0, final) ∧ final.Represents (front ++ [neighbour]) := by
  have reached := rep.find missing
  obtain ⟨before, live, _⟩ := rep.split
  obtain ⟨apart, distinct⟩ := rep.apart
  rw [List.append_nil] at apart distinct
  obtain ⟨head, member, headed, started⟩ := rep.headed
  have tail : timer.tail = some target.ref := by rw [rep.tail, last_concat]
  have later : some target.ref ≠ some head := by
    intro same
    rw [Option.some.inj same] at apart
    exact apart member
  have other : target.ref ≠ neighbour.ref := fun same => apart (by simp [same])
  obtain ⟨cell, held⟩ := before.live (show neighbour ∈ front ++ [neighbour] by simp)
  let moved := timer.heap.modify neighbour.ref fun cell => { cell with next := none }
  refine ⟨⟨moved.discard target.ref, some head, some neighbour.ref⟩, ?_, started, (last_concat ..).symm, ?_, distinct⟩
  · rw [headed] at reached
    rw [Timer.pop, headed]
    dsimp only
    rw [reached, Exec.ok_bind, if_neg fun both => later both.1, if_neg later, if_pos tail.symm, tail]
    simp only [deref, Exec.pure_eq, Exec.ok_bind]
    rw [Heap.read_of_live live, Exec.ok_bind]
    simp only [last_concat, Exec.ok_bind]
    rw [Heap.assign_of_live held, Exec.ok_bind, Heap.free_of_live ((Heap.modify_of_ne _ other _).trans live)]
    rfl
  · exact (before.setNext distinct none).discard_outside apart

theorem Represents.pop_middle {neighbour second : Deadline K}
    (rep : timer.Represents ((front ++ [neighbour]) ++ target :: second :: back))
    (missing : ∀ deadline ∈ front ++ [neighbour], deadline.key ≠ target.key) :
    ∃ final, timer.pop target.key = .ok (0, final) ∧
      final.Represents ((front ++ [neighbour]) ++ second :: back) := by
  have reached := rep.find missing
  obtain ⟨before, live, after⟩ := rep.split
  obtain ⟨apart, distinct⟩ := rep.apart
  rw [List.map_append] at apart
  obtain ⟨notBefore, notAfter⟩ := not_or.mp (fun member => apart (List.mem_append.mpr member))
  obtain ⟨frontDistinct, backDistinct, disjoint⟩ := List.nodup_append'.mp (List.map_append ▸ distinct)
  obtain ⟨head, member, headed, started⟩ := rep.headed
  have tail : timer.tail = last (second :: back) := by
    rw [rep.tail, ← last_append ((front ++ [neighbour]) ++ [target]) (List.cons_ne_nil second back)]
    simp
  have later : some target.ref ≠ some head := by
    intro same
    rw [Option.some.inj same] at notBefore
    exact notBefore member
  have longer : some target.ref ≠ timer.tail := fun same => notAfter (last_mem (same.trans tail).symm)
  have left : target.ref ≠ neighbour.ref := fun same => notBefore (by simp [same])
  have right : target.ref ≠ second.ref := fun same => notAfter (by simp [same])
  obtain ⟨cell, held⟩ := before.live (show neighbour ∈ front ++ [neighbour] by simp)
  let half := timer.heap.modify neighbour.ref fun cell => { cell with next := some second.ref }
  have halfBefore : Segment half none (front ++ [neighbour]) (some second.ref) :=
    before.setNext frontDistinct (some second.ref)
  have halfAfter : Segment half (some target.ref) (second :: back) none :=
    after.modify_outside (fun inside => disjoint (by simp) inside) _
  have halfLive : half.cells target.ref = _ := (Heap.modify_of_ne _ left _).trans live
  let moved := half.modify second.ref fun cell => { cell with prev := some neighbour.ref }
  refine ⟨⟨moved.discard target.ref, some head, timer.tail⟩, ?_, ?_, ?_, ?_, distinct⟩
  · rw [headed] at reached
    rw [Timer.pop, headed]
    dsimp only
    rw [reached, Exec.ok_bind, if_neg fun both => later both.1, if_neg later, if_neg longer]
    simp only [deref, Exec.pure_eq, Exec.ok_bind]
    rw [Heap.read_of_live live, Exec.ok_bind]
    simp only [last_concat, first_cons, Exec.ok_bind]
    rw [Heap.assign_of_live held, Exec.ok_bind, Heap.read_of_live halfLive, Exec.ok_bind]
    simp only [last_concat, first_cons, Exec.ok_bind]
    rw [Heap.assign_of_live halfAfter.1, Exec.ok_bind,
      Heap.free_of_live ((Heap.modify_of_ne _ right _).trans halfLive)]
    rfl
  · rw [started]
    cases front <;> rfl
  · rw [tail, last_append _ (List.cons_ne_nil second back)]
  · refine (Segment.append ..).mpr ⟨?_, ?_⟩
    · exact (halfBefore.modify_outside (fun inside => disjoint inside (by simp)) _).discard_outside notBefore
    · rw [last_concat]
      exact (halfAfter.setPrev backDistinct _).discard_outside notAfter

/-- `Pop` removes the first deadline of its key. -/
theorem Represents.pop (rep : timer.Represents (front ++ target :: back))
    (missing : ∀ deadline ∈ front, deadline.key ≠ target.key) :
    ∃ final, timer.pop target.key = .ok (0, final) ∧ final.Represents (front ++ back) := by
  rcases List.eq_nil_or_concat' front with rfl | ⟨earlier, neighbour, rfl⟩
  · cases back with
    | nil => exact rep.pop_only
    | cons second rest => exact rep.pop_first
  · cases back with
    | nil =>
        rw [List.append_nil]
        exact rep.pop_last missing
    | cons second rest => exact rep.pop_middle missing

/-- `Pop` follows the null pointer that the search for an absent key leaves. -/
theorem Represents.pop_absent (rep : timer.Represents deadlines) (filled : deadlines ≠ []) {key : K}
    (missing : ∀ deadline ∈ deadlines, deadline.key ≠ key) : timer.pop key = .error .nullPointer := by
  have reached := rep.linked.find_absent missing rep.length_lt_turns
  obtain ⟨head, headed⟩ : ∃ head, first deadlines = some head :=
    Option.ne_none_iff_exists'.mp (by simpa [first] using filled)
  obtain ⟨tail, tailed⟩ : ∃ tail, last deadlines = some tail :=
    Option.ne_none_iff_exists'.mp (by simpa [last] using filled)
  rw [headed] at reached
  rw [Timer.pop, rep.head, rep.tail, headed, tailed]
  dsimp only
  rw [reached, Exec.ok_bind]
  rfl

/-- `Tick` pops the leading due deadlines and returns their keys. -/
theorem Represents.tickLoop (rep : timer.Represents deadlines) (now : Int) {fuel : Nat}
    (enough : deadlines.length < fuel) :
    ∃ final, Timer.tickLoop now fuel timer =
        .ok ((deadlines.takeWhile fun deadline => deadline.expire ≤ now).map Deadline.key, final) ∧
      final.Represents (deadlines.dropWhile fun deadline => deadline.expire ≤ now) := by
  induction deadlines generalizing timer fuel with
  | nil =>
      obtain ⟨fuel, rfl⟩ := Nat.exists_eq_add_one_of_ne_zero (Nat.ne_zero_of_lt enough)
      have head : timer.head = none := rep.head
      exact ⟨timer, by simp [Timer.tickLoop, head], rep⟩
  | cons deadline rest ih =>
      obtain ⟨fuel, rfl⟩ := Nat.exists_eq_add_one_of_ne_zero (Nat.ne_zero_of_lt enough)
      have head : timer.head = some deadline.ref := rep.head
      by_cases due : deadline.expire ≤ now
      · have whole : timer.Represents ([] ++ deadline :: rest) := rep
        obtain ⟨middle, popped, still⟩ := whole.pop (by simp)
        obtain ⟨final, returned, kept⟩ := ih still (Nat.lt_of_succ_lt_succ enough)
        refine ⟨final, ?_, ?_⟩
        · simp [Timer.tickLoop, head, Heap.read_of_live rep.linked.1, not_lt.mpr due, due, popped, returned]
        · simpa [due] using kept
      · refine ⟨timer, ?_, ?_⟩
        · simp [Timer.tickLoop, head, Heap.read_of_live rep.linked.1, not_le.mp due, due]
        · simpa [due] using rep

theorem Represents.tick (rep : timer.Represents deadlines) (now : Int) :
    ∃ final, timer.tick now =
        .ok ((deadlines.takeWhile fun deadline => deadline.expire ≤ now).map Deadline.key, final) ∧
      final.Represents (deadlines.dropWhile fun deadline => deadline.expire ≤ now) :=
  rep.tickLoop now rep.length_lt_turns

omit [DecidableEq K] in
theorem push_result {final : Timer K} {key : K} {timeout now result : Int}
    (returned : timer.push key timeout now = .ok (result, final)) : result = 1 := by
  unfold Timer.push at returned
  dsimp only at returned
  split at returned
  · exact (Prod.mk.inj (Except.ok.inj returned)).1.symm
  · obtain ⟨_, _, returned⟩ := (Exec.bind_eq_ok _ _ _).mp returned
    obtain ⟨_, _, returned⟩ := (Exec.bind_eq_ok _ _ _).mp returned
    obtain ⟨_, _, returned⟩ := (Exec.bind_eq_ok _ _ _).mp returned
    exact (Prod.mk.inj (Except.ok.inj returned)).1.symm

/-- A call that returns hands out leading keys and appends the key that it pushes. -/
theorem Represents.act (rep : timer.Represents deadlines) (action : Action K) :
    ∃ keys final later, Timer.act timer action = .ok (keys, final) ∧ final.Represents later ∧
      keys ++ later.map Deadline.key = deadlines.map Deadline.key ++ action.pushed.toList := by
  cases action with
  | push key timeout now =>
      obtain ⟨final, pushed, still⟩ := rep.push key timeout now
      exact ⟨[], final, _, by simp [Timer.act, pushed], still, by simp [Action.pushed]⟩
  | tick now =>
      obtain ⟨final, ticked, still⟩ := rep.tick now
      refine ⟨_, final, _, ticked, still, ?_⟩
      rw [← List.map_append, List.takeWhile_append_dropWhile, Action.pushed, Option.toList_none, List.append_nil]

/-- Every run of pushes and ticks returns a linked list of deadlines. -/
theorem act_represents (actions : List (Action K)) :
    ∃ outputs timer deadlines, run act new actions = .ok (outputs, timer) ∧ timer.Represents deadlines := by
  obtain ⟨outputs, timer, returned, deadlines, rep⟩ := run_total act
    (fun timer : Timer K => ∃ deadlines, timer.Represents deadlines) (by
      rintro timer action ⟨deadlines, rep⟩
      obtain ⟨keys, final, later, acted, still, _⟩ := rep.act action
      exact ⟨keys, final, acted, later, still⟩)
    new actions ⟨[], new_represents⟩
  exact ⟨outputs, timer, deadlines, returned, rep⟩

/-- Every run of pushes and ticks returns a linked list of deadlines. The keys that the ticks handed out and the keys of
the list together are the pushed keys in their order. -/
theorem act_conserves (actions : List (Action K)) :
    ∃ outputs timer deadlines, run act new actions = .ok (outputs, timer) ∧ timer.Represents deadlines ∧
      timer.scheduled.map Prod.fst = deadlines.map Deadline.key ∧
      outputs.flatten ++ deadlines.map Deadline.key = actions.filterMap Action.pushed := by
  obtain ⟨outputs, timer, returned, deadlines, rep, conserved⟩ := run_total_history act
    (fun past outputs timer => ∃ deadlines : List (Deadline K), timer.Represents deadlines ∧
      outputs.flatten ++ deadlines.map Deadline.key = past.filterMap Action.pushed) (by
      rintro past outputs timer action ⟨deadlines, rep, conserved⟩
      obtain ⟨keys, final, later, acted, still, moved⟩ := rep.act action
      refine ⟨keys, final, acted, later, still, ?_⟩
      calc (outputs ++ [keys]).flatten ++ later.map Deadline.key
          = outputs.flatten ++ (keys ++ later.map Deadline.key) := by simp
        _ = (outputs.flatten ++ deadlines.map Deadline.key) ++ action.pushed.toList := by
            rw [moved, List.append_assoc]
        _ = (past ++ [action]).filterMap Action.pushed := by
            rw [conserved, List.filterMap_append]
            cases pushed : action.pushed <;> simp [pushed])
    [] [] new actions ⟨[], new_represents, rfl⟩
  refine ⟨outputs, timer, deadlines, returned, rep, ?_, conserved⟩
  rw [rep.scheduled, List.map_map]
  rfl

/-- `Pop` unlinks the first deadline of the key and returns 0, or it returns -1 for an absent key and changes nothing. -/
def PopsExactly (timer : Timer K) (deadlines : List (Deadline K)) (key : K) : Prop :=
  (∃ front target back final, deadlines = front ++ target :: back ∧ target.key = key ∧
    (∀ deadline ∈ front, deadline.key ≠ key) ∧ timer.pop key = .ok (0, final) ∧ final.Represents (front ++ back)) ∨
  (key ∉ deadlines.map Deadline.key ∧ timer.pop key = .ok (-1, timer))

/-- `Pop` is correct on a linked list if and only if the list is empty or holds the key. -/
theorem pop_exact_iff (rep : timer.Represents deadlines) (key : K) :
    timer.PopsExactly deadlines key ↔ deadlines = [] ∨ key ∈ deadlines.map Deadline.key := by
  constructor
  · rintro (⟨front, target, back, _, rfl, rfl, _⟩ | ⟨absent, popped⟩)
    · exact .inr (List.mem_map_of_mem (by simp))
    · refine .inl (by_contra fun filled => ?_)
      have fault := rep.pop_absent filled fun deadline member same => absent (List.mem_map.mpr ⟨deadline, member, same⟩)
      rw [fault] at popped
      cases popped
  · rintro (rfl | present)
    · have head : timer.head = none := rep.head
      exact .inr ⟨List.not_mem_nil, by rw [Timer.pop, head]; rfl⟩
    · obtain ⟨front, target, back, split, same, missing⟩ := first_occurrence present
      subst split same
      obtain ⟨final, popped, still⟩ := rep.pop missing
      exact .inl ⟨front, target, back, final, rfl, rfl, missing, popped, still⟩

/-- A list of two deadlines of one key keeps the second one. -/
theorem pop_exact_repeated :
    ∃ (timer : Timer Str) (deadlines : List (Deadline Str)), timer.Represents deadlines ∧
      deadlines.map Deadline.key = [bytes "a", bytes "a"] ∧
      timer.PopsExactly deadlines (bytes "a") := by
  obtain ⟨first, _, started⟩ := (new_represents (K := Str)).push (bytes "a") 10 0
  obtain ⟨timer, _, rep⟩ := started.push (bytes "a") 20 0
  exact ⟨timer, _, rep, rfl, (pop_exact_iff rep (bytes "a")).mpr (.inr (by simp))⟩

/-- `Pop` of an absent key follows a null pointer. -/
theorem pop_absent_faults :
    ∃ (timer : Timer Str) (deadlines : List (Deadline Str)),
      new.push (bytes "a") 10 0 = .ok (1, timer) ∧ timer.Represents deadlines ∧
      timer.pop (bytes "b") = .error .nullPointer ∧ ¬ timer.PopsExactly deadlines (bytes "b") := by
  obtain ⟨timer, pushed, rep⟩ := (new_represents (K := Str)).push (bytes "a") 10 0
  have absent : bytes "b" ≠ bytes "a" := by decide
  have fault : timer.pop (bytes "b") = .error .nullPointer :=
    rep.pop_absent (by simp) (by simpa using absent.symm)
  refine ⟨timer, _, pushed, rep, fault, ?_⟩
  rintro (⟨front, target, back, final, _, _, _, popped, _⟩ | ⟨_, popped⟩)
  all_goals
    rw [fault] at popped
    cases popped

end Operations

section Due
variable {A : Type} (due : A → Bool)

/-- In a list without an entry before a due one that is not due itself, the leading due entries are all of them. -/
theorem split_of_ascending {entries : List A} (ascending : entries.Pairwise fun first second => due second → due first) :
    entries.takeWhile due = entries.filter due ∧ entries.dropWhile due = entries.filter fun entry => !due entry := by
  induction entries with
  | nil => exact ⟨rfl, rfl⟩
  | cons entry rest ih =>
      obtain ⟨earlier, later⟩ := List.pairwise_cons.mp ascending
      obtain ⟨taken, left⟩ := ih later
      cases now : due entry with
      | true => simp [now, taken, left]
      | false =>
          have none : ∀ other ∈ rest, due other = false := by
            intro other member
            rw [Bool.eq_false_iff]
            intro isDue
            exact absurd (earlier other member isDue) (by simp [now])
          have empty : rest.filter due = [] := List.filter_eq_nil_iff.mpr fun other member => by simp [none other member]
          have whole : rest.filter (fun entry => !due entry) = rest :=
            List.filter_eq_self.mpr fun other member => by simp [none other member]
          simp [now, empty, whole]

/-- A list with as many leading due entries as due entries has no entry before a due one that is not due itself. -/
theorem ascending_of_length {entries : List A} (length : (entries.takeWhile due).length = (entries.filter due).length) :
    entries.Pairwise fun first second => due second → due first := by
  induction entries with
  | nil => exact List.Pairwise.nil
  | cons entry rest ih =>
      cases now : due entry with
      | true =>
          have shorter : (rest.takeWhile due).length = (rest.filter due).length := by simpa [now] using length
          exact List.Pairwise.cons (fun _ _ _ => now) (ih shorter)
      | false =>
          have none : rest.filter due = [] := by
            rw [← List.length_eq_zero_iff, ← List.filter_cons_of_neg (a := entry) (by simp [now]), ← length]
            simp [now]
          have never : ∀ other ∈ rest, ¬ due other := List.filter_eq_nil_iff.mp none
          refine List.Pairwise.cons (fun other member isDue => absurd isDue (never other member)) ?_
          exact List.pairwise_of_forall_mem_list fun _ _ other member isDue => absurd isDue (never other member)

end Due

/-- No deadline that is not due stands before a due one. -/
def Ascending (timer : Timer K) (now : Int) : Prop :=
  timer.scheduled.Pairwise fun first second => second.2 ≤ now → first.2 ≤ now

/-- After every run of pushes and ticks, a tick hands out exactly the due keys and leaves the other deadlines in
their order, if and only if no deadline that is not due stands before a due one. -/
theorem tick_exact_iff [DecidableEq K] (actions : List (Action K)) (now : Int) :
    ∃ outputs timer keys final, run act new actions = .ok (outputs, timer) ∧ timer.tick now = .ok (keys, final) ∧
      ((keys = (timer.scheduled.filter fun entry => entry.2 ≤ now).map Prod.fst ∧
        final.scheduled = timer.scheduled.filter fun entry => now < entry.2) ↔ timer.Ascending now) := by
  obtain ⟨outputs, timer, deadlines, returned, rep⟩ := act_represents actions
  obtain ⟨final, ticked, still⟩ := rep.tick now
  refine ⟨outputs, timer, _, final, returned, ticked, ?_⟩
  rw [Ascending, still.scheduled, rep.scheduled, List.pairwise_map, List.filter_map, List.filter_map, List.map_map]
  let due : Deadline K → Bool := fun deadline => deadline.expire ≤ now
  have order : (deadlines.Pairwise fun first second => second.expire ≤ now → first.expire ≤ now) ↔
      deadlines.Pairwise fun first second => due second → due first := by
    simp [due]
  have rest : (fun deadline : Deadline K => !due deadline) = fun deadline => decide (now < deadline.expire) := by
    funext deadline
    rw [← decide_not, decide_eq_decide]
    exact Int.not_le
  rw [order]
  constructor
  · rintro ⟨keys, _⟩
    apply ascending_of_length
    have lengths := congrArg List.length keys
    rwa [List.length_map, List.length_map] at lengths
  · intro ascending
    obtain ⟨taken, left⟩ := split_of_ascending due ascending
    rw [rest] at left
    exact ⟨congrArg (List.map Deadline.key) taken, congrArg (List.map _) left⟩

/-- A tick does not reach a due key behind a later deadline. -/
theorem tick_stops_early :
    ∃ outputs timer final,
      run act new [.push (bytes "a") 10 0, .push (bytes "b") 1 0] = .ok (outputs, timer) ∧
      timer.scheduled = [(bytes "a", 10), (bytes "b", 1)] ∧ timer.tick 5 = .ok ([], final) ∧
      ([] : List Str) ≠ (timer.scheduled.filter fun entry => entry.2 ≤ 5).map Prod.fst :=
  ⟨_, _, _, rfl, rfl, rfl, by decide⟩

end MySkipList.Timer
