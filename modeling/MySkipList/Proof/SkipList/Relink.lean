import MySkipList.Proof.SkipList.Search

namespace MySkipList

open Foundation

section Writes
variable {K V : Type}

/-- A forward write changes one array cell of one node. -/
def putForward (ref : Ref) (level : Nat) (target : Option Ref) (other : Ref) (node : SkipListNode K V) :
    SkipListNode K V :=
  { node with forward := fun query => if other = ref ∧ query = level then target else node.forward query }

/-- A span write changes one array cell of one node. -/
def putSpan (ref : Ref) (level : Nat) (steps : UnsignedInt) (other : Ref) (node : SkipListNode K V) :
    SkipListNode K V :=
  { node with span := fun query => if other = ref ∧ query = level then steps else node.span query }

/-- A backward write changes one field of one node. -/
def putBackward (ref : Ref) (target : Option Ref) (other : Ref) (node : SkipListNode K V) :
    SkipListNode K V :=
  { node with backward := if other = ref then target else node.backward }

variable {heap : Heap (SkipListNode K V)} {ref : Ref} {node : SkipListNode K V}

theorem checked_of_live (live : heap.cells ref = some node) {level : Nat} (inside : level < node.level) :
    checked heap ref level = .ok node := by
  simp [checked, Heap.read_of_live live, inside]

theorem loadForward_of_live (live : heap.cells ref = some node) {level : Nat} (inside : level < node.level) :
    loadForward heap ref level = .ok (node.forward level) := by
  simp [loadForward, checked_of_live live inside]

theorem loadSpan_of_live (live : heap.cells ref = some node) {level : Nat} (inside : level < node.level) :
    loadSpan heap ref level = .ok (node.span level) := by
  simp [loadSpan, checked_of_live live inside]

theorem storeForward_of_live (live : heap.cells ref = some node) {level : Nat} (inside : level < node.level)
    (target : Option Ref) :
    storeForward heap ref level target = .ok (heap.mapCells (putForward ref level target)) := by
  rw [storeForward, checked_of_live live inside, Exec.ok_bind, Exec.pure_eq, Heap.modify_eq_mapCells]
  congr 2
  funext other stored
  by_cases same : other = ref
  · rw [if_pos same]
    ext query : 2 <;> simp only [putForward, same, true_and]
    rw [Function.update_apply]
  · simp [putForward, same]

theorem storeSpan_of_live (live : heap.cells ref = some node) {level : Nat} (inside : level < node.level)
    (steps : UnsignedInt) :
    storeSpan heap ref level steps = .ok (heap.mapCells (putSpan ref level steps)) := by
  rw [storeSpan, checked_of_live live inside, Exec.ok_bind, Exec.pure_eq, Heap.modify_eq_mapCells]
  congr 2
  funext other stored
  by_cases same : other = ref
  · rw [if_pos same]
    ext query : 2 <;> simp only [putSpan, same, true_and]
    rw [Function.update_apply]
  · simp [putSpan, same]

theorem storeBackward_of_live (live : heap.cells ref = some node) (target : Option Ref) :
    storeBackward heap ref target = .ok (heap.mapCells (putBackward ref target)) := by
  rw [storeBackward, Heap.read_of_live live, Exec.ok_bind, Exec.pure_eq, Heap.modify_eq_mapCells]
  congr 2
  funext other stored
  by_cases same : other = ref <;> simp [putBackward, same]

/-- A transformed heap stores the transformed node. -/
theorem mapCells_live (live : heap.cells ref = some node)
    (change : Ref → SkipListNode K V → SkipListNode K V) :
    (heap.mapCells change).cells ref = some (change ref node) := by
  rw [Heap.mapCells_cells, live, Option.map_some]

end Writes

section Unlink
variable {K V : Type}

/-- The effect of the unlink loop on one cell after the levels below the count. -/
def unlinkCell (target : SkipListNode K V) (pred : Nat → Ref) (count : Nat) (ref : Ref)
    (node : SkipListNode K V) : SkipListNode K V :=
  { node with
    forward := fun level =>
      if level < count ∧ ref = pred level then target.forward level else node.forward level
    span := fun level =>
      if level < count ∧ ref = pred level then
        if target.forward level = none then 0 else node.span level + (target.span level - 1)
      else node.span level
    backward := if 0 < count ∧ target.forward 0 = some ref then some (pred 0) else node.backward }

/-- On a level without a successor the turn clears the predecessor's link and span. -/
theorem unlinkCell_none {target : SkipListNode K V} (pred : Nat → Ref) {level : Nat}
    (last : target.forward level = none) (other : Ref) (node : SkipListNode K V) :
    putForward (pred level) level none other
        (putSpan (pred level) level 0 other (unlinkCell target pred level other node)) =
      unlinkCell target pred (level + 1) other node := by
  ext query : 2 <;> simp only [putForward, putSpan, unlinkCell] <;> grind

/-- On an upper level with a successor the turn bridges the target. -/
theorem unlinkCell_some {target : SkipListNode K V} (pred : Nat → Ref) {level : Nat} {next : Ref}
    (more : target.forward level = some next) (upper : level ≠ 0) (other : Ref) (node stop : SkipListNode K V)
    (stored : other = pred level → stop = node) :
    putForward (pred level) level (some next) other
        (putSpan (pred level) level (stop.span level + (target.span level - 1)) other
          (unlinkCell target pred level other node)) =
      unlinkCell target pred (level + 1) other node := by
  ext query : 2 <;> simp only [putForward, putSpan, unlinkCell] <;> grind

/-- On the lowest level the turn also redirects the successor's backward pointer. -/
theorem unlinkCell_zero {target : SkipListNode K V} (pred : Nat → Ref) {next : Ref}
    (more : target.forward 0 = some next) (other : Ref) (node stop : SkipListNode K V)
    (stored : other = pred 0 → stop = node) :
    putBackward next (some (pred 0)) other (putForward (pred 0) 0 (some next) other
        (putSpan (pred 0) 0 (stop.span 0 + (target.span 0 - 1)) other (unlinkCell target pred 0 other node))) =
      unlinkCell target pred 1 other node := by
  ext query : 2 <;> simp only [putForward, putSpan, putBackward, unlinkCell] <;> grind

/-- The unlink loop can read the target and write its predecessor on every level. -/
structure Unlinkable (heap : Heap (SkipListNode K V)) (ref : Ref) (target : SkipListNode K V)
    (pred : Nat → Ref) (update : Buffer (Option Ref)) : Prop where
  live : heap.cells ref = some target
  room : target.level ≤ update.size
  stops : ∀ level < target.level, update.cells level = some (pred level)
  apart : ∀ level < target.level, pred level ≠ ref
  writable : ∀ level < target.level, ∃ node, heap.cells (pred level) = some node ∧ level < node.level
  successor : ∀ next, target.forward 0 = some next → ∃ node, heap.cells next = some node

section Step
variable {heap : Heap (SkipListNode K V)} {ref : Ref} {target : SkipListNode K V}
  {pred : Nat → Ref} {update : Buffer (Option Ref)}

/-- The loop leaves the links and spans of the target alone. -/
theorem Unlinkable.target_cell (ready : Unlinkable heap ref target pred update) (count : Nat)
    (bounded : count ≤ target.level) :
    (unlinkCell target pred count ref target).forward = target.forward ∧
      (unlinkCell target pred count ref target).span = target.span := by
  have apart (level : Nat) : ¬ (level < count ∧ ref = pred level) := by
    rintro ⟨inside, same⟩
    exact ready.apart level (by omega) same.symm
  constructor <;> funext level <;> exact if_neg (apart level)

/-- One turn of the unlink loop extends its effect by one level. -/
theorem Unlinkable.step (ready : Unlinkable heap ref target pred update) (remaining level : Nat)
    (inside : level < target.level) (tail : Option Ref) :
    SkipList.unlinkLevels update (some ref) (remaining + 1) level
        (heap.mapCells (unlinkCell target pred level)) tail =
      SkipList.unlinkLevels update (some ref) remaining (level + 1)
        (heap.mapCells (unlinkCell target pred (level + 1)))
        (if level = 0 ∧ target.forward 0 = none then some (pred 0) else tail) := by
  have targetLive := mapCells_live ready.live (unlinkCell target pred level)
  obtain ⟨sameForward, sameSpan⟩ := ready.target_cell level (Nat.le_of_lt inside)
  obtain ⟨node, live, tall⟩ := ready.writable level inside
  have predLive := mapCells_live live (unlinkCell target pred level)
  have oldSpan : (unlinkCell target pred level (pred level) node).span level = node.span level := by
    simp [unlinkCell]
  rw [SkipList.unlinkLevels, deref, Exec.pure_eq, Exec.ok_bind, loadForward_of_live targetLive inside,
    Exec.ok_bind, Buffer.read_inside (lt_of_lt_of_le inside ready.room), Exec.ok_bind, ready.stops level inside,
    deref, Exec.pure_eq, Exec.ok_bind, sameForward]
  cases next : target.forward level with
  | none =>
      have spanLive := mapCells_live predLive (putSpan (pred level) level 0)
      simp only [storeSpan_of_live predLive tall, storeForward_of_live spanLive tall, Exec.ok_bind]
      rw [Heap.mapCells_mapCells, Heap.mapCells_mapCells]
      congr 1
      · exact Heap.mapCells_congr fun other stored _ => unlinkCell_none pred next other stored
      · by_cases bottom : level = 0
        · subst level
          simp [next]
        · simp [bottom]
  | some successor =>
      have spanLive := mapCells_live predLive
        (putSpan (pred level) level (node.span level + (target.span level - 1)))
      simp only [loadSpan_of_live predLive tall, loadSpan_of_live targetLive inside, oldSpan, sameSpan,
        Exec.ok_bind, storeSpan_of_live predLive tall, storeForward_of_live spanLive tall]
      have agree (other : Ref) (stored : SkipListNode K V) (found : heap.cells other = some stored)
          (same : other = pred level) : node = stored := by
        rw [same, live] at found
        exact Option.some.inj found
      by_cases bottom : level = 0
      · subst level
        obtain ⟨nextNode, nextLive⟩ := ready.successor successor next
        have chain := mapCells_live (mapCells_live (mapCells_live nextLive (unlinkCell target pred 0))
          (putSpan (pred 0) 0 (node.span 0 + (target.span 0 - 1)))) (putForward (pred 0) 0 (some successor))
        simp only [if_true, storeBackward_of_live chain, Exec.ok_bind, true_and, next, reduceCtorEq, if_false]
        rw [Heap.mapCells_mapCells, Heap.mapCells_mapCells, Heap.mapCells_mapCells]
        congr 1
        exact Heap.mapCells_congr fun other stored found =>
          unlinkCell_zero pred next other stored node (agree other stored found)
      · simp only [bottom, if_false, Exec.pure_eq, Exec.ok_bind, false_and]
        rw [Heap.mapCells_mapCells, Heap.mapCells_mapCells]
        congr 1
        exact Heap.mapCells_congr fun other stored found =>
          unlinkCell_some pred next bottom other stored node (agree other stored found)

/-- The unlink loop has its whole effect after the levels of the target. -/
theorem Unlinkable.run (ready : Unlinkable heap ref target pred update) (remaining level : Nat)
    (whole : level + remaining = target.level) (tail : Option Ref) :
    SkipList.unlinkLevels update (some ref) remaining level
        (heap.mapCells (unlinkCell target pred level)) tail =
      .ok (heap.mapCells (unlinkCell target pred target.level),
        if level = 0 ∧ 0 < target.level ∧ target.forward 0 = none then some (pred 0) else tail) := by
  induction remaining generalizing level tail with
  | zero =>
      obtain rfl : level = target.level := whole
      rw [SkipList.unlinkLevels, Exec.pure_eq, if_neg (by omega)]
  | succ remaining ih =>
      rw [ready.step remaining level (by omega), ih (level + 1) (by omega), if_neg (by omega)]
      congr 2
      by_cases bottom : level = 0
      · simp [bottom, show 0 < target.level by omega]
      · simp [bottom]

end Step

end Unlink

section Link
variable {K V : Type}

/-- The effect of the link loop on one cell after the levels below the count. -/
def linkCell (fresh : Ref) (pred : Nat → Ref) (succ : Nat → Option Ref) (count : Nat) (ref : Ref)
    (node : SkipListNode K V) : SkipListNode K V :=
  { node with
    forward := fun level =>
      if level < count ∧ ref = pred level then some fresh
      else if level < count ∧ ref = fresh then succ level else node.forward level }

/-- The effect of the span loop on one cell after the levels below the count. -/
def spanCell (fresh : Ref) (pred : Nat → Ref) (rank old : Nat → UnsignedInt) (count : Nat) (ref : Ref)
    (node : SkipListNode K V) : SkipListNode K V :=
  { node with
    span := fun level =>
      if level < count ∧ ref = pred level then rank 0 - rank level + 1
      else if level < count ∧ ref = fresh then old level - (rank 0 - rank level) else node.span level }

/-- The backward write to the node that the link loop left in `next`. -/
def backwardCell (fresh : Ref) (next : Option Ref) (ref : Ref) (node : SkipListNode K V) : SkipListNode K V :=
  { node with backward := if next = some ref then some fresh else node.backward }

/-- The new node becomes the tail exactly when the link loop left no node in `next`. -/
theorem linkNext_of_live {heap : Heap (SkipListNode K V)} (fresh : Ref) (next tail : Option Ref)
    (live : ∀ target, next = some target → ∃ node, heap.cells target = some node) :
    SkipList.linkNext fresh next tail heap =
      .ok (heap.mapCells (backwardCell fresh next), if next = none then some fresh else tail) := by
  cases next with
  | none =>
      have same : heap.mapCells (backwardCell fresh none) = heap :=
        Heap.mapCells_eq_self heap fun ref node => by simp [backwardCell]
      simp [SkipList.linkNext, same]
  | some target =>
      obtain ⟨node, found⟩ := live target rfl
      have same : heap.mapCells (putBackward target (some fresh)) =
          heap.mapCells (backwardCell fresh (some target)) :=
        Heap.mapCells_congr fun ref node _ => by simp [putBackward, backwardCell, eq_comm]
      simp [SkipList.linkNext, storeBackward_of_live found, same]

/-- The link loop can write the new node and its predecessor on every level. -/
structure Linkable (heap : Heap (SkipListNode K V)) (fresh : Ref) (height : Nat) (pred : Nat → Ref)
    (update : Buffer (Option Ref)) : Prop where
  live : ∃ node, heap.cells fresh = some node ∧ height ≤ node.level
  room : height ≤ update.size
  stops : ∀ level < height, update.cells level = some (pred level)
  apart : ∀ level < height, pred level ≠ fresh
  writable : ∀ level < height, ∃ node, heap.cells (pred level) = some node ∧ level < node.level

section Step
variable {heap : Heap (SkipListNode K V)} {fresh : Ref} {height : Nat} {pred : Nat → Ref}
  {update : Buffer (Option Ref)} {succ : Nat → Option Ref}

/-- A transformation that keeps levels keeps the link loop possible. -/
theorem Linkable.mapCells (ready : Linkable heap fresh height pred update)
    (change : Ref → SkipListNode K V → SkipListNode K V) (level : ∀ ref node, (change ref node).level = node.level) :
    Linkable (heap.mapCells change) fresh height pred update where
  live := by
    obtain ⟨node, live, tall⟩ := ready.live
    exact ⟨_, mapCells_live live change, (level fresh node).symm ▸ tall⟩
  room := ready.room
  stops := ready.stops
  apart := ready.apart
  writable query inside := by
    obtain ⟨node, live, tall⟩ := ready.writable query inside
    exact ⟨_, mapCells_live live change, (level _ node).symm ▸ tall⟩

/-- One turn of the link loop extends its effect by one level. -/
theorem Linkable.step (ready : Linkable heap fresh height pred update)
    (links : ∀ level < height, ∀ node, heap.cells (pred level) = some node → node.forward level = succ level)
    (remaining level : Nat) (inside : level < height) (next : Option Ref) :
    SkipList.linkLevels update fresh (remaining + 1) level
        (heap.mapCells (linkCell fresh pred succ level)) next =
      SkipList.linkLevels update fresh remaining (level + 1)
        (heap.mapCells (linkCell fresh pred succ (level + 1))) (succ level) := by
  obtain ⟨node, live, tall⟩ := ready.writable level inside
  obtain ⟨newNode, newLive, newTall⟩ := ready.live
  have predLive := mapCells_live live (linkCell fresh pred succ level)
  have apart := ready.apart level inside
  have old : (linkCell fresh pred succ level (pred level) node).forward level = succ level := by
    simp [linkCell, links level inside node live]
  have freshLive := mapCells_live (mapCells_live newLive (linkCell fresh pred succ level))
    (putForward (pred level) level (some fresh))
  rw [SkipList.linkLevels, Buffer.read_inside (lt_of_lt_of_le inside ready.room), Exec.ok_bind,
    ready.stops level inside, deref, Exec.pure_eq, Exec.ok_bind, loadForward_of_live predLive tall, Exec.ok_bind,
    storeForward_of_live predLive tall, Exec.ok_bind, storeForward_of_live freshLive (lt_of_lt_of_le inside newTall),
    Exec.ok_bind, old, Heap.mapCells_mapCells, Heap.mapCells_mapCells]
  congr 1
  apply Heap.mapCells_congr
  intro other stored _
  ext query : 2 <;> simp only [putForward, linkCell, Function.comp_apply]
  grind

/-- The link loop has its whole effect after the levels of the new node. -/
theorem Linkable.run (ready : Linkable heap fresh height pred update)
    (links : ∀ level < height, ∀ node, heap.cells (pred level) = some node → node.forward level = succ level)
    (remaining level : Nat) (whole : level + remaining = height) (next : Option Ref) :
    SkipList.linkLevels update fresh remaining level (heap.mapCells (linkCell fresh pred succ level)) next =
      .ok (heap.mapCells (linkCell fresh pred succ height),
        if remaining = 0 then next else succ (height - 1)) := by
  induction remaining generalizing level next with
  | zero =>
      obtain rfl : level = height := whole
      rfl
  | succ remaining ih =>
      rw [ready.step links remaining level (by omega), ih (level + 1) (by omega),
        if_neg (Nat.succ_ne_zero remaining)]
      by_cases last : remaining = 0
      · rw [if_pos last, show height - 1 = level by omega]
      · rw [if_neg last]

/-- One turn of the span loop extends its effect by one level. -/
theorem Linkable.spanStep (ready : Linkable heap fresh height pred update) {rank : Buffer UnsignedInt}
    {old : Nat → UnsignedInt} (rankRoom : height ≤ rank.size)
    (linked : ∀ level < height, ∀ node, heap.cells (pred level) = some node →
      node.forward level = some fresh ∧ node.span level = old level)
    (remaining level : Nat) (inside : level < height) :
    SkipList.spanLevels update rank (remaining + 1) level
        (heap.mapCells (spanCell fresh pred rank.cells old level)) =
      SkipList.spanLevels update rank remaining (level + 1)
        (heap.mapCells (spanCell fresh pred rank.cells old (level + 1))) := by
  obtain ⟨node, live, tall⟩ := ready.writable level inside
  obtain ⟨newNode, newLive, newTall⟩ := ready.live
  obtain ⟨link, span⟩ := linked level inside node live
  have predLive := mapCells_live live (spanCell fresh pred rank.cells old level)
  have freshLive := mapCells_live newLive (spanCell fresh pred rank.cells old level)
  have apart := ready.apart level inside
  have same : (spanCell fresh pred rank.cells old level (pred level) node).span level = old level := by
    simp [spanCell, span]
  have target : (spanCell fresh pred rank.cells old level (pred level) node).forward level = some fresh := link
  have chain := mapCells_live predLive
    (putSpan fresh level (old level - (rank.cells 0 - rank.cells level)))
  rw [SkipList.spanLevels, Buffer.read_inside (lt_of_lt_of_le inside ready.room), Exec.ok_bind,
    ready.stops level inside, deref, Exec.pure_eq, Exec.ok_bind, loadSpan_of_live predLive tall, Exec.ok_bind,
    Buffer.read_inside (by omega), Exec.ok_bind, Buffer.read_inside (by omega), Exec.ok_bind,
    loadForward_of_live predLive tall, Exec.ok_bind, target, same, deref, Exec.pure_eq, Exec.ok_bind,
    storeSpan_of_live freshLive (lt_of_lt_of_le inside newTall), Exec.ok_bind,
    storeSpan_of_live chain tall, Exec.ok_bind, Heap.mapCells_mapCells, Heap.mapCells_mapCells]
  congr 1
  apply Heap.mapCells_congr
  intro other stored _
  ext query : 2 <;> simp only [putSpan, spanCell, Function.comp_apply]
  grind

/-- The span loop has its whole effect after the levels of the new node. -/
theorem Linkable.spanRun (ready : Linkable heap fresh height pred update) {rank : Buffer UnsignedInt}
    {old : Nat → UnsignedInt} (rankRoom : height ≤ rank.size)
    (linked : ∀ level < height, ∀ node, heap.cells (pred level) = some node →
      node.forward level = some fresh ∧ node.span level = old level)
    (remaining level : Nat) (whole : level + remaining = height) :
    SkipList.spanLevels update rank remaining level
        (heap.mapCells (spanCell fresh pred rank.cells old level)) =
      .ok (heap.mapCells (spanCell fresh pred rank.cells old height)) := by
  induction remaining generalizing level with
  | zero =>
      obtain rfl : level = height := whole
      rfl
  | succ remaining ih =>
      rw [ready.spanStep rankRoom linked remaining level (by omega), ih (level + 1) (by omega)]

end Step

end Link

end MySkipList
