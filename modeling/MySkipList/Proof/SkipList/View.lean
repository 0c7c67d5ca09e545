import MySkipList.Proof.SkipList.Edit

namespace MySkipList

open Foundation

/-- The view of a list: its entries in their order, the pairs of its cache from the most to the least
recently used, the keys that wait for their deletion, and the capacity. -/
structure View (K V : Type) where
  entries : List (Entry K V)
  recency : List (K × V)
  queued : List K
  capacity : Int

namespace View
variable {K V : Type} [LinearOrder K] [LinearOrder V]

/-- The entry of an element. -/
def find (view : View K V) (ele : K) : Option (Entry K V) := view.entries.find? fun entry => entry.ele = ele

/-- An element leaves the entries and the cache. -/
def unlink (view : View K V) (ele : K) : View K V :=
  { view with entries := Edit.apply view.entries (.unlink ele), recency := forget ele view.recency }

def deleteElement (view : View K V) (ele : K) : Int × View K V :=
  (if ele ∈ view.entries.map Entry.ele then 1 else 0, view.unlink ele)

/-- A new entry is linked and enters the cache. The key that the cache gives up waits for its deletion. -/
def receive (view : View K V) (entry : Entry K V) : View K V :=
  { view with
    entries := Edit.apply view.entries (.link entry)
    recency := (entry.ele, entry.score) :: makeRoom view.capacity view.recency
    queued := view.queued ++ overflow view.capacity view.recency }

/-- The waiting keys are deleted. -/
def flush (view : View K V) : View K V := { view.queued.foldl unlink view with queued := [] }

def insertFresh (view : View K V) (entry : Entry K V) : View K V := (view.receive entry).flush

def insertElement (view : View K V) (entry : Entry K V) : Int × View K V :=
  match view.find entry.ele with
  | none => (1, view.insertFresh entry)
  | some stored =>
      if stored.score = entry.score then (0, { view with recency := touch entry.ele view.recency })
      else (0, (view.unlink entry.ele).insertFresh entry)

def searchElement (toInt : V → Int) (view : View K V) (ele : K) : Int × View K V :=
  match view.find ele with
  | none => (-1, view)
  | some stored => (toInt stored.score, { view with recency := touch ele view.recency })

def setMaxMemory (view : View K V) (maxMemory : Int) : Int × View K V :=
  if maxMemory < 0 then (0, view)
  else (0, { view with
    recency := retain maxMemory view.recency
    queued := view.queued ++ dropped maxMemory view.recency
    capacity := maxMemory })

def operate (toInt : V → Int) (maxLevel : Nat) (view : View K V) : SkipList.Operation K V → Int × View K V
  | .insertElement ele score draws => view.insertElement ⟨ele, score, SkipList.getRandomLevel maxLevel draws⟩
  | .deleteElement ele => view.deleteElement ele
  | .searchElement ele => view.searchElement toInt ele
  | .setMaxMemory maxMemory => view.setMaxMemory maxMemory

/-- The edits of an insertion after the test for an existing element. -/
def freshEdits (view : View K V) (entry : Entry K V) : List (Edit K V) :=
  .link entry :: (view.receive entry).queued.map .unlink

/-- The edits of one operation in their order. -/
def edits (maxLevel : Nat) (view : View K V) : SkipList.Operation K V → List (Edit K V)
  | .insertElement ele score draws =>
      let entry : Entry K V := ⟨ele, score, SkipList.getRandomLevel maxLevel draws⟩
      match view.find ele with
      | none => view.freshEdits entry
      | some stored =>
          if stored.score = score then [] else .unlink ele :: (view.unlink ele).freshEdits entry
  | .deleteElement ele => [.unlink ele]
  | .searchElement _ => []
  | .setMaxMemory _ => []

/-- Every cached pair is an entry, and every entry outside the cache waits for its deletion. -/
structure Tracked (view : View K V) : Prop where
  recorded : ∀ key value, (key, value) ∈ view.recency → ∃ height, ⟨key, value, height⟩ ∈ view.entries
  pending : ∀ entry ∈ view.entries, entry.ele ∈ view.recency.map Prod.fst ∨ entry.ele ∈ view.queued

/-- The view between two operations: it is tracked, no waiting key is cached, and the cache fits. -/
structure Coherent (view : View K V) : Prop extends Tracked view where
  keyed : Keyed view.recency
  apart : ∀ key ∈ view.queued, key ∉ view.recency.map Prod.fst
  fits : LRUCache.Fits view.capacity view.recency
  accepted : 0 ≤ view.capacity

section Tracking
variable {view : View K V}

omit [LinearOrder K] [LinearOrder V] in
theorem Tracked.cached_mem (tracked : view.Tracked) {key : K} (cached : key ∈ view.recency.map Prod.fst) :
    key ∈ view.entries.map Entry.ele := by
  obtain ⟨⟨other, value⟩, member, rfl⟩ := List.mem_map.mp cached
  obtain ⟨height, present⟩ := tracked.recorded other value member
  exact List.mem_map.mpr ⟨_, present, rfl⟩

/-- The deletion of an absent element changes nothing. -/
theorem Tracked.unlink_absent (tracked : view.Tracked) {ele : K} (absent : ele ∉ view.entries.map Entry.ele) :
    view.unlink ele = view := by
  have kept : Edit.apply view.entries (.unlink ele) = view.entries := by
    rw [Edit.apply, List.filter_eq_self]
    intro entry member
    exact decide_eq_true fun same => absent (List.mem_map.mpr ⟨entry, member, same⟩)
  rw [unlink, kept, forget_absent fun cached => absent (tracked.cached_mem cached)]

theorem mem_unlink {ele : K} {entry : Entry K V} :
    entry ∈ (view.unlink ele).entries ↔ entry ∈ view.entries ∧ entry.ele ≠ ele := by
  simp [unlink, Edit.apply]

theorem Tracked.unlink (tracked : view.Tracked) (ele : K) : (view.unlink ele).Tracked where
  recorded key value member := by
    obtain ⟨present, different⟩ := mem_forget.mp member
    obtain ⟨height, stored⟩ := tracked.recorded key value present
    exact ⟨height, mem_unlink.mpr ⟨stored, different⟩⟩
  pending entry member := by
    obtain ⟨present, different⟩ := mem_unlink.mp member
    refine (tracked.pending entry present).imp_left fun cached => ?_
    obtain ⟨pair, inside, same⟩ := List.mem_map.mp cached
    exact List.mem_map.mpr ⟨pair, mem_forget.mpr ⟨inside, same ▸ different⟩, same⟩

theorem mem_link {entry other : Entry K V} :
    other ∈ Edit.apply view.entries (.link entry) ↔ other = entry ∨ other ∈ view.entries := by
  rw [Edit.apply, List.mem_append, List.mem_cons, or_left_comm, ← List.mem_append, entriesBefore, entriesAfter,
    List.takeWhile_append_dropWhile]

theorem mem_receive {entry other : Entry K V} :
    other ∈ (view.receive entry).entries ↔ other = entry ∨ other ∈ view.entries := mem_link

theorem Tracked.receive (tracked : view.Tracked) (entry : Entry K V) : (view.receive entry).Tracked where
  recorded key value member := by
    rcases List.mem_cons.mp member with same | present
    · obtain ⟨rfl, rfl⟩ := Prod.mk.inj same
      exact ⟨entry.height, mem_receive.mpr (Or.inl rfl)⟩
    · obtain ⟨height, stored⟩ := tracked.recorded key value ((makeRoom_sublist _ _).subset present)
      exact ⟨height, mem_receive.mpr (Or.inr stored)⟩
  pending other member := by
    rcases mem_receive.mp member with rfl | present
    · exact Or.inl (List.mem_map.mpr ⟨_, List.mem_cons_self .., rfl⟩)
    · rcases tracked.pending other present with cached | waiting
      · rw [makeRoom_overflow view.capacity, List.mem_append] at cached
        rcases cached with kept | given
        · exact Or.inl (List.mem_cons_of_mem _ kept)
        · exact Or.inr (List.mem_append_right _ given)
      · exact Or.inr (List.mem_append_left _ waiting)

/-- A sequence of deletions removes exactly its keys. -/
theorem mem_unlinkAll (keys : List K) {entry : Entry K V} :
    entry ∈ (keys.foldl View.unlink view).entries ↔ entry ∈ view.entries ∧ entry.ele ∉ keys := by
  induction keys generalizing view with
  | nil => simp
  | cons key rest ih =>
      rw [List.foldl_cons, ih, mem_unlink, List.mem_cons, not_or, and_assoc]

theorem Tracked.unlinkAll (tracked : view.Tracked) (keys : List K) : (keys.foldl View.unlink view).Tracked := by
  induction keys generalizing view with
  | nil => exact tracked
  | cons key rest ih => exact ih (tracked.unlink key)

/-- Deletions keep the waiting keys and the capacity, and they only shorten the cache. -/
theorem unlinkAll_frame (view : View K V) (keys : List K) :
    (keys.foldl View.unlink view).queued = view.queued ∧
      (keys.foldl View.unlink view).capacity = view.capacity ∧
      (keys.foldl View.unlink view).recency.Sublist view.recency := by
  induction keys generalizing view with
  | nil => exact ⟨rfl, rfl, List.Sublist.refl _⟩
  | cons key rest ih =>
      obtain ⟨queued, capacity, shorter⟩ := ih (view.unlink key)
      exact ⟨queued, capacity, shorter.trans List.filter_sublist⟩

/-- After the flush the cached keys are exactly the elements. -/
theorem Tracked.flush_exact (tracked : view.Tracked) (key : K) :
    key ∈ view.flush.entries.map Entry.ele ↔ key ∈ view.flush.recency.map Prod.fst := by
  have all := tracked.unlinkAll view.queued
  constructor
  · intro member
    obtain ⟨entry, present, rfl⟩ := List.mem_map.mp member
    refine (all.pending entry present).resolve_right ?_
    rw [(unlinkAll_frame view view.queued).1]
    exact ((mem_unlinkAll view.queued).mp present).2
  · exact fun cached => all.cached_mem cached

theorem Tracked.flush (tracked : view.Tracked) : view.flush.Tracked where
  recorded := (tracked.unlinkAll view.queued).recorded
  pending entry member := Or.inl ((tracked.flush_exact entry.ele).mp (List.mem_map_of_mem member))

end Tracking

section Coherence
variable {view : View K V}

omit [LinearOrder V] in
theorem find_none {ele : K} : view.find ele = none ↔ ele ∉ view.entries.map Entry.ele := by
  simp [find]

omit [LinearOrder V] in
theorem find_some {ele : K} {entry : Entry K V} (found : view.find ele = some entry) :
    entry ∈ view.entries ∧ entry.ele = ele :=
  ⟨List.mem_of_find?_eq_some found, by simpa using List.find?_some found⟩

/-- An insertion adds no other element. -/
theorem mem_insertElement {entry other : Entry K V} (member : other ∈ (view.insertElement entry).2.entries) :
    other ∈ view.entries ∨ other.ele = entry.ele := by
  have fresh {before : View K V} (present : other ∈ (before.insertFresh entry).entries) :
      other ∈ before.entries ∨ other.ele = entry.ele := by
    rcases mem_receive.mp ((mem_unlinkAll (before.receive entry).queued).mp present).1 with rfl | old
    · exact Or.inr rfl
    · exact Or.inl old
  unfold View.insertElement at member
  split at member
  · exact fresh member
  · split at member
    · exact Or.inl member
    · exact (fresh member).imp_left fun old => (mem_unlink.mp old).1

theorem Coherent.unlink (coherent : view.Coherent) (ele : K) : (view.unlink ele).Coherent where
  toTracked := coherent.toTracked.unlink ele
  keyed := coherent.keyed.forget ele
  apart key waiting cached := coherent.apart key waiting ((List.filter_sublist.map _).subset cached)
  fits positive := by
    have shorter : (forget ele view.recency).length ≤ view.recency.length := List.length_filter_le ..
    have bound := coherent.fits positive
    exact (Int.ofNat_le.mpr shorter).trans bound
  accepted := coherent.accepted

/-- An insertion of an absent element reaches a coherent view without waiting keys. -/
theorem Coherent.insertFresh (coherent : view.Coherent) {entry : Entry K V}
    (absent : entry.ele ∉ view.entries.map Entry.ele) : (view.insertFresh entry).Coherent := by
  have uncached : entry.ele ∉ view.recency.map Prod.fst := fun cached => absent (coherent.cached_mem cached)
  obtain ⟨_, capacity, shorter⟩ := unlinkAll_frame (view.receive entry) (view.receive entry).queued
  have stored : Keyed (view.receive entry).recency :=
    (coherent.keyed.sublist (makeRoom_sublist ..)).cons _
      fun cached => uncached (((makeRoom_sublist ..).map _).subset cached)
  refine ⟨(coherent.toTracked.receive entry).flush, stored.sublist shorter, by simp [View.insertFresh, flush], ?_, ?_⟩
  · intro positive
    have bound := coherent.fits.makeRoom (entry.ele, entry.score) (by rwa [View.insertFresh, flush, capacity] at positive)
    have fewer := Int.ofNat_le.mpr shorter.length_le
    rw [View.insertFresh, flush, capacity]
    exact fewer.trans bound
  · rw [View.insertFresh, flush, capacity]
    exact coherent.accepted

omit [LinearOrder V] in
theorem Coherent.touch (coherent : view.Coherent) (key : K) :
    ({ view with recency := Foundation.touch key view.recency } : View K V).Coherent := by
  have same (other : K) :
      other ∈ (Foundation.touch key view.recency).map Prod.fst ↔ other ∈ view.recency.map Prod.fst := by
    simp only [List.mem_map, mem_touch coherent.keyed]
  refine ⟨⟨?_, ?_⟩, coherent.keyed.touch key, ?_, ?_, coherent.accepted⟩
  · exact fun other value member => coherent.recorded other value ((mem_touch coherent.keyed key).mp member)
  · exact fun entry member => (coherent.pending entry member).imp_left (same entry.ele).mpr
  · exact fun other waiting cached => coherent.apart other waiting ((same other).mp cached)
  · intro positive
    rw [touch_length coherent.keyed key]
    exact coherent.fits positive

omit [LinearOrder K] [LinearOrder V] in
theorem Coherent.setMaxMemory (coherent : view.Coherent) (maxMemory : Int) :
    (view.setMaxMemory maxMemory).2.Coherent := by
  unfold View.setMaxMemory
  split
  · exact coherent
  · rename_i accepted
    have parts := retain_dropped maxMemory view.recency
    have sub := retain_sublist maxMemory view.recency
    refine ⟨⟨?_, ?_⟩, coherent.keyed.sublist sub, ?_, ?_, not_lt.mp accepted⟩
    · exact fun key value member => coherent.recorded key value (sub.subset member)
    · intro entry member
      rcases coherent.pending entry member with cached | waiting
      · rw [parts, List.mem_append, List.mem_reverse] at cached
        exact cached.imp_right fun lost => List.mem_append_right _ lost
      · exact Or.inr (List.mem_append_left _ waiting)
    · intro key waiting cached
      rcases List.mem_append.mp waiting with old | lost
      · exact coherent.apart key old ((sub.map _).subset cached)
      · have distinct := coherent.keyed
        rw [Keyed, parts, List.nodup_append'] at distinct
        exact distinct.2.2 cached (List.mem_reverse.mpr lost)
    · intro positive
      have length : (retain maxMemory view.recency).length ≤ maxMemory.toNat := by
        rw [retain, if_pos positive]
        exact List.length_take_le ..
      have number := Int.toNat_of_nonneg (not_lt.mp accepted)
      dsimp only
      omega

/-- Every operation keeps the coherence. -/
theorem Coherent.operate (coherent : view.Coherent) (toInt : V → Int) (maxLevel : Nat)
    (operation : SkipList.Operation K V) : (view.operate toInt maxLevel operation).2.Coherent := by
  cases operation with
  | insertElement ele score draws =>
      unfold View.operate View.insertElement
      dsimp only
      split
      case h_1 missing => exact coherent.insertFresh (find_none.mp missing)
      case h_2 stored found =>
        split
        · exact coherent.touch ele
        · apply (coherent.unlink ele).insertFresh
          rintro member
          obtain ⟨entry, present, same⟩ := List.mem_map.mp member
          exact (mem_unlink.mp present).2 same
  | deleteElement ele => exact coherent.unlink ele
  | searchElement ele =>
      unfold View.operate View.searchElement
      dsimp only
      split
      · exact coherent
      · exact coherent.touch ele
  | setMaxMemory maxMemory => exact coherent.setMaxMemory maxMemory

end Coherence

end View

end MySkipList
