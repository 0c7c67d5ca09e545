import MySkipList.Proof.SkipList.Delete
import MySkipList.Proof.SkipList.Insert

namespace MySkipList

open Foundation

/-- An entry is a member of the list with the height of its node. -/
structure Entry (K V : Type) where
  ele : K
  score : V
  height : Nat
  deriving DecidableEq

def Tower.entry {K V : Type} (tower : Tower K V) : Entry K V := ⟨tower.ele, tower.score, tower.height⟩

/-- An edit links one new node or unlinks the node of one element. -/
inductive Edit (K V : Type) where
  | link (entry : Entry K V)
  | unlink (ele : K)

section Edits
variable {K V : Type} [LinearOrder K] [LinearOrder V]

def Entry.Precedes (entry : Entry K V) (ele : K) (score : V) : Prop :=
  entry.score < score ∨ (score = entry.score ∧ entry.ele < ele)

instance (entry : Entry K V) (ele : K) (score : V) : Decidable (entry.Precedes ele score) :=
  inferInstanceAs (Decidable (_ ∨ _))

/-- The entries before the position of a new entry. -/
def entriesBefore (entry : Entry K V) (entries : List (Entry K V)) : List (Entry K V) :=
  entries.takeWhile fun other => other.Precedes entry.ele entry.score

/-- The entries after the position of a new entry. -/
def entriesAfter (entry : Entry K V) (entries : List (Entry K V)) : List (Entry K V) :=
  entries.dropWhile fun other => other.Precedes entry.ele entry.score

def Edit.apply (entries : List (Entry K V)) : Edit K V → List (Entry K V)
  | .link entry => entriesBefore entry entries ++ entry :: entriesAfter entry entries
  | .unlink ele => entries.filter fun entry => entry.ele ≠ ele

/-- The position of a new entry splits the entries where the search splits the towers. -/
theorem entries_split {front back : List (Tower K V)} (entry : Entry K V)
    (smaller : ∀ tower ∈ front, tower.Precedes entry.ele entry.score)
    (larger : ∀ tower ∈ back, ¬ tower.Precedes entry.ele entry.score) :
    entriesBefore entry ((front ++ back).map Tower.entry) = front.map Tower.entry ∧
      entriesAfter entry ((front ++ back).map Tower.entry) = back.map Tower.entry := by
  unfold entriesBefore entriesAfter
  induction front with
  | nil =>
      cases back with
      | nil => exact ⟨rfl, rfl⟩
      | cons first back =>
          have stops : ¬ first.entry.Precedes entry.ele entry.score := larger first (by simp)
          simp [stops]
  | cons first front ih =>
      have passes : first.entry.Precedes entry.ele entry.score := smaller first (by simp)
      obtain ⟨before, after⟩ := ih fun tower member => smaller tower (List.mem_cons_of_mem first member)
      rw [List.cons_append, List.map_cons, List.takeWhile_cons_of_pos (by simpa using passes),
        List.dropWhile_cons_of_pos (by simpa using passes), before, after]
      exact ⟨rfl, rfl⟩

end Edits

namespace SkipList
variable {K V : Type} [LinearOrder K] [LinearOrder V]

/-- The ranks of an insertion are the spans that its search passes on each level. -/
def Ranks (heap : Heap (SkipListNode K V)) (head : Tower K V) (front : List (Tower K V)) (maxLevel : Nat)
    (rank : Nat → UnsignedInt) : Prop :=
  ∀ level < maxLevel, ∃ before after, head :: front = before ++ stop head front (level + 1) :: after ∧
    rank level = passedSpan heap level (stop head front (level + 1)) after

/-- One edit of the list and of the towers that it represents. -/
inductive EditStep (head : Tower K V) :
    SkipList K V → List (Tower K V) → Edit K V → SkipList K V → List (Tower K V) → Prop
  | link {list : SkipList K V} {front back : List (Tower K V)} {ele : K} {score : V} {height : Nat}
      {rank : Nat → UnsignedInt} (rep : list.Represents head (front ++ back))
      (smaller : ∀ tower ∈ front, tower.Precedes ele score)
      (larger : ∀ tower ∈ back, ¬ tower.Precedes ele score)
      (absent : ele ∉ (front ++ back).map Tower.ele) (positive : 0 < height) (bounded : height ≤ list.maxLevel)
      (ranks : Ranks list.heap head front list.maxLevel rank) :
      EditStep head list (front ++ back) (.link ⟨ele, score, height⟩)
        (list.linkedNode head front back ele score height rank)
        (front ++ list.freshTower ele score height :: back)
  | unlink {list : SkipList K V} {front back : List (Tower K V)} {target : Tower K V} {node : SkipListNode K V}
      {lruCache : LRUCache K V} (rep : list.Represents head (front ++ target :: back))
      (stored : Stores list.heap target node)
      (links : ∀ level < target.height, node.forward level = (firstAbove Tower.height level back).map Tower.ref) :
      EditStep head list (front ++ target :: back) (.unlink target.ele)
        (list.unlinked head front target node lruCache) (front ++ back)
  | absent {list : SkipList K V} {towers : List (Tower K V)} {ele : K} (rep : list.Represents head towers)
      (missing : ele ∉ towers.map Tower.ele) : EditStep head list towers (.unlink ele) list towers

/-- Edits in their order. The cache of the list may change before and after each of them. -/
inductive Edited (head : Tower K V) :
    SkipList K V → List (Tower K V) → List (Edit K V) → SkipList K V → List (Tower K V) → Prop
  | done {list : SkipList K V} {towers : List (Tower K V)} (lruCache : LRUCache K V) :
      Edited head list towers [] { list with lruCache := lruCache } towers
  | step {list middle final : SkipList K V} {towers between rest : List (Tower K V)} {edit : Edit K V}
      {edits : List (Edit K V)} (lruCache : LRUCache K V)
      (first : EditStep head { list with lruCache := lruCache } towers edit middle between)
      (later : Edited head middle between edits final rest) :
      Edited head list towers (edit :: edits) final rest

/-- The representation does not read the cache. -/
theorem Represents.withCache {list : SkipList K V} {head : Tower K V} {towers : List (Tower K V)}
    (rep : list.Represents head towers) (lruCache : LRUCache K V) :
    ({ list with lruCache := lruCache } : SkipList K V).Represents head towers :=
  ⟨rep.headRef, rep.headHeight, rep.linked, rep.apart, rep.sorted, rep.heights, rep.levels, rep.positive,
    rep.distinct, rep.mapped, rep.counted⟩

section Steps
variable {head : Tower K V} {list middle final : SkipList K V} {towers between rest : List (Tower K V)}
  {edit : Edit K V} {edits more : List (Edit K V)}

theorem EditStep.represents (step : EditStep head list towers edit final rest) : final.Represents head rest := by
  cases step with
  | link rep smaller larger absent positive bounded ranks =>
      exact rep.linkedNode smaller larger absent positive bounded _
  | unlink rep _ links => exact rep.unlinked links _
  | absent rep missing => exact rep

/-- An edit step acts on the entries as its edit. -/
theorem EditStep.entries (step : EditStep head list towers edit final rest) :
    rest.map Tower.entry = edit.apply (towers.map Tower.entry) := by
  cases step with
  | @link front back ele score height rank rep smaller larger absent positive bounded ranks =>
      obtain ⟨before, after⟩ := entries_split ⟨ele, score, height⟩ smaller larger
      rw [Edit.apply, before, after, List.map_append, List.map_cons]
      rfl
  | @unlink front back target node lruCache rep stored links =>
      have others : ∀ entry ∈ (front ++ back).map Tower.entry, entry.ele ≠ target.ele := by
        intro entry member
        obtain ⟨tower, present, rfl⟩ := List.mem_map.mp member
        exact rep.unique_of_split tower present
      have whole : (front ++ target :: back).map Tower.entry =
          front.map Tower.entry ++ target.entry :: back.map Tower.entry := by simp
      rw [Edit.apply, whole, List.filter_append, List.filter_cons_of_neg (by simp [Tower.entry]),
        ← List.filter_append, ← List.map_append]
      exact (List.filter_eq_self.mpr fun entry member => by simpa using others entry member).symm
  | absent rep missing =>
      refine (List.filter_eq_self.mpr fun entry member => ?_).symm
      obtain ⟨tower, present, rfl⟩ := List.mem_map.mp member
      exact decide_eq_true fun same => missing (List.mem_map.mpr ⟨tower, present, same⟩)

theorem EditStep.maxLevel (step : EditStep head list towers edit final rest) : final.maxLevel = list.maxLevel := by
  cases step <;> rfl

theorem Edited.maxLevel (edited : Edited head list towers edits final rest) : final.maxLevel = list.maxLevel := by
  induction edited with
  | done lruCache => rfl
  | step lruCache first later ih => exact ih.trans first.maxLevel

/-- A cache change before the edits is part of them. -/
theorem Edited.ofCache {lruCache : LRUCache K V}
    (edited : Edited head { list with lruCache := lruCache } towers edits final rest) :
    Edited head list towers edits final rest := by
  cases edited with
  | done other => exact .done other
  | step other first later => exact .step other first later

/-- Edits after edits are edits. -/
theorem Edited.append (edited : Edited head list towers edits middle between)
    (later : Edited head middle between more final rest) :
    Edited head list towers (edits ++ more) final rest := by
  induction edited with
  | done lruCache => exact later.ofCache
  | step lruCache first _ ih => exact .step lruCache first (ih later)

theorem EditStep.edited (step : EditStep head list towers edit final rest) :
    Edited head list towers [edit] final rest := .step list.lruCache step (.done final.lruCache)

end Steps

end SkipList

end MySkipList
