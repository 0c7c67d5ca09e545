import Mathlib

namespace MySkipList.Foundation

section Towers
variable {A : Type} (height : A → Nat)

/-- This function selects the first element that reaches above a level. -/
def firstAbove (level : Nat) (towers : List A) : Option A :=
  towers.find? fun tower => level < height tower

/-- This function selects the last element that reaches above a level, or the given start. -/
def lastAbove (level : Nat) : A → List A → A
  | current, [] => current
  | current, tower :: rest => lastAbove level (if level < height tower then tower else current) rest

@[simp] theorem firstAbove_nil (level : Nat) : firstAbove height level ([] : List A) = none := rfl

theorem firstAbove_cons (level : Nat) (tower : A) (rest : List A) :
    firstAbove height level (tower :: rest) =
      if level < height tower then some tower else firstAbove height level rest := by
  by_cases tall : level < height tower <;> simp [firstAbove, tall]

/-- A short prefix does not change the first tall element. -/
theorem firstAbove_append_short (level : Nat) (short rest : List A)
    (low : ∀ tower ∈ short, height tower ≤ level) :
    firstAbove height level (short ++ rest) = firstAbove height level rest := by
  induction short with
  | nil => rfl
  | cons tower short ih =>
      have this : ¬ level < height tower := Nat.not_lt.mpr (low tower (by simp))
      rw [List.cons_append, firstAbove_cons, if_neg this]
      exact ih fun other member => low other (by simp [member])

/-- A prefix with a tall element decides the first tall element alone. -/
theorem firstAbove_append_tall (level : Nat) (front rest other : List A)
    (tall : ∃ tower ∈ front, level < height tower) :
    firstAbove height level (front ++ rest) = firstAbove height level (front ++ other) := by
  induction front with
  | nil => simp at tall
  | cons tower front ih =>
      simp only [List.cons_append, firstAbove_cons]
      split
      · rfl
      · rename_i short
        obtain ⟨witness, member, high⟩ := tall
        rcases List.mem_cons.mp member with same | later
        · exact absurd (same ▸ high) short
        · exact ih ⟨witness, later, high⟩

theorem firstAbove_eq_none {level : Nat} {towers : List A} :
    firstAbove height level towers = none ↔ ∀ tower ∈ towers, height tower ≤ level := by
  simp [firstAbove]

theorem firstAbove_mem {level : Nat} {towers : List A} {tower : A}
    (found : firstAbove height level towers = some tower) : tower ∈ towers :=
  List.mem_of_find?_eq_some found

/-- The last tall element starts a suffix without another tall element. -/
theorem lastAbove_split (level : Nat) (current : A) (towers : List A) :
    ∃ front back, current :: towers = front ++ lastAbove height level current towers :: back ∧
      ∀ tower ∈ back, height tower ≤ level := by
  induction towers generalizing current with
  | nil => exact ⟨[], [], rfl, by simp⟩
  | cons tower rest ih =>
      by_cases tall : level < height tower
      · obtain ⟨front, back, split, low⟩ := ih tower
        refine ⟨current :: front, back, ?_, low⟩
        simp [lastAbove, tall, split]
      · obtain ⟨front, back, split, low⟩ := ih current
        cases front with
        | nil =>
            -- The start stays the last tall element, so the short tower joins the suffix.
            have parts := List.cons.inj split
            refine ⟨[], tower :: back, ?_, ?_⟩
            · rw [lastAbove, if_neg tall, ← parts.1, parts.2]
              rfl
            · intro other member
              rcases List.mem_cons.mp member with same | later
              · exact same ▸ Nat.not_lt.mp tall
              · exact low other later
        | cons head front =>
            have parts : rest = front ++ lastAbove height level current rest :: back :=
              (List.cons.inj split).2
            refine ⟨current :: tower :: front, back, ?_, low⟩
            rw [lastAbove, if_neg tall]
            exact congrArg (fun tail => current :: tower :: tail) parts

/-- A tall start gives a tall result. -/
theorem lastAbove_height (level : Nat) (current : A) (towers : List A) (tall : level < height current) :
    level < height (lastAbove height level current towers) := by
  induction towers generalizing current with
  | nil => exact tall
  | cons tower rest ih =>
      by_cases high : level < height tower
      · simpa [lastAbove, high] using ih tower high
      · simpa [lastAbove, high] using ih current tall

/-- The last tall element is tall unless it is the start. -/
theorem lastAbove_start_or_tall (level : Nat) (current : A) (towers : List A) :
    lastAbove height level current towers = current ∨
      level < height (lastAbove height level current towers) := by
  induction towers generalizing current with
  | nil => exact Or.inl rfl
  | cons tower rest ih =>
      by_cases high : level < height tower
      · right
        simpa [lastAbove, high] using lastAbove_height height level tower rest high
      · simpa [lastAbove, high] using ih current

/-- Without a tall element the start stays. -/
theorem lastAbove_of_short (level : Nat) (current : A) (towers : List A)
    (low : ∀ tower ∈ towers, height tower ≤ level) : lastAbove height level current towers = current := by
  induction towers with
  | nil => rfl
  | cons tower rest ih =>
      have short : ¬ level < height tower := Nat.not_lt.mpr (low tower (by simp))
      simpa [lastAbove, short] using ih fun other member => low other (by simp [member])

theorem lastAbove_append (level : Nat) (current : A) (front back : List A) :
    lastAbove height level current (front ++ back) =
      lastAbove height level (lastAbove height level current front) back := by
  induction front generalizing current with
  | nil => rfl
  | cons tower front ih => exact ih _

/-- A tall element on the way restarts the search for the last tall element. -/
theorem lastAbove_restart (level : Nat) (start current : A) (towers front back : List A)
    (position : start :: towers = front ++ current :: back) (tall : level < height current) :
    lastAbove height level start towers = lastAbove height level current back := by
  cases front with
  | nil =>
      have parts := List.cons.inj position
      rw [parts.1, parts.2]
  | cons head front =>
      have parts : towers = front ++ current :: back := (List.cons.inj position).2
      rw [parts, lastAbove_append]
      simp [lastAbove, tall]

/-- The last tall element is the start or one of the elements. -/
theorem lastAbove_mem (level : Nat) (current : A) (towers : List A) :
    lastAbove height level current towers ∈ current :: towers := by
  obtain ⟨front, back, split, _⟩ := lastAbove_split height level current towers
  rw [split]
  simp

/-- A tall element before a short suffix is the last tall element. -/
theorem lastAbove_eq (level : Nat) (start current : A) (towers front back : List A)
    (position : start :: towers = front ++ current :: back) (tall : level < height current)
    (low : ∀ tower ∈ back, height tower ≤ level) :
    lastAbove height level start towers = current := by
  rw [lastAbove_restart height level start current towers front back position tall]
  exact lastAbove_of_short height level current back low

/-- A tall element in the list is found there. -/
theorem lastAbove_mem_of_tall (level : Nat) (current : A) (towers : List A)
    (tall : ∃ tower ∈ towers, level < height tower) : lastAbove height level current towers ∈ towers := by
  obtain ⟨tower, member, high⟩ := tall
  obtain ⟨front, back, rfl⟩ := List.append_of_mem member
  rw [lastAbove_restart height level current tower (front ++ tower :: back) (current :: front) back rfl high]
  exact List.mem_append_right front (lastAbove_mem height level tower back)

/-- Without repetitions, a tall element is the last one exactly when only short ones follow. -/
theorem lastAbove_eq_iff (level : Nat) (start current : A) (towers front back : List A)
    (distinct : (start :: towers).Nodup) (position : start :: towers = front ++ current :: back)
    (tall : level < height current) :
    lastAbove height level start towers = current ↔ ∀ tower ∈ back, height tower ≤ level := by
  constructor
  · intro same tower member
    by_contra high
    have inside := lastAbove_mem_of_tall height level current back ⟨tower, member, Nat.not_le.mp high⟩
    rw [← lastAbove_restart height level start current towers front back position tall, same] at inside
    rw [position, List.nodup_append'] at distinct
    exact (List.nodup_cons.mp distinct.2.1).1 inside
  · exact lastAbove_eq height level start current towers front back position tall

/-- Behind the last tall element the first tall one is that of the rest. -/
theorem firstAbove_behind_last (level : Nat) {start current : A} {towers front back : List A}
    (distinct : (start :: towers).Nodup) (position : start :: towers = front ++ current :: back)
    (tall : level < height current) (last : current = lastAbove height level start towers) (rest : List A) :
    firstAbove height level (back ++ rest) = firstAbove height level rest :=
  firstAbove_append_short height level back rest
    ((lastAbove_eq_iff height level start current towers front back distinct position tall).mp last.symm)

/-- An element behind a list is seen from the last tall element of the list only, and only when it is tall. -/
theorem firstAbove_unseen (level : Nat) {start current target : A} {towers front back : List A}
    (distinct : (start :: towers).Nodup) (position : start :: towers = front ++ current :: back)
    (tall : level < height current)
    (unseen : ¬ (level < height target ∧ current = lastAbove height level start towers)) (rest : List A) :
    firstAbove height level (back ++ target :: rest) = firstAbove height level (back ++ rest) := by
  by_cases reached : ∃ tower ∈ back, level < height tower
  · exact firstAbove_append_tall height level back _ _ reached
  · push Not at reached
    have last := (lastAbove_eq_iff height level start current towers front back distinct position tall).mpr reached
    have short : ¬ level < height target := fun short => unseen ⟨short, last.symm⟩
    rw [firstAbove_append_short height level back _ reached, firstAbove_append_short height level back _ reached,
      firstAbove_cons, if_neg short]

/-- A position in a concatenation lies in its front or in its back. -/
theorem split_append {front back before after : List A} {tower : A}
    (position : front ++ back = before ++ tower :: after) :
    (∃ rest, front = before ++ tower :: rest ∧ after = rest ++ back) ∨
      ∃ rest, back = rest ++ tower :: after ∧ before = front ++ rest := by
  rcases List.append_eq_append_iff.mp position with ⟨rest, beforeEq, backEq⟩ | ⟨rest, frontEq, tailEq⟩
  · exact Or.inr ⟨rest, backEq, beforeEq⟩
  · cases rest with
    | nil => exact Or.inr ⟨[], by simpa using tailEq.symm, by simpa using frontEq.symm⟩
    | cons head rest =>
        have parts : tower = head ∧ after = rest ++ back := List.cons.inj tailEq
        rw [← parts.1] at frontEq
        exact Or.inl ⟨rest, frontEq, parts.2⟩

section Distance

/-- The number of elements before the first one that reaches above a level. -/
def leading (level : Nat) (towers : List A) : Nat :=
  (towers.takeWhile fun tower => height tower ≤ level).length

/-- The number of elements up to the last one that reaches above a level. -/
def reach (level : Nat) : List A → Nat
  | [] => 0
  | tower :: rest => if level < height tower ∨ reach level rest ≠ 0 then reach level rest + 1 else 0

theorem leading_append_short (level : Nat) (short rest : List A) (low : ∀ tower ∈ short, height tower ≤ level) :
    leading height level (short ++ rest) = short.length + leading height level rest := by
  rw [leading, List.takeWhile_append_of_pos (by simpa using low), List.length_append, leading]

theorem leading_append_tall (level : Nat) (front rest : List A) (tall : ∃ tower ∈ front, level < height tower) :
    leading height level (front ++ rest) = leading height level front := by
  induction front with
  | nil => simp at tall
  | cons tower front ih =>
      by_cases low : height tower ≤ level
      · have later : ∃ other ∈ front, level < height other := by
          obtain ⟨other, member, high⟩ := tall
          rcases List.mem_cons.mp member with rfl | member
          · exact absurd low (Nat.not_le.mpr high)
          · exact ⟨other, member, high⟩
        have step := ih later
        simp only [leading] at step
        simp [leading, low, step]
      · simp [leading, low]

theorem leading_cons_tall (level : Nat) (tower : A) (rest : List A) (tall : level < height tower) :
    leading height level (tower :: rest) = 0 := by
  simp [leading, Nat.not_le.mpr tall]

theorem reach_eq_zero {level : Nat} {towers : List A} :
    reach height level towers = 0 ↔ ∀ tower ∈ towers, height tower ≤ level := by
  induction towers with
  | nil => simp [reach]
  | cons tower rest ih =>
      rw [reach, List.forall_mem_cons, ← ih]
      split <;> omega

theorem reach_append (level : Nat) (front back : List A) :
    reach height level (front ++ back) =
      if reach height level back = 0 then reach height level front else front.length + reach height level back := by
  induction front with
  | nil => by_cases none : reach height level back = 0 <;> simp [reach, none]
  | cons tower front ih =>
      rw [List.cons_append, reach, ih, reach, List.length_cons]
      by_cases none : reach height level back = 0
      · simp [none]
      · simp only [none, if_false]
        rw [if_pos (by omega)]
        omega

/-- The steps to the last tall element behind a tall element. -/
theorem reach_split (level : Nat) (front : List A) (current : A) (back : List A) (tall : level < height current) :
    reach height level (front ++ current :: back) = front.length + 1 + reach height level back := by
  rw [reach_append, reach, if_pos (Or.inl tall), if_neg (Nat.succ_ne_zero _)]
  omega

theorem reach_full (level : Nat) (towers : List A) (tall : ∀ tower ∈ towers, level < height tower) :
    reach height level towers = towers.length := by
  induction towers with
  | nil => rfl
  | cons tower rest ih =>
      rw [reach, if_pos (Or.inl (tall tower (by simp))), ih fun other member => tall other (by simp [member]),
        List.length_cons]

theorem reach_le_length (level : Nat) (towers : List A) : reach height level towers ≤ towers.length := by
  induction towers with
  | nil => exact Nat.le_refl 0
  | cons tower rest ih =>
      rw [reach, List.length_cons]
      split <;> omega

/-- A higher level reaches less far. -/
theorem reach_antitone {low high : Nat} (order : low ≤ high) (towers : List A) :
    reach height high towers ≤ reach height low towers := by
  induction towers with
  | nil => exact Nat.le_refl 0
  | cons tower rest ih =>
      rw [reach, reach]
      split <;> split <;> omega

/-- Without a repetition the last tall element stands where the level reaches. -/
theorem reach_lastAbove (level : Nat) (start : A) (towers front back : List A) (distinct : (start :: towers).Nodup)
    (position : start :: towers = front ++ lastAbove height level start towers :: back) :
    reach height level towers = front.length := by
  have low : ∀ tower ∈ back, height tower ≤ level := by
    intro tower member
    by_contra high
    have tall := lastAbove_mem_of_tall height level start towers (by
      cases front with
      | nil => exact ⟨tower, (List.cons.inj position).2 ▸ member, Nat.not_le.mp high⟩
      | cons first front =>
          refine ⟨tower, ?_, Nat.not_le.mp high⟩
          rw [(List.cons.inj position).2]
          simp [member])
    rcases lastAbove_start_or_tall height level start towers with same | reaches
    · exact (List.nodup_cons.mp distinct).1 (same ▸ tall)
    · exact high ((lastAbove_eq_iff height level start _ towers front back distinct position reaches).mp rfl tower member)
  cases front with
  | nil =>
      rw [(List.cons.inj position).2]
      exact (reach_eq_zero height).mpr low
  | cons first front =>
      rw [List.cons_append, List.cons.injEq] at position
      have member : lastAbove height level start towers ∈ towers :=
        (congrArg (lastAbove height level start towers ∈ ·) position.2).mpr (by simp)
      have reaches : level < height (lastAbove height level start towers) :=
        (lastAbove_start_or_tall height level start towers).resolve_left fun same =>
          (List.nodup_cons.mp distinct).1 (same ▸ member)
      conv_lhs => rw [position.2]
      rw [reach_split height level front _ back reaches, (reach_eq_zero height).mpr low, List.length_cons]

/-- The elements that are not reached are those behind the last tall one. -/
theorem length_sub_reach (level : Nat) {start current : A} {towers front back : List A}
    (distinct : (start :: towers).Nodup) (position : start :: towers = front ++ current :: back)
    (last : current = lastAbove height level start towers) : towers.length - reach height level towers = back.length := by
  subst last
  have steps := reach_lastAbove height level start towers front back distinct position
  have length := congrArg List.length position
  rw [List.length_cons, List.length_append, List.length_cons] at length
  omega

/-- Above the lowest level the levels up to a limit reach equally far when the last element above the lowest
level exceeds the limit. -/
theorem reach_aligned {limit : Nat} {towers : List A}
    (nearest : ∀ tower ∈ towers.reverse.find? (fun tower => 1 < height tower), limit < height tower)
    {level : Nat} (positive : 0 < level) (bounded : level ≤ limit) :
    reach height level towers = reach height 1 towers := by
  cases found : towers.reverse.find? (fun tower => 1 < height tower) with
  | none =>
      have low : ∀ tower ∈ towers, height tower ≤ 1 := by simpa using found
      have bottom := (reach_eq_zero height).mpr low
      have here := reach_antitone height (show 1 ≤ level from positive) towers
      omega
  | some last =>
      obtain ⟨_, after, before, split, short⟩ := List.find?_eq_some_iff_append.mp found
      have whole : towers = before.reverse ++ last :: after.reverse := by
        rw [← List.reverse_reverse towers, split]
        simp
      have high : limit < height last := nearest last found
      have low : ∀ tower ∈ after.reverse, height tower ≤ 1 := by simpa using short
      have bottom := (reach_eq_zero height).mpr low
      have here := reach_antitone height (show 1 ≤ level from positive) after.reverse
      rw [whole, reach_split height level _ last _ (by omega), reach_split height 1 _ last _ (by omega)]
      omega

/-- The first tall element stands behind the leading short ones. -/
theorem firstAbove_eq_getElem (level : Nat) (towers : List A) :
    firstAbove height level towers = towers[leading height level towers]? := by
  induction towers with
  | nil => rfl
  | cons tower rest ih =>
      rw [firstAbove_cons]
      by_cases tall : level < height tower
      · rw [if_pos tall, leading_cons_tall height level tower rest tall]
        rfl
      · have low := leading_append_short height level [tower] rest (by simpa using tall)
        rw [List.singleton_append, List.length_singleton, Nat.add_comm] at low
        rw [if_neg tall, ih, low, List.getElem?_cons_succ]

end Distance

section Mapped
variable {B : Type} {height} {other : B → Nat} {f : A → B}

theorem reach_map (same : ∀ tower, other (f tower) = height tower) (level : Nat) (towers : List A) :
    reach other level (towers.map f) = reach height level towers := by
  induction towers with
  | nil => rfl
  | cons tower rest ih => rw [List.map_cons, reach, reach, ih, same]

theorem leading_map (same : ∀ tower, other (f tower) = height tower) (level : Nat) (towers : List A) :
    leading other level (towers.map f) = leading height level towers := by
  simp only [leading, List.takeWhile_map, List.length_map, Function.comp_def, same]

end Mapped

end Towers

end MySkipList.Foundation
