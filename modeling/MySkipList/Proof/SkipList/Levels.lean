import MySkipList.Construction.SkipList

namespace MySkipList.SkipList

open Foundation

/-- A draw lets the level grow. -/
def Grows (draw : Nat) : Prop := 2 * (draw &&& 0xFFFF) < 0xFFFF

instance (draw : Nat) : Decidable (Grows draw) := inferInstanceAs (Decidable (_ < _))

/-- The low sixteen bits decide. -/
theorem grows_iff (draw : Nat) : Grows draw ↔ draw % 2 ^ 16 < 2 ^ 15 := by
  rw [Grows, show (0xFFFF : Nat) = 2 ^ 16 - 1 from rfl, Nat.and_two_pow_sub_one_eq_mod]
  omega

section Halves
variable {blocks : Nat}

/-- The partner of a draw differs from it in the sixteenth bit only. -/
def partner (draw : Fin (2 ^ 16 * blocks)) : Fin (2 ^ 16 * blocks) :=
  ⟨if draw.val % 2 ^ 16 < 2 ^ 15 then draw.val + 2 ^ 15 else draw.val - 2 ^ 15, by
    have bound := draw.isLt
    split <;> omega⟩

theorem partner_partner (draw : Fin (2 ^ 16 * blocks)) : partner (partner draw) = draw := by
  apply Fin.ext
  simp only [partner]
  split <;> split <;> omega

theorem grows_partner (draw : Fin (2 ^ 16 * blocks)) : Grows (partner draw).val ↔ ¬ Grows draw.val := by
  rw [grows_iff, grows_iff]
  simp only [partner]
  split <;> omega

/-- Exactly half of the values of a draw let the level grow. -/
theorem card_grows : (Finset.univ.filter fun draw : Fin (2 ^ 16 * blocks) => Grows draw.val).card * 2 =
    2 ^ 16 * blocks := by
  have same : (Finset.univ.filter fun draw : Fin (2 ^ 16 * blocks) => ¬ Grows draw.val).card =
      (Finset.univ.filter fun draw : Fin (2 ^ 16 * blocks) => Grows draw.val).card := by
    refine Finset.card_nbij' partner partner ?_ ?_ ?_ ?_
    · intro draw member
      simpa [grows_partner] using member
    · intro draw member
      simpa [grows_partner] using member
    · exact fun draw _ => partner_partner draw
    · exact fun draw _ => partner_partner draw
  have whole := Finset.card_filter_add_card_filter_not (s := Finset.univ) fun draw : Fin (2 ^ 16 * blocks) => Grows draw.val
  rw [same, Finset.card_univ, Fintype.card_fin] at whole
  omega

end Halves

/-- The level exceeds a bound below the maximum exactly when that many leading draws let it grow. -/
theorem lt_getRandomLevel_iff {maxLevel level : Nat} (below : level < maxLevel) (draws : List Nat) :
    level < getRandomLevel maxLevel draws ↔ level ≤ (draws.takeWhile fun draw => Grows draw).length := by
  have same : (draws.takeWhile fun draw => 2 * (draw &&& 0xFFFF) < 0xFFFF) = draws.takeWhile fun draw => Grows draw := rfl
  rw [getRandomLevel, same]
  split <;> omega

theorem le_length_takeWhile_iff {A : Type} (good : A → Bool) (values : List A) (count : Nat) :
    count ≤ (values.takeWhile good).length ↔ count ≤ values.length ∧ ∀ value ∈ values.take count, good value = true := by
  induction values generalizing count with
  | nil => simp
  | cons value rest ih =>
      cases count with
      | zero => simp
      | succ count =>
          by_cases holds : good value = true
          · simp [holds, ih]
          · simp [holds]

/-- The level follows a geometric distribution that is cut off at `max_level_`: among all sequences of equally likely
values of `random()`, exactly the fraction `2 ^ -level` gives more than `level` levels, for each `level` below the
maximum. The range of `random()` may be any multiple of `2 ^ 16`, and the sequences may have any sufficient length. -/
theorem getRandomLevel_distribution (maxLevel blocks count level : Nat) (below : level < maxLevel)
    (enough : level ≤ count) :
    (Finset.univ.filter fun draws : Fin count → Fin (2 ^ 16 * blocks) =>
        level < getRandomLevel maxLevel (List.ofFn fun index => (draws index).val)).card * 2 ^ level =
      (2 ^ 16 * blocks) ^ count := by
  let low : Finset (Fin (2 ^ 16 * blocks)) := Finset.univ.filter fun draw => Grows draw.val
  have rising : (Finset.univ.filter fun draws : Fin count → Fin (2 ^ 16 * blocks) =>
      level < getRandomLevel maxLevel (List.ofFn fun index => (draws index).val)) =
      Fintype.piFinset fun index : Fin count => if index.val < level then low else Finset.univ := by
    ext draws
    rw [Finset.mem_filter, Fintype.mem_piFinset, lt_getRandomLevel_iff below, le_length_takeWhile_iff, List.length_ofFn]
    simp only [Finset.mem_univ, true_and, enough, decide_eq_true_eq]
    constructor
    · intro leading index
      split
      · rename_i early
        refine Finset.mem_filter.mpr ⟨Finset.mem_univ _, leading _ ?_⟩
        rw [List.mem_take_iff_getElem]
        exact ⟨index.val, by simp [early], by simp⟩
      · exact Finset.mem_univ _
    · intro chosen value member
      obtain ⟨place, bound, rfl⟩ := List.mem_take_iff_getElem.mp member
      rw [List.length_ofFn, lt_min_iff] at bound
      have drawn := chosen ⟨place, bound.2⟩
      rw [if_pos bound.1] at drawn
      simpa using (Finset.mem_filter.mp drawn).2
  have powers : (2 : Nat) ^ level = ∏ index : Fin count, if index.val < level then 2 else 1 := by
    rw [Finset.prod_ite, Finset.prod_const, Finset.prod_const_one, mul_one]
    congr 1
    rw [Fin.card_filter_val_lt, min_eq_right enough]
  rw [rising, Fintype.card_piFinset, powers, ← Finset.prod_mul_distrib]
  calc ∏ index : Fin count, (if index.val < level then low else Finset.univ).card * (if index.val < level then 2 else 1)
      = ∏ _index : Fin count, 2 ^ 16 * blocks := by
        refine Finset.prod_congr rfl fun index _ => ?_
        split
        · exact card_grows
        · rw [Finset.card_univ, Fintype.card_fin, mul_one]
    _ = (2 ^ 16 * blocks) ^ count := by rw [Finset.prod_const, Finset.card_univ, Fintype.card_fin]

/-- One eighth of the sequences of six values below `2 ^ 31` gives more than three of six levels. -/
theorem getRandomLevel_distribution_server :
    (Finset.univ.filter fun draws : Fin 6 → Fin (2 ^ 16 * 2 ^ 15) =>
        3 < getRandomLevel 6 (List.ofFn fun index => (draws index).val)).card * 2 ^ 3 = (2 ^ 16 * 2 ^ 15) ^ 6 :=
  getRandomLevel_distribution 6 (2 ^ 15) 6 3 (by decide) (by decide)

end MySkipList.SkipList
