import Mathlib

namespace MySkipList.Foundation

section Recency
variable {K V : Type} [DecidableEq K]

/-- The pairs other than the pair of one key, in their order. -/
def forget (key : K) (recency : List (K × V)) : List (K × V) :=
  recency.filter fun entry => entry.1 ≠ key

/-- The pair of the key, when present, moves to the front. -/
def touch (key : K) (recency : List (K × V)) : List (K × V) :=
  match recency.lookup key with
  | some value => (key, value) :: forget key recency
  | none => recency

/-- A list of pairs is keyed when no key occurs twice. -/
def Keyed (recency : List (K × V)) : Prop := (recency.map Prod.fst).Nodup

omit [DecidableEq K] in
theorem Keyed.value_unique {recency : List (K × V)} (keyed : Keyed recency) {key : K} {first second : V}
    (one : (key, first) ∈ recency) (two : (key, second) ∈ recency) : first = second :=
  congrArg Prod.snd (List.inj_on_of_nodup_map keyed one two rfl)

theorem lookup_eq_none {recency : List (K × V)} {key : K} :
    recency.lookup key = none ↔ key ∉ recency.map Prod.fst := by
  rw [List.lookup_eq_none_iff, List.mem_map, not_exists]
  apply forall_congr'
  intro entry
  rw [not_and, bne_iff_ne, ne_comm]

theorem mem_of_lookup {recency : List (K × V)} {key : K} {value : V}
    (found : recency.lookup key = some value) : (key, value) ∈ recency := by
  obtain ⟨before, after, split, _⟩ := List.lookup_eq_some_iff.mp found
  simp [split]

/-- In a keyed list the lookup finds exactly the stored value. -/
theorem lookup_eq_some {recency : List (K × V)} (keyed : Keyed recency) {key : K} {value : V} :
    recency.lookup key = some value ↔ (key, value) ∈ recency := by
  constructor
  · exact mem_of_lookup
  · intro member
    cases found : recency.lookup key with
    | none => exact absurd (List.mem_map_of_mem member) (lookup_eq_none.mp found)
    | some other => rw [keyed.value_unique (mem_of_lookup found) member]

@[simp] theorem mem_forget {recency : List (K × V)} {key : K} {entry : K × V} :
    entry ∈ forget key recency ↔ entry ∈ recency ∧ entry.1 ≠ key := by
  simp [forget]

theorem forget_absent {recency : List (K × V)} {key : K} (absent : key ∉ recency.map Prod.fst) :
    forget key recency = recency := by
  rw [forget, List.filter_eq_self]
  intro entry member
  have different : entry.1 ≠ key := fun same => absent (same ▸ List.mem_map_of_mem member)
  simpa using different

theorem Keyed.forget {recency : List (K × V)} (keyed : Keyed recency) (key : K) :
    Keyed (forget key recency) := keyed.sublist (List.filter_sublist.map _)

omit [DecidableEq K] in
/-- A fresh key in front keeps the list keyed. -/
theorem Keyed.cons {recency : List (K × V)} (keyed : Keyed recency) {key : K} (value : V)
    (absent : key ∉ recency.map Prod.fst) : Keyed ((key, value) :: recency) :=
  List.nodup_cons.mpr ⟨absent, keyed⟩

theorem forget_fresh (key : K) (recency : List (K × V)) : key ∉ (forget key recency).map Prod.fst := by
  simp [forget]

theorem touch_present {recency : List (K × V)} (keyed : Keyed recency) {key : K} {value : V}
    (member : (key, value) ∈ recency) : touch key recency = (key, value) :: forget key recency := by
  simp [touch, (lookup_eq_some keyed).mpr member]

theorem touch_absent {recency : List (K × V)} {key : K} (absent : key ∉ recency.map Prod.fst) :
    touch key recency = recency := by
  simp [touch, lookup_eq_none.mpr absent]

/-- A touch keeps the pairs. -/
theorem mem_touch {recency : List (K × V)} (keyed : Keyed recency) (key : K) {entry : K × V} :
    entry ∈ touch key recency ↔ entry ∈ recency := by
  by_cases present : key ∈ recency.map Prod.fst
  · obtain ⟨value, member⟩ : ∃ value, (key, value) ∈ recency := by simpa using present
    rw [touch_present keyed member, List.mem_cons, mem_forget]
    constructor
    · rintro (rfl | ⟨old, _⟩)
      · exact member
      · exact old
    · intro old
      by_cases same : entry.1 = key
      · left
        rcases entry with ⟨other, stored⟩
        obtain rfl : other = key := same
        rw [keyed.value_unique old member]
      · exact Or.inr ⟨old, same⟩
  · rw [touch_absent present]

theorem Keyed.touch {recency : List (K × V)} (keyed : Keyed recency) (key : K) :
    Keyed (touch key recency) := by
  unfold Foundation.touch
  split
  · exact (keyed.forget key).cons _ (forget_fresh key recency)
  · exact keyed

/-- A touch keeps the number of pairs. -/
theorem touch_length {recency : List (K × V)} (keyed : Keyed recency) (key : K) :
    (touch key recency).length = recency.length := by
  have permuted : (touch key recency).Perm recency := by
    rw [List.perm_ext_iff_of_nodup (keyed.touch key).of_map keyed.of_map]
    exact fun entry => mem_touch keyed key
  exact permuted.length_eq

/-- A touch only moves a pair. -/
theorem touch_perm {recency : List (K × V)} (keyed : Keyed recency) (key : K) :
    (touch key recency).Perm recency := by
  rw [List.perm_ext_iff_of_nodup (keyed.touch key).of_map keyed.of_map]
  exact fun entry => mem_touch keyed key

/-- A present key leaves one pair less. -/
theorem Keyed.forget_length {recency : List (K × V)} (keyed : Keyed recency) {key : K}
    (present : key ∈ recency.map Prod.fst) : (Foundation.forget key recency).length + 1 = recency.length := by
  obtain ⟨value, member⟩ : ∃ value, (key, value) ∈ recency := by simpa using present
  rw [← touch_length keyed key, touch_present keyed member, List.length_cons]

section Capacity
omit [DecidableEq K]

/-- A full list has a positive capacity and exactly this many pairs. -/
def Full (capacity : Int) (recency : List (K × V)) : Prop :=
  0 < capacity ∧ (recency.length : Int) = capacity

instance (capacity : Int) (recency : List (K × V)) : Decidable (Full capacity recency) :=
  inferInstanceAs (Decidable (_ ∧ _))

/-- A full list gives up its last pair. -/
def makeRoom (capacity : Int) (recency : List (K × V)) : List (K × V) :=
  if Full capacity recency then recency.dropLast else recency

/-- The key of the pair that a full list gives up. -/
def overflow (capacity : Int) (recency : List (K × V)) : List K :=
  if Full capacity recency then (recency.getLast?.map Prod.fst).toList else []

/-- A positive capacity keeps the most recent pairs; zero keeps every pair. -/
def retain (capacity : Int) (recency : List (K × V)) : List (K × V) :=
  if 0 < capacity then recency.take capacity.toNat else recency

/-- The keys beyond a positive capacity, from the least to the most recent. -/
def dropped (capacity : Int) (recency : List (K × V)) : List K :=
  if 0 < capacity then ((recency.drop capacity.toNat).map Prod.fst).reverse else []

theorem makeRoom_sublist (capacity : Int) (recency : List (K × V)) :
    (makeRoom capacity recency).Sublist recency := by
  unfold makeRoom
  split
  · exact List.dropLast_sublist recency
  · exact List.Sublist.refl recency

theorem makeRoom_length (capacity : Int) (recency : List (K × V)) :
    (makeRoom capacity recency).length = if Full capacity recency then recency.length - 1 else recency.length := by
  rw [makeRoom, apply_ite List.length, List.length_dropLast]

/-- Lists that both give up their last pair stay in the same order. -/
theorem dropLast_sublist_dropLast {fewer more : List (K × V)} (sub : fewer.Sublist more) :
    fewer.dropLast.Sublist more.dropLast := by
  have shorter := (List.reverse_sublist.mpr sub).tail
  rwa [List.tail_reverse, List.tail_reverse, List.reverse_sublist] at shorter

theorem retain_sublist (capacity : Int) (recency : List (K × V)) :
    (retain capacity recency).Sublist recency := by
  unfold retain
  split
  · exact List.take_sublist ..
  · exact List.Sublist.refl recency

theorem Keyed.sublist {recency kept : List (K × V)} (keyed : Keyed recency) (sub : kept.Sublist recency) :
    Keyed kept := List.Nodup.sublist (sub.map _) keyed

/-- The kept pairs and the given-up key are the keys of the list. -/
theorem makeRoom_overflow (capacity : Int) (recency : List (K × V)) :
    recency.map Prod.fst = (makeRoom capacity recency).map Prod.fst ++ overflow capacity recency := by
  unfold makeRoom overflow
  split
  · rcases List.eq_nil_or_concat recency with rfl | ⟨front, last, rfl⟩
    · rfl
    · simp
  · simp

/-- The pairs that keep their place are the pairs whose key is not given up. -/
theorem Keyed.mem_makeRoom {recency : List (K × V)} (keyed : Keyed recency) (capacity : Int) {entry : K × V} :
    entry ∈ makeRoom capacity recency ↔ entry ∈ recency ∧ entry.1 ∉ overflow capacity recency := by
  have distinct := keyed
  rw [Keyed, makeRoom_overflow capacity, List.nodup_append'] at distinct
  constructor
  · intro kept
    exact ⟨(makeRoom_sublist capacity recency).subset kept,
      fun given => distinct.2.2 (List.mem_map_of_mem kept) given⟩
  · rintro ⟨member, placed⟩
    have named : entry.1 ∈ recency.map Prod.fst := List.mem_map_of_mem member
    rw [makeRoom_overflow capacity, List.mem_append] at named
    obtain ⟨other, kept, same⟩ := List.mem_map.mp (named.resolve_right placed)
    have equal := List.inj_on_of_nodup_map keyed ((makeRoom_sublist capacity recency).subset kept) member same
    exact equal ▸ kept

/-- The kept pairs and the dropped keys are the keys of the list. -/
theorem retain_dropped (capacity : Int) (recency : List (K × V)) :
    recency.map Prod.fst = (retain capacity recency).map Prod.fst ++ (dropped capacity recency).reverse := by
  unfold retain dropped
  split
  · rw [List.reverse_reverse, ← List.map_append, List.take_append_drop]
  · simp

/-- The kept pairs and the pairs beyond the capacity are the list. -/
theorem retain_append_drop (capacity : Int) (recency : List (K × V)) :
    retain capacity recency ++ (if 0 < capacity then recency.drop capacity.toNat else []) = recency := by
  unfold retain
  split
  · exact List.take_append_drop ..
  · exact List.append_nil recency

/-- A list that fits is kept whole. -/
theorem retain_whole {capacity : Int} {recency : List (K × V)}
    (fits : 0 < capacity → (recency.length : Int) ≤ capacity) :
    retain capacity recency = recency ∧ dropped capacity recency = [] := by
  unfold retain dropped
  split
  · rename_i positive
    have enough : recency.length ≤ capacity.toNat := by
      have bound := fits positive
      omega
    exact ⟨List.take_of_length_le enough, by rw [List.drop_eq_nil_of_le enough]; rfl⟩
  · exact ⟨rfl, rfl⟩

end Capacity

end Recency

end MySkipList.Foundation
