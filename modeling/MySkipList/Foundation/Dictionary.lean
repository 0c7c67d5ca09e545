import MySkipList.Foundation.Execution

namespace MySkipList.Foundation

/-- A hash map with unique keys; no result depends on its iteration order. -/
abbrev Dictionary (K V : Type) := AList fun _ : K => V

namespace Dictionary
variable {K V : Type} [DecidableEq K]

def size (table : Dictionary K V) : Nat := table.entries.length

/-- An insertion keeps the old value of a present key. -/
def emplace (table : Dictionary K V) (key : K) (value : V) : Dictionary K V :=
  if (table.lookup key).isSome then table else table.insert key value

/-- This loop changes the values of the given keys one after the other. -/
def updateKeys (change : V → Exec V) : List K → Dictionary K V → Exec (Dictionary K V)
  | [], table => pure table
  | key :: rest, table =>
      match table.lookup key with
      | none => updateKeys change rest table
      | some value => do
          let changed ← change value
          updateKeys change rest (table.insert key changed)

/-- This loop changes every value of the table. -/
def updateAll (change : V → Exec V) (table : Dictionary K V) : Exec (Dictionary K V) :=
  updateKeys change table.keys table

theorem emplace_absent {table : Dictionary K V} {key : K} (absent : table.lookup key = none) (value : V) :
    table.emplace key value = table.insert key value := by
  simp [emplace, absent]

theorem lookup_insert (table : Dictionary K V) (key query : K) (value : V) :
    (table.insert key value).lookup query = if query = key then some value else table.lookup query := by
  by_cases same : query = key
  · subst query
    simp [AList.lookup_insert]
  · simp [AList.lookup_insert_ne same, same]

theorem lookup_erase (table : Dictionary K V) (key query : K) :
    (table.erase key).lookup query = if query = key then none else table.lookup query := by
  by_cases same : query = key
  · subst query
    simp [AList.lookup_erase]
  · simp [AList.lookup_erase_ne same, same]

theorem lookup_emplace {table : Dictionary K V} {key : K} (absent : table.lookup key = none)
    (value : V) (query : K) :
    (table.emplace key value).lookup query = if query = key then some value else table.lookup query := by
  rw [emplace_absent absent, lookup_insert]

theorem mem_keys_iff (table : Dictionary K V) (key : K) :
    key ∈ table.keys ↔ ∃ value, table.lookup key = some value := by
  rw [← AList.mem_keys, ← AList.lookup_isSome, Option.isSome_iff_exists]

/-- A list of the present keys without repetitions counts the entries. -/
theorem size_eq (table : Dictionary K V) (keys : List K) (distinct : keys.Nodup)
    (same : ∀ key, key ∈ keys ↔ ∃ value, table.lookup key = some value) :
    table.size = keys.length := by
  have permuted : table.keys.Perm keys := by
    rw [List.perm_ext_iff_of_nodup table.keys_nodup distinct]
    intro key
    rw [mem_keys_iff, same]
  have counted := permuted.length_eq
  simpa [size, AList.keys, List.keys] using counted

theorem updateKeys_outside {change : V → Exec V} {keys : List K} {table next : Dictionary K V}
    (returned : updateKeys change keys table = .ok next) {key : K} (outside : key ∉ keys) :
    next.lookup key = table.lookup key := by
  induction keys generalizing table with
  | nil =>
      simp only [updateKeys, Exec.pure_eq, Except.ok.injEq] at returned
      rw [returned]
  | cons first rest ih =>
      obtain ⟨different, later⟩ := not_or.mp (fun member => outside (List.mem_cons.mpr member))
      rw [updateKeys] at returned
      split at returned
      · exact ih returned later
      · obtain ⟨changed, _, returned⟩ := (Exec.bind_eq_ok _ _ _).mp returned
        rw [ih returned later, lookup_insert, if_neg different]

/-- Each value of the result is the changed value of its key. -/
theorem updateKeys_inside {change : V → Exec V} {keys : List K} {table next : Dictionary K V}
    (returned : updateKeys change keys table = .ok next) (distinct : keys.Nodup) {key : K} (inside : key ∈ keys)
    {value : V} (found : table.lookup key = some value) :
    ∃ changed, change value = .ok changed ∧ next.lookup key = some changed := by
  induction keys generalizing table with
  | nil => simp at inside
  | cons first rest ih =>
      obtain ⟨fresh, distinct⟩ := List.nodup_cons.mp distinct
      rw [updateKeys] at returned
      rcases List.mem_cons.mp inside with rfl | later
      · rw [found] at returned
        obtain ⟨changed, accepted, returned⟩ := (Exec.bind_eq_ok _ _ _).mp returned
        refine ⟨changed, accepted, ?_⟩
        rw [updateKeys_outside returned fresh, lookup_insert, if_pos rfl]
      · have different : key ≠ first := fun same => fresh (same ▸ later)
        split at returned
        · exact ih returned distinct later found
        · obtain ⟨changed, _, returned⟩ := (Exec.bind_eq_ok _ _ _).mp returned
          exact ih returned distinct later (by rw [lookup_insert, if_neg different, found])

/-- The loop returns when each of its values can be changed. -/
theorem updateKeys_returns {change : V → Exec V} {keys : List K} {table : Dictionary K V} (distinct : keys.Nodup)
    (total : ∀ key ∈ keys, ∀ value, table.lookup key = some value → ∃ changed, change value = .ok changed) :
    ∃ next, updateKeys change keys table = .ok next := by
  induction keys generalizing table with
  | nil => exact ⟨table, rfl⟩
  | cons first rest ih =>
      obtain ⟨fresh, distinct⟩ := List.nodup_cons.mp distinct
      rw [updateKeys]
      cases found : table.lookup first with
      | none => exact ih distinct fun key member => total key (List.mem_cons_of_mem first member)
      | some value =>
          obtain ⟨changed, accepted⟩ := total first (List.mem_cons_self ..) value found
          dsimp only
          rw [accepted, Exec.ok_bind]
          refine ih distinct fun key member value stored => ?_
          have different : key ≠ first := fun same => fresh (same ▸ member)
          rw [lookup_insert, if_neg different] at stored
          exact total key (List.mem_cons_of_mem first member) value stored

theorem updateAll_returns {change : V → Exec V} {table : Dictionary K V}
    (total : ∀ key value, table.lookup key = some value → ∃ changed, change value = .ok changed) :
    ∃ next, table.updateAll change = .ok next :=
  updateKeys_returns table.keys_nodup fun key _ => total key

/-- The result has the same keys, each with its changed value. -/
theorem updateAll_lookup {change : V → Exec V} {table next : Dictionary K V}
    (returned : table.updateAll change = .ok next) (key : K) :
    (table.lookup key = none ∧ next.lookup key = none) ∨
      ∃ value changed, table.lookup key = some value ∧ change value = .ok changed ∧ next.lookup key = some changed := by
  cases found : table.lookup key with
  | none =>
      have outside : key ∉ table.keys := by simp [mem_keys_iff, found]
      exact Or.inl ⟨rfl, (updateKeys_outside returned outside).trans found⟩
  | some value =>
      obtain ⟨changed, accepted, stored⟩ :=
        updateKeys_inside returned table.keys_nodup ((mem_keys_iff table key).mpr ⟨value, found⟩) found
      exact Or.inr ⟨value, changed, rfl, accepted, stored⟩

end Dictionary

end MySkipList.Foundation
