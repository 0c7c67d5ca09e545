import MySkipList.Foundation.Execution

namespace MySkipList.Foundation
variable {A : Type}

/-- A read of adjacent cells from the memory behind a pointer. -/
def load (memory : List A) (offset count : Nat) : Exec (List A) :=
  if offset + count ≤ memory.length then pure ((memory.drop offset).take count) else throw .outOfBounds

/-- A write of adjacent cells to the memory behind a pointer. -/
def store (memory : List A) (offset : Nat) (cells : List A) : Exec (List A) :=
  if offset + cells.length ≤ memory.length then
    pure (memory.take offset ++ cells ++ memory.drop (offset + cells.length))
  else throw .outOfBounds

/-- A read returns the block that starts at its offset. -/
theorem load_block (before block after : List A) :
    load (before ++ block ++ after) before.length block.length = .ok block := by
  have inside : before.length + block.length ≤ (before ++ block ++ after).length := by simp
  rw [load, if_pos inside, List.append_assoc, List.drop_left, List.take_left]
  rfl

/-- A write replaces the block that starts at its offset and nothing else. -/
theorem store_block (before after : List A) {block cells : List A} (size : block.length = cells.length) :
    store (before ++ block ++ after) before.length cells = .ok (before ++ cells ++ after) := by
  have inside : before.length + cells.length ≤ (before ++ block ++ after).length := by simp [size]
  have front : (before ++ block ++ after).take before.length = before := by
    rw [List.append_assoc, List.take_left]
  rw [store, if_pos inside, front, ← size, ← List.length_append, List.drop_left]
  rfl

theorem store_outside {memory : List A} {offset : Nat} {cells : List A}
    (outside : memory.length < offset + cells.length) : store memory offset cells = .error .outOfBounds := by
  rw [store, if_neg (by omega)]
  rfl

end MySkipList.Foundation
