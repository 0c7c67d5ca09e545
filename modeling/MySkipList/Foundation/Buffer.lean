import MySkipList.Foundation.Execution

namespace MySkipList.Foundation

/-- A buffer is an array of a fixed size with checked indices. -/
structure Buffer (A : Type) where
  size : Nat
  cells : Nat → A

namespace Buffer
variable {A : Type}

def filled (size : Nat) (value : A) : Buffer A := ⟨size, fun _ => value⟩

def read (buffer : Buffer A) (index : Nat) : Exec A :=
  if index < buffer.size then pure (buffer.cells index) else throw .outOfBounds

def write (buffer : Buffer A) (index : Nat) (value : A) : Exec (Buffer A) :=
  if index < buffer.size then pure ⟨buffer.size, Function.update buffer.cells index value⟩
  else throw .outOfBounds

theorem read_inside {buffer : Buffer A} {index : Nat} (inside : index < buffer.size) :
    buffer.read index = .ok (buffer.cells index) := by
  simp [read, inside]

theorem write_inside {buffer : Buffer A} {index : Nat} (inside : index < buffer.size) (value : A) :
    buffer.write index value = .ok ⟨buffer.size, Function.update buffer.cells index value⟩ := by
  simp [write, inside]

end Buffer

end MySkipList.Foundation
